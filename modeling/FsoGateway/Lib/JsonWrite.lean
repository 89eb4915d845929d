import FsoGateway.Lib.Json
import FsoGateway.Lib.Printf
import Mathlib.Data.List.Nodup

/-! # Writing JSON

    A written value is a text with the value that it reads as.  The texts are
    those of `printf` conversions, of names and strings in which nothing is
    escaped, and of arrays and objects without white space.

    * `chars_digits`, `chars_signed`, `chars_fixed` — the characters of a
      conversion;
    * `Written.integer`, `Written.fixed`, `Written.string`, `Written.array`,
      `Written.object` — what can be written;
    * `Written.loads` — a written value with white space behind it. -/

namespace Json

/-! ## Characters of ASCII bytes -/

/-- The characters of an ASCII text. -/
def chars (t : Printf.Text) : Text := t.map fun b => Char.ofNat b.toNat

@[simp] theorem chars_nil : chars [] = [] := rfl

@[simp] theorem chars_cons (b : UInt8) (t : Printf.Text) :
    chars (b :: t) = Char.ofNat b.toNat :: chars t := rfl

@[simp] theorem chars_append (t u : Printf.Text) : chars (t ++ u) = chars t ++ chars u :=
  List.map_append

def Ascii (t : Text) : Prop := ∀ c ∈ t, c.toNat < 128

instance (t : Text) : Decidable (Ascii t) := List.decidableBAll _ t

theorem chars_ascii {cs : List Char} (h : Ascii cs) :
    chars (Printf.ascii cs) = cs := by
  rw [chars, Printf.ascii, List.map_map]
  refine (List.map_congr_left fun c hc => ?_).trans (List.map_id cs)
  have hlt := h c hc
  show Char.ofNat c.toNat.toUInt8.toNat = c
  have hbyte : c.toNat.toUInt8.toNat = c.toNat := Nat.mod_eq_of_lt (by omega)
  rw [hbyte, Char.ofNat_toNat]

theorem utf8Encode_ascii {cs : List Char} (h : Ascii cs) :
    cs.flatMap String.utf8EncodeChar = Printf.ascii cs := by
  induction cs with
  | nil => rfl
  | cons c cs ih =>
      have hsize : c.utf8Size = 1 := by
        have hlt := h c List.mem_cons_self
        rw [Char.utf8Size, if_pos]
        exact UInt32.le_iff_toNat_le.mpr (Nat.le_of_lt_succ hlt)
      rw [List.flatMap_cons, String.utf8EncodeChar_eq_singleton hsize,
        ih fun d hd => h d (List.mem_cons_of_mem c hd)]
      rfl

/-- The characters of an ASCII literal. -/
theorem chars_bytes {s : String} (h : Ascii s.toList) :
    chars (Printf.bytes s) = s.toList := by
  have hbytes : Printf.bytes s = Printf.ascii s.toList := by
    rw [← utf8Encode_ascii h]
    show s.toByteArray.data.toList = _
    rw [← String.utf8Encode_toList, List.utf8Encode, List.data_toByteArray]
  rw [hbytes, chars_ascii h]

/-! ## Conversions -/

theorem isDigit_lt {c : Char} (h : c.isDigit = true) : c.toNat < 128 := by
  have hle := (Char.isDigit_iff_toNat.mp h).2
  exact Nat.lt_of_le_of_lt hle (by decide)

@[simp] theorem chars_digits (n : Nat) : chars (Printf.digits n) = Nat.toDigits 10 n :=
  chars_ascii fun c hc => isDigit_lt (toDigits_isDigit n c hc)

theorem chars_signed (x : Int) :
    chars (Printf.signed x) = sign (decide (x < 0)) ++ Nat.toDigits 10 x.natAbs := by
  rw [Printf.signed]
  by_cases h : x < 0
  · rw [if_pos h, decide_eq_true h, chars_cons, chars_digits]
    rfl
  · rw [if_neg h, decide_eq_false h, chars_digits]
    rfl

/-- Digits behind a point. -/
def decimals (p n : Nat) : Text :=
  List.replicate (p - (Nat.toDigits 10 n).length) '0' ++ Nat.toDigits 10 n

theorem chars_zeroPad (p n : Nat) : chars (Printf.zeroPad p (Printf.digits n)) = decimals p n := by
  have hlen : (Printf.digits n).length = (Nat.toDigits 10 n).length := List.length_map _
  rw [Printf.zeroPad, List.leftpad, chars_append, chars_digits, hlen, decimals]
  congr 1
  exact List.map_replicate

theorem decimals_isDigit (p n : Nat) : ∀ c ∈ decimals p n, c.isDigit = true := by
  intro c hc
  rcases List.mem_append.mp hc with hzero | hdigit
  · rw [(List.mem_replicate.mp hzero).2]
    rfl
  · exact toDigits_isDigit n c hdigit

theorem decimals_ne_nil (p n : Nat) : decimals p n ≠ [] := by
  obtain ⟨c, cs, hc, -⟩ := toDigits_head n
  rw [decimals, hc]
  exact List.append_ne_nil_of_right_ne_nil _ (List.cons_ne_nil c cs)

theorem decimals_length {p n : Nat} (hp : 0 < p) (h : n < 10 ^ p) : (decimals p n).length = p := by
  have hle := (Nat.length_toDigits_le_iff (by decide) hp).mpr h
  rw [decimals, List.length_append, List.length_replicate]
  omega

theorem ofDigits_decimals {p a n : Nat} (hp : 0 < p) (h : n < 10 ^ p) :
    ofDigits (Nat.toDigits 10 a ++ decimals p n) = 10 ^ p * a + n := by
  have hlen := decimals_length hp h
  have hn : Nat.ofDigitChars 10 (decimals p n) 0 = n := by
    rw [decimals, Nat.ofDigitChars_append, Nat.ofDigitChars_replicate_zero, Nat.mul_zero,
      Nat.ofDigitChars_ten_toDigits]
  rw [ofDigits, Nat.ofDigitChars_append, Nat.ofDigitChars_ten_toDigits,
    Nat.ofDigitChars_eq_ofDigitChars_zero, hn, hlen]

/-- The number that `%.pf` writes. -/
def fixedValue (p : Nat) (x : ℚ) : ℚ :=
  signed (decide (x < 0)) (((Printf.roundHalfEven (|x| * 10 ^ p)).toNat : ℚ) / 10 ^ p)

theorem chars_fixed {p : Nat} (hp : 0 < p) (x : ℚ) :
    ∃ n : Nat, chars (Printf.fixed p x)
        = sign (decide (x < 0)) ++ (Nat.toDigits 10 (n / 10 ^ p) ++ '.' :: decimals p (n % 10 ^ p))
      ∧ fixedValue p x
        = signed (decide (x < 0))
          (ofDecimal (Nat.toDigits 10 (n / 10 ^ p)) (decimals p (n % 10 ^ p))) := by
  refine ⟨(Printf.roundHalfEven (|x| * 10 ^ p)).toNat, ?_, ?_⟩
  · rw [Printf.fixed]
    simp only [chars_append, chars_digits, if_neg (Nat.ne_of_gt hp), chars_cons, chars_zeroPad]
    rw [List.append_assoc]
    congr 1
    by_cases h : x < 0
    · rw [if_pos h, decide_eq_true h]
      rfl
    · rw [if_neg h, decide_eq_false h]
      rfl
  · rw [fixedValue]
    generalize (Printf.roundHalfEven (|x| * 10 ^ p)).toNat = n
    have hmod : n % 10 ^ p < 10 ^ p := Nat.mod_lt n (Nat.pow_pos (by decide))
    rw [ofDecimal, ofDigits_decimals hp hmod, Nat.div_add_mod, decimals_length hp hmod]

/-! ## Printed texts -/

/-- Characters that are printed, all of ASCII. -/
def Printed (t : Text) : Prop := ∀ c ∈ t, 32 ≤ c.toNat ∧ c.toNat < 128

theorem printed_append {t u : Text} (ht : Printed t) (hu : Printed u) : Printed (t ++ u) := by
  intro c hc
  rcases List.mem_append.mp hc with h | h
  · exact ht c h
  · exact hu c h

theorem printed_cons {c : Char} (hc : 32 ≤ c.toNat ∧ c.toNat < 128) {t : Text}
    (ht : Printed t) : Printed (c :: t) := by
  intro d hd
  rcases List.mem_cons.mp hd with rfl | h
  · exact hc
  · exact ht d h

theorem printed_nil : Printed [] := fun _ hc => absurd hc List.not_mem_nil

theorem printed_digits {t : Text} (h : ∀ c ∈ t, c.isDigit = true) : Printed t := by
  intro c hc
  obtain ⟨hle, hlt⟩ := Char.isDigit_iff_toNat.mp (h c hc)
  exact ⟨Nat.le_trans (by decide) hle, Nat.lt_of_le_of_lt hlt (by decide)⟩

theorem printed_sign (negative : Bool) : Printed (sign negative) := by
  cases negative with
  | false => exact printed_nil
  | true => exact printed_cons (by decide) printed_nil

theorem printed_commas {ts : List Text} (h : ∀ t ∈ ts, Printed t) : Printed (commas ts) := by
  induction ts using commas.induct with
  | case1 => exact printed_nil
  | case2 t => exact h t List.mem_cons_self
  | case3 t ts hne ih =>
      rw [commas]
      · exact printed_append (h t List.mem_cons_self)
          (printed_cons (by decide) (ih fun u hu => h u (List.mem_cons_of_mem t hu)))
      · exact hne

/-- A character that is printed, and stands between quotes as it is. -/
def isClean (c : Char) : Bool :=
  decide (32 ≤ c.toNat) && decide (c.toNat < 128) && c != '"' && c != '\\'

/-- A text that is printed between quotes as it is. -/
def Clean (t : Text) : Prop := ∀ c ∈ t, isClean c = true

instance (t : Text) : Decidable (Clean t) := List.decidableBAll _ t

theorem isClean_iff {c : Char} :
    isClean c = true ↔ ((32 ≤ c.toNat ∧ c.toNat < 128) ∧ c ≠ '"') ∧ c ≠ '\\' := by
  rw [isClean, Bool.and_eq_true, Bool.and_eq_true, Bool.and_eq_true, decide_eq_true_iff,
    decide_eq_true_iff, bne_iff_ne, bne_iff_ne]

theorem Clean.plain {t : Text} (h : Clean t) : Plain t := by
  intro c hc
  obtain ⟨⟨⟨hle, -⟩, hquote⟩, hesc⟩ := isClean_iff.mp (h c hc)
  exact ⟨hle, hquote, hesc⟩

theorem Clean.printed {t : Text} (h : Clean t) : Printed t :=
  fun c hc => (isClean_iff.mp (h c hc)).1.1

theorem Clean.ascii {t : Text} (h : Clean t) : Ascii t := fun c hc => (h.printed c hc).2

theorem clean_append {t u : Text} (ht : Clean t) (hu : Clean u) : Clean (t ++ u) := by
  intro c hc
  rcases List.mem_append.mp hc with h | h
  · exact ht c h
  · exact hu c h

theorem clean_digits {t : Text} (h : ∀ c ∈ t, c.isDigit = true) : Clean t := by
  intro c hc
  have hdigit := h c hc
  exact isClean_iff.mpr ⟨⟨printed_digits h c hc, digit_ne hdigit _ rfl⟩, digit_ne hdigit _ rfl⟩

abbrev CleanText := { t : Text // Clean t }

/-- What of a text is clean. -/
def cleanOf (t : Text) : CleanText := ⟨t.filter isClean, fun _ hc => (List.mem_filter.mp hc).2⟩

theorem cleanOf_val {t : Text} (h : Clean t) : (cleanOf t).1 = t := List.filter_eq_self.mpr h

/-! ## Written values -/

/-- A printed text, and the value that it reads as. -/
structure Written where
  text : Text
  value : Value
  reads : Reads text value
  printed : Printed text

namespace Written

theorem reads_signed (x : Int) : Reads (chars (Printf.signed x)) (.int x) := by
  have hx : signed (decide (x < 0)) (x.natAbs : Int) = x := by
    rw [signed]
    by_cases h : x < 0
    · rw [decide_eq_true h, if_pos rfl]
      omega
    · rw [decide_eq_false h, if_neg Bool.false_ne_true]
      omega
  have hreads := reads_integer (decide (x < 0)) x.natAbs
  rwa [hx, ← chars_signed] at hreads

theorem printed_signed (x : Int) : Printed (chars (Printf.signed x)) := by
  rw [chars_signed]
  exact printed_append (printed_sign _) (printed_digits (toDigits_isDigit _))

/-- `%d`, `%u`, `%ld` and `%lu`. -/
def integer (x : Int) : Written :=
  ⟨chars (Printf.signed x), .int x, reads_signed x, printed_signed x⟩

theorem reads_fixed {p : Nat} (hp : 0 < p) (x : ℚ) :
    Reads (chars (Printf.fixed p x)) (.float (fixedValue p x)) := by
  obtain ⟨n, htext, hvalue⟩ := chars_fixed hp x
  rw [htext, hvalue]
  exact reads_decimal _ _ (decimals_ne_nil _ _) (decimals_isDigit _ _)

theorem printed_fixed {p : Nat} (hp : 0 < p) (x : ℚ) : Printed (chars (Printf.fixed p x)) := by
  obtain ⟨n, htext, -⟩ := chars_fixed hp x
  rw [htext]
  exact printed_append (printed_sign _) (printed_append (printed_digits (toDigits_isDigit _))
    (printed_cons (by decide) (printed_digits (decimals_isDigit _ _))))

/-- `%.pf`. -/
def fixed (p : Nat) (hp : 0 < p) (x : ℚ) : Written :=
  ⟨chars (Printf.fixed p x), .float (fixedValue p x), reads_fixed hp x, printed_fixed hp x⟩

theorem printed_quoted {t : Text} (h : Printed t) : Printed (quoted t) :=
  printed_cons (by decide) (printed_append h (printed_cons (by decide) printed_nil))

/-- A string. -/
def string (t : CleanText) : Written :=
  ⟨quoted t.1, .str (codes t.1), reads_string t.2.plain, printed_quoted t.2.printed⟩

theorem reads_elements (es : List Written) :
    Reads ('[' :: (commas (es.map Written.text) ++ [']'])) (.arr (es.map Written.value)) := by
  have hes : ∀ e ∈ es.map fun w => (w.text, w.value), Reads e.1 e.2 := by
    intro e he
    obtain ⟨w, -, rfl⟩ := List.mem_map.mp he
    exact w.reads
  have hreads := reads_array hes
  rwa [List.map_map, List.map_map] at hreads

theorem printed_elements (es : List Written) :
    Printed ('[' :: (commas (es.map Written.text) ++ [']'])) := by
  refine printed_cons (by decide) (printed_append (printed_commas ?_)
    (printed_cons (by decide) printed_nil))
  intro t ht
  obtain ⟨w, -, rfl⟩ := List.mem_map.mp ht
  exact w.printed

/-- An array. -/
def array (es : List Written) : Written := ⟨_, _, reads_elements es, printed_elements es⟩

/-- A member of an object. -/
abbrev Field := CleanText × Written

/-- A member as it is written. -/
def Field.text (m : Field) : Text := quoted m.1.1 ++ ':' :: m.2.text

/-- A member as it is read. -/
def Field.value (m : Field) : List Nat × Value := (codes m.1.1, m.2.value)

theorem reads_fields (ms : List Field) :
    Reads ('{' :: (commas (ms.map Field.text) ++ ['}'])) (.obj (ms.map Field.value)) := by
  have hname : ∀ m ∈ ms.map fun m => ((m.1.1, m.2.text), m.2.value), Plain m.1.1 := by
    intro m hm
    obtain ⟨f, -, rfl⟩ := List.mem_map.mp hm
    exact f.1.2.plain
  have hvalue : ∀ m ∈ ms.map fun m => ((m.1.1, m.2.text), m.2.value), Reads m.1.2 m.2 := by
    intro m hm
    obtain ⟨f, -, rfl⟩ := List.mem_map.mp hm
    exact f.2.reads
  have hreads := reads_object hname hvalue
  rwa [List.map_map, List.map_map] at hreads

theorem printed_fields (ms : List Field) :
    Printed ('{' :: (commas (ms.map Field.text) ++ ['}'])) := by
  refine printed_cons (by decide) (printed_append (printed_commas ?_)
    (printed_cons (by decide) printed_nil))
  intro t ht
  obtain ⟨f, -, rfl⟩ := List.mem_map.mp ht
  exact printed_append (printed_quoted f.1.2.printed) (printed_cons (by decide) f.2.printed)

/-- An object. -/
def object (ms : List Field) : Written := ⟨_, _, reads_fields ms, printed_fields ms⟩

theorem codes_injective {t u : Text} (h : codes t = codes u) : t = u :=
  List.map_injective_iff.mpr (fun _ _ hc => Char.toNat_inj.mp hc) h

/-- A member of an object by its name, if no other one has it. -/
theorem get?_field {ms : List Field} (hnodup : (ms.map fun m => m.1.1).Nodup) {m : Field}
    (hm : m ∈ ms) {name : String} (hname : m.1.1 = name.toList) :
    (object ms).value.get? name = some m.2.value := by
  show (((ms.map Field.value).reverse.find? _).map Prod.snd) = _
  have hmem : m.value ∈ (ms.map Field.value).reverse :=
    List.mem_reverse.mpr (List.mem_map_of_mem hm)
  cases hfind : (ms.map Field.value).reverse.find? fun m => m.1 == codes name.toList with
  | none =>
      have hnone := List.find?_eq_none.mp hfind m.value hmem
      rw [← hname] at hnone
      exact absurd (beq_self_eq_true _) hnone
  | some found =>
      have hfound := List.find?_some hfind
      obtain ⟨m', hm', rfl⟩ := List.mem_map.mp (List.mem_reverse.mp (List.mem_of_find?_eq_some hfind))
      rw [← hname] at hfound
      have hsame : m'.1.1 = m.1.1 := codes_injective (beq_iff_eq.mp hfound)
      rw [List.inj_on_of_nodup_map hnodup hm' hm hsame]
      rfl

/-- **What is written is read**, with white space behind it. -/
theorem loads_text (w : Written) {space : Text} (h : Blank space) :
    loads (w.text ++ space) = some w.value := loads_of_reads w.reads h

end Written

end Json
