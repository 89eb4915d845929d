import Mathlib.Data.List.TakeWhile
import Mathlib.Data.Rat.Defs
import Mathlib.Data.Nat.Digits.Lemmas
import Mathlib.Tactic.Linarith

/-! # Reading JSON

    A text is read as `json.loads` of Python reads it: white space between the
    tokens, strings without control characters, numbers that are integers or
    not, `NaN` and the infinities.  A string is its code points, an object the
    list of its members, of which the last one of a name counts.

    A text `Reads` as a value if the reader takes all of it and nothing of what
    follows; what follows a number must not go on with it.

    * `reads_integer`, `reads_decimal`, `reads_string` — scalars;
    * `reads_array`, `reads_object` — elements and members that read;
    * `loads_of_reads` — a text that reads, with white space behind it. -/

namespace Json

abbrev Text := List Char

inductive Value where
  | null
  | bool (b : Bool)
  | int (n : Int)
  | float (x : ℚ)
  | nan
  | infinity (negative : Bool)
  | str (s : List Nat)
  | arr (l : List Value)
  | obj (l : List (List Nat × Value))

/-- The code points of a text. -/
def codes (t : Text) : List Nat := t.map Char.toNat

/-! ## The reader -/

def isSpace (c : Char) : Bool := c == ' ' || c == '\t' || c == '\n' || c == '\r'

def skip (t : Text) : Text := t.dropWhile isSpace

def hexValue (c : Char) : Option Nat :=
  if '0' ≤ c ∧ c ≤ '9' then some (c.toNat - 48)
  else if 'a' ≤ c ∧ c ≤ 'f' then some (c.toNat - 87)
  else if 'A' ≤ c ∧ c ≤ 'F' then some (c.toNat - 55)
  else none

/-- Four hexadecimal digits. -/
def hexFour : Text → Option (Nat × Text)
  | a :: b :: c :: d :: rest => do
      let a ← hexValue a
      let b ← hexValue b
      let c ← hexValue c
      let d ← hexValue d
      return (((a * 16 + b) * 16 + c) * 16 + d, rest)
  | _ => none

/-- The first half of a surrogate pair. -/
def isHigh (x : Nat) : Bool := 0xd800 ≤ x && x ≤ 0xdbff

/-- The second half. -/
def isLow (x : Nat) : Bool := 0xdc00 ≤ x && x ≤ 0xdfff

/-- The second half of a surrogate pair, after the first one. -/
def lowSurrogate : Text → Option (Nat × Text)
  | '\\' :: 'u' :: rest =>
      (hexFour rest).bind fun r =>
        if isLow r.1 then some r else none
  | _ => none

/-- What a surrogate pair stands for. -/
def pairValue (high low : Nat) : Nat := high % 1024 * 1024 + low % 1024 + 0x10000

/-- A first half with the second half behind it, or what has been read alone. -/
def joinPair (r : Nat × Text) : Nat × Text :=
  if isHigh r.1 then
    match lowSurrogate r.2 with
    | some low => (pairValue r.1 low.1, low.2)
    | none => r
  else r

/-- Four hexadecimal digits, and four more where they are half of a pair. -/
def scanUnicode (t : Text) : Option (Nat × Text) := (hexFour t).map joinPair

/-- What follows a backslash. -/
def scanEscape : Text → Option (Nat × Text)
  | '"' :: rest => some (34, rest)
  | '\\' :: rest => some (92, rest)
  | '/' :: rest => some (47, rest)
  | 'b' :: rest => some (8, rest)
  | 'f' :: rest => some (12, rest)
  | 'n' :: rest => some (10, rest)
  | 'r' :: rest => some (13, rest)
  | 't' :: rest => some (9, rest)
  | 'u' :: rest => scanUnicode rest
  | _ => none

/-- One character of a string. -/
def scanChar : Text → Option (Nat × Text)
  | [] => none
  | '\\' :: rest => scanEscape rest
  | c :: rest => if c.toNat < 32 then none else some (c.toNat, rest)

/-- A string, after its opening quote. -/
def scanString : Nat → Text → Option (List Nat × Text)
  | 0, _ => none
  | _ + 1, '"' :: rest => some ([], rest)
  | fuel + 1, t =>
      (scanChar t).bind fun r =>
        (scanString fuel r.2).map fun s => (r.1 :: s.1, s.2)

/-- The number that digits write. -/
def ofDigits (ds : Text) : Nat := Nat.ofDigitChars 10 ds 0

/-- The integer part: `0`, or digits that do not begin with it. -/
def scanInteger : Text → Option (Text × Text)
  | [] => none
  | c :: rest =>
      if c = '0' then some ([c], rest)
      else if c.isDigit then some ((c :: rest).span Char.isDigit)
      else none

/-- The part behind the point, if there is one. -/
def scanFraction : Text → Option (Text × Text)
  | '.' :: rest => if (rest.span Char.isDigit).1 = [] then none else some (rest.span Char.isDigit)
  | _ => none

/-- The digits of an exponent, after its sign. -/
def scanPower (negative : Bool) (t : Text) : Option (Int × Text) :=
  let r := t.span Char.isDigit
  if r.1 = [] then none
  else some (if negative then -(ofDigits r.1 : Int) else ofDigits r.1, r.2)

/-- The digits of an exponent and its sign. -/
def scanSignedPower : Text → Option (Int × Text)
  | '-' :: rest => scanPower true rest
  | '+' :: rest => scanPower false rest
  | t => scanPower false t

/-- The exponent, if there is one. -/
def scanExponent : Text → Option (Int × Text)
  | [] => none
  | e :: rest => if e = 'e' ∨ e = 'E' then scanSignedPower rest else none

/-- With a sign. -/
def signed {α : Type} [Neg α] (negative : Bool) (x : α) : α := if negative then -x else x

/-- The number that digits with a point between them write. -/
def ofDecimal (int fraction : Text) : ℚ := (ofDigits (int ++ fraction) : ℚ) / 10 ^ fraction.length

/-- Times a power of ten. -/
def scale (x : ℚ) : Int → ℚ
  | .ofNat n => x * 10 ^ n
  | .negSucc n => x / 10 ^ (n + 1)

/-- The value of a number by its parts. -/
def numberValue (negative : Bool) (int : Text) : Option Text → Option Int → Value
  | none, none => .int (signed negative (ofDigits int : Int))
  | some fraction, none => .float (signed negative (ofDecimal int fraction))
  | fraction, some exponent =>
      .float (signed negative (scale (ofDecimal int (fraction.getD [])) exponent))

/-- A number without its sign. -/
def scanUnsigned (negative : Bool) (t : Text) : Option (Value × Text) :=
  (scanInteger t).map fun i =>
    let f := scanFraction i.2
    let r := match f with
      | some f => f.2
      | none => i.2
    let e := scanExponent r
    (numberValue negative i.1 (f.map Prod.fst) (e.map Prod.fst),
      match e with
      | some e => e.2
      | none => r)

def scanNumber : Text → Option (Value × Text)
  | '-' :: rest => scanUnsigned true rest
  | t => scanUnsigned false t

/-- A word, which stands for a value. -/
def scanWord (word : Text) (v : Value) (t : Text) : Option (Value × Text) :=
  if word.isPrefixOf t then some (v, t.drop word.length) else none

/-- The word that begins as a number does. -/
def scanMinus : Text → Option (Value × Text) :=
  scanWord ['-', 'I', 'n', 'f', 'i', 'n', 'i', 't', 'y'] (.infinity true)

/-- The word that begins with a character. -/
def wordOf : Char → Option (Text × Value)
  | 'n' => some (['n', 'u', 'l', 'l'], .null)
  | 't' => some (['t', 'r', 'u', 'e'], .bool true)
  | 'f' => some (['f', 'a', 'l', 's', 'e'], .bool false)
  | 'N' => some (['N', 'a', 'N'], .nan)
  | 'I' => some (['I', 'n', 'f', 'i', 'n', 'i', 't', 'y'], .infinity false)
  | _ => none

/-- What is not a string, an object or an array. -/
def scanScalar : Text → Option (Value × Text)
  | [] => none
  | c :: t =>
      match wordOf c with
      | some w => scanWord w.1 w.2 (c :: t)
      | none => scanMinus (c :: t) <|> scanNumber (c :: t)

/-- The elements of an array, of which there is one; `value` reads them. -/
def elements (value : Text → Option (Value × Text)) : Nat → Text → Option (List Value × Text)
  | 0, _ => none
  | fuel + 1, t =>
      (value t).bind fun v =>
        match skip v.2 with
        | ']' :: rest => some ([v.1], rest)
        | ',' :: rest => (elements value fuel (skip rest)).map fun vs => (v.1 :: vs.1, vs.2)
        | _ => none

/-- A name and the colon behind it, after the opening quote. -/
def scanName (fuel : Nat) (t : Text) : Option (List Nat × Text) :=
  (scanString fuel t).bind fun k =>
    match skip k.2 with
    | ':' :: rest => some (k.1, skip rest)
    | _ => none

/-- The members of an object, of which there is one. -/
def members (value : Text → Option (Value × Text)) :
    Nat → Text → Option (List (List Nat × Value) × Text)
  | 0, _ => none
  | fuel + 1, t =>
      match t with
      | '"' :: rest =>
          (scanName fuel rest).bind fun k =>
            (value k.2).bind fun v =>
              match skip v.2 with
              | '}' :: rest => some ([(k.1, v.1)], rest)
              | ',' :: rest =>
                  (members value fuel (skip rest)).map fun ms => ((k.1, v.1) :: ms.1, ms.2)
              | _ => none
      | _ => none

/-- An array, after its opening bracket. -/
def scanArray (elements : Text → Option (List Value × Text)) : Text → Option (Value × Text)
  | ']' :: rest => some (.arr [], rest)
  | t => (elements t).map fun vs => (.arr vs.1, vs.2)

/-- An object, after its opening brace. -/
def scanObject (members : Text → Option (List (List Nat × Value) × Text)) :
    Text → Option (Value × Text)
  | '}' :: rest => some (.obj [], rest)
  | t => (members t).map fun ms => (.obj ms.1, ms.2)

/-- A value. -/
def value : Nat → Text → Option (Value × Text)
  | 0, _ => none
  | fuel + 1, '"' :: rest => (scanString fuel rest).map fun s => (.str s.1, s.2)
  | fuel + 1, '[' :: rest => scanArray (elements (value fuel) fuel) (skip rest)
  | fuel + 1, '{' :: rest => scanObject (members (value fuel) fuel) (skip rest)
  | _ + 1, t => scanScalar t

/-- `json.loads`. -/
def loads (t : Text) : Option Value :=
  (value (t.length + 1) (skip t)).bind fun r => if skip r.2 = [] then some r.1 else none

/-- `d[name]`, and `none` where there is no such member. -/
def Value.get? (name : String) : Value → Option Value
  | .obj l => (l.reverse.find? fun m => m.1 == codes name.toList).map Prod.snd
  | _ => none

/-! ## What reads -/

/-- No number goes on with this text. -/
def Ends (t : Text) : Prop := ∀ c ∈ t.head?, c.isDigit = false ∧ c ≠ '.' ∧ c ≠ 'e' ∧ c ≠ 'E'

/-- The reader takes the text, and no more, as the value. -/
def Reads (t : Text) (v : Value) : Prop :=
  ∀ fuel rest, t.length < fuel → Ends rest → value fuel (t ++ rest) = some (v, rest)

theorem ends_cons {c : Char} (h : c.isDigit = false ∧ c ≠ '.' ∧ c ≠ 'e' ∧ c ≠ 'E') (t : Text) :
    Ends (c :: t) := by
  rintro d ⟨⟩
  exact h

theorem ends_nil : Ends [] := fun _ hc => absurd hc (Option.some_ne_none _).symm

theorem skip_cons {c : Char} (h : isSpace c = false) (t : Text) : skip (c :: t) = c :: t := by
  rw [skip, List.dropWhile_cons, h]
  rfl

/-! ### Strings -/

/-- A text that stands in a string as it is. -/
def Plain (t : Text) : Prop := ∀ c ∈ t, 32 ≤ c.toNat ∧ c ≠ '"' ∧ c ≠ '\\'

def quoted (t : Text) : Text := '"' :: (t ++ ['"'])

theorem scanChar_plain {c : Char} (h : 32 ≤ c.toNat) (hesc : c ≠ '\\') (t : Text) :
    scanChar (c :: t) = some (c.toNat, t) := by
  rw [scanChar]
  · rw [if_neg (Nat.not_lt.mpr h)]
  · exact hesc

theorem scanString_plain {t : Text} (h : Plain t) {fuel : Nat} (hf : t.length < fuel)
    (rest : Text) : scanString fuel (t ++ '"' :: rest) = some (codes t, rest) := by
  induction t generalizing fuel with
  | nil =>
      cases fuel with
      | zero => exact absurd hf (Nat.not_lt_zero _)
      | succ fuel => rfl
  | cons c t ih =>
      cases fuel with
      | zero => exact absurd hf (Nat.not_lt_zero _)
      | succ fuel =>
          obtain ⟨hc, hquote, hesc⟩ := h c List.mem_cons_self
          have htail : Plain t := fun d hd => h d (List.mem_cons_of_mem c hd)
          rw [List.cons_append, scanString, scanChar_plain hc hesc, Option.bind_some,
            ih htail (Nat.lt_of_succ_lt_succ hf)]
          · rfl
          · rintro r ⟨⟩
            exact hquote rfl

theorem reads_string {t : Text} (h : Plain t) : Reads (quoted t) (.str (codes t)) := by
  intro fuel rest hf _
  cases fuel with
  | zero => exact absurd hf (Nat.not_lt_zero _)
  | succ fuel =>
      have hlen : t.length < fuel := by
        rw [quoted, List.length_cons, List.length_append, List.length_singleton] at hf
        omega
      rw [quoted, List.cons_append, List.append_assoc, List.singleton_append, value,
        scanString_plain h hlen]
      rfl

/-! ### Numbers -/

theorem span_digits {ds rest : Text} (hd : ∀ c ∈ ds, c.isDigit = true)
    (h : ∀ c ∈ rest.head?, c.isDigit = false) :
    (ds ++ rest).span Char.isDigit = (ds, rest) := by
  have hrest : rest.takeWhile Char.isDigit = [] ∧ rest.dropWhile Char.isDigit = rest := by
    cases rest with
    | nil => exact ⟨rfl, rfl⟩
    | cons c rest =>
        rw [List.takeWhile_cons, List.dropWhile_cons, h c rfl]
        exact ⟨rfl, rfl⟩
  rw [List.span_eq_takeWhile_dropWhile, List.takeWhile_append_of_pos hd,
    List.dropWhile_append_of_pos hd, hrest.1, hrest.2, List.append_nil]

/-- A number does not begin with a zero, unless it is one. -/
theorem toDigits_head (n : Nat) :
    ∃ c cs, Nat.toDigits 10 n = c :: cs ∧ (c = '0' → cs = []) := by
  induction n using Nat.strong_induction_on with
  | _ n ih =>
      rcases Nat.lt_or_ge n 10 with hlt | hge
      · exact ⟨_, [], Nat.toDigits_of_lt_base hlt, fun _ => rfl⟩
      · obtain ⟨c, cs, hc, hzero⟩ := ih (n / 10) (Nat.div_lt_self (by omega) (by decide))
        rw [Nat.toDigits_of_base_le (by decide) hge, hc]
        refine ⟨c, _, List.cons_append, ?_⟩
        rintro rfl
        rw [hzero rfl] at hc
        -- only zero is written as a zero
        have hvalue := Nat.ofDigitChars_ten_toDigits (n := n / 10)
        rw [hc] at hvalue
        have : n / 10 = 0 := hvalue.symm
        omega

theorem toDigits_isDigit (n : Nat) : ∀ c ∈ Nat.toDigits 10 n, c.isDigit = true :=
  fun _ hc => Nat.isDigit_of_mem_toDigits (by decide) (by decide) hc

theorem scanInteger_toDigits (n : Nat) {rest : Text}
    (h : ∀ c ∈ rest.head?, c.isDigit = false) :
    scanInteger (Nat.toDigits 10 n ++ rest) = some (Nat.toDigits 10 n, rest) := by
  obtain ⟨c, cs, hc, hzero⟩ := toDigits_head n
  have hdigits := toDigits_isDigit n
  rw [hc] at hdigits ⊢
  rw [List.cons_append, scanInteger]
  by_cases h0 : c = '0'
  · rw [if_pos h0, hzero h0]
    rfl
  · rw [if_neg h0, if_pos (hdigits c List.mem_cons_self), ← List.cons_append,
      span_digits hdigits h]

theorem scanFraction_none {t : Text} (h : Ends t) : scanFraction t = none := by
  cases t with
  | nil => rfl
  | cons c t =>
      rw [scanFraction]
      rintro rest ⟨⟩
      exact (h '.' rfl).2.1 rfl

theorem scanExponent_none {t : Text} (h : Ends t) : scanExponent t = none := by
  cases t with
  | nil => rfl
  | cons c t =>
      obtain ⟨-, -, he, hE⟩ := h c rfl
      rw [scanExponent, if_neg (not_or.mpr ⟨he, hE⟩)]

theorem scanUnsigned_integer (negative : Bool) (n : Nat) {rest : Text} (h : Ends rest) :
    scanUnsigned negative (Nat.toDigits 10 n ++ rest)
      = some (.int (signed negative (n : Int)), rest) := by
  rw [scanUnsigned, scanInteger_toDigits n fun c hc => (h c hc).1, Option.map_some]
  simp only [scanFraction_none h, scanExponent_none h, Option.map_none]
  rw [numberValue, ofDigits, Nat.ofDigitChars_ten_toDigits]

theorem scanUnsigned_decimal (negative : Bool) (n : Nat) {ds rest : Text} (hne : ds ≠ [])
    (hd : ∀ c ∈ ds, c.isDigit = true) (h : Ends rest) :
    scanUnsigned negative (Nat.toDigits 10 n ++ ('.' :: ds ++ rest))
      = some (.float (signed negative (ofDecimal (Nat.toDigits 10 n) ds)), rest) := by
  have hfraction : scanFraction ('.' :: ds ++ rest) = some (ds, rest) := by
    rw [List.cons_append, scanFraction, span_digits hd fun c hc => (h c hc).1, if_neg hne]
  have hpoint : ∀ c ∈ ('.' :: ds ++ rest).head?, c.isDigit = false := by
    rintro c ⟨⟩
    rfl
  rw [scanUnsigned, scanInteger_toDigits n hpoint, Option.map_some]
  simp only [hfraction, scanExponent_none h, Option.map_some, Option.map_none]
  rw [numberValue]

theorem value_scalar {c : Char} (h : c ≠ '"' ∧ c ≠ '[' ∧ c ≠ '{') (fuel : Nat) (t : Text) :
    value (fuel + 1) (c :: t) = scanScalar (c :: t) := by
  obtain ⟨hquote, hbracket, hbrace⟩ := h
  rw [value]
  · rintro rest ⟨⟩
    exact hquote rfl
  · rintro rest ⟨⟩
    exact hbracket rfl
  · rintro rest ⟨⟩
    exact hbrace rfl

/-- A digit is no character that is none. -/
theorem digit_ne {c : Char} (h : c.isDigit = true) (d : Char) (hd : d.isDigit = false) :
    c ≠ d := by
  rintro rfl
  rw [h] at hd
  exact Bool.false_ne_true hd.symm

/-- A number begins with a digit, after its sign. -/
theorem scanUnsigned_head {negative : Bool} {t : Text} {r : Value × Text}
    (h : scanUnsigned negative t = some r) : ∃ d ds, t = d :: ds ∧ d.isDigit = true := by
  cases t with
  | nil => exact absurd h.symm (Option.some_ne_none _)
  | cons d ds =>
      refine ⟨d, ds, rfl, ?_⟩
      by_contra hdigit
      have hzero : d ≠ '0' := by
        rintro rfl
        exact hdigit rfl
      rw [scanUnsigned, scanInteger, if_neg hzero, if_neg hdigit] at h
      exact absurd h.symm (Option.some_ne_none _)

theorem scanNumber_head {t : Text} {r : Value × Text} (h : scanNumber t = some r) :
    (∃ d ds, t = '-' :: d :: ds ∧ d.isDigit = true) ∨ ∃ d ds, t = d :: ds ∧ d.isDigit = true := by
  rw [scanNumber.eq_def] at h
  split at h
  · obtain ⟨d, ds, rfl, hd⟩ := scanUnsigned_head h
    exact Or.inl ⟨d, ds, rfl, hd⟩
  · exact Or.inr (scanUnsigned_head h)

/-- No word but `-Infinity` begins as a number does. -/
theorem scanScalar_sign {c : Char} (h : c = '-' ∨ c.isDigit = true) (t : Text) :
    scanScalar (c :: t) = (scanMinus (c :: t) <|> scanNumber (c :: t)) := by
  have hword : wordOf c = none := by
    rw [wordOf.eq_def]
    split
    case h_6 => rfl
    all_goals exact absurd h (by decide)
  rw [scanScalar, hword]

/-- No number begins with the word that begins as one. -/
theorem scanMinus_number {t : Text} {r : Value × Text} (h : scanNumber t = some r) :
    scanMinus t = none := by
  rcases scanNumber_head h with ⟨d, ds, rfl, hd⟩ | ⟨d, ds, rfl, hd⟩
  · rw [scanMinus, scanWord, List.isPrefixOf_cons_cons, List.isPrefixOf_cons_cons,
      beq_eq_false_iff_ne.mpr (digit_ne hd 'I' rfl).symm, Bool.false_and, Bool.and_false]
    rfl
  · rw [scanMinus, scanWord, List.isPrefixOf_cons_cons,
      beq_eq_false_iff_ne.mpr (digit_ne hd '-' rfl).symm, Bool.false_and]
    rfl

/-- What the reader takes as a number it takes as a scalar. -/
theorem scanScalar_number {t : Text} {r : Value × Text} (h : scanNumber t = some r) :
    scanScalar t = some r := by
  have hminus := scanMinus_number h
  rcases scanNumber_head h with ⟨d, ds, rfl, hd⟩ | ⟨d, ds, rfl, hd⟩
  · rw [scanScalar_sign (Or.inl rfl), hminus, h]
    rfl
  · rw [scanScalar_sign (Or.inr hd), hminus, h]
    rfl

/-- The sign of a number. -/
def sign (negative : Bool) : Text := if negative then ['-'] else []

theorem scanNumber_sign (negative : Bool) {c : Char} (h : c ≠ '-') (t : Text) :
    scanNumber (sign negative ++ c :: t) = scanUnsigned negative (c :: t) := by
  cases negative with
  | true => rfl
  | false =>
      show scanNumber (c :: t) = _
      rw [scanNumber]
      rintro rest ⟨⟩
      exact h rfl

/-- A number that the reader takes is a value that it takes. -/
theorem reads_number {negative : Bool} {t : Text} {v : Value} {n : Nat} {more : Text}
    (ht : t = Nat.toDigits 10 n ++ more)
    (hscan : ∀ rest, Ends rest → scanUnsigned negative (t ++ rest) = some (v, rest)) :
    Reads (sign negative ++ t) v := by
  intro fuel rest hf hrest
  obtain ⟨c, cs, hc, -⟩ := toDigits_head n
  have hdigit := toDigits_isDigit n c (by rw [hc]; exact List.mem_cons_self)
  cases fuel with
  | zero => exact absurd hf (Nat.not_lt_zero _)
  | succ fuel =>
      have hnumber : scanNumber (sign negative ++ t ++ rest) = some (v, rest) := by
        rw [← hscan rest hrest, ht, hc, List.append_assoc]
        exact scanNumber_sign negative (digit_ne hdigit '-' rfl) _
      cases negative with
      | true =>
          show value (fuel + 1) ('-' :: (t ++ rest)) = _
          rw [value_scalar (by decide)]
          exact scanScalar_number hnumber
      | false =>
          have hcons : sign false ++ t ++ rest = c :: (cs ++ more ++ rest) := by
            rw [ht, hc]
            rfl
          rw [hcons] at hnumber ⊢
          rw [value_scalar ⟨digit_ne hdigit _ rfl, digit_ne hdigit _ rfl, digit_ne hdigit _ rfl⟩]
          exact scanScalar_number hnumber

theorem reads_integer (negative : Bool) (n : Nat) :
    Reads (sign negative ++ Nat.toDigits 10 n) (.int (signed negative (n : Int))) :=
  reads_number (List.append_nil _).symm fun _ h => scanUnsigned_integer negative n h

theorem reads_decimal (negative : Bool) (n : Nat) {ds : Text} (hne : ds ≠ [])
    (hd : ∀ c ∈ ds, c.isDigit = true) :
    Reads (sign negative ++ (Nat.toDigits 10 n ++ '.' :: ds))
      (.float (signed negative (ofDecimal (Nat.toDigits 10 n) ds))) := by
  refine reads_number rfl fun rest h => ?_
  rw [List.append_assoc]
  exact scanUnsigned_decimal negative n hne hd h

/-! ### Arrays and objects -/

/-- What reads begins with a character, and neither with a space nor with a
    bracket that closes an array. -/
theorem reads_head {t : Text} {v : Value} (h : Reads t v) :
    ∃ c cs, t = c :: cs ∧ isSpace c = false ∧ c ≠ ']' := by
  have hvalue : value (t.length + 1) t = some (v, []) := by
    have hempty := h (t.length + 1) [] (Nat.lt_succ_self _) ends_nil
    rwa [List.append_nil] at hempty
  cases t with
  | nil => exact absurd hvalue.symm (Option.some_ne_none _)
  | cons c cs =>
      refine ⟨c, cs, rfl, ?_, ?_⟩
      · by_contra hspace
        rw [Bool.not_eq_false, isSpace] at hspace
        simp only [Bool.or_eq_true, beq_iff_eq] at hspace
        obtain ((rfl | rfl) | rfl) | rfl := hspace <;>
          exact Option.some_ne_none _ hvalue.symm
      · rintro rfl
        exact Option.some_ne_none _ hvalue.symm

theorem skip_reads {t : Text} {v : Value} (h : Reads t v) (rest : Text) :
    skip (t ++ rest) = t ++ rest := by
  obtain ⟨c, cs, rfl, hspace, -⟩ := reads_head h
  exact skip_cons hspace (cs ++ rest)

/-- Texts with commas between them. -/
def commas : List Text → Text
  | [] => []
  | [t] => t
  | t :: ts => t ++ ',' :: commas ts

theorem count_le_commas (ts : List Text) : ts.length ≤ (commas ts).length + 1 := by
  induction ts using commas.induct with
  | case1 => exact Nat.zero_le _
  | case2 u => exact Nat.le_add_left _ _
  | case3 u ts hne ih =>
      rw [commas, List.length_append, List.length_cons, List.length_cons]
      · omega
      · exact hne

theorem length_le_commas {t : Text} {ts : List Text} (h : t ∈ ts) :
    t.length + ts.length ≤ (commas ts).length + 1 := by
  induction ts using commas.induct with
  | case1 => exact absurd h List.not_mem_nil
  | case2 u =>
      rw [List.mem_singleton.mp h]
      exact Nat.le_refl _
  | case3 u ts hne ih =>
      have hcount := count_le_commas ts
      rw [commas, List.length_append, List.length_cons, List.length_cons]
      · rcases List.mem_cons.mp h with rfl | hmem
        · omega
        · have := ih hmem
          omega
      · exact hne

theorem commas_append {ts us : List Text} (ht : ts ≠ []) (hu : us ≠ []) :
    commas (ts ++ us) = commas ts ++ ',' :: commas us := by
  induction ts using commas.induct with
  | case1 => exact absurd rfl ht
  | case2 t =>
      rw [List.singleton_append, commas, commas]
      exact hu
  | case3 t ts hne ih =>
      rw [List.cons_append, commas, ih hne, commas, List.append_assoc, List.cons_append]
      · exact hne
      · exact List.append_ne_nil_of_left_ne_nil hne us

theorem commas_head (t : Text) (ts : List Text) : ∃ more, commas (t :: ts) = t ++ more := by
  cases ts with
  | nil => exact ⟨[], (List.append_nil t).symm⟩
  | cons u us => exact ⟨',' :: commas (u :: us), rfl⟩

/-- The reader of a value stops before a comma and before a bracket. -/
theorem value_reads {t : Text} {v : Value} (h : Reads t v) {size : Nat} (hsize : t.length < size)
    {c : Char} (hc : c = ',' ∨ c = ']' ∨ c = '}') (rest : Text) :
    value size (t ++ c :: rest) = some (v, c :: rest) := by
  refine h size _ hsize ?_
  obtain rfl | rfl | rfl := hc <;> exact ends_cons (by decide) rest

/-- The elements of an array. -/
theorem elements_reads {es : List (Text × Value)} (hne : es ≠ [])
    (h : ∀ e ∈ es, Reads e.1 e.2) {size fuel : Nat} (hsize : ∀ e ∈ es, e.1.length < size)
    (hfuel : es.length ≤ fuel) (rest : Text) :
    elements (value size) fuel (commas (es.map Prod.fst) ++ ']' :: rest)
      = some (es.map Prod.snd, rest) := by
  induction es generalizing fuel with
  | nil => exact absurd rfl hne
  | cons e es ih =>
      have hread := h e List.mem_cons_self
      have hlen := hsize e List.mem_cons_self
      cases fuel with
      | zero => exact absurd hfuel (Nat.not_succ_le_zero _)
      | succ fuel =>
          cases es with
          | nil =>
              rw [List.map_singleton, List.map_singleton, commas, elements,
                value_reads hread hlen (Or.inr (Or.inl rfl))]
              rfl
          | cons e' es =>
              have hnext := ih (List.cons_ne_nil _ _)
                (fun d hd => h d (List.mem_cons_of_mem _ hd))
                (fun d hd => hsize d (List.mem_cons_of_mem _ hd)) (Nat.le_of_succ_le_succ hfuel)
              obtain ⟨more, hmore⟩ := commas_head e'.1 (es.map Prod.fst)
              have hskip : skip (commas ((e' :: es).map Prod.fst) ++ ']' :: rest)
                  = commas ((e' :: es).map Prod.fst) ++ ']' :: rest := by
                rw [List.map_cons, hmore, List.append_assoc]
                exact skip_reads (h e' (List.mem_cons_of_mem _ List.mem_cons_self)) _
              have hcommas : commas ((e :: e' :: es).map Prod.fst) ++ ']' :: rest
                  = e.1 ++ ',' :: (commas ((e' :: es).map Prod.fst) ++ ']' :: rest) :=
                List.append_assoc e.1 _ _
              rw [hcommas, elements, value_reads hread hlen (Or.inl rfl), Option.bind_some]
              show Option.map _ (elements (value size) fuel (skip _)) = _
              rw [hskip, hnext]
              rfl

/-- **An array** of texts that read. -/
theorem reads_array {es : List (Text × Value)} (h : ∀ e ∈ es, Reads e.1 e.2) :
    Reads ('[' :: (commas (es.map Prod.fst) ++ [']'])) (.arr (es.map Prod.snd)) := by
  intro fuel rest hf _
  rw [List.length_cons, List.length_append, List.length_singleton] at hf
  cases fuel with
  | zero => exact absurd hf (Nat.not_lt_zero _)
  | succ fuel =>
      rw [List.cons_append, List.append_assoc, List.singleton_append]
      cases es with
      | nil => rfl
      | cons e es =>
          obtain ⟨more, hmore⟩ := commas_head e.1 (es.map Prod.fst)
          obtain ⟨c, cs, hc, hspace, hclose⟩ := reads_head (h e List.mem_cons_self)
          have htext : commas ((e :: es).map Prod.fst) ++ ']' :: rest
              = c :: (cs ++ more ++ ']' :: rest) := by
            rw [List.map_cons, hmore, hc]
            rfl
          have hbound : ∀ d ∈ e :: es, d.1.length + (e :: es).length ≤ fuel := by
            intro d hd
            have hle := length_le_commas (List.mem_map_of_mem (f := Prod.fst) hd)
            rw [List.length_map] at hle
            omega
          have hsize : ∀ d ∈ e :: es, d.1.length < fuel := fun d hd =>
            Nat.lt_of_lt_of_le (Nat.lt_add_of_pos_right (Nat.succ_pos _)) (hbound d hd)
          have hcount : (e :: es).length ≤ fuel :=
            Nat.le_trans (Nat.le_add_left _ _) (hbound e List.mem_cons_self)
          have helements := elements_reads (List.cons_ne_nil e es) h hsize hcount rest
          rw [htext] at helements ⊢
          rw [value, skip_cons hspace, scanArray, helements]
          · rfl
          · rintro r ⟨⟩
            exact hclose rfl

/-- A member of an object: its name and its value. -/
def memberText (m : Text × Text) : Text := quoted m.1 ++ ':' :: m.2

/-- A name, and the value behind it. -/
theorem scanName_plain {name : Text} (h : Plain name) {fuel : Nat} (hf : name.length < fuel)
    {t : Text} {v : Value} (ht : Reads t v) (rest : Text) :
    scanName fuel (name ++ '"' :: ':' :: (t ++ rest)) = some (codes name, t ++ rest) := by
  rw [scanName, scanString_plain h hf, Option.bind_some]
  show some (codes name, skip (t ++ rest)) = _
  rw [skip_reads ht]

/-- The members of an object, each a name with a text and its value. -/
theorem members_reads {ms : List ((Text × Text) × Value)} (hne : ms ≠ [])
    (hname : ∀ m ∈ ms, Plain m.1.1) (h : ∀ m ∈ ms, Reads m.1.2 m.2) {size fuel : Nat}
    (hsize : ∀ m ∈ ms, m.1.2.length < size) (hlong : ∀ m ∈ ms, m.1.1.length + ms.length < fuel)
    (rest : Text) :
    members (value size) fuel (commas (ms.map fun m => memberText m.1) ++ '}' :: rest)
      = some (ms.map fun m => (codes m.1.1, m.2), rest) := by
  induction ms generalizing fuel with
  | nil => exact absurd rfl hne
  | cons m ms ih =>
      have hread := h m List.mem_cons_self
      have hlen := hsize m List.mem_cons_self
      have hplain := hname m List.mem_cons_self
      have hfuel := hlong m List.mem_cons_self
      rw [List.length_cons] at hfuel
      cases fuel with
      | zero => omega
      | succ fuel =>
          have hshort : m.1.1.length < fuel := by omega
          have hmember : ∀ more, memberText m.1 ++ more
              = '"' :: (m.1.1 ++ '"' :: ':' :: (m.1.2 ++ more)) := by
            intro more
            rw [memberText, quoted, List.append_assoc, List.cons_append, List.append_assoc]
            rfl
          cases ms with
          | nil =>
              rw [List.map_singleton, List.map_singleton, commas, hmember, members,
                scanName_plain hplain hshort hread, Option.bind_some,
                value_reads hread hlen (Or.inr (Or.inr rfl))]
              rfl
          | cons m' ms =>
              have hlong' : ∀ d ∈ m' :: ms, d.1.1.length + (m' :: ms).length < fuel := by
                intro d hd
                have hlt := hlong d (List.mem_cons_of_mem _ hd)
                rw [List.length_cons] at hlt
                omega
              have hnext := ih (List.cons_ne_nil _ _)
                (fun d hd => hname d (List.mem_cons_of_mem _ hd))
                (fun d hd => h d (List.mem_cons_of_mem _ hd))
                (fun d hd => hsize d (List.mem_cons_of_mem _ hd)) hlong'
              have hskip : skip (commas ((m' :: ms).map fun m => memberText m.1) ++ '}' :: rest)
                  = commas ((m' :: ms).map fun m => memberText m.1) ++ '}' :: rest := by
                obtain ⟨more, hmore⟩ := commas_head (memberText m'.1) (ms.map fun m => memberText m.1)
                rw [List.map_cons, hmore]
                exact skip_cons rfl _
              have hcommas : commas ((m :: m' :: ms).map fun m => memberText m.1) ++ '}' :: rest
                  = memberText m.1
                    ++ ',' :: (commas ((m' :: ms).map fun m => memberText m.1) ++ '}' :: rest) :=
                List.append_assoc (memberText m.1) _ _
              rw [hcommas, hmember, members, scanName_plain hplain hshort hread, Option.bind_some,
                value_reads hread hlen (Or.inl rfl), Option.bind_some]
              show Option.map _ (members (value size) fuel (skip _)) = _
              rw [hskip, hnext]
              rfl

/-- **An object** whose members read. -/
theorem reads_object {ms : List ((Text × Text) × Value)} (hname : ∀ m ∈ ms, Plain m.1.1)
    (h : ∀ m ∈ ms, Reads m.1.2 m.2) :
    Reads ('{' :: (commas (ms.map fun m => memberText m.1) ++ ['}']))
      (.obj (ms.map fun m => (codes m.1.1, m.2))) := by
  intro fuel rest hf _
  rw [List.length_cons, List.length_append, List.length_singleton] at hf
  cases fuel with
  | zero => exact absurd hf (Nat.not_lt_zero _)
  | succ fuel =>
      rw [List.cons_append, List.append_assoc, List.singleton_append]
      cases ms with
      | nil => rfl
      | cons m ms =>
          obtain ⟨more, hmore⟩ := commas_head (memberText m.1) (ms.map fun m => memberText m.1)
          have htext : commas ((m :: ms).map fun m => memberText m.1) ++ '}' :: rest
              = '"' :: (m.1.1 ++ ['"'] ++ ':' :: m.1.2 ++ more ++ '}' :: rest) := by
            rw [List.map_cons, hmore]
            rfl
          have hbound : ∀ d ∈ m :: ms,
              d.1.1.length + d.1.2.length + 2 + (m :: ms).length ≤ fuel := by
            intro d hd
            have hle := length_le_commas (List.mem_map_of_mem (f := fun m => memberText m.1) hd)
            rw [List.length_map, memberText, quoted, List.length_append, List.length_cons,
              List.length_append, List.length_singleton, List.length_cons] at hle
            omega
          have hsize : ∀ d ∈ m :: ms, d.1.2.length < fuel := by
            intro d hd
            have hle := hbound d hd
            omega
          have hlong : ∀ d ∈ m :: ms, d.1.1.length + (m :: ms).length < fuel := by
            intro d hd
            have hle := hbound d hd
            omega
          have hmembers := members_reads (List.cons_ne_nil m ms) hname h hsize hlong rest
          rw [htext] at hmembers ⊢
          rw [value, skip_cons rfl, scanObject, hmembers]
          · rfl
          · rintro r ⟨⟩

/-! ## A whole text -/

/-- White space. -/
def Blank (t : Text) : Prop := ∀ c ∈ t, isSpace c = true

instance (t : Text) : Decidable (Blank t) := List.decidableBAll _ t

/-- **A text that reads**, with white space behind it. -/
theorem loads_of_reads {t : Text} {v : Value} (h : Reads t v) {space : Text}
    (hspace : Blank space) : loads (t ++ space) = some v := by
  have hskip : skip space = [] := by
    rw [skip, List.dropWhile_eq_nil_iff]
    exact hspace
  have hends : Ends space := by
    intro c hc
    have hsp := hspace c (List.mem_of_mem_head? hc)
    rw [isSpace] at hsp
    simp only [Bool.or_eq_true, beq_iff_eq] at hsp
    obtain ((rfl | rfl) | rfl) | rfl := hsp <;> decide
  rw [loads, skip_reads h, h _ _ _ hends, Option.bind_some, hskip]
  · rfl
  · rw [List.length_append]
    omega

end Json
