import Mathlib.Algebra.Order.Floor.Ring
import Mathlib.Algebra.Order.Group.Unbundled.Int
import Mathlib.Data.Rat.Floor
import Mathlib.Tactic.Linarith
import Mathlib.Tactic.Ring

/-! # Formatted output into a buffer of fixed size

    A format with its arguments is a list of pieces, literal or converted.  How
    long the text of a conversion can get depends on the type of its argument
    only, but for a string and a fixed-point number.

    * `render_length_le` — literals and conversions add up to a bound;
    * `put_bind_putAll` — appends that stop at the first one that does not fit
      are one append of everything. -/

namespace Printf

/-- The characters of a C string, without its terminator. -/
abbrev Text := List UInt8

/-! ## Numbers -/

/-- The bytes of a literal. -/
def bytes (s : String) : Text := s.toUTF8.data.toList

/-- Characters that are ASCII. -/
def ascii (cs : List Char) : Text := cs.map fun c => c.toNat.toUInt8

def digits (n : Nat) : Text := ascii (Nat.toDigits 10 n)

def signed (x : Int) : Text := if x < 0 then 45 :: digits x.natAbs else digits x.natAbs

/-- Filled up with zeros. -/
def zeroPad (n : Nat) (t : Text) : Text := t.leftpad n 48

/-- The nearest integer; of two the even one. -/
def roundHalfEven (x : ℚ) : Int :=
  let n := ⌊x⌋
  if x - n < 1 / 2 then n
  else if 1 / 2 < x - n then n + 1
  else if n % 2 = 0 then n else n + 1

/-- A number with `p` decimals. -/
def fixed (p : Nat) (x : ℚ) : Text :=
  let n := (roundHalfEven (|x| * 10 ^ p)).toNat
  (if x < 0 then [45] else []) ++ digits (n / 10 ^ p)
    ++ if p = 0 then [] else 46 :: zeroPad p (digits (n % 10 ^ p))

theorem bytes_length (s : String) : (bytes s).length = s.utf8ByteSize := rfl

theorem digits_length_le {n k : Nat} (hk : 0 < k) (h : n < 10 ^ k) : (digits n).length ≤ k := by
  rw [digits, ascii, List.length_map]
  exact (Nat.length_toDigits_le_iff (by decide) hk).mpr h

theorem signed_length_le {x : Int} {k : Nat} (hk : 0 < k) (h : x.natAbs < 10 ^ k) :
    (signed x).length ≤ k + 1 := by
  have hdigits := digits_length_le hk h
  rw [signed]
  split
  · rw [List.length_cons]
    omega
  · omega

theorem roundHalfEven_le {x : ℚ} {n : Int} (h : x ≤ n) : roundHalfEven x ≤ n := by
  have hfloor : ⌊x⌋ ≤ n := Int.floor_le_iff.mpr (by linarith)
  rw [roundHalfEven]
  by_cases heq : ⌊x⌋ = n
  · have hint : x - (⌊x⌋ : ℚ) < 1 / 2 := by
      rw [heq]
      linarith
    rw [if_pos hint]
    exact hfloor
  · split
    · exact hfloor
    split
    · omega
    split <;> omega

/-- A number with decimals whose integer part has at most `k` digits after
    rounding. -/
theorem fixed_length_le {p k : Nat} {x : ℚ} (hp : 0 < p) (h : |x| < 10 ^ k) :
    (fixed p x).length ≤ k + p + 3 := by
  have hround : roundHalfEven (|x| * 10 ^ p) ≤ ((10 ^ k * 10 ^ p : Nat) : Int) := by
    refine roundHalfEven_le ?_
    push_cast
    exact mul_le_mul_of_nonneg_right h.le (by positivity)
  rw [fixed]
  generalize roundHalfEven (|x| * 10 ^ p) = r at hround ⊢
  have hn : r.toNat ≤ 10 ^ k * 10 ^ p := by omega
  have hpos : 0 < 10 ^ p := Nat.pow_pos (by decide)
  have hint : (digits (r.toNat / 10 ^ p)).length ≤ k + 1 := by
    refine digits_length_le (Nat.succ_pos k) ?_
    have hdiv : r.toNat / 10 ^ p ≤ 10 ^ k := Nat.div_le_of_le_mul (by rwa [Nat.mul_comm])
    have hlt : 10 ^ k < 10 ^ (k + 1) := Nat.pow_lt_pow_right (by decide) (Nat.lt_succ_self k)
    omega
  have hfrac : (digits (r.toNat % 10 ^ p)).length ≤ p :=
    digits_length_le hp (Nat.mod_lt _ hpos)
  have hsign : (if x < 0 then [45] else [] : Text).length ≤ 1 := by
    split <;> decide
  rw [if_neg (Nat.ne_of_gt hp), List.length_append, List.length_append, List.length_cons,
    zeroPad, List.length_leftpad]
  omega

/-! ## Formats -/

/-- A literal, or a conversion with its argument. -/
inductive Piece where
  /-- Literal text. -/
  | text (s : String)
  /-- `%s`. -/
  | str (t : Text)
  /-- `%d`. -/
  | int (x : Int32)
  /-- `%u`. -/
  | uint (x : UInt32)
  /-- `%ld`. -/
  | long (x : Int64)
  /-- `%lu`. -/
  | ulong (x : UInt64)
  /-- `%02x` of a byte. -/
  | hex (x : UInt8)
  /-- `%.pf`. -/
  | double (p : Nat) (x : ℚ)

def Piece.render : Piece → Text
  | .text s => bytes s
  | .str t => t
  | .int x => signed x.toInt
  | .uint x => digits x.toNat
  | .long x => signed x.toInt
  | .ulong x => digits x.toNat
  | .hex x => zeroPad 2 (ascii (Nat.toDigits 16 x.toNat))
  | .double p x => fixed p x

/-- The text of a format. -/
def render (ps : List Piece) : Text := ps.flatMap Piece.render

def Piece.textSize : Piece → Nat
  | .text s => s.utf8ByteSize
  | _ => 0

def Piece.argSize : Piece → Nat
  | .text _ => 0
  | .str t => t.length
  | .int _ => 11
  | .uint _ => 10
  | .long _ => 20
  | .ulong _ => 20
  | .hex _ => 2
  | .double p x => (fixed p x).length

/-- The literal text of a format. -/
def textSize (ps : List Piece) : Nat := (ps.map Piece.textSize).sum

/-- The most that its conversions can take. -/
def argSize (ps : List Piece) : Nat := (ps.map Piece.argSize).sum

@[simp] theorem textSize_nil : textSize [] = 0 := rfl

@[simp] theorem textSize_cons (p : Piece) (ps : List Piece) :
    textSize (p :: ps) = p.textSize + textSize ps := rfl

@[simp] theorem textSize_append (ps qs : List Piece) :
    textSize (ps ++ qs) = textSize ps + textSize qs := by
  rw [textSize, List.map_append, List.sum_append, ← textSize, ← textSize]

@[simp] theorem argSize_nil : argSize [] = 0 := rfl

@[simp] theorem argSize_cons (p : Piece) (ps : List Piece) :
    argSize (p :: ps) = p.argSize + argSize ps := rfl

@[simp] theorem argSize_append (ps qs : List Piece) :
    argSize (ps ++ qs) = argSize ps + argSize qs := by
  rw [argSize, List.map_append, List.sum_append, ← argSize, ← argSize]

theorem int32_natAbs_lt (x : Int32) : x.toInt.natAbs < 10 ^ 10 := by
  have hle := x.le_toInt
  have hlt := x.toInt_lt
  omega

theorem int64_natAbs_lt (x : Int64) : x.toInt.natAbs < 10 ^ 19 := by
  have hle := x.le_toInt
  have hlt := x.toInt_lt
  omega

theorem Piece.render_length_le (p : Piece) : p.render.length ≤ p.textSize + p.argSize := by
  cases p with
  | text s => exact Nat.le_of_eq (bytes_length s)
  | str t => exact Nat.le_add_left _ _
  | int x => exact (signed_length_le (by decide) (int32_natAbs_lt x)).trans (Nat.le_add_left _ _)
  | uint x =>
      have hlt : x.toNat < 10 ^ 10 := Nat.lt_trans x.toNat_lt (by decide)
      exact (digits_length_le (by decide) hlt).trans (Nat.le_add_left _ _)
  | long x => exact (signed_length_le (by decide) (int64_natAbs_lt x)).trans (Nat.le_add_left _ _)
  | ulong x =>
      have hlt : x.toNat < 10 ^ 20 := Nat.lt_trans x.toNat_lt (by decide)
      exact (digits_length_le (by decide) hlt).trans (Nat.le_add_left _ _)
  | hex x =>
      have hhex : (Nat.toDigits 16 x.toNat).length ≤ 2 :=
        (Nat.length_toDigits_le_iff (by decide) (by decide)).mpr x.toNat_lt
      show (zeroPad 2 (ascii (Nat.toDigits 16 x.toNat))).length ≤ 0 + 2
      rw [zeroPad, List.length_leftpad, ascii, List.length_map]
      omega
  | double p x => exact Nat.le_add_left _ _

/-- **The length of a formatted text.** -/
theorem render_length_le (ps : List Piece) : (render ps).length ≤ textSize ps + argSize ps := by
  induction ps with
  | nil => exact Nat.zero_le _
  | cons p ps ih =>
      have hp := p.render_length_le
      rw [render, List.flatMap_cons, List.length_append, ← render, textSize_cons, argSize_cons]
      omega

/-! ## A buffer -/

section Buffer

variable {α : Type}

/-- Append to a buffer of `size` characters, one of which is the terminator. -/
def put (size : Nat) (buf t : List α) : Option (List α) :=
  if buf.length + t.length < size then some (buf ++ t) else none

/-- One after the other, up to the first that does not fit. -/
def putAll (size : Nat) (ts : List (List α)) (buf : List α) : Option (List α) :=
  ts.foldlM (put size) buf

theorem put_bind_put (size : Nat) (buf t u : List α) :
    ((put size buf t).bind fun b => put size b u) = put size buf (t ++ u) := by
  rw [put, put]
  by_cases ht : buf.length + t.length < size
  · rw [if_pos ht, Option.bind_some, put, List.length_append, List.length_append,
      Nat.add_assoc, List.append_assoc]
  · rw [if_neg ht, Option.bind_none, if_neg]
    rw [List.length_append]
    omega

/-- **Everything or nothing.** -/
theorem put_bind_putAll (size : Nat) (buf t : List α) (ts : List (List α)) :
    ((put size buf t).bind fun b => putAll size ts b) = put size buf (t ++ ts.flatten) := by
  induction ts generalizing t with
  | nil =>
      rw [List.flatten_nil, List.append_nil]
      exact Option.bind_fun_some _
  | cons u ts ih =>
      rw [List.flatten_cons, ← List.append_assoc, ← ih (t ++ u), ← put_bind_put,
        Option.bind_assoc]
      rfl

end Buffer

end Printf
