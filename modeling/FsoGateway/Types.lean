import Mathlib.Algebra.Order.Field.Rat
import Mathlib.Logic.Function.Basic
import Mathlib.Tactic.Linarith
import FsoGateway.Lib.Bitset
import FsoGateway.Lib.ByteBuffer
import FsoGateway.Lib.Rounding

/-! # Core data types of the pipeline

    `symbol_t` is the unit every stage passes on; `block_t` is what the
    receiver hands to the FEC decoder.  Arrays are read by index: a stage
    that does not clear an array leaves in it what an earlier block put
    there, and several results below are about exactly that residue.

    The `int` parameters of `struct config` are natural numbers here, since
    `config_parse` admits no negative value; an `int` is below `2 ^ 31`. -/

namespace FsoTypes

open ByteBuffer

/-- `MAX_SYMBOL_DATA_SIZE`. -/
def maxSymbolDataSize : Nat := 9000

/-- `MAX_SYMBOLS_PER_BLOCK`. -/
def maxSymbolsPerBlock : Nat := 256

/-- `symbol_t`. -/
@[ext] structure Symbol where
  packetId : UInt32
  fecId : UInt32
  symbolIndex : UInt16
  totalSymbols : UInt16
  payloadLen : UInt16
  crc32 : UInt32
  data : Buffer

/-- `symbol_init`: every byte cleared. -/
def symbolInit : Symbol where
  packetId := 0
  fecId := 0
  symbolIndex := 0
  totalSymbols := 0
  payloadLen := 0
  crc32 := 0
  data := fun _ => 0

/-- The copy that the block builder, the interleaver and the deinterleaver
    make: the six header fields and `symbolSize` bytes, the rest of the
    destination's `data[]` left as it was. -/
def copySymbol (d s : Symbol) (symbolSize : Nat) : Symbol :=
  { s with data := memcpy d.data s.data symbolSize }

/-- A symbol with every byte past `symbolSize` cleared: the part of it that
    a copy carries over. -/
def clipSymbol (symbolSize : Nat) (s : Symbol) : Symbol :=
  { s with data := clip symbolSize s.data }

/-- `block_t`. -/
@[ext] structure Block where
  blockId : UInt64
  symbolCount : Nat
  symbolsPerBlock : Nat
  kLimit : Nat
  symbols : Nat → Symbol

/-- `struct config`, less the two interface names. -/
structure Config where
  k : Nat
  m : Nat
  depth : Nat
  symbolSize : Nat
  internalSymbolCrcEnabled : Bool
  depth_int : depth < 2 ^ 31 := by decide
  deriving DecidableEq

/-- A result in a `double`. -/
def toDouble (q : ℚ) : ℚ := Rounding.roundTo 53 q

/-- The time between two readings of `CLOCK_MONOTONIC` in milliseconds, as
    every timer of the daemon computes it from `tv_sec` and `tv_nsec`.  A
    reading is counted in nanoseconds. -/
def diffMs (start stop : Nat) : ℚ :=
  let s := toDouble ((stop / 1000000000 : Nat) - (start / 1000000000 : Nat) : Int)
  let ns := toDouble ((stop % 1000000000 : Nat) - (start % 1000000000 : Nat) : Int)
  toDouble (toDouble (s * 1000) + toDouble (ns / 1000000))

/-- `elapsed_ms` and `interleaver_elapsed_ms`: never negative. -/
def elapsedMs (start stop : Nat) : ℚ :=
  let ms := diffMs start stop
  if ms < 0 then 0 else ms

/-- `(int)x` for an unsigned 32-bit value. -/
def toInt (x : UInt32) : Int := x.toBitVec.toInt

/-! ## Copies -/

section Copies

variable (d s : Symbol) (ss : Nat)

@[simp] theorem copySymbol_packetId : (copySymbol d s ss).packetId = s.packetId := rfl
@[simp] theorem copySymbol_fecId : (copySymbol d s ss).fecId = s.fecId := rfl
@[simp] theorem copySymbol_symbolIndex :
    (copySymbol d s ss).symbolIndex = s.symbolIndex := rfl
@[simp] theorem copySymbol_totalSymbols :
    (copySymbol d s ss).totalSymbols = s.totalSymbols := rfl
@[simp] theorem copySymbol_payloadLen :
    (copySymbol d s ss).payloadLen = s.payloadLen := rfl

@[simp] theorem clipSymbol_packetId : (clipSymbol ss s).packetId = s.packetId := rfl
@[simp] theorem clipSymbol_fecId : (clipSymbol ss s).fecId = s.fecId := rfl
@[simp] theorem clipSymbol_symbolIndex :
    (clipSymbol ss s).symbolIndex = s.symbolIndex := rfl
@[simp] theorem clipSymbol_totalSymbols :
    (clipSymbol ss s).totalSymbols = s.totalSymbols := rfl
@[simp] theorem clipSymbol_payloadLen :
    (clipSymbol ss s).payloadLen = s.payloadLen := rfl
@[simp] theorem clipSymbol_crc32 : (clipSymbol ss s).crc32 = s.crc32 := rfl

@[simp] theorem clipSymbol_clipSymbol :
    clipSymbol ss (clipSymbol ss s) = clipSymbol ss s := by
  simp [clipSymbol]

/-- The header fields survive clipping. -/
theorem header_eq_of_clip {a b : Symbol} (h : clipSymbol ss a = clipSymbol ss b) :
    a.packetId = b.packetId ∧ a.fecId = b.fecId ∧ a.symbolIndex = b.symbolIndex ∧
      a.totalSymbols = b.totalSymbols ∧ a.payloadLen = b.payloadLen := by
  have h1 := congrArg Symbol.packetId h
  have h2 := congrArg Symbol.fecId h
  have h3 := congrArg Symbol.symbolIndex h
  have h4 := congrArg Symbol.totalSymbols h
  have h5 := congrArg Symbol.payloadLen h
  exact ⟨h1, h2, h3, h4, h5⟩

/-- A copy agrees with its source as far as it was copied. -/
@[simp] theorem clipSymbol_copySymbol :
    clipSymbol ss (copySymbol d s ss) = clipSymbol ss s := by
  simp [clipSymbol, copySymbol]

@[simp] theorem bytes_clipSymbol :
    bytes (clipSymbol ss s).data ss = bytes s.data ss := by
  simp [clipSymbol]

end Copies

/-! ## Clock and integer conversions -/

theorem elapsedMs_nonneg (start stop : Nat) : 0 ≤ elapsedMs start stop := by
  rw [elapsedMs]
  split
  · exact le_rfl
  · rename_i h
    exact not_lt.mp h

theorem elapsedMs_self (t : Nat) : elapsedMs t t = 0 := by
  have h : diffMs t t = 0 := by simp [diffMs, toDouble, Rounding.roundTo_zero]
  simp [elapsedMs, h]

/-- Above zero the two agree. -/
theorem le_elapsedMs {q : ℚ} (hq : 0 < q) (start stop : Nat) :
    q ≤ elapsedMs start stop ↔ q ≤ diffMs start stop := by
  rw [elapsedMs]
  split
  · constructor <;> intro h <;> linarith
  · rfl

/-- What `diffMs` rounds: whole seconds and the nanoseconds beside them. -/
theorem diffMs_parts (start stop : Nat) :
    ∃ D e : ℤ, (stop : ℤ) - start = 1000000000 * D + e ∧ |e| < 1000000000
      ∧ diffMs start stop
        = toDouble (toDouble (toDouble D * 1000) + toDouble ((e : ℚ) / 1000000)) := by
  refine ⟨(stop / 1000000000 : Nat) - (start / 1000000000 : Nat),
    (stop % 1000000000 : Nat) - (start % 1000000000 : Nat), by omega, ?_, ?_⟩
  · rw [abs_lt]
    constructor <;> omega
  · have hns : toDouble ((stop % 1000000000 : Nat) - (start % 1000000000 : Nat) : Int)
        = ((stop % 1000000000 : Nat) - (start % 1000000000 : Nat) : Int) := by
      refine Rounding.roundTo_intCast (by norm_num) ?_
      rw [abs_le]
      constructor <;> omega
    rw [diffMs, hns]

theorem toDouble_le {q : ℚ} {n : ℤ} (hn : |n| ≤ 2 ^ 53) (e : ℤ) (h : q ≤ n * 2 ^ e) :
    toDouble q ≤ n * 2 ^ e := Rounding.roundTo_le (by norm_num) hn e h

theorem toDouble_le_int {q : ℚ} {n : ℤ} (hn : |n| ≤ 2 ^ 53) (h : q ≤ n) : toDouble q ≤ n := by
  have h0 := toDouble_le (q := q) hn 0
  rw [zpow_zero, mul_one] at h0
  exact h0 h

theorem int_le_toDouble {q : ℚ} {n : ℤ} (hn : |n| ≤ 2 ^ 53) (h : (n : ℚ) ≤ q) :
    n ≤ toDouble q := by
  have h0 := Rounding.le_roundTo (q := q) (by norm_num) hn 0
  rw [zpow_zero, mul_one] at h0
  exact h0 h

/-- Short of `t` milliseconds the result is short of it by a unit in the last
    place below `2 ^ 33`, which is less than a nanosecond. -/
theorem diffMs_le_of_early {t start stop : Nat} (ht : t ≤ 2 ^ 32)
    (hearly : stop < start + t * 1000000) :
    diffMs start stop ≤ ((t * 2 ^ 20 - 1 : ℤ) : ℚ) * 2 ^ (-20 : ℤ) := by
  obtain ⟨D, e, hsum, he, hms⟩ := diffMs_parts start stop
  rw [abs_lt] at he
  -- the whole seconds, cut off far below zero
  obtain ⟨D', hD, hlow, hns⟩ : ∃ D' : ℤ, D ≤ D' ∧ -2 ^ 22 ≤ D'
      ∧ e + 1 ≤ (t - 1000 * D') * 1000000 := by
    rcases le_or_gt (-2 ^ 22) D with hD | hD
    · exact ⟨D, le_rfl, hD, by omega⟩
    · exact ⟨-2 ^ 22, hD.le, le_rfl, by omega⟩
  have hsec : toDouble D ≤ D' :=
    toDouble_le_int (by rw [abs_le]; constructor <;> omega) (by exact_mod_cast hD)
  have hprod : toDouble (toDouble D * 1000) ≤ (1000 * D' : ℤ) := by
    refine toDouble_le_int (by rw [abs_le]; constructor <;> omega) ?_
    push_cast
    linarith
  have hfrac : toDouble ((e : ℚ) / 1000000)
      ≤ (((t - 1000 * D') * 2 ^ 20 - 1 : ℤ) : ℚ) * 2 ^ (-20 : ℤ) := by
    refine toDouble_le (by rw [abs_le]; constructor <;> omega) _ ?_
    have hq : (e : ℚ) + 1 ≤ (t - 1000 * D') * 1000000 := by exact_mod_cast hns
    rw [div_le_iff₀ (by norm_num)]
    push_cast
    norm_num
    linarith
  rw [hms]
  refine toDouble_le (by rw [abs_le]; constructor <;> omega) _ ?_
  calc _ ≤ _ := add_le_add hprod hfrac
    _ = _ := by push_cast; ring

/-- From `t` milliseconds on the result is not below `t`. -/
theorem le_diffMs_of_late {t start stop : Nat} (ht : t ≤ 2 ^ 32)
    (hlate : start + t * 1000000 ≤ stop) : (t : ℚ) ≤ diffMs start stop := by
  obtain ⟨D, e, hsum, he, hms⟩ := diffMs_parts start stop
  rw [abs_lt] at he
  -- the whole seconds, cut off far above `t`
  obtain ⟨D', hD, hhigh, hns⟩ : ∃ D' : ℤ, D' ≤ D ∧ D' ≤ 2 ^ 23
      ∧ (t - 1000 * D') * 1000000 ≤ e := by
    rcases le_or_gt D (2 ^ 23) with hD | hD
    · exact ⟨D, le_rfl, hD, by omega⟩
    · exact ⟨2 ^ 23, hD.le, le_rfl, by omega⟩
  have hsec : (D' : ℚ) ≤ toDouble D :=
    int_le_toDouble (by rw [abs_le]; constructor <;> omega) (by exact_mod_cast hD)
  have hprod : ((1000 * D' : ℤ) : ℚ) ≤ toDouble (toDouble D * 1000) := by
    refine int_le_toDouble (by rw [abs_le]; constructor <;> omega) ?_
    push_cast
    linarith
  have hfrac : ((t - 1000 * D' : ℤ) : ℚ) ≤ toDouble ((e : ℚ) / 1000000) := by
    refine int_le_toDouble (by rw [abs_le]; constructor <;> omega) ?_
    rw [le_div_iff₀ (by norm_num)]
    exact_mod_cast hns
  rw [hms]
  have hsum' := int_le_toDouble (n := t) (by rw [abs_le]; constructor <;> omega)
    (q := toDouble (toDouble D * 1000) + toDouble ((e : ℚ) / 1000000)) (by
      push_cast at hprod hfrac ⊢
      linarith)
  exact_mod_cast hsum'

/-- Whole milliseconds are decided as in exact arithmetic. -/
theorem le_diffMs_iff {t : Nat} (ht : t ≤ 2 ^ 32) (start stop : Nat) :
    (t : ℚ) ≤ diffMs start stop ↔ start + t * 1000000 ≤ stop := by
  constructor
  · intro h
    by_contra hearly
    have hle := h.trans (diffMs_le_of_early ht (not_le.mp hearly))
    push_cast at hle
    norm_num at hle
    linarith
  · exact le_diffMs_of_late ht

theorem le_elapsedMs_iff {t : Nat} (hpos : 0 < t) (ht : t ≤ 2 ^ 32) (start stop : Nat) :
    (t : ℚ) ≤ elapsedMs start stop ↔ start + t * 1000000 ≤ stop := by
  rw [le_elapsedMs (by exact_mod_cast hpos), le_diffMs_iff ht]

/-- Between whole milliseconds it can differ: these readings are 0.3 ms apart. -/
example : elapsedMs 999900000 1000200000 < 3 / 10 := by decide +kernel

/-- A limit of whole milliseconds, none of them beyond an `int`. -/
def WholeMs (limit : ℚ) : Prop := ∃ t : Nat, 0 < t ∧ t ≤ 2 ^ 32 ∧ (t : ℚ) = limit

theorem wholeMs_two : WholeMs 2 := ⟨2, by norm_num⟩

theorem wholeMs_fifty : WholeMs 50 := ⟨50, by norm_num⟩

/-- What reached such a limit reaches it from an earlier start, at a later stop. -/
theorem WholeMs.widen {limit : ℚ} (hw : WholeMs limit) {a b c d : Nat} (hac : a ≤ c)
    (hdb : d ≤ b) (h : limit ≤ elapsedMs c d) : limit ≤ elapsedMs a b := by
  obtain ⟨t, hpos, ht, rfl⟩ := hw
  rw [le_elapsedMs_iff hpos ht] at h ⊢
  omega

theorem WholeMs.narrow {limit : ℚ} (hw : WholeMs limit) {a b c d : Nat} (hac : a ≤ c)
    (hdb : d ≤ b) (h : elapsedMs a b < limit) : elapsedMs c d < limit :=
  not_le.mp fun hle => not_le.mpr h (hw.widen hac hdb hle)

/-- Below `2 ^ 33` milliseconds the error is less than half a nanosecond. -/
theorem abs_diffMs_sub_lt {start stop : Nat} (hle : start ≤ stop)
    (hlt : stop < start + 2 ^ 33 * 1000000) :
    |diffMs start stop - ((stop : ℚ) - start) / 1000000| < 1 / 2000000 := by
  obtain ⟨D, e, hsum, he, hms⟩ := diffMs_parts start stop
  rw [abs_lt] at he
  have hexact : ((stop : ℚ) - start) / 1000000 = 1000 * D + (e : ℚ) / 1000000 := by
    have hq : (stop : ℚ) - start = 1000000000 * D + e := by exact_mod_cast hsum
    rw [hq]
    ring
  have hsec : toDouble D = D :=
    Rounding.roundTo_intCast (by norm_num) (by rw [abs_le]; constructor <;> omega)
  have hprod : toDouble (toDouble D * 1000) = 1000 * D := by
    have h := Rounding.roundTo_intCast (p := 53) (n := 1000 * D) (by norm_num)
      (by rw [abs_le]; constructor <;> omega)
    rw [hsec, mul_comm (D : ℚ)]
    exact_mod_cast h
  have hns : |toDouble ((e : ℚ) / 1000000) - (e : ℚ) / 1000000| ≤ 2 ^ (10 - 53 : ℤ) / 2 := by
    refine Rounding.abs_roundTo_sub_le 53 ?_
    have h1 : (-1000000000 : ℚ) < e := by exact_mod_cast he.1
    have h2 : (e : ℚ) < 1000000000 := by exact_mod_cast he.2
    rw [abs_lt]
    constructor <;> norm_num <;> linarith
  have hlo : (0 : ℚ) ≤ 1000 * D + (e : ℚ) / 1000000 := by
    rw [← hexact]
    have h : (start : ℚ) ≤ stop := by exact_mod_cast hle
    exact div_nonneg (by linarith) (by norm_num)
  have hhi : 1000 * D + (e : ℚ) / 1000000 ≤ 2 ^ 33 - 1 / 1000000 := by
    have h : (stop : ℚ) + 1 ≤ start + 2 ^ 33 * 1000000 := by exact_mod_cast hlt
    rw [← hexact, div_le_iff₀ (by norm_num)]
    linarith
  rw [hms, hprod, hexact]
  generalize toDouble ((e : ℚ) / 1000000) = d at hns ⊢
  norm_num at hns
  rw [abs_le] at hns
  have hround : |toDouble (1000 * D + d) - (1000 * D + d)| ≤ 2 ^ (33 - 53 : ℤ) / 2 := by
    refine Rounding.abs_roundTo_sub_le 53 ?_
    rw [abs_lt]
    constructor <;> norm_num <;> linarith
  norm_num at hround
  rw [abs_le] at hround
  rw [abs_lt]
  constructor <;> linarith

/-- Of two readings less than `2 ^ 33` milliseconds ago the earlier one has
    the greater age. -/
theorem elapsedMs_lt {a b now : Nat} (hab : a < b) (hb : b ≤ now)
    (hage : now < a + 2 ^ 33 * 1000000) : elapsedMs b now < elapsedMs a now := by
  have hea := abs_lt.mp (abs_diffMs_sub_lt (hab.le.trans hb) hage)
  have heb := abs_lt.mp (abs_diffMs_sub_lt hb (by omega))
  have hns : (a : ℚ) + 1 ≤ b := by exact_mod_cast hab
  have hnow : (b : ℚ) ≤ now := by exact_mod_cast hb
  have hpos : ∀ t ≤ now, elapsedMs t now = diffMs t now := by
    intro t ht
    rw [elapsedMs, if_neg]
    have h : ((0 : Nat) : ℚ) ≤ diffMs t now := le_diffMs_of_late (by omega) (by omega)
    exact not_lt.mpr (by exact_mod_cast h)
  rw [hpos a (by omega), hpos b hb]
  have hgap : ((now : ℚ) - b) / 1000000 + 1 / 1000000 ≤ (now - a) / 1000000 := by
    rw [← add_div]
    exact div_le_div_of_nonneg_right (by linarith) (by norm_num)
  linarith

/-- Below `2 ^ 31` the conversion to `int` keeps the value. -/
theorem toInt_of_lt {x : UInt32} (h : x.toNat < 2 ^ 31) : toInt x = x.toNat := by
  rw [toInt, BitVec.toInt_eq_toNat_cond]
  rw [if_pos (by show 2 * x.toNat < 2 ^ 32; omega)]
  rfl

/-- From `2 ^ 31` on the conversion to `int` is negative. -/
theorem toInt_of_ge {x : UInt32} (h : 2 ^ 31 ≤ x.toNat) : toInt x < 0 := by
  have hx := x.toNat_lt
  rw [toInt, BitVec.toInt_eq_toNat_cond]
  rw [if_neg (by show ¬ 2 * x.toNat < 2 ^ 32; omega)]
  show (x.toNat : Int) - (2 ^ 32 : Nat) < 0
  omega

/-- The range check `pos < 0 || pos >= n` on a converted value passes exactly
    for the values below `n`. -/
theorem toInt_range_iff {x : UInt32} {n : Nat} (hn : n ≤ 2 ^ 31) :
    (0 ≤ toInt x ∧ toInt x < n) ↔ x.toNat < n := by
  by_cases h : x.toNat < 2 ^ 31
  · rw [toInt_of_lt h]
    omega
  · have hneg := toInt_of_ge (Nat.le_of_not_lt h)
    omega

end FsoTypes
