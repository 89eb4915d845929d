import Mathlib.Algebra.Order.Field.Rat
import Mathlib.Data.Int.Log
import Mathlib.Data.Rat.Floor
import Mathlib.Tactic.Linarith

/-! # Rounding to a binary significand

    Round to nearest, ties to even, with a significand of `p` bits and an
    exponent without bounds.  A number that fits is kept, the order of two
    numbers is never reversed, and the error is at most half a unit in the
    last place.  For `p = 53` this is what an IEEE double does to a result
    that neither overflows nor is subnormal. -/

namespace Rounding

/-- The integer nearest to `q`, the even one of two equally near. -/
def nearestEven (q : ℚ) : ℤ :=
  if q - ⌊q⌋ < 1 / 2 then ⌊q⌋
  else if 1 / 2 < q - ⌊q⌋ then ⌊q⌋ + 1
  else if ⌊q⌋ % 2 = 0 then ⌊q⌋ else ⌊q⌋ + 1

/-- The multiple of `u` nearest to `q`. -/
def roundAt (u q : ℚ) : ℚ := nearestEven (q / u) * u

/-- The unit in the last place of a significand of `p` bits. -/
def ulp (p : ℕ) (q : ℚ) : ℚ := 2 ^ (Int.log 2 |q| + 1 - p)

/-- `q` in a significand of `p` bits. -/
def roundTo (p : ℕ) (q : ℚ) : ℚ := roundAt (ulp p q) q

/-! ## To the nearest integer -/

theorem nearestEven_intCast (n : ℤ) : nearestEven n = n := by
  simp [nearestEven]

theorem nearestEven_of_lt {q : ℚ} (h : q - ⌊q⌋ < 1 / 2) : nearestEven q = ⌊q⌋ := by
  rw [nearestEven, if_pos h]

theorem nearestEven_of_gt {q : ℚ} (h : 1 / 2 < q - ⌊q⌋) : nearestEven q = ⌊q⌋ + 1 := by
  rw [nearestEven, if_neg h.not_gt, if_pos h]

theorem nearestEven_of_eq {q : ℚ} (h : q - ⌊q⌋ = 1 / 2) :
    nearestEven q = if ⌊q⌋ % 2 = 0 then ⌊q⌋ else ⌊q⌋ + 1 := by
  rw [nearestEven, if_neg h.not_lt, if_neg h.not_gt]

/-- The result is the floor or the integer after it. -/
theorem nearestEven_floor (q : ℚ) :
    nearestEven q = ⌊q⌋ ∧ q - ⌊q⌋ ≤ 1 / 2
      ∨ nearestEven q = ⌊q⌋ + 1 ∧ 1 / 2 ≤ q - ⌊q⌋ := by
  rcases lt_trichotomy (q - ⌊q⌋) (1 / 2) with h | h | h
  · exact .inl ⟨nearestEven_of_lt h, h.le⟩
  · rw [nearestEven_of_eq h]
    split
    · exact .inl ⟨rfl, h.le⟩
    · exact .inr ⟨rfl, h.ge⟩
  · exact .inr ⟨nearestEven_of_gt h, h.le⟩

theorem abs_nearestEven_sub_le (q : ℚ) : |(nearestEven q : ℚ) - q| ≤ 1 / 2 := by
  have hlo := Int.floor_le q
  have hhi := Int.lt_floor_add_one q
  rw [abs_le]
  rcases nearestEven_floor q with ⟨h, hd⟩ | ⟨h, hd⟩
  · rw [h]
    constructor <;> linarith
  · rw [h]
    push_cast
    constructor <;> linarith

theorem nearestEven_mono {a b : ℚ} (h : a ≤ b) : nearestEven a ≤ nearestEven b := by
  have hfloor : ⌊a⌋ ≤ ⌊b⌋ := Int.floor_le_floor h
  rcases hfloor.lt_or_eq with hlt | heq
  · have ha : nearestEven a ≤ ⌊a⌋ + 1 := by
      rcases nearestEven_floor a with ⟨h, -⟩ | ⟨h, -⟩ <;> omega
    have hb : ⌊b⌋ ≤ nearestEven b := by
      rcases nearestEven_floor b with ⟨h, -⟩ | ⟨h, -⟩ <;> omega
    omega
  · -- between the same two integers only the fractions decide
    have hfrac : a - ⌊a⌋ ≤ b - ⌊b⌋ := by rw [heq]; linarith
    rcases lt_trichotomy (a - ⌊a⌋) (1 / 2) with ha | ha | ha
    · rw [nearestEven_of_lt ha]
      rcases nearestEven_floor b with ⟨h, -⟩ | ⟨h, -⟩ <;> omega
    · rcases (ha.symm.trans_le hfrac).lt_or_eq with hb | hb
      · rw [nearestEven_of_gt hb]
        rcases nearestEven_floor a with ⟨h, -⟩ | ⟨h, -⟩ <;> omega
      · rw [nearestEven_of_eq ha, nearestEven_of_eq hb.symm, heq]
    · rw [nearestEven_of_gt ha, nearestEven_of_gt (ha.trans_le hfrac), heq]

theorem nearestEven_neg (q : ℚ) : nearestEven (-q) = -nearestEven q := by
  rcases (Int.floor_le q).lt_or_eq with hlt | heq
  · have hneg : ⌊-q⌋ = -⌊q⌋ - 1 := by
      rw [Int.floor_eq_iff]
      have := Int.lt_floor_add_one q
      push_cast
      constructor <;> linarith
    have hfrac : -q - ⌊-q⌋ = 1 - (q - ⌊q⌋) := by
      rw [hneg]
      push_cast
      linarith
    rcases lt_trichotomy (q - ⌊q⌋) (1 / 2) with h | h | h
    · rw [nearestEven_of_lt h, nearestEven_of_gt (by rw [hfrac]; linarith), hneg]
      omega
    · rw [nearestEven_of_eq h, nearestEven_of_eq (by rw [hfrac]; linarith), hneg]
      split <;> split <;> omega
    · rw [nearestEven_of_gt h, nearestEven_of_lt (by rw [hfrac]; linarith), hneg]
      omega
  · rw [← heq, ← Int.cast_neg, nearestEven_intCast, nearestEven_intCast]

/-! ## To a multiple of a unit -/

theorem roundAt_mul {u : ℚ} (hu : 0 < u) (n : ℤ) : roundAt u (n * u) = n * u := by
  rw [roundAt, mul_div_cancel_right₀ _ hu.ne', nearestEven_intCast]

theorem roundAt_mono {u a b : ℚ} (hu : 0 < u) (h : a ≤ b) : roundAt u a ≤ roundAt u b := by
  have hdiv : a / u ≤ b / u := div_le_div_of_nonneg_right h hu.le
  have hn : (nearestEven (a / u) : ℚ) ≤ nearestEven (b / u) := by
    exact_mod_cast nearestEven_mono hdiv
  exact mul_le_mul_of_nonneg_right hn hu.le

theorem abs_roundAt_sub_le {u : ℚ} (hu : 0 < u) (q : ℚ) : |roundAt u q - q| ≤ u / 2 := by
  have hq : roundAt u q - q = (nearestEven (q / u) - q / u) * u := by
    rw [roundAt, sub_mul, div_mul_cancel₀ _ hu.ne']
  rw [hq, abs_mul, abs_of_pos hu]
  have h := mul_le_mul_of_nonneg_right (abs_nearestEven_sub_le (q / u)) hu.le
  linarith

/-! ## To a significand -/

theorem ulp_pos (p : ℕ) (q : ℚ) : 0 < ulp p q := zpow_pos (by norm_num) _

/-- The powers of two around a number are multiples of its last place. -/
theorem log_eq_mul_ulp {p : ℕ} (hp : 1 ≤ p) (q : ℚ) :
    (2 : ℚ) ^ Int.log 2 |q| = ((2 ^ (p - 1) : ℤ) : ℚ) * ulp p q
      ∧ (2 : ℚ) ^ (Int.log 2 |q| + 1) = ((2 ^ p : ℤ) : ℚ) * ulp p q := by
  have h2 : (2 : ℚ) ≠ 0 := by norm_num
  constructor
  · rw [ulp]
    push_cast
    rw [← zpow_natCast, ← zpow_add₀ h2]
    congr 1
    omega
  · rw [ulp]
    push_cast
    rw [← zpow_natCast, ← zpow_add₀ h2]
    congr 1
    omega

/-- A positive number is rounded inside its binade. -/
theorem roundTo_binade {p : ℕ} (hp : 1 ≤ p) {q : ℚ} (hq : 0 < q) :
    (2 : ℚ) ^ Int.log 2 q ≤ roundTo p q ∧ roundTo p q ≤ 2 ^ (Int.log 2 q + 1) := by
  have hu := ulp_pos p q
  have habs : |q| = q := abs_of_pos hq
  obtain ⟨hlo, hhi⟩ := log_eq_mul_ulp hp q
  rw [habs] at hlo hhi
  constructor
  · have hle : (2 : ℚ) ^ Int.log 2 q ≤ q := Int.zpow_log_le_self (by norm_num) hq
    rw [hlo] at hle ⊢
    rw [roundTo, ← roundAt_mul hu]
    exact roundAt_mono hu hle
  · have hle : q ≤ (2 : ℚ) ^ (Int.log 2 q + 1) :=
      (Int.lt_zpow_succ_log_self (by norm_num) q).le
    rw [hhi] at hle ⊢
    rw [roundTo, ← roundAt_mul hu]
    exact roundAt_mono hu hle

theorem roundTo_neg (p : ℕ) (q : ℚ) : roundTo p (-q) = -roundTo p q := by
  have hu : ulp p (-q) = ulp p q := by rw [ulp, ulp, abs_neg]
  rw [roundTo, roundTo, hu, roundAt, roundAt, neg_div, nearestEven_neg, Int.cast_neg, neg_mul]

theorem roundTo_zero (p : ℕ) : roundTo p 0 = 0 := by
  simp [roundTo, roundAt, nearestEven]

theorem roundTo_mono_of_pos {p : ℕ} (hp : 1 ≤ p) {a b : ℚ} (ha : 0 < a) (h : a ≤ b) :
    roundTo p a ≤ roundTo p b := by
  have hb : 0 < b := ha.trans_le h
  have hlog : Int.log 2 a ≤ Int.log 2 b := Int.log_mono_right ha h
  rcases hlog.lt_or_eq with hlt | heq
  · calc roundTo p a ≤ 2 ^ (Int.log 2 a + 1) := (roundTo_binade hp ha).2
      _ ≤ 2 ^ Int.log 2 b := zpow_le_zpow_right₀ (by norm_num) hlt
      _ ≤ roundTo p b := (roundTo_binade hp hb).1
  · have hu : ulp p b = ulp p a := by rw [ulp, ulp, abs_of_pos ha, abs_of_pos hb, heq]
    rw [roundTo, roundTo, hu]
    exact roundAt_mono (ulp_pos p a) h

theorem roundTo_nonneg {p : ℕ} (hp : 1 ≤ p) {q : ℚ} (hq : 0 ≤ q) : 0 ≤ roundTo p q := by
  rcases hq.lt_or_eq with hlt | heq
  · exact (zpow_pos (by norm_num) _).le.trans (roundTo_binade hp hlt).1
  · rw [← heq, roundTo_zero]

/-- Rounding never reverses an order. -/
theorem roundTo_mono {p : ℕ} (hp : 1 ≤ p) {a b : ℚ} (h : a ≤ b) :
    roundTo p a ≤ roundTo p b := by
  rcases lt_or_ge 0 a with ha | ha
  · exact roundTo_mono_of_pos hp ha h
  · rcases lt_or_ge b 0 with hb | hb
    · have hneg := roundTo_mono_of_pos hp (neg_pos.mpr hb) (neg_le_neg h)
      rw [roundTo_neg, roundTo_neg] at hneg
      exact neg_le_neg_iff.mp hneg
    · have hneg := roundTo_nonneg hp (neg_nonneg.mpr ha)
      rw [roundTo_neg] at hneg
      exact (neg_nonneg.mp hneg).trans (roundTo_nonneg hp hb)

/-- What fits in the significand is kept. -/
theorem roundTo_dyadic {p : ℕ} (hp : 1 ≤ p) {n : ℤ} (hn : |n| ≤ 2 ^ p) (e : ℤ) :
    roundTo p (n * 2 ^ e) = n * 2 ^ e := by
  have h2 : (2 : ℚ) ≠ 0 := by norm_num
  rcases eq_or_ne n 0 with rfl | hne
  · rw [Int.cast_zero, zero_mul, roundTo_zero]
  set q : ℚ := n * 2 ^ e with hq
  have hpos : 0 < |q| := abs_pos.mpr (mul_ne_zero (Int.cast_ne_zero.mpr hne) (zpow_ne_zero _ h2))
  have habs : |q| = |(n : ℚ)| * 2 ^ e := by
    rw [hq, abs_mul, abs_of_pos (zpow_pos (by norm_num : (0 : ℚ) < 2) e)]
  have hle : |q| ≤ 2 ^ (p + e : ℤ) := by
    rw [habs, zpow_add₀ h2, zpow_natCast]
    refine mul_le_mul_of_nonneg_right ?_ (zpow_pos (by norm_num) _).le
    exact_mod_cast hn
  have hlog : (2 : ℚ) ^ Int.log 2 |q| ≤ |q| := Int.zpow_log_le_self (by norm_num) hpos
  -- `q` is a multiple of its last place
  have hmul : ∃ z : ℤ, q = z * ulp p q := by
    rcases le_or_gt (Int.log 2 |q| + 1 - p) e with hfit | hbig
    · refine ⟨n * 2 ^ (e - (Int.log 2 |q| + 1 - p)).toNat, ?_⟩
      rw [ulp]
      push_cast
      rw [mul_assoc, ← zpow_natCast, ← zpow_add₀ h2, Int.toNat_of_nonneg (by omega),
        sub_add_cancel]
    · -- then `q` is a power of two, just above what the last place counts
      have hup : |q| ≤ 2 ^ Int.log 2 |q| :=
        hle.trans (zpow_le_zpow_right₀ (by norm_num) (by omega))
      have heq : |q| = ((2 ^ (p - 1) : ℤ) : ℚ) * ulp p q := by
        rw [← (log_eq_mul_ulp hp q).1]
        exact le_antisymm hup hlog
      rcases abs_choice q with h | h
      · exact ⟨2 ^ (p - 1), by rw [← heq, h]⟩
      · refine ⟨-2 ^ (p - 1), ?_⟩
        rw [Int.cast_neg, neg_mul, ← heq, h, neg_neg]
  obtain ⟨z, hz⟩ := hmul
  rw [roundTo]
  generalize hu : ulp p q = u at hz
  rw [hz]
  exact roundAt_mul (hu ▸ ulp_pos p q) z

/-- Integers up to `2 ^ p` are kept. -/
theorem roundTo_intCast {p : ℕ} (hp : 1 ≤ p) {n : ℤ} (hn : |n| ≤ 2 ^ p) :
    roundTo p n = n := by
  have h := roundTo_dyadic hp hn 0
  rwa [zpow_zero, mul_one] at h

/-- A bound that fits is a bound after rounding. -/
theorem roundTo_le {p : ℕ} (hp : 1 ≤ p) {q : ℚ} {n : ℤ} (hn : |n| ≤ 2 ^ p) (e : ℤ)
    (h : q ≤ n * 2 ^ e) : roundTo p q ≤ n * 2 ^ e :=
  (roundTo_mono hp h).trans_eq (roundTo_dyadic hp hn e)

theorem le_roundTo {p : ℕ} (hp : 1 ≤ p) {q : ℚ} {n : ℤ} (hn : |n| ≤ 2 ^ p) (e : ℤ)
    (h : n * 2 ^ e ≤ q) : n * 2 ^ e ≤ roundTo p q :=
  (roundTo_dyadic hp hn e).symm.trans_le (roundTo_mono hp h)

/-- Half a unit in the last place. -/
theorem abs_roundTo_sub_le (p : ℕ) {q : ℚ} {k : ℤ} (hk : |q| < 2 ^ k) :
    |roundTo p q - q| ≤ 2 ^ (k - p) / 2 := by
  rcases eq_or_ne q 0 with rfl | hq
  · rw [roundTo_zero, sub_zero, abs_zero]
    exact div_nonneg (zpow_pos (by norm_num) _).le (by norm_num)
  have hpos : 0 < |q| := abs_pos.mpr hq
  have hlog : Int.log 2 |q| < k := by
    have hlo : (2 : ℚ) ^ Int.log 2 |q| ≤ |q| := Int.zpow_log_le_self (by norm_num) hpos
    exact (zpow_lt_zpow_iff_right₀ (by norm_num : (1 : ℚ) < 2)).mp (hlo.trans_lt hk)
  have hulp : ulp p q ≤ 2 ^ (k - p) := by
    rw [ulp]
    exact zpow_le_zpow_right₀ (by norm_num) (by omega)
  calc |roundTo p q - q| ≤ ulp p q / 2 := abs_roundAt_sub_le (ulp_pos p q) q
    _ ≤ 2 ^ (k - p) / 2 := by linarith

end Rounding
