import Mathlib.Data.List.Count
import Mathlib.Algebra.Group.Nat.Defs

/-! # Byte-packed bit sets

    Position `p` is bit `p % 8` of byte `p / 8`.  Everything a user of the
    set needs is `test_set`: setting a position adds that position and
    nothing else.  `count` is the number of members below a bound. -/

namespace Bitset

/-- The bytes of a bit set, by index. -/
abbrev Mask := Nat → UInt8

/-- The empty set. -/
def clear : Mask := fun _ => 0

/-- Add a position. -/
def set (mask : Mask) (pos : Nat) : Mask :=
  fun b =>
    if b = pos / 8 then mask b ||| ((1 : UInt8) <<< UInt8.ofNat (pos % 8))
    else mask b

/-- Is the position in the set? -/
def test (mask : Mask) (pos : Nat) : Bool :=
  (mask (pos / 8) >>> UInt8.ofNat (pos % 8)) &&& 1 == 1

/-- The number of members below `n`. -/
def count (mask : Mask) (n : Nat) : Nat :=
  (List.range n).countP (test mask)

/-- The packed test is the bit of the byte. -/
theorem test_eq_testBit (mask : Mask) (pos : Nat) :
    test mask pos = (mask (pos / 8)).toNat.testBit (pos % 8) := by
  have hlt : pos % 8 < 8 := Nat.mod_lt _ (by omega)
  have hs : (UInt8.ofNat (pos % 8)).toNat % 8 = pos % 8 := by
    rw [UInt8.toNat_ofNat']
    omega
  have hn : ((mask (pos / 8) >>> UInt8.ofNat (pos % 8)) &&& 1).toNat
      = 1 &&& ((mask (pos / 8)).toNat >>> (pos % 8)) := by
    rw [UInt8.toNat_and, UInt8.toNat_shiftRight, hs, Nat.and_comm]
    rfl
  rw [test, Nat.testBit, ← hn]
  have h1 : 1 &&& ((mask (pos / 8)).toNat >>> (pos % 8)) < 2 := by
    rw [Nat.and_comm, Nat.and_one_is_mod]
    omega
  rw [← hn] at h1
  cases h : ((mask (pos / 8) >>> UInt8.ofNat (pos % 8)) &&& 1 == 1) with
  | true =>
      have he := eq_of_beq h
      rw [he]
      rfl
  | false =>
      have hne := ne_of_beq_false h
      have h0 : ((mask (pos / 8) >>> UInt8.ofNat (pos % 8)) &&& 1).toNat ≠ 1 := by
        intro hc
        exact hne (UInt8.toNat_inj.mp hc)
      have hz : ((mask (pos / 8) >>> UInt8.ofNat (pos % 8)) &&& 1).toNat = 0 := by
        omega
      rw [hz]
      rfl

/-- The byte a position is stored in, after it was added. -/
private theorem set_byte (mask : Mask) (pos : Nat) :
    (set mask pos (pos / 8)).toNat
      = (mask (pos / 8)).toNat ||| 2 ^ (pos % 8) := by
  have hlt : pos % 8 < 8 := Nat.mod_lt _ (by omega)
  have hs : (UInt8.ofNat (pos % 8)).toNat % 8 = pos % 8 := by
    rw [UInt8.toNat_ofNat']
    omega
  have hp : 2 ^ (pos % 8) < 2 ^ 8 := Nat.pow_lt_pow_right (by omega) hlt
  rw [set, if_pos rfl, UInt8.toNat_or, UInt8.toNat_shiftLeft, hs,
    Nat.shiftLeft_eq]
  rw [show (1 : UInt8).toNat = 1 from rfl, Nat.one_mul, Nat.mod_eq_of_lt hp]

/-- **Adding a position** adds exactly that position. -/
@[simp] theorem test_set (mask : Mask) (p q : Nat) :
    test (set mask p) q = (decide (q = p) || test mask q) := by
  rw [test_eq_testBit, test_eq_testBit]
  by_cases hb : q / 8 = p / 8
  · rw [hb, set_byte, Nat.testBit_or, Nat.testBit_two_pow, Bool.or_comm]
    congr 1
    apply decide_eq_decide.mpr
    omega
  · rw [set, if_neg hb]
    have hne : q ≠ p := fun h => hb (by rw [h])
    rw [decide_eq_false hne, Bool.false_or]

@[simp] theorem test_clear (p : Nat) : test clear p = false := by
  rw [test_eq_testBit]
  exact Nat.zero_testBit _

@[simp] theorem count_clear (n : Nat) : count clear n = 0 := by
  rw [count, List.countP_eq_zero]
  intro i _
  simp

theorem count_le (mask : Mask) (n : Nat) : count mask n ≤ n := by
  have h := List.countP_le_length (p := test mask) (l := List.range n)
  rwa [List.length_range] at h

/-- A position that was not a member raises the count by one. -/
theorem count_set {mask : Mask} {p n : Nat} (hp : p < n)
    (hnew : test mask p = false) : count (set mask p) n = count mask n + 1 := by
  induction n with
  | zero => omega
  | succ n ih =>
      rw [count, count, List.range_succ, List.countP_append,
        List.countP_append, List.countP_singleton, List.countP_singleton]
      by_cases hpn : p = n
      · subst hpn
        have hsame : (List.range p).countP (test (set mask p))
            = (List.range p).countP (test mask) := by
          apply List.countP_congr
          intro i hi
          have hlt := List.mem_range.mp hi
          simp [Nat.ne_of_lt hlt]
        rw [hsame]
        simp [hnew]
      · have ih' := ih (by omega)
        rw [count, count] at ih'
        rw [ih']
        have hne : n ≠ p := fun h => hpn h.symm
        simp [hne]
        omega

/-- Positions past the last member do not count. -/
theorem count_extend {mask : Mask} {n N : Nat} (hle : n ≤ N)
    (hout : ∀ i, n ≤ i → test mask i = false) : count mask N = count mask n := by
  induction hle with
  | refl => rfl
  | @step N hN ih =>
      rw [count, List.range_succ, List.countP_append, List.countP_singleton,
        hout N hN]
      exact ih

/-- The count is full exactly when every position is a member. -/
theorem count_eq_iff {mask : Mask} {n : Nat} :
    count mask n = n ↔ ∀ i, i < n → test mask i = true := by
  have h := List.countP_eq_length (p := test mask) (l := List.range n)
  rw [List.length_range] at h
  constructor
  · intro hc i hi
    exact h.mp hc i (List.mem_range.mpr hi)
  · intro hall
    exact h.mpr fun i hi => hall i (List.mem_range.mp hi)

end Bitset
