import Mathlib.Data.List.Basic

/-! # Pieces laid end to end

    `concat f n` is `f 0`, `f 1`, ..., `f (n - 1)` one after the other.  Piece
    `i` starts where the concatenation of the earlier ones ends.

    * `concat_piece` — what stands where piece `i` is;
    * `concat_covered` — every place belongs to a piece. -/

namespace Layout

variable {α : Type}

/-- The first `n` pieces, end to end. -/
def concat (f : Nat → List α) (n : Nat) : List α := (List.range n).flatMap f

/-- Where piece `i` starts. -/
def startOf (f : Nat → List α) (i : Nat) : Nat := (concat f i).length

theorem concat_succ (f : Nat → List α) (n : Nat) : concat f (n + 1) = concat f n ++ f n := by
  simp [concat, List.range_succ]

theorem startOf_succ (f : Nat → List α) (i : Nat) :
    startOf f (i + 1) = startOf f i + (f i).length := by
  rw [startOf, startOf, concat_succ, List.length_append]

theorem startOf_mono (f : Nat → List α) {i j : Nat} (h : i ≤ j) : startOf f i ≤ startOf f j := by
  induction j with
  | zero => exact Nat.le_of_eq (congrArg (startOf f) (Nat.le_zero.mp h))
  | succ j ih =>
      rcases Nat.lt_or_eq_of_le h with hlt | heq
      · rw [startOf_succ]
        exact Nat.le_trans (ih (Nat.le_of_lt_succ hlt)) (Nat.le_add_right _ _)
      · exact Nat.le_of_eq (congrArg (startOf f) heq)

/-- Piece `i` is inside. -/
theorem startOf_add_le (f : Nat → List α) {i n : Nat} (h : i < n) :
    startOf f i + (f i).length ≤ startOf f n := by
  rw [← startOf_succ]
  exact startOf_mono f h

theorem concat_piece (f : Nat → List α) {i n j : Nat} (h : i < n) (hj : j < (f i).length) :
    (concat f n)[startOf f i + j]? = (f i)[j]? := by
  induction n with
  | zero => exact absurd h (Nat.not_lt_zero i)
  | succ n ih =>
      rw [concat_succ]
      rcases Nat.lt_or_eq_of_le (Nat.le_of_lt_succ h) with hlt | heq
      · have hin : startOf f i + j < (concat f n).length :=
          Nat.lt_of_lt_of_le (Nat.add_lt_add_left hj _) (startOf_add_le f hlt)
        rw [List.getElem?_append_left hin]
        exact ih hlt
      · subst heq
        rw [startOf, List.getElem?_append_right (Nat.le_add_right _ _), Nat.add_sub_cancel_left]

theorem concat_covered (f : Nat → List α) {n o : Nat} (h : o < startOf f n) :
    ∃ i < n, startOf f i ≤ o ∧ o < startOf f i + (f i).length := by
  induction n with
  | zero => exact absurd h (Nat.not_lt_zero o)
  | succ n ih =>
      rw [startOf_succ] at h
      by_cases hlt : o < startOf f n
      · obtain ⟨i, hi, hrest⟩ := ih hlt
        exact ⟨i, Nat.lt_succ_of_lt hi, hrest⟩
      · exact ⟨n, Nat.lt_succ_self n, Nat.le_of_not_lt hlt, h⟩

end Layout
