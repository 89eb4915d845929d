import Mathlib.Data.List.Induction
import Mathlib.Data.Nat.Init

/-! # Every n-th element

    The elements of a list whose position is a multiple of a stride.  The lemmas
    follow the list from its end, where a last element is picked just when the
    stride divides the length before it. -/

namespace Sampling

variable {α : Type}

/-- The elements at the multiples of `s`. -/
def everyNth (s : Nat) (l : List α) : List α :=
  (l.zipIdx.filter fun p => p.2 % s = 0).map Prod.fst

@[simp] theorem everyNth_nil (s : Nat) : everyNth s ([] : List α) = [] := rfl

theorem everyNth_concat (s : Nat) (l : List α) (a : α) :
    everyNth s (l ++ [a]) = everyNth s l ++ (if l.length % s = 0 then [a] else []) := by
  rw [everyNth, List.zipIdx_append, List.filter_append, List.map_append, Nat.zero_add,
    List.zipIdx_singleton, ← everyNth]
  congr 1
  by_cases h : l.length % s = 0
  · simp [h]
  · simp [h]

theorem everyNth_one (l : List α) : everyNth 1 l = l := by
  induction l using List.reverseRecOn with
  | nil => rfl
  | append_singleton l a ih => rw [everyNth_concat, ih, if_pos (Nat.mod_one _)]

theorem everyNth_sublist (s : Nat) (l : List α) : (everyNth s l).Sublist l := by
  have h : ((l.zipIdx.filter fun p => p.2 % s = 0).map Prod.fst).Sublist
      (l.zipIdx.map Prod.fst) := List.filter_sublist.map _
  rwa [List.zipIdx_map_fst] at h

/-- The number of elements picked, the length over the stride rounded up. -/
theorem length_everyNth {s : Nat} (hs : 0 < s) (l : List α) :
    (everyNth s l).length = (l.length + (s - 1)) / s := by
  induction l using List.reverseRecOn with
  | nil => exact (Nat.div_eq_of_lt (by simp; omega)).symm
  | append_singleton l a ih =>
      have hstep : (l ++ [a]).length + (s - 1) = (l.length + (s - 1)) + 1 := by
        rw [List.length_append, List.length_singleton]
        omega
      have hdvd : s ∣ (l.length + (s - 1)) + 1 ↔ l.length % s = 0 := by
        rw [show (l.length + (s - 1)) + 1 = l.length + s by omega, Nat.dvd_add_self_right,
          Nat.dvd_iff_mod_eq_zero]
      rw [everyNth_concat, List.length_append, ih, hstep, Nat.succ_div]
      by_cases h : l.length % s = 0
      · rw [if_pos h, if_pos (hdvd.mpr h), List.length_singleton]
      · rw [if_neg h, if_neg (mt hdvd.mp h), List.length_nil]

/-- The first element is always picked. -/
theorem head?_everyNth (s : Nat) (l : List α) : (everyNth s l).head? = l.head? := by
  induction l using List.reverseRecOn with
  | nil => rfl
  | append_singleton l a ih =>
      rw [everyNth_concat, List.head?_append, List.head?_append, ih]
      cases l with
      | nil => rw [List.length_nil, if_pos (Nat.zero_mod s)]
      | cons x l => rfl

end Sampling
