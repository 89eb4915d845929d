import Mathlib.Data.List.Basic
import Mathlib.Order.Basic
import Mathlib.Order.Lattice

/-! # Linear scans

    Two accumulator loops over `0 .. n-1`: the first index with a property,
    and an index with the property at which a key is greatest.  The second
    starts from a key below every other, and a later index replaces an
    earlier one only when its key is strictly greater. -/

namespace Scan

/-- Keep the first index with the property. -/
def firstStep (p : Nat → Bool) (acc : Option Nat) (i : Nat) : Option Nat :=
  if p i then (if acc = none then some i else acc) else acc

/-- Keep an index with the property and the greatest key so far. -/
def argmaxStep {β : Type} [LT β] [DecidableLT β] (p : Nat → Bool) (f : Nat → β)
    (acc : Option Nat × β) (i : Nat) : Option Nat × β :=
  if p i then (if acc.2 < f i then (some i, f i) else acc) else acc

/-- The first-index scan finds an index with the property if there is one. -/
theorem first_spec (p : Nat → Bool) (n : Nat) :
    match (List.range n).foldl (firstStep p) none with
    | some i => i < n ∧ p i = true
    | none => ∀ j, j < n → p j = false := by
  induction n with
  | zero => exact fun j hj => absurd hj (Nat.not_lt_zero j)
  | succ n ih =>
      rw [List.range_succ, List.foldl_append, List.foldl_cons, List.foldl_nil]
      cases hacc : (List.range n).foldl (firstStep p) none with
      | some i =>
          rw [hacc] at ih
          have hstep : firstStep p (some i) n = some i := by
            rw [firstStep, if_neg (Option.some_ne_none i), ite_self]
          rw [hstep]
          exact ⟨Nat.lt_succ_of_lt ih.1, ih.2⟩
      | none =>
          rw [hacc] at ih
          cases hp : p n with
          | true =>
              rw [firstStep, if_pos hp, if_pos rfl]
              exact ⟨Nat.lt_succ_self n, hp⟩
          | false =>
              rw [firstStep, if_neg (by rw [hp]; exact Bool.false_ne_true)]
              intro j hj
              rcases Nat.lt_succ_iff_lt_or_eq.mp hj with h | h
              · exact ih j h
              · rw [h]; exact hp

/-- The greatest-key scan finds, among the indices with the property, one
    whose key no other exceeds. -/
theorem argmax_spec {β : Type} [LinearOrder β] (p : Nat → Bool) (f : Nat → β)
    (bot : β) (hbot : ∀ i, bot < f i) (n : Nat) :
    match (List.range n).foldl (argmaxStep p f) (none, bot) with
    | (some i, b) =>
        i < n ∧ p i = true ∧ b = f i ∧ ∀ j, j < n → p j = true → f j ≤ f i
    | (none, b) => b = bot ∧ ∀ j, j < n → p j = false := by
  induction n with
  | zero => exact ⟨rfl, fun j hj => absurd hj (Nat.not_lt_zero j)⟩
  | succ n ih =>
      rw [List.range_succ, List.foldl_append, List.foldl_cons, List.foldl_nil]
      generalize (List.range n).foldl (argmaxStep p f) (none, bot) = acc at ih ⊢
      obtain ⟨o, b⟩ := acc
      cases hp : p n with
      | false =>
          rw [argmaxStep, if_neg (by rw [hp]; exact Bool.false_ne_true)]
          cases o with
          | some i =>
              obtain ⟨h1, h2, h3, h4⟩ := ih
              refine ⟨Nat.lt_succ_of_lt h1, h2, h3, ?_⟩
              intro j hj hpj
              rcases Nat.lt_succ_iff_lt_or_eq.mp hj with h | h
              · exact h4 j h hpj
              · rw [h, hp] at hpj
                exact nomatch hpj
          | none =>
              refine ⟨ih.1, ?_⟩
              intro j hj
              rcases Nat.lt_succ_iff_lt_or_eq.mp hj with h | h
              · exact ih.2 j h
              · rw [h]; exact hp
      | true =>
          rw [argmaxStep, if_pos hp]
          by_cases hlt : b < f n
          · rw [if_pos hlt]
            refine ⟨Nat.lt_succ_self n, hp, rfl, ?_⟩
            intro j hj hpj
            rcases Nat.lt_succ_iff_lt_or_eq.mp hj with h | h
            · cases o with
              | some i =>
                  obtain ⟨-, -, h3, h4⟩ := ih
                  exact le_of_lt (lt_of_le_of_lt (h4 j h hpj) (h3 ▸ hlt))
              | none =>
                  rw [ih.2 j h] at hpj
                  exact nomatch hpj
            · rw [h]
          · rw [if_neg hlt]
            cases o with
            | some i =>
                obtain ⟨h1, h2, h3, h4⟩ := ih
                refine ⟨Nat.lt_succ_of_lt h1, h2, h3, ?_⟩
                intro j hj hpj
                rcases Nat.lt_succ_iff_lt_or_eq.mp hj with h | h
                · exact h4 j h hpj
                · rw [h, ← h3]
                  exact not_lt.mp hlt
            | none =>
                exact absurd (ih.1 ▸ hbot n) hlt

/-- Rewriting one place exchanges what it counts for. -/
theorem countP_update {α : Type} (P : α → Bool) (f : Nat → α) {n i : Nat} (hi : i < n)
    (v : α) :
    (List.range n).countP (fun j => P (Function.update f i v j)) + (P (f i)).toNat
      = (List.range n).countP (fun j => P (f j)) + (P v).toNat := by
  induction n with
  | zero => exact absurd hi (Nat.not_lt_zero i)
  | succ n ih =>
      rw [List.range_succ, List.countP_append, List.countP_append,
        List.countP_singleton, List.countP_singleton]
      by_cases hin : i = n
      · subst hin
        have hrest : (List.range i).countP (fun j => P (Function.update f i v j))
            = (List.range i).countP fun j => P (f j) := by
          refine List.countP_congr fun j hj => ?_
          rw [Function.update_of_ne (Nat.ne_of_lt (List.mem_range.mp hj))]
        rw [hrest, Function.update_self]
        cases P v <;> cases P (f i) <;> simp
      · have h := ih (by omega)
        rw [Function.update_of_ne (Ne.symm hin)]
        omega

end Scan
