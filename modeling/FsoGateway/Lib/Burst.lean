import Mathlib.Data.List.Basic
import Mathlib.Data.List.Perm.Basic
import Mathlib.Data.Nat.Count
import Mathlib.Data.Nat.ModEq

/-! # Bursts in a column-major stream

    A stream that is read out of a matrix column by column puts the elements
    of one row on positions of one residue modulo the number of rows.

    * `countP_infix_le` — so `L` consecutive elements hold at most `⌈L / d⌉`
      of them;
    * `filter_range_residue` — the positions of one row, in order;
    * `range_mul_perm` — all positions, row by row. -/

namespace Burst

variable {α : Type*}

/-- The elements of `l` with the property `p` are on positions `r` modulo `d`. -/
def OnResidue (p : α → Bool) (d r : Nat) (l : List α) : Prop :=
  ∀ i x, l[i]? = some x → p x = true → i % d = r

theorem onResidue_of_none {p : α → Bool} {l : List α} (d r : Nat)
    (h : ∀ x ∈ l, p x = false) : OnResidue p d r l := by
  intro i x hx hp
  rw [h x (List.mem_of_getElem? hx)] at hp
  exact nomatch hp

/-- Whole columns in front do not change the residue. -/
theorem OnResidue.append {p : α → Bool} {d r : Nat} {l l' : List α}
    (h : OnResidue p d r l) (h' : OnResidue p d r l') (hd : d ∣ l.length) :
    OnResidue p d r (l ++ l') := by
  intro i x hx hp
  by_cases hi : i < l.length
  · rw [List.getElem?_append_left hi] at hx
    exact h i x hx hp
  · rw [List.getElem?_append_right (Nat.le_of_not_lt hi)] at hx
    obtain ⟨q, hq⟩ := hd
    have h1 := h' _ x hx hp
    rw [← h1, ← Nat.add_mul_mod_self_left (i - l.length) d q, ← hq,
      Nat.sub_add_cancel (Nat.le_of_not_lt hi)]

/-- The positions of one residue among `L` consecutive ones. -/
theorem count_residue_le {d : Nat} (hd : 0 < d) (a r L : Nat) :
    Nat.count (fun i => (a + i) % d = r) L ≤ (L + d - 1) / d := by
  rw [Nat.count_eq_card_filter_range, ← Finset.card_range ((L + d - 1) / d)]
  refine Finset.card_le_card_of_injOn (· / d) ?_ ?_
  · intro i hi
    have hlt : i < L := Finset.mem_range.mp (Finset.mem_filter.mp hi).1
    refine Finset.mem_coe.mpr (Finset.mem_range.mpr ?_)
    rw [Nat.lt_div_iff_mul_lt hd]
    show i / d * d < L + d - 1 - (d - 1)
    have hle := Nat.div_mul_le_self i d
    omega
  · intro i hi j hj hij
    have h1 : (a + i) % d = r := (Finset.mem_filter.mp hi).2
    have h2 : (a + j) % d = r := (Finset.mem_filter.mp hj).2
    have hmod : i ≡ j [MOD d] := Nat.ModEq.add_left_cancel' a (h1.trans h2.symm)
    have hquot : i / d = j / d := hij
    rw [← Nat.div_add_mod i d, ← Nat.div_add_mod j d, hquot, hmod]

/-- The elements of one residue in a stretch that starts at position `a`. -/
theorem countP_le_count {p : α → Bool} {d r : Nat} (a : Nat) (s : List α)
    (h : ∀ i x, s[i]? = some x → p x = true → (a + i) % d = r) :
    s.countP p ≤ Nat.count (fun i => (a + i) % d = r) s.length := by
  induction s using List.reverseRecOn with
  | nil => exact Nat.le_refl 0
  | append_singleton s x ih =>
      have hs := ih fun i y hy hp => by
        refine h i y ?_ hp
        rw [List.getElem?_append_left (List.getElem?_eq_some_iff.mp hy).1]
        exact hy
      rw [List.countP_append, List.countP_singleton, List.length_append,
        List.length_singleton, Nat.count_succ]
      refine Nat.add_le_add hs ?_
      cases hp : p x with
      | false => exact Nat.zero_le _
      | true =>
          have hlast : (s ++ [x])[s.length]? = some x := by
            rw [List.getElem?_append_right le_rfl, Nat.sub_self]
            rfl
          rw [if_pos rfl, if_pos (h _ x hlast hp)]

/-- **Spreading**: `L` consecutive elements of the stream hold at most
    `⌈L / d⌉` elements of the row. -/
theorem countP_infix_le {p : α → Bool} {d r : Nat} {l s : List α} (hd : 0 < d)
    (h : OnResidue p d r l) (hs : s <:+: l) :
    s.countP p ≤ (s.length + d - 1) / d := by
  obtain ⟨pre, post, rfl⟩ := hs
  refine le_trans (countP_le_count pre.length s ?_) (count_residue_le hd _ r _)
  intro i x hx hp
  refine h _ x ?_ hp
  have hi := (List.getElem?_eq_some_iff.mp hx).1
  rw [List.append_assoc, List.getElem?_append_right (by omega), Nat.add_sub_cancel_left,
    List.getElem?_append_left hi, hx]

/-- The positions of row `r` in a matrix of `d` rows and `n` columns. -/
theorem filter_range_residue {d r : Nat} (hr : r < d) (n : Nat) :
    (List.range (d * n)).filter (fun i => decide (i % d = r))
      = (List.range n).map fun c => d * c + r := by
  induction n with
  | zero => rfl
  | succ n ih =>
      have hone : (List.range d).filter ((fun i => decide (i % d = r)) ∘ (d * n + ·))
          = [r] := by
        have hcongr : ∀ i ∈ List.range d,
            ((fun i => decide (i % d = r)) ∘ (d * n + ·)) i = (i == r) := by
          intro i hi
          show decide ((d * n + i) % d = r) = (i == r)
          rw [Nat.mul_add_mod, Nat.mod_eq_of_lt (List.mem_range.mp hi)]
          rfl
        rw [List.filter_congr hcongr, List.filter_beq,
          List.count_eq_one_of_mem List.nodup_range (List.mem_range.mpr hr)]
        rfl
      rw [Nat.mul_succ, List.range_add, List.filter_append, ih, List.filter_map, hone,
        List.range_succ, List.map_append]
      rfl

theorem filter_range_lt {a b : Nat} (h : a ≤ b) :
    (List.range b).filter (fun i => decide (i < a)) = List.range a := by
  obtain ⟨d, rfl⟩ := Nat.exists_eq_add_of_le h
  rw [List.range_add, List.filter_append]
  have hleft : (List.range a).filter (fun i => decide (i < a)) = List.range a :=
    List.filter_eq_self.mpr fun i hi => decide_eq_true (List.mem_range.mp hi)
  have hright : ((List.range d).map (a + ·)).filter (fun i => decide (i < a)) = [] := by
    refine List.filter_eq_nil_iff.mpr fun i hi => ?_
    obtain ⟨j, -, rfl⟩ := List.mem_map.mp hi
    rw [decide_eq_true_iff]
    omega
  rw [hleft, hright, List.append_nil]

/-- **Row by row**: a matrix read out by columns is, up to the order, its rows
    one after the other. -/
theorem range_mul_perm (d n : Nat) :
    (List.range (d * n)).Perm
      ((List.range d).flatMap fun r => (List.range n).map fun c => d * c + r) := by
  induction n with
  | zero =>
      rw [Nat.mul_zero, List.range_zero]
      simp
  | succ n ih =>
      have hcol : (List.range d).flatMap (fun r => [d * n + r])
          = (List.range d).map fun r => d * n + r := (List.map_eq_flatMap ..).symm
      have hrow : ∀ r, (List.range (n + 1)).map (fun c => d * c + r)
          = (List.range n).map (fun c => d * c + r) ++ [d * n + r] := by
        intro r
        rw [List.range_succ, List.map_append, List.map_singleton]
      rw [Nat.mul_succ, List.range_add, List.flatMap_congr fun r _ => hrow r, ← hcol]
      exact (ih.append_right _).trans (List.flatMap_append_perm _ _ _)

end Burst
