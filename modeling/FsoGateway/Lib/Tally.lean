import Mathlib.Algebra.BigOperators.Group.List.Basic
import Mathlib.Algebra.BigOperators.Ring.List
import Mathlib.Algebra.Order.Ring.Nat

/-! # Weighing a list

    What the items of a list weigh together, and what the heaviest of them
    weighs.  With weights of 0 and 1 this is counting, and replacing an item
    changes a count by what the two items weigh (`countP_set`). -/

namespace Tally

variable {α β : Type}

/-- What the items of a list weigh together. -/
def weigh (w : α → Nat) (l : List α) : Nat := (l.map w).sum

/-- What the heaviest item of a list weighs. -/
def heaviest (w : α → Nat) (l : List α) : Nat := l.foldr (fun a m => max (w a) m) 0

variable {w : α → Nat}

@[simp] theorem weigh_nil : weigh w ([] : List α) = 0 := rfl

@[simp] theorem weigh_cons (a : α) (l : List α) : weigh w (a :: l) = w a + weigh w l :=
  List.sum_cons

@[simp] theorem weigh_append (l l' : List α) : weigh w (l ++ l') = weigh w l + weigh w l' := by
  rw [weigh, List.map_append, List.sum_append]
  rfl

theorem weigh_map (f : β → α) (l : List β) : weigh w (l.map f) = weigh (fun b => w (f b)) l := by
  rw [weigh, weigh, List.map_map]
  rfl

theorem weigh_congr {v : α → Nat} {l : List α} (h : ∀ a ∈ l, w a = v a) :
    weigh w l = weigh v l := congrArg List.sum (List.map_congr_left h)

/-- Weights of 0 and 1 count. -/
theorem weigh_toNat (p : α → Bool) (l : List α) : weigh (fun a => (p a).toNat) l = l.countP p := by
  induction l with
  | nil => rfl
  | cons a l ih =>
      rw [weigh_cons, ih, List.countP_cons, Nat.add_comm]
      cases p a <;> rfl

theorem countP_cons (p : α → Bool) (a : α) (l : List α) :
    (a :: l).countP p = (p a).toNat + l.countP p := by
  rw [← weigh_toNat, ← weigh_toNat, weigh_cons]

/-- Replacing an item changes a count by the two of them. -/
theorem countP_set (p : α → Bool) {l : List α} {i : Nat} {a : α} (h : l[i]? = some a) (b : α) :
    (l.set i b).countP p + (p a).toNat = l.countP p + (p b).toNat := by
  induction l generalizing i with
  | nil => cases h
  | cons c l ih =>
      cases i with
      | zero =>
          cases h
          rw [List.set_cons_zero, countP_cons, countP_cons]
          omega
      | succ i =>
          have hrest := ih h
          rw [List.set_cons_succ, countP_cons, countP_cons]
          omega

/-- Equal weights multiply. -/
theorem weigh_const (n : Nat) (l : List α) : weigh (fun _ => n) l = n * l.length := by
  induction l with
  | nil => rfl
  | cons a l ih => rw [weigh_cons, ih, List.length_cons, Nat.mul_succ, Nat.add_comm]

theorem weigh_add (v : α → Nat) (l : List α) :
    weigh (fun a => w a + v a) l = weigh w l + weigh v l := List.sum_map_add

@[simp] theorem heaviest_nil : heaviest w ([] : List α) = 0 := rfl

@[simp] theorem heaviest_cons (a : α) (l : List α) :
    heaviest w (a :: l) = max (w a) (heaviest w l) := rfl

theorem heaviest_map (f : β → α) (l : List β) :
    heaviest w (l.map f) = heaviest (fun b => w (f b)) l := by
  rw [heaviest, heaviest, List.foldr_map]

theorem heaviest_le_iff {n : Nat} {l : List α} : heaviest w l ≤ n ↔ ∀ a ∈ l, w a ≤ n := by
  induction l with
  | nil => exact iff_of_true (Nat.zero_le _) fun a ha => absurd ha List.not_mem_nil
  | cons a l ih => rw [heaviest_cons, Nat.max_le, ih, List.forall_mem_cons]

end Tally
