import Mathlib.Data.List.Basic
import Mathlib.Data.List.Induction
import Mathlib.Algebra.BigOperators.Group.List.Basic
import Mathlib.Algebra.Order.Ring.Nat

/-! # Lists cut at separators

    `List.splitOnP` cuts a list at its separators; all segments but the last
    one have been closed by one.

    * `closed`, `pending` — the closed segments and the one still open;
    * `closed_append`, `pending_append` — reading on from the open segment;
    * `runs`, `openRun` — where each element loses some amount and one that
      loses nothing separates: the totals of the runs of losses. -/

namespace Segments

variable {α : Type}

section Cut

variable (p : α → Bool)

/-- The segments that a separator has closed. -/
def closed (l : List α) : List (List α) := (l.splitOnP p).dropLast

/-- The segment after the last separator. -/
def pending (l : List α) : List α := (l.splitOnP p).getLast (List.splitOnP_ne_nil p l)

theorem splitOnP_eq (l : List α) : l.splitOnP p = closed p l ++ [pending p l] :=
  (List.dropLast_concat_getLast (List.splitOnP_ne_nil p l)).symm

variable {p}

theorem closed_of_split {l : List α} {d : List (List α)} {z : List α}
    (h : l.splitOnP p = d ++ [z]) : closed p l = d ∧ pending p l = z := by
  have hboth := (splitOnP_eq p l).symm.trans h
  obtain ⟨hd, hz⟩ := List.append_inj' hboth rfl
  exact ⟨hd, (List.cons.inj hz).1⟩

@[simp] theorem closed_nil : closed p [] = [] := rfl

@[simp] theorem pending_nil : pending p [] = [] := rfl

/-- A separator closes the open segment. -/
theorem concat_sep {a : α} (ha : p a = true) (l : List α) :
    closed p (l ++ [a]) = closed p l ++ [pending p l] ∧ pending p (l ++ [a]) = [] := by
  apply closed_of_split
  rw [List.splitOnP_append_cons l [] ha, List.splitOnP_nil, splitOnP_eq]

theorem split_concat {a : α} (ha : p a = false) (l : List α) :
    ∀ d z, l.splitOnP p = d ++ [z] → (l ++ [a]).splitOnP p = d ++ [z ++ [a]] := by
  induction l with
  | nil =>
      intro d z h
      obtain ⟨rfl, rfl⟩ := closed_of_split h
      rw [List.nil_append, List.splitOnP_cons_eq_if_modifyHead]
      simp [ha]
  | cons x l ih =>
      intro d z h
      have hl := ih _ _ (splitOnP_eq p l)
      rw [List.splitOnP_cons_eq_if_modifyHead, splitOnP_eq p l] at h
      rw [List.cons_append, List.splitOnP_cons_eq_if_modifyHead, hl]
      by_cases hx : p x = true
      · rw [if_pos hx] at h ⊢
        rw [← List.cons_append] at h ⊢
        obtain ⟨rfl, hz⟩ := List.append_inj' h rfl
        rw [(List.cons.inj hz).1]
      · rw [if_neg hx] at h ⊢
        cases hc : closed p l with
        | nil =>
            rw [hc] at h
            replace h : [] ++ [x :: pending p l] = d ++ [z] := h
            obtain ⟨rfl, hz⟩ := List.append_inj' h rfl
            rw [← (List.cons.inj hz).1]
            rfl
        | cons s d' =>
            rw [hc] at h
            replace h : ((x :: s) :: d') ++ [pending p l] = d ++ [z] := h
            obtain ⟨rfl, hz⟩ := List.append_inj' h rfl
            rw [(List.cons.inj hz).1]
            rfl

/-- Any other element goes on the open segment. -/
theorem concat_other {a : α} (ha : p a = false) (l : List α) :
    closed p (l ++ [a]) = closed p l ∧ pending p (l ++ [a]) = pending p l ++ [a] :=
  closed_of_split (split_concat ha l _ _ (splitOnP_eq p l))

/-- **Reading on**: what follows continues the open segment. -/
theorem append (l m : List α) :
    closed p (l ++ m) = closed p l ++ closed p (pending p l ++ m)
      ∧ pending p (l ++ m) = pending p (pending p l ++ m) := by
  induction m using List.reverseRecOn with
  | nil =>
      rw [List.append_nil, List.append_nil]
      induction l using List.reverseRecOn with
      | nil => exact ⟨rfl, rfl⟩
      | append_singleton l a ih =>
          by_cases ha : p a = true
          · obtain ⟨hc, hp⟩ := concat_sep ha l
            rw [hc, hp]
            exact ⟨(List.append_nil _).symm, rfl⟩
          · rw [Bool.not_eq_true] at ha
            obtain ⟨hc, hp⟩ := concat_other ha l
            obtain ⟨hc', hp'⟩ := concat_other ha (pending p l)
            rw [hc, hp, hc', hp', ← ih.2]
            exact ⟨ih.1, rfl⟩
  | append_singleton m a ih =>
      rw [← List.append_assoc, ← List.append_assoc]
      by_cases ha : p a = true
      · obtain ⟨hc, hp⟩ := concat_sep ha (l ++ m)
        obtain ⟨hc', hp'⟩ := concat_sep ha (pending p l ++ m)
        rw [hc, hp, hc', hp', ih.1, ih.2, List.append_assoc]
        exact ⟨rfl, rfl⟩
      · rw [Bool.not_eq_true] at ha
        obtain ⟨hc, hp⟩ := concat_other ha (l ++ m)
        obtain ⟨hc', hp'⟩ := concat_other ha (pending p l ++ m)
        rw [hc, hp, hc', hp', ih.1, ih.2]
        exact ⟨rfl, rfl⟩

theorem pending_of_none {l : List α} (h : ∀ a ∈ l, p a = false) :
    closed p l = [] ∧ pending p l = l :=
  closed_of_split (List.splitOnP_eq_singleton h)

/-- What comes after the last separator. -/
theorem pending_after_sep {a : α} (ha : p a = true) (l : List α) {m : List α}
    (hm : ∀ b ∈ m, p b = false) : pending p (l ++ a :: m) = m := by
  rw [List.append_cons, (append (l ++ [a]) m).2, (concat_sep ha l).2, List.nil_append]
  exact (pending_of_none hm).2

end Cut

section Losses

variable (f : α → Nat)

/-- The total of the losses in a segment. -/
def total (l : List α) : Nat := (l.map f).sum

/-- An element that loses nothing separates. -/
def lossless (a : α) : Bool := f a = 0

/-- The totals of the maximal runs of losses that have been closed. -/
def runs (l : List α) : List Nat := ((closed (lossless f) l).map (total f)).filter (0 < ·)

/-- The total of the run of losses that is still open, 0 if there is none. -/
def openRun (l : List α) : Nat := total f (pending (lossless f) l)

@[simp] theorem runs_nil : runs f [] = [] := rfl

@[simp] theorem openRun_nil : openRun f [] = 0 := rfl

variable {f}

theorem total_concat (l : List α) (a : α) :
    total f (l ++ [a]) = total f l + f a := by
  rw [total, List.map_append, List.sum_append, List.map_singleton, List.sum_singleton, total]

theorem concat_lossless {a : α} (ha : f a = 0) (l : List α) :
    runs f (l ++ [a]) = runs f l ++ (if openRun f l = 0 then [] else [openRun f l])
      ∧ openRun f (l ++ [a]) = 0 := by
  obtain ⟨hc, hp⟩ := concat_sep (p := lossless f) (decide_eq_true ha) l
  constructor
  · rw [runs, hc, List.map_append, List.filter_append, List.map_singleton, runs]
    congr 1
    rw [← openRun]
    rcases Nat.eq_zero_or_pos (openRun f l) with h | h
    · simp [h]
    · simp [h, Nat.ne_of_gt h]
  · rw [openRun, hp]
    rfl

theorem concat_loss {a : α} (ha : f a ≠ 0) (l : List α) :
    runs f (l ++ [a]) = runs f l ∧ openRun f (l ++ [a]) = openRun f l + f a := by
  obtain ⟨hc, hp⟩ := concat_other (p := lossless f) (decide_eq_false ha) l
  constructor
  · rw [runs, hc]
    rfl
  · rw [openRun, hp, total_concat]
    rfl

theorem runs_pos {l : List α} {n : Nat} (h : n ∈ runs f l) : 0 < n := by
  simpa using (List.mem_filter.mp h).2

/-- No loss is lost between the runs. -/
theorem sum_runs (l : List α) : (runs f l).sum + openRun f l = total f l := by
  induction l using List.reverseRecOn with
  | nil => rfl
  | append_singleton l a ih =>
      by_cases ha : f a = 0
      · obtain ⟨hr, ho⟩ := concat_lossless ha l
        rw [hr, ho, total_concat, ha, ← ih]
        split
        · rename_i hzero
          simp [hzero]
        · simp
      · obtain ⟨hr, ho⟩ := concat_loss ha l
        rw [hr, ho, total_concat, ← ih]
        omega

end Losses

end Segments
