import Mathlib.Data.List.Basic
import Mathlib.Logic.Function.Basic
import Mathlib.Tactic.SplitIfs

/-! # A ring that overwrites its oldest entry

    `cap` cells, the next cell to write and the number of entries that were not
    taken out yet.  A push into a full ring drops the oldest entry.

    * `pending_push` — what one push does to the entries;
    * `pending_pushAll` — a sequence of pushes leaves the last `cap` entries. -/

/-- The ring: cells, next cell to write, number of entries. -/
structure RingBuffer (α : Type) where
  cells : Nat → α
  head : Nat
  count : Nat

namespace RingBuffer

variable {α : Type} {cap : Nat}

/-- The positions are within the ring. -/
structure Good (cap : Nat) (r : RingBuffer α) : Prop where
  head : r.head < cap
  count : r.count ≤ cap

/-- Write an entry. -/
def push (cap : Nat) (r : RingBuffer α) (x : α) : RingBuffer α where
  cells := Function.update r.cells r.head x
  head := (r.head + 1) % cap
  count := if r.count < cap then r.count + 1 else r.count

/-- The cell of entry `i`, counted from the oldest. -/
def index (cap : Nat) (r : RingBuffer α) (i : Nat) : Nat :=
  ((r.head + cap - r.count) % cap + i) % cap

/-- The entries, oldest first. -/
def pending (cap : Nat) (r : RingBuffer α) : List α :=
  (List.range r.count).map fun i => r.cells (index cap r i)

/-- Take out at most `max` entries, oldest first; the ring is empty then. -/
def drain (cap : Nat) (r : RingBuffer α) (max : Nat) : List α × RingBuffer α :=
  ((List.range (if max < r.count then max else r.count)).map fun i => r.cells (index cap r i),
    { r with count := 0 })

/-- The ring of other entries, one for each. -/
def map {β : Type} (f : α → β) (r : RingBuffer α) : RingBuffer β :=
  ⟨fun i => f (r.cells i), r.head, r.count⟩

/-- The last `n` entries of a list. -/
def lastN (n : Nat) (l : List α) : List α := l.drop (l.length - n)

@[simp] theorem pending_length (cap : Nat) (r : RingBuffer α) :
    (pending cap r).length = r.count := by
  rw [pending, List.length_map, List.length_range]

theorem drain_length_le (cap : Nat) (r : RingBuffer α) (max : Nat) :
    (drain cap r max).1.length ≤ max := by
  rw [drain, List.length_map, List.length_range]
  split <;> omega

theorem drain_map {β : Type} (f : α → β) (cap : Nat) (r : RingBuffer α) (max : Nat) :
    (drain cap (map f r) max).1 = (drain cap r max).1.map f := by
  rw [drain, drain, List.map_map]
  rfl

theorem lastN_length (n : Nat) (l : List α) : (lastN n l).length = min n l.length := by
  rw [lastN, List.length_drop]
  omega

theorem lastN_of_le {n : Nat} {l : List α} (h : l.length ≤ n) : lastN n l = l := by
  rw [lastN, show l.length - n = 0 by omega, List.drop_zero]

/-- A list that grows by one entry. -/
theorem lastN_append (n : Nat) (hn : 0 < n) (l : List α) (x : α) :
    lastN n (l ++ [x])
      = (if (lastN n l).length < n then lastN n l else (lastN n l).tail) ++ [x] := by
  rw [lastN_length]
  by_cases hlt : l.length < n
  · rw [if_pos (by omega), lastN_of_le (Nat.le_of_lt hlt), lastN_of_le]
    rw [List.length_append, List.length_singleton]
    omega
  · rw [if_neg (by omega), lastN, lastN, List.length_append, List.length_singleton,
      List.tail_drop, List.drop_append_of_le_length (by omega),
      show l.length + 1 - n = l.length - n + 1 by omega]

/-- The cell of an entry, without the remainders. -/
theorem index_eq {r : RingBuffer α} (h : Good cap r) {i : Nat} (hi : i ≤ r.count) :
    index cap r i = if r.count ≤ r.head + i then
      (if r.head + i - r.count < cap then r.head + i - r.count
        else r.head + i - r.count - cap)
      else r.head + i + cap - r.count := by
  obtain ⟨hhead, hcount⟩ := h
  have hcap : 0 < cap := Nat.lt_of_le_of_lt (Nat.zero_le _) hhead
  rw [index, Nat.mod_add_mod]
  by_cases hle : r.count ≤ r.head + i
  · rw [if_pos hle, if_pos (by omega),
      show r.head + cap - r.count + i = (r.head + i - r.count) + cap by omega,
      Nat.add_mod_right, Nat.mod_eq_of_lt (by omega)]
  · rw [if_neg hle, show r.head + cap - r.count + i = r.head + i + cap - r.count by omega,
      Nat.mod_eq_of_lt (by omega)]

theorem good_push {r : RingBuffer α} (h : Good cap r) (x : α) : Good cap (push cap r x) where
  head := Nat.mod_lt _ (Nat.lt_of_le_of_lt (Nat.zero_le _) h.head)
  count := by
    have hcount := h.count
    show (if r.count < cap then r.count + 1 else r.count) ≤ cap
    split <;> omega

/-- The next cell, without the remainder. -/
theorem push_head {r : RingBuffer α} (h : Good cap r) (x : α) :
    (push cap r x).head = if r.head + 1 = cap then 0 else r.head + 1 := by
  have hhead := h.head
  show (r.head + 1) % cap = _
  by_cases hwrap : r.head + 1 = cap
  · rw [if_pos hwrap, hwrap, Nat.mod_self]
  · rw [if_neg hwrap, Nat.mod_eq_of_lt (by omega)]

/-- The entries of a push: those of the ring from the `k`-th on, and the new one. -/
theorem pending_shift {r : RingBuffer α} (h : Good cap r) (x : α) {n k : Nat}
    (hn : n + k = r.count) (hc : (push cap r x).count = n + 1) :
    pending cap (push cap r x)
      = ((List.range n).map fun i => r.cells (index cap r (i + k))) ++ [x] := by
  have hg := good_push h x
  have hh := push_head h x
  obtain ⟨hhead, hcount⟩ := h
  have hcell : ∀ j, j ≠ r.head → (push cap r x).cells j = r.cells j :=
    fun j hj => Function.update_of_ne hj _ _
  have hnew : (push cap r x).cells r.head = x := Function.update_self ..
  have hfits := hg.count
  rw [pending, hc, List.range_succ, List.map_append, List.map_singleton]
  congr 1
  · refine List.map_congr_left fun i hi => ?_
    have hi' := List.mem_range.mp hi
    have heq : index cap (push cap r x) i = index cap r (i + k) := by
      rw [index_eq hg (by omega), index_eq ⟨hhead, hcount⟩ (by omega), hh, hc]
      split_ifs <;> omega
    rw [heq]
    refine hcell _ ?_
    rw [index_eq ⟨hhead, hcount⟩ (by omega)]
    split_ifs <;> omega
  · have heq : index cap (push cap r x) n = r.head := by
      rw [index_eq hg (by omega), hh, hc]
      split_ifs <;> omega
    rw [heq, hnew]

/-- **A push** adds the entry, and drops the oldest when the ring is full. -/
theorem pending_push {r : RingBuffer α} (h : Good cap r) (x : α) :
    pending cap (push cap r x)
      = (if r.count < cap then pending cap r else (pending cap r).tail) ++ [x] := by
  have hhead := h.head
  have hcount := h.count
  by_cases hlt : r.count < cap
  · rw [if_pos hlt, pending_shift h x (Nat.add_zero r.count) (if_pos hlt)]
    rfl
  · obtain ⟨n, hn⟩ := Nat.exists_eq_succ_of_ne_zero (show r.count ≠ 0 by omega)
    have htail : (pending cap r).tail
        = (List.range n).map fun i => r.cells (index cap r (i + 1)) := by
      rw [pending, hn, List.range_succ_eq_map, List.map_cons, List.tail_cons, List.map_map]
      rfl
    rw [if_neg hlt, htail]
    exact pending_shift h x hn.symm ((if_neg hlt).trans hn)

/-- **A sequence of pushes** into a ring that was emptied leaves the last `cap`
    of them. -/
theorem pending_pushAll (l : List α) {r : RingBuffer α} (h : Good cap r) {before : List α}
    (hb : pending cap r = lastN cap before) :
    Good cap (l.foldl (push cap) r) ∧
      pending cap (l.foldl (push cap) r) = lastN cap (before ++ l) := by
  have hcap : 0 < cap := Nat.lt_of_le_of_lt (Nat.zero_le _) h.head
  induction l generalizing r before with
  | nil => exact ⟨h, by rw [List.append_nil]; exact hb⟩
  | cons x l ih =>
      have hone : pending cap (push cap r x) = lastN cap (before ++ [x]) := by
        have hlen := pending_length cap r
        rw [pending_push h x, lastN_append cap hcap, ← hb, hlen]
      obtain ⟨h1, h2⟩ := ih (good_push h x) hone
      rw [List.append_assoc] at h2
      exact ⟨h1, h2⟩

end RingBuffer
