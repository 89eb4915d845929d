import Mathlib.Data.List.Induction
import Mathlib.Data.Nat.Basic

/-! # Windows of keyed items

    Items arrive one after another.  An item has a key and a column; the items
    of one key form a row, rows stand in the order in which their keys first
    arrived.  A window of `depth` rows and `n` columns is read out column by
    column; a cell that no item arrived for is padded.

    * `rowKeys` — the keys in arrival order;
    * `cellAt` — the item in a cell;
    * `readOut` — the whole window, column by column;
    * `readOut_item`, `readOut_pad` — what stands at a place of it. -/

namespace KeyedWindow

variable {κ σ τ : Type} [DecidableEq κ] (key : σ → κ) (col : σ → Nat)

/-- One more key. -/
def addKey (ks : List κ) (s : σ) : List κ := if key s ∈ ks then ks else ks ++ [key s]

/-- The keys of a window, in the order of their first item. -/
def rowKeys (acc : List σ) : List κ := acc.foldl (addKey key) []

/-- The item that arrived for a cell. -/
def cellAt (acc : List σ) (k : κ) (c : Nat) : Option σ :=
  acc.find? fun s => decide (key s = k ∧ col s = c)

/-- No two items are for the same cell. -/
def Distinct (acc : List σ) : Prop :=
  acc.Pairwise fun x y => ¬ (key x = key y ∧ col x = col y)

/-- The row of an item. -/
def rowOf (acc : List σ) (s : σ) : Nat := (rowKeys key acc).idxOf (key s)

/-- The place of an item in the read-out. -/
def placeOf (depth : Nat) (acc : List σ) (s : σ) : Nat :=
  col s * depth + rowOf key acc s

/-- The item in row `r` and column `c`. -/
def itemAt (acc : List σ) (r c : Nat) : Option σ :=
  (rowKeys key acc)[r]?.bind fun k => cellAt key col acc k c

/-- What is read from a cell. -/
def readCell (emit : σ → τ) (pad : Option κ → Nat → τ) (acc : List σ) (r c : Nat) : τ :=
  ((itemAt key col acc r c).map emit).getD (pad (rowKeys key acc)[r]? c)

/-- The window, column by column. -/
def readOut (emit : σ → τ) (pad : Option κ → Nat → τ) (depth n : Nat) (acc : List σ) :
    List τ :=
  (List.range (depth * n)).map fun p =>
    readCell key col emit pad acc (p % depth) (p / depth)

variable {key col}

/-! ## Rows -/

@[simp] theorem rowKeys_nil : rowKeys key [] = [] := rfl

theorem rowKeys_append (acc : List σ) (s : σ) :
    rowKeys key (acc ++ [s])
      = if key s ∈ rowKeys key acc then rowKeys key acc else rowKeys key acc ++ [key s] := by
  rw [rowKeys, List.foldl_append]
  rfl

theorem mem_rowKeys {acc : List σ} {k : κ} :
    k ∈ rowKeys key acc ↔ ∃ s ∈ acc, key s = k := by
  induction acc using List.reverseRecOn with
  | nil => simp
  | append_singleton acc s ih =>
      rw [rowKeys_append]
      by_cases h : key s ∈ rowKeys key acc
      · rw [if_pos h, ih]
        constructor
        · rintro ⟨x, hx, rfl⟩
          exact ⟨x, List.mem_append_left _ hx, rfl⟩
        · rintro ⟨x, hx, rfl⟩
          rcases List.mem_append.mp hx with hx | hx
          · exact ⟨x, hx, rfl⟩
          · obtain rfl := List.mem_singleton.mp hx
            exact ih.mp h
      · rw [if_neg h, List.mem_append, ih]
        constructor
        · rintro (⟨x, hx, rfl⟩ | hk)
          · exact ⟨x, List.mem_append_left _ hx, rfl⟩
          · exact ⟨s, List.mem_append_right _ (List.mem_singleton_self s),
              (List.mem_singleton.mp hk).symm⟩
        · rintro ⟨x, hx, rfl⟩
          rcases List.mem_append.mp hx with hx | hx
          · exact .inl ⟨x, hx, rfl⟩
          · rw [List.mem_singleton.mp hx]
            exact .inr (List.mem_singleton_self _)

theorem nodup_rowKeys (acc : List σ) : (rowKeys key acc).Nodup := by
  induction acc using List.reverseRecOn with
  | nil => exact List.nodup_nil
  | append_singleton acc s ih =>
      rw [rowKeys_append]
      by_cases h : key s ∈ rowKeys key acc
      · rwa [if_pos h]
      · rw [if_neg h]
        refine List.nodup_append.mpr ⟨ih, List.pairwise_singleton _ _, ?_⟩
        rintro a ha b hb rfl
        rw [List.mem_singleton.mp hb] at ha
        exact h ha

theorem rowOf_lt (key : σ → κ) {acc : List σ} {s : σ} (h : s ∈ acc) :
    rowOf key acc s < (rowKeys key acc).length :=
  List.idxOf_lt_length_of_mem (mem_rowKeys.mpr ⟨s, h, rfl⟩)

theorem getElem_rowOf (key : σ → κ) {acc : List σ} {s : σ} (h : s ∈ acc) :
    (rowKeys key acc)[rowOf key acc s]? = some (key s) := by
  rw [List.getElem?_eq_getElem (rowOf_lt key h)]
  exact congrArg some (List.getElem_idxOf _)

/-! ## Cells -/

theorem cellAt_append (acc : List σ) (s : σ) (k : κ) (c : Nat) :
    cellAt key col (acc ++ [s]) k c
      = (cellAt key col acc k c).or (if key s = k ∧ col s = c then some s else none) := by
  rw [cellAt, List.find?_append, cellAt]
  congr 1
  by_cases h : key s = k ∧ col s = c <;> simp [h]

theorem cellAt_some {acc : List σ} {k : κ} {c : Nat} {s : σ}
    (h : cellAt key col acc k c = some s) : s ∈ acc ∧ key s = k ∧ col s = c := by
  have hp := List.find?_some h
  exact ⟨List.mem_of_find?_eq_some h, of_decide_eq_true hp⟩

theorem cellAt_none {acc : List σ} {k : κ} {c : Nat} (h : cellAt key col acc k c = none)
    {s : σ} (hs : s ∈ acc) : ¬ (key s = k ∧ col s = c) := by
  have hp := List.find?_eq_none.mp h s hs
  exact fun hkc => hp (decide_eq_true hkc)

theorem cellAt_isSome_iff {acc : List σ} {k : κ} {c : Nat} :
    (cellAt key col acc k c).isSome = true ↔ ∃ s ∈ acc, key s = k ∧ col s = c := by
  rw [cellAt, List.find?_isSome]
  simp

/-- When the items are for different cells, an item is in its cell. -/
theorem cellAt_of_mem {acc : List σ} (hd : Distinct key col acc) {s : σ} (hs : s ∈ acc) :
    cellAt key col acc (key s) (col s) = some s := by
  induction acc with
  | nil => exact nomatch hs
  | cons x acc ih =>
      obtain ⟨hx, hd⟩ := List.pairwise_cons.mp hd
      rcases List.mem_cons.mp hs with rfl | hs
      · rw [cellAt, List.find?_cons_of_pos (by simp)]
      · have hne := hx s hs
        rw [cellAt, List.find?_cons_of_neg (by simpa using hne)]
        exact ih hd hs

omit [DecidableEq κ] in
theorem distinct_append {acc : List σ} {s : σ} (hd : Distinct key col acc)
    (hnew : ∀ x ∈ acc, ¬ (key x = key s ∧ col x = col s)) :
    Distinct key col (acc ++ [s]) := by
  refine List.pairwise_append.mpr ⟨hd, List.pairwise_singleton _ _, ?_⟩
  rintro x hx y hy
  rw [List.mem_singleton.mp hy]
  exact hnew x hx

/-- The row of a key is where it stands among the keys. -/
theorem rowOf_eq_iff {acc : List σ} {s : σ} {r : Nat} (hr : r < (rowKeys key acc).length) :
    rowOf key acc s = r ↔ (rowKeys key acc)[r]? = some (key s) := by
  rw [List.getElem?_eq_getElem hr]
  constructor
  · rintro rfl
    exact congrArg some (List.getElem_idxOf hr)
  · intro h
    rw [rowOf, ← Option.some.inj h]
    exact (nodup_rowKeys acc).idxOf_getElem r hr

theorem itemAt_some {acc : List σ} {r c : Nat} {s : σ}
    (h : itemAt key col acc r c = some s) :
    s ∈ acc ∧ rowOf key acc s = r ∧ col s = c := by
  rw [itemAt] at h
  cases hk : (rowKeys key acc)[r]? with
  | none =>
      rw [hk] at h
      exact nomatch h
  | some k =>
      rw [hk] at h
      obtain ⟨hs, rfl, hc⟩ := cellAt_some h
      exact ⟨hs, (rowOf_eq_iff (List.getElem?_eq_some_iff.mp hk).1).mpr hk, hc⟩

/-- **One more item** goes to its cell, unless the cell is taken; a key that is
    new opens the next row. -/
theorem itemAt_append (acc : List σ) (s : σ) (r c : Nat) :
    itemAt key col (acc ++ [s]) r c
      = if r = rowOf key acc s ∧ c = col s then
          (cellAt key col acc (key s) c).or (some s)
        else itemAt key col acc r c := by
  have hcell : ∀ k, k ≠ key s → cellAt key col (acc ++ [s]) k c = cellAt key col acc k c := by
    intro k hk
    rw [cellAt_append, if_neg fun h => hk h.1.symm, Option.or_none]
  have hown : cellAt key col (acc ++ [s]) (key s) c
      = if c = col s then (cellAt key col acc (key s) c).or (some s)
        else cellAt key col acc (key s) c := by
    rw [cellAt_append]
    by_cases hc : c = col s
    · rw [if_pos hc, if_pos ⟨rfl, hc.symm⟩]
    · rw [if_neg hc, if_neg fun h => hc h.2.symm, Option.or_none]
  rw [itemAt, itemAt, rowKeys_append]
  -- the key has a row already, or it opens the next one
  by_cases hmem : key s ∈ rowKeys key acc
  · rw [if_pos hmem]
    cases hk : (rowKeys key acc)[r]? with
    | none =>
        have hr : r ≠ rowOf key acc s := by
          rintro rfl
          have hlt := List.idxOf_lt_length_of_mem hmem
          exact Nat.not_lt.mpr (List.getElem?_eq_none_iff.mp hk) hlt
        rw [if_neg fun h => hr h.1]
        rfl
    | some k =>
        have hlt := (List.getElem?_eq_some_iff.mp hk).1
        have hrow := rowOf_eq_iff (s := s) hlt
        rw [hk] at hrow
        by_cases hks : k = key s
        · subst hks
          have hr : rowOf key acc s = r := hrow.mpr rfl
          show cellAt key col (acc ++ [s]) (key s) c = _
          rw [hown]
          by_cases hc : c = col s
          · rw [if_pos hc, if_pos ⟨hr.symm, hc⟩]
          · rw [if_neg hc, if_neg fun h => hc h.2]
            rfl
        · rw [if_neg fun h => hks (Option.some.inj (hrow.mp h.1.symm))]
          exact hcell k hks
  · have hlen : rowOf key acc s = (rowKeys key acc).length := List.idxOf_eq_length hmem
    have hnone : cellAt key col acc (key s) c = none := by
      cases h : cellAt key col acc (key s) c with
      | none => rfl
      | some x =>
          obtain ⟨hx, hkx, -⟩ := cellAt_some h
          exact absurd (mem_rowKeys.mpr ⟨x, hx, hkx⟩) hmem
    rw [if_neg hmem, hlen]
    rcases Nat.lt_trichotomy r (rowKeys key acc).length with hr | hr | hr
    · rw [List.getElem?_append_left hr, if_neg fun h => Nat.ne_of_lt hr h.1]
      rw [List.getElem?_eq_getElem hr]
      refine hcell _ ?_
      intro he
      exact hmem (he ▸ List.getElem_mem hr)
    · subst hr
      rw [List.getElem?_append_right (Nat.le_refl _), Nat.sub_self,
        List.getElem?_eq_none (Nat.le_refl _)]
      show cellAt key col (acc ++ [s]) (key s) c = _
      rw [hown, hnone]
      by_cases hc : c = col s
      · rw [if_pos hc, if_pos ⟨rfl, hc⟩]
      · rw [if_neg hc, if_neg fun h => hc h.2]
        rfl
    · rw [if_neg fun h => Nat.ne_of_gt hr h.1, List.getElem?_eq_none (by
        rw [List.length_append, List.length_singleton]
        omega), List.getElem?_eq_none (Nat.le_of_lt hr)]
      rfl

/-! ## The read-out -/

variable {emit : σ → τ} {pad : Option κ → Nat → τ} {depth n : Nat}

@[simp] theorem readOut_length (acc : List σ) :
    (readOut key col emit pad depth n acc).length = depth * n := by
  rw [readOut, List.length_map, List.length_range]

/-- The cell of row `r` and column `c` is number `c * depth + r`. -/
theorem readOut_cell (acc : List σ) {r c : Nat} (hr : r < depth) (hc : c < n) :
    (readOut key col emit pad depth n acc)[c * depth + r]?
      = some (readCell key col emit pad acc r c) := by
  have hlt : c * depth + r < depth * n := by
    calc c * depth + r < c * depth + depth := by omega
      _ = depth * (c + 1) := by rw [Nat.mul_add, Nat.mul_one, Nat.mul_comm]
      _ ≤ depth * n := Nat.mul_le_mul_left depth hc
  have hm : (c * depth + r) % depth = r := by
    rw [Nat.add_comm, Nat.mul_comm, Nat.add_mul_mod_self_left, Nat.mod_eq_of_lt hr]
  have hq : (c * depth + r) / depth = c := by
    rw [Nat.add_comm, Nat.mul_comm, Nat.add_mul_div_left _ _ (by omega),
      Nat.div_eq_of_lt hr, Nat.zero_add]
  rw [readOut, List.getElem?_map, List.getElem?_range hlt]
  show some (readCell key col emit pad acc _ _) = _
  rw [hm, hq]

/-- An item stands at its place. -/
theorem readOut_item {acc : List σ} (hd : Distinct key col acc) {s : σ} (hs : s ∈ acc)
    (hrow : (rowKeys key acc).length ≤ depth) (hcol : col s < n) :
    (readOut key col emit pad depth n acc)[placeOf key col depth acc s]?
      = some (emit s) := by
  have hr := rowOf_lt key hs
  have hitem : itemAt key col acc (rowOf key acc s) (col s) = some s := by
    rw [itemAt, getElem_rowOf key hs]
    exact cellAt_of_mem hd hs
  rw [placeOf, readOut_cell acc (Nat.lt_of_lt_of_le hr hrow) hcol, readCell, hitem]
  rfl

/-- A cell that no item arrived for is padded, with the key of its row. -/
theorem readOut_pad {acc : List σ} {r c : Nat} (hr : r < depth) (hc : c < n)
    (hfree : ∀ s ∈ acc, ¬ (rowOf key acc s = r ∧ col s = c)) :
    (readOut key col emit pad depth n acc)[c * depth + r]?
      = some (pad (rowKeys key acc)[r]? c) := by
  rw [readOut_cell acc hr hc, readCell]
  cases hitem : itemAt key col acc r c with
  | none => rfl
  | some s =>
      obtain ⟨hs, hr', hc'⟩ := itemAt_some hitem
      exact absurd ⟨hr', hc'⟩ (hfree s hs)

/-- Different items have different places. -/
theorem placeOf_inj {acc : List σ} {x y : σ} (hx : x ∈ acc) (hy : y ∈ acc)
    (hrow : (rowKeys key acc).length ≤ depth)
    (h : placeOf key col depth acc x = placeOf key col depth acc y) :
    key x = key y ∧ col x = col y := by
  have hrx := Nat.lt_of_lt_of_le (rowOf_lt key hx) hrow
  have hry := Nat.lt_of_lt_of_le (rowOf_lt key hy) hrow
  rw [placeOf, placeOf] at h
  have hm := congrArg (· % depth) h
  rw [Nat.add_comm, Nat.mul_comm, Nat.add_mul_mod_self_left, Nat.mod_eq_of_lt hrx,
    Nat.add_comm, Nat.mul_comm, Nat.add_mul_mod_self_left, Nat.mod_eq_of_lt hry] at hm
  have hq : col x * depth = col y * depth := by omega
  refine ⟨?_, Nat.eq_of_mul_eq_mul_right (by omega) hq⟩
  have h1 := getElem_rowOf key hx
  rw [hm, getElem_rowOf key hy] at h1
  exact (Option.some.inj h1).symm

end KeyedWindow
