import Mathlib.Data.List.Basic

/-! # Tables with at most one live slot a key

    A table is a list of slots; a slot may be dead, and then its contents do
    not matter.  Values are written to keys one after the other, and the
    writes are remembered beside the table.

    * `Unique` — no two live slots have one key;
    * `Reflects` — a live slot has the value last written to its key;
    * `Sound` — both, kept by overwriting the only slot that may have the key
      (`Sound.set`), by a new slot (`Sound.push`), by not storing a write at
      all while no slot has its key (`Sound.skip`) and by killing a slot
      (`Sound.kill`). -/

namespace KeyedTable

variable {σ κ ν : Type}

section Table

variable (live : σ → Bool) (key : σ → κ)

/-- No two live slots have one key. -/
def Unique (l : List σ) : Prop :=
  ∀ (i j : Nat) (a b : σ), l[i]? = some a → l[j]? = some b →
    live a = true → live b = true → key a = key b → i = j

variable [DecidableEq κ]

/-- The value last written to `k`. -/
def lastWrite (ws : List (κ × ν)) (k : κ) : Option ν :=
  ((ws.filter fun w => w.1 = k).getLast?).map Prod.snd

@[simp] theorem lastWrite_nil (k : κ) : lastWrite ([] : List (κ × ν)) k = none := rfl

theorem lastWrite_append_self (ws : List (κ × ν)) (k : κ) (v : ν) :
    lastWrite (ws ++ [(k, v)]) k = some v := by
  simp [lastWrite, List.filter_append]

theorem lastWrite_append_of_ne (ws : List (κ × ν)) {k k' : κ} (v : ν) (h : k' ≠ k) :
    lastWrite (ws ++ [(k', v)]) k = lastWrite ws k := by
  simp [lastWrite, List.filter_append, h]

theorem mem_of_lastWrite {ws : List (κ × ν)} {k : κ} {v : ν} (h : lastWrite ws k = some v) :
    (k, v) ∈ ws := by
  obtain ⟨⟨k', v'⟩, hlast, rfl⟩ := Option.map_eq_some_iff.mp h
  obtain ⟨hmem, hk⟩ := List.mem_filter.mp (List.mem_of_getLast? hlast)
  rw [← of_decide_eq_true hk]
  exact hmem

variable (val : σ → ν)

/-- A live slot has the value last written to its key. -/
def Reflects (ws : List (κ × ν)) (l : List σ) : Prop :=
  ∀ a ∈ l, live a = true → lastWrite ws (key a) = some (val a)

/-- **The invariant** of a table and the writes so far. -/
structure Sound (ws : List (κ × ν)) (l : List σ) : Prop where
  unique : Unique live key l
  reflects : Reflects live key val ws l

end Table

section Rules

variable [DecidableEq κ] {live : σ → Bool} {key : σ → κ} {val : σ → ν}
variable {ws : List (κ × ν)} {l : List σ}

theorem Sound.empty : Sound live key val ([] : List (κ × ν)) [] where
  unique := by
    intro i j a b ha
    simp at ha
  reflects := by
    intro a ha
    exact absurd ha (List.not_mem_nil)

/-- A slot that survives a write to another key still has its value. -/
theorem Reflects.other (h : Reflects live key val ws l) {a : σ} (ha : a ∈ l)
    (hl : live a = true) {k : κ} {v : ν} (hk : k ≠ key a) :
    lastWrite (ws ++ [(k, v)]) (key a) = some (val a) := by
  rw [lastWrite_append_of_ne ws v hk]
  exact h a ha hl

/-- Overwriting slot `i`, when no other live slot has the key. -/
theorem Sound.set (h : Sound live key val ws l) {i : Nat} {e : σ}
    (hi : ∀ (j : Nat) (a : σ), l[j]? = some a → live a = true → key a = key e → j = i) :
    Sound live key val (ws ++ [(key e, val e)]) (l.set i e) where
  unique := by
    intro p q a b ha hb hla hlb hk
    rw [List.getElem?_set] at ha hb
    by_cases hp : i = p
    · by_cases hq : i = q
      · exact hp.symm.trans hq
      · rw [if_pos hp] at ha
        rw [if_neg hq] at hb
        split at ha
        · rw [Option.some.injEq] at ha
          exact absurd (hi q b hb hlb (by rw [ha, hk])) (Ne.symm hq)
        · cases ha
    · rw [if_neg hp] at ha
      by_cases hq : i = q
      · rw [if_pos hq] at hb
        split at hb
        · rw [Option.some.injEq] at hb
          exact absurd (hi p a ha hla (by rw [hb, hk])) (Ne.symm hp)
        · cases hb
      · rw [if_neg hq] at hb
        exact h.unique p q a b ha hb hla hlb hk
  reflects := by
    intro a ha hla
    obtain ⟨j, hj⟩ := List.mem_iff_getElem?.mp ha
    rw [List.getElem?_set] at hj
    by_cases hij : i = j
    · rw [if_pos hij] at hj
      split at hj
      · rw [Option.some.injEq] at hj
        rw [← hj]
        exact lastWrite_append_self ws (key e) (val e)
      · cases hj
    · rw [if_neg hij] at hj
      refine h.reflects.other (List.mem_of_getElem? hj) hla ?_
      intro hk
      exact hij (hi j a hj hla hk.symm).symm

/-- A new slot, when no live slot has the key. -/
theorem Sound.push (h : Sound live key val ws l) {e : σ}
    (hnew : ∀ a ∈ l, live a = true → key a ≠ key e) :
    Sound live key val (ws ++ [(key e, val e)]) (l ++ [e]) where
  unique := by
    have hend : ∀ (i : Nat) (a : σ), (l ++ [e])[i]? = some a →
        l[i]? = some a ∨ (i = l.length ∧ a = e) := by
      intro i a ha
      rcases Nat.lt_trichotomy i l.length with hlt | heq | hgt
      · rw [List.getElem?_append_left hlt] at ha
        exact .inl ha
      · rw [heq, List.getElem?_concat_length, Option.some.injEq] at ha
        exact .inr ⟨heq, ha.symm⟩
      · rw [List.getElem?_eq_none (by simp; omega)] at ha
        cases ha
    intro i j a b ha hb hla hlb hk
    rcases hend i a ha with ha' | ⟨hi, hae⟩
    · rcases hend j b hb with hb' | ⟨_, hbe⟩
      · exact h.unique i j a b ha' hb' hla hlb hk
      · exact absurd (hbe ▸ hk) (hnew a (List.mem_of_getElem? ha') hla)
    · rcases hend j b hb with hb' | ⟨hj, _⟩
      · exact absurd (hae ▸ hk.symm) (hnew b (List.mem_of_getElem? hb') hlb)
      · exact hi.trans hj.symm
  reflects := by
    intro a ha hla
    rcases List.mem_append.mp ha with ha | ha
    · exact h.reflects.other ha hla (Ne.symm (hnew a ha hla))
    · rw [List.mem_singleton.mp ha]
      exact lastWrite_append_self ws (key e) (val e)

/-- A write that is not stored, when no live slot has the key. -/
theorem Sound.skip (h : Sound live key val ws l) {k : κ} {v : ν}
    (hnew : ∀ a ∈ l, live a = true → key a ≠ k) :
    Sound live key val (ws ++ [(k, v)]) l where
  unique := h.unique
  reflects := by
    intro a ha hla
    exact h.reflects.other ha hla (Ne.symm (hnew a ha hla))

/-- A slot is killed. -/
theorem Sound.kill (h : Sound live key val ws l) {i : Nat} {e : σ} (he : live e = false) :
    Sound live key val ws (l.set i e) := by
  have hold : ∀ (j : Nat) (a : σ), (l.set i e)[j]? = some a → live a = true →
      l[j]? = some a := by
    intro j a ha hla
    rw [List.getElem?_set] at ha
    split at ha
    · split at ha
      · rw [Option.some.injEq] at ha
        rw [← ha, he] at hla
        cases hla
      · cases ha
    · exact ha
  constructor
  · intro p q a b ha hb hla hlb hk
    exact h.unique p q a b (hold p a ha hla) (hold q b hb hlb) hla hlb hk
  · intro a ha hla
    obtain ⟨j, hj⟩ := List.mem_iff_getElem?.mp ha
    exact h.reflects a (List.mem_of_getElem? (hold j a hj hla)) hla

end Rules

end KeyedTable
