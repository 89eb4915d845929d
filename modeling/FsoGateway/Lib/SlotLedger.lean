import Mathlib.Data.List.Induction

/-! # Slots that hold the last thing put into them

    A log of actions on slots: something is put into a slot, in place of what
    was there, or what the slot holds is taken out.  What is put is named by
    its position in the log.

    * `holder` — what a slot holds after a log;
    * `holder_put` — it was put there;
    * `holder_mono` — it has been there since then;
    * `take_inj` — it is taken out at most once. -/

namespace SlotLedger

variable {σ : Type}

/-- One action of a log. -/
inductive Act (σ : Type) where
  | put (s : σ)
  | take (s : σ)
  | other

variable [DecidableEq σ]

/-- What slot `s`, holding `held` before, holds after the action at position `n`. -/
def after (s : σ) (n : Nat) (held : Option Nat) : Act σ → Option Nat
  | .put s' => if s' = s then some n else held
  | .take s' => if s' = s then none else held
  | .other => held

/-- What slot `s` holds after a log, by the position of the put. -/
def holder (log : List (Act σ)) (s : σ) : Option Nat :=
  log.zipIdx.foldl (fun held entry => after s entry.2 held entry.1) none

@[simp] theorem holder_nil (s : σ) : holder [] s = none := rfl

theorem holder_append (log : List (Act σ)) (act : Act σ) (s : σ) :
    holder (log ++ [act]) s = after s log.length (holder log s) act := by
  rw [holder, List.zipIdx_append, List.foldl_append]
  simp [holder]

/-- A slot holds something that was put into it. -/
theorem holder_put {log : List (Act σ)} {s : σ} {j : Nat} (h : holder log s = some j) :
    log[j]? = some (.put s) := by
  induction log using List.reverseRecOn with
  | nil => cases h
  | append_singleton log act ih =>
      have hold : holder log s = some j → (log ++ [act])[j]? = some (.put s) := by
        intro hj
        have hlt := (List.getElem?_eq_some_iff.mp (ih hj)).1
        rw [List.getElem?_append_left hlt]
        exact ih hj
      rw [holder_append] at h
      cases act with
      | other => exact hold h
      | take s' =>
          rw [after] at h
          split at h
          · cases h
          · exact hold h
      | put s' =>
          rw [after] at h
          split at h
          · rename_i hs
            rw [← Option.some.inj h, List.getElem?_concat_length, hs]
          · exact hold h

theorem holder_lt {log : List (Act σ)} {s : σ} {j : Nat} (h : holder log s = some j) :
    j < log.length := (List.getElem?_eq_some_iff.mp (holder_put h)).1

/-- An action leaves a slot what it held, or holds itself, or empties it. -/
theorem holder_of_append {log : List (Act σ)} {act : Act σ} {s : σ} {j : Nat}
    (h : holder (log ++ [act]) s = some j) (hlt : j < log.length) : holder log s = some j := by
  rw [holder_append] at h
  cases act with
  | other => exact h
  | take s' =>
      rw [after] at h
      split at h
      · cases h
      · exact h
  | put s' =>
      rw [after] at h
      split at h
      · rw [Option.some.injEq] at h
        omega
      · exact h

/-- What a slot holds has been there since it was put. -/
theorem holder_mono {log : List (Act σ)} {s : σ} {j n : Nat}
    (h : holder log s = some j) (hlt : j < n) : holder (log.take n) s = some j := by
  induction log using List.reverseRecOn with
  | nil => cases h
  | append_singleton log act ih =>
      by_cases hn : log.length < n
      · rw [List.take_of_length_le]
        · exact h
        · rw [List.length_append]
          exact hn
      · have hle : n ≤ log.length := Nat.le_of_not_lt hn
        rw [List.take_append_of_le_length hle]
        exact ih (holder_of_append h (Nat.lt_of_lt_of_le hlt hle))

theorem holder_put_of_take {log : List (Act σ)} {s : σ} {i j : Nat}
    (h : holder (log.take i) s = some j) : log[j]? = some (.put s) ∧ j < i := by
  have hlt := holder_lt h
  rw [List.length_take] at hlt
  have hji : j < i := by omega
  refine ⟨?_, hji⟩
  rw [← List.getElem?_take_of_lt hji]
  exact holder_put h

theorem holder_take {log : List (Act σ)} {s : σ} {i : Nat} (h : log[i]? = some (.take s)) :
    holder (log.take (i + 1)) s = none := by
  obtain ⟨hi, heq⟩ := List.getElem?_eq_some_iff.mp h
  rw [List.take_succ_eq_append_getElem hi, holder_append, heq, after, if_pos rfl]

/-- **What was put is taken at most once.** -/
theorem take_inj {log : List (Act σ)} {s s' : σ} {i i' j : Nat}
    (hi : log[i]? = some (.take s)) (hi' : log[i']? = some (.take s'))
    (hj : holder (log.take i) s = some j) (hj' : holder (log.take i') s' = some j) :
    i = i' := by
  -- the slot is the one it was put into
  have hslot : s = s' := by
    have hp := (holder_put_of_take hj).1
    rw [(holder_put_of_take hj').1] at hp
    injection Option.some.inj hp with hs
    exact hs.symm
  subst hslot
  -- what the earlier one took cannot be there for the later one
  have hlate : ∀ a b : Nat, log[a]? = some (.take s) → holder (log.take a) s = some j →
      holder (log.take b) s = some j → ¬ a < b := by
    intro a b ha hja hjb hab
    have hlt : j < a := (holder_put_of_take hja).2
    have hkept := holder_mono hjb (Nat.lt_succ_of_lt hlt)
    rw [List.take_take, Nat.min_eq_left (Nat.succ_le_of_lt hab), holder_take ha] at hkept
    cases hkept
  rcases Nat.lt_trichotomy i i' with hlt | heq | hgt
  · exact absurd hlt (hlate i i' hi hj hj')
  · exact heq
  · exact absurd hgt (hlate i' i hi' hj' hj)

end SlotLedger
