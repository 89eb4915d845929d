import Mathlib.Data.List.Basic
import Mathlib.Data.List.Induction

/-! # Runs of a partial step function

    A step function says what an action does in a state; an action that is not
    possible there has no next state.

    * `run`, `Visits` — the state after a list of actions, the states on the way;
    * `Along` — every action of a run meets a condition in the state before it;
    * `visits_invariant`, `run_log_invariant` — the induction rules;
    * `visits_iff_along` — the rule as an equivalence, for a condition without
      which a step does leave the invariant;
    * `run_exhausts` — a rank that some of the actions lower is used up by
      enough of them. -/

namespace Runs

variable {σ α : Type} {step : σ → α → Option σ}

/-- The state after a list of actions; all of them were possible. -/
def run (step : σ → α → Option σ) (s : σ) : List α → Option σ
  | [] => some s
  | a :: as => (step s a).bind fun s' => run step s' as

/-- The state is reached after some of the actions. -/
def Visits (step : σ → α → Option σ) (s : σ) (as : List α) (s' : σ) : Prop :=
  ∃ before, before <+: as ∧ run step s before = some s'

/-- Every action meets `P` in the state before it. -/
def Along (step : σ → α → Option σ) (P : σ → α → Prop) (s : σ) : List α → Prop
  | [] => True
  | a :: as => P s a ∧ ∀ s' ∈ step s a, Along step P s' as

instance decidableAlong {P : σ → α → Prop} [∀ s a, Decidable (P s a)] :
    ∀ s as, Decidable (Along step P s as)
  | _, [] => .isTrue trivial
  | s, a :: as =>
      have : DecidablePred fun s' => Along step P s' as := fun s' => decidableAlong s' as
      inferInstanceAs (Decidable (P s a ∧ ∀ s' ∈ step s a, Along step P s' as))

theorem run_cons {s s' : σ} {a : α} {as : List α} :
    run step s (a :: as) = some s' ↔
      ∃ t, step s a = some t ∧ run step t as = some s' := Option.bind_eq_some_iff

theorem Visits.run {s s' : σ} {as : List α} (h : run step s as = some s') :
    Visits step s as s' := ⟨as, List.prefix_rfl, h⟩

/-- A condition on a run is one on the beginning of it. -/
theorem Along.of_prefix {P : σ → α → Prop} {s : σ} {as bs : List α} (hpre : as <+: bs)
    (h : Along step P s bs) : Along step P s as := by
  induction as generalizing s bs with
  | nil => trivial
  | cons a as ih =>
      obtain ⟨rest, rfl⟩ := hpre
      obtain ⟨ha, hrest⟩ := h
      refine ⟨ha, ?_⟩
      intro s' hs
      exact ih (List.prefix_append as rest) (hrest s' hs)

/-- What the allowed actions keep is kept by a run of them. -/
theorem run_invariant {P : σ → α → Prop} {Inv : σ → Prop}
    (hstep : ∀ s a s', Inv s → P s a → step s a = some s' → Inv s') {s s' : σ}
    {as : List α} (hinit : Inv s) (halong : Along step P s as)
    (hrun : run step s as = some s') : Inv s' := by
  induction as generalizing s with
  | nil =>
      rw [← Option.some.inj hrun]
      exact hinit
  | cons a as ih =>
      obtain ⟨t, ht, hrest⟩ := run_cons.mp hrun
      obtain ⟨ha, hnext⟩ := halong
      exact ih (hstep s a t hinit ha ht) (hnext t ht) hrest

/-- **The induction rule**, for every state on the way. -/
theorem visits_invariant {P : σ → α → Prop} {Inv : σ → Prop}
    (hstep : ∀ s a s', Inv s → P s a → step s a = some s' → Inv s') {s s' : σ}
    {as : List α} (hinit : Inv s) (halong : Along step P s as)
    (hvisit : Visits step s as s') : Inv s' := by
  obtain ⟨before, hpre, hrun⟩ := hvisit
  exact run_invariant hstep hinit (halong.of_prefix hpre) hrun

/-- A condition that follows from another one inside an invariant. -/
theorem Along.imp {P Q : σ → α → Prop} {Inv : σ → Prop}
    (hstep : ∀ s a s', Inv s → P s a → step s a = some s' → Inv s')
    (himp : ∀ s a, Inv s → P s a → Q s a) {s : σ} {as : List α} (hinit : Inv s)
    (h : Along step P s as) : Along step Q s as := by
  induction as generalizing s with
  | nil => trivial
  | cons a as ih =>
      obtain ⟨ha, hrest⟩ := h
      refine ⟨himp s a hinit ha, ?_⟩
      intro t ht
      exact ih (hstep s a t hinit ha ht) (hrest t ht)

theorem Along.and {P Q : σ → α → Prop} {s : σ} {as : List α} (hP : Along step P s as)
    (hQ : Along step Q s as) : Along step (fun s a => P s a ∧ Q s a) s as := by
  induction as generalizing s with
  | nil => trivial
  | cons a as ih =>
      obtain ⟨ha, hrest⟩ := hP
      obtain ⟨hb, hrest'⟩ := hQ
      exact ⟨⟨ha, hb⟩, fun s' hs => ih (hrest s' hs) (hrest' s' hs)⟩

/-- A condition on the actions themselves. -/
theorem Along.of_forall {P : α → Prop} {s : σ} {as : List α} (h : ∀ a ∈ as, P a) :
    Along step (fun _ a => P a) s as := by
  induction as generalizing s with
  | nil => trivial
  | cons a as ih =>
      refine ⟨h a List.mem_cons_self, ?_⟩
      intro s' _
      exact ih fun b hb => h b (List.mem_cons_of_mem a hb)

/-- A condition on a run is one on the rest of it. -/
theorem Along.of_append {P : σ → α → Prop} {s s' : σ} {as bs : List α}
    (h : Along step P s (as ++ bs)) (hrun : run step s as = some s') :
    Along step P s' bs := by
  induction as generalizing s with
  | nil =>
      rw [← Option.some.inj hrun]
      exact h
  | cons a as ih =>
      obtain ⟨t, ht, hrest⟩ := run_cons.mp hrun
      exact ih (h.2 t ht) hrest

/-- **Progress.**  The actions at work lower the rank, or it is 0 afterwards; the
    others do not raise it. -/
theorem run_exhausts {P : σ → α → Prop} {Inv : σ → Prop} {rank : σ → Nat} {work : α → Bool}
    (hinv : ∀ s a s', Inv s → P s a → step s a = some s' → Inv s')
    (hwork : ∀ s a s', Inv s → P s a → step s a = some s' → work a = true →
      rank s' = 0 ∨ rank s' < rank s)
    (hrest : ∀ s a s', Inv s → P s a → step s a = some s' → work a = false →
      rank s' ≤ rank s) {s s' : σ} {as : List α} (hinit : Inv s)
    (halong : Along step P s as) (hrun : run step s as = some s') :
    rank s' = 0 ∨ rank s' + as.countP work ≤ rank s := by
  induction as generalizing s with
  | nil =>
      rw [← Option.some.inj hrun]
      exact .inr (Nat.le_refl _)
  | cons a as ih =>
      obtain ⟨t, ht, htail⟩ := run_cons.mp hrun
      obtain ⟨ha, hnext⟩ := halong
      have hlater := ih (hinv s a t hinit ha ht) (hnext t ht) htail
      rw [List.countP_cons]
      cases hw : work a with
      | true =>
          rcases hwork s a t hinit ha ht hw with h | h
          · left
            omega
          · rw [if_pos rfl]
            omega
      | false =>
          have h := hrest s a t hinit ha ht hw
          rw [if_neg Bool.false_ne_true]
          omega

theorem run_concat (s : σ) (as : List α) (a : α) :
    run step s (as ++ [a]) = (run step s as).bind fun s' => step s' a := by
  induction as generalizing s with
  | nil =>
      rw [List.nil_append, run, run, Option.bind_some]
      cases step s a <;> rfl
  | cons b as ih =>
      rw [List.cons_append, run, run, Option.bind_assoc]
      exact congrArg _ (funext fun t => ih t)

/-- **The induction rule**, for an invariant that also speaks of the actions so
    far. -/
theorem run_log_invariant {Inv : List α → σ → Prop} {s : σ} (hinit : Inv [] s)
    (hstep : ∀ as t a s', Inv as t → step t a = some s' → Inv (as ++ [a]) s') {s' : σ}
    {as : List α} (hrun : run step s as = some s') : Inv as s' := by
  induction as using List.reverseRecOn generalizing s' with
  | nil =>
      rw [← Option.some.inj hrun]
      exact hinit
  | append_singleton as a ih =>
      rw [run_concat] at hrun
      obtain ⟨t, ht, ha⟩ := Option.bind_eq_some_iff.mp hrun
      exact hstep as t a s' (ih ht) ha

/-- What every action keeps is kept by a run. -/
theorem run_keeps (Inv : σ → Prop) {s s' : σ} {as : List α} (hinit : Inv s)
    (hstep : ∀ t a s', Inv t → step t a = some s' → Inv s')
    (hrun : run step s as = some s') : Inv s' := by
  induction as generalizing s with
  | nil =>
      rw [← Option.some.inj hrun]
      exact hinit
  | cons a as ih =>
      obtain ⟨t, ht, hrest⟩ := run_cons.mp hrun
      exact ih (hstep s a t hinit ht) hrest

theorem run_append (s : σ) (as bs : List α) :
    run step s (as ++ bs) = (run step s as).bind fun s' => run step s' bs := by
  induction as generalizing s with
  | nil => rfl
  | cons a as ih =>
      rw [List.cons_append, run, run, Option.bind_assoc]
      exact congrArg _ (funext fun t => ih t)

theorem Visits.refl (s : σ) (as : List α) : Visits step s as s :=
  ⟨[], List.nil_prefix, rfl⟩

theorem Visits.cons {s t s' : σ} {a : α} {as : List α} (ht : step s a = some t)
    (h : Visits step t as s') : Visits step s (a :: as) s' := by
  obtain ⟨before, hpre, hrun⟩ := h
  refine ⟨a :: before, ?_, run_cons.mpr ⟨t, ht, hrun⟩⟩
  exact List.cons_prefix_cons.mpr ⟨rfl, hpre⟩

/-- **The exact condition.**  If an action that meets the condition keeps the
    invariant and one that does not leaves it, then a run stays inside the
    invariant just when all its actions meet the condition. -/
theorem visits_iff_along {P : σ → α → Prop} {Inv : σ → Prop}
    (hstep : ∀ s a s', Inv s → P s a → step s a = some s' → Inv s')
    (hconv : ∀ s a, Inv s → ¬ P s a → ∃ s', step s a = some s' ∧ ¬ Inv s') {s : σ}
    (hinit : Inv s) (as : List α) :
    (∀ s', Visits step s as s' → Inv s') ↔ Along step P s as := by
  constructor
  · intro h
    induction as generalizing s with
    | nil => trivial
    | cons a as ih =>
        have hnext : ∀ t ∈ step s a, ∀ s', Visits step t as s' → Inv s' :=
          fun t ht s' hs => h s' (hs.cons ht)
        constructor
        · by_contra hP
          obtain ⟨t, ht, hbad⟩ := hconv s a hinit hP
          exact hbad (hnext t ht t (Visits.refl t as))
        · intro t ht
          exact ih (hnext t ht t (Visits.refl t as)) (hnext t ht)
  · intro h s' hs
    exact visits_invariant hstep hinit h hs

end Runs
