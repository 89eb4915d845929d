import Mathlib.Data.List.Basic

/-! # Workers that execute statements on one database

    Each worker has a list of statements to execute.  A step is one statement of
    one worker, and what comes of it: it is done, and may call for others before
    those that are left; it violates a constraint, which ends the worker; or it
    fails, which the semantics has the worker answer in its own way.

    * `statement`, `locked` — a worker executes its next statement, or finds the
      database locked;
    * `statement_cases`, `locked_cases` — what they do;
    * `forall_set` — what holds of every worker. -/

namespace Workers

/-- How a statement ends. -/
inductive Outcome (δ : Type) where
  | done (db : δ)
  | operationalError
  | integrityError

/-- A worker: the statements it still has to execute, and what it returns. -/
structure Worker (σ ω : Type) where
  todo : List σ
  reply : Option ω
  deriving DecidableEq

/-- The database and the workers. -/
structure System (δ σ ω : Type) where
  db : δ
  workers : List (Worker σ ω)
  deriving DecidableEq

/-- What the statements mean: what one does to the database, what it calls for,
    what it returns, and what a worker is left with if it fails. -/
structure Semantics (δ σ ω : Type) where
  exec : σ → δ → Outcome δ
  followUp : σ → δ → List σ
  reply : σ → δ → Option ω
  onError : σ → List σ → List σ

section Steps

variable {δ σ ω : Type} (m : Semantics δ σ ω) (s : System δ σ ω) (i : Nat)

/-- Worker `i` executes its next statement; `none` if it has nothing to execute. -/
def statement : Option (System δ σ ω) :=
  match s.workers[i]? with
  | some ⟨st :: rest, _⟩ =>
    match m.exec st s.db with
    | .done db => some ⟨db, s.workers.set i ⟨m.followUp st s.db ++ rest, m.reply st s.db⟩⟩
    | .operationalError => some { s with workers := s.workers.set i ⟨m.onError st rest, none⟩ }
    | .integrityError => some { s with workers := s.workers.set i ⟨[], none⟩ }
  | _ => none

/-- Worker `i` finds the database locked. -/
def locked : Option (System δ σ ω) :=
  match s.workers[i]? with
  | some ⟨st :: rest, _⟩ => some { s with workers := s.workers.set i ⟨m.onError st rest, none⟩ }
  | _ => none

/-- The statement that worker `i` is going to execute. -/
def nextStatement : Option σ := s.workers[i]?.bind fun w => w.todo.head?

variable {m s i} {s' : System δ σ ω}

theorem nextStatement_of {st : σ} {rest : List σ} {r : Option ω}
    (h : s.workers[i]? = some ⟨st :: rest, r⟩) : nextStatement s i = some st := by
  rw [nextStatement, h]
  rfl

theorem statement_of {st : σ} {rest : List σ} {r : Option ω} {db : δ}
    (h : s.workers[i]? = some ⟨st :: rest, r⟩) (hx : m.exec st s.db = .done db) :
    statement m s i
      = some ⟨db, s.workers.set i ⟨m.followUp st s.db ++ rest, m.reply st s.db⟩⟩ := by
  rw [statement, h]
  simp only [hx]

/-- **What a statement does.** -/
theorem statement_cases (h : statement m s i = some s') :
    ∃ st rest r, s.workers[i]? = some ⟨st :: rest, r⟩ ∧
      ((∃ db, m.exec st s.db = .done db ∧
          s' = ⟨db, s.workers.set i ⟨m.followUp st s.db ++ rest, m.reply st s.db⟩⟩) ∨
        (m.exec st s.db = .operationalError ∧
          s' = { s with workers := s.workers.set i ⟨m.onError st rest, none⟩ }) ∨
        (m.exec st s.db = .integrityError ∧
          s' = { s with workers := s.workers.set i ⟨[], none⟩ })) := by
  rw [statement] at h
  split at h
  · rename_i st rest r hw
    refine ⟨st, rest, r, hw, ?_⟩
    cases hx : m.exec st s.db with
    | done db =>
        rw [hx, Option.some.injEq] at h
        exact .inl ⟨db, rfl, h.symm⟩
    | operationalError =>
        rw [hx, Option.some.injEq] at h
        exact .inr (.inl ⟨rfl, h.symm⟩)
    | integrityError =>
        rw [hx, Option.some.injEq] at h
        exact .inr (.inr ⟨rfl, h.symm⟩)
  · cases h

theorem locked_cases (h : locked m s i = some s') :
    ∃ st rest r, s.workers[i]? = some ⟨st :: rest, r⟩ ∧
      s' = { s with workers := s.workers.set i ⟨m.onError st rest, none⟩ } := by
  rw [locked] at h
  split at h
  · rename_i st rest r hw
    rw [Option.some.injEq] at h
    exact ⟨st, rest, r, hw, h.symm⟩
  · cases h

end Steps

variable {α : Type} {l : List α} {i : Nat} {v w : α}

/-- The workers after one of them has changed. -/
theorem mem_set (h : w ∈ l.set i v) : w = v ∨ ∃ j, l[j]? = some w ∧ j ≠ i := by
  obtain ⟨j, hj⟩ := List.mem_iff_getElem?.mp h
  rw [List.getElem?_set] at hj
  split at hj
  · split at hj
    · exact .inl (Option.some.inj hj).symm
    · cases hj
  · exact .inr ⟨j, hj, Ne.symm ‹_›⟩

theorem forall_set {P : α → Prop} (h : ∀ w ∈ l, P w) (hv : P v) : ∀ w ∈ l.set i v, P w := by
  intro w hw
  rcases mem_set hw with rfl | ⟨j, hj, -⟩
  · exact hv
  · exact h w (List.mem_of_getElem? hj)

end Workers
