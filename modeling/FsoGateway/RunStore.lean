import FsoGateway.Lib.Runs
import FsoGateway.Lib.Workers

/-! # The run store under concurrent requests

    `webgui/server/run_store.py`: every call opens its own connection with
    `isolation_level=None`, so each of its SQL statements is a transaction of
    its own, and the calls run in worker threads.  A call is the list of its
    statements here, and the system executes one statement of one call at a
    time.

    * `atMostOneActive_iff` — at most one run is active all the time exactly
      when every `INSERT` of a `create_run` finds no active run, as is so if no
      `create_run` inserts between the `UPDATE` and the `INSERT` of another one;
    * `createRun_race` — two calls that do leave two active runs. -/

namespace FsoRunStore

open Runs Workers

/-! ## The database -/

/-- A row of `runs`, less `sample_count`. -/
structure Run where
  id : Nat
  name : String
  startedAt : Int
  endedAt : Option Int
  notes : Option String
  deriving DecidableEq

/-- The table `runs`, with the last id that `AUTOINCREMENT` gave out. -/
structure RunsTable where
  rows : List Run
  sequence : Nat
  deriving DecidableEq

/-- The database.  A table that does not exist is `none`; of `schema_meta` the
    value of `version` is kept, of `samples` that it exists. -/
structure Store where
  schemaMeta : Option (Option Int)
  runs : Option RunsTable
  samples : Bool
  deriving DecidableEq

/-- `SCHEMA_VERSION`. -/
def schemaVersion : Int := 2

/-- `WHERE ended_at IS NULL`. -/
def Run.isActive (r : Run) : Bool := r.endedAt.isNone

def activeRuns (s : Store) : List Run :=
  match s.runs with
  | some t => t.rows.filter Run.isActive
  | none => []

def endRow (now : Int) (r : Run) : Run :=
  if r.isActive then { r with endedAt := some now } else r

/-! ## Statements -/

inductive Stmt where
  | selectVersion
  | dropSamples
  | dropRuns
  | dropSchemaMeta
  | createSchemaMeta
  | createRuns
  | createSamples
  | createIndex
  | putVersion
  | endActive (now : Int)
  | insertRun (name : String) (now : Int) (notes : Option String)
  | endOne (now : Int) (runId : Nat)
  deriving DecidableEq

/-- What a statement does to the database; `none` is an `OperationalError`. -/
def Stmt.exec : Stmt → Store → Option Store
  | .selectVersion, s => some s
  | .dropSamples, s => some { s with samples := false }
  | .dropRuns, s => some { s with runs := none }
  | .dropSchemaMeta, s => some { s with schemaMeta := none }
  | .createSchemaMeta, s => some { s with schemaMeta := some (s.schemaMeta.getD none) }
  | .createRuns, s => some { s with runs := some (s.runs.getD ⟨[], 0⟩) }
  | .createSamples, s => some { s with samples := true }
  | .createIndex, s => if s.samples then some s else none
  | .putVersion, s =>
    s.schemaMeta.map fun _ => { s with schemaMeta := some (some schemaVersion) }
  | .endActive now, s =>
    s.runs.map fun t => { s with runs := some { t with rows := t.rows.map (endRow now) } }
  | .insertRun name now notes, s =>
    s.runs.map fun t =>
      { s with runs := some ⟨t.rows ++ [⟨t.sequence + 1, name, now, none, notes⟩], t.sequence + 1⟩ }
  | .endOne now runId, s =>
    s.runs.map fun t =>
      { s with runs := some { t with
          rows := t.rows.map fun r => if r.id = runId then endRow now r else r } }

/-- The statements that drop a stale schema. -/
def dropAll : List Stmt := [.dropSamples, .dropRuns, .dropSchemaMeta]

/-- What a call does next because of a statement's result: the version that
    `_ensure_schema` finds decides whether it drops the tables. -/
def Stmt.followUp : Stmt → Store → List Stmt
  | .selectVersion, s =>
    if (s.schemaMeta.getD none).getD 0 ≠ schemaVersion then dropAll else []
  | _, _ => []

/-- The return value of a call. -/
inductive Reply where
  | created (id : Nat)
  | ended (found : Bool)
  deriving DecidableEq

/-- What a call returns after its last statement. -/
def Stmt.reply : Stmt → Store → Option Reply
  | .insertRun _ _ _, s => s.runs.map fun t => .created (t.sequence + 1)
  | .endOne _ runId, s =>
    s.runs.map fun t => .ended (t.rows.any fun r => r.id = runId && r.isActive)
  | _, _ => none

/-! ## Calls -/

/-- `_ensure_schema`, with which every call begins. -/
def ensureSchema : List Stmt :=
  [.selectVersion, .createSchemaMeta, .createRuns, .createSamples, .createIndex, .putVersion]

/-- A request; `name` is the name that `create_run` settles on. -/
inductive Call where
  | createRun (name : String) (now : Int) (notes : Option String)
  | endRun (now : Int) (runId : Nat)

/-- `create_run`. -/
def createRun (name : String) (now : Int) (notes : Option String) : List Stmt :=
  ensureSchema
    ++ [.endActive now, .insertRun name now (if notes = some "" then none else notes)]

/-- `end_run`. -/
def endRun (now : Int) (runId : Nat) : List Stmt :=
  ensureSchema ++ [.endOne now runId]

/-- The statements of a call. -/
def statements : Call → List Stmt
  | .createRun name now notes => createRun name now notes
  | .endRun now runId => endRun now runId

/-- A worker thread. -/
abbrev Worker := Workers.Worker Stmt Reply

/-- The database and the worker threads. -/
abbrev System := Workers.System Store Stmt Reply

def start (store : Store) (calls : List Call) : System :=
  ⟨store, calls.map fun call => ⟨statements call, none⟩⟩

/-- Worker `i` executes its next statement, or finds the database locked. -/
inductive Action where
  | statement (i : Nat)
  | locked (i : Nat)
  deriving DecidableEq

/-- An `OperationalError` ends the call, except in the version check, where it
    counts as version 0. -/
def onError (st : Stmt) (rest : List Stmt) : List Stmt :=
  if st = .selectVersion then dropAll ++ rest else []

/-- The statements, as the workers execute them. -/
def stmts : Semantics Store Stmt Reply where
  exec := fun st s => (st.exec s).elim .operationalError .done
  followUp := Stmt.followUp
  reply := Stmt.reply
  onError := onError

/-- One action; `none` if the worker has nothing to execute. -/
def step (s : System) : Action → Option System
  | .statement i => Workers.statement stmts s i
  | .locked i => Workers.locked stmts s i

/-- All calls are done. -/
def System.done (s : System) : Bool := s.workers.all fun w => w.todo.isEmpty

/-- The statement that an action is going to execute. -/
def nextStmt (s : System) : Action → Option Stmt
  | .statement i => nextStatement s i
  | .locked _ => none

def Stmt.isInsert : Stmt → Bool
  | .insertRun _ _ _ => true
  | _ => false

/-- An `INSERT` of a `create_run` finds no active run. -/
def InsertsAlone (s : System) (a : Action) : Prop :=
  (nextStmt s a).any Stmt.isInsert = true → activeRuns s.db = []

instance (s : System) (a : Action) : Decidable (InsertsAlone s a) :=
  inferInstanceAs (Decidable (_ → _))

def AtMostOneActive (s : System) : Prop := (activeRuns s.db).length ≤ 1

instance (s : System) : Decidable (AtMostOneActive s) :=
  inferInstanceAs (Decidable (_ ≤ _))

/-! ## Active runs, statement by statement -/

/-- Ending rows does not make any active. -/
theorem filter_active_map (rows : List Run) (f : Run → Run)
    (hf : ∀ r, (f r).isActive = true → f r = r) :
    ((rows.map f).filter Run.isActive).length ≤ (rows.filter Run.isActive).length := by
  induction rows with
  | nil => exact Nat.le_refl 0
  | cons r rows ih =>
      rw [List.map_cons]
      by_cases h : (f r).isActive = true
      · have hr : r.isActive = true := by rw [← hf r h]; exact h
        rw [List.filter_cons_of_pos h, List.filter_cons_of_pos hr, List.length_cons,
          List.length_cons]
        exact Nat.succ_le_succ ih
      · rw [List.filter_cons_of_neg h]
        refine Nat.le_trans ih ?_
        exact (List.sublist_cons_self r rows).filter Run.isActive |>.length_le

theorem endRow_isActive (now : Int) (r : Run) : (endRow now r).isActive = false := by
  rw [endRow]
  cases h : r.isActive with
  | true => rfl
  | false => exact h

/-- **What a statement does to the active runs**: an `INSERT` adds one, no
    other statement adds any. -/
theorem exec_active {st : Stmt} {s s' : Store} (h : st.exec s = some s') :
    (activeRuns s').length ≤ (activeRuns s).length + (if st.isInsert then 1 else 0) := by
  cases st with
  | dropRuns =>
      rw [Stmt.exec, Option.some.injEq] at h
      subst h
      exact Nat.zero_le _
  | createRuns =>
      rw [Stmt.exec, Option.some.injEq] at h
      subst h
      cases hr : s.runs <;> simp [activeRuns, hr]
  | createIndex =>
      rw [Stmt.exec] at h
      split at h
      · rw [← Option.some.inj h]
        exact Nat.le_add_right _ _
      · cases h
  | putVersion =>
      obtain ⟨_, _, rfl⟩ := Option.map_eq_some_iff.mp h
      exact Nat.le_add_right _ _
  | endActive now =>
      obtain ⟨t, ht, rfl⟩ := Option.map_eq_some_iff.mp h
      simp only [activeRuns, ht]
      -- an `UPDATE` can only end runs
      refine Nat.le_trans (filter_active_map t.rows (endRow now) ?_) (Nat.le_add_right _ _)
      intro r hr
      rw [endRow_isActive] at hr
      cases hr
  | insertRun name now notes =>
      obtain ⟨t, ht, rfl⟩ := Option.map_eq_some_iff.mp h
      have hnew : ∀ r : Run, (List.filter Run.isActive [r]).length ≤ 1 := by
        intro r
        exact List.length_filter_le _ _
      simp only [activeRuns, ht, List.filter_append, List.length_append]
      exact Nat.add_le_add_left (hnew _) _
  | endOne now runId =>
      obtain ⟨t, ht, rfl⟩ := Option.map_eq_some_iff.mp h
      simp only [activeRuns, ht]
      refine Nat.le_trans (filter_active_map t.rows _ ?_) (Nat.le_add_right _ _)
      intro r hr
      split at hr
      · rw [endRow_isActive] at hr
        cases hr
      · rename_i hne
        rw [if_neg hne]
  | _ =>
      rw [Stmt.exec, Option.some.injEq] at h
      subst h
      exact Nat.le_add_right _ _

/-- After the `UPDATE` of a `create_run` no run is active. -/
theorem endActive_active {now : Int} {s s' : Store}
    (h : (Stmt.endActive now).exec s = some s') : activeRuns s' = [] := by
  obtain ⟨t, ht, rfl⟩ := Option.map_eq_some_iff.mp h
  simp only [activeRuns, List.filter_eq_nil_iff, List.mem_map]
  rintro r ⟨r', _, rfl⟩
  rw [endRow_isActive]
  exact Bool.false_ne_true

theorem insert_active {st : Stmt} {s : Store} (hi : st.isInsert = true)
    (hs : activeRuns s ≠ []) :
    ∃ s', st.exec s = some s' ∧ (activeRuns s').length = (activeRuns s).length + 1 := by
  cases st with
  | insertRun name now notes =>
      cases ht : s.runs with
      | none => exact absurd (by rw [activeRuns, ht]) hs
      | some t =>
          refine ⟨_, by rw [Stmt.exec, ht]; rfl, ?_⟩
          simp only [activeRuns, ht, List.filter_append, List.length_append]
          rfl
  | _ => cases hi

/-! ## Runs -/

/-- **What an action does**: it executes a statement of a worker, or that worker
    fails and the database stays as it is. -/
theorem step_cases {s s' : System} {a : Action} (h : step s a = some s') :
    (∃ (i : Nat) (st : Stmt) (rest : List Stmt) (r : Option Reply) (store : Store),
        a = .statement i ∧ s.workers[i]? = some ⟨st :: rest, r⟩
          ∧ st.exec s.db = some store
          ∧ s' = ⟨store, s.workers.set i ⟨st.followUp s.db ++ rest, st.reply s.db⟩⟩)
      ∨ ∃ (i : Nat) (st : Stmt) (rest : List Stmt) (r : Option Reply),
          s.workers[i]? = some ⟨st :: rest, r⟩
            ∧ s' = { s with workers := s.workers.set i ⟨onError st rest, none⟩ } := by
  cases a with
  | statement i =>
      obtain ⟨st, rest, r, hw, hcases⟩ := statement_cases h
      have hexec : stmts.exec st s.db = (st.exec s.db).elim .operationalError .done := rfl
      rw [hexec] at hcases
      cases hx : st.exec s.db with
      | some store =>
          rw [hx] at hcases
          rcases hcases with ⟨db, hdb, hs⟩ | ⟨hno, -⟩ | ⟨hno, -⟩
          · cases hdb
            exact .inl ⟨i, st, rest, r, store, rfl, hw, hx, hs⟩
          · cases hno
          · cases hno
      | none =>
          rw [hx] at hcases
          rcases hcases with ⟨db, hno, -⟩ | ⟨-, hs⟩ | ⟨hno, -⟩
          · cases hno
          · exact .inr ⟨i, st, rest, r, hw, hs⟩
          · cases hno
  | locked i =>
      obtain ⟨st, rest, r, hw, hs⟩ := locked_cases h
      exact .inr ⟨i, st, rest, r, hw, hs⟩

theorem nextStmt_of {s : System} {i : Nat} {st : Stmt} {rest : List Stmt} {r : Option Reply}
    (h : s.workers[i]? = some ⟨st :: rest, r⟩) : nextStmt s (.statement i) = some st :=
  nextStatement_of h

theorem step_keeps {s s' : System} {a : Action} (hinv : AtMostOneActive s)
    (halone : InsertsAlone s a) (h : step s a = some s') : AtMostOneActive s' := by
  rcases step_cases h with ⟨i, st, rest, r, store, rfl, hw, hx, rfl⟩ | ⟨i, st, rest, r, _, rfl⟩
  · have hexec := exec_active hx
    have hnext := nextStmt_of hw
    rw [InsertsAlone, hnext] at halone
    rw [AtMostOneActive] at hinv ⊢
    cases hi : st.isInsert with
    | true =>
        have hnone := halone hi
        rw [hi, hnone] at hexec
        exact hexec
    | false =>
        rw [hi] at hexec
        exact Nat.le_trans hexec hinv
  · exact hinv

theorem step_breaks {s : System} {a : Action} (halone : ¬ InsertsAlone s a) :
    ∃ s', step s a = some s' ∧ ¬ AtMostOneActive s' := by
  rw [InsertsAlone, Classical.not_imp] at halone
  obtain ⟨hins, hactive⟩ := halone
  cases a with
  | locked i => cases hins
  | statement i =>
      rw [nextStmt, nextStatement] at hins
      cases hw : s.workers[i]? with
      | none =>
          rw [hw] at hins
          cases hins
      | some w =>
          obtain ⟨todo, r⟩ := w
          rw [hw] at hins
          cases todo with
          | nil => cases hins
          | cons st rest =>
              obtain ⟨store, hx, hlen⟩ := insert_active hins hactive
              have hexec : stmts.exec st s.db = .done store := by
                show (st.exec s.db).elim _ _ = _
                rw [hx]
                rfl
              refine ⟨_, statement_of hw hexec, ?_⟩
              have hpos := List.length_pos_iff.mpr hactive
              rw [AtMostOneActive, hlen]
              omega

/-! ## What a transaction around the two statements would give -/

/-- The next statement is an `INSERT`: in a `create_run`, the `UPDATE` has been
    executed and the `INSERT` has not. -/
def nextIsInsert (todo : List Stmt) : Bool := todo.head?.any Stmt.isInsert

def Stmt.isEndActive : Stmt → Bool
  | .endActive _ => true
  | _ => false

/-- No `INSERT` falls between the `UPDATE` and the `INSERT` of another call. -/
def Exclusive (s : System) (a : Action) : Prop :=
  ∀ i, a = .statement i → (nextStmt s a).any Stmt.isInsert = true →
    ∀ (j : Nat) (w : Worker), s.workers[j]? = some w → j ≠ i → nextIsInsert w.todo = false

/-- An `INSERT` comes right after an `UPDATE`. -/
def UpdatesFirst : List Stmt → Prop
  | [] => True
  | st :: rest => (nextIsInsert rest = true → st.isEndActive = true) ∧ UpdatesFirst rest

theorem statements_updatesFirst (call : Call) :
    UpdatesFirst (statements call) ∧ nextIsInsert (statements call) = false := by
  cases call <;>
    simp [statements, createRun, endRun, ensureSchema, UpdatesFirst, nextIsInsert,
      Stmt.isInsert, Stmt.isEndActive]

theorem dropAll_updatesFirst {rest : List Stmt} (h : UpdatesFirst rest)
    (hn : nextIsInsert rest = false) :
    UpdatesFirst (dropAll ++ rest) ∧ nextIsInsert (dropAll ++ rest) = false := by
  constructor
  · simp only [dropAll, List.cons_append, List.nil_append, UpdatesFirst, hn]
    simp [nextIsInsert, Stmt.isInsert, h]
  · rfl

/-- While a call is between its `UPDATE` and its `INSERT`, no run is active. -/
structure PendingInv (s : System) : Prop where
  updatesFirst : ∀ w ∈ s.workers, UpdatesFirst w.todo
  pending : ∀ w ∈ s.workers, nextIsInsert w.todo = true → activeRuns s.db = []

theorem pendingInv_start (store : Store) (calls : List Call) :
    PendingInv (start store calls) where
  updatesFirst := by
    intro w hw
    obtain ⟨call, _, rfl⟩ := List.mem_map.mp hw
    exact (statements_updatesFirst call).1
  pending := by
    intro w hw hins
    obtain ⟨call, _, rfl⟩ := List.mem_map.mp hw
    rw [(statements_updatesFirst call).2] at hins
    cases hins

/-- What a worker has left to do after a statement. -/
theorem followUp_updatesFirst {st : Stmt} {rest : List Stmt} (s : Store)
    (h : UpdatesFirst (st :: rest)) :
    UpdatesFirst (st.followUp s ++ rest)
      ∧ (nextIsInsert (st.followUp s ++ rest) = true → st.isEndActive = true) := by
  obtain ⟨hnext, hrest⟩ := h
  cases st with
  | selectVersion =>
      have hn : nextIsInsert rest = false := by
        rw [← Bool.not_eq_true]
        intro hins
        exact absurd (hnext hins) Bool.false_ne_true
      rw [Stmt.followUp]
      split
      · obtain ⟨h1, h2⟩ := dropAll_updatesFirst hrest hn
        refine ⟨h1, ?_⟩
        intro hins
        rw [h2] at hins
        cases hins
      · exact ⟨hrest, hnext⟩
  | _ => exact ⟨hrest, hnext⟩

theorem onError_updatesFirst {st : Stmt} {rest : List Stmt} (h : UpdatesFirst (st :: rest)) :
    UpdatesFirst (onError st rest) ∧ nextIsInsert (onError st rest) = false := by
  rw [onError]
  split
  · rename_i hst
    subst hst
    refine dropAll_updatesFirst h.2 ?_
    rw [← Bool.not_eq_true]
    intro hins
    exact absurd (h.1 hins) Bool.false_ne_true
  · exact ⟨trivial, rfl⟩

theorem pendingInv_step {s s' : System} {a : Action} (hinv : PendingInv s)
    (hex : Exclusive s a) (h : step s a = some s') : PendingInv s' := by
  rcases step_cases h with ⟨i, st, rest, r, store, rfl, hw, hx, rfl⟩ | ⟨i, st, rest, r, hw, rfl⟩
  · have hfirst := hinv.updatesFirst _ (List.mem_of_getElem? hw)
    obtain ⟨hnew, hend⟩ := followUp_updatesFirst s.db hfirst
    constructor
    · exact forall_set hinv.updatesFirst hnew
    · intro w hmem hins
      rcases mem_set hmem with rfl | ⟨j, hj, hji⟩
      · have hst := hend hins
        cases st with
        | endActive now => exact endActive_active hx
        | _ => cases hst
      · have hnone := hinv.pending w (List.mem_of_getElem? hj) hins
        have hexec := exec_active hx
        cases hsi : st.isInsert with
        | false =>
            rw [hsi, hnone] at hexec
            exact List.length_eq_zero_iff.mp (Nat.le_zero.mp hexec)
        | true =>
            have hno := hex i rfl (by rw [nextStmt_of hw]; exact hsi) j w hj hji
            rw [hno] at hins
            cases hins
  · obtain ⟨hnew, hno⟩ := onError_updatesFirst (hinv.updatesFirst _ (List.mem_of_getElem? hw))
    constructor
    · exact forall_set hinv.updatesFirst hnew
    · intro w hmem hins
      rcases mem_set hmem with rfl | ⟨j, hj, _⟩
      · rw [hno] at hins
        cases hins
      · exact hinv.pending w (List.mem_of_getElem? hj) hins

/-- If no `INSERT` ever falls between the two statements of another call, every
    `INSERT` finds no active run. -/
theorem exclusive_insertsAlone (store : Store) (calls : List Call) (schedule : List Action)
    (h : Along step Exclusive (start store calls) schedule) :
    Along step InsertsAlone (start store calls) schedule := by
  refine Along.imp (fun _ _ _ => pendingInv_step) ?_ (pendingInv_start store calls) h
  intro s a hinv _ hins
  cases a with
  | locked i => cases hins
  | statement i =>
      cases hw : s.workers[i]? with
      | none =>
          rw [nextStmt, nextStatement, hw] at hins
          cases hins
      | some w =>
          rw [nextStmt, nextStatement, hw] at hins
          exact hinv.pending w (List.mem_of_getElem? hw) hins

/-- **At most one active run**, for any schedule of any calls: in every state on
    the way at most one run is active if and only if every `INSERT` finds none
    active; and so it is if no `INSERT` falls between the two statements of
    another call. -/
theorem atMostOneActive_iff (store : Store) (calls : List Call) (schedule : List Action)
    (h : (activeRuns store).length ≤ 1) :
    ((∀ s, Visits step (start store calls) schedule s → AtMostOneActive s)
        ↔ Along step InsertsAlone (start store calls) schedule)
      ∧ (Along step Exclusive (start store calls) schedule →
          ∀ s, Visits step (start store calls) schedule s → AtMostOneActive s) := by
  have hinit : AtMostOneActive (start store calls) := h
  have hiff : (∀ s, Visits step (start store calls) schedule s → AtMostOneActive s)
      ↔ Along step InsertsAlone (start store calls) schedule :=
    visits_iff_along (fun _ _ _ => step_keeps)
      (fun _ _ (_ : AtMostOneActive _) => step_breaks) hinit schedule
  exact ⟨hiff, fun hex => hiff.mpr (exclusive_insertsAlone store calls schedule hex)⟩

/-! ## The race -/

/-- A store with the current schema and no runs. -/
def freshStore : Store := ⟨some (some schemaVersion), some ⟨[], 0⟩, true⟩

/-- Two requests for a new run. -/
def twoCreates : List Call := [.createRun "a" 10 none, .createRun "b" 11 none]

/-- Both threads get as far as the `UPDATE`, then both insert. -/
def bothUpdateFirst : List Action :=
  List.replicate 7 (.statement 0) ++ List.replicate 7 (.statement 1)
    ++ [.statement 0, .statement 1]

/-- The run that `bothUpdateFirst` makes of `twoCreates`. -/
theorem createRun_race_run :
    (run step (start freshStore twoCreates) bothUpdateFirst).any
      (fun s => s.done && (activeRuns s.db).length == 2) = true := by
  decide

theorem createRun_race :
    ¬ ∀ (store : Store) (calls : List Call) (schedule : List Action) (s : System),
        (activeRuns store).length ≤ 1 →
        run step (start store calls) schedule = some s → s.done = true →
        AtMostOneActive s := by
  intro h
  have hrace := createRun_race_run
  cases hr : run step (start freshStore twoCreates) bothUpdateFirst with
  | none =>
      rw [hr] at hrace
      cases hrace
  | some s =>
      rw [hr, Option.any_some, Bool.and_eq_true, beq_iff_eq] at hrace
      have hone := h freshStore twoCreates bothUpdateFirst s (by decide) hr hrace.1
      rw [AtMostOneActive, hrace.2] at hone
      exact absurd hone (by decide)

/-- One request after the other. -/
def oneByOne : List Action :=
  List.replicate 8 (.statement 0) ++ List.replicate 8 (.statement 1)

theorem atMostOneActive_oneByOne :
    Along step InsertsAlone (start freshStore twoCreates) oneByOne
      ∧ ∀ s, Visits step (start freshStore twoCreates) oneByOne s → AtMostOneActive s := by
  have halone : Along step InsertsAlone (start freshStore twoCreates) oneByOne := by decide
  exact ⟨halone, (atMostOneActive_iff freshStore twoCreates oneByOne (by decide)).1.mpr halone⟩

end FsoRunStore
