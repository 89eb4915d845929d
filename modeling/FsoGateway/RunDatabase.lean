import FsoGateway.RunStore
import FsoGateway.RunSamples
import FsoGateway.Lib.Tally

/-! # The run database under concurrent requests

    `webgui/server/run_store.py`, with the samples: any number of calls, each in
    a worker thread with a connection of its own, execute their statements in
    any order, and each statement may find the database locked.  A call that
    begins while others are under way is one more worker.

    * `Ledger` — the invariant: ids and keys are unique, each sample has its
      run, and the column `sample_count` of a run, together with the workers that
      still have to count a sample and those that could not, is the number of its
      samples;
    * `sampleCount_ledger` — the count, over every run of the system;
    * `samples_kept`, `deleted_stays` — samples go only with their run, and a run
      that is gone stays so, whatever was in flight. -/

namespace FsoRunDatabase

open Runs Workers
open FsoRunStore (Stmt Store Run RunsTable Sample schemaVersion ensureSchema endRow)

variable {ρ : Type}

/-! ## The database -/

/-- The database: the tables, the column `sample_count` by the id of the run, and
    the rows of `samples`. -/
structure Database (ρ : Type) where
  store : Store
  sampleCount : Nat → Nat
  samples : List (Sample ρ)

/-- The rows of `runs`. -/
def Database.runs (db : Database ρ) : List Run :=
  match db.store.runs with
  | some t => t.rows
  | none => []

/-- The last id that `AUTOINCREMENT` gave out. -/
def Database.sequence (db : Database ρ) : Nat :=
  match db.store.runs with
  | some t => t.sequence
  | none => 0

/-- `WHERE id = ?` finds a row. -/
def Database.hasRun (db : Database ρ) (runId : Int) : Bool :=
  db.runs.any fun r => r.id = runId

/-- The primary key of `samples` is taken. -/
def Database.hasKey (db : Database ρ) (r : Sample ρ) : Bool :=
  db.samples.any fun x => x.runId = r.runId && x.t = r.t

/-- `SELECT COUNT(*) … WHERE run_id = ?`. -/
def Database.countSamples (db : Database ρ) (runId : Int) : Nat :=
  db.samples.countP fun r => r.runId = runId

/-! ## Statements -/

/-- A statement: one on the schema or on `runs` alone, a `SELECT`, or one on the
    samples. -/
inductive DbStmt (ρ : Type) where
  | runs (st : Stmt)
  | select
  | insertSample (r : Sample ρ)
  | countSample (runId : Int)
  | deleteRun (runId : Int)

/-- What a statement on `runs` does to the rest: a table that is dropped loses its
    rows, and those that refer to them go too; a new run has counted nothing. -/
def Database.after (db : Database ρ) (st : Stmt) (store : Store) : Database ρ :=
  match st with
  | .dropSamples | .dropRuns => { db with store := store, samples := [] }
  | .insertRun _ _ _ =>
    { db with
      store := store
      sampleCount := fun id => if id = db.sequence + 1 then 0 else db.sampleCount id }
  | _ => { db with store := store }

/-- `ON DELETE CASCADE`. -/
def Database.delete (db : Database ρ) (t : RunsTable) (runId : Int) : Database ρ :=
  { db with
    store := { db.store with runs := some { t with rows := t.rows.filter fun r => r.id ≠ runId } }
    samples := db.samples.filter fun r => r.runId ≠ runId }

/-- What a statement does. -/
def DbStmt.exec : DbStmt ρ → Database ρ → Outcome (Database ρ)
  | .runs st, db =>
    match st.exec db.store with
    | some store => .done (db.after st store)
    | none => .operationalError
  | .select, db => .done db
  | .insertSample r, db =>
    if db.store.runs.isSome && db.store.samples then
      if db.hasKey r then .integrityError
      else if db.hasRun r.runId then .done { db with samples := db.samples ++ [r] }
      else .integrityError
    else .operationalError
  | .countSample runId, db =>
    if db.store.runs.isSome then
      .done { db with
        sampleCount := fun id =>
          if (id : Int) = runId && db.hasRun runId then db.sampleCount id + 1
          else db.sampleCount id }
    else .operationalError
  | .deleteRun runId, db =>
    match db.store.runs with
    | some t => if db.hasRun runId then .done (db.delete t runId) else .done db
    | none => .operationalError

/-- The version that `_ensure_schema` finds. -/
def DbStmt.followUp : DbStmt ρ → Database ρ → List (DbStmt ρ)
  | .runs st, db => (st.followUp db.store).map .runs
  | _, _ => []

/-- The return value of a call. -/
inductive Answer where
  | runs (r : FsoRunStore.Reply)
  | endedRuns (rowcount : Nat)
  | deleted (found : Bool)

/-- What a call returns after its last statement. -/
def DbStmt.answer : DbStmt ρ → Database ρ → Option Answer
  | .runs (.endActive _), db => some (.endedRuns (FsoRunStore.activeRuns db.store).length)
  | .runs st, db => (st.reply db.store).map .runs
  | .deleteRun runId, db => some (.deleted (db.hasRun runId))
  | _, _ => none

/-! ## Calls -/

/-- A request; `read` stands for those that only select, in as many statements. -/
inductive Call (ρ : Type) where
  | createRun (name : String) (now : Int) (notes : Option String)
  | endRun (now : Int) (runId : Nat)
  | endActiveRuns (now : Int)
  | deleteRun (runId : Int)
  | appendSample (r : Sample ρ)
  | read (selects : Nat)

/-- `end_active_runs`. -/
def endActiveRuns (now : Int) : List Stmt := ensureSchema ++ [.endActive now]

/-- `delete_run`. -/
def deleteRun (runId : Int) : List (DbStmt ρ) := ensureSchema.map .runs ++ [.deleteRun runId]

/-- `append_sample`, for the row it makes of a snapshot. -/
def appendSample (r : Sample ρ) : List (DbStmt ρ) :=
  ensureSchema.map .runs ++ [.insertSample r, .countSample r.runId]

/-- The statements of a call. -/
def statements : Call ρ → List (DbStmt ρ)
  | .createRun name now notes => (FsoRunStore.createRun name now notes).map .runs
  | .endRun now runId => (FsoRunStore.endRun now runId).map .runs
  | .endActiveRuns now => (endActiveRuns now).map .runs
  | .deleteRun runId => deleteRun runId
  | .appendSample r => appendSample r
  | .read selects => ensureSchema.map .runs ++ List.replicate selects .select

/-- A worker thread. -/
abbrev Worker (ρ : Type) := Workers.Worker (DbStmt ρ) Answer

/-- The database and the worker threads. -/
abbrev System (ρ : Type) := Workers.System (Database ρ) (DbStmt ρ) Answer

def start (db : Database ρ) : System ρ := ⟨db, []⟩

/-- A new request, or worker `i` executes its next statement, or it finds the
    database locked. -/
inductive Action (ρ : Type) where
  | spawn (call : Call ρ)
  | statement (i : Nat)
  | locked (i : Nat)

/-- An `OperationalError` ends the call, except in the version check, where it
    counts as version 0. -/
def onError (st : DbStmt ρ) (rest : List (DbStmt ρ)) : List (DbStmt ρ) :=
  match st with
  | .runs .selectVersion => FsoRunStore.dropAll.map .runs ++ rest
  | _ => []

/-- The statements, as the workers execute them.  The only `IntegrityError` is
    that of `append_sample`, which ends without an error. -/
def stmts : Semantics (Database ρ) (DbStmt ρ) Answer where
  exec := DbStmt.exec
  followUp := DbStmt.followUp
  reply := DbStmt.answer
  onError := onError

/-- One action; `none` if the worker has nothing to execute. -/
def step (s : System ρ) : Action ρ → Option (System ρ)
  | .spawn call => some { s with workers := s.workers ++ [⟨statements call, none⟩] }
  | .statement i => Workers.statement stmts s i
  | .locked i => Workers.locked stmts s i

def DbStmt.isVersionCheck : DbStmt ρ → Bool
  | .runs .selectVersion => true
  | _ => false

/-- No version check finds the database locked. -/
def VersionRead (s : System ρ) : Action ρ → Prop
  | .locked i => (nextStatement s i).any DbStmt.isVersionCheck = false
  | _ => True

instance (s : System ρ) : (a : Action ρ) → Decidable (VersionRead s a)
  | .spawn _ | .statement _ => .isTrue trivial
  | .locked _ => inferInstanceAs (Decidable (_ = false))

/-- The run whose sample a worker has inserted and not counted yet. -/
def counting : List (DbStmt ρ) → Option Int
  | [.countSample runId] => some runId
  | _ => none

/-- How many workers still have to count a sample of a run. -/
def pending (s : System ρ) (runId : Int) : Nat :=
  s.workers.countP fun w => counting w.todo = some runId

/-- An action in which the `UPDATE` of the count finds the database locked. -/
def losesCount (s : System ρ) (runId : Int) : Action ρ → Bool
  | .locked i => (s.workers[i]?.bind fun w => counting w.todo) = some runId
  | _ => false

/-- How often that happened. -/
def lost (runId : Int) (s : System ρ) : List (Action ρ) → Nat
  | [] => 0
  | a :: as => (losesCount s runId a).toNat + (step s a).elim 0 fun s' => lost runId s' as

/-! ## A database with the current schema -/

/-- The ids of the runs. -/
def Database.ids (db : Database ρ) : List Nat := db.runs.map Run.id

/-- The schema is current, the constraints hold, and no id is above the last one
    given out. -/
structure Sound (db : Database ρ) : Prop where
  version : db.store.schemaMeta = some (some schemaVersion)
  runsTable : db.store.runs.isSome = true
  samplesTable : db.store.samples = true
  idsNodup : db.ids.Nodup
  idsLe : ∀ id ∈ db.ids, id ≤ db.sequence
  keys : (db.samples.map Sample.key).Nodup
  refs : ∀ r ∈ db.samples, db.hasRun r.runId = true

theorem hasKey_iff {db : Database ρ} {r : Sample ρ} :
    db.hasKey r = true ↔ r.key ∈ db.samples.map Sample.key := by
  rw [Database.hasKey, List.any_eq_true, List.mem_map]
  refine exists_congr fun x => and_congr_right fun _ => ?_
  rw [Bool.and_eq_true, decide_eq_true_eq, decide_eq_true_eq, Sample.key, Sample.key, Prod.mk.injEq]

theorem hasRun_iff {db : Database ρ} {runId : Int} :
    db.hasRun runId = true ↔ ∃ id ∈ db.ids, (id : Int) = runId := by
  rw [Database.hasRun, Database.ids, List.any_eq_true]
  constructor
  · rintro ⟨r, hr, hid⟩
    exact ⟨r.id, List.mem_map_of_mem hr, of_decide_eq_true hid⟩
  · rintro ⟨id, hid, heq⟩
    obtain ⟨r, hr, rfl⟩ := List.mem_map.mp hid
    exact ⟨r, hr, decide_eq_true heq⟩

theorem hasRun_natCast {db : Database ρ} {id : Nat} :
    db.hasRun (id : Int) = true ↔ id ∈ db.ids := by
  rw [hasRun_iff]
  constructor
  · rintro ⟨i, hi, heq⟩
    rw [← Int.ofNat.inj heq]
    exact hi
  · intro h
    exact ⟨id, h, rfl⟩

/-- A database that differs in what the ids are not read from has the same runs. -/
theorem hasRun_congr {db db' : Database ρ} (h : db'.ids = db.ids) (runId : Int) :
    db'.hasRun runId = db.hasRun runId := by
  rw [Bool.eq_iff_iff, hasRun_iff, hasRun_iff, h]

/-- No sample belongs to a run that is not there. -/
theorem Sound.countSamples_eq_zero {db : Database ρ} (hs : Sound db) {runId : Int}
    (h : db.hasRun runId = false) : db.countSamples runId = 0 := by
  rw [Database.countSamples, List.countP_eq_zero]
  intro r hr hid
  have hhas := hs.refs r hr
  rw [of_decide_eq_true hid, h] at hhas
  exact Bool.false_ne_true hhas

theorem Sound.hasRun_above {db : Database ρ} (hs : Sound db) {id : Nat}
    (h : db.sequence < id) : db.hasRun (id : Int) = false := by
  rw [← Bool.not_eq_true, hasRun_natCast]
  intro hmem
  exact absurd (hs.idsLe id hmem) (Nat.not_le_of_lt h)

/-- The statements that drop a table. -/
def DbStmt.drops : DbStmt ρ → Bool
  | .runs .dropSamples | .runs .dropRuns | .runs .dropSchemaMeta => true
  | _ => false

/-- The two statements of `append_sample`. -/
def DbStmt.appends : DbStmt ρ → Bool
  | .insertSample _ | .countSample _ => true
  | _ => false

/-- **What a statement changes**, of what the counts depend on. -/
inductive Change (db db' : Database ρ) : DbStmt ρ → Prop where
  | same {st : DbStmt ρ} (happ : st.appends = false) (hids : db'.ids = db.ids)
      (hseq : db'.sequence = db.sequence) (hsamples : db'.samples = db.samples)
      (hcount : db'.sampleCount = db.sampleCount) : Change db db' st
  | newRun {name : String} {now : Int} {notes : Option String}
      (hids : db'.ids = db.ids ++ [db.sequence + 1]) (hseq : db'.sequence = db.sequence + 1)
      (hsamples : db'.samples = db.samples)
      (hcount : ∀ id,
        db'.sampleCount id = if id = db.sequence + 1 then 0 else db.sampleCount id) :
      Change db db' (.runs (.insertRun name now notes))
  | inserted {r : Sample ρ} (hkey : r.key ∉ db.samples.map Sample.key)
      (hrun : db.hasRun r.runId = true) (hids : db'.ids = db.ids)
      (hseq : db'.sequence = db.sequence) (hsamples : db'.samples = db.samples ++ [r])
      (hcount : db'.sampleCount = db.sampleCount) : Change db db' (.insertSample r)
  | counted {runId : Int} (hids : db'.ids = db.ids) (hseq : db'.sequence = db.sequence)
      (hsamples : db'.samples = db.samples)
      (hcount : ∀ id : Nat, db'.sampleCount id
        = if (id : Int) = runId && db.hasRun runId then db.sampleCount id + 1
          else db.sampleCount id) : Change db db' (.countSample runId)
  | deleted {runId : Int} (hids : db'.ids = db.ids.filter fun (id : Nat) => (id : Int) ≠ runId)
      (hseq : db'.sequence = db.sequence)
      (hsamples : db'.samples = db.samples.filter fun r => r.runId ≠ runId)
      (hcount : db'.sampleCount = db.sampleCount) : Change db db' (.deleteRun runId)

/-- The tables of the current schema are there. -/
def Current (db : Database ρ) : Prop :=
  db.store.schemaMeta = some (some schemaVersion) ∧ db.store.runs.isSome = true
    ∧ db.store.samples = true

theorem map_id_update (rows : List Run) (f : Run → Run) (hf : ∀ r, (f r).id = r.id) :
    (rows.map f).map Run.id = rows.map Run.id := by
  rw [List.map_map]
  exact List.map_congr_left fun r _ => hf r

theorem endRow_id (now : Int) (r : Run) : (endRow now r).id = r.id := by
  rw [endRow]
  split <;> rfl

/-- An `UPDATE` of the rows, or no change, keeps the ids. -/
theorem Change.of_rows {db : Database ρ} {store : Store} {st : DbStmt ρ} {t t' : RunsTable}
    (happ : st.appends = false) (ht : db.store.runs = some t) (ht' : store.runs = some t')
    (hrows : t'.rows.map Run.id = t.rows.map Run.id) (hseq : t'.sequence = t.sequence) :
    Change db { db with store := store } st := by
  refine .same happ ?_ ?_ rfl rfl
  · rw [Database.ids, Database.ids, Database.runs, Database.runs, ht, ht']
    exact hrows
  · rw [Database.sequence, Database.sequence, ht, ht']
    exact hseq

/-- A statement on `runs` under the current schema. -/
theorem runs_change {db : Database ρ} (hcur : Current db) {st : Stmt} {store : Store}
    (hd : (DbStmt.runs st : DbStmt ρ).drops = false) (h : st.exec db.store = some store) :
    Current (db.after st store) ∧ Change db (db.after st store) (.runs st) := by
  obtain ⟨hver, hruns, hsam⟩ := hcur
  obtain ⟨t, ht⟩ := Option.isSome_iff_exists.mp hruns
  cases st with
  | dropSamples => cases hd
  | dropRuns => cases hd
  | dropSchemaMeta => cases hd
  | selectVersion =>
      cases h
      exact ⟨⟨hver, hruns, hsam⟩, .of_rows rfl ht ht rfl rfl⟩
  | createSchemaMeta =>
      cases h
      exact ⟨⟨by rw [hver]; rfl, hruns, hsam⟩, .of_rows rfl ht ht rfl rfl⟩
  | createRuns =>
      cases h
      exact ⟨⟨hver, rfl, hsam⟩, .of_rows rfl ht (by rw [ht]; rfl) rfl rfl⟩
  | createSamples =>
      cases h
      exact ⟨⟨hver, hruns, rfl⟩, .of_rows rfl ht ht rfl rfl⟩
  | createIndex =>
      rw [Stmt.exec, if_pos hsam] at h
      cases h
      exact ⟨⟨hver, hruns, hsam⟩, .of_rows rfl ht ht rfl rfl⟩
  | putVersion =>
      obtain ⟨_, _, rfl⟩ := Option.map_eq_some_iff.mp h
      exact ⟨⟨rfl, hruns, hsam⟩, .of_rows rfl ht ht rfl rfl⟩
  | endActive now =>
      obtain ⟨t', ht', rfl⟩ := Option.map_eq_some_iff.mp h
      rw [ht] at ht'
      cases ht'
      exact ⟨⟨hver, rfl, hsam⟩,
        .of_rows rfl ht rfl (map_id_update t.rows _ (endRow_id now)) rfl⟩
  | endOne now runId =>
      obtain ⟨t', ht', rfl⟩ := Option.map_eq_some_iff.mp h
      rw [ht] at ht'
      cases ht'
      refine ⟨⟨hver, rfl, hsam⟩, .of_rows rfl ht rfl (map_id_update t.rows _ ?_) rfl⟩
      intro r
      split
      · exact endRow_id now r
      · rfl
  | insertRun name now notes =>
      obtain ⟨t', ht', rfl⟩ := Option.map_eq_some_iff.mp h
      rw [ht] at ht'
      cases ht'
      have hseq : db.sequence = t.sequence := by rw [Database.sequence, ht]
      refine ⟨⟨hver, rfl, hsam⟩, .newRun ?_ ?_ rfl fun _ => ?_⟩
      · simp only [Database.ids, Database.runs, Database.after, ht, hseq, List.map_append,
          List.map_singleton]
      · rw [hseq]
        rfl
      · rfl

/-- **Every statement** but a `DROP` changes the database in one of these ways. -/
theorem exec_change {db db' : Database ρ} (hs : Sound db) {st : DbStmt ρ}
    (hd : st.drops = false) (h : st.exec db = .done db') : Current db' ∧ Change db db' st := by
  have hcur : Current db := ⟨hs.version, hs.runsTable, hs.samplesTable⟩
  obtain ⟨t, ht⟩ := Option.isSome_iff_exists.mp hs.runsTable
  cases st with
  | runs st =>
      rw [DbStmt.exec] at h
      split at h
      · rename_i store hx
        cases h
        exact runs_change hcur hd hx
      · cases h
  | select =>
      cases h
      exact ⟨hcur, .same rfl rfl rfl rfl rfl⟩
  | insertSample r =>
      rw [DbStmt.exec, hs.runsTable, hs.samplesTable, Bool.and_self, if_pos rfl] at h
      split at h
      · cases h
      · rename_i hkey
        split at h
        · rename_i hrun
          cases h
          exact ⟨hcur, .inserted (mt hasKey_iff.mpr hkey) hrun rfl rfl rfl rfl⟩
        · cases h
  | countSample runId =>
      rw [DbStmt.exec, hs.runsTable, if_pos rfl] at h
      cases h
      exact ⟨hcur, .counted rfl rfl rfl fun _ => rfl⟩
  | deleteRun runId =>
      simp only [DbStmt.exec, ht] at h
      split at h
      · cases h
        refine ⟨⟨hs.version, rfl, hs.samplesTable⟩, .deleted ?_ ?_ rfl rfl⟩
        · simp only [Database.ids, Database.runs, Database.delete, ht, List.filter_map]
          rfl
        · simp only [Database.sequence, Database.delete, ht]
      · cases h
        exact ⟨hcur, .same rfl rfl rfl rfl rfl⟩

/-- Under the current schema no statement fails on its own. -/
theorem exec_ne_operationalError {db : Database ρ} (hs : Sound db) {st : DbStmt ρ} :
    st.exec db ≠ .operationalError := by
  obtain ⟨t, ht⟩ := Option.isSome_iff_exists.mp hs.runsTable
  intro h
  cases st with
  | runs st =>
      have hsome : ∃ store, st.exec db.store = some store := by
        cases st <;> simp [Stmt.exec, hs.version, hs.samplesTable, ht]
      obtain ⟨store, hx⟩ := hsome
      rw [DbStmt.exec, hx] at h
      cases h
  | select => cases h
  | insertSample r =>
      rw [DbStmt.exec, hs.runsTable, hs.samplesTable, Bool.and_self, if_pos rfl] at h
      split at h
      · cases h
      · split at h <;> cases h
  | countSample runId =>
      rw [DbStmt.exec, hs.runsTable, if_pos rfl] at h
      cases h
  | deleteRun runId =>
      simp only [DbStmt.exec, ht] at h
      split at h <;> cases h

/-- The constraints hold after every change. -/
theorem Change.sound {db db' : Database ρ} {st : DbStmt ρ} (hs : Sound db)
    (hcur : Current db') (h : Change db db' st) : Sound db' := by
  obtain ⟨hver, hruns, hsam⟩ := hcur
  cases h with
  | same happ hids hseq hsamples hcount =>
      refine ⟨hver, hruns, hsam, ?_, ?_, ?_, ?_⟩
      · rw [hids]; exact hs.idsNodup
      · rw [hids, hseq]; exact hs.idsLe
      · rw [hsamples]; exact hs.keys
      · intro r hr
        rw [hsamples] at hr
        rw [hasRun_congr hids]
        exact hs.refs r hr
  | newRun hids hseq hsamples hcount =>
      refine ⟨hver, hruns, hsam, ?_, ?_, ?_, ?_⟩
      · rw [hids, List.nodup_append]
        refine ⟨hs.idsNodup, List.nodup_singleton _, ?_⟩
        intro id hid id' hid'
        rw [List.mem_singleton] at hid'
        have hle := hs.idsLe id hid
        omega
      · intro id hid
        rw [hids, List.mem_append, List.mem_singleton] at hid
        rw [hseq]
        rcases hid with hid | rfl
        · exact Nat.le_succ_of_le (hs.idsLe id hid)
        · exact Nat.le_refl _
      · rw [hsamples]; exact hs.keys
      · intro r hr
        rw [hsamples] at hr
        obtain ⟨id, hid, heq⟩ := hasRun_iff.mp (hs.refs r hr)
        refine hasRun_iff.mpr ⟨id, ?_, heq⟩
        rw [hids]
        exact List.mem_append_left _ hid
  | @inserted r hkey hrun hids hseq hsamples hcount =>
      refine ⟨hver, hruns, hsam, ?_, ?_, ?_, ?_⟩
      · rw [hids]; exact hs.idsNodup
      · rw [hids, hseq]; exact hs.idsLe
      · rw [hsamples, List.map_append, List.map_singleton, List.nodup_append]
        refine ⟨hs.keys, List.nodup_singleton _, ?_⟩
        intro key hmem key' hmem' heq
        rw [heq, List.mem_singleton.mp hmem'] at hmem
        exact hkey hmem
      · intro r' hr'
        rw [hsamples, List.mem_append, List.mem_singleton] at hr'
        rw [hasRun_congr hids]
        rcases hr' with hr' | rfl
        · exact hs.refs r' hr'
        · exact hrun
  | counted hids hseq hsamples hcount =>
      refine ⟨hver, hruns, hsam, ?_, ?_, ?_, ?_⟩
      · rw [hids]; exact hs.idsNodup
      · rw [hids, hseq]; exact hs.idsLe
      · rw [hsamples]; exact hs.keys
      · intro r hr
        rw [hsamples] at hr
        rw [hasRun_congr hids]
        exact hs.refs r hr
  | @deleted runId hids hseq hsamples hcount =>
      refine ⟨hver, hruns, hsam, ?_, ?_, ?_, ?_⟩
      · rw [hids]
        exact hs.idsNodup.sublist List.filter_sublist
      · intro id hid
        rw [hids] at hid
        rw [hseq]
        exact hs.idsLe id (List.mem_filter.mp hid).1
      · rw [hsamples]
        exact hs.keys.sublist (List.filter_sublist.map Sample.key)
      · -- a sample that is left belongs to a run that is left
        intro r hr
        rw [hsamples] at hr
        obtain ⟨hmem, hne⟩ := List.mem_filter.mp hr
        obtain ⟨id, hid, heq⟩ := hasRun_iff.mp (hs.refs r hmem)
        refine hasRun_iff.mpr ⟨id, ?_, heq⟩
        rw [hids, List.mem_filter, heq]
        exact ⟨hid, hne⟩

/-! ## What a worker has left to do -/

/-- What follows a statement in a call: the `UPDATE` of the count comes right after
    the `INSERT` it counts, and last. -/
def DbStmt.leadsTo : DbStmt ρ → List (DbStmt ρ) → Prop
  | .insertSample r, rest => rest = [.countSample r.runId]
  | .countSample _, rest => rest = []
  | _, rest => counting rest = none

def CountsLast : List (DbStmt ρ) → Prop
  | [] => True
  | st :: rest => st.leadsTo rest ∧ CountsLast rest

theorem counting_cons {st : DbStmt ρ} (h : st.appends = false) (rest : List (DbStmt ρ)) :
    counting (st :: rest) = none := by
  cases st <;> first | rfl | cases h

theorem leadsTo_iff {st : DbStmt ρ} (h : st.appends = false) (rest : List (DbStmt ρ)) :
    st.leadsTo rest ↔ counting rest = none := by
  cases st <;> first | exact Iff.rfl | cases h

/-- Statements on `runs` before the others. -/
theorem countsLast_runs (rest : List (DbStmt ρ)) (hrest : CountsLast rest)
    (hn : counting rest = none) (l : List Stmt) :
    CountsLast (l.map .runs ++ rest) ∧ counting (l.map .runs ++ rest) = none := by
  induction l with
  | nil => exact ⟨hrest, hn⟩
  | cons st l ih => exact ⟨⟨ih.2, ih.1⟩, rfl⟩

theorem countsLast_selects (n : Nat) :
    CountsLast (List.replicate n (.select : DbStmt ρ))
      ∧ counting (List.replicate n (.select : DbStmt ρ)) = none := by
  induction n with
  | zero => exact ⟨trivial, rfl⟩
  | succ n ih => exact ⟨⟨ih.2, ih.1⟩, rfl⟩

theorem statements_countsLast (call : Call ρ) :
    CountsLast (statements call) ∧ counting (statements call) = none := by
  have hruns : ∀ l : List Stmt, CountsLast (l.map (.runs : Stmt → DbStmt ρ))
      ∧ counting (l.map (.runs : Stmt → DbStmt ρ)) = none := by
    intro l
    have h := countsLast_runs ([] : List (DbStmt ρ)) trivial rfl l
    rw [List.append_nil] at h
    exact h
  cases call with
  | createRun name now notes => exact hruns _
  | endRun now runId => exact hruns _
  | endActiveRuns now => exact hruns _
  | deleteRun runId => exact countsLast_runs [.deleteRun runId] ⟨rfl, trivial⟩ rfl _
  | appendSample r =>
      exact countsLast_runs [.insertSample r, .countSample r.runId] ⟨rfl, rfl, trivial⟩ rfl _
  | read selects =>
      obtain ⟨h1, h2⟩ := countsLast_selects (ρ := ρ) selects
      exact countsLast_runs _ h1 h2 _

/-- No call starts with a `DROP` in it. -/
theorem statements_drops (call : Call ρ) : ∀ st ∈ statements call, st.drops = false := by
  intro st hst
  cases call <;>
    simp [statements, FsoRunStore.createRun, FsoRunStore.endRun, endActiveRuns, deleteRun,
      appendSample, ensureSchema, List.mem_replicate] at hst
  all_goals grind [DbStmt.drops]

/-! ## Steps -/

/-- **What an action does.** -/
theorem step_cases {s s' : System ρ} {a : Action ρ} (h : step s a = some s') :
    (∃ call, a = .spawn call ∧ s' = { s with workers := s.workers ++ [⟨statements call, none⟩] })
      ∨ (∃ (i : Nat) (st : DbStmt ρ) (rest : List (DbStmt ρ)) (r : Option Answer)
            (db : Database ρ),
          a = .statement i ∧ s.workers[i]? = some ⟨st :: rest, r⟩ ∧ st.exec s.db = .done db
            ∧ s' = ⟨db, s.workers.set i ⟨st.followUp s.db ++ rest, st.answer s.db⟩⟩)
      ∨ (∃ (i : Nat) (st : DbStmt ρ) (rest : List (DbStmt ρ)) (r : Option Answer),
          a = .statement i ∧ s.workers[i]? = some ⟨st :: rest, r⟩
            ∧ st.exec s.db = .operationalError
            ∧ s' = { s with workers := s.workers.set i ⟨onError st rest, none⟩ })
      ∨ (∃ (i : Nat) (st : DbStmt ρ) (rest : List (DbStmt ρ)) (r : Option Answer),
          a = .statement i ∧ s.workers[i]? = some ⟨st :: rest, r⟩
            ∧ st.exec s.db = .integrityError
            ∧ s' = { s with workers := s.workers.set i ⟨[], none⟩ })
      ∨ ∃ (i : Nat) (st : DbStmt ρ) (rest : List (DbStmt ρ)) (r : Option Answer),
          a = .locked i ∧ s.workers[i]? = some ⟨st :: rest, r⟩
            ∧ s' = { s with workers := s.workers.set i ⟨onError st rest, none⟩ } := by
  cases a with
  | spawn call =>
      rw [step, Option.some.injEq] at h
      exact .inl ⟨call, rfl, h.symm⟩
  | statement i =>
      obtain ⟨st, rest, r, hw, ⟨db, hx, hs⟩ | ⟨hx, hs⟩ | ⟨hx, hs⟩⟩ := statement_cases h
      · exact .inr (.inl ⟨i, st, rest, r, db, rfl, hw, hx, hs⟩)
      · exact .inr (.inr (.inl ⟨i, st, rest, r, rfl, hw, hx, hs⟩))
      · exact .inr (.inr (.inr (.inl ⟨i, st, rest, r, rfl, hw, hx, hs⟩)))
  | locked i =>
      obtain ⟨st, rest, r, hw, hs⟩ := locked_cases h
      exact .inr (.inr (.inr (.inr ⟨i, st, rest, r, rfl, hw, hs⟩)))

/-- The statement about to be executed counts or does not. -/
def waits (todo : List (DbStmt ρ)) (runId : Int) : Nat :=
  if counting todo = some runId then 1 else 0

theorem pending_set {s : System ρ} {i : Nat} {w : Worker ρ} (hw : s.workers[i]? = some w)
    (db : Database ρ) (v : Worker ρ) (runId : Int) :
    pending ⟨db, s.workers.set i v⟩ runId + waits w.todo runId
      = pending s runId + waits v.todo runId := by
  have hset := Tally.countP_set (fun w : Worker ρ => decide (counting w.todo = some runId)) hw v
  simp only [waits]
  rw [pending, pending]
  by_cases h1 : counting w.todo = some runId <;> by_cases h2 : counting v.todo = some runId <;>
    simp_all

theorem pending_spawn (s : System ρ) (call : Call ρ) (runId : Int) :
    pending { s with workers := s.workers ++ [⟨statements call, none⟩] } runId
      = pending s runId := by
  rw [pending, pending, List.countP_append, List.countP_singleton,
    (statements_countsLast call).2, if_neg (by simp), Nat.add_zero]

/-! ## The invariant -/

/-- The statements that workers have left do not drop a table, and count last. -/
structure Orderly (todo : List (DbStmt ρ)) : Prop where
  drops : ∀ st ∈ todo, st.drops = false
  countsLast : CountsLast todo

/-- **The invariant.**  `gone` are the counts that found the database locked. -/
structure Ledger (gone : Int → Nat) (s : System ρ) : Prop where
  sound : Sound s.db
  workers : ∀ w ∈ s.workers, Orderly w.todo
  pendingKnown : ∀ id : Nat, s.db.sequence < id → pending s id = 0
  goneKnown : ∀ id : Nat, s.db.sequence < id → gone id = 0
  balance : ∀ id ∈ s.db.ids,
    s.db.sampleCount id + pending s id + gone id = s.db.countSamples id

theorem orderly_nil : Orderly ([] : List (DbStmt ρ)) :=
  ⟨fun _ h => absurd h List.not_mem_nil, trivial⟩

theorem Orderly.tail {st : DbStmt ρ} {rest : List (DbStmt ρ)} (h : Orderly (st :: rest)) :
    Orderly rest :=
  ⟨fun st' hst => h.drops st' (List.mem_cons_of_mem _ hst), h.countsLast.2⟩

/-- Under the current schema the version check drops nothing. -/
theorem followUp_eq_nil {db : Database ρ} (hs : Sound db) (st : DbStmt ρ) :
    st.followUp db = [] := by
  cases st with
  | runs st =>
      rw [DbStmt.followUp, List.map_eq_nil_iff]
      cases st with
      | selectVersion =>
          rw [Stmt.followUp, hs.version]
          rfl
      | _ => rfl
  | _ => rfl

theorem onError_eq {st : DbStmt ρ} (h : st.isVersionCheck = false) (rest : List (DbStmt ρ)) :
    onError st rest = [] := by
  cases st with
  | runs st => cases st <;> first | rfl | cases h
  | _ => rfl

theorem waits_of_none {todo : List (DbStmt ρ)} (h : counting todo = none) (runId : Int) :
    waits todo runId = 0 := by
  rw [waits, h, if_neg (Option.some_ne_none runId).symm]

theorem waits_of_some {todo : List (DbStmt ρ)} {i : Int} (h : counting todo = some i)
    (runId : Int) : waits todo runId = if i = runId then 1 else 0 := by
  simp only [waits, h, Option.some_inj]

/-- A worker that gives up takes its count with it. -/
theorem Ledger.giveUp {gone gone' : Int → Nat} {s : System ρ} (h : Ledger gone s) {i : Nat}
    {w : Worker ρ} (hw : s.workers[i]? = some w)
    (hgone : ∀ runId, gone' runId = gone runId + waits w.todo runId) :
    Ledger gone' { s with workers := s.workers.set i ⟨[], none⟩ } := by
  have hset : ∀ runId, pending { s with workers := s.workers.set i ⟨[], none⟩ } runId
      + waits w.todo runId = pending s runId := fun runId => pending_set hw s.db ⟨[], none⟩ runId
  refine ⟨h.sound, forall_set h.workers orderly_nil, ?_, ?_, ?_⟩
  · intro id hid
    have := hset id
    have := h.pendingKnown id hid
    omega
  · intro id hid
    have := hset id
    have := h.pendingKnown id hid
    rw [hgone, h.goneKnown id hid]
    omega
  · intro id hid
    have hthis := hset id
    have hbal := h.balance id hid
    simp only [hgone]
    omega

/-- A worker that executes a statement. -/
theorem Ledger.execute {gone : Int → Nat} {s : System ρ} (h : Ledger gone s) {i : Nat}
    {st : DbStmt ρ} {rest : List (DbStmt ρ)} {r : Option Answer}
    (hw : s.workers[i]? = some ⟨st :: rest, r⟩) {db : Database ρ} (hx : st.exec s.db = .done db)
    (answer : Option Answer) :
    Ledger gone ⟨db, s.workers.set i ⟨rest, answer⟩⟩ := by
  have horder := h.workers _ (List.mem_of_getElem? hw)
  obtain ⟨hcur, hchange⟩ := exec_change h.sound (horder.drops st List.mem_cons_self) hx
  have hsound := hchange.sound h.sound hcur
  have hworkers := forall_set (i := i) (v := ⟨rest, answer⟩) h.workers horder.tail
  have hset : ∀ runId, pending ⟨db, s.workers.set i ⟨rest, answer⟩⟩ runId
      + waits (st :: rest) runId = pending s runId + waits rest runId :=
    fun runId => pending_set hw db ⟨rest, answer⟩ runId
  have hleads := horder.countsLast.1
  cases hchange with
  | same happ hids hseq hsamples hcount =>
      have hst := waits_of_none (counting_cons happ rest)
      have hrest := waits_of_none ((leadsTo_iff happ rest).mp hleads)
      have hpend : ∀ runId, pending ⟨db, s.workers.set i ⟨rest, answer⟩⟩ runId
          = pending s runId := by
        intro runId
        have := hset runId
        rw [hst, hrest] at this
        omega
      refine ⟨hsound, hworkers, ?_, ?_, ?_⟩
      · intro id hid
        rw [hpend]
        exact h.pendingKnown id (hseq ▸ hid)
      · intro id hid
        exact h.goneKnown id (hseq ▸ hid)
      · intro id hid
        have hbal := h.balance id (hids ▸ hid)
        rw [hpend, Database.countSamples, hsamples, hcount]
        exact hbal
  | @newRun name now notes hids hseq hsamples hcount =>
      have hst : ∀ id, waits (.runs (.insertRun name now notes) :: rest) id = 0 :=
        waits_of_none rfl
      have hrest := waits_of_none hleads
      have hpend : ∀ runId, pending ⟨db, s.workers.set i ⟨rest, answer⟩⟩ runId
          = pending s runId := by
        intro runId
        have := hset runId
        rw [hst, hrest] at this
        omega
      refine ⟨hsound, hworkers, ?_, ?_, ?_⟩
      · intro id hid
        rw [hpend]
        rw [hseq] at hid
        exact h.pendingKnown id (Nat.lt_of_succ_lt hid)
      · intro id hid
        rw [hseq] at hid
        exact h.goneKnown id (Nat.lt_of_succ_lt hid)
      · intro id hid
        rw [hpend, Database.countSamples, hsamples, hcount]
        rw [hids, List.mem_append, List.mem_singleton] at hid
        rcases hid with hid | rfl
        · have hle := h.sound.idsLe id hid
          rw [if_neg (Nat.ne_of_lt (Nat.lt_succ_of_le hle))]
          exact h.balance id hid
        · -- of the new run nothing is stored, counted or pending
          have hnew : s.db.sequence < s.db.sequence + 1 := Nat.lt_succ_self _
          rw [if_pos rfl, h.pendingKnown _ hnew, h.goneKnown _ hnew]
          exact (h.sound.countSamples_eq_zero (h.sound.hasRun_above hnew)).symm
  | @inserted r' hkey hrun hids hseq hsamples hcount =>
      have hst : ∀ id, waits (.insertSample r' :: rest) id = 0 := waits_of_none rfl
      have hcounting : counting rest = some r'.runId := by
        rw [hleads]
        rfl
      have hrest := waits_of_some hcounting
      refine ⟨hsound, hworkers, ?_, ?_, ?_⟩
      · intro id hid
        rw [hseq] at hid
        have hne : r'.runId ≠ (id : Int) := by
          intro heq
          rw [heq, h.sound.hasRun_above hid] at hrun
          exact Bool.false_ne_true hrun
        have hthis := hset id
        rw [hst, hrest, if_neg hne, h.pendingKnown id hid] at hthis
        omega
      · intro id hid
        exact h.goneKnown id (hseq ▸ hid)
      · intro id hid
        have hbal := h.balance id (hids ▸ hid)
        have hthis := hset id
        rw [hst, hrest] at hthis
        rw [Database.countSamples, hsamples, List.countP_append, List.countP_singleton, hcount]
        rw [Database.countSamples] at hbal
        simp only [decide_eq_true_eq]
        omega
  | @counted runId hids hseq hsamples hcount =>
      have hnil : rest = [] := hleads
      have hcounting : counting (.countSample runId :: rest) = some runId := by
        rw [hnil]
        rfl
      have hst := waits_of_some hcounting
      have hrest : ∀ id, waits rest id = 0 := by
        intro id
        rw [hnil]
        rfl
      refine ⟨hsound, hworkers, ?_, ?_, ?_⟩
      · intro id hid
        have hthis := hset id
        rw [hrest, h.pendingKnown id (hseq ▸ hid)] at hthis
        omega
      · intro id hid
        exact h.goneKnown id (hseq ▸ hid)
      · intro id hid
        rw [hids] at hid
        have hbal := h.balance id hid
        have hthis := hset id
        rw [hst, hrest] at hthis
        rw [Database.countSamples, hsamples, hcount]
        rw [Database.countSamples] at hbal
        by_cases heq : runId = (id : Int)
        · subst heq
          rw [if_pos rfl] at hthis
          rw [hasRun_natCast.mpr hid, decide_eq_true rfl, Bool.and_self, if_pos rfl]
          omega
        · rw [if_neg heq] at hthis
          simp only [Ne.symm heq, decide_false, Bool.false_and, Bool.false_eq_true, if_false]
          omega
  | @deleted runId hids hseq hsamples hcount =>
      have hst : ∀ id, waits (.deleteRun runId :: rest) id = 0 := waits_of_none rfl
      have hrest : ∀ id, waits rest id = 0 := waits_of_none hleads
      have hpend : ∀ id, pending ⟨db, s.workers.set i ⟨rest, answer⟩⟩ id = pending s id := by
        intro id
        have := hset id
        rw [hst, hrest] at this
        omega
      refine ⟨hsound, hworkers, ?_, ?_, ?_⟩
      · intro id hid
        rw [hpend]
        exact h.pendingKnown id (hseq ▸ hid)
      · intro id hid
        exact h.goneKnown id (hseq ▸ hid)
      · -- of the runs that are left no sample is gone
        intro id hid
        rw [hids] at hid
        obtain ⟨hmem, hne⟩ := List.mem_filter.mp hid
        have hbal := h.balance id hmem
        rw [hpend, Database.countSamples, hsamples, hcount, List.countP_filter]
        rw [Database.countSamples] at hbal
        rw [hbal]
        refine List.countP_congr ?_
        intro r' _
        have hne := of_decide_eq_true hne
        simp only [decide_eq_true_eq, Bool.and_eq_true]
        constructor
        · intro heq
          exact ⟨heq, by rw [heq]; exact hne⟩
        · exact And.left

/-- **A step** keeps the invariant. -/
theorem Ledger.after_step {gone : Int → Nat} {s s' : System ρ} {a : Action ρ} (h : Ledger gone s)
    (hread : VersionRead s a) (hstep : step s a = some s') :
    Ledger (fun runId => gone runId + (losesCount s runId a).toNat) s' := by
  rcases step_cases hstep with ⟨call, rfl, rfl⟩ | ⟨i, st, rest, r, db, rfl, hw, hx, rfl⟩
    | ⟨i, st, rest, r, rfl, hw, hx, rfl⟩ | ⟨i, st, rest, r, rfl, hw, hx, rfl⟩
    | ⟨i, st, rest, r, rfl, hw, rfl⟩
  · refine ⟨h.sound, ?_, ?_, h.goneKnown, ?_⟩
    · intro w hw
      rcases List.mem_append.mp hw with hw | hw
      · exact h.workers w hw
      · rw [List.mem_singleton.mp hw]
        exact ⟨statements_drops call, (statements_countsLast call).1⟩
    · intro id hid
      rw [pending_spawn]
      exact h.pendingKnown id hid
    · intro id hid
      rw [pending_spawn]
      exact h.balance id hid
  · rw [followUp_eq_nil h.sound]
    exact h.execute hw hx _
  · exact absurd hx (exec_ne_operationalError h.sound)
  · -- only an `INSERT` of a sample violates a constraint
    refine h.giveUp hw fun runId => ?_
    rw [waits_of_none]
    · rfl
    · cases st with
      | countSample runId' =>
          rw [DbStmt.exec, h.sound.runsTable, if_pos rfl] at hx
          cases hx
      | _ => rfl
  · have hver : st.isVersionCheck = false := by
      rw [VersionRead, nextStatement_of hw] at hread
      exact hread
    rw [onError_eq hver]
    refine h.giveUp hw fun runId => ?_
    rw [losesCount, hw, Option.bind_some, waits]
    by_cases hc : counting (st :: rest) = some runId
    · rw [decide_eq_true hc, if_pos hc]
      rfl
    · rw [decide_eq_false hc, if_neg hc]
      rfl

theorem Ledger.after_run {gone : Int → Nat} {s s' : System ρ} {as : List (Action ρ)}
    (h : Ledger gone s) (hread : Along step VersionRead s as)
    (hrun : run step s as = some s') :
    Ledger (fun runId => gone runId + lost runId s as) s' := by
  induction as generalizing gone s with
  | nil =>
      rw [← Option.some.inj hrun]
      exact h
  | cons a as ih =>
      obtain ⟨t, ht, hrest⟩ := run_cons.mp hrun
      have hlast := ih (h.after_step hread.1 ht) (hread.2 t ht) hrest
      simp only [lost, ht, Option.elim_some, ← Nat.add_assoc]
      exact hlast

/-- A database that no request is working on. -/
structure Settled (db : Database ρ) : Prop where
  sound : Sound db
  counted : ∀ id ∈ db.ids, db.sampleCount id = db.countSamples id

theorem Settled.ledger {db : Database ρ} (h : Settled db) : Ledger (fun _ => 0) (start db) where
  sound := h.sound
  workers := fun _ hw => absurd hw List.not_mem_nil
  pendingKnown := fun _ _ => rfl
  goneKnown := fun _ _ => rfl
  balance := h.counted

/-- **The column `sample_count`**, for any schedule of any calls: the samples of a
    run are those it has counted, those that a worker is still to count, and those
    whose `UPDATE` found the database locked.  Ids and keys stay unique, and each
    sample has its run. -/
theorem sampleCount_ledger {db : Database ρ} (hdb : Settled db) {schedule : List (Action ρ)}
    (hread : Along step VersionRead (start db) schedule) {s : System ρ}
    (hrun : run step (start db) schedule = some s) :
    Sound s.db ∧ ∀ id ∈ s.db.ids,
      s.db.countSamples id
        = s.db.sampleCount id + pending s id + lost id (start db) schedule := by
  have h := hdb.ledger.after_run hread hrun
  refine ⟨h.sound, ?_⟩
  intro id hid
  have hbal := h.balance id hid
  rw [Nat.zero_add] at hbal
  exact hbal.symm

/-- A run, two samples, and the `UPDATE` of the first one finds the database
    locked. -/
def twoSamples : List (Action Unit) :=
  .spawn (.createRun "session" 0 none) :: List.replicate 8 (.statement 0)
    ++ [.spawn (.appendSample (FsoRunStore.sampleAt 1000)),
        .spawn (.appendSample (FsoRunStore.sampleAt 2000))]
    ++ List.replicate 7 (.statement 1) ++ List.replicate 7 (.statement 2) ++ [.locked 1]

/-- No runs yet. -/
def freshDatabase : Database Unit := ⟨FsoRunStore.freshStore, fun _ => 0, []⟩

theorem freshDatabase_settled : Settled freshDatabase where
  sound := by
    refine ⟨rfl, rfl, rfl, List.nodup_nil, ?_, List.nodup_nil, ?_⟩
    · intro id hid
      exact absurd hid List.not_mem_nil
    · intro r hr
      exact absurd hr List.not_mem_nil
  counted := by
    intro id hid
    exact absurd hid List.not_mem_nil

theorem twoSamples_run :
    (run step (start freshDatabase) twoSamples).any (fun s =>
      s.db.ids == [1] && s.db.countSamples 1 == 2 && s.db.sampleCount 1 == 0
        && pending s 1 == 1) = true := by
  decide

theorem sampleCount_ledger_twoSamples :
    ∃ s, run step (start freshDatabase) twoSamples = some s
      ∧ lost 1 (start freshDatabase) twoSamples = 1
      ∧ s.db.countSamples 1 = 2 ∧ s.db.sampleCount 1 = 0 ∧ pending s 1 = 1
      ∧ (Sound s.db ∧ ∀ id ∈ s.db.ids, s.db.countSamples id
          = s.db.sampleCount id + pending s id + lost id (start freshDatabase) twoSamples) := by
  obtain ⟨s, hs, hend⟩ := (Option.any_eq_true _ _).mp twoSamples_run
  rw [Bool.and_eq_true, Bool.and_eq_true, Bool.and_eq_true, beq_iff_eq, beq_iff_eq, beq_iff_eq,
    beq_iff_eq] at hend
  obtain ⟨⟨⟨_, hsamples⟩, hcount⟩, hpending⟩ := hend
  exact ⟨s, hs, by decide, hsamples, hcount, hpending,
    sampleCount_ledger freshDatabase_settled (by decide) hs⟩

/-! ## What becomes of a sample -/

/-- The samples of a run, in the order in which they were stored. -/
def Database.samplesOf (db : Database ρ) (runId : Int) : List (Sample ρ) :=
  db.samples.filter fun r => r.runId = runId

/-- The statement to be executed does not delete the run. -/
def KeepsRun (runId : Int) (s : System ρ) : Action ρ → Prop
  | .statement i => ∀ id, nextStatement s i = some (.deleteRun id) → id ≠ runId
  | _ => True

/-- A step leaves the database as it is, or executes a statement on it. -/
theorem Ledger.step_change {gone : Int → Nat} {s s' : System ρ} {a : Action ρ}
    (h : Ledger gone s) (hstep : step s a = some s') :
    s'.db = s.db
      ∨ ∃ i st, a = .statement i ∧ nextStatement s i = some st ∧ Change s.db s'.db st := by
  rcases step_cases hstep with ⟨call, rfl, rfl⟩ | ⟨i, st, rest, r, db, rfl, hw, hx, rfl⟩
    | ⟨i, st, rest, r, rfl, hw, hx, rfl⟩ | ⟨i, st, rest, r, rfl, hw, hx, rfl⟩
    | ⟨i, st, rest, r, rfl, hw, rfl⟩
  · exact .inl rfl
  · have horder := h.workers _ (List.mem_of_getElem? hw)
    refine .inr ⟨i, st, rfl, nextStatement_of hw, ?_⟩
    exact (exec_change h.sound (horder.drops st List.mem_cons_self) hx).2
  · exact .inl rfl
  · exact .inl rfl
  · exact .inl rfl

/-- Only its own `DELETE` takes samples of a run away. -/
theorem Change.samplesOf {db db' : Database ρ} {st : DbStmt ρ} (h : Change db db' st)
    {runId : Int} (hkeep : ∀ id, st = .deleteRun id → id ≠ runId) :
    db.samplesOf runId <+: db'.samplesOf runId := by
  have hsame : db'.samples = db.samples → db.samplesOf runId <+: db'.samplesOf runId :=
    fun hsamples => ⟨[], by rw [List.append_nil, Database.samplesOf, Database.samplesOf, hsamples]⟩
  cases h with
  | same _ _ _ hsamples _ => exact hsame hsamples
  | newRun _ _ hsamples _ => exact hsame hsamples
  | @inserted r _ _ _ _ hsamples _ =>
      refine ⟨[r].filter fun r => r.runId = runId, ?_⟩
      rw [Database.samplesOf, Database.samplesOf, hsamples, List.filter_append]
  | counted _ _ hsamples _ => exact hsame hsamples
  | @deleted id _ _ hsamples _ =>
      have hother : (db.samples.filter fun r => r.runId ≠ id).filter (fun r => r.runId = runId)
          = db.samples.filter fun r => r.runId = runId := by
        rw [List.filter_filter]
        refine List.filter_congr ?_
        intro r _
        by_cases hr : r.runId = runId
        · simp [hr, Ne.symm (hkeep id rfl)]
        · simp [hr]
      exact ⟨[], by rw [List.append_nil, Database.samplesOf, Database.samplesOf, hsamples, hother]⟩

/-- An id that was given out and is gone is not given out again. -/
theorem Change.gone {db db' : Database ρ} {st : DbStmt ρ} (h : Change db db' st) {id : Nat}
    (hle : id ≤ db.sequence) (hid : id ∉ db.ids) : id ≤ db'.sequence ∧ id ∉ db'.ids := by
  cases h with
  | newRun hids hseq _ _ =>
      rw [hids, hseq, List.mem_append, List.mem_singleton]
      refine ⟨Nat.le_succ_of_le hle, ?_⟩
      rintro (h | rfl)
      · exact hid h
      · exact Nat.not_succ_le_self _ hle
  | deleted hids hseq _ _ =>
      rw [hids, hseq]
      exact ⟨hle, fun h => hid (List.mem_filter.mp h).1⟩
  | same _ hids hseq _ _ => rw [hids, hseq]; exact ⟨hle, hid⟩
  | inserted _ _ hids hseq _ _ => rw [hids, hseq]; exact ⟨hle, hid⟩
  | counted hids hseq _ _ => rw [hids, hseq]; exact ⟨hle, hid⟩

/-- **The samples of a run** only grow, in every interleaving, until a `DELETE` of
    that run is executed. -/
theorem samples_kept {db : Database ρ} (hdb : Settled db) {as bs : List (Action ρ)}
    (hread : Along step VersionRead (start db) (as ++ bs)) {s s' : System ρ}
    (hs : run step (start db) as = some s) (hs' : run step s bs = some s') {runId : Int}
    (hkeep : Along step (KeepsRun runId) s bs) :
    s.db.samplesOf runId <+: s'.db.samplesOf runId := by
  have hbefore := hdb.ledger.after_run (hread.of_prefix (List.prefix_append as bs)) hs
  have hone : ∀ t a t',
      ((∃ gone, Ledger gone t) ∧ s.db.samplesOf runId <+: t.db.samplesOf runId) →
      (VersionRead t a ∧ KeepsRun runId t a) → step t a = some t' →
      (∃ gone, Ledger gone t') ∧ s.db.samplesOf runId <+: t'.db.samplesOf runId := by
    rintro t a t' ⟨⟨gone, ht⟩, hpre⟩ ⟨hver, hk⟩ hstep
    refine ⟨⟨_, ht.after_step hver hstep⟩, ?_⟩
    rcases ht.step_change hstep with hdb | ⟨i, st, rfl, hnext, hchange⟩
    · rw [hdb]
      exact hpre
    · refine List.IsPrefix.trans hpre (hchange.samplesOf ?_)
      intro id hst
      exact hk id (by rw [hnext, hst])
  exact (run_invariant hone ⟨⟨_, hbefore⟩, List.prefix_rfl⟩
    ((hread.of_append hs).and hkeep) hs').2

/-- A run and a sample of it; a second sample is on its way. -/
def oneSample : List (Action Unit) :=
  .spawn (.createRun "session" 0 none) :: List.replicate 8 (.statement 0)
    ++ .spawn (.appendSample (FsoRunStore.sampleAt 1000)) :: List.replicate 8 (.statement 1)
    ++ .spawn (.appendSample (FsoRunStore.sampleAt 2000)) :: List.replicate 6 (.statement 2)

/-- The second sample is stored while the run ends. -/
def endsRun : List (Action Unit) :=
  .spawn (.endRun 3000 1) :: List.replicate 6 (.statement 3) ++ [.statement 2, .statement 3]

theorem endsRun_run :
    ((run step (start freshDatabase) oneSample).bind fun s => run step s endsRun).isSome
      = true := by
  decide

instance (runId : Int) (s : System ρ) : (a : Action ρ) → Decidable (KeepsRun runId s a)
  | .spawn _ | .locked _ => .isTrue trivial
  | .statement i =>
    match h : nextStatement s i with
    | some (.deleteRun id) => decidable_of_iff (id ≠ runId) (by simp [KeepsRun, h])
    | some (.runs _) | some .select | some (.insertSample _) | some (.countSample _) | none =>
      .isTrue (by simp [KeepsRun, h])

theorem samples_kept_endsRun :
    ∃ s s', run step (start freshDatabase) oneSample = some s ∧ run step s endsRun = some s'
      ∧ s.db.samplesOf 1 <+: s'.db.samplesOf 1 := by
  obtain ⟨s', hs'⟩ := Option.isSome_iff_exists.mp endsRun_run
  obtain ⟨s, hs, hrest⟩ := Option.bind_eq_some_iff.mp hs'
  have hkeep : ∀ t ∈ run step (start freshDatabase) oneSample,
      Along step (KeepsRun 1) t endsRun := by decide
  exact ⟨s, s', hs, hrest,
    samples_kept freshDatabase_settled (by decide) hs hrest (hkeep s hs)⟩

/-- **A run that is gone stays so**: whatever is in flight, its id is not given out
    again and no sample is stored for it. -/
theorem deleted_stays {db : Database ρ} (hdb : Settled db) {as bs : List (Action ρ)}
    (hread : Along step VersionRead (start db) (as ++ bs)) {s s' : System ρ}
    (hs : run step (start db) as = some s) (hs' : run step s bs = some s') {id : Nat}
    (hle : id ≤ s.db.sequence) (hid : id ∉ s.db.ids) :
    id ∉ s'.db.ids ∧ s'.db.samplesOf id = [] := by
  have hbefore := hdb.ledger.after_run (hread.of_prefix (List.prefix_append as bs)) hs
  have hone : ∀ (t : System ρ) (a : Action ρ) (t' : System ρ),
      ((∃ gone, Ledger gone t) ∧ id ≤ t.db.sequence ∧ id ∉ t.db.ids) → VersionRead t a →
      step t a = some t' →
      (∃ gone, Ledger gone t') ∧ id ≤ t'.db.sequence ∧ id ∉ t'.db.ids := by
    rintro t a t' ⟨⟨gone, ht⟩, hle, hid⟩ hver hstep
    refine ⟨⟨_, ht.after_step hver hstep⟩, ?_⟩
    rcases ht.step_change hstep with hdb | ⟨i, st, _, _, hchange⟩
    · rw [hdb]
      exact ⟨hle, hid⟩
    · exact hchange.gone hle hid
  obtain ⟨⟨gone, hledger⟩, _, hgone⟩ :=
    run_invariant hone ⟨⟨_, hbefore⟩, hle, hid⟩ (hread.of_append hs) hs'
  refine ⟨hgone, ?_⟩
  rw [Database.samplesOf, List.filter_eq_nil_iff]
  intro r hr hrun
  have hhas := hledger.sound.refs r hr
  rw [of_decide_eq_true hrun] at hhas
  exact hgone (hasRun_natCast.mp hhas)

/-- The run is deleted while the second sample is on its way. -/
def deletesRun : List (Action Unit) :=
  .spawn (.deleteRun 1) :: List.replicate 7 (.statement 3)

/-- The sample comes too late, and there is a new run. -/
def afterDelete : List (Action Unit) :=
  .statement 2 :: .spawn (.createRun "next" 9000 none) :: List.replicate 8 (.statement 4)

theorem afterDelete_run :
    ((run step (start freshDatabase) (oneSample ++ deletesRun)).any (fun s =>
      s.db.sequence == 1 && s.db.ids == [] && (run step s afterDelete).isSome)) = true := by
  decide

theorem deleted_stays_afterDelete :
    ∃ s s', run step (start freshDatabase) (oneSample ++ deletesRun) = some s
      ∧ run step s afterDelete = some s' ∧ 1 ∉ s'.db.ids ∧ s'.db.samplesOf (1 : Nat) = [] := by
  obtain ⟨s, hs, hend⟩ := (Option.any_eq_true _ _).mp afterDelete_run
  rw [Bool.and_eq_true, Bool.and_eq_true, beq_iff_eq, beq_iff_eq] at hend
  obtain ⟨⟨hseq, hids⟩, hrest⟩ := hend
  obtain ⟨s', hs'⟩ := Option.isSome_iff_exists.mp hrest
  have hgone : (1 : Nat) ∉ s.db.ids := by
    rw [hids]
    exact List.not_mem_nil
  exact ⟨s, s', hs, hs',
    deleted_stays freshDatabase_settled (by decide) hs hs' (Nat.le_of_eq hseq.symm) hgone⟩

end FsoRunDatabase
