import FsoGateway.Lib.Runs
import Mathlib.Logic.Function.Basic

/-! # The threads of the gateway

    `src/gateway.c` under `tools/fso_gw_runner.c`.  The process creates the
    gateway, starts a timer and calls `gateway_run`, which starts the two
    pipeline threads and joins them.  The threads look at `gw->running` before
    each call of their pipeline; a fatal error of a pipeline, the timer and the
    signal handler clear it.  A state says where each of them is, and an action
    is one access of one of them to what they share.

    * `gateway_run_result` — what `gateway_run` returns, and that no thread is
      in a pipeline any more when it does;
    * `stop_honoured` — a signal after the flag was set ends the run;
    * `stop_forgotten` — one that was handled before has no effect, and the
      timer will not end the run either. -/

namespace FsoGwRunner

/-! ## The process -/

/-- Where `main` is. -/
inductive MainPc where
  /-- in `gateway_create`; the signal handler is installed -/
  | creating
  /-- `g_gw = gw` -/
  | created
  /-- the timer thread is started, if there is a duration -/
  | ready
  /-- in `gateway_run`, after `gw->running = 1` -/
  | started
  | txCreated
  | bothCreated
  /-- the TX thread is joined -/
  | txJoined
  /-- `pthread_create(RX)` failed; the TX thread is being joined -/
  | rxFailed
  | returned (rc : Int)
  /-- `g_running = 0`; the timer is being joined -/
  | leaving (rc : Int)
  | destroyed (rc : Int)
  deriving DecidableEq

inductive Thread where
  | tx
  | rx
  deriving DecidableEq

/-- Where `tx_thread_func` or `rx_thread_func` is. -/
inductive ThreadPc where
  | none
  /-- before `while (gw->running)` -/
  | check
  /-- in `tx_pipeline_run_once` or `rx_pipeline_run_once` -/
  | busy
  /-- the call has returned `-1` -/
  | erred
  /-- `gw->tx_error = 1` or `gw->rx_error = 1` -/
  | flagged
  | stopped
  deriving DecidableEq

/-- Where `timer_thread` is. -/
inductive TimerPc where
  | off
  | sleeping
  /-- it has found `g_running` set -/
  | up
  | over
  deriving DecidableEq

/-- The state of the process. -/
structure Proc where
  gRunning : Bool
  /-- `g_gw != NULL` -/
  gGw : Bool
  /-- `gw->running` -/
  running : Bool
  error : Thread → Bool
  main : MainPc
  pc : Thread → ThreadPc
  timer : TimerPc
  /-- those who have cleared `g_running` and will look at `g_gw` -/
  pending : Nat
  /-- those who have found a gateway and will clear its flag -/
  storing : Nat

inductive Act where
  /-- the first store of `sig_handler` -/
  | signal
  /-- `if (g_gw != NULL)`, of the handler or of the timer -/
  | lookGw
  /-- the store of `gateway_stop` -/
  | stopStore
  /-- `gateway_create` returns -/
  | gatewayCreate (ok : Bool)
  | startThreads
  | timerWake
  | timerStop
  /-- `gateway_run` is entered -/
  | runEnter
  | createTx (ok : Bool)
  | createRx (ok : Bool)
  /-- `pthread_join` of a pipeline thread returns -/
  | join
  /-- `g_running = 0` at the end of `main` -/
  | leave
  /-- `gateway_destroy`, after the timer is joined -/
  | destroy
  /-- a thread reads `gw->running` -/
  | read (t : Thread)
  /-- the call of the pipeline returns -/
  | finish (t : Thread) (rc : Int)
  | setError (t : Thread)
  /-- `gw->running = 0; break` -/
  | clear (t : Thread)
  deriving DecidableEq

def init : Proc where
  gRunning := true
  gGw := false
  running := false
  error := fun _ => false
  main := .creating
  pc := fun _ => .none
  timer := .off
  pending := 0
  storing := 0

/-- `pthread_join` of the next thread, and what `gateway_run` returns. -/
def joinStep (s : Proc) : Option Proc :=
  match s.main with
  | .rxFailed => if s.pc .tx = .stopped then some { s with main := .returned (-1) } else none
  | .bothCreated => if s.pc .tx = .stopped then some { s with main := .txJoined } else none
  | .txJoined =>
      if s.pc .rx = .stopped then
        some { s with main := .returned (if s.error .tx || s.error .rx then -1 else 0) }
      else none
  | _ => none

/-- One access; `duration` is the option of that name. -/
def step (duration : Nat) (s : Proc) : Act → Option Proc
  | .signal => some { s with gRunning := false, pending := s.pending + 1 }
  | .lookGw =>
      if 0 < s.pending then
        some { s with
          pending := s.pending - 1
          storing := if s.gGw then s.storing + 1 else s.storing }
      else none
  | .stopStore =>
      if 0 < s.storing then some { s with storing := s.storing - 1, running := false } else none
  | .gatewayCreate ok =>
      if s.main = .creating then some { s with gGw := ok, main := .created } else none
  | .startThreads =>
      if s.main = .created then
        some { s with main := .ready, timer := if 0 < duration then .sleeping else .off }
      else none
  | .timerWake =>
      if s.timer = .sleeping then some { s with timer := if s.gRunning then .up else .over }
      else none
  | .timerStop =>
      if s.timer = .up then
        some { s with timer := .over, gRunning := false, pending := s.pending + 1 }
      else none
  | .runEnter =>
      if s.main = .ready then
        if s.gGw then some { s with main := .started, running := true, error := fun _ => false }
        else some { s with main := .returned (-1) }
      else none
  | .createTx ok =>
      if s.main = .started then
        if ok then some { s with main := .txCreated, pc := Function.update s.pc .tx .check }
        else some { s with main := .returned (-1), running := false }
      else none
  | .createRx ok =>
      if s.main = .txCreated then
        if ok then some { s with main := .bothCreated, pc := Function.update s.pc .rx .check }
        else some { s with main := .rxFailed, running := false }
      else none
  | .join => joinStep s
  | .leave =>
      match s.main with
      | .returned rc => some { s with main := .leaving rc, gRunning := false }
      | _ => none
  | .destroy =>
      match s.main with
      | .leaving rc =>
          if s.timer = .off ∨ s.timer = .over then some { s with main := .destroyed rc } else none
      | _ => none
  | .read t =>
      if s.pc t = .check then
        some { s with pc := Function.update s.pc t (if s.running then .busy else .stopped) }
      else none
  | .finish t rc =>
      if s.pc t = .busy then
        some { s with pc := Function.update s.pc t (if rc = -1 then .erred else .check) }
      else none
  | .setError t =>
      if s.pc t = .erred then
        some { s with
          error := Function.update s.error t true
          pc := Function.update s.pc t .flagged }
      else none
  | .clear t =>
      if s.pc t = .flagged then
        some { s with running := false, pc := Function.update s.pc t .stopped }
      else none

/-! ## What an access can do -/

/-- The accesses, with what each of them needs. -/
inductive Step (duration : Nat) (s : Proc) : Act → Proc → Prop where
  | signal : Step duration s .signal { s with gRunning := false, pending := s.pending + 1 }
  | lookGw (h : 0 < s.pending) :
      Step duration s .lookGw
        { s with
          pending := s.pending - 1
          storing := if s.gGw then s.storing + 1 else s.storing }
  | stopStore (h : 0 < s.storing) :
      Step duration s .stopStore { s with storing := s.storing - 1, running := false }
  | gatewayCreate (ok : Bool) (h : s.main = .creating) :
      Step duration s (.gatewayCreate ok) { s with gGw := ok, main := .created }
  | startThreads (h : s.main = .created) :
      Step duration s .startThreads
        { s with main := .ready, timer := if 0 < duration then .sleeping else .off }
  | timerWake (h : s.timer = .sleeping) :
      Step duration s .timerWake { s with timer := if s.gRunning then .up else .over }
  | timerStop (h : s.timer = .up) :
      Step duration s .timerStop
        { s with timer := .over, gRunning := false, pending := s.pending + 1 }
  | runStart (h : s.main = .ready) (hgw : s.gGw = true) :
      Step duration s .runEnter
        { s with main := .started, running := true, error := fun _ => false }
  | runNull (h : s.main = .ready) (hgw : s.gGw = false) :
      Step duration s .runEnter { s with main := .returned (-1) }
  | createTx (h : s.main = .started) :
      Step duration s (.createTx true)
        { s with main := .txCreated, pc := Function.update s.pc .tx .check }
  | failTx (h : s.main = .started) :
      Step duration s (.createTx false) { s with main := .returned (-1), running := false }
  | createRx (h : s.main = .txCreated) :
      Step duration s (.createRx true)
        { s with main := .bothCreated, pc := Function.update s.pc .rx .check }
  | failRx (h : s.main = .txCreated) :
      Step duration s (.createRx false) { s with main := .rxFailed, running := false }
  | joinFailed (h : s.main = .rxFailed) (ht : s.pc .tx = .stopped) :
      Step duration s .join { s with main := .returned (-1) }
  | joinTx (h : s.main = .bothCreated) (ht : s.pc .tx = .stopped) :
      Step duration s .join { s with main := .txJoined }
  | joinRx (h : s.main = .txJoined) (ht : s.pc .rx = .stopped) :
      Step duration s .join
        { s with main := .returned (if s.error .tx || s.error .rx then -1 else 0) }
  | leave (rc : Int) (h : s.main = .returned rc) :
      Step duration s .leave { s with main := .leaving rc, gRunning := false }
  | destroy (rc : Int) (h : s.main = .leaving rc) (ht : s.timer = .off ∨ s.timer = .over) :
      Step duration s .destroy { s with main := .destroyed rc }
  | read (t : Thread) (h : s.pc t = .check) :
      Step duration s (.read t)
        { s with pc := Function.update s.pc t (if s.running then .busy else .stopped) }
  | finish (t : Thread) (rc : Int) (h : s.pc t = .busy) :
      Step duration s (.finish t rc)
        { s with pc := Function.update s.pc t (if rc = -1 then .erred else .check) }
  | setError (t : Thread) (h : s.pc t = .erred) :
      Step duration s (.setError t)
        { s with
          error := Function.update s.error t true
          pc := Function.update s.pc t .flagged }
  | clear (t : Thread) (h : s.pc t = .flagged) :
      Step duration s (.clear t)
        { s with running := false, pc := Function.update s.pc t .stopped }

theorem joinStep_some {duration : Nat} {s s' : Proc} (h : joinStep s = some s') :
    Step duration s .join s' := by
  rw [joinStep] at h
  split at h
  · rename_i hm
    split at h
    · obtain rfl := Option.some.inj h
      exact .joinFailed hm ‹_›
    · cases h
  · rename_i hm
    split at h
    · obtain rfl := Option.some.inj h
      exact .joinTx hm ‹_›
    · cases h
  · rename_i hm
    split at h
    · obtain rfl := Option.some.inj h
      exact .joinRx hm ‹_›
    · cases h
  · cases h

theorem of_guard {p : Prop} [Decidable p] {s s' : Proc}
    (h : (if p then some s else none) = some s') : p ∧ s = s' := by
  split at h
  · exact ⟨‹_›, Option.some.inj h⟩
  · cases h

theorem step_some {duration : Nat} {s s' : Proc} {a : Act}
    (h : step duration s a = some s') : Step duration s a s' := by
  cases a with
  | signal =>
      obtain rfl := Option.some.inj h
      exact .signal
  | lookGw =>
      obtain ⟨hg, rfl⟩ := of_guard h
      exact .lookGw hg
  | stopStore =>
      obtain ⟨hg, rfl⟩ := of_guard h
      exact .stopStore hg
  | gatewayCreate ok =>
      obtain ⟨hg, rfl⟩ := of_guard h
      exact .gatewayCreate ok hg
  | startThreads =>
      obtain ⟨hg, rfl⟩ := of_guard h
      exact .startThreads hg
  | timerWake =>
      obtain ⟨hg, rfl⟩ := of_guard h
      exact .timerWake hg
  | timerStop =>
      obtain ⟨hg, rfl⟩ := of_guard h
      exact .timerStop hg
  | runEnter =>
      rw [step] at h
      split at h
      · rename_i hmain
        split at h
        · rename_i hgw
          obtain rfl := Option.some.inj h
          exact .runStart hmain hgw
        · rename_i hgw
          obtain rfl := Option.some.inj h
          exact .runNull hmain (Bool.eq_false_iff.mpr hgw)
      · cases h
  | createTx ok =>
      cases ok with
      | true =>
          obtain ⟨hg, rfl⟩ := of_guard h
          exact .createTx hg
      | false =>
          obtain ⟨hg, rfl⟩ := of_guard h
          exact .failTx hg
  | createRx ok =>
      cases ok with
      | true =>
          obtain ⟨hg, rfl⟩ := of_guard h
          exact .createRx hg
      | false =>
          obtain ⟨hg, rfl⟩ := of_guard h
          exact .failRx hg
  | join => exact joinStep_some h
  | leave =>
      rw [step] at h
      split at h
      · obtain rfl := Option.some.inj h
        exact .leave _ ‹_›
      · cases h
  | destroy =>
      rw [step] at h
      split at h
      · obtain ⟨hg, rfl⟩ := of_guard h
        exact .destroy _ ‹_› hg
      · cases h
  | read t =>
      obtain ⟨hg, rfl⟩ := of_guard h
      exact .read t hg
  | finish t rc =>
      obtain ⟨hg, rfl⟩ := of_guard h
      exact .finish t rc hg
  | setError t =>
      obtain ⟨hg, rfl⟩ := of_guard h
      exact .setError t hg
  | clear t =>
      obtain ⟨hg, rfl⟩ := of_guard h
      exact .clear t hg

/-! ## Where the threads are -/

/-- Where the pipeline threads can be, by where `main` is. -/
def Placed : MainPc → (Thread → ThreadPc) → Prop
  | .creating, pc => ∀ t, pc t = .none
  | .created, pc => ∀ t, pc t = .none
  | .ready, pc => ∀ t, pc t = .none
  | .started, pc => ∀ t, pc t = .none
  | .txCreated, pc => pc .tx ≠ .none ∧ pc .rx = .none
  | .bothCreated, pc => pc .tx ≠ .none ∧ pc .rx ≠ .none
  | .txJoined, pc => pc .tx = .stopped ∧ pc .rx ≠ .none
  | .rxFailed, pc => pc .tx ≠ .none ∧ pc .rx = .none
  | .returned _, pc => ∀ t, pc t = .none ∨ pc t = .stopped
  | .leaving _, pc => ∀ t, pc t = .none ∨ pc t = .stopped
  | .destroyed _, pc => ∀ t, pc t = .none ∨ pc t = .stopped

theorem placed_init : Placed init.main init.pc := fun _ => rfl

/-- A thread that has started and not stopped may go on. -/
theorem Placed.move {m : MainPc} {pc : Thread → ThreadPc} (h : Placed m pc) {t : Thread}
    {v : ThreadPc} (hstart : pc t ≠ .none) (hgoes : pc t ≠ .stopped) (hv : v ≠ .none) :
    Placed m (Function.update pc t v) := by
  have hidle : ¬ ∀ u, pc u = .none := fun hall => hstart (hall t)
  have hdone : ¬ ∀ u, pc u = .none ∨ pc u = .stopped := by
    intro hall
    rcases hall t with hn | hs
    · exact hstart hn
    · exact hgoes hs
  cases m with
  | creating => exact absurd h hidle
  | created => exact absurd h hidle
  | ready => exact absurd h hidle
  | started => exact absurd h hidle
  | returned rc => exact absurd h hdone
  | leaving rc => exact absurd h hdone
  | destroyed rc => exact absurd h hdone
  | txCreated =>
      cases t with
      | tx => exact ⟨hv, h.2⟩
      | rx => exact absurd h.2 hstart
  | bothCreated =>
      cases t with
      | tx => exact ⟨hv, h.2⟩
      | rx => exact ⟨h.1, hv⟩
  | txJoined =>
      cases t with
      | tx => exact absurd h.1 hgoes
      | rx => exact ⟨h.1, hv⟩
  | rxFailed =>
      cases t with
      | tx => exact ⟨hv, h.2⟩
      | rx => exact absurd h.2 hstart

theorem Step.placed {duration : Nat} {s s' : Proc} {a : Act} (hs : Step duration s a s')
    (h : Placed s.main s.pc) : Placed s'.main s'.pc := by
  -- a thread that is at a place of its loop has started and not stopped
  have hlive : ∀ t v w, s.pc t = v → v ≠ .none → v ≠ .stopped → w ≠ .none →
      Placed s.main (Function.update s.pc t w) := by
    rintro t v w rfl hn hd hw
    exact h.move hn hd hw
  cases hs with
  | signal => exact h
  | lookGw => exact h
  | stopStore => exact h
  | timerWake => exact h
  | timerStop => exact h
  | gatewayCreate ok hm =>
      rw [hm] at h
      exact h
  | startThreads hm =>
      rw [hm] at h
      exact h
  | runStart hm =>
      rw [hm] at h
      exact h
  | runNull hm =>
      rw [hm] at h
      exact fun t => .inl (h t)
  | createTx hm =>
      rw [hm] at h
      exact ⟨by simp, h .rx⟩
  | failTx hm =>
      rw [hm] at h
      exact fun t => .inl (h t)
  | createRx hm =>
      rw [hm] at h
      exact ⟨h.1, by simp⟩
  | failRx hm =>
      rw [hm] at h
      exact h
  | joinFailed hm ht =>
      rw [hm] at h
      intro t
      cases t with
      | tx => exact .inr ht
      | rx => exact .inl h.2
  | joinTx hm ht =>
      rw [hm] at h
      exact ⟨ht, h.2⟩
  | joinRx hm ht =>
      rw [hm] at h
      intro t
      cases t with
      | tx => exact .inr h.1
      | rx => exact .inr ht
  | leave rc hm =>
      rw [hm] at h
      exact h
  | destroy rc hm =>
      rw [hm] at h
      exact h
  | read t ht => exact hlive t _ _ ht (by decide) (by decide) (by split <;> decide)
  | finish t rc ht => exact hlive t _ _ ht (by decide) (by decide) (by split <;> decide)
  | setError t ht => exact hlive t _ _ ht (by decide) (by decide) (by decide)
  | clear t ht => exact hlive t _ _ ht (by decide) (by decide) (by decide)

/-! ## What failed -/

/-- The creation of the gateway or of a thread failed. -/
def CreateFailed (acts : List Act) : Prop :=
  .gatewayCreate false ∈ acts ∨ .createTx false ∈ acts ∨ .createRx false ∈ acts

/-- A call of the pipeline of a thread returned `-1`. -/
def CallFailed (acts : List Act) (t : Thread) : Prop := .finish t (-1) ∈ acts

/-- What the result of `gateway_run` will be, by where `main` is. -/
def Result (failed : Prop) (gGw : Bool) (error : Thread → Bool) : MainPc → Prop
  | .creating => ¬ failed
  | .created => failed ↔ gGw = false
  | .ready => failed ↔ gGw = false
  | .started => ¬ failed
  | .txCreated => ¬ failed
  | .bothCreated => ¬ failed
  | .txJoined => ¬ failed
  | .rxFailed => failed
  | .returned rc => (rc = 0 ∨ rc = -1) ∧ (rc = -1 ↔ failed ∨ ∃ t, error t = true)
  | .leaving rc => (rc = 0 ∨ rc = -1) ∧ (rc = -1 ↔ failed ∨ ∃ t, error t = true)
  | .destroyed rc => (rc = 0 ∨ rc = -1) ∧ (rc = -1 ↔ failed ∨ ∃ t, error t = true)

/-- **The invariant** of the process. -/
structure Inv (acts : List Act) (s : Proc) : Prop where
  placed : Placed s.main s.pc
  result : Result (CreateFailed acts) s.gGw s.error s.main
  /-- a thread that has failed says so, or is about to -/
  called : ∀ t, CallFailed acts t ↔ s.error t = true ∨ s.pc t = .erred
  /-- a thread that has not started has not failed -/
  fresh : ∀ t, s.pc t = .none → s.error t = false

theorem inv_init : Inv [] init where
  placed := placed_init
  result := by
    rintro (h | h | h)
    · exact absurd h List.not_mem_nil
    · exact absurd h List.not_mem_nil
    · exact absurd h List.not_mem_nil
  called := by
    intro t
    constructor
    · intro h
      exact absurd h List.not_mem_nil
    · rintro (h | h)
      · cases h
      · cases h
  fresh := fun _ _ => rfl

/-- Is it the failure of a creation? -/
def Act.fails : Act → Bool
  | .gatewayCreate ok => !ok
  | .createTx ok => !ok
  | .createRx ok => !ok
  | _ => false

theorem createFailed_append (acts : List Act) (a : Act) :
    CreateFailed (acts ++ [a]) ↔ CreateFailed acts ∨ a.fails = true := by
  simp only [CreateFailed, List.mem_append, List.mem_singleton]
  constructor
  · rintro ((h | rfl) | (h | rfl) | (h | rfl))
    · exact .inl (.inl h)
    · exact .inr rfl
    · exact .inl (.inr (.inl h))
    · exact .inr rfl
    · exact .inl (.inr (.inr h))
    · exact .inr rfl
  · rintro ((h | h | h) | h)
    · exact .inl (.inl h)
    · exact .inr (.inl (.inl h))
    · exact .inr (.inr (.inl h))
    · cases a with
      | gatewayCreate ok =>
          rw [Act.fails, Bool.not_eq_true'] at h
          exact .inl (.inr (by rw [h]))
      | createTx ok =>
          rw [Act.fails, Bool.not_eq_true'] at h
          exact .inr (.inl (.inr (by rw [h])))
      | createRx ok =>
          rw [Act.fails, Bool.not_eq_true'] at h
          exact .inr (.inr (.inr (by rw [h])))
      | _ => cases h

theorem createFailed_of_other {acts : List Act} {a : Act} (h : a.fails = false) :
    CreateFailed (acts ++ [a]) = CreateFailed acts := by
  rw [createFailed_append, h, eq_iff_iff]
  exact or_iff_left Bool.false_ne_true

theorem callFailed_append (acts : List Act) (a : Act) (t : Thread) :
    CallFailed (acts ++ [a]) t ↔ CallFailed acts t ∨ a = .finish t (-1) := by
  rw [CallFailed, List.mem_append, List.mem_singleton, CallFailed]
  exact or_congr_right eq_comm

/-- While a thread is at work the result does not depend on the errors. -/
theorem Result.of_live {failed : Prop} {gGw : Bool} {error error' : Thread → Bool} {m : MainPc}
    {pc : Thread → ThreadPc} (h : Result failed gGw error m) (hp : Placed m pc) {t : Thread}
    (hstart : pc t ≠ .none) (hgoes : pc t ≠ .stopped) : Result failed gGw error' m := by
  have hdone : ¬ ∀ u, pc u = .none ∨ pc u = .stopped := by
    intro hall
    rcases hall t with hn | hs
    · exact hstart hn
    · exact hgoes hs
  cases m with
  | returned rc => exact absurd hp hdone
  | leaving rc => exact absurd hp hdone
  | destroyed rc => exact absurd hp hdone
  | _ => exact h

theorem Step.result {duration : Nat} {s s' : Proc} {a : Act} {acts : List Act}
    (hs : Step duration s a s') (h : Inv acts s) :
    Result (CreateFailed (acts ++ [a])) s'.gGw s'.error s'.main := by
  have hr := h.result
  cases hs with
  | signal => rw [createFailed_of_other rfl]; exact hr
  | lookGw => rw [createFailed_of_other rfl]; exact hr
  | stopStore => rw [createFailed_of_other rfl]; exact hr
  | timerWake => rw [createFailed_of_other rfl]; exact hr
  | timerStop => rw [createFailed_of_other rfl]; exact hr
  | read t => rw [createFailed_of_other rfl]; exact hr
  | finish t rc => rw [createFailed_of_other rfl]; exact hr
  | clear t => rw [createFailed_of_other rfl]; exact hr
  | setError t ht =>
      rw [createFailed_of_other rfl]
      exact hr.of_live h.placed (t := t) (by rw [ht]; decide) (by rw [ht]; decide)
  | gatewayCreate ok hm =>
      rw [hm] at hr
      show CreateFailed _ ↔ ok = false
      rw [createFailed_append, Act.fails, Bool.not_eq_true']
      exact or_iff_right hr
  | startThreads hm =>
      rw [hm] at hr
      rw [createFailed_of_other rfl]
      exact hr
  | runStart hm hgw =>
      rw [hm] at hr
      rw [createFailed_of_other rfl]
      intro hf
      rw [hr.mp hf] at hgw
      cases hgw
  | runNull hm hgw =>
      rw [hm] at hr
      rw [createFailed_of_other rfl]
      exact ⟨.inr rfl, iff_of_true rfl (.inl (hr.mpr hgw))⟩
  | createTx hm =>
      rw [hm] at hr
      rw [createFailed_of_other rfl]
      exact hr
  | failTx hm =>
      refine ⟨.inr rfl, iff_of_true rfl (.inl ?_)⟩
      exact (createFailed_append _ _).mpr (.inr rfl)
  | createRx hm =>
      rw [hm] at hr
      rw [createFailed_of_other rfl]
      exact hr
  | failRx hm => exact (createFailed_append _ _).mpr (.inr rfl)
  | joinFailed hm =>
      rw [hm] at hr
      rw [createFailed_of_other rfl]
      exact ⟨.inr rfl, iff_of_true rfl (.inl hr)⟩
  | joinTx hm =>
      rw [hm] at hr
      rw [createFailed_of_other rfl]
      exact hr
  | joinRx hm =>
      rw [hm] at hr
      rw [createFailed_of_other rfl]
      have hor : (s.error .tx || s.error .rx) = true ↔ ∃ t, s.error t = true := by
        rw [Bool.or_eq_true]
        constructor
        · rintro (htx | hrx)
          · exact ⟨.tx, htx⟩
          · exact ⟨.rx, hrx⟩
        · rintro ⟨t, ht⟩
          cases t with
          | tx => exact .inl ht
          | rx => exact .inr ht
      by_cases he : (s.error .tx || s.error .rx) = true
      · rw [if_pos he]
        exact ⟨.inr rfl, iff_of_true rfl (.inr (hor.mp he))⟩
      · rw [if_neg he]
        refine ⟨.inl rfl, iff_of_false (by decide) ?_⟩
        rintro (hf | ht)
        · exact hr hf
        · exact he (hor.mpr ht)
  | leave rc hm =>
      rw [hm] at hr
      rw [createFailed_of_other rfl]
      exact hr
  | destroy rc hm =>
      rw [hm] at hr
      rw [createFailed_of_other rfl]
      exact hr

/-- What the other accesses leave of the failed calls. -/
theorem called_of_other {acts : List Act} {s : Proc} {a : Act} (h : Inv acts s)
    (ha : ∀ t, a ≠ .finish t (-1)) (t : Thread) :
    CallFailed (acts ++ [a]) t ↔ s.error t = true ∨ s.pc t = .erred := by
  rw [callFailed_append, or_iff_left (ha t)]
  exact h.called t

/-- A thread that goes on without a failure. -/
theorem called_move {acts : List Act} {s : Proc} {a : Act} (h : Inv acts s)
    (ha : ∀ t, a ≠ .finish t (-1)) {t : Thread} {v : ThreadPc} (hold : s.pc t ≠ .erred)
    (hv : v ≠ .erred) (u : Thread) :
    CallFailed (acts ++ [a]) u ↔ s.error u = true ∨ Function.update s.pc t v u = .erred := by
  rw [called_of_other h ha]
  by_cases hu : u = t
  · rw [hu, Function.update_self]
    exact or_congr_right (iff_of_false hold hv)
  · rw [Function.update_of_ne hu]

theorem Step.called {duration : Nat} {s s' : Proc} {a : Act} {acts : List Act}
    (hs : Step duration s a s') (h : Inv acts s) (u : Thread) :
    CallFailed (acts ++ [a]) u ↔ s'.error u = true ∨ s'.pc u = .erred := by
  have hp := h.placed
  cases hs with
  | signal => exact called_of_other h (by simp) u
  | lookGw => exact called_of_other h (by simp) u
  | stopStore => exact called_of_other h (by simp) u
  | timerWake => exact called_of_other h (by simp) u
  | timerStop => exact called_of_other h (by simp) u
  | gatewayCreate => exact called_of_other h (by simp) u
  | startThreads => exact called_of_other h (by simp) u
  | runNull => exact called_of_other h (by simp) u
  | failTx => exact called_of_other h (by simp) u
  | failRx => exact called_of_other h (by simp) u
  | joinFailed => exact called_of_other h (by simp) u
  | joinTx => exact called_of_other h (by simp) u
  | joinRx => exact called_of_other h (by simp) u
  | leave => exact called_of_other h (by simp) u
  | destroy => exact called_of_other h (by simp) u
  | runStart hm =>
      -- no thread has started, so there is no error to forget
      rw [hm] at hp
      rw [called_of_other h (by simp), h.fresh u (hp u)]
  | createTx hm =>
      rw [hm] at hp
      exact called_move h (by simp) (by rw [hp .tx]; decide) (by decide) u
  | createRx hm =>
      rw [hm] at hp
      exact called_move h (by simp) (by rw [hp.2]; decide) (by decide) u
  | read t ht =>
      exact called_move h (by simp) (by rw [ht]; decide) (by split <;> decide) u
  | clear t ht => exact called_move h (by simp) (by rw [ht]; decide) (by decide) u
  | finish t rc ht =>
      by_cases hrc : rc = -1
      · subst hrc
        rw [callFailed_append, h.called]
        by_cases hu : u = t
        · rw [hu]
          exact iff_of_true (.inr rfl) (.inr (Function.update_self ..))
        · have hne : Act.finish t (-1) ≠ .finish u (-1) := by
            simpa using Ne.symm hu
          rw [or_iff_left hne]
          show _ ↔ s.error u = true ∨ Function.update s.pc t _ u = _
          rw [Function.update_of_ne hu]
      · refine called_move h ?_ (by rw [ht]; decide) (by rw [if_neg hrc]; decide) u
        intro t' heq
        exact hrc (Act.finish.inj heq).2
  | setError t ht =>
      rw [called_of_other h (by simp)]
      by_cases hu : u = t
      · rw [hu]
        exact iff_of_true (.inr ht) (.inl (Function.update_self ..))
      · show _ ↔ Function.update s.error t true u = true ∨ Function.update s.pc t _ u = _
        rw [Function.update_of_ne hu, Function.update_of_ne hu]

theorem fresh_move {s : Proc} (h : ∀ u, s.pc u = .none → s.error u = false) {t : Thread}
    {v : ThreadPc} (hv : v ≠ .none) (u : Thread) (hu : Function.update s.pc t v u = .none) :
    u ≠ t ∧ s.error u = false := by
  by_cases hut : u = t
  · rw [hut, Function.update_self] at hu
    exact absurd hu hv
  · rw [Function.update_of_ne hut] at hu
    exact ⟨hut, h u hu⟩

theorem Step.fresh {duration : Nat} {s s' : Proc} {a : Act} (hs : Step duration s a s')
    (h : ∀ u, s.pc u = .none → s.error u = false) (u : Thread) (hu : s'.pc u = .none) :
    s'.error u = false := by
  cases hs with
  | runStart => rfl
  | createTx => exact (fresh_move h (by decide) u hu).2
  | createRx => exact (fresh_move h (by decide) u hu).2
  | read t => exact (fresh_move h (by split <;> decide) u hu).2
  | finish t rc => exact (fresh_move h (by split <;> decide) u hu).2
  | clear t => exact (fresh_move h (by decide) u hu).2
  | setError t =>
      obtain ⟨hne, he⟩ := fresh_move h (by decide) u hu
      exact (Function.update_of_ne hne ..).trans he
  | _ => exact h u hu

theorem Step.inv {duration : Nat} {s s' : Proc} {a : Act} {acts : List Act}
    (hs : Step duration s a s') (h : Inv acts s) : Inv (acts ++ [a]) s' where
  placed := hs.placed h.placed
  result := hs.result h
  called := hs.called h
  fresh := hs.fresh h.fresh

theorem inv_run {duration : Nat} {acts : List Act} {s : Proc}
    (h : Runs.run (step duration) init acts = some s) : Inv acts s :=
  Runs.run_log_invariant inv_init (fun _ _ _ _ hi ha => (step_some ha).inv hi) h

/-- `gateway_run` has returned `rc`. -/
def MainPc.hasReturned (rc : Int) (m : MainPc) : Prop :=
  m = .returned rc ∨ m = .leaving rc ∨ m = .destroyed rc

/-- **The result of `gateway_run`**, in whatever order the threads, the timer and
    the signals come: it is `-1` if the gateway or a thread could not be created
    or a call of a pipeline returned `-1`, and `0` otherwise.  From then on no
    thread is in its loop, so the pipelines can be destroyed. -/
theorem gateway_run_result (duration : Nat) (acts : List Act) (s : Proc) (rc : Int)
    (hrun : Runs.run (step duration) init acts = some s) (hret : s.main.hasReturned rc) :
    (rc = 0 ∨ rc = -1) ∧ (rc = -1 ↔ CreateFailed acts ∨ ∃ t, CallFailed acts t) ∧
      ∀ t, s.pc t = .none ∨ s.pc t = .stopped := by
  obtain ⟨hplaced, hresult, hcalled, -⟩ := inv_run hrun
  have hdone : ∀ t, s.pc t = .none ∨ s.pc t = .stopped := by
    rcases hret with h | h | h
    · rw [h] at hplaced
      exact hplaced
    · rw [h] at hplaced
      exact hplaced
    · rw [h] at hplaced
      exact hplaced
  have hboth : (rc = 0 ∨ rc = -1) ∧
      (rc = -1 ↔ CreateFailed acts ∨ ∃ t, s.error t = true) := by
    rcases hret with h | h | h
    · rw [h] at hresult
      exact hresult
    · rw [h] at hresult
      exact hresult
    · rw [h] at hresult
      exact hresult
  refine ⟨hboth.1, hboth.2.trans (or_congr_right (exists_congr fun t => ?_)), hdone⟩
  -- a thread that has stopped has set its error
  rw [hcalled t, or_iff_left]
  intro he
  rcases hdone t with hn | hs
  · rw [hn] at he
    cases he
  · rw [hs] at he
    cases he

/-- The process starts, and both threads are in their first call. -/
def startedRun : List Act :=
  [.gatewayCreate true, .startThreads, .runEnter, .createTx true, .createRx true, .read .tx,
    .read .rx]

/-- A signal, and the end of a run of an hour. -/
def endedRun : List Act :=
  startedRun ++ [.signal, .lookGw, .stopStore, .finish .tx 0, .read .tx, .join, .finish .rx 0,
    .read .rx, .join]

theorem gateway_run_result_endedRun : ¬ (CreateFailed endedRun ∨ ∃ t, CallFailed endedRun t) := by
  have h := gateway_run_result 3600 endedRun _ 0
    (Option.some_get (show (Runs.run (step 3600) init endedRun).isSome = true from rfl)).symm
    (.inl rfl)
  rw [← h.2.1]
  decide

/-! ## A stop that is honoured -/

/-- `main` is between `gw->running = 1` and the return of `gateway_run`. -/
def MainPc.inRun : MainPc → Bool
  | .started => true
  | .txCreated => true
  | .bothCreated => true
  | .txJoined => true
  | .rxFailed => true
  | _ => false

def MainPc.afterRun : MainPc → Bool
  | .returned _ => true
  | .leaving _ => true
  | .destroyed _ => true
  | _ => false

/-- The accesses of `gateway_run` and of the pipeline threads. -/
def Act.works : Act → Bool
  | .createTx _ => true
  | .createRx _ => true
  | .join => true
  | .read _ => true
  | .finish _ _ => true
  | .setError _ => true
  | .clear _ => true
  | _ => false

/-- The most accesses that a thread still makes, once the flag is clear. -/
def ThreadPc.left : ThreadPc → Nat
  | .none => 0
  | .check => 1
  | .busy => 3
  | .erred => 2
  | .flagged => 1
  | .stopped => 0

/-- Those of `gateway_run`, and of the threads that it still creates. -/
def MainPc.left : MainPc → Nat
  | .started => 6
  | .txCreated => 4
  | .bothCreated => 2
  | .txJoined => 1
  | .rxFailed => 1
  | _ => 0

def Proc.left (s : Proc) : Nat := s.main.left + (s.pc .tx).left + (s.pc .rx).left

/-- A stop was asked for and is not lost: the flag is clear, or someone will
    clear it. -/
structure Stopping (s : Proc) : Prop where
  main : s.main.inRun = true ∨ s.main.afterRun = true
  gGw : s.main.inRun = true → s.gGw = true
  flag : s.running = true → s.main.inRun = true → 0 < s.pending ∨ 0 < s.storing

/-- The flag is clear, and nothing sets it again. -/
structure Halting (s : Proc) : Prop where
  main : s.main.inRun = true ∨ s.main.afterRun = true
  flag : s.running = false

theorem left_update (pc : Thread → ThreadPc) (t : Thread) (v : ThreadPc) :
    (Function.update pc t v .tx).left + (Function.update pc t v .rx).left + (pc t).left
      = (pc .tx).left + (pc .rx).left + v.left := by
  cases t with
  | tx =>
      rw [Function.update_self, Function.update_of_ne (by decide)]
      omega
  | rx =>
      rw [Function.update_self, Function.update_of_ne (by decide)]
      omega

/-- A thread that goes on has less left. -/
theorem left_move (s : Proc) {t : Thread} {v w : ThreadPc} (hv : s.pc t = v)
    (hlt : w.left < v.left) :
    s.main.left + (Function.update s.pc t w .tx).left + (Function.update s.pc t w .rx).left
      < s.left := by
  have h := left_update s.pc t w
  rw [hv] at h
  rw [Proc.left]
  omega

/-- **One access** while the flag is clear. -/
theorem Step.halting {duration : Nat} {s s' : Proc} {a : Act} (hs : Step duration s a s')
    (h : Halting s) :
    Halting s' ∧ (a.works = true → s'.left < s.left) ∧ (a.works = false → s'.left ≤ s.left) := by
  obtain ⟨hmain, hflag⟩ := h
  have before : ∀ m : MainPc, s.main = m → ¬ (m.inRun = true ∨ m.afterRun = true) → False := by
    rintro m rfl hnot
    exact hnot hmain
  -- what does not move `main` or a thread
  have stays : ∀ p : Proc, p.main = s.main → p.pc = s.pc → p.running = false →
      Halting p ∧ (false = true → p.left < s.left) ∧ (false = false → p.left ≤ s.left) := by
    intro p hm hpc hf
    have hleft : p.left = s.left := by rw [Proc.left, Proc.left, hm, hpc]
    exact ⟨⟨by rw [hm]; exact hmain, hf⟩, fun hw => absurd hw Bool.false_ne_true,
      fun _ => Nat.le_of_eq hleft⟩
  -- what moves one of them
  have moves : ∀ p : Proc, (p.main.inRun = true ∨ p.main.afterRun = true) →
      p.running = false → p.left < s.left →
      Halting p ∧ (true = true → p.left < s.left) ∧ (true = false → p.left ≤ s.left) :=
    fun p hm hf hlt => ⟨⟨hm, hf⟩, fun _ => hlt, fun _ => Nat.le_of_lt hlt⟩
  cases hs with
  | signal => exact stays _ rfl rfl hflag
  | lookGw => exact stays _ rfl rfl hflag
  | stopStore => exact stays _ rfl rfl rfl
  | timerWake => exact stays _ rfl rfl hflag
  | timerStop => exact stays _ rfl rfl hflag
  | gatewayCreate ok hm => exact (before _ hm (by decide)).elim
  | startThreads hm => exact (before _ hm (by decide)).elim
  | runStart hm => exact (before _ hm (by decide)).elim
  | runNull hm => exact (before _ hm (by decide)).elim
  | createTx hm =>
      refine moves _ (.inl rfl) hflag ?_
      have h := left_update s.pc .tx .check
      rw [Proc.left, Proc.left, hm]
      simp only [MainPc.left, ThreadPc.left] at h ⊢
      omega
  | failTx hm =>
      refine moves _ (.inr rfl) rfl ?_
      rw [Proc.left, Proc.left, hm]
      simp only [MainPc.left]
      omega
  | createRx hm =>
      refine moves _ (.inl rfl) hflag ?_
      have h := left_update s.pc .rx .check
      rw [Proc.left, Proc.left, hm]
      simp only [MainPc.left, ThreadPc.left] at h ⊢
      omega
  | failRx hm =>
      refine moves _ (.inl rfl) rfl ?_
      rw [Proc.left, Proc.left, hm]
      simp only [MainPc.left]
      omega
  | joinFailed hm =>
      refine moves _ (.inr rfl) hflag ?_
      rw [Proc.left, Proc.left, hm]
      simp only [MainPc.left]
      omega
  | joinTx hm =>
      refine moves _ (.inl rfl) hflag ?_
      rw [Proc.left, Proc.left, hm]
      simp only [MainPc.left]
      omega
  | joinRx hm =>
      refine moves _ (.inr rfl) hflag ?_
      rw [Proc.left, Proc.left, hm]
      simp only [MainPc.left]
      omega
  | leave rc hm =>
      refine ⟨⟨.inr rfl, hflag⟩, fun hw => absurd hw Bool.false_ne_true, fun _ => ?_⟩
      rw [Proc.left, Proc.left, hm]
      exact Nat.le_refl _
  | destroy rc hm =>
      refine ⟨⟨.inr rfl, hflag⟩, fun hw => absurd hw Bool.false_ne_true, fun _ => ?_⟩
      rw [Proc.left, Proc.left, hm]
      exact Nat.le_refl _
  | read t ht =>
      refine moves _ hmain hflag (left_move s ht ?_)
      rw [hflag, if_neg Bool.false_ne_true]
      decide
  | finish t rc ht => exact moves _ hmain hflag (left_move s ht (by split <;> decide))
  | setError t ht => exact moves _ hmain hflag (left_move s ht (by decide))
  | clear t ht => exact moves _ hmain rfl (left_move s ht (by decide))

/-- The flag stays clear, and what is left is used up. -/
theorem halting_run {duration : Nat} {s s' : Proc} {acts : List Act} (h : Halting s)
    (hrun : Runs.run (step duration) s acts = some s') :
    Halting s' ∧ acts.countP Act.works + s'.left ≤ s.left := by
  induction acts generalizing s with
  | nil =>
      obtain rfl := Option.some.inj hrun
      exact ⟨h, Nat.le_of_eq (Nat.zero_add _)⟩
  | cons a acts ih =>
      obtain ⟨t, ht, hrest⟩ := Runs.run_cons.mp hrun
      obtain ⟨hhalt, hwork, hother⟩ := (step_some ht).halting h
      obtain ⟨hhalt', hle⟩ := ih hhalt hrest
      refine ⟨hhalt', ?_⟩
      rw [List.countP_cons]
      cases hw : a.works with
      | true =>
          have := hwork hw
          rw [if_pos rfl]
          omega
      | false =>
          have := hother hw
          rw [if_neg Bool.false_ne_true]
          omega

/-- `gateway_run` never waits for ever: until it returns, it or a thread that it
    joins can go on. -/
theorem works_enabled (duration : Nat) {s : Proc} (hp : Placed s.main s.pc)
    (hm : s.main.inRun = true) : ∃ a, a.works = true ∧ (step duration s a).isSome = true := by
  -- a thread that has started goes on until it has stopped
  have thread : ∀ t, s.pc t ≠ .none → s.pc t ≠ .stopped →
      ∃ a, a.works = true ∧ (step duration s a).isSome = true := by
    intro t hstart hgoes
    cases ht : s.pc t with
    | none => exact absurd ht hstart
    | stopped => exact absurd ht hgoes
    | check => exact ⟨.read t, rfl, by rw [step, if_pos ht]; rfl⟩
    | busy => exact ⟨.finish t 0, rfl, by rw [step, if_pos ht]; rfl⟩
    | erred => exact ⟨.setError t, rfl, by rw [step, if_pos ht]; rfl⟩
    | flagged => exact ⟨.clear t, rfl, by rw [step, if_pos ht]; rfl⟩
  cases hmain : s.main with
  | started => exact ⟨.createTx true, rfl, by rw [step, if_pos hmain]; rfl⟩
  | txCreated => exact ⟨.createRx true, rfl, by rw [step, if_pos hmain]; rfl⟩
  | bothCreated =>
      rw [hmain] at hp
      by_cases ht : s.pc .tx = .stopped
      · exact ⟨.join, rfl, by rw [step, joinStep, hmain]; simp [ht]⟩
      · exact thread .tx hp.1 ht
  | txJoined =>
      rw [hmain] at hp
      by_cases ht : s.pc .rx = .stopped
      · exact ⟨.join, rfl, by rw [step, joinStep, hmain]; simp [ht]⟩
      · exact thread .rx hp.2 ht
  | rxFailed =>
      rw [hmain] at hp
      by_cases ht : s.pc .tx = .stopped
      · exact ⟨.join, rfl, by rw [step, joinStep, hmain]; simp [ht]⟩
      · exact thread .tx hp.1 ht
  | creating => rw [hmain] at hm; cases hm
  | created => rw [hmain] at hm; cases hm
  | ready => rw [hmain] at hm; cases hm
  | returned rc => rw [hmain] at hm; cases hm
  | leaving rc => rw [hmain] at hm; cases hm
  | destroyed rc => rw [hmain] at hm; cases hm

theorem Step.gGw {duration : Nat} {s s' : Proc} {a : Act} (hs : Step duration s a s')
    (h : s.main.inRun = true → s.gGw = true) : s'.main.inRun = true → s'.gGw = true := by
  intro hin
  cases hs with
  | gatewayCreate => cases hin
  | startThreads => cases hin
  | runStart _ hgw => exact hgw
  | runNull => cases hin
  | failTx => cases hin
  | joinFailed => cases hin
  | joinRx => cases hin
  | leave => cases hin
  | destroy => cases hin
  | createTx hm => exact h (by rw [hm]; rfl)
  | createRx hm => exact h (by rw [hm]; rfl)
  | failRx hm => exact h (by rw [hm]; rfl)
  | joinTx hm => exact h (by rw [hm]; rfl)
  | _ => exact h hin

/-- `gateway_run` has a gateway. -/
theorem gGw_run {duration : Nat} {acts : List Act} {s : Proc}
    (h : Runs.run (step duration) init acts = some s) : s.main.inRun = true → s.gGw = true :=
  Runs.run_keeps (fun s => s.main.inRun = true → s.gGw = true)
    (fun hin => absurd hin Bool.false_ne_true) (fun _ _ _ hi ha => (step_some ha).gGw hi) h

/-- **One access** after a stop was asked for. -/
theorem Step.stopping {duration : Nat} {s s' : Proc} {a : Act} (hs : Step duration s a s')
    (h : Stopping s) : Stopping s' := by
  obtain ⟨hmain, hgw, hflag⟩ := h
  have before : ∀ m : MainPc, s.main = m → ¬ (m.inRun = true ∨ m.afterRun = true) → False := by
    rintro m rfl hnot
    exact hnot hmain
  cases hs with
  | signal => exact ⟨hmain, hgw, fun _ _ => .inl (Nat.succ_pos _)⟩
  | timerStop => exact ⟨hmain, hgw, fun _ _ => .inl (Nat.succ_pos _)⟩
  | lookGw hpos =>
      refine ⟨hmain, hgw, fun _ hin => .inr ?_⟩
      show 0 < (if s.gGw then _ else _)
      rw [if_pos (hgw hin)]
      exact Nat.succ_pos _
  | stopStore => exact ⟨hmain, hgw, fun hr => absurd hr Bool.false_ne_true⟩
  | gatewayCreate ok hm => exact (before _ hm (by decide)).elim
  | startThreads hm => exact (before _ hm (by decide)).elim
  | runStart hm => exact (before _ hm (by decide)).elim
  | runNull hm => exact (before _ hm (by decide)).elim
  | createTx hm => exact ⟨.inl rfl, fun _ => hgw (by rw [hm]; rfl), fun hr _ =>
      hflag hr (by rw [hm]; rfl)⟩
  | createRx hm => exact ⟨.inl rfl, fun _ => hgw (by rw [hm]; rfl), fun hr _ =>
      hflag hr (by rw [hm]; rfl)⟩
  | joinTx hm => exact ⟨.inl rfl, fun _ => hgw (by rw [hm]; rfl), fun hr _ =>
      hflag hr (by rw [hm]; rfl)⟩
  | failRx hm =>
      exact ⟨.inl rfl, fun _ => hgw (by rw [hm]; rfl), fun hr => absurd hr Bool.false_ne_true⟩
  | failTx => exact ⟨.inr rfl, fun hin => absurd hin Bool.false_ne_true, fun _ hin =>
      absurd hin Bool.false_ne_true⟩
  | joinFailed => exact ⟨.inr rfl, fun hin => absurd hin Bool.false_ne_true, fun _ hin =>
      absurd hin Bool.false_ne_true⟩
  | joinRx => exact ⟨.inr rfl, fun hin => absurd hin Bool.false_ne_true, fun _ hin =>
      absurd hin Bool.false_ne_true⟩
  | leave => exact ⟨.inr rfl, fun hin => absurd hin Bool.false_ne_true, fun _ hin =>
      absurd hin Bool.false_ne_true⟩
  | destroy => exact ⟨.inr rfl, fun hin => absurd hin Bool.false_ne_true, fun _ hin =>
      absurd hin Bool.false_ne_true⟩
  | clear t => exact ⟨hmain, hgw, fun hr => absurd hr Bool.false_ne_true⟩
  | timerWake => exact ⟨hmain, hgw, hflag⟩
  | read t => exact ⟨hmain, hgw, hflag⟩
  | finish t rc => exact ⟨hmain, hgw, hflag⟩
  | setError t => exact ⟨hmain, hgw, hflag⟩

theorem left_le {s : Proc} (hp : Placed s.main s.pc) (hin : s.main.inRun = true) :
    s.left ≤ 8 := by
  have hthread : ∀ v : ThreadPc, v.left ≤ 3 := by
    intro v
    cases v <;> decide
  have htx := hthread (s.pc .tx)
  have hrx := hthread (s.pc .rx)
  rw [Proc.left]
  cases hm : s.main with
  | started =>
      rw [hm] at hp
      rw [hp .tx, hp .rx]
      decide
  | txCreated =>
      rw [hm] at hp
      rw [hp.2]
      show 4 + (s.pc .tx).left + 0 ≤ 8
      omega
  | bothCreated =>
      simp only [MainPc.left]
      omega
  | txJoined =>
      simp only [MainPc.left]
      omega
  | rxFailed =>
      simp only [MainPc.left]
      omega
  | creating => rw [hm] at hin; cases hin
  | created => rw [hm] at hin; cases hin
  | ready => rw [hm] at hin; cases hin
  | returned rc => rw [hm] at hin; cases hin
  | leaving rc => rw [hm] at hin; cases hin
  | destroyed rc => rw [hm] at hin; cases hin

/-- The run of the gateway comes to its end: whatever happens, the flag stays
    clear, `gateway_run` and its threads make at most eight more accesses, and one
    of them is possible until `gateway_run` returns. -/
structure Ends (duration : Nat) (s : Proc) : Prop where
  flag : ∀ more s', Runs.run (step duration) s more = some s' → s'.running = false
  bounded : ∀ more s', Runs.run (step duration) s more = some s' → more.countP Act.works ≤ 8
  enabled : ∀ more s', Runs.run (step duration) s more = some s' → s'.main.afterRun = true ∨
    ∃ a, a.works = true ∧ (step duration s' a).isSome = true

/-- **A stop is honoured**: after a signal in `gateway_run`, once nobody is about
    to store any more, the run has ended or comes to its end. -/
theorem stop_honoured (duration : Nat) (before after : List Act) (s s' : Proc)
    (hrun : Runs.run (step duration) init before = some s) (hin : s.main.inRun = true)
    (hmore : Runs.run (step duration) s (.signal :: after) = some s')
    (hquiet : s'.pending = 0 ∧ s'.storing = 0) :
    s'.main.afterRun = true ∨ Ends duration s' := by
  obtain ⟨t, ht, hafter⟩ := Runs.run_cons.mp hmore
  obtain rfl := Option.some.inj ht
  have hgw := gGw_run hrun hin
  have hstop : Stopping s' := by
    refine Runs.run_keeps Stopping ?_ (fun _ _ _ hi ha => (step_some ha).stopping hi) hafter
    exact ⟨.inl hin, fun _ => hgw, fun _ _ => .inl (Nat.succ_pos _)⟩
  rcases hstop.main with hin' | hdone
  · right
    have hflag : s'.running = false := by
      cases hr : s'.running with
      | false => rfl
      | true =>
          rcases hstop.flag hr hin' with h | h
          · rw [hquiet.1] at h
            exact absurd h (Nat.lt_irrefl 0)
          · rw [hquiet.2] at h
            exact absurd h (Nat.lt_irrefl 0)
    have hhalt : Halting s' := ⟨.inl hin', hflag⟩
    have hreach : Runs.run (step duration) init (before ++ .signal :: after) = some s' := by
      rw [Runs.run_append, hrun]
      exact hmore
    refine ⟨fun more s'' h => (halting_run hhalt h).1.flag, ?_, ?_⟩
    · intro more s'' h
      have hle := (halting_run hhalt h).2
      have := left_le (inv_run hreach).placed hin'
      omega
    · intro more s'' h
      rcases (halting_run hhalt h).1.main with hin'' | hdone
      · refine .inr (works_enabled duration ?_ hin'')
        have hreach' : Runs.run (step duration) init ((before ++ .signal :: after) ++ more)
            = some s'' := by
          rw [Runs.run_append, hreach]
          exact h
        exact (inv_run hreach').placed
      · exact .inl hdone
  · exact .inl hdone

/-- A signal while both threads are in a call. -/
theorem stop_honoured_startedRun :
    ∃ s, Runs.run (step 3600) init (startedRun ++ [.signal, .lookGw, .stopStore]) = some s ∧
      (s.main.afterRun = true ∨ Ends 3600 s) :=
  ⟨_, rfl, stop_honoured 3600 startedRun [.lookGw, .stopStore] _ _ rfl rfl rfl ⟨rfl, rfl⟩⟩

/-! ## A stop that is forgotten -/

/-- The failures and signals that a run may do without. -/
def Act.disturbs : Act → Bool
  | .signal => true
  | .gatewayCreate ok => !ok
  | .createTx ok => !ok
  | .createRx ok => !ok
  | .finish _ rc => rc = -1
  | _ => false

/-- Where `main` can be in a run without failures. -/
def MainPc.undisturbed : MainPc → Bool
  | .creating => true
  | .created => true
  | .ready => true
  | .started => true
  | .txCreated => true
  | .bothCreated => true
  | _ => false

/-- The signal has come and gone: `g_running` is clear, nobody will store, and
    the threads run on. -/
structure Forgotten (s : Proc) : Prop where
  gRunning : s.gRunning = false
  quiet : s.pending = 0 ∧ s.storing = 0
  timer : s.timer ≠ .up
  main : s.main.undisturbed = true
  gGw : s.main ≠ .creating → s.gGw = true
  flag : s.main.inRun = true → s.running = true
  pc : ∀ t, s.pc t = .none ∨ s.main.inRun = true ∧ (s.pc t = .check ∨ s.pc t = .busy)

theorem Forgotten.not_pc {s : Proc} (h : Forgotten s) {t : Thread} {v : ThreadPc}
    (hv : s.pc t = v) (hnone : v ≠ .none) (hcheck : v ≠ .check) (hbusy : v ≠ .busy) : False := by
  rcases h.pc t with ht | ⟨-, ht | ht⟩
  · exact hnone (hv.symm.trans ht)
  · exact hcheck (hv.symm.trans ht)
  · exact hbusy (hv.symm.trans ht)

theorem Forgotten.not_main {s : Proc} (h : Forgotten s) {m : MainPc} (hm : s.main = m)
    (hnot : m.undisturbed = false) : False := by
  have := h.main
  rw [hm, hnot] at this
  cases this

/-- A thread that is created or goes on. -/
theorem Forgotten.move {s : Proc} (h : Forgotten s) {m : MainPc} {t : Thread} {v : ThreadPc}
    (hm : m.inRun = true) (hund : m.undisturbed = true) (hin : s.main.inRun = true)
    (hv : v = .check ∨ v = .busy) :
    Forgotten { s with main := m, pc := Function.update s.pc t v } := by
  refine ⟨h.gRunning, h.quiet, h.timer, hund, fun _ => h.gGw ?_, fun _ => h.flag hin, fun u => ?_⟩
  · rintro hc
    rw [hc] at hin
    cases hin
  · by_cases hu : u = t
    · rw [hu]
      refine .inr ⟨hm, ?_⟩
      show Function.update s.pc t v t = _ ∨ Function.update s.pc t v t = _
      rw [Function.update_self]
      exact hv
    · show Function.update s.pc t v u = _ ∨ _
      rw [Function.update_of_ne hu]
      rcases h.pc u with hn | ⟨-, hl⟩
      · exact .inl hn
      · refine .inr ⟨hm, ?_⟩
        show Function.update s.pc t v u = _ ∨ Function.update s.pc t v u = _
        rw [Function.update_of_ne hu]
        exact hl

theorem Step.forgotten {duration : Nat} {s s' : Proc} {a : Act} (hs : Step duration s a s')
    (hd : a.disturbs = false) (h : Forgotten s) : Forgotten s' := by
  obtain ⟨hg, ⟨hpend, hstore⟩, htimer, hmain, hgw, hflag, hpc⟩ := h
  have h : Forgotten s := ⟨hg, ⟨hpend, hstore⟩, htimer, hmain, hgw, hflag, hpc⟩
  -- before `gateway_run` no thread has started
  have idle : s.main.inRun = false → ∀ t, s.pc t = .none := by
    intro hin t
    rcases hpc t with ht | ⟨hin', -⟩
    · exact ht
    · rw [hin] at hin'
      cases hin'
  cases hs with
  | signal => cases hd
  | lookGw hpos => exact absurd (hpend ▸ hpos) (Nat.lt_irrefl 0)
  | stopStore hpos => exact absurd (hstore ▸ hpos) (Nat.lt_irrefl 0)
  | timerStop ht => exact absurd ht htimer
  | timerWake =>
      refine ⟨hg, ⟨hpend, hstore⟩, ?_, hmain, hgw, hflag, hpc⟩
      show (if s.gRunning then _ else _) ≠ _
      rw [hg, if_neg Bool.false_ne_true]
      decide
  | gatewayCreate ok hm =>
      have hok : ok = true := by simpa [Act.disturbs] using hd
      exact ⟨hg, ⟨hpend, hstore⟩, htimer, rfl, fun _ => hok,
        fun hin => absurd hin Bool.false_ne_true, fun t => .inl (idle (by rw [hm]; rfl) t)⟩
  | startThreads hm =>
      exact ⟨hg, ⟨hpend, hstore⟩, by show (if _ then _ else _) ≠ _; split <;> decide, rfl,
        fun _ => hgw (by rw [hm]; decide), fun hin => absurd hin Bool.false_ne_true,
        fun t => .inl (idle (by rw [hm]; rfl) t)⟩
  | runStart hm hgot =>
      exact ⟨hg, ⟨hpend, hstore⟩, htimer, rfl, fun _ => hgot, fun _ => rfl,
        fun t => .inl (idle (by rw [hm]; rfl) t)⟩
  | runNull hm hgot =>
      rw [hgw (by rw [hm]; decide)] at hgot
      cases hgot
  | createTx hm => exact h.move rfl rfl (by rw [hm]; rfl) (.inl rfl)
  | createRx hm => exact h.move rfl rfl (by rw [hm]; rfl) (.inl rfl)
  | failTx => cases hd
  | failRx => cases hd
  | joinFailed hm => exact (h.not_main hm rfl).elim
  | joinTx hm ht => exact (h.not_pc ht (by decide) (by decide) (by decide)).elim
  | joinRx hm => exact (h.not_main hm rfl).elim
  | leave rc hm => exact (h.not_main hm rfl).elim
  | destroy rc hm => exact (h.not_main hm rfl).elim
  | read t ht =>
      rcases hpc t with hn | ⟨hin, -⟩
      · rw [ht] at hn
        cases hn
      · exact h.move hin hmain hin (.inr (if_pos (hflag hin)))
  | finish t rc ht =>
      have hrc : rc ≠ -1 := by simpa [Act.disturbs] using hd
      rcases hpc t with hn | ⟨hin, -⟩
      · rw [ht] at hn
        cases hn
      · exact h.move hin hmain hin (.inl (if_neg hrc))
  | setError t ht => exact (h.not_pc ht (by decide) (by decide) (by decide)).elim
  | clear t ht => exact (h.not_pc ht (by decide) (by decide) (by decide)).elim

/-- **A stop is forgotten**: where a signal was handled before `gateway_run` set
    the flag, and no other signal and no failure follows, `gateway_run` never
    returns and its flag stays set, although the timer may be running. -/
theorem stop_forgotten (duration : Nat) (before after : List Act) (s s' : Proc)
    (hrun : Runs.run (step duration) init before = some s)
    (hearly : s.main = .creating ∨ (s.main = .created ∨ s.main = .ready) ∧ s.gGw = true)
    (hsignal : s.gRunning = false) (hquiet : s.pending = 0 ∧ s.storing = 0)
    (htimer : s.timer ≠ .up) (hafter : ∀ a ∈ after, a.disturbs = false)
    (hmore : Runs.run (step duration) s after = some s') :
    s'.main.afterRun = false ∧ (s'.main.inRun = true → s'.running = true) := by
  have hin : s.main.inRun = false ∧ s.main.undisturbed = true := by
    rcases hearly with h | ⟨h | h, -⟩
    · rw [h]
      exact ⟨rfl, rfl⟩
    · rw [h]
      exact ⟨rfl, rfl⟩
    · rw [h]
      exact ⟨rfl, rfl⟩
  have hidle : ∀ t, s.pc t = .none := by
    have hplaced := (inv_run hrun).placed
    rcases hearly with h | ⟨h | h, -⟩
    · rw [h] at hplaced
      exact hplaced
    · rw [h] at hplaced
      exact hplaced
    · rw [h] at hplaced
      exact hplaced
  have hforgotten : Forgotten s := by
    refine ⟨hsignal, hquiet, htimer, hin.2, ?_, ?_, fun t => .inl (hidle t)⟩
    · intro hne
      rcases hearly with h | ⟨-, h⟩
      · exact absurd h hne
      · exact h
    · intro h
      rw [hin.1] at h
      cases h
  have hend : Forgotten s' := by
    refine Runs.run_invariant (P := fun _ a => a.disturbs = false) ?_ hforgotten
      (Runs.Along.of_forall hafter) hmore
    intro t a t' ht ha hstep
    exact (step_some hstep).forgotten ha ht
  refine ⟨?_, hend.flag⟩
  have hund := hend.main
  cases hm : s'.main with
  | returned rc => rw [hm] at hund; cases hund
  | leaving rc => rw [hm] at hund; cases hund
  | destroyed rc => rw [hm] at hund; cases hund
  | _ => rfl

/-- The process starts after a signal, and the timer finds `g_running` clear. -/
def lateRun : List Act :=
  [.gatewayCreate true, .startThreads, .runEnter, .timerWake, .createTx true, .createRx true,
    .read .tx, .finish .tx 0]

/-- A signal while `gateway_create` opens the interfaces. -/
theorem stop_forgotten_lateRun :
    ∃ s, Runs.run (step 3600) init ([.signal, .lookGw] ++ lateRun) = some s ∧
      s.timer = .over ∧ s.main.afterRun = false ∧ (s.main.inRun = true → s.running = true) :=
  ⟨_, rfl, rfl, stop_forgotten 3600 [.signal, .lookGw] lateRun _ _ rfl (.inl rfl) rfl ⟨rfl, rfl⟩
    (by decide) (by decide) rfl⟩

end FsoGwRunner
