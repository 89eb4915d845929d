import FsoGateway.ConfigStore
import FsoGateway.Lib.Runs
import Mathlib.Logic.Function.Basic

/-! # The daemon supervisor

    `start`, `stop`, `restart` and `_watch` are coroutines on shared fields, and
    an `asyncio.Lock` guards parts of them.  Here a coroutine is what it waits
    for, with its locals; resuming one runs it to its next await.  Which one is
    resumed, what the operating system answers and when a child exits are the
    actions of a run.

    * `startEnter`, `startLaunch`, `startCheck` — the parts of `start`;
    * `stopEnter`, `stopTimeout`, `stopExit` — those of `stop`;
    * `watchEnter`, `watchExit` — those of `_watch`;
    * `step` — which of them can be resumed, and how. -/

namespace FsoDaemon

open FsoConfigStore

/-! ## Data -/

/-- `_state`. -/
inductive DaemonState where
  | stopped
  | starting
  | running
  | stopping
  | failed
  deriving DecidableEq, Repr

/-- What the environment variables say. -/
structure Env where
  binaryPath : String
  useSudo : Bool

/-- A child process: its command line and, once it has exited, its return code. -/
structure Child where
  argv : List String
  rc : Option Int
  deriving DecidableEq

/-- `DaemonSupervisor`.  A process is its position among the children started so
    far, a task is a number, and the lock is the task that holds it. -/
structure DaemonSupervisor where
  proc : Option Nat := none
  state : DaemonState := .stopped
  startedAt : Option Nat := none
  argv : List String := []
  cfg : Option GatewayConfig := none
  lastError : Option String := none
  lock : Option Nat := none
  watcherTask : Option Nat := none

/-- What a coroutine waits for.  A `stop` that is part of a `restart` goes on to
    `start`. -/
inductive Task where
  | idle
  | startEntry
  | startLoad
  | startSleep
  | stopEntry (restart : Bool)
  | stopWait (restart : Bool) (proc : Nat)
  | stopKilled (restart : Bool) (proc : Nat)
  | stopExit (restart : Bool) (proc : Nat)
  | watchEntry
  | watchWait (proc : Nat)
  | watchExit (proc : Nat) (rc : Int)
  | done
  deriving DecidableEq

/-- The supervisor, the coroutines by number, and the children in the order in
    which they were started. -/
structure World where
  sup : DaemonSupervisor
  tasks : Nat → Task
  children : List Child

/-- The bridge has just started. -/
def init : World := ⟨{}, fun _ => .idle, []⟩

/-- `Popen.poll`, and what `Popen.wait` returns. -/
def returncode (w : World) (c : Nat) : Option Int := (w.children[c]?).bind Child.rc

/-- The child runs. -/
def Alive (w : World) (c : Nat) : Prop :=
  ∃ child, w.children[c]? = some child ∧ child.rc = none

/-- `status`, what it takes from the supervisor. -/
structure Status where
  state : DaemonState
  pid : Option Nat
  startedAt : Option Nat
  command : Option (List String)
  config : Option GatewayConfig
  lastError : Option String

def status (sup : DaemonSupervisor) : Status where
  state := sup.state
  pid := sup.proc
  startedAt := sup.startedAt
  command := if sup.argv = [] then none else some sup.argv
  config := sup.cfg
  lastError := sup.lastError

/-- `_build_argv`. -/
def buildArgv (env : Env) (cfg : GatewayConfig) : List String :=
  (if env.useSudo then ["sudo", "-n"] else []) ++
    [env.binaryPath, "--lan-iface", cfg.lanIface, "--fso-iface", cfg.fsoIface,
      "--k", toString cfg.k, "--m", toString cfg.m, "--depth", toString cfg.depth,
      "--symbol-size", toString cfg.symbolSize,
      "--internal-symbol-crc", if cfg.internalSymbolCrc then "1" else "0"]

/-- A coroutine goes on to its next await. -/
def World.setTask (w : World) (t : Nat) (p : Task) : World :=
  { w with tasks := Function.update w.tasks t p }

/-- A coroutine releases the lock and ends. -/
def World.release (w : World) (t : Nat) (sup : DaemonSupervisor) : World :=
  { (w.setTask t .done) with sup := { sup with lock := none } }

/-! ## `start` -/

/-- What became of `config_load` and of the launch.  The log is closed without
    having been written to, which does not fail. -/
inductive Launch where
  | loadRaises
  | binaryMissing (cfg : GatewayConfig)
  | raises (cfg : GatewayConfig) (error : String)
  | launched (cfg : GatewayConfig) (now : Nat)

/-- `start`, until it waits for `config_load`. -/
def startEnter (w : World) (t : Nat) : World :=
  if w.sup.state = .starting ∨ w.sup.state = .running then w.setTask t .done
  else { (w.setTask t .startLoad) with sup := { w.sup with lock := some t } }

/-- `start`, from the configuration to the sleep. -/
def startLaunch (env : Env) (w : World) (t : Nat) : Launch → World
  | .loadRaises => w.release t w.sup
  | .binaryMissing _ =>
      w.release t
        { w.sup with
          state := .failed
          lastError := some ("binary not found or not executable: " ++ env.binaryPath) }
  | .raises cfg error =>
      w.release t
        { w.sup with
          state := .failed
          cfg := some cfg
          argv := buildArgv env cfg
          lastError := some error }
  | .launched cfg now =>
      { sup :=
          { w.sup with
            state := .starting
            cfg := some cfg
            argv := buildArgv env cfg
            lastError := none
            proc := some w.children.length
            startedAt := some now }
        tasks := Function.update w.tasks t .startSleep
        children := w.children ++ [⟨buildArgv env cfg, none⟩] }

/-- `start`, after the sleep; `watcher` is the task it creates. -/
def startCheck (w : World) (t watcher : Nat) : World :=
  match w.sup.proc with
  | none => w.release t w.sup
  | some p =>
      match returncode w p with
      | some rc =>
          w.release t
            { w.sup with
              state := .failed
              lastError := some ("daemon exited immediately (rc=" ++ toString rc ++ ")")
              proc := none
              startedAt := none }
      | none =>
          (w.setTask watcher .watchEntry).release t
            { w.sup with state := .running, watcherTask := some watcher }

/-! ## `stop` and `restart` -/

/-- What became of a `killpg`: a `ProcessLookupError` is caught, another error is
    not. -/
inductive Signal where
  | sent
  | raises

/-- What follows a `killpg`. -/
def afterSignal (next : Task) : Signal → Task
  | .sent => next
  | .raises => .done

/-- What follows a `stop`. -/
def afterStop (restart : Bool) : Task := if restart then .startEntry else .done

/-- `stop`, until it waits for the child. -/
def stopEnter (w : World) (t : Nat) (restart : Bool) (signal : Signal) : World :=
  match w.sup.proc with
  | none => w.setTask t (afterStop restart)
  | some p =>
      if w.sup.state = .stopped ∨ w.sup.state = .stopping then
        w.setTask t (afterStop restart)
      else
        { (w.setTask t (afterSignal (.stopWait restart p) signal)) with
          sup := { w.sup with state := .stopping, lastError := none } }

/-- `stop`, when the child outlives the grace period. -/
def stopTimeout (w : World) (t : Nat) (restart : Bool) (p : Nat) (signal : Signal) : World :=
  w.setTask t (afterSignal (.stopKilled restart p) signal)

/-- The tasks after one was cancelled. -/
def cancel (tasks : Nat → Task) : Option Nat → Nat → Task
  | none => tasks
  | some v => Function.update tasks v .done

/-- `stop`, its second section. -/
def stopExit (w : World) (t : Nat) (restart : Bool) : World where
  sup :=
    { w.sup with proc := none, startedAt := none, state := .stopped, watcherTask := none }
  tasks := Function.update (cancel w.tasks w.sup.watcherTask) t (afterStop restart)
  children := w.children

/-! ## `_watch` -/

/-- `_watch`, until it waits for the child. -/
def watchEnter (w : World) (t : Nat) : World :=
  match w.sup.proc with
  | none => w.setTask t .done
  | some p => w.setTask t (.watchWait p)

/-- `_watch`, its section. -/
def watchExit (w : World) (t : Nat) (rc : Int) : World :=
  if w.sup.state = .stopping then w.setTask t .done
  else
    { (w.setTask t .done) with
      sup :=
        { w.sup with
          proc := none
          startedAt := none
          state := if rc = 0 then .stopped else .failed
          lastError :=
            if rc = 0 then none
            else some ("daemon exited unexpectedly (rc=" ++ toString rc ++ ")") } }

/-! ## Runs -/

inductive Request where
  | start
  | stop
  | restart

/-- The coroutine of a request, before its first await. -/
def entry : Request → Task
  | .start => .startEntry
  | .stop => .stopEntry false
  | .restart => .stopEntry true

/-- What can happen: a request arrives, a coroutine is resumed, a child exits. -/
inductive Action where
  | request (t : Nat) (r : Request)
  | startEnter (t : Nat)
  | startLaunch (t : Nat) (launch : Launch)
  | startCheck (t watcher : Nat)
  | stopEnter (t : Nat) (signal : Signal)
  | stopWaited (t : Nat)
  | stopTimeout (t : Nat) (signal : Signal)
  | stopExit (t : Nat)
  | watchEnter (t : Nat)
  | watchWaited (t : Nat)
  | watchExit (t : Nat)
  | exit (c : Nat) (rc : Int)

/-- A child exits. -/
def exitChild (w : World) (c : Nat) (rc : Int) : World :=
  { w with children := w.children.modify c fun child => { child with rc := some rc } }

/-- One action, where it is possible: a section that takes the lock waits until
    nobody holds it, and a wait for a child until the child has exited. -/
def step (env : Env) (w : World) : Action → Option World
  | .request t r => if w.tasks t = .idle then some (w.setTask t (entry r)) else none
  | .startEnter t =>
      if w.tasks t = .startEntry ∧ w.sup.lock = none then some (startEnter w t) else none
  | .startLaunch t launch =>
      if w.tasks t = .startLoad then some (startLaunch env w t launch) else none
  | .startCheck t watcher =>
      if w.tasks t = .startSleep ∧ w.tasks watcher = .idle then
        some (startCheck w t watcher)
      else none
  | .stopEnter t signal =>
      match w.tasks t with
      | .stopEntry restart =>
          if w.sup.lock = none then some (stopEnter w t restart signal) else none
      | _ => none
  | .stopWaited t =>
      match w.tasks t with
      | .stopWait restart p | .stopKilled restart p =>
          if (returncode w p).isSome then some (w.setTask t (.stopExit restart p)) else none
      | _ => none
  | .stopTimeout t signal =>
      match w.tasks t with
      | .stopWait restart p => some (stopTimeout w t restart p signal)
      | _ => none
  | .stopExit t =>
      match w.tasks t with
      | .stopExit restart _ =>
          if w.sup.lock = none then some (stopExit w t restart) else none
      | _ => none
  | .watchEnter t => if w.tasks t = .watchEntry then some (watchEnter w t) else none
  | .watchWaited t =>
      match w.tasks t with
      | .watchWait p => (returncode w p).map fun rc => w.setTask t (.watchExit p rc)
      | _ => none
  | .watchExit t =>
      match w.tasks t with
      | .watchExit _ rc => if w.sup.lock = none then some (watchExit w t rc) else none
      | _ => none
  | .exit c rc =>
      match w.children[c]? with
      | some ⟨_, none⟩ => some (exitChild w c rc)
      | _ => none

end FsoDaemon
