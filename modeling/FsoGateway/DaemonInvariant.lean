import FsoGateway.DaemonSupervisor

/-! # The supervisor over all interleavings

    The lock is held across the awaits of `start` but not across those of
    `stop`: what keeps the sections of the coroutines from meddling with each
    other in between is the state.  `_watch` and a second `stop` look for
    "stopping" in it; `start` does not, and launches a second child.

    * `TaskOk` — what a coroutine relies on while it waits;
    * `inv_step` — every action keeps it, a `start` while stopping excepted;
    * `supervision_consistent` — at most one child, and none when the supervisor
      says so;
    * `second_child` — what a `start` while stopping can do. -/

namespace FsoDaemon

open FsoConfigStore

/-! ## The invariant -/

/-- The states in which there is no child. -/
def IsDown (s : DaemonState) : Prop := s = .stopped ∨ s = .failed

/-- The states in which there is a watcher. -/
def IsUp (s : DaemonState) : Prop := s = .running ∨ s = .stopping

/-- A `stop` between its two sections. -/
def Task.isStopping : Task → Bool
  | .stopWait _ _ => true
  | .stopKilled _ _ => true
  | .stopExit _ _ => true
  | _ => false

/-- A coroutine that relies on nothing. -/
def Task.Free : Task → Prop
  | .idle => True
  | .startEntry => True
  | .stopEntry _ => True
  | .done => True
  | _ => False

/-- What coroutine `t` relies on while it waits. -/
def TaskOk (w : World) (t : Nat) : Task → Prop
  | .startLoad => w.sup.lock = some t ∧ IsDown w.sup.state
  | .startSleep => w.sup.lock = some t ∧ w.sup.state = .starting ∧ w.sup.proc ≠ none
  | .stopWait _ p => w.sup.state = .stopping ∧ w.sup.proc = some p
  | .stopKilled _ p => w.sup.state = .stopping ∧ w.sup.proc = some p
  | .stopExit _ p =>
      (w.sup.state = .stopping ∧ w.sup.proc = some p) ∧ returncode w p ≠ none
  | .watchEntry => w.sup.watcherTask = some t ∧ IsUp w.sup.state
  | .watchWait p => (w.sup.watcherTask = some t ∧ IsUp w.sup.state) ∧ w.sup.proc = some p
  | .watchExit p rc =>
      (w.sup.watcherTask = some t ∧ IsUp w.sup.state) ∧ w.sup.proc = some p ∧
        returncode w p = some rc
  | _ => True

/-- The invariant of the supervisor. -/
structure Inv (w : World) : Prop where
  tasks : ∀ t, TaskOk w t (w.tasks t)
  oneStop : ∀ t t', (w.tasks t).isStopping = true → (w.tasks t').isStopping = true → t = t'
  starting : w.sup.state = .starting → w.sup.lock ≠ none
  down : IsDown w.sup.state → w.sup.proc = none
  alive : ∀ c, Alive w c → w.sup.proc = some c

theorem inv_init : Inv init where
  tasks := fun _ => trivial
  oneStop := fun _ _ h _ => nomatch h
  starting := nofun
  down := fun _ => rfl
  alive := by
    rintro c ⟨child, hc, -⟩
    exact nomatch hc

/-! ## Children -/

theorem returncode_of_alive {w : World} {c : Nat} (h : Alive w c) : returncode w c = none := by
  obtain ⟨child, hc, hrc⟩ := h
  rw [returncode, hc]
  exact hrc

/-- A supervisor whose process has exited has no child. -/
theorem Inv.none_alive {w : World} (h : Inv w) {p : Nat} (hp : w.sup.proc = some p)
    (hrc : returncode w p ≠ none) (c : Nat) : ¬ Alive w c := by
  intro hc
  have heq : p = c := Option.some.inj (hp.symm.trans (h.alive c hc))
  rw [heq] at hrc
  exact hrc (returncode_of_alive hc)

theorem Inv.none_down {w : World} (h : Inv w) (hd : IsDown w.sup.state) (c : Nat) :
    ¬ Alive w c := by
  intro hc
  have hp := h.alive c hc
  rw [h.down hd] at hp
  exact nomatch hp

/-! ## The other coroutines -/

theorem taskOk_of_free {w : World} {t : Nat} {p : Task} (h : p.Free) : TaskOk w t p := by
  cases p <;> trivial

theorem not_stopping_of_free {p : Task} (h : p.Free) : p.isStopping = false := by
  cases p <;> first | rfl | exact nomatch h

theorem TaskOk.stopping {w : World} {t : Nat} {p : Task} (h : TaskOk w t p)
    (hp : p.isStopping = true) : w.sup.state = .stopping := by
  cases p with
  | stopWait r c => exact h.1
  | stopKilled r c => exact h.1
  | stopExit r c => exact h.1.1
  | _ => exact nomatch hp

/-- A coroutine that holds no lock, stops nothing and is no watcher. -/
theorem TaskOk.free {w : World} {t : Nat} {p : Task} (h : TaskOk w t p)
    (hlock : w.sup.lock ≠ some t) (hstop : p.isStopping = false)
    (hwatch : w.sup.watcherTask = some t → ¬ IsUp w.sup.state) : p.Free := by
  cases p with
  | idle => trivial
  | startEntry => trivial
  | startLoad => exact hlock h.1
  | startSleep => exact hlock h.1
  | stopEntry r => trivial
  | stopWait r c => exact nomatch hstop
  | stopKilled r c => exact nomatch hstop
  | stopExit r c => exact nomatch hstop
  | watchEntry => exact hwatch h.1 h.2
  | watchWait c => exact hwatch h.1.1 h.1.2
  | watchExit c rc => exact hwatch h.1.1 h.1.2
  | done => trivial

/-- While the supervisor is down or starting, only the holder of the lock counts. -/
theorem Inv.free_of_not_up {w : World} (h : Inv w) (hup : ¬ IsUp w.sup.state) {t : Nat}
    (hlock : w.sup.lock ≠ some t) : (w.tasks t).Free := by
  refine (h.tasks t).free hlock ?_ fun _ => hup
  refine Bool.eq_false_iff.mpr fun hstop => ?_
  exact hup (.inr ((h.tasks t).stopping hstop))

/-- While the supervisor is not up, all but the holder of the lock are free. -/
theorem Inv.others_free {w : World} (h : Inv w) (hup : ¬ IsUp w.sup.state) {t : Nat}
    (hlock : w.sup.lock = some t) : ∀ t', t' ≠ t → (w.tasks t').Free := by
  intro t' hne
  refine h.free_of_not_up hup ?_
  rw [hlock]
  exact fun heq => hne (Option.some.inj heq).symm

/-- One coroutine counts. -/
theorem inv_single {w : World} (t : Nat) (hfree : ∀ t', t' ≠ t → (w.tasks t').Free)
    (ht : TaskOk w t (w.tasks t)) (hstart : w.sup.state = .starting → w.sup.lock ≠ none)
    (hdown : IsDown w.sup.state → w.sup.proc = none)
    (halive : ∀ c, Alive w c → w.sup.proc = some c) : Inv w where
  tasks := by
    intro t'
    by_cases heq : t' = t
    · rw [heq]
      exact ht
    · exact taskOk_of_free (hfree t' heq)
  oneStop := by
    have hone : ∀ t', (w.tasks t').isStopping = true → t' = t := by
      intro t' hs
      by_contra hne
      rw [not_stopping_of_free (hfree t' hne)] at hs
      exact nomatch hs
    intro t' t'' h' h''
    rw [hone t' h', hone t'' h'']
  starting := hstart
  down := hdown
  alive := halive

@[simp] theorem setTask_self (w : World) (t : Nat) (p : Task) : (w.setTask t p).tasks t = p :=
  Function.update_self ..

theorem setTask_other (w : World) {t t' : Nat} (p : Task) (h : t' ≠ t) :
    (w.setTask t p).tasks t' = w.tasks t' := Function.update_of_ne h ..

/-- A coroutine goes on, and nothing else happens. -/
theorem Inv.setTask {w : World} (h : Inv w) {t : Nat} {p : Task} (hp : TaskOk w t p)
    (hs : p.isStopping = true → (w.tasks t).isStopping = true) : Inv (w.setTask t p) where
  tasks := by
    intro t'
    by_cases heq : t' = t
    · rw [heq, setTask_self]
      exact hp
    · rw [setTask_other w p heq]
      exact h.tasks t'
  oneStop := by
    have hwas : ∀ t', ((w.setTask t p).tasks t').isStopping = true →
        (w.tasks t').isStopping = true := by
      intro t' h'
      by_cases heq : t' = t
      · rw [heq, setTask_self] at h'
        rw [heq]
        exact hs h'
      · rw [setTask_other w p heq] at h'
        exact h'
    intro t' t'' h' h''
    exact h.oneStop t' t'' (hwas t' h') (hwas t'' h'')
  starting := h.starting
  down := h.down
  alive := h.alive

/-- A coroutine that relies on nothing may wait for its next await. -/
theorem Inv.free {w : World} (h : Inv w) (t : Nat) {p : Task} (hp : p.Free) :
    Inv (w.setTask t p) :=
  h.setTask (taskOk_of_free hp) fun hs => nomatch (not_stopping_of_free hp).symm.trans hs

theorem afterStop_free (restart : Bool) : (afterStop restart).Free := by
  cases restart <;> trivial

/-! ## `start` -/

theorem inv_startEnter {w : World} (h : Inv w) (t : Nat) (hlock : w.sup.lock = none)
    (hstop : w.sup.state ≠ .stopping) : Inv (startEnter w t) := by
  rw [startEnter]
  split
  · exact h.free t trivial
  · rename_i hup
    rw [not_or] at hup
    have hdown : IsDown w.sup.state := by
      cases hs : w.sup.state with
      | stopped => exact .inl rfl
      | starting => exact absurd hs hup.1
      | running => exact absurd hs hup.2
      | stopping => exact absurd hs hstop
      | failed => exact .inr rfl
    have hnotup : ¬ IsUp w.sup.state := fun hu => hu.elim hup.2 hstop
    refine inv_single t ?_ ?_ ?_ h.down h.alive
    · intro t' hne
      rw [show ({ (w.setTask t .startLoad) with
          sup := { w.sup with lock := some t } } : World).tasks t' = w.tasks t' from
        setTask_other w _ hne]
      exact h.free_of_not_up hnotup (by rw [hlock]; exact nofun)
    · show TaskOk _ t ((w.setTask t .startLoad).tasks t)
      rw [setTask_self]
      exact ⟨rfl, hdown⟩
    · exact fun _ => nofun

/-- The holder of the lock ends, and leaves the supervisor down. -/
theorem inv_release {w : World} {t : Nat} {sup : DaemonSupervisor}
    (hfree : ∀ t', t' ≠ t → (w.tasks t').Free) (hdown : IsDown sup.state)
    (hproc : sup.proc = none) (halive : ∀ c, ¬ Alive w c) : Inv (w.release t sup) := by
  refine inv_single t ?_ ?_ ?_ (fun _ => hproc) fun c hc => absurd hc (halive c)
  · intro t' hne
    rw [show (w.release t sup).tasks t' = w.tasks t' from setTask_other w _ hne]
    exact hfree t' hne
  · rw [show (w.release t sup).tasks t = .done from setTask_self w t .done]
    trivial
  · intro hs
    rcases hdown with h | h <;> exact nomatch h.symm.trans hs

/-- The children after one more was started. -/
theorem alive_append {w w' : World} (argv : List String)
    (hc : w'.children = w.children ++ [⟨argv, none⟩]) (hnone : ∀ c, ¬ Alive w c) {c : Nat}
    (h : Alive w' c) : c = w.children.length := by
  obtain ⟨child, hget, hrc⟩ := h
  rw [hc] at hget
  by_cases hlt : c < w.children.length
  · rw [List.getElem?_append_left hlt] at hget
    exact absurd ⟨child, hget, hrc⟩ (hnone c)
  · have hlen := (List.getElem?_eq_some_iff.mp hget).1
    rw [List.length_append, List.length_singleton] at hlen
    omega

theorem inv_startLaunch {env : Env} {w : World} (h : Inv w) {t : Nat} (launch : Launch)
    (ht : w.tasks t = .startLoad) : Inv (startLaunch env w t launch) := by
  have hok := h.tasks t
  rw [ht] at hok
  obtain ⟨hlock, hdown⟩ := hok
  have hnotup : ¬ IsUp w.sup.state := by
    rcases hdown with hs | hs <;> rw [hs] <;> rintro (hu | hu) <;> exact nomatch hu
  have hfree := h.others_free hnotup hlock
  have hnone := h.none_down hdown
  cases launch with
  | loadRaises => exact inv_release hfree hdown (h.down hdown) hnone
  | binaryMissing cfg => exact inv_release hfree (.inr rfl) (h.down hdown) hnone
  | raises cfg error => exact inv_release hfree (.inr rfl) (h.down hdown) hnone
  | launched cfg now =>
      refine inv_single t ?_ ?_ (fun _ => ?_) ?_ ?_
      · intro t' hne
        rw [show (startLaunch env w t (.launched cfg now)).tasks t' = w.tasks t' from
          Function.update_of_ne hne ..]
        exact hfree t' hne
      · rw [show (startLaunch env w t (.launched cfg now)).tasks t = .startSleep from
          Function.update_self ..]
        exact ⟨hlock, rfl, nofun⟩
      · rw [show (startLaunch env w t (.launched cfg now)).sup.lock = some t from hlock]
        exact nofun
      · rintro (hd | hd) <;> exact nomatch hd
      · intro c hc
        rw [alive_append (buildArgv env cfg) rfl hnone hc]
        rfl

theorem inv_startCheck {w : World} (h : Inv w) {t watcher : Nat}
    (ht : w.tasks t = .startSleep) (hwatcher : w.tasks watcher = .idle) :
    Inv (startCheck w t watcher) := by
  have hok := h.tasks t
  rw [ht] at hok
  obtain ⟨hlock, hstate, hproc⟩ := hok
  have hnotup : ¬ IsUp w.sup.state := by
    rw [hstate]
    rintro (hu | hu) <;> exact nomatch hu
  have hfree := h.others_free hnotup hlock
  have hne : watcher ≠ t := by
    intro heq
    rw [heq, ht] at hwatcher
    exact nomatch hwatcher
  rw [startCheck]
  cases hp : w.sup.proc with
  | none => exact absurd hp hproc
  | some p =>
      cases hrc : returncode w p with
      | some rc =>
          have hnone := h.none_alive hp (by rw [hrc]; exact nofun)
          simp only [hrc]
          exact inv_release hfree (.inr rfl) rfl hnone
      | none =>
          -- the watcher is the only coroutine that counts now
          simp only [hrc]
          let w' := (w.setTask watcher .watchEntry).release t
            { w.sup with state := .running, watcherTask := some watcher }
          have hself : w'.tasks watcher = .watchEntry :=
            (setTask_other _ _ hne).trans (setTask_self w watcher _)
          refine inv_single (w := w') watcher ?_ ?_ (fun hs => nomatch hs) ?_ ?_
          · intro t' hne'
            by_cases heq : t' = t
            · rw [heq, show w'.tasks t = .done from setTask_self _ t _]
              trivial
            · rw [show w'.tasks t' = w.tasks t' from
                (setTask_other _ _ heq).trans (setTask_other w _ hne')]
              exact hfree t' heq
          · rw [hself]
            exact ⟨rfl, .inl rfl⟩
          · rintro (hd | hd) <;> exact nomatch hd
          · exact fun c hc => h.alive c hc

/-! ## `stop` -/

/-- When a `stop` begins, only watchers count, and they keep what they rely on. -/
theorem TaskOk.toStopping {w : World} {t : Nat} {p : Task} (h : TaskOk w t p)
    (hlock : w.sup.lock = none) (hs : w.sup.state = .running) :
    TaskOk { w with sup := { w.sup with state := .stopping, lastError := none } } t p ∧
      p.isStopping = false := by
  cases p with
  | startLoad => exact nomatch hlock.symm.trans h.1
  | startSleep => exact nomatch hlock.symm.trans h.1
  | stopWait r c => exact nomatch hs.symm.trans h.1
  | stopKilled r c => exact nomatch hs.symm.trans h.1
  | stopExit r c => exact nomatch hs.symm.trans h.1.1
  | watchEntry => exact ⟨⟨h.1, .inr rfl⟩, rfl⟩
  | watchWait c => exact ⟨⟨⟨h.1.1, .inr rfl⟩, h.2⟩, rfl⟩
  | watchExit c rc => exact ⟨⟨⟨h.1.1, .inr rfl⟩, h.2⟩, rfl⟩
  | _ => exact ⟨trivial, rfl⟩

theorem inv_stopEnter {w : World} (h : Inv w) {t : Nat} (restart : Bool) (signal : Signal)
    (hlock : w.sup.lock = none) : Inv (stopEnter w t restart signal) := by
  rw [stopEnter]
  cases hp : w.sup.proc with
  | none => exact h.free t (afterStop_free restart)
  | some p =>
      dsimp only
      split
      · exact h.free t (afterStop_free restart)
      · rename_i hstate
        rw [not_or] at hstate
        have hrunning : w.sup.state = .running := by
          cases hs : w.sup.state with
          | stopped => exact absurd hs hstate.1
          | starting => exact absurd hlock (h.starting hs)
          | running => rfl
          | stopping => exact absurd hs hstate.2
          | failed =>
              rw [h.down (.inr hs)] at hp
              exact nomatch hp
        have hrest := fun t' => (h.tasks t').toStopping hlock hrunning
        let next := afterSignal (.stopWait restart p) signal
        let w' : World := { (w.setTask t next) with
          sup := { w.sup with state := .stopping, lastError := none } }
        have hself : w'.tasks t = next := setTask_self w t next
        have hother : ∀ t', t' ≠ t → w'.tasks t' = w.tasks t' :=
          fun t' hne => setTask_other w next hne
        have hone : ∀ t', (w'.tasks t').isStopping = true → t' = t := by
          intro t' hs
          by_contra hne
          rw [hother t' hne, (hrest t').2] at hs
          exact nomatch hs
        show Inv w'
        refine ⟨?_, ?_, fun hs => (nomatch hs), ?_, h.alive⟩
        · intro t'
          by_cases heq : t' = t
          · rw [heq, hself]
            cases signal with
            | sent => exact ⟨rfl, hp⟩
            | raises => trivial
          · rw [hother t' heq]
            exact (hrest t').1
        · intro t' t'' h' h''
          rw [hone t' h', hone t'' h'']
        · rintro (hd | hd) <;> exact nomatch hd

theorem inv_stopWaited {w : World} (h : Inv w) {t p : Nat} {restart : Bool}
    (ht : w.tasks t = .stopWait restart p ∨ w.tasks t = .stopKilled restart p)
    (hrc : (returncode w p).isSome) : Inv (w.setTask t (.stopExit restart p)) := by
  have hok := h.tasks t
  refine h.setTask ⟨?_, Option.isSome_iff_ne_none.mp hrc⟩ fun _ => ?_
  · rcases ht with ht | ht <;> rw [ht] at hok <;> exact hok
  · rcases ht with ht | ht <;> rw [ht] <;> rfl

theorem inv_stopTimeout {w : World} (h : Inv w) {t p : Nat} {restart : Bool}
    (signal : Signal) (ht : w.tasks t = .stopWait restart p) :
    Inv (stopTimeout w t restart p signal) := by
  have hok := h.tasks t
  rw [ht] at hok
  cases signal with
  | sent => exact h.setTask hok fun _ => by rw [ht]; rfl
  | raises => exact h.free t trivial

/-- The tasks after the watcher was cancelled. -/
theorem cancel_free {tasks : Nat → Task} {watcher : Option Nat} {t : Nat}
    (h : watcher ≠ some t → (tasks t).Free) : (cancel tasks watcher t).Free := by
  cases watcher with
  | none => exact h nofun
  | some v =>
      by_cases heq : t = v
      · rw [heq, show cancel tasks (some v) v = .done from Function.update_self ..]
        trivial
      · rw [show cancel tasks (some v) t = tasks t from Function.update_of_ne heq ..]
        exact h fun hv => heq (Option.some.inj hv).symm

theorem inv_stopExit {w : World} (h : Inv w) {t p : Nat} {restart : Bool}
    (hlock : w.sup.lock = none) (ht : w.tasks t = .stopExit restart p) :
    Inv (stopExit w t restart) := by
  have hok := h.tasks t
  rw [ht] at hok
  obtain ⟨⟨hstate, hp⟩, hrc⟩ := hok
  have hnone := h.none_alive hp hrc
  have hself : (stopExit w t restart).tasks t = afterStop restart := Function.update_self ..
  refine inv_single t ?_ ?_ (fun hs => nomatch hs) (fun _ => rfl)
    fun c hc => absurd hc (hnone c)
  · intro t' hne
    rw [show (stopExit w t restart).tasks t' = cancel w.tasks w.sup.watcherTask t' from
      Function.update_of_ne hne ..]
    refine cancel_free fun hwatch => (h.tasks t').free (by rw [hlock]; exact nofun) ?_
      fun hw => absurd hw hwatch
    refine Bool.eq_false_iff.mpr fun hs => hne (h.oneStop t' t hs ?_)
    rw [ht]
    rfl
  · rw [hself]
    exact taskOk_of_free (afterStop_free restart)

/-! ## `_watch` and the children -/

theorem inv_watchEnter {w : World} (h : Inv w) {t : Nat} (ht : w.tasks t = .watchEntry) :
    Inv (watchEnter w t) := by
  have hok := h.tasks t
  rw [ht] at hok
  rw [watchEnter]
  cases hp : w.sup.proc with
  | none => exact h.free t trivial
  | some p => exact h.setTask ⟨hok, hp⟩ fun hs => nomatch hs

theorem inv_watchWaited {w : World} (h : Inv w) {t p : Nat} {rc : Int}
    (ht : w.tasks t = .watchWait p) (hrc : returncode w p = some rc) :
    Inv (w.setTask t (.watchExit p rc)) := by
  have hok := h.tasks t
  rw [ht] at hok
  exact h.setTask ⟨hok.1, hok.2, hrc⟩ fun hs => nomatch hs

theorem inv_watchExit {w : World} (h : Inv w) {t p : Nat} {rc : Int}
    (hlock : w.sup.lock = none) (ht : w.tasks t = .watchExit p rc) :
    Inv (watchExit w t rc) := by
  have hok := h.tasks t
  rw [ht] at hok
  obtain ⟨⟨hwatch, hup⟩, hp, hrc⟩ := hok
  have hnone := h.none_alive hp (by rw [hrc]; exact nofun)
  rw [watchExit]
  split
  · exact h.free t trivial
  · rename_i hstate
    refine inv_single t ?_ ?_ ?_ (fun _ => rfl) fun c hc => absurd hc (hnone c)
    · intro t' hne
      rw [show ({ (w.setTask t .done) with sup := _ } : World).tasks t' = w.tasks t' from
        setTask_other w _ hne]
      refine (h.tasks t').free (by rw [hlock]; exact nofun) ?_ fun hw => ?_
      · exact Bool.eq_false_iff.mpr fun hs => hstate ((h.tasks t').stopping hs)
      · exact absurd (Option.some.inj (hw.symm.trans hwatch)) hne
    · show TaskOk _ t ((w.setTask t .done).tasks t)
      rw [setTask_self]
      trivial
    · intro hs
      by_cases hz : rc = 0
      · exact nomatch (if_pos hz).symm.trans hs
      · exact nomatch (if_neg hz).symm.trans hs

theorem exitChild_children (w : World) (c : Nat) (rc : Int) :
    (exitChild w c rc).children
      = w.children.modify c fun child => { child with rc := some rc } := rfl

theorem returncode_exitChild {w : World} {c : Nat} (rc : Int) (hc : returncode w c = none)
    {c' : Nat} {r : Int} (h : returncode w c' = some r) :
    returncode (exitChild w c rc) c' = some r := by
  have hne : c ≠ c' := by
    rintro rfl
    exact nomatch hc.symm.trans h
  rw [returncode, exitChild_children, List.getElem?_modify_ne _ _ hne]
  exact h

theorem alive_exitChild {w : World} {c : Nat} {rc : Int} {c' : Nat}
    (h : Alive (exitChild w c rc) c') : Alive w c' := by
  obtain ⟨child, hget, hrc⟩ := h
  by_cases heq : c = c'
  · subst heq
    rw [exitChild_children, List.getElem?_modify_eq] at hget
    obtain ⟨child', -, rfl⟩ := Option.map_eq_some_iff.mp hget
    exact nomatch hrc
  · rw [exitChild_children, List.getElem?_modify_ne _ _ heq] at hget
    exact ⟨child, hget, hrc⟩

theorem inv_exitChild {w : World} (h : Inv w) {c : Nat} (rc : Int)
    (hc : returncode w c = none) : Inv (exitChild w c rc) where
  tasks := by
    intro t
    have hok := h.tasks t
    show TaskOk (exitChild w c rc) t (w.tasks t)
    cases hpc : w.tasks t with
    | stopExit r p =>
        rw [hpc] at hok
        obtain ⟨x, hx⟩ := Option.ne_none_iff_exists'.mp hok.2
        exact ⟨hok.1, by rw [returncode_exitChild rc hc hx]; exact nofun⟩
    | watchExit p r =>
        rw [hpc] at hok
        exact ⟨hok.1, hok.2.1, returncode_exitChild rc hc hok.2.2⟩
    | _ =>
        rw [hpc] at hok
        exact hok
  oneStop := h.oneStop
  starting := h.starting
  down := h.down
  alive := fun c' hc' => h.alive c' (alive_exitChild hc')

/-! ## Runs -/

/-- No `start` takes the lock while the supervisor is stopping. -/
def NotWhileStopping (w : World) : Action → Prop
  | .startEnter _ => w.sup.state ≠ .stopping
  | _ => True

instance (w : World) : DecidablePred (NotWhileStopping w)
  | .startEnter _ => inferInstanceAs (Decidable (w.sup.state ≠ .stopping))
  | .request _ _ | .startLaunch _ _ | .startCheck _ _ | .stopEnter _ _ | .stopWaited _
  | .stopTimeout _ _ | .stopExit _ | .watchEnter _ | .watchWaited _ | .watchExit _
  | .exit _ _ => .isTrue trivial

/-- **One action** keeps the invariant, a `start` while stopping excepted. -/
theorem inv_step {env : Env} {w w' : World} {a : Action} (h : Inv w)
    (hg : NotWhileStopping w a) (hs : step env w a = some w') : Inv w' := by
  -- one action at a time: its guard is read off `step`, its effect kept by its own lemma
  cases a with
  | request t r =>
      obtain ⟨-, heq⟩ := Option.ite_none_right_eq_some.mp hs
      rw [← Option.some.inj heq]
      refine h.free t ?_
      cases r <;> trivial
  | startEnter t =>
      obtain ⟨⟨-, hlock⟩, heq⟩ := Option.ite_none_right_eq_some.mp hs
      rw [← Option.some.inj heq]
      exact inv_startEnter h t hlock hg
  | startLaunch t launch =>
      obtain ⟨ht, heq⟩ := Option.ite_none_right_eq_some.mp hs
      rw [← Option.some.inj heq]
      exact inv_startLaunch h launch ht
  | startCheck t watcher =>
      obtain ⟨⟨ht, hw⟩, heq⟩ := Option.ite_none_right_eq_some.mp hs
      rw [← Option.some.inj heq]
      exact inv_startCheck h ht hw
  | stopEnter t signal =>
      rw [step] at hs
      split at hs
      · obtain ⟨hlock, heq⟩ := Option.ite_none_right_eq_some.mp hs
        rw [← Option.some.inj heq]
        exact inv_stopEnter h _ signal hlock
      · exact nomatch hs
  | stopWaited t =>
      rw [step] at hs
      split at hs
      · rename_i restart p ht
        obtain ⟨hrc, heq⟩ := Option.ite_none_right_eq_some.mp hs
        rw [← Option.some.inj heq]
        exact inv_stopWaited h (.inl ht) hrc
      · rename_i restart p ht
        obtain ⟨hrc, heq⟩ := Option.ite_none_right_eq_some.mp hs
        rw [← Option.some.inj heq]
        exact inv_stopWaited h (.inr ht) hrc
      · exact nomatch hs
  | stopTimeout t signal =>
      rw [step] at hs
      split at hs
      · rename_i restart p ht
        rw [← Option.some.inj hs]
        exact inv_stopTimeout h signal ht
      · exact nomatch hs
  | stopExit t =>
      rw [step] at hs
      split at hs
      · rename_i restart p ht
        obtain ⟨hlock, heq⟩ := Option.ite_none_right_eq_some.mp hs
        rw [← Option.some.inj heq]
        exact inv_stopExit h hlock ht
      · exact nomatch hs
  | watchEnter t =>
      obtain ⟨ht, heq⟩ := Option.ite_none_right_eq_some.mp hs
      rw [← Option.some.inj heq]
      exact inv_watchEnter h ht
  | watchWaited t =>
      rw [step] at hs
      split at hs
      · rename_i p ht
        obtain ⟨rc, hrc, rfl⟩ := Option.map_eq_some_iff.mp hs
        exact inv_watchWaited h ht hrc
      · exact nomatch hs
  | watchExit t =>
      rw [step] at hs
      split at hs
      · rename_i p rc ht
        obtain ⟨hlock, heq⟩ := Option.ite_none_right_eq_some.mp hs
        rw [← Option.some.inj heq]
        exact inv_watchExit h hlock ht
      · exact nomatch hs
  | exit c rc =>
      rw [step] at hs
      split at hs
      · rename_i argv hc
        rw [← Option.some.inj hs]
        refine inv_exitChild h rc ?_
        rw [returncode, hc]
        rfl
      · exact nomatch hs

/-- At most one child is alive, and none when the supervisor reports that it is
    stopped or has failed. -/
structure Consistent (w : World) : Prop where
  oneChild : ∀ c c', Alive w c → Alive w c' → c = c'
  down : (status w.sup).state = .stopped ∨ (status w.sup).state = .failed →
    ∀ c, ¬ Alive w c

theorem Inv.consistent {w : World} (h : Inv w) : Consistent w where
  oneChild := fun c c' hc hc' =>
    Option.some.inj ((h.alive c hc).symm.trans (h.alive c' hc'))
  down := h.none_down

/-- **Supervision is consistent** in every state of a run in which no `start`
    takes the lock while the supervisor is stopping. -/
theorem supervision_consistent {env : Env} {acts : List Action}
    (hg : Runs.Along (step env) NotWhileStopping init acts) {w : World}
    (hv : Runs.Visits (step env) init acts w) : Consistent w :=
  (Runs.visits_invariant (fun _ _ _ hi hp hs => inv_step hi hp hs) inv_init hg hv).consistent

def labEnv : Env := ⟨"/opt/fso_gw_runner", false⟩

/-- A start; a restart, and a stop beside it; the second child exits by itself. -/
def restartRun : List Action :=
  [.request 0 .start, .startEnter 0, .startLaunch 0 (.launched {} 1), .startCheck 0 1,
    .watchEnter 1, .request 2 .restart, .stopEnter 2 .sent, .request 3 .stop,
    .stopEnter 3 .sent, .stopTimeout 2 .sent, .exit 0 (-9), .watchWaited 1, .stopWaited 2,
    .watchExit 1, .stopExit 2, .startEnter 2, .startLaunch 2 (.launched {} 2),
    .startCheck 2 4, .watchEnter 4, .exit 1 3, .watchWaited 4, .watchExit 4]

theorem supervision_consistent_restart :
    ∃ w, Runs.run (step labEnv) init restartRun = some w ∧
      (status w.sup).state = .failed ∧ Consistent w := by
  have hg : Runs.Along (step labEnv) NotWhileStopping init restartRun := by decide
  exact ⟨_, rfl, rfl, supervision_consistent hg (.run rfl)⟩

/-- **A `start` while stopping** launches a second child beside the first. -/
theorem second_child (env : Env) {w : World} {t c : Nat} (cfg : GatewayConfig) (now : Nat)
    (hstate : w.sup.state = .stopping) (hlock : w.sup.lock = none)
    (ht : w.tasks t = .startEntry) (hc : Alive w c) :
    ∃ w', Runs.run (step env) w [.startEnter t, .startLaunch t (.launched cfg now)] = some w' ∧
      ¬ Consistent w' := by
  let w1 : World := { (w.setTask t .startLoad) with sup := { w.sup with lock := some t } }
  have h1 : step env w (.startEnter t) = some w1 := by
    rw [step, if_pos ⟨ht, hlock⟩, startEnter, hstate, if_neg (by decide)]
  have h2 : step env w1 (.startLaunch t (.launched cfg now))
      = some (startLaunch env w1 t (.launched cfg now)) := if_pos (setTask_self w t _)
  refine ⟨_, Runs.run_cons.mpr ⟨w1, h1, Runs.run_cons.mpr ⟨_, h2, rfl⟩⟩, ?_⟩
  intro hcon
  obtain ⟨child, hget, hrc⟩ := hc
  have hlt : c < w.children.length := (List.getElem?_eq_some_iff.mp hget).1
  have hold : Alive (startLaunch env w1 t (.launched cfg now)) c :=
    ⟨child, (List.getElem?_append_left hlt).trans hget, hrc⟩
  have hnew : Alive (startLaunch env w1 t (.launched cfg now)) w.children.length :=
    ⟨⟨buildArgv env cfg, none⟩, List.getElem?_concat_length .., rfl⟩
  have heq := hcon.oneChild c _ hold hnew
  omega

/-- A start, a stop, and another start while the child takes its time; then the
    child exits and the stop goes on. -/
def orphanRun : List Action :=
  [.request 0 .start, .startEnter 0, .startLaunch 0 (.launched {} 1), .startCheck 0 1,
    .watchEnter 1, .request 2 .stop, .stopEnter 2 .sent, .request 3 .start, .startEnter 3,
    .startLaunch 3 (.launched {} 2), .startCheck 3 4, .watchEnter 4, .exit 0 (-15),
    .stopWaited 2, .stopExit 2]

/-- Two children are alive on the way, and at the end the second one still is,
    although the supervisor reports that it is stopped. -/
theorem supervision_orphan :
    (∃ w, Runs.Visits (step labEnv) init orphanRun w ∧ Alive w 0 ∧ Alive w 1 ∧
      ¬ Consistent w) ∧
    ∃ w, Runs.run (step labEnv) init orphanRun = some w ∧
      (status w.sup).state = .stopped ∧ Alive w 1 ∧ ¬ Consistent w := by
  constructor
  · refine ⟨_, ⟨orphanRun.take 10, List.take_prefix .., rfl⟩, ⟨_, rfl, rfl⟩, ⟨_, rfl, rfl⟩, ?_⟩
    intro h
    exact absurd (h.oneChild 0 1 ⟨_, rfl, rfl⟩ ⟨_, rfl, rfl⟩) (by decide)
  · refine ⟨_, rfl, rfl, ⟨_, rfl, rfl⟩, ?_⟩
    intro h
    exact h.down (.inl rfl) 1 ⟨_, rfl, rfl⟩

end FsoDaemon
