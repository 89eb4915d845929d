import FsoGateway.ControlServer
import FsoGateway.Lib.Segments

/-! # What a drain of the event ring returns

    `src/control_server.c`: a push writes at the head and, when the ring is full,
    over its oldest event; a drain reads from the oldest event on and sets the
    count to 0, but leaves the head where it is.

    * `ringRun_spec` — the events of each drain, and those still in the ring;
    * `drain_newest` — a drain returns the newest events since the one before,
      oldest first, and no event is returned twice. -/

namespace FsoControlServer

open FsoDeinterleaver Segments

/-! ## Runs of the ring -/

/-- A call of `events_push`, or of `events_drain` with room for the ring. -/
inductive RingCall where
  | push (nowMs : Int) (blockId : UInt32) (reason : BlockFinalReason) (isEviction : Bool)
  | drain (max : Nat) (room : eventRingCap ≤ max)

def RingCall.isDrain : RingCall → Bool
  | .push .. => false
  | .drain .. => true

/-- The event that a push writes. -/
def RingCall.event : RingCall → Option BlockEvent
  | .push nowMs blockId reason isEviction => some ⟨blockId, nowMs, reason, isEviction⟩
  | .drain .. => none

/-- The events that are pushed. -/
def pushed (calls : List RingCall) : List BlockEvent := calls.filterMap RingCall.event

/-- The server as `calloc` leaves it. -/
def controlServer : ControlServer := ⟨fun _ => ⟨0, 0, .none, false⟩, 0, 0⟩

/-- The server, and what each drain has returned. -/
def ringStep (st : ControlServer × List (List BlockEvent)) :
    RingCall → ControlServer × List (List BlockEvent)
  | .push nowMs blockId reason isEviction =>
    (eventsPush st.1 nowMs blockId reason isEviction, st.2)
  | .drain max _ =>
    let r := eventsDrain st.1 max
    (r.2, st.2 ++ [r.1])

def ringRun (calls : List RingCall) : ControlServer × List (List BlockEvent) :=
  calls.foldl ringStep (controlServer, [])

/-! ## One call -/

theorem ringRun_concat (calls : List RingCall) (c : RingCall) :
    ringRun (calls ++ [c]) = ringStep (ringRun calls) c := by
  rw [ringRun, List.foldl_append]
  rfl

theorem pushed_concat (calls : List RingCall) (c : RingCall) :
    pushed (calls ++ [c]) = pushed calls ++ c.event.toList := by
  rw [pushed, List.filterMap_append]
  cases c <;> rfl

/-- **The events of a ring**: of those since the last drain as many as fit. -/
structure RingSpec (calls : List RingCall) (st : ControlServer × List (List BlockEvent)) :
    Prop where
  good : RingBuffer.Good eventRingCap (ringOf st.1)
  pending : pendingEvents st.1
    = RingBuffer.lastN eventRingCap (pushed (Segments.pending RingCall.isDrain calls))
  drained : st.2 = (closed RingCall.isDrain calls).map fun segment =>
    RingBuffer.lastN eventRingCap (pushed segment)

theorem RingSpec.step {calls : List RingCall} {st : ControlServer × List (List BlockEvent)}
    (h : RingSpec calls st) (c : RingCall) : RingSpec (calls ++ [c]) (ringStep st c) := by
  cases c with
  | push nowMs blockId reason isEviction =>
      obtain ⟨hclosed, hpending⟩ := concat_other (p := RingCall.isDrain)
        (a := .push nowMs blockId reason isEviction) rfl calls
      obtain ⟨hgood, hring⟩ := RingBuffer.pending_pushAll [⟨blockId, nowMs, reason, isEviction⟩]
        h.good h.pending
      refine ⟨hgood, ?_, ?_⟩
      · rw [hpending, pushed_concat]
        exact hring
      · rw [hclosed]
        exact h.drained
  | drain max room =>
      obtain ⟨hclosed, hpending⟩ := concat_sep (p := RingCall.isDrain)
        (a := .drain max room) rfl calls
      refine ⟨⟨h.good.head, Nat.zero_le _⟩, ?_, ?_⟩
      · rw [hpending]
        rfl
      · have hcount : st.1.eventsCount ≤ max := Nat.le_trans h.good.count room
        rw [hclosed, List.map_append, List.map_singleton, ← h.drained, ← h.pending,
          ← eventsDrain_pending hcount]
        rfl

/-- **Every run** of pushes and drains. -/
theorem ringRun_spec (calls : List RingCall) : RingSpec calls (ringRun calls) := by
  induction calls using List.reverseRecOn with
  | nil => exact ⟨⟨by decide, Nat.zero_le _⟩, rfl, rfl⟩
  | append_singleton calls c ih =>
      rw [ringRun_concat]
      exact ih.step c

/-! ## In order, and once -/

theorem lastN_sublist {α : Type} (n : Nat) (l : List α) : (RingBuffer.lastN n l).Sublist l :=
  List.drop_sublist _ _

/-- What the drains return comes in the order of the pushes, each event once;
    what has been pushed since is still to come. -/
theorem drained_sublist (calls : List RingCall) :
    ((ringRun calls).2.flatten ++ pushed (pending RingCall.isDrain calls)).Sublist
      (pushed calls) := by
  induction calls using List.reverseRecOn with
  | nil => exact List.Sublist.refl _
  | append_singleton calls c ih =>
      have hspec := (ringRun_spec (calls ++ [c])).drained
      have hbefore := (ringRun_spec calls).drained
      rw [pushed_concat]
      cases c with
      | push nowMs blockId reason isEviction =>
          obtain ⟨hclosed, hpending⟩ := concat_other (p := RingCall.isDrain)
            (a := .push nowMs blockId reason isEviction) rfl calls
          rw [hspec, hclosed, ← hbefore, hpending, pushed_concat, ← List.append_assoc]
          exact ih.append_right _
      | drain max room =>
          obtain ⟨hclosed, hpending⟩ := concat_sep (p := RingCall.isDrain)
            (a := .drain max room) rfl calls
          rw [hspec, hclosed, hpending, List.map_append, List.map_singleton, ← hbefore,
            List.flatten_append, List.flatten_singleton]
          refine List.Sublist.trans ?_ (ih.trans (List.sublist_append_left _ _))
          rw [show pushed [] = [] from rfl, List.append_nil]
          exact (lastN_sublist _ _).append_left _

/-- **The newest events.**  After any pushes and drains, a drain returns the last
    `min n 256` of the `n` events pushed since the drain before, oldest first,
    and leaves the ring empty; so did every drain before it.  Together they
    return the events in the order of the pushes, and none twice. -/
theorem drain_newest (calls : List RingCall) (max : Nat) (room : eventRingCap ≤ max) :
    let since := pushed (pending RingCall.isDrain calls)
    let r := eventsDrain (ringRun calls).1 max
    r.1 = since.drop (since.length - eventRingCap)
      ∧ r.1.length = min since.length eventRingCap
      ∧ r.2.eventsCount = 0 ∧ pendingEvents r.2 = []
      ∧ (ringRun calls).2 = ((closed RingCall.isDrain calls).map fun segment =>
          (pushed segment).drop ((pushed segment).length - eventRingCap))
      ∧ ((ringRun calls).2.flatten ++ r.1).Sublist (pushed calls) := by
  have hspec := ringRun_spec calls
  have hdrain : (eventsDrain (ringRun calls).1 max).1
      = RingBuffer.lastN eventRingCap (pushed (pending RingCall.isDrain calls)) := by
    rw [eventsDrain_pending (Nat.le_trans hspec.good.count room)]
    exact hspec.pending
  refine ⟨hdrain, ?_, rfl, rfl, hspec.drained, ?_⟩
  · rw [hdrain, RingBuffer.lastN_length, Nat.min_comm]
  · rw [hdrain]
    exact ((lastN_sublist _ _).append_left _).trans (drained_sublist calls)

/-- An event before a drain, and 300 after it. -/
def manyEvents : List RingCall :=
  [.push 10 1 .decodeSuccess false, .drain 256 (Nat.le_refl _)] ++
    (List.range 300).map fun (i : Nat) => .push (20 + i) (UInt32.ofNat i) .decodeFailed false

/-- The second drain returns the last 256: those before are written over. -/
theorem drain_newest_manyEvents :
    (eventsDrain (ringRun manyEvents).1 256).1
      = (List.range 256).map fun (i : Nat) =>
          ⟨UInt32.ofNat (44 + i), 20 + (44 + i), .decodeFailed, false⟩ := by
  obtain ⟨hdrain, -⟩ := drain_newest manyEvents 256 (Nat.le_refl _)
  rw [hdrain]
  decide +kernel

end FsoControlServer
