import FsoGateway.Deinterleaver
import FsoGateway.Lib.RingBuffer

/-! # The event ring of the control server

    The control server registers both callbacks of the deinterleaver; each call
    writes one entry into a ring of `EVENT_RING_CAP`, which every snapshot
    drains.  The ring is guarded by a mutex, so that drains may come between any
    two callback calls, also between the two of one eviction.

    * `onCall_ring`, `eventsDrain_pending` — the ring as a `RingBuffer`;
    * `delivered_run` — while the ring has room, nothing is lost or reordered. -/

namespace FsoControlServer

open FsoDeinterleaver

/-- `EVENT_RING_CAP`. -/
def eventRingCap : Nat := 256

/-- `struct block_event`. -/
structure BlockEvent where
  blockId : UInt32
  tsMs : Int
  reason : BlockFinalReason
  isEviction : Bool
  deriving DecidableEq

/-- `struct control_server`: its event ring. -/
structure ControlServer where
  events : Nat → BlockEvent
  eventsHead : Nat
  eventsCount : Nat

/-- `events_push`. -/
def eventsPush (cs : ControlServer) (nowMs : Int) (blockId : UInt32)
    (reason : BlockFinalReason) (isEviction : Bool) : ControlServer where
  events := Function.update cs.events cs.eventsHead ⟨blockId, nowMs, reason, isEviction⟩
  eventsHead := (cs.eventsHead + 1) % eventRingCap
  eventsCount :=
    if cs.eventsCount < eventRingCap then cs.eventsCount + 1 else cs.eventsCount

/-- `events_drain`. -/
def eventsDrain (cs : ControlServer) (max : Nat) : List BlockEvent × ControlServer :=
  let count := if max < cs.eventsCount then max else cs.eventsCount
  let start := (cs.eventsHead + eventRingCap - cs.eventsCount) % eventRingCap
  ((List.range count).map fun i => cs.events ((start + i) % eventRingCap),
    { cs with eventsCount := 0 })

/-- `on_block_final_cb`. -/
def onBlockFinalCb (cs : ControlServer) (nowMs : Int) (blockId : UInt32)
    (reason : BlockFinalReason) : ControlServer :=
  eventsPush cs nowMs blockId reason false

/-- `on_eviction_cb`. -/
def onEvictionCb (cs : ControlServer) (nowMs : Int) (evictedBlockId : UInt32)
    (reason : BlockFinalReason) : ControlServer :=
  eventsPush cs nowMs evictedBlockId reason true

/-- One call of a callback of the deinterleaver. -/
def onCall (cs : ControlServer) (nowMs : Int) : CbCall → ControlServer
  | .final blockId reason => onBlockFinalCb cs nowMs blockId reason
  | .eviction blockId reason => onEvictionCb cs nowMs blockId reason

/-! ## Runs -/

/-- What happens to the ring: a callback call, at a reading of the clock, or
    the drain of a snapshot. -/
inductive EventOp where
  | callback (call : CbCall) (nowMs : Int)
  | drain (max : Nat)

/-- The server, and the events that the snapshots have carried so far. -/
def eventStep (st : ControlServer × List BlockEvent) :
    EventOp → ControlServer × List BlockEvent
  | .callback call nowMs => (onCall st.1 nowMs call, st.2)
  | .drain max =>
      let r := eventsDrain st.1 max
      (r.2, st.2 ++ r.1)

def eventRun (cs : ControlServer) (ops : List EventOp) :
    ControlServer × List BlockEvent :=
  ops.foldl eventStep (cs, [])

/-- The entry that a callback call writes. -/
def eventOf (nowMs : Int) : CbCall → BlockEvent
  | .final blockId reason => ⟨blockId, nowMs, reason, false⟩
  | .eviction blockId reason => ⟨blockId, nowMs, reason, true⟩

/-- The callback calls among `ops`. -/
def callsOf (ops : List EventOp) : List CbCall :=
  ops.filterMap fun
    | .callback call _ => some call
    | .drain _ => none

/-- The event stream: what the callbacks wrote, in order. -/
def streamOf (ops : List EventOp) : List BlockEvent :=
  ops.filterMap fun
    | .callback call nowMs => some (eventOf nowMs call)
    | .drain _ => none

/-! ## The ring -/

/-- The ring of the server. -/
def ringOf (cs : ControlServer) : RingBuffer BlockEvent :=
  ⟨cs.events, cs.eventsHead, cs.eventsCount⟩

/-- What the next drain would find. -/
def pendingEvents (cs : ControlServer) : List BlockEvent :=
  RingBuffer.pending eventRingCap (ringOf cs)

theorem onCall_ring (cs : ControlServer) (nowMs : Int) (call : CbCall) :
    ringOf (onCall cs nowMs call)
      = RingBuffer.push eventRingCap (ringOf cs) (eventOf nowMs call) := by
  cases call <;> rfl

/-- **A drain** with enough room takes everything. -/
theorem eventsDrain_pending {cs : ControlServer} {max : Nat} (h : cs.eventsCount ≤ max) :
    (eventsDrain cs max).1 = pendingEvents cs := by
  rw [eventsDrain]
  dsimp only
  rw [if_neg (Nat.not_lt.mpr h)]
  rfl

/-- The ring has room for each call, and each drain for what is pending; `n`
    events are pending at first. -/
def RoomFor : Nat → List EventOp → Prop
  | _, [] => True
  | n, .callback _ _ :: ops => n < eventRingCap ∧ RoomFor (n + 1) ops
  | n, .drain max :: ops => n ≤ max ∧ RoomFor 0 ops

theorem delivered_fold (ops : List EventOp) (out : List BlockEvent) {cs : ControlServer}
    (hg : RingBuffer.Good eventRingCap (ringOf cs)) (hroom : RoomFor cs.eventsCount ops) :
    (ops.foldl eventStep (cs, out)).2 ++ pendingEvents (ops.foldl eventStep (cs, out)).1
      = out ++ pendingEvents cs ++ streamOf ops := by
  induction ops generalizing cs out with
  | nil => exact (List.append_nil _).symm
  | cons op ops ih =>
      cases op with
      | callback call nowMs =>
          obtain ⟨hlt, hrest⟩ := hroom
          have hcount : (onCall cs nowMs call).eventsCount = cs.eventsCount + 1 := by
            cases call <;> exact if_pos hlt
          have hg' : RingBuffer.Good eventRingCap (ringOf (onCall cs nowMs call)) := by
            rw [onCall_ring]
            exact RingBuffer.good_push hg _
          have hpend : pendingEvents (onCall cs nowMs call)
              = pendingEvents cs ++ [eventOf nowMs call] := by
            rw [pendingEvents, onCall_ring, RingBuffer.pending_push hg,
              if_pos (show (ringOf cs).count < eventRingCap from hlt)]
            rfl
          rw [← hcount] at hrest
          have h := ih out hg' hrest
          rw [hpend, List.append_assoc, List.append_assoc, List.singleton_append,
            ← List.append_assoc] at h
          exact h
      | drain max =>
          obtain ⟨hle, hrest⟩ := hroom
          have hg' : RingBuffer.Good eventRingCap (ringOf { cs with eventsCount := 0 }) :=
            ⟨hg.head, Nat.zero_le _⟩
          have hpend : pendingEvents { cs with eventsCount := 0 } = [] := rfl
          have h := ih (out ++ pendingEvents cs) hg' hrest
          rw [hpend, List.append_nil] at h
          have hstep : eventStep (cs, out) (.drain max)
              = ({ cs with eventsCount := 0 }, out ++ pendingEvents cs) := by
            rw [← eventsDrain_pending hle]
            rfl
          rw [List.foldl_cons, hstep]
          exact h

/-- **Nothing is lost or reordered** on the way to the snapshots as long as the
    ring has room. -/
theorem delivered_run (ops : List EventOp) {cs : ControlServer}
    (hhead : cs.eventsHead < eventRingCap) (hempty : cs.eventsCount = 0)
    (hroom : RoomFor 0 ops) :
    (eventRun cs ops).2 ++ pendingEvents (eventRun cs ops).1 = streamOf ops := by
  have hg : RingBuffer.Good eventRingCap (ringOf cs) :=
    ⟨hhead, by rw [show (ringOf cs).count = 0 from hempty]; exact Nat.zero_le _⟩
  have hpend : pendingEvents cs = [] := by
    rw [pendingEvents, RingBuffer.pending, show (ringOf cs).count = 0 from hempty]
    rfl
  rw [← hempty] at hroom
  have h := delivered_fold ops [] hg hroom
  rw [hpend] at h
  exact h

end FsoControlServer
