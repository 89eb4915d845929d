import FsoGateway.BlockAccounting
import FsoGateway.ControlServer

/-! # The event stream of the control server

    Every block that gives up its slot is reported by the final callback.  An
    eviction is reported by the eviction callback too, and both callbacks write
    into the ring: an evicted block has two events, the second of which is not
    marked as an eviction.

    * `run_calls` — the callback calls of a run, exit by exit;
    * `neverEvicts_iff` — the runs without an eviction;
    * `one_event_per_exit_iff` — the stream has one event for each exit exactly in
      these runs. -/

namespace FsoControlServer

open ByteBuffer FsoTypes SlotPool
open FsoDeinterleaver hiding BlockEvent

/-! ## The calls for one exit -/

/-- The reasons of `alloc_slot`. -/
def isEvicted : BlockFinalReason → Bool
  | .discardedEvictedBeforeDecode => true
  | .discardedReadyEvictedBeforeMark => true
  | _ => false

/-- The callback calls for one exit, when both callbacks are registered. -/
def exitCalls (e : UInt32 × BlockFinalReason) : List CbCall :=
  (if isEvicted e.2 then [.eviction e.1 e.2] else []) ++ [.final e.1 e.2]

/-- Both callbacks are registered. -/
structure Watched (d : Deinterleaver) : Prop where
  finalCb : d.finalCb = true
  evictionCb : d.evictionCb = true

theorem Watched.same {d d' : Deinterleaver} (h : Watched d) (hp : SameParams d d') :
    Watched d' :=
  ⟨hp.finalCb.trans h.finalCb, hp.evictionCb.trans h.evictionCb⟩

/-- The calls are those of the exits that they report. -/
def Paired (calls : List CbCall) : Prop := calls = (finals calls).flatMap exitCalls

theorem Paired.nil : Paired [] := rfl

theorem Paired.append {l l' : List CbCall} (h : Paired l) (h' : Paired l') :
    Paired (l ++ l') := by
  rw [Paired, finals_append, List.flatMap_append, ← h, ← h']

theorem paired_endCalls {d : Deinterleaver} (h : Watched d) {evict : Bool} (b : UInt32)
    {r : BlockFinalReason} (hr : isEvicted r = evict) : Paired (endCalls d evict b r) := by
  rw [Paired, finals_endCalls h.finalCb, List.flatMap_singleton, exitCalls, endCalls,
    h.finalCb, h.evictionCb, hr, Bool.and_true]
  rfl

theorem isEvicted_discardReason (d : Deinterleaver) (s : Slot) :
    isEvicted (discardReason d s) = false := by
  rw [discardReason]
  split <;> rfl

theorem paired_settleCalls {d : Deinterleaver} (h : Watched d) (s : Slot) (t : ℚ)
    (now : Nat) : Paired (settleCalls d s t now) := by
  rw [settleCalls]
  split
  · exact paired_endCalls h _ (isEvicted_discardReason d s)
  · exact .nil

theorem paired_allocCalls {d : Deinterleaver} (h : Watched d) (i : Nat) :
    Paired (allocCalls d i) := by
  rw [allocCalls]
  split
  · exact .nil
  · exact paired_endCalls h _ rfl
  · exact paired_endCalls h _ rfl

/-! ## The calls of a run -/

/-- From `d` to `d'` the exits were reported, each by its calls. -/
def Reports (d d' : Deinterleaver) : Prop :=
  Watched d → Watched d' ∧ ∃ calls, d'.cbLog = d.cbLog ++ calls ∧ Paired calls

theorem Reports.trans {d d' d'' : Deinterleaver} (h : Reports d d') (h' : Reports d' d'') :
    Reports d d'' := by
  intro hw
  obtain ⟨hw1, calls, hc, hp⟩ := h hw
  obtain ⟨hw2, calls', hc', hp'⟩ := h' hw1
  exact ⟨hw2, calls ++ calls', by rw [hc', hc, List.append_assoc], hp.append hp'⟩

/-- Nothing is reported. -/
theorem Reports.silent {d d' : Deinterleaver} (hw : Watched d → Watched d')
    (hl : d'.cbLog = d.cbLog) : Reports d d' :=
  fun h => ⟨hw h, [], by rw [hl, List.append_nil], .nil⟩

theorem reports_push {d : Deinterleaver} (sym : Symbol) (now : Nat)
    (hpos : 0 < d.maxActiveBlocks) : Reports d (deinterleaverPushSymbol d sym now).2 := by
  have heff := push_effect sym now hpos
  generalize deinterleaverPushSymbol d sym now = r at heff ⊢
  cases heff with
  | dropped hp _ hl _ => exact .silent (fun h => h.same hp) hl
  | stored _ _ hb _ hp _ hl =>
      intro hw
      refine ⟨hw.same hp, _, by rw [hl, List.append_assoc], ?_⟩
      refine Paired.append ?_ (paired_settleCalls hw _ _ now)
      cases hb with
      | found => exact .nil
      | opened => exact paired_allocCalls hw _

theorem reports_tick (d : Deinterleaver) (override : ℚ) (now : Nat) :
    Reports d (deinterleaverTick d override now).2 := by
  rw [deinterleaverTick]
  generalize tickTimeoutMs d override = t
  induction d.maxActiveBlocks with
  | zero => exact .silent id rfl
  | succ n ih =>
      rw [List.range_succ, List.foldl_append, List.foldl_cons, List.foldl_nil]
      generalize (List.range n).foldl (tickStep t now) (0, d) = acc at ih ⊢
      obtain ⟨c, d1⟩ := acc
      obtain ⟨hp, -, hl⟩ := tickStep_spec t now c d1 n
      refine ih.trans fun hw => ⟨hw.same hp, _, hl, ?_⟩
      split
      · exact paired_settleCalls hw _ t now
      · exact .nil

theorem reports_mark (d : Deinterleaver) (b : UInt32) (ok : Bool) :
    Reports d (deinterleaverMarkResult d b ok).2 := by
  rcases markResult_effect d b ok with ⟨heq, -⟩ | ⟨i, -, hs, heq⟩
  · rw [heq]
    exact .silent id rfl
  · rw [heq]
    have hr : (if ok then BlockFinalReason.decodeSuccess else .decodeFailed) ≠ .none := by
      cases ok <;> decide
    intro hw
    refine ⟨hw.same (sameParams_finalize d i _), _,
      finalize_cbLog (by rw [hs]; decide) hr, paired_endCalls hw _ ?_⟩
    cases ok <;> rfl

theorem reports_step {d : Deinterleaver} {seen : UInt32 → List Symbol} (op : Op)
    (h : PoolInv d seen) : Reports d (step d op) := by
  cases op with
  | push sym now => exact reports_push sym now h.params.slots
  | tick override now => exact reports_tick d override now
  | getReadyBlock =>
      show Reports d (deinterleaverGetReadyBlock d).2
      rw [getReady_eq h]
      exact .silent id rfl
  | markResult b ok => exact reports_mark d b ok
  | incCrcDrop => exact .silent (fun h => ⟨h.finalCb, h.evictionCb⟩) rfl
  | setBlockFinalCallback => exact .silent (fun h => ⟨rfl, h.evictionCb⟩) rfl
  | setEvictionCallback => exact .silent (fun h => ⟨h.finalCb, rfl⟩) rfl

theorem reports_run (ops : List Op) {d : Deinterleaver} {seen : UInt32 → List Symbol}
    (h : PoolInv d seen) : Reports d (run d ops) := by
  induction ops generalizing d seen with
  | nil => exact .silent id rfl
  | cons op ops ih => exact (reports_step op h).trans (ih (poolInv_step op h))

/-- The ids and reasons with which slots were given up in a run. -/
def runExits (d : Deinterleaver) (ops : List Op) : List (UInt32 × BlockFinalReason) :=
  (runEvents d ops).filterMap Event.exit

/-- **The callback calls of a run**, exit by exit. -/
theorem run_calls (ops : List Op) {d : Deinterleaver} {seen : UInt32 → List Symbol}
    (h : PoolInv d seen) (hw : Watched d) :
    (run d ops).cbLog = d.cbLog ++ (runExits d ops).flatMap exitCalls := by
  obtain ⟨-, calls, hc, hp⟩ := reports_run ops h hw
  have hf := (accounted_run ops h).finals hw.finalCb
  rw [hc, finals_append] at hf
  have hexits : finals calls = runExits d ops := List.append_cancel_left hf
  rw [hc, ← hexits, ← hp]

/-! ## Evictions -/

/-- The call makes `alloc_slot` evict: an accepted symbol of a block that is not
    in the pool, when no slot is EMPTY. -/
def evicts (d : Deinterleaver) : Op → Bool
  | .push sym _ =>
      !isErasure sym && !isRejected d sym && (findSlotAny d sym.packetId).isNone &&
        (List.range d.maxActiveBlocks).all fun i => decide ((d.slots i).state ≠ .empty)
  | _ => false

/-- No call of the run evicts. -/
def NeverEvicts (d : Deinterleaver) (ops : List Op) : Prop := callCount evicts d ops = 0

theorem settleEvents_evicted (d : Deinterleaver) (s : Slot) (i : Nat) (t : ℚ) (now : Nat) :
    (settleEvents d s i t now).countP (Event.isLeft isEvicted) = 0 := by
  rw [settleEvents]
  cases freezeRc d s t now with
  | none => rfl
  | ready => rfl
  | recycle =>
      rw [List.countP_singleton, Event.isLeft, isEvicted_discardReason]
      rfl

theorem storeEvents_evicted (d : Deinterleaver) (base : Slot) (i : Nat) (sym : Symbol)
    (now : Nat) : (storeEvents d base i sym now).countP (Event.isLeft isEvicted) = 0 := by
  rw [storeEvents, List.countP_cons, settleEvents_evicted]
  rfl

/-- A slot that `alloc_slot` takes is given up by an eviction exactly when no slot
    was EMPTY. -/
theorem allocEvents_evicted {d : Deinterleaver} {now i : Nat} (hi : i < d.maxActiveBlocks)
    (hc : AllocChoice d now i) :
    (allocEvents d i).countP (Event.isLeft isEvicted)
      = ((List.range d.maxActiveBlocks).all
          fun j => decide ((d.slots j).state ≠ .empty)).toNat := by
  rw [allocEvents]
  cases hc with
  | free hs =>
      have hall : (List.range d.maxActiveBlocks).all
          (fun j => decide ((d.slots j).state ≠ .empty)) = false := by
        rw [List.all_eq_false]
        exact ⟨i, List.mem_range.mpr hi, by rw [hs]; decide⟩
      rw [hs, hall]
      rfl
  | ready hs hfull _ =>
      have hall : (List.range d.maxActiveBlocks).all
          (fun j => decide ((d.slots j).state ≠ .empty)) = true :=
        List.all_eq_true.mpr fun j hj => decide_eq_true (hfull j (List.mem_range.mp hj))
      rw [hs, hall]
      rfl
  | filling hs hfull _ =>
      have hall : (List.range d.maxActiveBlocks).all
          (fun j => decide ((d.slots j).state ≠ .empty)) = true := by
        refine List.all_eq_true.mpr fun j hj => decide_eq_true ?_
        rw [hfull j (List.mem_range.mp hj)]
        decide
      rw [hs, hall]
      rfl

theorem pushEvents_evicted {d : Deinterleaver} (sym : Symbol) (now : Nat)
    (hpos : 0 < d.maxActiveBlocks) :
    (pushEvents d sym now).countP (Event.isLeft isEvicted)
      = (evicts d (.push sym now)).toNat := by
  rw [pushEvents, pushOutcome, evicts]
  cases her : isErasure sym with
  | true => rfl
  | false =>
      cases hrej : isRejected d sym with
      | true => rfl
      | false =>
          simp only [Bool.false_eq_true, if_false, Bool.not_false, Bool.true_and]
          cases hf : findSlotAny d sym.packetId with
          | none =>
              obtain ⟨i, d', ha, hi, -, hc, -, -⟩ := allocSlot_spec sym.packetId now hpos
              simp only [ha, if_true, Option.isNone_none, Bool.true_and]
              rw [List.countP_append, List.countP_cons, storeEvents_evicted,
                allocEvents_evicted hi hc]
              rfl
          | some i =>
              simp only [Option.isNone_some, Bool.false_and, Bool.toNat_false]
              -- whatever the push counts as, it opens no slot
              have hopen : ∀ o : Option PushOutcome,
                  (if o = some .stored then storeEvents d (d.slots i) i sym now
                    else []).countP (Event.isLeft isEvicted) = 0 := by
                intro o
                split
                · exact storeEvents_evicted d _ i sym now
                · rfl
              exact hopen _

theorem opEvents_evicted {d : Deinterleaver} {seen : UInt32 → List Symbol}
    (h : PoolInv d seen) (op : Op) :
    (opEvents d op).countP (Event.isLeft isEvicted) = (evicts d op).toNat := by
  cases op with
  | push sym now => exact pushEvents_evicted sym now h.params.slots
  | tick override now =>
      show (tickEvents d _ now).countP _ = 0
      exact tickEvents_countP d _ now fun s i => settleEvents_evicted d s i _ now
  | markResult b ok =>
      show (markEvents d b ok).countP _ = 0
      rw [markEvents]
      cases findSlotAny d b with
      | none => rfl
      | some i =>
          dsimp only
          split
          · rfl
          · cases ok <;> rfl
  | _ => rfl

/-- **The runs without an eviction** are those that give up no slot by one. -/
theorem neverEvicts_iff (ops : List Op) {d : Deinterleaver} {seen : UInt32 → List Symbol}
    (h : PoolInv d seen) :
    NeverEvicts d ops ↔ ∀ e ∈ runExits d ops, isEvicted e.2 = false := by
  rw [NeverEvicts, ← runEvents_countP opEvents_evicted ops h, ← countP_exits, List.countP_eq_zero]
  exact forall₂_congr fun e _ => Bool.not_eq_true _ ▸ Iff.rfl

/-! ## The stream -/

/-- The callback calls of a run. -/
def newCalls (d : Deinterleaver) (ops : List Op) : List CbCall :=
  (run d ops).cbLog.drop d.cbLog.length

/-- The block and the reason that an event names. -/
def eventKey (e : BlockEvent) : UInt32 × BlockFinalReason := (e.blockId, e.reason)

/-- The block and the reason that a callback is called with. -/
def callKey : CbCall → UInt32 × BlockFinalReason
  | .final blockId reason => (blockId, reason)
  | .eviction blockId reason => (blockId, reason)

theorem streamOf_keys (feed : List EventOp) :
    (streamOf feed).map eventKey = (callsOf feed).map callKey := by
  induction feed with
  | nil => rfl
  | cons op feed ih =>
      cases op with
      | callback call nowMs =>
          cases call <;> exact congrArg _ ih
      | drain max => exact ih

/-- An evicted block is named by two calls, any other by one. -/
theorem exitCalls_keys (e : UInt32 × BlockFinalReason) :
    (exitCalls e).map callKey = if isEvicted e.2 then [e, e] else [e] := by
  rw [exitCalls]
  cases isEvicted e.2 <;> rfl

/-- **The stream of a run**: the exits in order, those by eviction twice. -/
theorem stream_exits (ops : List Op) {d : Deinterleaver} {seen : UInt32 → List Symbol}
    (h : PoolInv d seen) (hw : Watched d) {feed : List EventOp}
    (hfeed : callsOf feed = newCalls d ops) :
    (streamOf feed).map eventKey
      = (runExits d ops).flatMap fun e => if isEvicted e.2 then [e, e] else [e] := by
  rw [streamOf_keys, hfeed, newCalls, run_calls ops h hw, List.drop_left, List.map_flatMap]
  simp only [exitCalls_keys]

theorem length_doubled {α : Type} (p : α → Bool) (l : List α) :
    (l.flatMap fun e => if p e then [e, e] else [e]).length = l.length + l.countP p := by
  induction l with
  | nil => rfl
  | cons e l ih =>
      rw [List.flatMap_cons, List.length_append, ih, List.length_cons, List.countP_cons]
      cases p e <;> simp <;> omega

/-- A list in which some elements are doubled is the list itself only when none is. -/
theorem doubled_eq_iff {α : Type} (p : α → Bool) (l : List α) :
    (l.flatMap fun e => if p e then [e, e] else [e]) = l ↔ ∀ e ∈ l, p e = false := by
  constructor
  · intro heq
    have hlen := length_doubled p l
    rw [heq] at hlen
    have hzero : l.countP p = 0 := by omega
    intro e he
    exact eq_false_of_ne_true (List.countP_eq_zero.mp hzero e he)
  · intro hno
    calc (l.flatMap fun e => if p e then [e, e] else [e])
        = l.flatMap fun e => [e] := by
          refine List.flatMap_congr fun e he => ?_
          rw [hno e he]
          rfl
      _ = l := List.flatMap_singleton' l

/-- **One event per finalised block.**  The slots are given up by a legal
    sequence of transitions; what the callbacks wrote names the exits in order,
    each once, exactly when no call of the run evicts; and the snapshots carry
    just that, as long as the ring has room. -/
theorem one_event_per_exit_iff {maxA n k ss : Nat} {stab age : ℚ} {d0 : Deinterleaver}
    (hd : deinterleaverCreate maxA n k ss stab age = some d0) (pre ops : List Op)
    (hw : Watched (run d0 pre)) {feed : List EventOp}
    (hfeed : callsOf feed = newCalls (run d0 pre) ops) :
    let d := run d0 pre
    Trace d.maxActiveBlocks isEarly (phases d) (runEvents d ops) (phases (run d ops)) ∧
    ((streamOf feed).map eventKey = (runEvents d ops).filterMap Event.exit ↔
      NeverEvicts d ops) ∧
    (∀ cs : ControlServer, cs.eventsHead < eventRingCap → cs.eventsCount = 0 →
      RoomFor 0 feed →
      (eventRun cs feed).2 ++ pendingEvents (eventRun cs feed).1 = streamOf feed) := by
  intro d
  have hinv := poolInv_run pre (poolInv_create hd)
  refine ⟨(accounted_run ops hinv).trace, ?_, ?_⟩
  · rw [stream_exits ops hinv hw hfeed, neverEvicts_iff ops hinv]
    exact doubled_eq_iff (fun e => isEvicted e.2) (runExits d ops)
  · intro cs hhead hempty hroom
    exact delivered_run feed hhead hempty hroom

/-- A receiver with four slots, settled after 2 ms and given up after 50 ms, that
    the control server listens to. -/
def watchedReceiver : Deinterleaver :=
  run ((deinterleaverCreate 4 3 2 1 2 50).get rfl)
    [.setBlockFinalCallback, .setEvictionCallback]

/-- Block 1 is full and decoded. -/
def decodedBlock : List Op :=
  [.push (byteSymbol 1 0 5) 10, .push (byteSymbol 1 1 5) 20, .push (byteSymbol 1 2 5) 30,
    .getReadyBlock, .markResult 1 true]

theorem one_event_per_exit_decoded :
    let feed := [.callback (.final 1 .decodeSuccess) 7, .drain eventRingCap]
    NeverEvicts watchedReceiver decodedBlock ∧
      (streamOf feed).map eventKey = [(1, .decodeSuccess)] ∧
      (streamOf feed).map eventKey
        = (runEvents watchedReceiver decodedBlock).filterMap Event.exit := by
  intro feed
  have hd : deinterleaverCreate 4 3 2 1 2 50
      = some ((deinterleaverCreate 4 3 2 1 2 50).get rfl) := (Option.some_get rfl).symm
  have h := one_event_per_exit_iff hd [.setBlockFinalCallback, .setEvictionCallback]
    decodedBlock ⟨by decide +kernel, by decide +kernel⟩
    (show callsOf feed = newCalls watchedReceiver decodedBlock by decide +kernel)
  have hnever : NeverEvicts watchedReceiver decodedBlock := by
    rw [NeverEvicts]
    decide +kernel
  exact ⟨hnever, rfl, h.2.1.mpr hnever⟩

/-- One symbol of each of five blocks. -/
def fiveBlocks : List Op :=
  [.push (byteSymbol 1 0 5) 10, .push (byteSymbol 2 0 5) 20, .push (byteSymbol 3 0 5) 30,
    .push (byteSymbol 4 0 5) 40, .push (byteSymbol 5 0 5) 50]

/-- Block 1 is evicted, and has two events. -/
theorem one_event_per_exit_evicted :
    let feed := [.callback (.eviction 1 .discardedEvictedBeforeDecode) 7,
      .callback (.final 1 .discardedEvictedBeforeDecode) 7]
    Watched watchedReceiver ∧ callsOf feed = newCalls watchedReceiver fiveBlocks ∧
      (runEvents watchedReceiver fiveBlocks).filterMap Event.exit
        = [(1, .discardedEvictedBeforeDecode)] ∧
      streamOf feed = [⟨1, 7, .discardedEvictedBeforeDecode, true⟩,
        ⟨1, 7, .discardedEvictedBeforeDecode, false⟩] ∧
      (streamOf feed).map eventKey
        ≠ (runEvents watchedReceiver fiveBlocks).filterMap Event.exit := by
  intro feed
  have hexits : (runEvents watchedReceiver fiveBlocks).filterMap Event.exit
      = [(1, .discardedEvictedBeforeDecode)] := by decide +kernel
  refine ⟨⟨by decide +kernel, by decide +kernel⟩, by decide +kernel, hexits, rfl, ?_⟩
  rw [hexits]
  decide

end FsoControlServer
