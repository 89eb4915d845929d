import FsoGateway.DeinterleaverInvariant
import FsoGateway.Lib.SlotPool

/-! # Block accounting

    The counters of the deinterleaver are incremented in five functions, and
    the final callback is called from a sixth.  Here every call of a run is
    given the list of what it does to the slots, in order; the list is legal
    for a pool of slots (`SlotPool.Trace`), and the counters and the callback
    calls are read off it.

    * `settleEvents`, `allocEvents`, `pushEvents`, `tickEvents`, `markEvents` —
      the transitions each function makes;
    * `Accounted` — a call did these transitions and counted them;
    * `block_accounting` — conservation, in every state a run can reach. -/

namespace FsoDeinterleaver

open ByteBuffer FsoTypes SlotPool

/-! ## Slots as a pool -/

/-- What a slot is doing, for which block and with how many symbols. -/
def phase (s : Slot) : Phase UInt32 :=
  match s.state with
  | .empty => .empty
  | .filling => .filling s.blockId s.validSymbols
  | .readyToDecode => .frozen s.blockId s.validSymbols

def phases (d : Deinterleaver) (i : Nat) : Phase UInt32 := phase (d.slots i)

@[simp] theorem phases_update {d d' : Deinterleaver} {i : Nat} {s : Slot}
    (h : d'.slots = Function.update d.slots i s) :
    phases d' = Function.update (phases d) i (phase s) := by
  funext j
  rw [phases, h]
  by_cases hj : j = i
  · subst hj
    rw [Function.update_self, Function.update_self]
  · rw [Function.update_of_ne hj, Function.update_of_ne hj, phases]

/-- A transition of a slot. -/
abbrev BlockEvent := Event UInt32 BlockFinalReason

/-- The reasons with which a FILLING slot is given up. -/
def isEarly : BlockFinalReason → Bool
  | .discardedTimeoutBeforeDecode => true
  | .discardedTooManyHolesBeforeDecode => true
  | .discardedEvictedBeforeDecode => true
  | _ => false

/-- The reasons that are neither early nor an eviction: those that
    `mark_result` gives. -/
def isMarked (r : BlockFinalReason) : Bool :=
  !isEarly r && r != .discardedReadyEvictedBeforeMark

/-- The calls of the final callback, in order. -/
def finals (log : List CbCall) : List (UInt32 × BlockFinalReason) :=
  log.filterMap fun
    | .final b r => some (b, r)
    | .eviction _ _ => none

@[simp] theorem finals_append (l l' : List CbCall) :
    finals (l ++ l') = finals l ++ finals l' := List.filterMap_append

theorem finals_endCalls {d : Deinterleaver} (h : d.finalCb = true) (evict : Bool)
    (b : UInt32) (r : BlockFinalReason) : finals (endCalls d evict b r) = [(b, r)] := by
  rw [endCalls, h, finals_append]
  cases evict && d.evictionCb <;> rfl

/-- The number of slots now FILLING. -/
def fillingCount (d : Deinterleaver) : Nat :=
  (List.range d.maxActiveBlocks).countP fun i =>
    decide ((d.slots i).state = .filling)

/-! ## What each function does -/

/-- `maybe_freeze_slot` and the discard its callers make. -/
def settleEvents (d : Deinterleaver) (s : Slot) (i : Nat) (timeoutMs : ℚ) (now : Nat) :
    List BlockEvent :=
  match freezeRc d s timeoutMs now with
  | .none => []
  | .ready => [.froze i s.blockId]
  | .recycle => [.left i s.blockId (discardReason d s)]

/-- The eviction of `alloc_slot`. -/
def allocEvents (d : Deinterleaver) (i : Nat) : List BlockEvent :=
  match (d.slots i).state with
  | .empty => []
  | .readyToDecode => [.left i (d.slots i).blockId .discardedReadyEvictedBeforeMark]
  | .filling => [.left i (d.slots i).blockId .discardedEvictedBeforeDecode]

/-- What `push_symbol` counts a symbol as. -/
inductive PushOutcome where
  | stored
  | duplicate
  | frozen
  | erasure
  deriving DecidableEq, Repr

/-- The outcome of a push; a push that returns `-1` has none. -/
def pushOutcome (d : Deinterleaver) (sym : Symbol) : Option PushOutcome :=
  if isErasure sym then some .erasure
  else if isRejected d sym then none
  else
    match findSlotAny d sym.packetId with
    | none => some .stored
    | some i =>
        if (d.slots i).state ≠ .filling then some .frozen
        else if Bitset.test (d.slots i).receivedMask sym.fecId.toNat then some .duplicate
        else some .stored

/-- The store of one symbol into slot `i`, which holds `base`. -/
def storeEvents (d : Deinterleaver) (base : Slot) (i : Nat) (sym : Symbol) (now : Nat) :
    List BlockEvent :=
  .stored i base.blockId
    :: settleEvents d (slotStore base sym d.symbolSize now) i (defaultTimeoutMs d) now

/-- The transitions of `push_symbol`. -/
def pushEvents (d : Deinterleaver) (sym : Symbol) (now : Nat) : List BlockEvent :=
  if pushOutcome d sym = some .stored then
    match findSlotAny d sym.packetId with
    | some i => storeEvents d (d.slots i) i sym now
    | none =>
        match (allocSlot d sym.packetId now).1 with
        | some i =>
            allocEvents d i ++ .opened i sym.packetId
              :: storeEvents d (openSlot d i sym.packetId now) i sym now
        | none => []
  else []

/-- The transitions of `deinterleaver_tick`. -/
def tickEvents (d : Deinterleaver) (timeoutMs : ℚ) (now : Nat) : List BlockEvent :=
  (List.range d.maxActiveBlocks).flatMap fun i =>
    if (d.slots i).state = .filling then settleEvents d (d.slots i) i timeoutMs now
    else []

/-- The transition of `mark_result`. -/
def markEvents (d : Deinterleaver) (b : UInt32) (success : Bool) : List BlockEvent :=
  match findSlotAny d b with
  | none => []
  | some i =>
      if (d.slots i).state ≠ .readyToDecode then []
      else [.left i (d.slots i).blockId (if success then .decodeSuccess else .decodeFailed)]

/-- The transitions of one call. -/
def opEvents (d : Deinterleaver) : Op → List BlockEvent
  | .push sym now => pushEvents d sym now
  | .tick override now => tickEvents d (tickTimeoutMs d override) now
  | .markResult b ok => markEvents d b ok
  | _ => []

/-- The outcomes of the pushes among one call. -/
def opOutcomes (d : Deinterleaver) : Op → List PushOutcome
  | .push sym _ => (pushOutcome d sym).toList
  | _ => []

/-! ## Counted transitions -/

/-- From `d` to `d'` the transitions `evs` were made and the symbols `outs`
    were taken in, and the counters and the final callback say so. -/
structure Accounted (d d' : Deinterleaver) (evs : List BlockEvent)
    (outs : List PushOutcome) : Prop where
  size : d'.maxActiveBlocks = d.maxActiveBlocks
  finalCb : d.finalCb = true → d'.finalCb = true
  trace : Trace d.maxActiveBlocks isEarly (phases d) evs (phases d')
  finals : d.finalCb = true → finals d'.cbLog = finals d.cbLog ++ evs.filterMap Event.exit
  ready : d'.stats.blocksReady = d.stats.blocksReady + evs.countP Event.isFroze
  holes : d'.stats.blocksFailedHoles = d.stats.blocksFailedHoles
    + evs.countP (Event.isLeft (· == .discardedTooManyHolesBeforeDecode))
  timeout : d'.stats.blocksFailedTimeout = d.stats.blocksFailedTimeout
    + evs.countP (Event.isLeft (· == .discardedTimeoutBeforeDecode))
  evictedFilling : d'.stats.evictedFillingBlocks = d.stats.evictedFillingBlocks
    + evs.countP (Event.isLeft (· == .discardedEvictedBeforeDecode))
  evictedDone : d'.stats.evictedDoneBlocks = d.stats.evictedDoneBlocks
    + evs.countP (Event.isLeft (· == .discardedReadyEvictedBeforeMark))
  stored : evs.countP Event.isStored = outs.count .stored
  duplicate : d'.stats.droppedSymbolsDuplicate = d.stats.droppedSymbolsDuplicate
    + outs.count .duplicate
  frozen : d'.stats.droppedSymbolsFrozen = d.stats.droppedSymbolsFrozen
    + outs.count .frozen
  erasure : d'.stats.droppedSymbolsErasure = d.stats.droppedSymbolsErasure
    + outs.count .erasure

theorem Accounted.refl (d : Deinterleaver) : Accounted d d [] [] :=
  ⟨rfl, id, .nil _, fun _ => (List.append_nil _).symm, rfl, rfl, rfl, rfl, rfl, rfl, rfl,
    rfl, rfl⟩

theorem Accounted.trans {d d' d'' : Deinterleaver} {evs evs' : List BlockEvent}
    {outs outs' : List PushOutcome} (h : Accounted d d' evs outs)
    (h' : Accounted d' d'' evs' outs') :
    Accounted d d'' (evs ++ evs') (outs ++ outs') where
  size := h'.size.trans h.size
  finalCb := fun hf => h'.finalCb (h.finalCb hf)
  trace := by
    have h1 := h'.trace
    rw [h.size] at h1
    exact h.trace.append h1
  finals := by
    intro hf
    rw [h'.finals (h.finalCb hf), h.finals hf, List.filterMap_append, List.append_assoc]
  ready := by rw [h'.ready, h.ready, List.countP_append, Nat.add_assoc]
  holes := by rw [h'.holes, h.holes, List.countP_append, Nat.add_assoc]
  timeout := by rw [h'.timeout, h.timeout, List.countP_append, Nat.add_assoc]
  evictedFilling := by
    rw [h'.evictedFilling, h.evictedFilling, List.countP_append, Nat.add_assoc]
  evictedDone := by rw [h'.evictedDone, h.evictedDone, List.countP_append, Nat.add_assoc]
  stored := by rw [List.countP_append, List.count_append, h.stored, h'.stored]
  duplicate := by rw [h'.duplicate, h.duplicate, List.count_append, Nat.add_assoc]
  frozen := by rw [h'.frozen, h.frozen, List.count_append, Nat.add_assoc]
  erasure := by rw [h'.erasure, h.erasure, List.count_append, Nat.add_assoc]

/-! ## Leaving FILLING -/

/-- The counter that goes with each decision of `maybe_freeze_slot`. -/
def freezeStats (d : Deinterleaver) (s : Slot) (rc : FreezeRc) : DilStats :=
  match rc with
  | .none => d.stats
  | .ready => { d.stats with blocksReady := d.stats.blocksReady + 1 }
  | .recycle =>
      if d.m < d.symbolsPerBlock - s.validSymbols then
        { d.stats with blocksFailedHoles := d.stats.blocksFailedHoles + 1 }
      else { d.stats with blocksFailedTimeout := d.stats.blocksFailedTimeout + 1 }

theorem maybeFreezeSlot_counts (d : Deinterleaver) (s : Slot) (timeoutMs : ℚ)
    (now : Nat) (hs : s.state = .filling) :
    (maybeFreezeSlot s d.symbolsPerBlock d.k d.m d.stabilizationMs timeoutMs now
      d.stats).2.2 = freezeStats d s (freezeRc d s timeoutMs now) := by
  rw [freezeRc]
  simp only [maybeFreezeSlot, hs, ne_eq, not_true_eq_false, if_false]
  split
  · rfl
  · split
    · split
      · rename_i hm
        exact (if_pos hm).symm
      · rfl
    · split
      · split
        · rfl
        · split
          · rename_i hm
            exact (if_pos hm).symm
          · rename_i hm
            exact (if_neg hm).symm
      · rfl

@[simp] theorem finalize_stats (d : Deinterleaver) (i : Nat) (r : BlockFinalReason) :
    (finalizeAndResetSlot d i r).stats = d.stats := by
  rw [finalizeAndResetSlot]
  split
  · rfl
  · exact emitFinal_stats d _ r

theorem settleSlot_stats (d : Deinterleaver) (i : Nat) (timeoutMs : ℚ) (now : Nat)
    (hs : (d.slots i).state = .filling) :
    (settleSlot d i timeoutMs now).2.stats
      = freezeStats d (d.slots i) (freezeRc d (d.slots i) timeoutMs now) := by
  rw [← maybeFreezeSlot_counts d _ timeoutMs now hs, settleSlot]
  dsimp only
  split
  · exact finalize_stats ..
  · rfl

/-- **Settling a slot** is accounted for. -/
theorem accounted_settle {d : Deinterleaver} {i : Nat} (timeoutMs : ℚ) (now : Nat)
    (hi : i < d.maxActiveBlocks) (hs : (d.slots i).state = .filling) :
    Accounted d (settleSlot d i timeoutMs now).2
      (settleEvents d (d.slots i) i timeoutMs now) [] := by
  obtain ⟨-, hp, hsl, hlog⟩ := settleSlot_spec d i timeoutMs now hs
  have hst := settleSlot_stats d i timeoutMs now hs
  have hph := phases_update hsl
  have hphase : phases d i = .filling (d.slots i).blockId (d.slots i).validSymbols := by
    rw [phases, phase, hs]
  rw [settleCalls] at hlog
  rw [settledSlot] at hph
  rw [settleEvents]
  cases hrc : freezeRc d (d.slots i) timeoutMs now with
  | none =>
      rw [hrc] at hst hph hlog
      rw [if_neg (by decide), List.append_nil] at hlog
      refine ⟨hp.maxActiveBlocks, fun h => hp.finalCb.trans h, ?_, ?_, ?_, ?_, ?_, ?_, ?_,
        rfl, ?_, ?_, ?_⟩
      · rw [hph, show phase (d.slots i) = phases d i from rfl,
          Function.update_eq_self]
        exact .nil _
      · intro _
        rw [hlog, List.filterMap_nil, List.append_nil]
      all_goals rw [hst]; rfl
  | ready =>
      rw [hrc] at hst hph hlog
      rw [if_neg (by decide), List.append_nil] at hlog
      refine ⟨hp.maxActiveBlocks, fun h => hp.finalCb.trans h, ?_, ?_, ?_, ?_, ?_, ?_, ?_,
        rfl, ?_, ?_, ?_⟩
      · rw [hph]
        exact .single (.froze hi hphase)
      · intro _
        rw [hlog]
        exact (List.append_nil _).symm
      all_goals rw [hst]; rfl
  | recycle =>
      rw [hrc] at hst hph hlog
      rw [if_pos rfl] at hlog
      have hearly : isEarly (discardReason d (d.slots i)) = true := by
        rw [discardReason]
        split <;> rfl
      refine ⟨hp.maxActiveBlocks, fun h => hp.finalCb.trans h, ?_, ?_, ?_, ?_, ?_, ?_, ?_,
        rfl, ?_, ?_, ?_⟩
      · rw [hph]
        exact .single (.discarded hi hphase hearly)
      · intro hf
        rw [hlog, finals_append, finals_endCalls hf]
        rfl
      all_goals
        rw [hst, freezeStats]
        dsimp only [discardReason]
        split <;> rfl

/-! ## Storing and opening -/

/-- The store of a symbol is accounted for. -/
theorem accounted_store {d : Deinterleaver} {i : Nat} (sym : Symbol) (ss now : Nat)
    (hi : i < d.maxActiveBlocks) (hs : (d.slots i).state = .filling) :
    Accounted d (setSlot d i (slotStore (d.slots i) sym ss now))
      [.stored i (d.slots i).blockId] [.stored] := by
  have hphase : phases d i = .filling (d.slots i).blockId (d.slots i).validSymbols := by
    rw [phases, phase, hs]
  refine ⟨rfl, id, ?_, fun _ => (List.append_nil _).symm, rfl, rfl, rfl, rfl, rfl, rfl,
    rfl, rfl, rfl⟩
  rw [phases_update (setSlot_slots d i _)]
  have hnew : phase (slotStore (d.slots i) sym ss now)
      = .filling (d.slots i).blockId ((d.slots i).validSymbols + 1) := by
    rw [phase, show (slotStore (d.slots i) sym ss now).state = .filling from hs]
    rfl
  rw [hnew]
  exact .single (.stored hi hphase)

/-- The counter `alloc_slot` increments when it takes slot `i`. -/
def allocStats (d : Deinterleaver) (i : Nat) : DilStats :=
  match (d.slots i).state with
  | .empty => d.stats
  | .readyToDecode =>
      { d.stats with evictedDoneBlocks := d.stats.evictedDoneBlocks + 1 }
  | .filling =>
      { d.stats with evictedFillingBlocks := d.stats.evictedFillingBlocks + 1 }

@[simp] theorem evictSlot_stats (d : Deinterleaver) (v : Nat) (stats : DilStats)
    (r : BlockFinalReason) (b : UInt32) (now : Nat) :
    (evictSlot d v stats r b now).stats = stats := by
  show (finalizeAndResetSlot (emitEviction { d with stats := stats } _ r) v r).stats = stats
  rw [finalize_stats, emitEviction]
  split <;> rfl

theorem allocSlot_stats {d d' : Deinterleaver} {b : UInt32} {now i : Nat}
    (h : allocSlot d b now = (some i, d')) : d'.stats = allocStats d i := by
  rw [allocSlot] at h
  cases hf : (allocScan d now).freeSlot with
  | some j =>
      have hs := (freeSlot_some hf).2
      rw [hf] at h
      obtain ⟨hj, rfl⟩ := Prod.mk.inj h
      rw [← Option.some.inj hj, allocStats, hs]
      rfl
  | none =>
      cases hr : (allocScan d now).oldestReady with
      | some j =>
          have hs := (oldestReady_some hr).2.1
          rw [hf, hr] at h
          obtain ⟨hj, rfl⟩ := Prod.mk.inj h
          rw [← Option.some.inj hj, allocStats, hs, evictSlot_stats]
      | none =>
          cases hg : (allocScan d now).oldestFilling with
          | some j =>
              have hs := (oldestFilling_some hg).2.1
              rw [hf, hr, hg] at h
              obtain ⟨hj, rfl⟩ := Prod.mk.inj h
              rw [← Option.some.inj hj, allocStats, hs, evictSlot_stats]
          | none =>
              rw [hf, hr, hg] at h
              cases (Prod.mk.inj h).1

/-- **Allocation** is accounted for, with the eviction it may need. -/
theorem accounted_alloc {d : Deinterleaver} (b : UInt32) (now : Nat)
    (hpos : 0 < d.maxActiveBlocks) :
    ∃ i d', allocSlot d b now = (some i, d') ∧ i < d.maxActiveBlocks ∧ SameParams d d' ∧
      d'.slots = Function.update d.slots i (openSlot d i b now) ∧
      Accounted d d' (allocEvents d i ++ [.opened i b]) [] := by
  obtain ⟨i, d', ha, hi, hp, -, hsl, hlog⟩ := allocSlot_spec b now hpos
  refine ⟨i, d', ha, hi, hp, hsl, ?_⟩
  have hst := allocSlot_stats ha
  have hph : phases d' = Function.update (phases d) i (.filling b 0) := phases_update hsl
  rw [allocCalls] at hlog
  rw [allocStats] at hst
  rw [allocEvents]
  -- opening comes after the victim, if there is one, has left the slot
  have hopen : Step d.maxActiveBlocks isEarly (Function.update (phases d) i .empty)
      (.opened i b) (phases d') := by
    have h1 : Step d.maxActiveBlocks isEarly (Function.update (phases d) i .empty)
        (.opened i b) (Function.update (Function.update (phases d) i .empty) i
          (.filling b 0)) :=
      .opened hi (Function.update_self ..)
    rwa [Function.update_idem, ← hph] at h1
  cases hs : (d.slots i).state with
  | empty =>
      rw [hs] at hst hlog
      have hphase : phases d i = .empty := by
        rw [phases, phase, hs]
      rw [← hphase, Function.update_eq_self] at hopen
      refine ⟨hp.maxActiveBlocks, fun h => hp.finalCb.trans h, .single hopen, ?_, ?_, ?_, ?_,
        ?_, ?_, rfl, ?_, ?_, ?_⟩
      · intro _
        rw [hlog]
        exact congrArg finals (List.append_nil _) |>.trans (List.append_nil _).symm
      all_goals rw [hst]; rfl
  | readyToDecode =>
      rw [hs] at hst hlog
      have hphase : phases d i = .frozen (d.slots i).blockId (d.slots i).validSymbols := by
        rw [phases, phase, hs]
      refine ⟨hp.maxActiveBlocks, fun h => hp.finalCb.trans h,
        .cons (.released hi hphase rfl) (.single hopen), ?_, ?_, ?_, ?_, ?_, ?_, rfl, ?_, ?_,
        ?_⟩
      · intro hf
        rw [hlog, finals_append, finals_endCalls hf]
        rfl
      all_goals rw [hst]; rfl
  | filling =>
      rw [hs] at hst hlog
      have hphase : phases d i = .filling (d.slots i).blockId (d.slots i).validSymbols := by
        rw [phases, phase, hs]
      refine ⟨hp.maxActiveBlocks, fun h => hp.finalCb.trans h,
        .cons (.discarded hi hphase rfl) (.single hopen), ?_, ?_, ?_, ?_, ?_, ?_, rfl, ?_, ?_,
        ?_⟩
      · intro hf
        rw [hlog, finals_append, finals_endCalls hf]
        rfl
      all_goals rw [hst]; rfl

/-! ## The calls -/

/-- The tail of `push_symbol`, at a free position of a FILLING slot. -/
theorem accounted_storeSymbol {d : Deinterleaver} {i : Nat} {sym : Symbol} (now : Nat)
    (hi : i < d.maxActiveBlocks) (hs : (d.slots i).state = .filling)
    (hnew : Bitset.test (d.slots i).receivedMask sym.fecId.toNat = false) :
    Accounted d (storeSymbol d i sym now).2 (storeEvents d (d.slots i) i sym now)
      [.stored] := by
  let d1 := setSlot d i (slotStore (d.slots i) sym d.symbolSize now)
  have hd1 : d1.slots i = slotStore (d.slots i) sym d.symbolSize now := setSlot_self d i _
  have h1 : Accounted d d1 [.stored i (d.slots i).blockId] [.stored] :=
    accounted_store sym d.symbolSize now hi hs
  have h2 := accounted_settle (d := d1) (defaultTimeoutMs d1) now hi (by rw [hd1]; exact hs)
  rw [hd1] at h2
  have hr : (storeSymbol d i sym now).2 = (settleSlot d1 i (defaultTimeoutMs d1) now).2 := by
    rw [storeSymbol, hnew]
    rfl
  rw [hr]
  exact h1.trans h2

theorem storeEvents_congr {d d' : Deinterleaver} (h : SameParams d d') (base : Slot)
    (i : Nat) (sym : Symbol) (now : Nat) :
    storeEvents d' base i sym now = storeEvents d base i sym now := by
  have ht : defaultTimeoutMs d' = defaultTimeoutMs d := by
    rw [defaultTimeoutMs, defaultTimeoutMs, h.blockMaxAgeMs]
  rw [storeEvents, storeEvents, settleEvents, settleEvents, freezeRc_congr h, ht,
    h.symbolSize, discardReason, discardReason, h.m, h.symbolsPerBlock]

/-- **A push** is accounted for. -/
theorem accounted_push {d : Deinterleaver} (sym : Symbol) (now : Nat)
    (hpos : 0 < d.maxActiveBlocks) :
    Accounted d (deinterleaverPushSymbol d sym now).2 (pushEvents d sym now)
      (pushOutcome d sym).toList := by
  rw [pushEvents, deinterleaverPushSymbol]
  by_cases her : isErasure sym = true
  · have ho : pushOutcome d sym = some .erasure := if_pos her
    rw [ho, if_pos her, if_neg (by decide)]
    exact ⟨rfl, id, .nil _, fun _ => (List.append_nil _).symm, rfl, rfl, rfl, rfl, rfl, rfl,
      rfl, rfl, rfl⟩
  by_cases hrej : isRejected d sym = true
  · have ho : pushOutcome d sym = none := by
      rw [pushOutcome, if_neg her, if_pos hrej]
    rw [ho, if_neg her, if_pos hrej, if_neg (by decide)]
    exact .refl d
  rw [if_neg her, if_neg hrej]
  cases hfind : findSlotAny d sym.packetId with
  | none =>
      have ho : pushOutcome d sym = some .stored := by
        rw [pushOutcome, if_neg her, if_neg hrej, hfind]
      -- a new slot: first the eviction it may need, then the store
      obtain ⟨i, d1, ha, hi, hp, hsl, hacc⟩ := accounted_alloc sym.packetId now hpos
      have hbase : d1.slots i = openSlot d i sym.packetId now := by
        rw [hsl, Function.update_self]
      have h2 : Accounted d1 (storeSymbol d1 i sym now).2
          (storeEvents d1 (d1.slots i) i sym now) [.stored] := accounted_storeSymbol now
        (by rw [hp.maxActiveBlocks]; exact hi) (by rw [hbase]; rfl)
        (by rw [hbase]; exact Bitset.test_clear _)
      rw [hbase, storeEvents_congr hp] at h2
      rw [ho, if_pos rfl, ha]
      have h3 := hacc.trans h2
      rwa [List.append_assoc] at h3
  | some i =>
      have hi := (findSlotAny_some hfind).1
      by_cases hs : (d.slots i).state = .filling
      · cases hm : Bitset.test (d.slots i).receivedMask sym.fecId.toNat with
        | true =>
            have ho : pushOutcome d sym = some .duplicate := by
              rw [pushOutcome, if_neg her, if_neg hrej, hfind]
              dsimp only
              rw [if_neg (not_not_intro hs), if_pos hm]
            dsimp only
            rw [ho, if_neg (show ¬ some PushOutcome.duplicate = some .stored by decide),
              if_neg (not_not_intro hs), storeSymbol_duplicate now hm]
            exact ⟨rfl, id, .nil _, fun _ => (List.append_nil _).symm, rfl, rfl, rfl, rfl,
              rfl, rfl, rfl, rfl, rfl⟩
        | false =>
            have ho : pushOutcome d sym = some .stored := by
              rw [pushOutcome, if_neg her, if_neg hrej, hfind]
              dsimp only
              rw [if_neg (not_not_intro hs), hm]
              rfl
            dsimp only
            rw [ho, if_pos rfl, if_neg (not_not_intro hs)]
            exact accounted_storeSymbol now hi hs hm
      · have ho : pushOutcome d sym = some .frozen := by
          rw [pushOutcome, if_neg her, if_neg hrej, hfind]
          exact if_pos hs
        dsimp only
        rw [ho, if_neg (show ¬ some PushOutcome.frozen = some .stored by decide),
          if_pos hs]
        exact ⟨rfl, id, .nil _, fun _ => (List.append_nil _).symm, rfl, rfl, rfl, rfl, rfl,
          rfl, rfl, rfl, rfl⟩

/-- **A tick** is accounted for, slot by slot. -/
theorem accounted_tick (d : Deinterleaver) (override : ℚ) (now : Nat) :
    Accounted d (deinterleaverTick d override now).2
      (tickEvents d (tickTimeoutMs d override) now) [] := by
  rw [deinterleaverTick, tickEvents]
  generalize tickTimeoutMs d override = t
  -- the loop has settled the slots below `n` and left the others alone
  have hloop : ∀ n, n ≤ d.maxActiveBlocks →
      let acc := (List.range n).foldl (tickStep t now) (0, d)
      Accounted d acc.2 ((List.range n).flatMap fun i =>
        if (d.slots i).state = .filling then settleEvents d (d.slots i) i t now else []) [] ∧
      SameParams d acc.2 ∧ ∀ i, n ≤ i → acc.2.slots i = d.slots i := by
    intro n hn
    induction n with
    | zero => exact ⟨.refl d, SameParams.refl d, fun _ _ => rfl⟩
    | succ n ih =>
        rw [List.range_succ, List.foldl_append, List.foldl_cons, List.foldl_nil,
          List.flatMap_append, List.flatMap_singleton]
        generalize (List.range n).foldl (tickStep t now) (0, d) = acc at ih ⊢
        obtain ⟨c, d1⟩ := acc
        obtain ⟨hacc, hp, hrest⟩ := ih (Nat.le_of_succ_le hn)
        obtain ⟨h1, h2, -⟩ := tickStep_spec t now c d1 n
        have hdn : d1.slots n = d.slots n := hrest n (Nat.le_refl n)
        refine ⟨?_, hp.trans h1, ?_⟩
        · by_cases hs : (d.slots n).state = .filling
          · have hs1 : (d1.slots n).state = .filling := by
              rw [hdn]
              exact hs
            have hset := accounted_settle t now (by rw [hp.maxActiveBlocks]; exact hn) hs1
            have hev : settleEvents d1 (d1.slots n) n t now
                = settleEvents d (d.slots n) n t now := by
              rw [hdn, settleEvents, settleEvents, freezeRc_congr hp, discardReason,
                discardReason, hp.m, hp.symbolsPerBlock]
            have hstep : (tickStep t now (c, d1) n).2 = (settleSlot d1 n t now).2 := by
              rw [tickStep, if_neg (not_not_intro hs1)]
            rw [if_pos hs, hstep]
            rw [hev] at hset
            exact hacc.trans hset
          · have hs1 : (d1.slots n).state ≠ .filling := by
              rw [hdn]
              exact hs
            have hstep : (tickStep t now (c, d1) n).2 = d1 := by
              rw [tickStep, if_pos hs1]
            rw [if_neg hs, hstep, List.append_nil]
            exact hacc
        · intro i hi
          rw [h2, Function.update_of_ne (by omega)]
          exact hrest i (by omega)
  exact (hloop d.maxActiveBlocks (Nat.le_refl _)).1

/-- **An acknowledgment** is accounted for. -/
theorem accounted_mark (d : Deinterleaver) (b : UInt32) (ok : Bool) :
    Accounted d (deinterleaverMarkResult d b ok).2 (markEvents d b ok) [] := by
  rw [deinterleaverMarkResult, markEvents]
  cases hf : findSlotAny d b with
  | none => exact .refl d
  | some i =>
      dsimp only
      by_cases hs : (d.slots i).state = .readyToDecode
      · rw [if_neg (not_not_intro hs), if_neg (not_not_intro hs)]
        have hi := (findSlotAny_some hf).1
        have hne : (d.slots i).state ≠ .empty := (findSlotAny_some hf).2.1
        have hp := sameParams_finalize d i (if ok then .decodeSuccess else .decodeFailed)
        have hphase : phases d i
            = .frozen (d.slots i).blockId (d.slots i).validSymbols := by
          rw [phases, phase, hs]
        have hst := finalize_stats d i (if ok then .decodeSuccess else .decodeFailed)
        have hr : (if ok then BlockFinalReason.decodeSuccess else .decodeFailed) ≠ .none := by
          cases ok <;> decide
        refine ⟨hp.maxActiveBlocks, fun h => hp.finalCb.trans h, ?_, ?_, ?_, ?_, ?_, ?_, ?_,
          rfl, ?_, ?_, ?_⟩
        · rw [phases_update (finalize_slots _ hne)]
          exact .single (.released hi hphase (by cases ok <;> rfl))
        · intro h
          rw [finalize_cbLog hne hr, finals_append, finals_endCalls h]
          rfl
        all_goals
          rw [hst]
          cases ok <;> rfl
      · rw [if_pos hs, if_pos hs]
        exact .refl d

/-- **Every call** is accounted for. -/
theorem accounted_step {d : Deinterleaver} {seen : UInt32 → List Symbol} (op : Op)
    (h : PoolInv d seen) : Accounted d (step d op) (opEvents d op) (opOutcomes d op) := by
  cases op with
  | push sym now => exact accounted_push sym now h.params.slots
  | tick override now => exact accounted_tick d override now
  | getReadyBlock =>
      show Accounted d (deinterleaverGetReadyBlock d).2 [] []
      rw [getReady_eq h]
      exact .refl d
  | markResult b ok => exact accounted_mark d b ok
  | incCrcDrop =>
      exact ⟨rfl, id, .nil _, fun _ => (List.append_nil _).symm, rfl, rfl, rfl, rfl, rfl, rfl,
        rfl, rfl, rfl⟩
  | setBlockFinalCallback =>
      exact ⟨rfl, fun _ => rfl, .nil _, fun _ => (List.append_nil _).symm, rfl, rfl, rfl, rfl,
        rfl, rfl, rfl, rfl, rfl⟩
  | setEvictionCallback =>
      exact ⟨rfl, id, .nil _, fun _ => (List.append_nil _).symm, rfl, rfl, rfl, rfl, rfl, rfl,
        rfl, rfl, rfl⟩

/-! ## Runs -/

/-- The transitions of a run. -/
def runEvents (d : Deinterleaver) : List Op → List BlockEvent
  | [] => []
  | op :: ops => opEvents d op ++ runEvents (step d op) ops

/-- The outcomes of the pushes of a run. -/
def runOutcomes (d : Deinterleaver) : List Op → List PushOutcome
  | [] => []
  | op :: ops => opOutcomes d op ++ runOutcomes (step d op) ops

/-- The number of calls of a run with a property. -/
def callCount (P : Deinterleaver → Op → Bool) (d : Deinterleaver) : List Op → Nat
  | [] => 0
  | op :: ops => (P d op).toNat + callCount P (step d op) ops

/-- A push that does not return `-1`. -/
def isTaken (d : Deinterleaver) : Op → Bool
  | .push sym now => decide ((deinterleaverPushSymbol d sym now).1 ≠ -1)
  | _ => false

/-- A `mark_result` that returns 0. -/
def isAcknowledged (d : Deinterleaver) : Op → Bool
  | .markResult b ok => decide ((deinterleaverMarkResult d b ok).1 = 0)
  | _ => false

theorem accounted_run (ops : List Op) {d : Deinterleaver} {seen : UInt32 → List Symbol}
    (h : PoolInv d seen) :
    Accounted d (run d ops) (runEvents d ops) (runOutcomes d ops) := by
  induction ops generalizing d seen with
  | nil => exact .refl d
  | cons op ops ih => exact (accounted_step op h).trans (ih (poolInv_step op h))

/-- A push returns `-1` exactly when it is counted as nothing. -/
theorem pushOutcome_none_iff {d : Deinterleaver} (sym : Symbol) (now : Nat)
    (hpos : 0 < d.maxActiveBlocks) :
    pushOutcome d sym = none ↔ (deinterleaverPushSymbol d sym now).1 = -1 := by
  have hzero : ¬ (0 : Int) = -1 := by decide
  have hstore : ∀ d1 i, ¬ (storeSymbol d1 i sym now).1 = -1 := by
    intro d1 i
    rw [storeSymbol]
    split
    · exact hzero
    · dsimp only
      split <;> decide
  rw [pushOutcome, deinterleaverPushSymbol]
  by_cases her : isErasure sym = true
  · rw [if_pos her, if_pos her]
    exact iff_of_false (Option.some_ne_none _) hzero
  by_cases hrej : isRejected d sym = true
  · rw [if_neg her, if_neg her, if_pos hrej, if_pos hrej]
    exact iff_of_true rfl rfl
  rw [if_neg her, if_neg her, if_neg hrej, if_neg hrej]
  cases hfind : findSlotAny d sym.packetId with
  | none =>
      obtain ⟨i, d1, ha, -⟩ := allocSlot_spec sym.packetId now hpos
      rw [ha]
      exact iff_of_false (Option.some_ne_none _) (hstore d1 i)
  | some i =>
      dsimp only
      by_cases hs : (d.slots i).state = .filling
      · rw [if_neg (not_not_intro hs), if_neg (not_not_intro hs)]
        refine iff_of_false ?_ (hstore d i)
        split <;> exact Option.some_ne_none _
      · rw [if_pos hs, if_pos hs]
        exact iff_of_false (Option.some_ne_none _) hzero

theorem length_runOutcomes (ops : List Op) {d : Deinterleaver}
    {seen : UInt32 → List Symbol} (h : PoolInv d seen) :
    (runOutcomes d ops).length = callCount isTaken d ops := by
  induction ops generalizing d seen with
  | nil => rfl
  | cons op ops ih =>
      rw [runOutcomes, List.length_append, ih (poolInv_step op h), callCount]
      congr 1
      cases op with
      | push sym now =>
          have ht := pushOutcome_none_iff sym now h.params.slots
          show (pushOutcome d sym).toList.length = (decide _).toNat
          cases ho : pushOutcome d sym with
          | none =>
              rw [decide_eq_false (not_not_intro (ht.mp ho))]
              rfl
          | some o =>
              have hne : (deinterleaverPushSymbol d sym now).1 ≠ -1 :=
                fun hr => nomatch ho.symm.trans (ht.mpr hr)
              rw [decide_eq_true hne]
              rfl
      | _ => rfl

/-- Settling a slot and opening one acknowledge nothing. -/
theorem settleEvents_marked (d : Deinterleaver) (s : Slot) (i : Nat) (t : ℚ) (now : Nat) :
    (settleEvents d s i t now).countP (Event.isLeft isMarked) = 0 := by
  rw [settleEvents]
  cases freezeRc d s t now with
  | none => rfl
  | ready => rfl
  | recycle =>
      dsimp only [discardReason]
      split <;> rfl

theorem pushEvents_marked (d : Deinterleaver) (sym : Symbol) (now : Nat) :
    (pushEvents d sym now).countP (Event.isLeft isMarked) = 0 := by
  have hstore : ∀ base i,
      (storeEvents d base i sym now).countP (Event.isLeft isMarked) = 0 := by
    intro base i
    rw [storeEvents, List.countP_cons, settleEvents_marked]
    rfl
  rw [pushEvents]
  split
  · cases findSlotAny d sym.packetId with
    | some i => exact hstore _ i
    | none =>
        cases (allocSlot d sym.packetId now).1 with
        | none => rfl
        | some i =>
            dsimp only
            rw [List.countP_append, List.countP_cons, hstore, allocEvents]
            cases (d.slots i).state <;> rfl
  · rfl

/-- What no slot does when it is settled does not happen in a tick. -/
theorem tickEvents_countP (d : Deinterleaver) (timeoutMs : ℚ) (now : Nat)
    {p : BlockEvent → Bool}
    (hsettle : ∀ s i, (settleEvents d s i timeoutMs now).countP p = 0) :
    (tickEvents d timeoutMs now).countP p = 0 := by
  refine List.countP_eq_zero.mpr fun e he => ?_
  obtain ⟨i, -, hi⟩ := List.mem_flatMap.mp he
  split at hi
  · exact List.countP_eq_zero.mp (hsettle _ i) e hi
  · exact nomatch hi

theorem opEvents_marked (d : Deinterleaver) (op : Op) :
    (opEvents d op).countP (Event.isLeft isMarked) = (isAcknowledged d op).toNat := by
  cases op with
  | push sym now => exact pushEvents_marked d sym now
  | tick override now =>
      show (tickEvents d _ now).countP _ = 0
      exact tickEvents_countP d _ now fun s i => settleEvents_marked d s i _ now
  | markResult b ok =>
      show (markEvents d b ok).countP _ = (decide _).toNat
      rw [markEvents, deinterleaverMarkResult]
      cases findSlotAny d b with
      | none => rfl
      | some i =>
          dsimp only
          split
          · rfl
          · cases ok <;> rfl
  | _ => rfl

/-- What one call does so often as `Q` says, a run does so often as it makes such
    calls. -/
theorem runEvents_countP {E : BlockEvent → Bool} {Q : Deinterleaver → Op → Bool}
    (hop : ∀ {d : Deinterleaver} {seen : UInt32 → List Symbol}, PoolInv d seen →
      ∀ op, (opEvents d op).countP E = (Q d op).toNat)
    (ops : List Op) {d : Deinterleaver} {seen : UInt32 → List Symbol} (h : PoolInv d seen) :
    (runEvents d ops).countP E = callCount Q d ops := by
  induction ops generalizing d seen with
  | nil => rfl
  | cons op ops ih =>
      rw [runEvents, List.countP_append, hop h, ih (poolInv_step op h), callCount]

/-! ## Conservation -/

theorem slotCount_phases (d : Deinterleaver) :
    slotCount d.maxActiveBlocks Phase.isOccupied (phases d) = deinterleaverActiveBlocks d ∧
    slotCount d.maxActiveBlocks Phase.isFilling (phases d) = fillingCount d ∧
    slotCount d.maxActiveBlocks Phase.isFrozen (phases d) = deinterleaverReadyCount d := by
  refine ⟨?_, ?_, ?_⟩ <;>
    refine List.countP_congr fun i _ => ?_ <;>
    rw [phases, phase] <;>
    cases (d.slots i).state <;> simp [Phase.isOccupied, Phase.isFilling, Phase.isFrozen]

theorem slotCount_empty (n : Nat) {P : Phase UInt32 → Bool} (h : P .empty = false) :
    slotCount n P (fun _ => .empty) = 0 := by
  rw [slotCount, h]
  exact List.countP_eq_zero.mpr fun _ _ hf => nomatch hf

/-- The four reasons that are not given by `mark_result`, apart. -/
theorem countP_early (evs : List BlockEvent) :
    evs.countP (Event.isLeft isEarly)
      = evs.countP (Event.isLeft (· == .discardedTooManyHolesBeforeDecode))
        + evs.countP (Event.isLeft (· == .discardedTimeoutBeforeDecode))
        + evs.countP (Event.isLeft (· == .discardedEvictedBeforeDecode)) := by
  have h1 : ∀ r : BlockFinalReason, (r == .discardedTooManyHolesBeforeDecode) = true →
      (r == .discardedTimeoutBeforeDecode) = false := by
    intro r h
    rw [eq_of_beq h]
    rfl
  have h2 : ∀ r : BlockFinalReason, (r == .discardedTooManyHolesBeforeDecode
      || r == .discardedTimeoutBeforeDecode) = true →
      (r == .discardedEvictedBeforeDecode) = false := by
    rintro (_ | _ | _ | _ | _ | _ | _) h <;> first | rfl | exact nomatch h
  rw [← countP_isLeft_or h1, ← countP_isLeft_or h2]
  congr 2
  funext r
  cases r <;> rfl

/-- The reasons that end a READY slot, apart. -/
theorem countP_late (evs : List BlockEvent) :
    evs.countP (Event.isLeft fun r => !isEarly r)
      = evs.countP (Event.isLeft isMarked)
        + evs.countP (Event.isLeft (· == .discardedReadyEvictedBeforeMark)) := by
  have h1 : ∀ r, isMarked r = true → (r == .discardedReadyEvictedBeforeMark) = false := by
    rintro (_ | _ | _ | _ | _ | _ | _) h <;> first | rfl | exact nomatch h
  rw [← countP_isLeft_or h1]
  congr 2
  funext r
  cases r <;> rfl

/-- Every outcome is one of the four. -/
theorem length_outcomes (outs : List PushOutcome) :
    outs.length = outs.count .stored + outs.count .duplicate + outs.count .frozen
      + outs.count .erasure := by
  induction outs with
  | nil => rfl
  | cons o outs ih =>
      rw [List.length_cons, ih, List.count_cons, List.count_cons, List.count_cons,
        List.count_cons]
      cases o <;> simp <;> omega

/-- **Block accounting**, in every state a run can reach from a fresh
    deinterleaver with a registered final callback: the transitions of the run
    are legal for a pool of slots that starts EMPTY and ends as the slots are,
    the final callback was called exactly once for each slot given up, with
    its block id and its reason, the counters add up, and a push that does not
    return `-1` was counted once. -/
theorem block_accounting {maxA n k ss : Nat} {stab age : ℚ} {d0 : Deinterleaver}
    (hd : deinterleaverCreate maxA n k ss stab age = some d0) (ops : List Op) :
    let d1 := deinterleaverSetBlockFinalCallback d0
    let d := run d1 ops
    let evs := runEvents d1 ops
    let outs := runOutcomes d1 ops
    let opened := evs.countP Event.isOpened
    (Trace maxA isEarly (fun _ => .empty) evs (phases d) ∧
      finals d.cbLog = evs.filterMap Event.exit) ∧
    (∀ op, Trace maxA isEarly (phases d) (opEvents d op) (phases (step d op)) ∧
      finals (step d op).cbLog
        = finals d.cbLog ++ (opEvents d op).filterMap Event.exit) ∧
    opened = (finals d.cbLog).length + deinterleaverActiveBlocks d ∧
    opened = d.stats.blocksReady + d.stats.blocksFailedHoles + d.stats.blocksFailedTimeout
      + d.stats.evictedFillingBlocks + fillingCount d ∧
    d.stats.blocksReady = callCount isAcknowledged d1 ops + d.stats.evictedDoneBlocks
      + deinterleaverReadyCount d ∧
    (∀ sym now, pushOutcome d sym = none ↔ (deinterleaverPushSymbol d sym now).1 = -1) ∧
    callCount isTaken d1 ops = evs.countP Event.isStored
      + d.stats.droppedSymbolsDuplicate + d.stats.droppedSymbolsFrozen
      + d.stats.droppedSymbolsErasure ∧
    evs.countP Event.isStored = outs.count .stored ∧
    d.stats.droppedSymbolsDuplicate = outs.count .duplicate ∧
    d.stats.droppedSymbolsFrozen = outs.count .frozen ∧
    d.stats.droppedSymbolsErasure = outs.count .erasure := by
  intro d1 d evs outs opened
  have hfresh : d1.maxActiveBlocks = maxA ∧ phases d1 = (fun _ => .empty) ∧
      d1.cbLog = [] ∧ d1.stats = {} := by
    rw [deinterleaverCreate] at hd
    split at hd
    · cases hd
    · have h := (Option.some.inj hd).symm
      subst h
      exact ⟨rfl, rfl, rfl, rfl⟩
  obtain ⟨hmax, hempty, hlog0, hstats0⟩ := hfresh
  have hinv : PoolInv d1 fun _ => [] := poolInv_step .setBlockFinalCallback (poolInv_create hd)
  have hrun : Accounted d1 d evs outs := accounted_run ops hinv
  have hinv' : PoolInv d (seenRun d1 (fun _ => []) ops) := poolInv_run ops hinv
  have hsize : d.maxActiveBlocks = maxA := hrun.size.trans hmax
  have htrace := hrun.trace
  rw [hmax, hempty] at htrace
  have hfin := hrun.finals rfl
  rw [hlog0, show finals ([] : List CbCall) ++ _ = evs.filterMap Event.exit from rfl] at hfin
  have hready := hrun.ready
  have hholes := hrun.holes
  have htimeout := hrun.timeout
  have hef := hrun.evictedFilling
  have hed := hrun.evictedDone
  have hdup := hrun.duplicate
  have hfrozen := hrun.frozen
  have her := hrun.erasure
  rw [hstats0] at hready hholes htimeout hef hed hdup hfrozen her
  rw [Nat.zero_add] at hready hholes htimeout hef hed hdup hfrozen her
  obtain ⟨hocc, hfill, hfroz⟩ := slotCount_phases d
  rw [hsize] at hocc hfill hfroz
  have hlate : evs.countP (Event.isLeft fun r => !isEarly r)
      = callCount isAcknowledged d1 ops + d.stats.evictedDoneBlocks := by
    rw [countP_late, runEvents_countP (fun _ => opEvents_marked _) ops hinv, hed]
  have h1 := htrace.occupied
  have h2 := htrace.filling
  have h3 := htrace.frozen
  rw [slotCount_empty maxA rfl, Nat.zero_add] at h1 h2 h3
  refine ⟨⟨htrace, hfin⟩, ?_, ?_, ?_, ?_, fun sym now =>
    pushOutcome_none_iff sym now hinv'.params.slots, ?_, hrun.stored, hdup, hfrozen, her⟩
  · intro op
    have hstep := accounted_step op hinv'
    have ht := hstep.trace
    rw [hsize] at ht
    exact ⟨ht, hstep.finals (hrun.finalCb rfl)⟩
  · rw [hfin, length_exits, ← hocc]
    omega
  · rw [countP_endsFilling, countP_early, hfill] at h2
    omega
  · rw [hfroz, hlate] at h3
    omega
  · rw [← length_runOutcomes ops hinv, length_outcomes, hrun.stored, hdup, hfrozen, her]

/-- Block 1 is decoded; blocks 2 to 6 are more than the four slots hold, and
    the first of them is evicted; the same symbol comes twice. -/
def crowdedRun : List Op :=
  [.push (byteSymbol 1 0 5) 10, .push (byteSymbol 1 2 5) 20, .getReadyBlock,
    .markResult 1 true, .push (byteSymbol 2 0 5) 30, .push (byteSymbol 3 0 5) 40,
    .push (byteSymbol 4 0 5) 50, .push (byteSymbol 5 0 5) 60, .push (byteSymbol 6 0 5) 70,
    .push (byteSymbol 6 0 5) 80]

theorem block_accounting_crowded :
    let d1 := deinterleaverSetBlockFinalCallback ((deinterleaverCreate 4 3 2 1 0 0).get rfl)
    let d := run d1 crowdedRun
    let opened := (runEvents d1 crowdedRun).countP Event.isOpened
    finals d.cbLog = [(1, .decodeSuccess), (2, .discardedEvictedBeforeDecode)] ∧
      opened = (finals d.cbLog).length + deinterleaverActiveBlocks d ∧ opened = 6 := by
  intro d1 d opened
  have hf : finals d.cbLog = [(1, .decodeSuccess), (2, .discardedEvictedBeforeDecode)] := by
    decide +kernel
  have hopen : opened = (finals d.cbLog).length + deinterleaverActiveBlocks d :=
    (block_accounting create_small crowdedRun).2.2.1
  have hactive : deinterleaverActiveBlocks d = 4 := by decide +kernel
  exact ⟨hf, hopen, by rw [hopen, hf, hactive]; rfl⟩

end FsoDeinterleaver
