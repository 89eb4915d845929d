import FsoGateway.BlockAccounting
import FsoGateway.RxAccounting
import FsoGateway.RxOnce

/-! # The counters of the receiver agree

    A block that becomes READY is counted by the deinterleaver, drained, counted
    twice more and reported to the final callback, or it is evicted.  `DrainLedger`
    is what holds of these between two steps of a run.

    * `block_accounts_agree` — the blocks of a run, as each module counts them;
    * `packet_accounts_agree` — its packets, and the frames they were sent in;
    * `lost_symbols_reported` — its lost symbols, by both statistics modules. -/

namespace FsoRxPipeline

open ByteBuffer FsoTypes FecWrapper FsoDeinterleaver PacketReassembler FsoStats FsoHwStats
  SlotPool

/-! ## READY blocks -/

/-- A block that became READY was acknowledged, evicted, or is READY. -/
theorem ready_balance {d d' : Deinterleaver} {evs : List BlockEvent} {outs : List PushOutcome}
    (h : Accounted d d' evs outs) :
    d'.stats.blocksReady + d.stats.evictedDoneBlocks + deinterleaverReadyCount d
      = d.stats.blocksReady + d'.stats.evictedDoneBlocks + deinterleaverReadyCount d'
        + evs.countP (Event.isLeft isMarked) := by
  have hfrozen := h.trace.frozen
  rw [countP_late, (slotCount_phases d).2.2, ← h.size, (slotCount_phases d').2.2] at hfrozen
  have hready := h.ready
  have hevicted := h.evictedDone
  omega

/-- The calls of the final callback for a block that was acknowledged. -/
def markedFinals (log : List CbCall) : List (UInt32 × BlockFinalReason) :=
  (finals log).filter fun e => isMarked e.2

/-- Without an acknowledgment none is added. -/
theorem markedFinals_same {d d' : Deinterleaver} {evs : List BlockEvent}
    {outs : List PushOutcome} (h : Accounted d d' evs outs) (hf : d.finalCb = true)
    (hevs : evs.countP (Event.isLeft isMarked) = 0) :
    markedFinals d'.cbLog = markedFinals d.cbLog := by
  rw [markedFinals, markedFinals, h.finals hf, List.filter_append]
  have hnone : (evs.filterMap Event.exit).filter (fun e => isMarked e.2) = [] := by
    rw [← List.length_eq_zero_iff, ← List.countP_eq_length_filter]
    exact (countP_exits isMarked evs).trans hevs
  rw [hnone, List.append_nil]

/-! ## CRC drops -/

theorem maybeFreezeSlot_crc (s : Slot) (n k m : Nat) (stab timeout : ℚ) (now : Nat)
    (stats : DilStats) :
    (maybeFreezeSlot s n k m stab timeout now stats).2.2.droppedSymbolsCrcFail
      = stats.droppedSymbolsCrcFail := by
  simp only [maybeFreezeSlot, freezeReady]
  repeat' split
  all_goals rfl

theorem settleSlot_crc (d : Deinterleaver) (i : Nat) (timeout : ℚ) (now : Nat) :
    (settleSlot d i timeout now).2.stats.droppedSymbolsCrcFail
      = d.stats.droppedSymbolsCrcFail := by
  have h := maybeFreezeSlot_crc (d.slots i) d.symbolsPerBlock d.k d.m d.stabilizationMs timeout
    now d.stats
  rw [settleSlot]
  dsimp only
  split
  · rw [finalize_stats]
    exact h
  · exact h

theorem tick_crc (d : Deinterleaver) (override : ℚ) (now : Nat) :
    (deinterleaverTick d override now).2.stats.droppedSymbolsCrcFail
      = d.stats.droppedSymbolsCrcFail := by
  rw [deinterleaverTick]
  refine List.foldlRecOn _ (motive := fun acc : Nat × Deinterleaver =>
    acc.2.stats.droppedSymbolsCrcFail = d.stats.droppedSymbolsCrcFail) _ rfl ?_
  intro acc hacc i _
  rw [tickStep]
  split
  · exact hacc
  · exact (settleSlot_crc acc.2 i _ now).trans hacc

theorem storeSymbol_crc (d : Deinterleaver) (i : Nat) (sym : Symbol) (now : Nat) :
    (storeSymbol d i sym now).2.stats.droppedSymbolsCrcFail
      = d.stats.droppedSymbolsCrcFail := by
  rw [storeSymbol]
  split
  · rfl
  · exact settleSlot_crc (setSlot d i _) i _ now

theorem allocSlot_crc (d : Deinterleaver) (b : UInt32) (now : Nat) :
    (allocSlot d b now).2.stats.droppedSymbolsCrcFail = d.stats.droppedSymbolsCrcFail := by
  rw [allocSlot]
  split
  · rfl
  · dsimp only
    rw [evictSlot_stats]
  · dsimp only
    rw [evictSlot_stats]
  · rfl

theorem push_crc (d : Deinterleaver) (sym : Symbol) (now : Nat) :
    (deinterleaverPushSymbol d sym now).2.stats.droppedSymbolsCrcFail
      = d.stats.droppedSymbolsCrcFail := by
  rw [deinterleaverPushSymbol]
  by_cases her : isErasure sym = true
  · rw [if_pos her]
  by_cases hrej : isRejected d sym = true
  · rw [if_neg her, if_pos hrej]
  rw [if_neg her, if_neg hrej]
  cases findSlotAny d sym.packetId with
  | none =>
      have halloc := allocSlot_crc d sym.packetId now
      generalize allocSlot d sym.packetId now = r at halloc
      obtain ⟨slot, d1⟩ := r
      cases slot with
      | none => exact halloc
      | some i => exact (storeSymbol_crc d1 i sym now).trans halloc
  | some i =>
      dsimp only
      split
      · rfl
      · exact storeSymbol_crc d i sym now

theorem mark_crc (d : Deinterleaver) (b : UInt32) (ok : Bool) :
    (deinterleaverMarkResult d b ok).2.stats.droppedSymbolsCrcFail
      = d.stats.droppedSymbolsCrcFail := by
  rw [deinterleaverMarkResult]
  cases findSlotAny d b with
  | none => rfl
  | some i =>
      dsimp only
      split
      · rfl
      · exact congrArg DilStats.droppedSymbolsCrcFail (finalize_stats d i _)

theorem drainBlock_crc (wh : Wirehair) (pl : RxPipeline) (blk : Block) :
    (drainBlock wh pl blk).dil.stats.droppedSymbolsCrcFail
      = pl.dil.stats.droppedSymbolsCrcFail := by
  rw [drainBlock]
  split
  · exact mark_crc pl.dil _ false
  · exact mark_crc pl.dil _ true

theorem drainLoop_crc (wh : Wirehair) (fuel : Nat) (pl : RxPipeline) :
    (drainLoop wh fuel pl).dil.stats.droppedSymbolsCrcFail
      = pl.dil.stats.droppedSymbolsCrcFail := by
  induction fuel generalizing pl with
  | zero => rfl
  | succ fuel ih =>
      have hget : (deinterleaverGetReadyBlock pl.dil).2.stats = pl.dil.stats := by
        rw [deinterleaverGetReadyBlock]
        cases findReady pl.dil <;> rfl
      rw [drainLoop]
      cases (deinterleaverGetReadyBlock pl.dil).1 with
      | none => exact congrArg DilStats.droppedSymbolsCrcFail hget
      | some blk =>
          dsimp only
          rw [ih, drainBlock_crc]
          exact congrArg DilStats.droppedSymbolsCrcFail hget

theorem crcDrops_readyCounted (wh : Wirehair) (pl : RxPipeline) :
    crcDrops (readyCounted wh pl) = 0 := by
  rw [crcDrops, readyCounted, List.countP_map]
  exact List.countP_eq_zero.mpr fun t _ h => Bool.false_ne_true h

theorem crcDrops_append (l l' : List Counted) :
    crcDrops (l ++ l') = crcDrops l + crcDrops l' := List.countP_append

/-- One call counts its CRC drop twice, here and there. -/
theorem countedOnce_crc (wh : Wirehair) (pl : RxPipeline) (call : RxCall) :
    (rxPipelineRunOnce wh pl call).dil.stats.droppedSymbolsCrcFail
      = pl.dil.stats.droppedSymbolsCrcFail + crcDrops (countedOnce wh pl call) := by
  have htick := tick_crc pl.dil (-1) call.tickNow
  cases he : call.event with
  | idle =>
      rw [runOnce_idle he, countedOnce_idle he, crcDrops_readyCounted]
      exact (drainLoop_crc wh _ _).trans htick
  | error =>
      rw [runOnce_error he, countedOnce_error he]
      exact htick
  | frame wire =>
      cases hf : parseFrame pl.cfg (wire.take rxWireBufSize) with
      | dropped =>
          rw [runOnce_dropped he hf, countedOnce_dropped he hf]
          exact htick
      | crcFail =>
          rw [runOnce_crcFail he hf, countedOnce_crcFail he hf]
          exact congrArg (· + 1) htick
      | symbol sym =>
          rw [runOnce_symbol he hf, countedOnce_symbol he hf, crcDrops_readyCounted]
          exact (drainLoop_crc wh _ _).trans ((push_crc _ sym _).trans htick)

theorem countedRun_crc (wh : Wirehair) (calls : List RxCall) (pl : RxPipeline) :
    (rxRun wh calls pl).dil.stats.droppedSymbolsCrcFail
      = pl.dil.stats.droppedSymbolsCrcFail + crcDrops (countedRun wh calls pl) := by
  induction calls generalizing pl with
  | nil => rfl
  | cons call calls ih =>
      rw [countedRun, crcDrops_append, ← Nat.add_assoc, ← countedOnce_crc]
      exact ih _

/-! ## The ledger -/

/-- What the final callback is told of a drained block. -/
def report (e : Drained) : UInt32 × BlockFinalReason :=
  (e.blk.blockId.toUInt32, if failedRc e.rc then .decodeFailed else .decodeSuccess)

/-- What holds of the drained blocks; the final callback is registered. -/
structure DrainLedger (pl : RxPipeline) (seen : UInt32 → List Symbol) : Prop where
  ok : RxOk pl seen
  watched : pl.dil.finalCb = true
  /-- every READY block was drained or evicted, or is still there -/
  ready : pl.dil.stats.blocksReady
    = pl.drained.length + pl.dil.stats.evictedDoneBlocks + deinterleaverReadyCount pl.dil
  reported : markedFinals pl.dil.cbLog = pl.drained.map report
  /-- a drained block is of the length of the code and has holes for repair
      symbols at most -/
  blocks : ∀ e ∈ pl.drained, e.blk.symbolsPerBlock = pl.cfg.k + pl.cfg.m ∧
    pl.cfg.k ≤ e.blk.symbolCount ∧ e.blk.symbolCount ≤ pl.cfg.k + pl.cfg.m

/-- A step that drains nothing and acknowledges nothing keeps the ledger. -/
theorem DrainLedger.step {pl : RxPipeline} {d : Deinterleaver}
    {seen seen' : UInt32 → List Symbol} {evs : List BlockEvent} {outs : List PushOutcome}
    (h : DrainLedger pl seen) (hacc : Accounted pl.dil d evs outs)
    (hevs : evs.countP (Event.isLeft isMarked) = 0) (hok : RxOk (withDil pl d) seen') :
    DrainLedger (withDil pl d) seen' where
  ok := hok
  watched := hacc.finalCb h.watched
  ready := by
    have hbalance := ready_balance hacc
    have hready := h.ready
    show d.stats.blocksReady = pl.drained.length + d.stats.evictedDoneBlocks
      + deinterleaverReadyCount d
    omega
  reported := (markedFinals_same hacc h.watched hevs).trans h.reported
  blocks := h.blocks

/-- The report of a block that was just drained. -/
theorem report_drainedOf (wh : Wirehair) (pl : RxPipeline) (blk : Block) :
    report (drainedOf wh pl blk) = (blk.blockId.toUInt32, drainReason wh pl blk) := by
  have hrc : (drainedOf wh pl blk).rc = (decoded wh pl blk).rc := rfl
  rw [report, drainReason, hrc]
  by_cases hf : decodeFails (decoded wh pl blk)
  · rw [if_pos ((failedRc_iff _).mpr hf), if_pos hf]
    rfl
  · rw [if_neg fun h => hf ((failedRc_iff _).mp h), if_neg hf]
    rfl

theorem isMarked_drainReason (wh : Wirehair) (pl : RxPipeline) (blk : Block) :
    isMarked (drainReason wh pl blk) = true := by
  rw [drainReason]
  split <;> rfl

/-- **The release** of a drained slot is accounted for. -/
theorem accounted_release {pl : RxPipeline} {seen : UInt32 → List Symbol} (wh : Wirehair)
    (h : PoolInv pl.dil seen) {i : Nat} (hi : i < pl.dil.maxActiveBlocks)
    (hs : (pl.dil.slots i).state = .readyToDecode) :
    let reason := drainReason wh pl (pl.dil.slots i).block
    Accounted pl.dil (finalizeAndResetSlot pl.dil i reason)
      [.left i (pl.dil.slots i).blockId reason] [] := by
  have hmark : ∀ ok : Bool, Accounted pl.dil
      (finalizeAndResetSlot pl.dil i (if ok then .decodeSuccess else .decodeFailed))
      [.left i (pl.dil.slots i).blockId (if ok then .decodeSuccess else .decodeFailed)] [] := by
    intro ok
    have hacc := accounted_mark pl.dil (pl.dil.slots i).blockId ok
    rw [deinterleaverMarkResult, markEvents, findSlotAny_eq h hi (ready_ne_empty hs)] at hacc
    dsimp only at hacc
    rw [if_neg (not_not_intro hs), if_neg (not_not_intro hs)] at hacc
    exact hacc
  intro reason
  by_cases hf : decodeFails (decoded wh pl (pl.dil.slots i).block)
  · have hreason : reason = .decodeFailed := if_pos hf
    rw [hreason]
    exact hmark false
  · have hreason : reason = .decodeSuccess := if_neg hf
    rw [hreason]
    exact hmark true

theorem tickEvents_marked (d : Deinterleaver) (timeout : ℚ) (now : Nat) :
    (tickEvents d timeout now).countP (Event.isLeft isMarked) = 0 :=
  tickEvents_countP d timeout now fun s i => settleEvents_marked d s i timeout now

/-- **The ledger is kept** by every step. -/
theorem drainLedger_closed (wh : Wirehair) : StepClosed wh DrainLedger fun _ _ => True where
  pool := fun h => h.ok.pool
  tick := by
    intro pl seen now h
    exact h.step (accounted_tick pl.dil (-1) now) (tickEvents_marked pl.dil _ now)
      ((rxOk_closed wh).tick now h.ok)
  crcDrop := by
    intro pl seen h
    have hacc : Accounted pl.dil (deinterleaverIncCrcDrop pl.dil) [] [] :=
      accounted_step .incCrcDrop h.ok.pool
    exact h.step hacc rfl ((rxOk_closed wh).crcDrop h.ok)
  push := by
    intro pl seen sym now _ h
    exact h.step (accounted_push sym now h.ok.pool.params.slots)
      (pushEvents_marked pl.dil sym now) ((rxOk_closed wh).push sym now trivial h.ok)
  drain := by
    intro pl seen i h hi hs
    have hne := ready_ne_empty hs
    have hslot := h.ok.pool.slot i hi hne
    have hid : (pl.dil.slots i).block.blockId.toUInt32 = (pl.dil.slots i).blockId := by
      rw [hslot.content.blockId]
      exact UInt32.toUInt32_toUInt64 _
    have hok' := (rxOk_closed wh).drain h.ok hi hs
    -- the slot is released, and the block moves to the drained ones
    have hacc := accounted_release wh h.ok.pool hi hs
    have hmarked := isMarked_drainReason wh pl (pl.dil.slots i).block
    have hbalance := ready_balance hacc
    rw [List.countP_cons_of_pos (show Event.isLeft isMarked (.left i _ _) = true from hmarked),
      List.countP_nil] at hbalance
    rw [drainBlock_spec wh h.ok.pool hi hs] at hok' ⊢
    refine ⟨hok', hacc.finalCb h.watched, ?_, ?_, ?_⟩
    · have hready := h.ready
      show (finalizeAndResetSlot pl.dil i _).stats.blocksReady
        = (pl.drained ++ [_]).length + (finalizeAndResetSlot pl.dil i _).stats.evictedDoneBlocks
          + deinterleaverReadyCount (finalizeAndResetSlot pl.dil i _)
      rw [List.length_append, List.length_singleton]
      omega
    · show markedFinals (finalizeAndResetSlot pl.dil i _).cbLog = (pl.drained ++ [_]).map report
      rw [markedFinals, hacc.finals h.watched, List.filter_append, List.map_append, ← h.reported,
        List.map_singleton, report_drainedOf, hid]
      exact congrArg (markedFinals pl.dil.cbLog ++ ·) (List.filter_cons_of_pos hmarked)
    · intro e he
      rcases List.mem_append.mp he with he | he
      · exact h.blocks e he
      · rw [List.mem_singleton.mp he]
        have hcontent := hslot.content
        refine ⟨?_, ?_, ?_⟩
        · show (pl.dil.slots i).block.symbolsPerBlock = pl.cfg.k + pl.cfg.m
          rw [hcontent.symbolsPerBlock, h.ok.shape.n]
        · show pl.cfg.k ≤ (pl.dil.slots i).block.symbolCount
          rw [hcontent.symbolCount, ← h.ok.shape.k]
          exact hslot.ready hs
        · show (pl.dil.slots i).block.symbolCount ≤ pl.cfg.k + pl.cfg.m
          rw [hcontent.symbolCount, hcontent.valid, ← h.ok.shape.n]
          exact Bitset.count_le _ _

/-! ## The blocks of a run -/

/-- The block counters of the deinterleaver, of `stats.c` and of `hw_stats.c`
    say the same about the drained blocks. -/
structure BlocksAgree (pl : RxPipeline) (s : StatsAtomicContainer) (hw : HwCounters) :
    Prop where
  attempted : s.blocksAttempted = pl.drained.length
  outcome : s.blocksAttempted = s.blocksRecovered + s.blocksFailed
  recovered : s.blocksRecovered = (finals pl.dil.cbLog).countP (·.2 == .decodeSuccess)
  failed : s.blocksFailed = (finals pl.dil.cbLog).countP (·.2 == .decodeFailed)
  ready : pl.dil.stats.blocksReady
    = s.blocksAttempted + pl.dil.stats.evictedDoneBlocks + deinterleaverReadyCount pl.dil
  hwAttempted : hw.blocksAttempted = s.blocksAttempted
  hwSuccess : hw.blocksDecodeSuccess = s.blocksRecovered
  hwFailed : hw.blocksDecodeFailed = s.blocksFailed
  crc : s.symbolsDroppedCrc = pl.dil.stats.droppedSymbolsCrcFail

/-- The symbol counters of `stats.c` say how many symbols of the drained blocks
    arrived. -/
structure SymbolsAgree (pl : RxPipeline) (s : StatsAtomicContainer) : Prop where
  total : s.totalSymbols = (pl.cfg.k + pl.cfg.m) * s.blocksAttempted
  lost : s.lostSymbols + Tally.weigh (·.blk.symbolCount) pl.drained = s.totalSymbols
  holes : s.totalHolesInBlocks = s.lostSymbols
  worst : s.worstHolesInBlock = Tally.heaviest (blockHoles ·.blk) pl.drained
  /-- no drained block has more holes than repair symbols -/
  worst_le : s.worstHolesInBlock ≤ pl.cfg.m
  withLoss : s.blocksWithLoss
    = pl.drained.countP fun e => decide (e.blk.symbolCount < pl.cfg.k + pl.cfg.m)

/-- The holes of the drained blocks, as they are recorded. -/
def drainedHoles (pl : RxPipeline) : List FsoHwStats.Call :=
  pl.drained.map fun e => .recordBlockHoles (blockHoles e.blk)

/-- The histogram of `hw_stats.c` counts the closed runs of drained blocks with
    holes, each in the bucket of its holes; the open run is the running burst. -/
structure BurstsAgree (pl : RxPipeline) (s : HwStats) : Prop where
  histogram : Histogram (closedRuns (drainedHoles pl)) s
  running : s.runningBurst = openRun (drainedHoles pl)

/-- The reports of the drained blocks, by reason. -/
theorem countP_finals {log : List CbCall} {es : List Drained}
    (h : markedFinals log = es.map report) :
    (finals log).countP (·.2 == .decodeSuccess) = es.countP (!failedRc ·.rc) ∧
      (finals log).countP (·.2 == .decodeFailed) = es.countP (failedRc ·.rc) := by
  have hreason : ∀ r, isMarked r = true → (finals log).countP (·.2 == r)
      = es.countP fun e => (report e).2 == r := by
    intro r hr
    have hmap := congrArg (List.countP fun e => e.2 == r) h
    rw [markedFinals, List.countP_filter, List.countP_map] at hmap
    refine Eq.trans (List.countP_congr fun e _ => ?_) hmap
    rw [Bool.and_eq_true, iff_self_and, beq_iff_eq]
    intro he
    rw [he]
    exact hr
  have hboth : ∀ e : Drained, ((report e).2 == .decodeSuccess) = !failedRc e.rc ∧
      ((report e).2 == .decodeFailed) = failedRc e.rc := by
    intro e
    rw [report]
    cases failedRc e.rc <;> exact ⟨rfl, rfl⟩
  rw [hreason _ rfl, hreason _ rfl]
  exact ⟨List.countP_congr fun e _ => by rw [(hboth e).1],
    List.countP_congr fun e _ => by rw [(hboth e).2]⟩

/-! ## The packets of a run -/

/-- A symbol without its bytes and their checksum. -/
def headerOf (sym : Symbol) : Symbol := { sym with crc32 := 0, data := fun _ => 0 }

/-- The fragments in the source positions of a block. -/
def sourceFragments (k : Nat) (blk : Block) : List Symbol :=
  ((List.range k).filter fun i => !isSkipped k (blk.symbols i)).map fun i =>
    headerOf (blk.symbols i)

/-- The fragments of a block that was decoded; of another one there are none. -/
def decodedFragments (k : Nat) (e : Drained) : List Symbol :=
  if failedRc e.rc then [] else sourceFragments k e.blk

/-- The totals of a snapshot depend on the bursts only. -/
theorem snapshot_counters (s : HwStats) (c : HwCounters) :
    (hwStatsComputeSnapshot { s with counters := c }).totals
      = (hwStatsComputeSnapshot s).totals := by
  rw [hwStatsComputeSnapshot, hwStatsComputeSnapshot]
  by_cases h : s.runningBurst > 0
  · rw [if_pos h, if_pos h]
    rfl
  · rw [if_neg h, if_neg h]
    rfl

/-- The packet counters of `stats.c` and of `hw_stats.c` say what was sent; the
    groups that were flushed are the fragments of the decoded blocks. -/
structure PacketsAgree (pl : RxPipeline) (groups : List (List Symbol))
    (s : StatsAtomicContainer) (hw : HwCounters) : Prop where
  recovered : s.recoveredPackets = (lanFrames pl).length
  bytes : s.recoveredBytes = byteCount (lanFrames pl)
  outcome : s.recoveredPackets + s.failedPackets = groups.length
  frames : lanFrames pl = groups.flatMap reassembled
  hwRecovered : hw.packetsRecovered = s.recoveredPackets
  hwFailed : hw.packetsFailed = s.failedPackets
  nonempty : ∀ g ∈ groups, g ≠ []
  fragments : groups.flatten.map headerOf = pl.drained.flatMap (decodedFragments pl.cfg.k)

theorem frames_add_lost (gs : List (List Symbol)) :
    (gs.flatMap reassembled).length + lostGroups gs = gs.length := by
  induction gs with
  | nil => rfl
  | cons g gs ih =>
      rw [List.flatMap_cons, List.length_append, lostGroups_cons, List.length_cons]
      obtain ⟨frame, hr, -⟩ | ⟨hr, -⟩ := flushCalls_cases g
      · rw [hr, List.length_singleton, if_neg (show ¬ [frame].isEmpty = true from Bool.false_ne_true)]
        omega
      · rw [hr, List.length_nil, if_pos (show [].isEmpty = true from rfl)]
        omega

/-- The turn was made in a state with this configuration. -/
def TurnOf (wh : Wirehair) (cfg : Config) (t : BlockTurn) : Prop :=
  ∃ pl blk, pl.cfg = cfg ∧ t = blockTurn wh pl blk

theorem drainBlock_cfg (wh : Wirehair) (pl : RxPipeline) (blk : Block) :
    (drainBlock wh pl blk).cfg = pl.cfg := by
  rw [drainBlock]
  split <;> rfl

theorem drainTurns_turnOf {wh : Wirehair} {fuel : Nat} {pl : RxPipeline} {t : BlockTurn}
    (h : t ∈ drainTurns wh fuel pl) : TurnOf wh pl.cfg t := by
  induction fuel generalizing pl with
  | zero => exact absurd h List.not_mem_nil
  | succ fuel ih =>
      rw [drainTurns] at h
      cases hr : (deinterleaverGetReadyBlock pl.dil).1 with
      | none =>
          rw [hr] at h
          exact absurd h List.not_mem_nil
      | some blk =>
          rw [hr] at h
          rcases List.mem_cons.mp h with h | h
          · exact ⟨_, blk, rfl, h⟩
          · obtain ⟨pl', blk', hcfg, ht⟩ := ih h
            exact ⟨pl', blk', hcfg.trans (drainBlock_cfg wh _ blk), ht⟩

theorem mem_turnsOf_readyCounted {wh : Wirehair} {pl : RxPipeline} {t : BlockTurn}
    {cfg : Config} (hcfg : pl.cfg = cfg) (h : t ∈ turnsOf (readyCounted wh pl)) :
    TurnOf wh cfg t := by
  subst hcfg
  rw [readyCounted, turnsOf_map] at h
  exact drainTurns_turnOf h

theorem mem_turnsOf_countedRun {wh : Wirehair} {calls : List RxCall} {pl : RxPipeline}
    {t : BlockTurn} (h : t ∈ turnsOf (countedRun wh calls pl)) : TurnOf wh pl.cfg t := by
  induction calls generalizing pl with
  | nil => exact absurd h List.not_mem_nil
  | cons call calls ih =>
      rw [countedRun, turnsOf_append] at h
      rcases List.mem_append.mp h with h | h
      · cases he : call.event with
        | idle =>
            rw [countedOnce_idle he] at h
            exact mem_turnsOf_readyCounted (show (ticked pl call).cfg = pl.cfg from rfl) h
        | error =>
            rw [countedOnce_error he] at h
            exact absurd h List.not_mem_nil
        | frame wire =>
            cases hf : parseFrame pl.cfg (wire.take rxWireBufSize) with
            | dropped =>
                rw [countedOnce_dropped he hf] at h
                exact absurd h List.not_mem_nil
            | crcFail =>
                rw [countedOnce_crcFail he hf] at h
                exact absurd h List.not_mem_nil
            | symbol sym =>
                rw [countedOnce_symbol he hf] at h
                refine mem_turnsOf_readyCounted ?_ h
                rfl
      · have ht := ih h
        rwa [runOnce_cfg] at ht

/-- The groups flushed for a turn are the fragments of its block. -/
theorem TurnOf.fragments {wh : Wirehair} {cfg : Config} {t : BlockTurn} (h : TurnOf wh cfg t)
    (hk : cfg.k ≤ maxSymbolsPerBlock) :
    t.flushes.flatten.map headerOf = decodedFragments cfg.k t.drained := by
  obtain ⟨pl, blk, rfl, rfl⟩ := h
  have hflushes : (blockTurn wh pl blk).flushes = if decodeFails (decoded wh pl blk) then []
      else blockFlushes pl.cfg blk.symbols (decoded wh pl blk).outReconstructed := rfl
  have hrc : (blockTurn wh pl blk).drained.rc = (decoded wh pl blk).rc := rfl
  rw [hflushes, decodedFragments, hrc]
  by_cases hf : decodeFails (decoded wh pl blk)
  · rw [if_pos hf, if_pos ((failedRc_iff _).mpr hf)]
    rfl
  · rw [if_neg hf, if_neg fun h => hf ((failedRc_iff _).mp h), blockFlushes_kept _ _ _ hk,
      collected, List.map_map]
    rfl

theorem TurnOf.nonempty {wh : Wirehair} {cfg : Config} {t : BlockTurn} (h : TurnOf wh cfg t)
    {g : List Symbol} (hg : g ∈ t.flushes) : g ≠ [] := by
  obtain ⟨pl, blk, rfl, rfl⟩ := h
  have hflushes : (blockTurn wh pl blk).flushes = if decodeFails (decoded wh pl blk) then []
      else blockFlushes pl.cfg blk.symbols (decoded wh pl blk).outReconstructed := rfl
  rw [hflushes] at hg
  split at hg
  · exact absurd hg List.not_mem_nil
  · exact blockFlushes_ne_nil _ _ _ hg

theorem flushesOf_fragments {wh : Wirehair} {cfg : Config} (hk : cfg.k ≤ maxSymbolsPerBlock)
    {ts : List BlockTurn} (h : ∀ t ∈ ts, TurnOf wh cfg t) :
    (flushesOf ts).flatten.map headerOf
      = (ts.map BlockTurn.drained).flatMap (decodedFragments cfg.k) := by
  induction ts with
  | nil => rfl
  | cons t ts ih =>
      obtain ⟨ht, hts⟩ := List.forall_mem_cons.mp h
      rw [flushesOf, List.flatMap_cons, List.flatten_append, List.map_append, ht.fragments hk,
        List.map_cons, List.flatMap_cons, ← ih hts]
      rfl

section Run

variable (wh : Wirehair) (mem : Buffer) (cfg : Config) (pl0 : RxPipeline)
  (hcreate : rxPipelineCreate mem cfg = some pl0) (calls : List RxCall)

include hcreate

/-- The ledger of a run; the turns counted are the blocks drained. -/
theorem drainLedger_run :
    (∃ seen, DrainLedger (rxRun wh calls (watched pl0)) seen) ∧
      (rxRun wh calls (watched pl0)).cfg = cfg ∧
      (rxRun wh calls (watched pl0)).drained
        = (turnsOf (countedRun wh calls (watched pl0))).map BlockTurn.drained ∧
      (rxRun wh calls (watched pl0)).dil.stats.droppedSymbolsCrcFail
        = crcDrops (countedRun wh calls (watched pl0)) := by
  obtain ⟨hok, hcfg, hdr, hlog, hstats, hslots⟩ := rxOk_create hcreate
  have hready : deinterleaverReadyCount pl0.dil = 0 := by
    rw [deinterleaverReadyCount]
    refine List.countP_eq_zero.mpr fun i _ hr => ?_
    rw [hslots i] at hr
    exact absurd (of_decide_eq_true hr) (by decide)
  have hinit : DrainLedger (watched pl0) fun _ => [] := by
    have hs := hok.shape
    refine ⟨⟨⟨hs.fec, hs.slots, hs.n, hs.k, hs.symbolSize, hs.stabilization, hs.maxAge,
      hs.source⟩, poolInv_step .setBlockFinalCallback hok.pool⟩, rfl, ?_, ?_, ?_⟩
    · show pl0.dil.stats.blocksReady = pl0.drained.length + pl0.dil.stats.evictedDoneBlocks
        + deinterleaverReadyCount pl0.dil
      rw [hstats, hdr, hready]
      rfl
    · show markedFinals pl0.dil.cbLog = pl0.drained.map report
      rw [hlog, hdr]
      rfl
    · intro e he
      rw [show (watched pl0).drained = [] from hdr] at he
      exact absurd he List.not_mem_nil
  refine ⟨(drainLedger_closed wh).run calls hinit fun _ _ _ _ _ _ _ _ => trivial,
    (run_cfg wh calls (watched pl0)).trans hcfg, ?_, ?_⟩
  · rw [countedRun_drained, show (watched pl0).drained = [] from hdr, List.nil_append]
  · rw [countedRun_crc, show (watched pl0).dil.stats = {} from hstats]
    exact Nat.zero_add _

/-- **The symbol accounts**, and the symbols dropped for their CRC. -/
theorem symbolsAgree_run (s0 : StatsAtomicContainer) (span : Nat) (log : List StatsCall)
    (hlog : log.filter StatsCall.isRx = callsOf (countedRun wh calls (watched pl0))) :
    let pl := rxRun wh calls (watched pl0)
    let s := runStats (statsStart s0 span) log
    SymbolsAgree pl s ∧ s.symbolsDroppedCrc = pl.dil.stats.droppedSymbolsCrcFail := by
  intro pl s
  obtain ⟨⟨seen, hledger⟩, -, hdr, hcrc⟩ := drainLedger_run wh mem cfg pl0 hcreate calls
  have hs : s = addTx (runStats (statsStart s0 span) (callsOf (countedRun wh calls (watched pl0))))
      (log.filterMap StatsCall.ingress) (log.filterMap StatsCall.transmitted) := by
    rw [← hlog]
    exact runStats_interleaved log _
  rw [runStats_callsOf] at hs
  generalize countedRun wh calls (watched pl0) = l at hs hdr hcrc
  -- the sums over the turns, as sums over the drained blocks
  have hholes : Tally.weigh (blockHoles ·.blk) pl.drained
      = Tally.weigh BlockTurn.holes (turnsOf l) := by
    rw [hdr, Tally.weigh_map]
    rfl
  have hattempted : s.blocksAttempted = pl.drained.length := by
    rw [hs, hdr, List.length_map]
    exact Nat.zero_add _
  have hlost : s.lostSymbols = Tally.weigh (blockHoles ·.blk) pl.drained := by
    rw [hs, hholes]
    exact Nat.zero_add _
  have htotal : s.totalSymbols = Tally.weigh (·.blk.symbolsPerBlock) pl.drained := by
    rw [hs, hdr, Tally.weigh_map]
    exact Nat.zero_add _
  have hworst : s.worstHolesInBlock = Tally.heaviest (blockHoles ·.blk) pl.drained := by
    rw [hs, hdr, Tally.heaviest_map]
    exact Nat.zero_max _
  have hblocks : ∀ e ∈ pl.drained, e.blk.symbolsPerBlock = pl.cfg.k + pl.cfg.m ∧
      pl.cfg.k ≤ e.blk.symbolCount ∧ e.blk.symbolCount ≤ pl.cfg.k + pl.cfg.m := hledger.blocks
  constructor
  · refine ⟨?_, ?_, ?_, hworst, ?_, ?_⟩
    · rw [htotal, hattempted, ← Tally.weigh_const]
      exact Tally.weigh_congr fun e he => (hblocks e he).1
    · rw [hlost, htotal, ← Tally.weigh_add]
      refine Tally.weigh_congr fun e he => ?_
      obtain ⟨h1, -, h3⟩ := hblocks e he
      rw [blockHoles_eq]
      omega
    · rw [hlost, hs, hholes]
      exact Nat.zero_add _
    · rw [hworst, Tally.heaviest_le_iff]
      intro e he
      obtain ⟨h1, h2, -⟩ := hblocks e he
      rw [blockHoles_eq]
      omega
    · rw [hs]
      refine (Nat.zero_add _).trans ?_
      rw [hdr, List.countP_map]
      refine List.countP_congr fun t ht => ?_
      obtain ⟨h1, -, -⟩ := hblocks t.drained
        (by rw [hdr]; exact List.mem_map_of_mem ht)
      have h1' : t.blk.symbolsPerBlock = pl.cfg.k + pl.cfg.m := h1
      show (t.lossy = true) ↔ decide (t.blk.symbolCount < pl.cfg.k + pl.cfg.m) = true
      rw [BlockTurn.lossy, bne_iff_ne, blockHoles_eq, decide_eq_true_iff]
      omega
  · rw [hs, hcrc]
    exact Nat.zero_add _

/-- The calls that record the holes, and what they make of the handle. -/
theorem runHw_drained (log : List StatsCall)
    (hlog : log.filter StatsCall.isRx = callsOf (countedRun wh calls (watched pl0))) :
    ∃ c, runHw hwStatsCreate log
      = { runCalls (drainedHoles (rxRun wh calls (watched pl0))) with counters := c } := by
  obtain ⟨-, -, hdr, -⟩ := drainLedger_run wh mem cfg pl0 hcreate calls
  have hcalls : drainedHoles (rxRun wh calls (watched pl0))
      = holesCalls (turnsOf (countedRun wh calls (watched pl0))) := by
    rw [drainedHoles, hdr, List.map_map]
    rfl
  rw [hcalls, runHw_interleaved, hlog, runHw_callsOf]
  exact ⟨_, rfl⟩

/-- **The block accounts agree**: whatever is received, and however the calls of
    the receiver are interleaved with those of the transmitter, the three
    modules count the same blocks, and the histogram their holes. -/
theorem block_accounts_agree (s0 : StatsAtomicContainer) (span : Nat) (log : List StatsCall)
    (hlog : log.filter StatsCall.isRx = callsOf (countedRun wh calls (watched pl0))) :
    let pl := rxRun wh calls (watched pl0)
    let s := runStats (statsStart s0 span) log
    BlocksAgree pl s (runHw hwStatsCreate log).counters ∧ SymbolsAgree pl s ∧
      BurstsAgree pl (runHw hwStatsCreate log) := by
  intro pl s
  obtain ⟨⟨seen, hledger⟩, -, hdr, -⟩ := drainLedger_run wh mem cfg pl0 hcreate calls
  obtain ⟨hsymbols, hcrc⟩ := symbolsAgree_run wh mem cfg pl0 hcreate calls s0 span log hlog
  refine ⟨?_, hsymbols, ?_⟩
  · have hs : s = addTx
        (runStats (statsStart s0 span) (callsOf (countedRun wh calls (watched pl0))))
        (log.filterMap StatsCall.ingress) (log.filterMap StatsCall.transmitted) := by
      rw [← hlog]
      exact runStats_interleaved log _
    rw [runStats_callsOf] at hs
    rw [runHw_interleaved, hlog, runHw_callsOf]
    generalize countedRun wh calls (watched pl0) = l at hs hdr ⊢
    have hlength : pl.drained.length = (turnsOf l).length := by
      rw [hdr, List.length_map]
    have hfailed : pl.drained.countP (failedRc ·.rc) = (turnsOf l).countP (·.failed) := by
      rw [hdr, List.countP_map]
      rfl
    have hrecovered : pl.drained.countP (!failedRc ·.rc) = (turnsOf l).countP (!·.failed) := by
      rw [hdr, List.countP_map]
      rfl
    have hsplit :=
      List.length_eq_countP_add_countP (fun t : BlockTurn => t.failed) (l := turnsOf l)
    obtain ⟨hsuccess, hfail⟩ := countP_finals hledger.reported
    have hattempted : s.blocksAttempted = (turnsOf l).length := by
      rw [hs]
      exact Nat.zero_add _
    have hrec : s.blocksRecovered = (turnsOf l).countP (!·.failed) := by
      rw [hs]
      exact Nat.zero_add _
    have hfld : s.blocksFailed = (turnsOf l).countP (·.failed) := by
      rw [hs]
      exact Nat.zero_add _
    refine ⟨?_, ?_, ?_, ?_, ?_, ?_, ?_, ?_, hcrc⟩
    · rw [hattempted, hlength]
    · rw [hattempted, hrec, hfld, hsplit, Nat.add_comm]
      simp only [Bool.not_eq_true, Bool.decide_eq_false]
    · rw [hrec, hsuccess, hrecovered]
    · rw [hfld, hfail, hfailed]
    · rw [hattempted, ← hlength]
      exact hledger.ready
    · rw [hattempted]
      exact Nat.zero_add _
    · rw [hrec]
      exact Nat.zero_add _
    · rw [hfld]
      exact Nat.zero_add _
  · obtain ⟨c, hhw⟩ := runHw_drained wh mem cfg pl0 hcreate calls log hlog
    obtain ⟨hhistogram, hrunning⟩ := runCalls_tracks (drainedHoles pl)
    rw [hhw]
    exact ⟨hhistogram, hrunning⟩

/-- **The packet accounts agree**: a packet is recovered for each frame sent, and
    every fragment of a decoded block is in one group that was sent or counted
    as failed. -/
theorem packet_accounts_agree (s0 : StatsAtomicContainer) (span : Nat) (log : List StatsCall)
    (hlog : log.filter StatsCall.isRx = callsOf (countedRun wh calls (watched pl0))) :
    PacketsAgree (rxRun wh calls (watched pl0))
      (flushesOf (turnsOf (countedRun wh calls (watched pl0))))
      (runStats (statsStart s0 span) log) (runHw hwStatsCreate log).counters := by
  obtain ⟨⟨seen, hledger⟩, hcfg, hdr, -⟩ := drainLedger_run wh mem cfg pl0 hcreate calls
  have hturns : ∀ t ∈ turnsOf (countedRun wh calls (watched pl0)),
      TurnOf wh (rxRun wh calls (watched pl0)).cfg t := by
    intro t ht
    rw [run_cfg]
    exact mem_turnsOf_countedRun ht
  have hk : (rxRun wh calls (watched pl0)).cfg.k ≤ maxSymbolsPerBlock := by
    have hlength := hledger.ok.pool.params.length
    rw [hledger.ok.shape.n] at hlength
    omega
  rw [runStats_interleaved, runHw_interleaved, hlog, runStats_callsOf, runHw_callsOf]
  generalize countedRun wh calls (watched pl0) = l at hdr hturns ⊢
  have hframes : lanFrames (rxRun wh calls (watched pl0)) = framesOf (turnsOf l) := by
    rw [lanFrames, hdr, List.flatMap_map]
    rfl
  have hgroups : framesOf (turnsOf l) = (flushesOf (turnsOf l)).flatMap reassembled := by
    rw [framesOf, flushesOf, List.flatMap_assoc]
    rfl
  refine ⟨?_, ?_, ?_, hframes.trans hgroups, ?_, ?_, ?_, ?_⟩
  · rw [hframes]
    exact Nat.zero_add _
  · rw [hframes]
    exact Nat.zero_add _
  · rw [← frames_add_lost, ← hgroups]
    exact congrArg₂ (· + ·) (Nat.zero_add _) (Nat.zero_add _)
  · rfl
  · rfl
  · intro g hg
    obtain ⟨t, ht, hgt⟩ := List.mem_flatMap.mp hg
    exact (hturns t ht).nonempty hgt
  · rw [hdr]
    exact flushesOf_fragments hk hturns

/-- The holes of the maximal runs of consecutive drained blocks with holes. -/
def lossRuns (pl : RxPipeline) : List Nat := allRuns (drainedHoles pl)

/-- **The lost symbols.**  `stats.c` counts each symbol of a drained block once,
    as lost or as arrived, and each symbol dropped for its CRC that the
    deinterleaver counts.  The lost ones are those of the snapshot of
    `hw_stats.c`, unless a run of blocks with holes lost more than 256; the
    bursts of the snapshot are these runs, while `stats.c` sees no burst at all. -/
theorem lost_symbols_reported (s0 : StatsAtomicContainer) (span : Nat) (log : List StatsCall)
    (hlog : log.filter StatsCall.isRx = callsOf (countedRun wh calls (watched pl0))) :
    let pl := rxRun wh calls (watched pl0)
    let runs := lossRuns pl
    let s := runStats (statsStart s0 span) log
    let reported := (hwStatsComputeSnapshot (runHw hwStatsCreate log)).totals
    s.symbolsDroppedCrc = pl.dil.stats.droppedSymbolsCrcFail ∧
      s.totalSymbols = (pl.cfg.k + pl.cfg.m) * pl.drained.length ∧
      s.lostSymbols + Tally.weigh (·.blk.symbolCount) pl.drained = s.totalSymbols ∧
      s.lostSymbols = runs.sum ∧
      reported.symbolsLostTotal ≤ s.lostSymbols ∧
      (reported.symbolsLostTotal = s.lostSymbols ↔ ∀ n ∈ runs, n ≤ 256) ∧
      reported.totalBurstEvents = runs.length ∧
      s.toStatsContainer = { (statsStart s0 span).toStatsContainer with
        totalSymbols := s.totalSymbols
        lostSymbols := s.lostSymbols } := by
  intro pl runs s reported
  obtain ⟨-, -, hdr, -⟩ := drainLedger_run wh mem cfg pl0 hcreate calls
  obtain ⟨hsymbols, hcrc⟩ := symbolsAgree_run wh mem cfg pl0 hcreate calls s0 span log hlog
  obtain ⟨c, hhw⟩ := runHw_drained wh mem cfg pl0 hcreate calls log hlog
  have hs : s = addTx (runStats (statsStart s0 span) (callsOf (countedRun wh calls (watched pl0))))
      (log.filterMap StatsCall.ingress) (log.filterMap StatsCall.transmitted) := by
    rw [← hlog]
    exact runStats_interleaved log _
  rw [runStats_callsOf] at hs
  generalize countedRun wh calls (watched pl0) = l at hs hdr
  have hattempted : s.blocksAttempted = pl.drained.length := by
    rw [hs, hdr, List.length_map]
    exact Nat.zero_add _
  have htotals : reported = (hwStatsComputeSnapshot (runCalls (drainedHoles pl))).totals := by
    show (hwStatsComputeSnapshot (runHw hwStatsCreate log)).totals = _
    rw [hhw]
    exact snapshot_counters _ _
  have hlost : s.lostSymbols = runs.sum := by
    show _ = (allRuns (drainedHoles pl)).sum
    rw [sum_allRuns, hs, drainedHoles, hdr, List.map_map, List.map_map]
    exact Nat.zero_add _
  obtain ⟨hevents, hsum⟩ := snapshot_totals (drainedHoles pl)
  rw [← htotals] at hevents hsum
  refine ⟨hcrc, by rw [← hattempted]; exact hsymbols.total, hsymbols.lost, hlost, ?_, ?_, hevents,
    ?_⟩
  · rw [hsum, hlost]
    show _ ≤ (lossRuns pl).sum
    conv_rhs => rw [← List.map_id (lossRuns pl)]
    refine List.sum_le_sum fun n _ => ?_
    rw [bucketIndex_eq]
    exact Nat.min_le_left n hwStatsBurstMax
  · rw [hsum, hlost]
    exact sum_bucketIndex_iff runs
  · rw [hs]
    rfl

end Run

/-! ## A run -/

/-- Every call of the receiver is one. -/
theorem callsOf_isRx (l : List Counted) :
    (callsOf l).filter StatsCall.isRx = callsOf l := by
  have hflush : ∀ g, (flushCalls g).all StatsCall.isRx = true := by
    intro g
    rw [flushCalls]
    split <;> rfl
  have hturn : ∀ t : BlockTurn, t.calls.all StatsCall.isRx = true := by
    intro t
    rw [BlockTurn.calls, List.all_append, Bool.and_eq_true]
    refine ⟨rfl, ?_⟩
    split
    · rfl
    · rw [List.all_append, Bool.and_eq_true, List.all_flatMap]
      exact ⟨rfl, List.all_eq_true.mpr fun g _ => hflush g⟩
  refine List.filter_eq_self.mpr fun c hc => ?_
  obtain ⟨e, -, he⟩ := List.mem_flatMap.mp hc
  cases e with
  | crcDrop =>
      rw [List.mem_singleton.mp he]
      rfl
  | block t => exact List.all_eq_true.mp (hturn t) c he

/-- What the receiver counts for `repeatedCalls`, after a packet that the
    transmitter took in. -/
def repeatedLog : List StatsCall :=
  .incIngress 60 ::
    callsOf (countedRun ErasureCode.parity repeatedCalls (watched plainReceiver))

/-- `block_accounts_agree` on that run: two blocks. -/
theorem block_accounts_agree_repeated :
    let pl := rxRun ErasureCode.parity repeatedCalls (watched plainReceiver)
    let s := runStats (statsStart statsZero 1) repeatedLog
    (BlocksAgree pl s (runHw hwStatsCreate repeatedLog).counters ∧ SymbolsAgree pl s ∧
      BurstsAgree pl (runHw hwStatsCreate repeatedLog)) ∧ pl.drained.length = 2 :=
  ⟨block_accounts_agree ErasureCode.parity (fun _ => 0) plainLink plainReceiver rfl
    repeatedCalls statsZero 1 repeatedLog (callsOf_isRx _), by decide +kernel⟩

/-- `packet_accounts_agree` on that run: two packets. -/
theorem packet_accounts_agree_repeated :
    let pl := rxRun ErasureCode.parity repeatedCalls (watched plainReceiver)
    PacketsAgree pl
        (flushesOf (turnsOf (countedRun ErasureCode.parity repeatedCalls
          (watched plainReceiver))))
        (runStats (statsStart statsZero 1) repeatedLog) (runHw hwStatsCreate repeatedLog).counters ∧
      (lanFrames pl).length = 2 :=
  ⟨packet_accounts_agree ErasureCode.parity (fun _ => 0) plainLink plainReceiver rfl
    repeatedCalls statsZero 1 repeatedLog (callsOf_isRx _), by decide +kernel⟩

/-- `lost_symbols_reported` on that run: each block lost its repair symbol. -/
theorem lost_symbols_reported_repeated :
    let pl := rxRun ErasureCode.parity repeatedCalls (watched plainReceiver)
    let runs := lossRuns pl
    let s := runStats (statsStart statsZero 1) repeatedLog
    let reported := (hwStatsComputeSnapshot (runHw hwStatsCreate repeatedLog)).totals
    (s.symbolsDroppedCrc = pl.dil.stats.droppedSymbolsCrcFail ∧
      s.totalSymbols = (pl.cfg.k + pl.cfg.m) * pl.drained.length ∧
      s.lostSymbols + Tally.weigh (·.blk.symbolCount) pl.drained = s.totalSymbols ∧
      s.lostSymbols = runs.sum ∧
      reported.symbolsLostTotal ≤ s.lostSymbols ∧
      (reported.symbolsLostTotal = s.lostSymbols ↔ ∀ n ∈ runs, n ≤ 256) ∧
      reported.totalBurstEvents = runs.length ∧
      s.toStatsContainer = { (statsStart statsZero 1).toStatsContainer with
        totalSymbols := s.totalSymbols
        lostSymbols := s.lostSymbols }) ∧ runs = [2] :=
  ⟨lost_symbols_reported ErasureCode.parity (fun _ => 0) plainLink plainReceiver rfl
    repeatedCalls statsZero 1 repeatedLog (callsOf_isRx _), by decide +kernel⟩

end FsoRxPipeline
