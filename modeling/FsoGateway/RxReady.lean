import FsoGateway.DeinterleaverExits
import FsoGateway.RxOnce

/-! # What becomes of a READY block

    The tick of a call promotes blocks, its push may need a slot, and the
    drain comes last.  Between the promotion and the drain a READY block is
    lost exactly when the frame opens a new block and the pool has no EMPTY
    slot (`keepsReady_iff`).

    * `ready_kept_iff` — so for whole runs: no READY block is lost if and only
      if no call is of that kind;
    * `ready_block_evicted` — heavy loss produces such a call. -/

namespace FsoRxPipeline

open ByteBuffer FsoTypes FecWrapper FsoDeinterleaver PacketReassembler SymbolCrc

/-! ## The tick -/

/-- The slot is EMPTY, or the tick discards it. -/
def BecomesEmpty (d : Deinterleaver) (s : Slot) (now : Nat) : Prop :=
  s.state = .empty ∨
    s.state = .filling ∧ s.validSymbols < d.k ∧ 50 ≤ elapsedMs s.firstSymTime now

/-- The slot is READY, or the tick promotes it. -/
def BecomesReady (d : Deinterleaver) (s : Slot) (now : Nat) : Prop :=
  s.state = .readyToDecode ∨
    s.state = .filling ∧ d.k ≤ s.validSymbols ∧
      (s.validSymbols = d.symbolsPerBlock ∨ 2 ≤ elapsedMs s.lastSymTime now ∨
        50 ≤ elapsedMs s.firstSymTime now)

theorem tickTimeout_eq {pl : RxPipeline} (h : RxShape pl) :
    tickTimeoutMs pl.dil (-1) = 50 := by
  rw [tickTimeoutMs, if_neg (by norm_num), if_neg (by norm_num), defaultTimeoutMs,
    h.maxAge, if_pos (by norm_num)]

/-- **The tick of the receiver**, slot by slot. -/
theorem tick_state {pl : RxPipeline} {seen : UInt32 → List Symbol} (h : RxOk pl seen)
    (now : Nat) {i : Nat} (hi : i < pl.dil.maxActiveBlocks) :
    let s := pl.dil.slots i
    let s' := (deinterleaverTick pl.dil (-1) now).2.slots i
    (s'.state = .empty ↔ BecomesEmpty pl.dil s now) ∧
      (s'.state = .readyToDecode ↔ BecomesReady pl.dil s now) ∧
      (s'.state ≠ .empty → s'.blockId = s.blockId) := by
  intro s s'
  obtain ⟨hfill, hother⟩ := tick_exits h.pool (-1) now i
  rw [tickTimeout_eq h.shape] at hfill
  cases hst : s.state with
  | empty =>
      have hsame : s' = s := hother fun hc => nomatch hst.symm.trans hc.2
      rw [hsame, BecomesEmpty, BecomesReady, hst]
      exact ⟨⟨fun _ => .inl rfl, fun _ => rfl⟩,
        ⟨fun hc => (nomatch hc), fun hc => hc.elim (fun hc => nomatch hc)
          fun hc => nomatch hc.1⟩, fun hc => absurd rfl hc⟩
  | readyToDecode =>
      have hsame : s' = s := hother fun hc => nomatch hst.symm.trans hc.2
      rw [hsame, BecomesEmpty, BecomesReady, hst]
      exact ⟨⟨fun hc => (nomatch hc), fun hc => hc.elim (fun hc => nomatch hc)
        fun hc => nomatch hc.1⟩, ⟨fun _ => .inl rfl, fun _ => rfl⟩, fun _ => rfl⟩
  | filling =>
      have hex : Exits pl.dil s s' 50 now := hfill hi hst
      have hn : pl.dil.symbolsPerBlock = pl.dil.k + pl.dil.m := by
        have hholes := h.pool.params.holes
        have hrepair := h.pool.params.repair
        omega
      refine ⟨hex.empty.trans ?_, hex.ready.trans ?_, fun hne => ?_⟩
      · show Discards pl.dil s 50 now ↔ BecomesEmpty pl.dil s now
        simp [BecomesEmpty, Discards, hst]
      · show Promotes pl.dil s 50 now ↔ BecomesReady pl.dil s now
        simp [BecomesReady, Promotes, hst, h.shape.stabilization, hn]
      · cases hs' : s'.state with
        | empty => exact absurd hs' hne
        | readyToDecode => rw [hex.promoted hs']
        | filling => rw [hex.kept hs']

/-! ## One call -/

theorem rxOk_ticked {pl : RxPipeline} {seen : UInt32 → List Symbol} (h : RxOk pl seen)
    (call : RxCall) : RxOk (ticked pl call) seen :=
  (rxOk_closed (ErasureCode.parity : Wirehair)).tick call.tickNow h

/-- Every block that is READY once the tick has run is still there after the
    call, untouched, or was handed to the FEC decoder in it and its slot
    emptied by `mark_result`. -/
def KeepsReady (wh : Wirehair) (pl : RxPipeline) (call : RxCall) : Prop :=
  ∀ i, i < pl.dil.maxActiveBlocks →
    ((ticked pl call).dil.slots i).state = .readyToDecode →
    (rxPipelineRunOnce wh pl call).dil.slots i = (ticked pl call).dil.slots i ∨
    ((rxPipelineRunOnce wh pl call).dil.slots i).state = .empty ∧
      ∃ es, (rxPipelineRunOnce wh pl call).drained = pl.drained ++ es ∧
        ((ticked pl call).dil.slots i).block ∈ es.map Drained.blk

/-- The frame of the call opens a new block while no slot is EMPTY, nor
    emptied by the tick, and some block is READY, or promoted by the tick. -/
def OpensInFullPool (pl : RxPipeline) (call : RxCall) : Prop :=
  ∃ wire sym, call.event = .frame wire ∧
    parseFrame pl.cfg (wire.take rxWireBufSize) = .symbol sym ∧
    isAccepted pl.dil sym = true ∧
    (∀ i, i < pl.dil.maxActiveBlocks →
      ¬ BecomesEmpty pl.dil (pl.dil.slots i) call.tickNow ∧
        (pl.dil.slots i).blockId ≠ sym.packetId) ∧
    ∃ i, i < pl.dil.maxActiveBlocks ∧ BecomesReady pl.dil (pl.dil.slots i) call.tickNow

/-- The same about the pool that the push meets. -/
theorem opensInFullPool_iff {pl : RxPipeline} {seen : UInt32 → List Symbol}
    (h : RxOk pl seen) (call : RxCall) :
    OpensInFullPool pl call ↔
      ∃ wire sym, call.event = .frame wire ∧
        parseFrame pl.cfg (wire.take rxWireBufSize) = .symbol sym ∧
        isAccepted (ticked pl call).dil sym = true ∧
        findSlotAny (ticked pl call).dil sym.packetId = none ∧
        (∀ i, i < pl.dil.maxActiveBlocks →
          ((ticked pl call).dil.slots i).state ≠ .empty) ∧
        ∃ i, i < pl.dil.maxActiveBlocks ∧
          ((ticked pl call).dil.slots i).state = .readyToDecode := by
  have hparams : SameParams pl.dil (ticked pl call).dil := (tick_slots _ _ _).1
  have hacc : ∀ sym, isAccepted (ticked pl call).dil sym = isAccepted pl.dil sym := by
    intro sym
    rw [isAccepted, isAccepted, isRejected, isRejected, hparams.symbolSize,
      hparams.symbolsPerBlock]
  have hmax : (ticked pl call).dil.maxActiveBlocks = pl.dil.maxActiveBlocks :=
    hparams.maxActiveBlocks
  constructor
  · rintro ⟨wire, sym, h1, h2, h3, h4, i, hi, h5⟩
    have hne : ∀ j, j < pl.dil.maxActiveBlocks →
        ((ticked pl call).dil.slots j).state ≠ .empty := fun j hj hbad =>
      (h4 j hj).1 ((tick_state h call.tickNow hj).1.mp hbad)
    refine ⟨wire, sym, h1, h2, by rw [hacc]; exact h3, ?_, hne, i, hi,
      (tick_state h call.tickNow hi).2.1.mpr h5⟩
    cases hf : findSlotAny (ticked pl call).dil sym.packetId with
    | none => rfl
    | some j =>
        obtain ⟨hj, hje, hid⟩ := findSlotAny_some hf
        rw [hmax] at hj
        have hid' := (tick_state h call.tickNow hj).2.2 hje
        exact absurd (hid'.symm.trans hid) (h4 j hj).2
  · rintro ⟨wire, sym, h1, h2, h3, h4, h5, i, hi, h6⟩
    refine ⟨wire, sym, h1, h2, by rw [← hacc]; exact h3, ?_, i, hi,
      (tick_state h call.tickNow hi).2.1.mp h6⟩
    intro j hj
    refine ⟨fun hbad => h5 j hj ((tick_state h call.tickNow hj).1.mpr hbad), ?_⟩
    rw [← (tick_state h call.tickNow hj).2.2 (h5 j hj)]
    exact findSlotAny_none h4 (by rw [hmax]; exact hj) (h5 j hj)

/-- What the drain makes of a READY slot. -/
theorem drain_ready {pl : RxPipeline} {seen : UInt32 → List Symbol} (wh : Wirehair)
    (h : PoolInv pl.dil seen) {i : Nat} (hi : i < pl.dil.maxActiveBlocks)
    (hs : (pl.dil.slots i).state = .readyToDecode) :
    ((drainReadyBlocks wh pl).dil.slots i).state = .empty ∧
      ∃ es, (drainReadyBlocks wh pl).drained = pl.drained ++ es ∧
        (pl.dil.slots i).block ∈ es.map Drained.blk := by
  obtain ⟨he, -⟩ := drainReadyBlocks_spec wh h
  have hmem := mem_readyList.mpr ⟨hi, hs⟩
  refine ⟨by rw [he.slots i, if_pos hmem]; rfl, ?_⟩
  obtain ⟨es, h1, h2⟩ := he.drained
  exact ⟨es, h1, by rw [h2]; exact List.mem_map_of_mem hmem⟩

/-- A symbol that opens in a full pool takes the place of a READY block. -/
theorem opens_takes_ready {pl : RxPipeline} {seen : UInt32 → List Symbol} (wh : Wirehair)
    (h : RxOk pl seen) (call : RxCall) (hopens : OpensInFullPool pl call) :
    ∃ j, j < pl.dil.maxActiveBlocks ∧
      ((ticked pl call).dil.slots j).state = .readyToDecode ∧
      ((rxPipelineRunOnce wh pl call).dil.slots j).state = .filling := by
  have hok := rxOk_ticked h call
  have hmax : (ticked pl call).dil.maxActiveBlocks = pl.dil.maxActiveBlocks :=
    (tick_slots pl.dil (-1) call.tickNow).1.maxActiveBlocks
  obtain ⟨wire, sym, he, hf, hacc, hnone, hfull, i, hi, hready⟩ :=
    (opensInFullPool_iff h call).mp hopens
  obtain ⟨j, hj, hc, hs⟩ := push_opens hok call.pushNow hacc hnone
  have hj' : j < pl.dil.maxActiveBlocks := by
    rw [← hmax]
    exact hj
  refine ⟨j, hj', ?_, ?_⟩
  · cases hc with
    | free hs' => exact absurd hs' (hfull j hj')
    | ready hs' _ _ => exact hs'
    | filling _ hall _ =>
        rw [hall i (by rw [hmax]; exact hi)] at hready
        exact nomatch hready
  · rw [runOnce_symbol he hf]
    let pl1 : RxPipeline := withDil (ticked pl call)
      (deinterleaverPushSymbol (ticked pl call).dil sym call.pushNow).2
    have hpool : PoolInv pl1.dil _ := poolInv_push sym call.pushNow hok.pool
    obtain ⟨hd, -⟩ := drainReadyBlocks_spec wh hpool
    have hslot : (pl1.dil.slots j).state = .filling := by
      show ((deinterleaverPushSymbol (ticked pl call).dil sym call.pushNow).2.slots
        j).state = _
      rw [hs, Function.update_self]
      rfl
    rw [hd.slots j, if_neg]
    · exact hslot
    · intro hmem
      have h2 := (mem_readyList.mp hmem).2
      rw [hslot] at h2
      exact nomatch h2

/-- A push leaves a READY slot alone, unless it opens a slot in a full pool. -/
theorem push_keeps_ready {d : Deinterleaver} (sym : Symbol) (now : Nat)
    (hpos : 0 < d.maxActiveBlocks) {i : Nat} (hready : (d.slots i).state = .readyToDecode)
    (hnot : isAccepted d sym = true → findSlotAny d sym.packetId = none →
      ¬ ∀ j, j < d.maxActiveBlocks → (d.slots j).state ≠ .empty) :
    (deinterleaverPushSymbol d sym now).2.slots i = d.slots i := by
  have heff := push_effect sym now hpos
  generalize deinterleaverPushSymbol d sym now = r at heff ⊢
  cases heff with
  | dropped _ hs _ _ =>
      show Deinterleaver.slots _ i = _
      rw [hs]
  | @stored d' j base calls hacc hj hb _ _ hs _ =>
      show Deinterleaver.slots _ i = _
      rw [hs]
      refine Function.update_of_ne ?_ ..
      rintro rfl
      cases hb with
      | found _ hfill =>
          rw [hfill] at hready
          exact nomatch hready
      | opened hnone hc =>
          cases hc with
          | free hs' =>
              rw [hs'] at hready
              exact nomatch hready
          | ready _ hfull _ => exact hnot hacc hnone hfull
          | filling hs' _ _ =>
              rw [hs'] at hready
              exact nomatch hready

/-- **One call** loses no READY block unless it opens a new block in a full
    pool. -/
theorem keepsReady_iff {pl : RxPipeline} {seen : UInt32 → List Symbol} (wh : Wirehair)
    (h : RxOk pl seen) (call : RxCall) :
    KeepsReady wh pl call ↔ ¬ OpensInFullPool pl call := by
  have hok := rxOk_ticked h call
  have hmax : (ticked pl call).dil.maxActiveBlocks = pl.dil.maxActiveBlocks :=
    (tick_slots pl.dil (-1) call.tickNow).1.maxActiveBlocks
  constructor
  · -- the victim is a READY slot, and its place is taken by a FILLING one
    intro hkeep hopens
    obtain ⟨j, hj, hjr, hafter⟩ := opens_takes_ready wh h call hopens
    rcases hkeep j hj hjr with hsame | ⟨hempty, -⟩
    · rw [hsame, hjr] at hafter
      exact nomatch hafter
    · rw [hempty] at hafter
      exact nomatch hafter
  · intro hnot i hi hready
    have hi' : i < (ticked pl call).dil.maxActiveBlocks := by
      rw [hmax]
      exact hi
    cases he : call.event with
    | idle =>
        rw [runOnce_idle he]
        exact .inr (drain_ready wh hok.pool hi' hready)
    | error =>
        rw [runOnce_error he]
        exact .inl rfl
    | frame wire =>
        cases hf : parseFrame pl.cfg (wire.take rxWireBufSize) with
        | dropped =>
            rw [runOnce_dropped he hf]
            exact .inl rfl
        | crcFail =>
            rw [runOnce_crcFail he hf]
            exact .inl rfl
        | symbol sym =>
            rw [runOnce_symbol he hf]
            have hpos := hok.pool.params.slots
            have hslot := push_keeps_ready sym call.pushNow hpos hready
              (fun hacc hnone hfull => hnot ((opensInFullPool_iff h call).mpr
                ⟨wire, sym, he, hf, hacc, hnone, by rw [← hmax]; exact hfull, i, hi, hready⟩))
            have hi1 : i < (deinterleaverPushSymbol (ticked pl call).dil sym
                call.pushNow).2.maxActiveBlocks := by
              rw [(sameParams_push sym call.pushNow hpos).maxActiveBlocks]
              exact hi'
            let pl1 : RxPipeline := withDil (ticked pl call)
              (deinterleaverPushSymbol (ticked pl call).dil sym call.pushNow).2
            have hpool1 : PoolInv pl1.dil _ := poolInv_push sym call.pushNow hok.pool
            have hdr := drain_ready wh hpool1 hi1 ((congrArg Slot.state hslot).trans hready)
            refine .inr ⟨hdr.1, ?_⟩
            obtain ⟨es, h1, h2⟩ := hdr.2
            refine ⟨es, h1, ?_⟩
            rw [← hslot]
            exact h2

/-! ## Runs -/

/-- **READY blocks are kept** by every call of a run if and only if no call
    opens a new block in a full pool. -/
theorem ready_kept_iff (wh : Wirehair) (mem : Buffer) (cfg : Config) (pl0 : RxPipeline)
    (hcreate : rxPipelineCreate mem cfg = some pl0) (calls : List RxCall) :
    (∀ pre call post, calls = pre ++ call :: post →
        KeepsReady wh (rxRun wh pre pl0) call) ↔
      ∀ pre call post, calls = pre ++ call :: post →
        ¬ OpensInFullPool (rxRun wh pre pl0) call := by
  have hstep : ∀ pre call, KeepsReady wh (rxRun wh pre pl0) call
      ↔ ¬ OpensInFullPool (rxRun wh pre pl0) call := by
    intro pre call
    obtain ⟨seen, hok⟩ := rxOk_run wh pre (rxOk_create hcreate).1
    exact keepsReady_iff wh hok call
  constructor
  · intro hkeep pre call post heq
    exact (hstep pre call).mp (hkeep pre call post heq)
  · intro hnot pre call post heq
    exact (hstep pre call).mpr (hnot pre call post heq)

/-- One symbol of each of three blocks and both of a fourth fill the four
    slots of the pool. -/
def fillingCalls : List RxCall :=
  [⟨.frame (sourceWire 1 0), 0, 0⟩, ⟨.frame (sourceWire 2 0), 0, 0⟩,
    ⟨.frame (sourceWire 3 0), 0, 0⟩, ⟨.frame (sourceWire 4 0), 0, 0⟩,
    ⟨.frame (sourceWire 4 1), 0, 0⟩]

/-- 2 ms later a symbol of a fifth block arrives. -/
def evictingCall : RxCall := ⟨.frame (sourceWire 5 0), 2000000, 2000000⟩

/-- **A READY block is lost**: the call promotes block 4, gives its slot to
    block 5, and never decodes it. -/
theorem ready_block_evicted :
    let pl := rxRun ErasureCode.parity fillingCalls plainReceiver
    let pl' := rxPipelineRunOnce ErasureCode.parity pl evictingCall
    pl'.dil.stats.evictedDoneBlocks = 1 ∧ pl'.drained.length = 0 ∧
      ¬ KeepsReady ErasureCode.parity pl evictingCall := by
  intro pl pl'
  refine ⟨by decide +kernel, by decide +kernel, ?_⟩
  intro hkeep
  have h := hkeep 3 (by decide +kernel) (by decide +kernel)
  have hafter : (pl'.dil.slots 3).state = .filling := by decide +kernel
  have hbefore : ((ticked pl evictingCall).dil.slots 3).state = .readyToDecode := by
    decide +kernel
  rcases h with hsame | ⟨hempty, -⟩
  · have h1 := congrArg Slot.state hsame
    rw [hbefore] at h1
    exact nomatch h1.symm.trans hafter
  · exact nomatch hempty.symm.trans hafter

/-- `ready_kept_iff` on that run. -/
theorem ready_kept_iff_plainLink :
    (∀ pre call post, fillingCalls = pre ++ call :: post →
        KeepsReady ErasureCode.parity (rxRun ErasureCode.parity pre plainReceiver) call) ↔
      ∀ pre call post, fillingCalls = pre ++ call :: post →
        ¬ OpensInFullPool (rxRun ErasureCode.parity pre plainReceiver) call :=
  ready_kept_iff ErasureCode.parity (fun _ => 0) plainLink plainReceiver rfl fillingCalls

end FsoRxPipeline
