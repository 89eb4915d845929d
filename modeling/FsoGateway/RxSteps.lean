import FsoGateway.DeinterleaverInvariant
import FsoGateway.RxPipeline

/-! # What one call of the RX pipeline does

    A call is a tick, at most one push, and at most one drain.

    * `drainBlock_spec` — one turn of the drain loop decodes the first READY
      slot and empties it;
    * `drainReadyBlocks_spec` — the whole loop does so for every READY slot,
      in the order of the pool, and touches no other;
    * `RxOk` — what holds between two calls, and `StepClosed`, which turns the
      kinds of steps into an induction over a run. -/

namespace FsoRxPipeline

open ByteBuffer FsoTypes FecWrapper FsoDeinterleaver PacketReassembler SymbolCrc

/-! ## The state between two calls -/

/-- The deinterleaver and the FEC context are those of the configuration. -/
structure RxShape (pl : RxPipeline) : Prop where
  fec : pl.fec = ⟨pl.cfg.k, pl.cfg.symbolSize⟩
  slots : pl.dil.maxActiveBlocks = pl.cfg.depth * 4
  n : pl.dil.symbolsPerBlock = pl.cfg.k + pl.cfg.m
  k : pl.dil.k = pl.cfg.k
  symbolSize : pl.dil.symbolSize = pl.cfg.symbolSize
  stabilization : pl.dil.stabilizationMs = 2
  maxAge : pl.dil.blockMaxAgeMs = 50
  source : 2 ≤ pl.cfg.k

/-- What holds between two calls; `seen` are the symbols seen for each block. -/
structure RxOk (pl : RxPipeline) (seen : UInt32 → List Symbol) : Prop where
  shape : RxShape pl
  pool : PoolInv pl.dil seen

theorem rxOk_create {mem : Buffer} {cfg : Config} {pl : RxPipeline}
    (h : rxPipelineCreate mem cfg = some pl) :
    RxOk pl (fun _ => []) ∧ pl.cfg = cfg ∧ pl.drained = [] ∧ pl.dil.cbLog = [] ∧
      pl.dil.stats = {} ∧ ∀ i, pl.dil.slots i = slotZero := by
  rw [rxPipelineCreate] at h
  by_cases hfec : cfg.k < 2 ∨ cfg.symbolSize = 0
  · rw [fecCreate, if_pos hfec] at h
    cases h
  · rw [fecCreate, if_neg hfec] at h
    cases hd : deinterleaverCreate (cfg.depth * 4) (cfg.k + cfg.m) cfg.k cfg.symbolSize 2
        rxBlockMaxAgeMs with
    | none =>
        rw [hd] at h
        cases h
    | some dil =>
        rw [hd] at h
        have hpool := poolInv_create hd
        rw [← Option.some.inj h]
        rw [deinterleaverCreate] at hd
        split at hd
        · cases hd
        · rw [← Option.some.inj hd] at hpool ⊢
          exact ⟨⟨⟨rfl, rfl, rfl, rfl, rfl, rfl, rfl, by show 2 ≤ cfg.k; omega⟩, hpool⟩,
            rfl, rfl, rfl, rfl, fun _ => rfl⟩

theorem RxShape.congr {pl pl' : RxPipeline} (h : RxShape pl) (hcfg : pl'.cfg = pl.cfg)
    (hfec : pl'.fec = pl.fec) (hp : SameParams pl.dil pl'.dil) : RxShape pl' where
  fec := by rw [hfec, hcfg, h.fec]
  slots := by rw [hp.maxActiveBlocks, hcfg, h.slots]
  n := by rw [hp.symbolsPerBlock, hcfg, h.n]
  k := by rw [hp.k, hcfg, h.k]
  symbolSize := by rw [hp.symbolSize, hcfg, h.symbolSize]
  stabilization := by rw [hp.stabilizationMs, h.stabilization]
  maxAge := by rw [hp.blockMaxAgeMs, h.maxAge]
  source := by rw [hcfg]; exact h.source

/-! ## Draining -/

/-- The READY slots, in the order of the pool. -/
def readyList (d : Deinterleaver) : List Nat :=
  (List.range d.maxActiveBlocks).filter fun i =>
    decide ((d.slots i).state = .readyToDecode)

theorem mem_readyList {d : Deinterleaver} {i : Nat} :
    i ∈ readyList d ↔ i < d.maxActiveBlocks ∧ (d.slots i).state = .readyToDecode := by
  rw [readyList, List.mem_filter, List.mem_range, decide_eq_true_iff]

theorem readyCount_eq (d : Deinterleaver) :
    deinterleaverReadyCount d = (readyList d).length :=
  List.countP_eq_length_filter

theorem findReady_eq (d : Deinterleaver) : findReady d = (readyList d).head? := by
  rw [readyList, List.head?_filter]
  rfl

/-- Emptying the first READY slot leaves the others. -/
theorem readyList_finalize {d : Deinterleaver} {i : Nat} {l : List Nat}
    (h : readyList d = i :: l) (r : BlockFinalReason) :
    readyList (finalizeAndResetSlot d i r) = l := by
  have hi : i < d.maxActiveBlocks ∧ (d.slots i).state = .readyToDecode :=
    mem_readyList.mp (h ▸ List.mem_cons_self)
  have hne : (d.slots i).state ≠ .empty := by
    rw [hi.2]
    decide
  have hnd : (i :: l).Nodup := by
    rw [← h]
    exact List.nodup_range.filter _
  rw [readyList, (sameParams_finalize d i r).maxActiveBlocks, finalize_slots r hne]
  have hpred : ∀ j ∈ List.range d.maxActiveBlocks,
      decide ((Function.update d.slots i (slotReset (d.slots i)) j).state = .readyToDecode)
        = (decide (j ≠ i) && decide ((d.slots j).state = .readyToDecode)) := by
    intro j _
    by_cases hj : j = i
    · rw [hj, Function.update_self, decide_eq_false (not_not_intro rfl), Bool.false_and]
      rfl
    · rw [Function.update_of_ne hj, decide_eq_true hj, Bool.true_and]
  rw [List.filter_congr hpred, ← List.filter_filter]
  show (readyList d).filter _ = l
  rw [h, List.filter_cons_of_neg (by simp)]
  refine List.filter_eq_self.mpr fun j hj => decide_eq_true ?_
  rintro rfl
  exact (List.nodup_cons.mp hnd).1 hj

/-- What `fec_decode_block` gives for a block in this state. -/
def decoded (wh : Wirehair) (pl : RxPipeline) (blk : Block) : FecDecoded :=
  fecDecodeBlock wh pl.fec blk.symbols blk.symbolCount blk.symbolsPerBlock
    (memzero pl.reconBuf (pl.cfg.k * pl.cfg.symbolSize))

/-- Did the decoder give the block back? -/
def decodeFails (d : FecDecoded) : Prop :=
  d.rc = fecDecodeTooManyHoles ∨ d.rc = fecDecodeErr

instance (d : FecDecoded) : Decidable (decodeFails d) :=
  inferInstanceAs (Decidable (_ ∨ _))

/-- The record of a block that is drained. -/
def drainedOf (wh : Wirehair) (pl : RxPipeline) (blk : Block) : Drained where
  blk := blk
  rc := (decoded wh pl blk).rc
  frames :=
    if decodeFails (decoded wh pl blk) then []
    else blockFrames pl.cfg blk.symbols (decoded wh pl blk).outReconstructed

/-- The reason a drained block is finalised with. -/
def drainReason (wh : Wirehair) (pl : RxPipeline) (blk : Block) : BlockFinalReason :=
  if decodeFails (decoded wh pl blk) then .decodeFailed else .decodeSuccess

/-- A READY slot is in use. -/
theorem ready_ne_empty {s : Slot} (h : s.state = .readyToDecode) : s.state ≠ .empty := by
  rw [h]
  decide

/-- **One turn of the drain loop**: the block is decoded, and `mark_result`
    finds and empties its slot. -/
theorem drainBlock_spec {pl : RxPipeline} {seen : UInt32 → List Symbol} (wh : Wirehair)
    (h : PoolInv pl.dil seen) {i : Nat} (hi : i < pl.dil.maxActiveBlocks)
    (hs : (pl.dil.slots i).state = .readyToDecode) :
    let blk := (pl.dil.slots i).block
    drainBlock wh pl blk =
      { pl with
        reconBuf := (decoded wh pl blk).outReconstructed
        drained := pl.drained ++ [drainedOf wh pl blk]
        dil := finalizeAndResetSlot pl.dil i (drainReason wh pl blk) } := by
  intro blk
  have hid : blk.blockId.toUInt32 = (pl.dil.slots i).blockId := by
    rw [(h.slot i hi (ready_ne_empty hs)).content.blockId]
    exact UInt32.toUInt32_toUInt64 _
  have hmark : ∀ ok, (deinterleaverMarkResult pl.dil blk.blockId.toUInt32 ok).2
      = finalizeAndResetSlot pl.dil i (if ok then .decodeSuccess else .decodeFailed) := by
    intro ok
    rw [hid, deinterleaverMarkResult, findSlotAny_eq h hi (ready_ne_empty hs)]
    simp only [hs, ne_eq, not_true_eq_false, if_false]
  show drainBlock wh pl blk = _
  rw [drainBlock]
  show (if decodeFails (decoded wh pl blk) then _ else _) = _
  rw [drainedOf, drainReason]
  by_cases hf : decodeFails (decoded wh pl blk)
  · simp only [if_pos hf, hmark]
    rfl
  · simp only [if_neg hf, hmark]
    rfl

/-- **The loop, one block at a time.** -/
theorem drainReadyBlocks_cons {pl : RxPipeline} {seen : UInt32 → List Symbol}
    (wh : Wirehair) (h : PoolInv pl.dil seen) {i : Nat} {l : List Nat}
    (hl : readyList pl.dil = i :: l) :
    readyList (drainBlock wh pl (pl.dil.slots i).block).dil = l ∧
      drainReadyBlocks wh pl
        = drainReadyBlocks wh (drainBlock wh pl (pl.dil.slots i).block) := by
  obtain ⟨hi, hs⟩ := mem_readyList.mp (hl ▸ List.mem_cons_self : i ∈ readyList pl.dil)
  have hhead : findReady pl.dil = some i := by
    rw [findReady_eq, hl]
    rfl
  have hrest : readyList (drainBlock wh pl (pl.dil.slots i).block).dil = l := by
    rw [drainBlock_spec wh h hi hs]
    exact readyList_finalize hl _
  refine ⟨hrest, ?_⟩
  rw [drainReadyBlocks, drainReadyBlocks, readyCount_eq, readyCount_eq, hl, hrest]
  show drainLoop wh (l.length + 1) pl = _
  rw [drainLoop, getReady_eq h, hhead]
  rfl

/-- Without a READY slot the loop does nothing. -/
theorem drainReadyBlocks_nil {pl : RxPipeline} (wh : Wirehair)
    (hl : readyList pl.dil = []) : drainReadyBlocks wh pl = pl := by
  rw [drainReadyBlocks, readyCount_eq, hl]
  rfl

/-- What the drain loop leaves behind, `l` being the READY slots. -/
structure DrainEffect (pl pl' : RxPipeline) (l : List Nat) : Prop where
  cfg : pl'.cfg = pl.cfg
  fec : pl'.fec = pl.fec
  params : SameParams pl.dil pl'.dil
  slots : ∀ i, pl'.dil.slots i
    = if i ∈ l then slotReset (pl.dil.slots i) else pl.dil.slots i
  drained : ∃ es : List Drained, pl'.drained = pl.drained ++ es ∧
    es.map Drained.blk = l.map fun i => (pl.dil.slots i).block

/-- **The drain loop** decodes and empties every READY slot, in the order of
    the pool, and touches no other. -/
theorem drainReadyBlocks_spec {pl : RxPipeline} {seen : UInt32 → List Symbol}
    (wh : Wirehair) (h : PoolInv pl.dil seen) :
    DrainEffect pl (drainReadyBlocks wh pl) (readyList pl.dil) ∧
      PoolInv (drainReadyBlocks wh pl).dil seen := by
  generalize hl : readyList pl.dil = l
  induction l generalizing pl with
  | nil =>
      rw [drainReadyBlocks_nil wh hl]
      exact ⟨⟨rfl, rfl, SameParams.refl _, fun i => (if_neg List.not_mem_nil).symm,
        [], (List.append_nil _).symm, rfl⟩, h⟩
  | cons i l ih =>
      obtain ⟨hi, hs⟩ := mem_readyList.mp (hl ▸ List.mem_cons_self : i ∈ readyList pl.dil)
      obtain ⟨hrest, hstep⟩ := drainReadyBlocks_cons wh h hl
      rw [hstep]
      have hspec := drainBlock_spec wh h hi hs
      have hpool : PoolInv (drainBlock wh pl (pl.dil.slots i).block).dil seen := by
        rw [hspec]
        exact poolInv_finalize _ h (ready_ne_empty hs)
      obtain ⟨he, hpool'⟩ := ih hpool hrest
      have hslots : (drainBlock wh pl (pl.dil.slots i).block).dil.slots
          = Function.update pl.dil.slots i (slotReset (pl.dil.slots i)) := by
        rw [hspec]
        exact finalize_slots _ (ready_ne_empty hs)
      have hnd : (i :: l).Nodup := by
        rw [← hl]
        exact List.nodup_range.filter _
      have hnot := (List.nodup_cons.mp hnd).1
      refine ⟨⟨?_, ?_, ?_, ?_, ?_⟩, hpool'⟩
      · rw [he.cfg, hspec]
      · rw [he.fec, hspec]
      · refine SameParams.trans ?_ he.params
        rw [hspec]
        exact sameParams_finalize _ _ _
      · intro j
        rw [he.slots j, hslots]
        by_cases hj : j = i
        · rw [hj, if_neg hnot, Function.update_self, if_pos List.mem_cons_self]
        · rw [Function.update_of_ne hj]
          by_cases hjl : j ∈ l
          · rw [if_pos hjl, if_pos (List.mem_cons_of_mem _ hjl)]
          · rw [if_neg hjl, if_neg fun hm => (List.mem_cons.mp hm).elim hj hjl]
      · obtain ⟨es, h1, h2⟩ := he.drained
        refine ⟨drainedOf wh pl (pl.dil.slots i).block :: es, ?_, ?_⟩
        · rw [h1, hspec]
          show (pl.drained ++ [_]) ++ es = _
          rw [List.append_assoc]
          rfl
        · rw [List.map_cons, h2, List.map_cons]
          refine congrArg _ (List.map_congr_left fun j hj => ?_)
          have hji : j ≠ i := by
            rintro rfl
            exact hnot hj
          rw [hslots, Function.update_of_ne hji]

/-! ## The parts of a call -/

/-- The pipeline with another deinterleaver. -/
def withDil (pl : RxPipeline) (d : Deinterleaver) : RxPipeline := { pl with dil := d }

/-- The pipeline after the tick of a call. -/
def ticked (pl : RxPipeline) (call : RxCall) : RxPipeline :=
  withDil pl (deinterleaverTick pl.dil (-1) call.tickNow).2

section Call

variable {wh : Wirehair} {pl : RxPipeline} {call : RxCall} {wire : List UInt8}

theorem runOnce_idle (he : call.event = .idle) :
    rxPipelineRunOnce wh pl call = drainReadyBlocks wh (ticked pl call) := by
  rw [rxPipelineRunOnce, he]
  rfl

theorem runOnce_error (he : call.event = .error) :
    rxPipelineRunOnce wh pl call = ticked pl call := by
  rw [rxPipelineRunOnce, he]
  rfl

/-- A frame: what follows depends on how it is parsed. -/
theorem runOnce_frame (he : call.event = .frame wire) :
    rxPipelineRunOnce wh pl call =
      match parseFrame pl.cfg (wire.take rxWireBufSize) with
      | .dropped => ticked pl call
      | .crcFail => withDil (ticked pl call) (deinterleaverIncCrcDrop (ticked pl call).dil)
      | .symbol sym =>
          drainReadyBlocks wh (withDil (ticked pl call)
            (deinterleaverPushSymbol (ticked pl call).dil sym call.pushNow).2) := by
  rw [rxPipelineRunOnce, he]
  rfl

theorem runOnce_dropped (he : call.event = .frame wire)
    (hf : parseFrame pl.cfg (wire.take rxWireBufSize) = .dropped) :
    rxPipelineRunOnce wh pl call = ticked pl call := by
  rw [runOnce_frame he, hf]

theorem runOnce_crcFail (he : call.event = .frame wire)
    (hf : parseFrame pl.cfg (wire.take rxWireBufSize) = .crcFail) :
    rxPipelineRunOnce wh pl call
      = withDil (ticked pl call) (deinterleaverIncCrcDrop (ticked pl call).dil) := by
  rw [runOnce_frame he, hf]

theorem runOnce_symbol {sym : Symbol} (he : call.event = .frame wire)
    (hf : parseFrame pl.cfg (wire.take rxWireBufSize) = .symbol sym) :
    rxPipelineRunOnce wh pl call
      = drainReadyBlocks wh (withDil (ticked pl call)
          (deinterleaverPushSymbol (ticked pl call).dil sym call.pushNow).2) := by
  rw [runOnce_frame he, hf]

end Call

/-! ## Induction over the steps -/

/-- A property that every step of a call keeps: the tick, a push of a symbol
    that `allowed` lets through, a drain of one READY slot. -/
structure StepClosed (wh : Wirehair) (P : RxPipeline → (UInt32 → List Symbol) → Prop)
    (allowed : Deinterleaver → Symbol → Prop) : Prop where
  pool : ∀ {pl seen}, P pl seen → PoolInv pl.dil seen
  tick : ∀ {pl seen} now, P pl seen →
    P (withDil pl (deinterleaverTick pl.dil (-1) now).2) seen
  crcDrop : ∀ {pl seen}, P pl seen → P (withDil pl (deinterleaverIncCrcDrop pl.dil)) seen
  push : ∀ {pl seen} sym now, allowed pl.dil sym → P pl seen →
    P (withDil pl (deinterleaverPushSymbol pl.dil sym now).2)
      (seenStep pl.dil seen (.push sym now))
  drain : ∀ {pl seen i}, P pl seen → i < pl.dil.maxActiveBlocks →
    (pl.dil.slots i).state = .readyToDecode →
    P (drainBlock wh pl (pl.dil.slots i).block) seen

section Induct

variable {wh : Wirehair} {P : RxPipeline → (UInt32 → List Symbol) → Prop}
  {allowed : Deinterleaver → Symbol → Prop}

theorem StepClosed.drainLoop (h : StepClosed wh P allowed) (fuel : Nat)
    {pl : RxPipeline} {seen : UInt32 → List Symbol} (hp : P pl seen) :
    P (drainLoop wh fuel pl) seen := by
  induction fuel generalizing pl with
  | zero => exact hp
  | succ fuel ih =>
      rw [FsoRxPipeline.drainLoop, getReady_eq (h.pool hp)]
      cases hf : findReady pl.dil with
      | none => exact hp
      | some i =>
          obtain ⟨hi, hs⟩ := findReady_some hf
          exact ih (h.drain hp hi hs)

/-- The symbol that a call brings in is allowed where it is pushed. -/
def Brings (pl : RxPipeline) (call : RxCall) (allowed : Deinterleaver → Symbol → Prop) :
    Prop :=
  ∀ wire sym, call.event = .frame wire →
    parseFrame pl.cfg (wire.take rxWireBufSize) = .symbol sym →
    allowed (deinterleaverTick pl.dil (-1) call.tickNow).2 sym

/-- **One call** keeps a property that every step keeps. -/
theorem StepClosed.runOnce (h : StepClosed wh P allowed) {pl : RxPipeline}
    {seen : UInt32 → List Symbol} (hp : P pl seen) (call : RxCall)
    (hb : Brings pl call allowed) :
    ∃ seen', P (rxPipelineRunOnce wh pl call) seen' := by
  have ht : P (ticked pl call) seen := h.tick call.tickNow hp
  cases he : call.event with
  | idle =>
      rw [runOnce_idle he]
      exact ⟨seen, h.drainLoop _ ht⟩
  | error =>
      rw [runOnce_error he]
      exact ⟨seen, ht⟩
  | frame wire =>
      cases hf : parseFrame pl.cfg (wire.take rxWireBufSize) with
      | dropped =>
          rw [runOnce_dropped he hf]
          exact ⟨seen, ht⟩
      | crcFail =>
          rw [runOnce_crcFail he hf]
          exact ⟨seen, h.crcDrop ht⟩
      | symbol sym =>
          rw [runOnce_symbol he hf]
          exact ⟨_, h.drainLoop _ (h.push sym _ (hb wire sym he hf) ht)⟩

end Induct

/-- A call leaves the configuration alone. -/
theorem runOnce_cfg (wh : Wirehair) (pl : RxPipeline) (call : RxCall) :
    (rxPipelineRunOnce wh pl call).cfg = pl.cfg := by
  have hblock : ∀ (pl : RxPipeline) blk, (drainBlock wh pl blk).cfg = pl.cfg := by
    intro pl blk
    rw [drainBlock]
    split <;> rfl
  have hloop : ∀ fuel (pl : RxPipeline), (drainLoop wh fuel pl).cfg = pl.cfg := by
    intro fuel
    induction fuel with
    | zero => exact fun _ => rfl
    | succ fuel ih =>
        intro pl
        rw [drainLoop]
        cases (deinterleaverGetReadyBlock pl.dil).1 with
        | none => rfl
        | some blk => exact (ih _).trans (hblock _ _)
  cases he : call.event with
  | idle =>
      rw [runOnce_idle he]
      exact hloop _ _
  | error => rw [runOnce_error he]; rfl
  | frame wire =>
      cases hf : parseFrame pl.cfg (wire.take rxWireBufSize) with
      | dropped => rw [runOnce_dropped he hf]; rfl
      | crcFail => rw [runOnce_crcFail he hf]; rfl
      | symbol sym =>
          rw [runOnce_symbol he hf]
          exact hloop _ _

/-- **A run** keeps a property that every step keeps. -/
theorem StepClosed.run {wh : Wirehair} {P : RxPipeline → (UInt32 → List Symbol) → Prop}
    {allowed : Deinterleaver → Symbol → Prop} (h : StepClosed wh P allowed)
    (calls : List RxCall) {pl : RxPipeline} {seen : UInt32 → List Symbol} (hp : P pl seen)
    (hb : ∀ pre call post, calls = pre ++ call :: post →
      Brings (rxRun wh pre pl) call allowed) :
    ∃ seen', P (rxRun wh calls pl) seen' := by
  induction calls generalizing pl seen with
  | nil => exact ⟨seen, hp⟩
  | cons call calls ih =>
      obtain ⟨seen', hp'⟩ := h.runOnce hp call (hb [] call calls rfl)
      refine ih hp' fun pre c post heq => ?_
      exact hb (call :: pre) c post (by rw [heq]; rfl)

/-! ## The state between two calls is kept -/

theorem sameParams_push {d : Deinterleaver} (sym : Symbol) (now : Nat)
    (hpos : 0 < d.maxActiveBlocks) :
    SameParams d (deinterleaverPushSymbol d sym now).2 := by
  have heff := push_effect sym now hpos
  generalize deinterleaverPushSymbol d sym now = r at heff ⊢
  cases heff with
  | dropped hp _ _ _ => exact hp
  | stored _ _ _ _ hp _ _ => exact hp

/-- Every step of a call keeps `RxOk`. -/
theorem rxOk_closed (wh : Wirehair) : StepClosed wh RxOk fun _ _ => True where
  pool := fun h => h.pool
  tick := by
    intro pl seen now h
    exact ⟨h.shape.congr rfl rfl (tick_slots pl.dil (-1) now).1,
      poolInv_tick (-1) now h.pool⟩
  crcDrop := by
    intro pl seen h
    exact ⟨h.shape.congr rfl rfl ⟨rfl, rfl, rfl, rfl, rfl, rfl, rfl, rfl, rfl⟩,
      poolInv_congr h.pool ⟨rfl, rfl, rfl, rfl, rfl, rfl, rfl, rfl, rfl⟩ rfl⟩
  push := by
    intro pl seen sym now _ h
    exact ⟨h.shape.congr rfl rfl (sameParams_push sym now h.pool.params.slots),
      poolInv_push sym now h.pool⟩
  drain := by
    intro pl seen i h hi hs
    rw [drainBlock_spec wh h.pool hi hs]
    exact ⟨h.shape.congr rfl rfl (sameParams_finalize _ _ _),
      poolInv_finalize _ h.pool (ready_ne_empty hs)⟩

theorem rxOk_run (wh : Wirehair) (calls : List RxCall) {pl : RxPipeline}
    {seen : UInt32 → List Symbol} (h : RxOk pl seen) :
    ∃ seen', RxOk (rxRun wh calls pl) seen' :=
  (rxOk_closed wh).run calls h fun _ _ _ _ _ _ _ _ => trivial

theorem run_cfg (wh : Wirehair) (calls : List RxCall) (pl : RxPipeline) :
    (rxRun wh calls pl).cfg = pl.cfg := by
  induction calls generalizing pl with
  | nil => rfl
  | cons call calls ih => exact (ih _).trans (runOnce_cfg wh pl call)

/-- One symbol completes nothing: the slot opened for it is FILLING. -/
theorem pushedSlot_open {pl : RxPipeline} {seen : UInt32 → List Symbol} (h : RxOk pl seen)
    (i : Nat) (sym : Symbol) (now : Nat) :
    pushedSlot pl.dil (openSlot pl.dil i sym.packetId now) sym now
      = slotStore (openSlot pl.dil i sym.packetId now) sym pl.dil.symbolSize now := by
  have hk := h.shape.k
  have hk2 := h.shape.source
  have hrep := h.pool.params.repair
  let s := slotStore (openSlot pl.dil i sym.packetId now) sym pl.dil.symbolSize now
  have hvalid : s.validSymbols = 1 := rfl
  have htimeout : ¬ defaultTimeoutMs pl.dil ≤ elapsedMs s.firstSymTime now := by
    rw [defaultTimeoutMs, h.shape.maxAge, if_pos (by norm_num)]
    rw [show elapsedMs s.firstSymTime now = 0 from elapsedMs_self now]
    norm_num
  show settledSlot pl.dil s (defaultTimeoutMs pl.dil) now = s
  have hc := maybeFreezeSlot_cases pl.dil.symbolsPerBlock pl.dil.k pl.dil.m
    pl.dil.stabilizationMs (defaultTimeoutMs pl.dil) now pl.dil.stats
    (s := s) rfl
  rcases hc with ⟨-, -, h3⟩ | ⟨-, -, -, -, h3⟩ | ⟨h1, -, -⟩
  · rcases h3 with h3 | h3 <;> omega
  · rcases h3 with h3 | h3
    · omega
    · exact absurd h3 htimeout
  · rw [settledSlot, show freezeRc pl.dil s (defaultTimeoutMs pl.dil) now = .none from h1]

/-- An accepted symbol of a block without a slot opens one. -/
theorem push_opens {pl : RxPipeline} {seen : UInt32 → List Symbol} (h : RxOk pl seen)
    {sym : Symbol} (now : Nat) (hacc : isAccepted pl.dil sym = true)
    (hnone : findSlotAny pl.dil sym.packetId = none) :
    ∃ i, i < pl.dil.maxActiveBlocks ∧ AllocChoice pl.dil now i ∧
      (deinterleaverPushSymbol pl.dil sym now).2.slots
        = Function.update pl.dil.slots i
            (slotStore (openSlot pl.dil i sym.packetId now) sym pl.dil.symbolSize now) := by
  have heff := push_effect sym now h.pool.params.slots
  generalize deinterleaverPushSymbol pl.dil sym now = r at heff ⊢
  cases heff with
  | dropped _ _ _ hd =>
      obtain ⟨i, hi, -⟩ := hd hacc
      rw [hnone] at hi
      exact nomatch hi
  | @stored d' i base calls _ hi hb _ _ hs _ =>
      cases hb with
      | found hf _ =>
          rw [hnone] at hf
          exact nomatch hf
      | opened _ hc =>
          refine ⟨i, hi, hc, ?_⟩
          rw [hs, pushedSlot_open h]

end FsoRxPipeline
