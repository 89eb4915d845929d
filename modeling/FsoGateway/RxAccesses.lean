import FsoGateway.SymbolAccess
import FsoGateway.RxSteps

/-! # Symbol data in the RX pipeline

    What each function of the RX pipeline copies or reads of the `data` array of
    a symbol, in the manner of the TX pipeline.  The walk over a decoded block
    goes by payload lengths and is not among them.

    * `rxAccessesRun` — the accesses of a run;
    * `sized_rxRun` — all but the copy from the wire are `symbol_size` bytes
      long, whatever the codec and the frames. -/

namespace FsoRxPipeline

open ByteBuffer FsoTypes FecWrapper FsoDeinterleaver SymbolAccess

/-! ## The accesses -/

/-- Step 2 of `rx_pipeline_run_once`, behind the Ethernet header. -/
def parseSymbolAccesses (cfg : Config) (wire : List UInt8) : List DataAccess :=
  if wire.length < wireHdrSize then []
  else
    let sym := parseHeader (ofList wire)
    if sym.packetId = 0 ∧ sym.payloadLen = 0 then []
    else if cfg.symbolSize < sym.payloadLen.toNat then []
    else if maxSymbolDataSize < sym.payloadLen.toNat then []
    else if wire.length < wireHdrSize + sym.payloadLen.toNat then []
    else [⟨.receive, sym.payloadLen.toNat⟩]

/-- The steps from a received frame to the symbol that is pushed. -/
def parseFrameAccesses (cfg : Config) (wire : List UInt8) : List DataAccess :=
  if fsoEthHdrSize ≤ wire.length ∧ wire.getD 12 0 = 0x7f ∧ wire.getD 13 0 = 0xec then
    parseSymbolAccesses cfg (wire.drop fsoEthHdrSize)
  else []

/-- The tail of `push_symbol`. -/
def storeSymbolAccesses (self : Deinterleaver) (i : Nat) (sym : Symbol) :
    List DataAccess :=
  if Bitset.test (self.slots i).receivedMask sym.fecId.toNat then []
  else [⟨.storeSymbol, self.symbolSize⟩]

/-- `deinterleaver_push_symbol`. -/
def deinterleaverPushAccesses (self : Deinterleaver) (sym : Symbol) (now : Nat) :
    List DataAccess :=
  if isErasure sym then []
  else if isRejected self sym then []
  else
    match findSlotAny self sym.packetId with
    | none =>
        match allocSlot self sym.packetId now with
        | (none, _) => []
        | (some i, self) => storeSymbolAccesses self i sym
    | some i =>
        if (self.slots i).state ≠ .filling then [] else storeSymbolAccesses self i sym

/-- The feed loop of `fec_decode_block`. -/
def fecFeedLoopAccesses (wh : Wirehair) (ctx : FecCtx) (symbols : Nat → Symbol) :
    List Nat → wh.decoding.Decoder → List DataAccess
  | [], _ => []
  | i :: rest, decoder =>
      let sym := symbols i
      let r := wh.decoding.decode decoder sym.fecId.toNat (bytes sym.data ctx.symbolSize)
      ⟨.feedSymbol, ctx.symbolSize⟩ ::
        if r.1 = .needMore then fecFeedLoopAccesses wh ctx symbols rest r.2 else []

/-- `fec_decode_block`. -/
def fecDecodeBlockAccesses (wh : Wirehair) (ctx : FecCtx) (symbols : Nat → Symbol)
    (symbolCount scanCapacity : Nat) : List DataAccess :=
  let scanCapacity := if scanCapacity < symbolCount then symbolCount else scanCapacity
  match fecCheckCounts ctx (fecCountValidSymbols symbols scanCapacity) scanCapacity with
  | some _ => []
  | none =>
      match wh.decoding.create ctx.blockBytes ctx.symbolSize with
      | none => []
      | some decoder =>
          fecFeedLoopAccesses wh ctx symbols
            (fecBuildFeedOrder symbols scanCapacity ctx.k).1 decoder

/-- The loop of `drain_ready_blocks`. -/
def drainLoopAccesses (wh : Wirehair) : Nat → RxPipeline → List DataAccess
  | 0, _ => []
  | fuel + 1, pl =>
      let r := deinterleaverGetReadyBlock pl.dil
      match r.1 with
      | none => []
      | some blk =>
          fecDecodeBlockAccesses wh pl.fec blk.symbols blk.symbolCount blk.symbolsPerBlock ++
            drainLoopAccesses wh fuel (drainBlock wh { pl with dil := r.2 } blk)

/-- `drain_ready_blocks`. -/
def drainReadyBlocksAccesses (wh : Wirehair) (pl : RxPipeline) : List DataAccess :=
  drainLoopAccesses wh (deinterleaverReadyCount pl.dil) pl

/-- What follows the tick. -/
def handleEventAccesses (wh : Wirehair) (pl : RxPipeline) (event : RxEvent)
    (pushNow : Nat) : List DataAccess :=
  match event with
  | .idle => drainReadyBlocksAccesses wh pl
  | .error => []
  | .frame wire =>
      parseFrameAccesses pl.cfg (wire.take rxWireBufSize) ++
        match parseFrame pl.cfg (wire.take rxWireBufSize) with
        | .dropped => []
        | .crcFail => []
        | .symbol sym =>
            deinterleaverPushAccesses pl.dil sym pushNow ++
              drainReadyBlocksAccesses wh
                { pl with dil := (deinterleaverPushSymbol pl.dil sym pushNow).2 }

/-- `rx_pipeline_run_once`. -/
def rxAccessesOnce (wh : Wirehair) (pl : RxPipeline) (call : RxCall) : List DataAccess :=
  handleEventAccesses wh { pl with dil := (deinterleaverTick pl.dil (-1) call.tickNow).2 }
    call.event call.pushNow

/-- The accesses of a run. -/
def rxAccessesRun (wh : Wirehair) : List RxCall → RxPipeline → List DataAccess
  | [], _ => []
  | call :: calls, pl =>
      rxAccessesOnce wh pl call ++ rxAccessesRun wh calls (rxPipelineRunOnce wh pl call)

/-! ## The sizes are kept -/

/-- Every part of the pipeline works with symbols of `ss` bytes; the pool is not
    empty. -/
structure Sizes (ss : Nat) (pl : RxPipeline) : Prop where
  dil : pl.dil.symbolSize = ss
  fec : pl.fec.symbolSize = ss
  pool : 0 < pl.dil.maxActiveBlocks

section Sizes

variable {ss : Nat} {pl : RxPipeline}

theorem Sizes.params {d : Deinterleaver} (h : Sizes ss pl) (hp : SameParams pl.dil d) :
    Sizes ss { pl with dil := d } where
  dil := hp.symbolSize.trans h.dil
  fec := h.fec
  pool := by
    show 0 < d.maxActiveBlocks
    rw [hp.maxActiveBlocks]
    exact h.pool

/-- The copy from the wire is checked. -/
theorem sized_parseFrame (cfg : Config) (wire : List UInt8) :
    AllSized ss (parseFrameAccesses cfg wire) := by
  rw [parseFrameAccesses]
  split
  · rw [parseSymbolAccesses]
    split
    · exact allSized_nil
    dsimp only
    split
    · exact allSized_nil
    split
    · exact allSized_nil
    split
    · exact allSized_nil
    rename_i hfits
    split
    · exact allSized_nil
    · exact allSized_cons (Nat.le_of_not_lt hfits) allSized_nil
  · exact allSized_nil

theorem sized_store {d : Deinterleaver} (h : d.symbolSize = ss) (i : Nat) (sym : Symbol) :
    AllSized ss (storeSymbolAccesses d i sym) := by
  rw [storeSymbolAccesses]
  split
  · exact allSized_nil
  · exact allSized_cons h allSized_nil

theorem sized_push {d : Deinterleaver} (h : d.symbolSize = ss) (hpos : 0 < d.maxActiveBlocks)
    (sym : Symbol) (now : Nat) : AllSized ss (deinterleaverPushAccesses d sym now) := by
  rw [deinterleaverPushAccesses]
  split
  · exact allSized_nil
  split
  · exact allSized_nil
  cases findSlotAny d sym.packetId with
  | none =>
      obtain ⟨i, d', halloc, -, hp, -⟩ := allocSlot_spec sym.packetId now hpos
      dsimp only
      rw [halloc]
      exact sized_store (hp.symbolSize.trans h) i sym
  | some i =>
      dsimp only
      split
      · exact allSized_nil
      · exact sized_store h i sym

theorem sized_fecDecode (wh : Wirehair) {ctx : FecCtx} (h : ctx.symbolSize = ss)
    (symbols : Nat → Symbol) (symbolCount scanCapacity : Nat) :
    AllSized ss (fecDecodeBlockAccesses wh ctx symbols symbolCount scanCapacity) := by
  have hloop : ∀ (l : List Nat) (decoder : wh.decoding.Decoder),
      AllSized ss (fecFeedLoopAccesses wh ctx symbols l decoder) := by
    intro l
    induction l with
    | nil => exact fun _ => allSized_nil
    | cons i l ih =>
        intro decoder
        rw [fecFeedLoopAccesses]
        refine allSized_cons h ?_
        split
        · exact ih _
        · exact allSized_nil
  rw [fecDecodeBlockAccesses]
  generalize (if scanCapacity < symbolCount then symbolCount else scanCapacity) = capacity
  split
  · exact allSized_nil
  · split
    · exact allSized_nil
    · exact hloop _ _

theorem sameParams_getReady (d : Deinterleaver) :
    SameParams d (deinterleaverGetReadyBlock d).2 := by
  rw [deinterleaverGetReadyBlock]
  cases findReady d with
  | none => exact SameParams.refl d
  | some i => exact sameParams_setSlot d i _

theorem sameParams_markResult (d : Deinterleaver) (blockId : UInt32) (success : Bool) :
    SameParams d (deinterleaverMarkResult d blockId success).2 := by
  rcases markResult_effect d blockId success with ⟨heq, -⟩ | ⟨i, -, -, heq⟩
  · rw [heq]
    exact SameParams.refl d
  · rw [heq]
    exact sameParams_finalize d i _

theorem sizes_drainBlock (wh : Wirehair) (blk : Block) (h : Sizes ss pl) :
    Sizes ss (drainBlock wh pl blk) := by
  rw [drainBlock]
  split
  · have h1 := h.params (sameParams_markResult pl.dil blk.blockId.toUInt32 false)
    exact ⟨h1.dil, h1.fec, h1.pool⟩
  · have h1 := h.params (sameParams_markResult pl.dil blk.blockId.toUInt32 true)
    exact ⟨h1.dil, h1.fec, h1.pool⟩

theorem sized_drainLoop (wh : Wirehair) (fuel : Nat) (h : Sizes ss pl) :
    AllSized ss (drainLoopAccesses wh fuel pl) ∧ Sizes ss (drainLoop wh fuel pl) := by
  induction fuel generalizing pl with
  | zero => exact ⟨allSized_nil, h⟩
  | succ fuel ih =>
      have h1 := h.params (sameParams_getReady pl.dil)
      rw [drainLoopAccesses, drainLoop]
      cases hget : (deinterleaverGetReadyBlock pl.dil).1 with
      | none => exact ⟨allSized_nil, h1⟩
      | some blk =>
          obtain ⟨hrest, h2⟩ := ih (sizes_drainBlock wh blk h1)
          exact ⟨allSized_append (sized_fecDecode wh h.fec _ _ _) hrest, h2⟩

theorem sized_rxOnce (wh : Wirehair) (call : RxCall) (h : Sizes ss pl) :
    AllSized ss (rxAccessesOnce wh pl call) ∧
      Sizes ss (rxPipelineRunOnce wh pl call) := by
  have h1 := h.params (tick_slots pl.dil (-1) call.tickNow).1
  rw [rxAccessesOnce, rxPipelineRunOnce]
  generalize ({ pl with dil := (deinterleaverTick pl.dil (-1) call.tickNow).2 } : RxPipeline)
    = pl1 at h1 ⊢
  cases call.event with
  | idle => exact sized_drainLoop wh _ h1
  | error => exact ⟨allSized_nil, h1⟩
  | frame wire =>
      have hparse := @sized_parseFrame ss pl1.cfg (wire.take rxWireBufSize)
      rw [handleEventAccesses, handleEvent]
      cases parseFrame pl1.cfg (wire.take rxWireBufSize) with
      | dropped => exact ⟨allSized_append hparse allSized_nil, h1⟩
      | crcFail => exact ⟨allSized_append hparse allSized_nil, h1.dil, h1.fec, h1.pool⟩
      | symbol sym =>
          have h2 := h1.params (sameParams_push sym call.pushNow h1.pool)
          obtain ⟨hdrain, h3⟩ := sized_drainLoop wh
            (deinterleaverReadyCount (deinterleaverPushSymbol pl1.dil sym call.pushNow).2) h2
          have hpush := sized_push h1.dil h1.pool sym call.pushNow
          exact ⟨allSized_append hparse (allSized_append hpush hdrain), h3⟩

/-- **A whole run**: all accesses but the copies from the wire are as long as a
    symbol. -/
theorem sized_rxRun (wh : Wirehair) (calls : List RxCall) (h : Sizes ss pl) :
    AllSized ss (rxAccessesRun wh calls pl) := by
  induction calls generalizing pl with
  | nil => exact allSized_nil
  | cons call calls ih =>
      obtain ⟨honce, h1⟩ := sized_rxOnce wh call h
      exact allSized_append honce (ih h1)

theorem sizes_create {mem : Buffer} {cfg : Config} (hc : rxPipelineCreate mem cfg = some pl) :
    Sizes cfg.symbolSize pl := by
  obtain ⟨hok, hcfg, -⟩ := rxOk_create hc
  refine ⟨?_, ?_, hok.pool.params.slots⟩
  · rw [hok.shape.symbolSize, hcfg]
  · rw [hok.shape.fec, hcfg]

end Sizes

end FsoRxPipeline
