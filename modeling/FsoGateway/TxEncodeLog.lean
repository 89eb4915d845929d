import FsoGateway.TxEncode

/-! # The calls of `fec_encode_block`

    `callsRun` lists the states in which a run enters `encode_and_drain`, in
    order.  It follows the control flow of the pipeline call by call.  What
    `fec_encode_block` is given and makes there is read off the state
    (`encodeCall`), and so are the symbols that are stamped and pushed
    (`stampedRun`).

    * `frameWay` — a received frame is ignored, refused or taken, and all that
      is followed along the pipeline goes the same way;
    * `callOf_encodeCall` — for a full builder the call is given the payloads
      of the source symbols, and what it is given and makes are the symbols of
      the codec for them. -/

namespace FsoTxPipeline

open ByteBuffer FsoTypes ErasureCode FecWrapper FsoBlockBuilder FsoInterleaver
  PacketFragmenter SymbolCrc

/-! ## The calls of a run -/

/-- The pipeline after `block_builder_finalize_with_padding`. -/
def finalized (pl : TxPipeline) : TxPipeline :=
  { pl with builder := blockBuilderFinalizeWithPadding pl.builder }

/-- The calls of `checkTimeoutAndTick`. -/
def callsTimeout (clk : Nat → Nat) (pl : TxPipeline) : List TxPipeline :=
  if blockBuilderCheckTimeout pl.builder txBlockTimeoutMs (clk pl.clock) = 1
      ∧ 0 < pl.builder.symbolCount then
    [finalized { pl with clock := pl.clock + 1 }]
  else []

/-- The calls of `addFragments`. -/
def callsAdd (wh : Wirehair) (clk : Nat → Nat) :
    List Symbol → TxPipeline → List TxPipeline
  | [], _ => []
  | sym :: rest, pl =>
      let r := blockBuilderAddSymbol pl.builder sym (clk pl.clock)
      let pl := { pl with builder := r.2, clock := pl.clock + 1 }
      if r.1 = -1 then
        callsAdd wh clk rest { pl with refusedAdds := pl.refusedAdds + 1 }
      else if r.1 = 1 then
        let e := encodeAndReset wh clk pl
        pl :: (if e.1 ≠ 0 then []
          else callsAdd wh clk rest (tickAndDrainInterleaver clk e.2))
      else callsAdd wh clk rest pl

/-- The pipeline after one fragment was added to the builder. -/
def added (clk : Nat → Nat) (pl : TxPipeline) (sym : Symbol) : TxPipeline :=
  { pl with
    builder := (blockBuilderAddSymbol pl.builder sym (clk pl.clock)).2
    clock := pl.clock + 1 }

/-- A fragment that fills the block: it is encoded, and the window ticks. -/
theorem addFragments_full {wh : Wirehair} {clk : Nat → Nat} {pl : TxPipeline} {sym : Symbol}
    (rest : List Symbol) (hrc : (blockBuilderAddSymbol pl.builder sym (clk pl.clock)).1 = 1)
    (he : (encodeAndReset wh clk (added clk pl sym)).1 = 0) :
    let pl2 := tickAndDrainInterleaver clk (encodeAndReset wh clk (added clk pl sym)).2
    addFragments wh clk (sym :: rest) pl = addFragments wh clk rest pl2 ∧
      callsAdd wh clk (sym :: rest) pl = added clk pl sym :: callsAdd wh clk rest pl2 := by
  rw [addFragments, callsAdd, hrc]
  exact ⟨if_neg (not_not_intro he),
    congrArg (added clk pl sym :: ·) (if_neg (not_not_intro he))⟩

/-- Any other fragment. -/
theorem addFragments_more {clk : Nat → Nat} {pl : TxPipeline} {sym : Symbol}
    (wh : Wirehair) (rest : List Symbol)
    (hrc : (blockBuilderAddSymbol pl.builder sym (clk pl.clock)).1 = 0) :
    addFragments wh clk (sym :: rest) pl = addFragments wh clk rest (added clk pl sym) ∧
      callsAdd wh clk (sym :: rest) pl = callsAdd wh clk rest (added clk pl sym) := by
  rw [addFragments, callsAdd, hrc]
  exact ⟨rfl, rfl⟩

/-- The calls of `addPacket`. -/
def callsPacket (wh : Wirehair) (clk : Nat → Nat) (numFrags : Nat) (pl : TxPipeline) :
    List TxPipeline :=
  let flushFirst := 0 < numFrags ∧ 0 < pl.builder.symbolCount ∧
    pl.builder.kLimit < pl.builder.symbolCount + numFrags
  let f := if flushFirst then flushBuilder wh clk pl else (0, pl)
  (if flushFirst then [finalized pl] else []) ++
    if f.1 ≠ 0 then []
    else
      let pl := if flushFirst then tickAndDrainInterleaver clk f.2 else f.2
      let syms := (List.range numFrags).map pl.fragSyms
      let a := addFragments wh clk syms pl
      callsAdd wh clk syms pl ++ if a.1 ≠ 0 then [] else callsTimeout clk a.2

/-- The calls of `tx_pipeline_run_once`. -/
def callsOnce (wh : Wirehair) (clk : Nat → Nat) (pl : TxPipeline) :
    TxEvent → List TxPipeline
  | .idle => callsTimeout clk pl
  | .error => []
  | .frame pkt answered =>
      let pkt := pkt.take txRxBufSize
      if isOwnFrame pl pkt then []
      else if answered then []
      else
        let r := fragmentPacket pkt pl.packetIdCounter
          (UInt16.ofNat pl.cfg.symbolSize) pl.fragSyms
          (UInt16.ofNat pl.maxFragsPerPacket)
        let pl := { pl with fragSyms := r.2 }
        if r.1 < 0 then []
        else
          callsPacket wh clk r.1.toNat
            { pl with
              packetIdCounter := pl.packetIdCounter + 1
              accepted := pl.accepted ++ [pkt] }

/-- The calls of a run. -/
def callsRun (wh : Wirehair) (clk : Nat → Nat) :
    List TxEvent → TxPipeline → List TxPipeline
  | [], _ => []
  | ev :: evs, pl =>
      let r := txPipelineRunOnce wh clk pl ev
      callsOnce wh clk pl ev ++ if r.1 = -1 then [] else callsRun wh clk evs r.2

/-! ## The ways of a received frame -/

/-- What `tx_pipeline_run_once` does with a frame, whatever is followed: it
    ignores it, or cuts it into fragments `r`, which fails or not. -/
def onFrame {α : Type} (pl : TxPipeline) (pkt : List UInt8) (answered : Bool)
    (ignored : α) (refused taken : List UInt8 → Int × (Nat → Symbol) → α) : α :=
  let pkt := pkt.take txRxBufSize
  if isOwnFrame pl pkt then ignored
  else if answered then ignored
  else
    let r := fragmentPacket pkt pl.packetIdCounter
      (UInt16.ofNat pl.cfg.symbolSize) pl.fragSyms
      (UInt16.ofNat pl.maxFragsPerPacket)
    if r.1 < 0 then refused pkt r else taken pkt r

/-- The pipeline after `fragment_packet` took a frame. -/
def accepting (pl : TxPipeline) (pkt : List UInt8) (out : Nat → Symbol) : TxPipeline :=
  { pl with
    fragSyms := out
    packetIdCounter := pl.packetIdCounter + 1
    accepted := pl.accepted ++ [pkt] }

theorem runOnce_frame (wh : Wirehair) (clk : Nat → Nat) (pl : TxPipeline)
    (pkt : List UInt8) (answered : Bool) :
    txPipelineRunOnce wh clk pl (.frame pkt answered)
      = onFrame pl pkt answered (0, pl) (fun _ r => (0, { pl with fragSyms := r.2 }))
          fun pkt r => addPacket wh clk r.1.toNat (accepting pl pkt r.2) :=
  rfl

theorem callsOnce_frame (wh : Wirehair) (clk : Nat → Nat) (pl : TxPipeline)
    (pkt : List UInt8) (answered : Bool) :
    callsOnce wh clk pl (.frame pkt answered)
      = onFrame pl pkt answered [] (fun _ _ => [])
          fun pkt r => callsPacket wh clk r.1.toNat (accepting pl pkt r.2) :=
  rfl

/-- The same way for everything that follows the frame. -/
inductive FrameWay (pl : TxPipeline) (pkt : List UInt8) (answered : Bool) : Prop
  | ignored
      (way : ∀ {α : Type} (a : α) (refused taken : List UInt8 → Int × (Nat → Symbol) → α),
        onFrame pl pkt answered a refused taken = a)
  | refused (r : Int × (Nat → Symbol))
      (cut : fragmentPacket (pkt.take txRxBufSize) pl.packetIdCounter
        (UInt16.ofNat pl.cfg.symbolSize) pl.fragSyms (UInt16.ofNat pl.maxFragsPerPacket) = r)
      (neg : r.1 < 0)
      (way : ∀ {α : Type} (a : α) (refused taken : List UInt8 → Int × (Nat → Symbol) → α),
        onFrame pl pkt answered a refused taken = refused (pkt.take txRxBufSize) r)
  | taken (r : Int × (Nat → Symbol))
      (cut : fragmentPacket (pkt.take txRxBufSize) pl.packetIdCounter
        (UInt16.ofNat pl.cfg.symbolSize) pl.fragSyms (UInt16.ofNat pl.maxFragsPerPacket) = r)
      (nonneg : ¬ r.1 < 0)
      (way : ∀ {α : Type} (a : α) (refused taken : List UInt8 → Int × (Nat → Symbol) → α),
        onFrame pl pkt answered a refused taken = taken (pkt.take txRxBufSize) r)

/-- **A frame goes one way.** -/
theorem frameWay (pl : TxPipeline) (pkt : List UInt8) (answered : Bool) :
    FrameWay pl pkt answered := by
  by_cases hown : isOwnFrame pl (pkt.take txRxBufSize) = true
  · exact .ignored fun a refused taken => by rw [onFrame, if_pos hown]
  by_cases hans : answered = true
  · exact .ignored fun a refused taken => by rw [onFrame, if_neg hown, if_pos hans]
  by_cases hneg : (fragmentPacket (pkt.take txRxBufSize) pl.packetIdCounter
      (UInt16.ofNat pl.cfg.symbolSize) pl.fragSyms
      (UInt16.ofNat pl.maxFragsPerPacket)).1 < 0
  · refine .refused _ rfl hneg fun a refused taken => ?_
    rw [onFrame, if_neg hown, if_neg hans]
    exact if_pos hneg
  · refine .taken _ rfl hneg fun a refused taken => ?_
    rw [onFrame, if_neg hown, if_neg hans]
    exact if_neg hneg

/-! ## What a call stamps and pushes -/

/-- The blocks stamped in a run. -/
def stampedRun (wh : Wirehair) (clk : Nat → Nat) (evs : List TxEvent)
    (pl : TxPipeline) : List (List Symbol) :=
  (callsRun wh clk evs pl).filterMap (stampedBlock wh)

/-! ## What a call is given and makes -/

/-- One call of `fec_encode_block`, with the block it is made for. -/
structure EncodeCall where
  blockId : UInt32
  source : List UInt8
  repairs : Nat → Symbol

/-- The call made in the state `pl`. -/
def encodeCall (wh : Wirehair) (pl : TxPipeline) : EncodeCall where
  blockId := pl.builder.blockId.toUInt32
  source := sourceBuf pl
  repairs := (fecEncodeBlock wh pl.fec (sourceBuf pl) pl.repairSyms pl.cfg.m).2

/-- The calls of `fec_encode_block` in a run. -/
def encodesRun (wh : Wirehair) (clk : Nat → Nat) (evs : List TxEvent)
    (pl : TxPipeline) : List EncodeCall :=
  (callsRun wh clk evs pl).map (encodeCall wh)

/-- The `symbol_size` bytes of symbol `i`: input below `k`, output from `k` on. -/
def EncodeCall.bytes (cfg : Config) (c : EncodeCall) (i : Nat) : List UInt8 :=
  if i < cfg.k then chunk c.source cfg.symbolSize i
  else ByteBuffer.bytes (c.repairs (i - cfg.k)).data cfg.symbolSize

/-- The call is made for the block `id` of the source symbols `src`. -/
structure CallOf (wh : Wirehair) (cfg : Config) (id : UInt32) (src : Nat → Symbol)
    (c : EncodeCall) : Prop where
  blockId : c.blockId = id
  bytes : ∀ i, i < cfg.k + cfg.m →
    c.bytes cfg i = symbolOf wh.encoding cfg.k cfg.symbolSize (message cfg src) i

/-- **The call for a full builder.** -/
theorem callOf_encodeCall {wh : Wirehair} {pl : TxPipeline} {src : Nat → Symbol}
    (hcfg : CodeOk pl.cfg)
    (hwh : Encodes wh.encoding pl.cfg.k (pl.cfg.k + pl.cfg.m) pl.cfg.symbolSize)
    (hfec : pl.fec = ⟨pl.cfg.k, pl.cfg.symbolSize⟩)
    (hsrc : ∀ i, i < pl.cfg.k → clipSymbol pl.cfg.symbolSize (pl.builder.symbols i)
      = clipSymbol pl.cfg.symbolSize (src i)) :
    CallOf wh pl.cfg pl.builder.blockId.toUInt32 src (encodeCall wh pl) := by
  have hmsg := sourceBuf_eq_message hsrc
  refine ⟨rfl, ?_⟩
  intro i hi
  rw [EncodeCall.bytes]
  by_cases hik : i < pl.cfg.k
  · rw [if_pos hik, symbolOf, if_pos hik]
    show chunk (sourceBuf pl) _ _ = _
    rw [hmsg]
  · rw [if_neg hik]
    have hwh' : Encodes wh.encoding pl.fec.k (pl.cfg.k + pl.cfg.m) pl.fec.symbolSize := by
      rw [hfec]
      exact hwh
    have hml : (message pl.cfg src).length = pl.fec.k * pl.fec.symbolSize := by
      rw [hfec]
      exact message_length pl.cfg src
    obtain ⟨reps, henc, hrep, -⟩ := fecEncodeBlock_spec hwh' hml pl.repairSyms
      hcfg.repair (by rw [hfec])
    rw [hfec] at hrep
    have hdata := (hrep (i - pl.cfg.k) (by omega)).data
    show ByteBuffer.bytes ((fecEncodeBlock wh pl.fec (sourceBuf pl) pl.repairSyms
      pl.cfg.m).2 (i - pl.cfg.k)).data pl.cfg.symbolSize = _
    rw [hmsg, henc]
    rw [show pl.cfg.k + (i - pl.cfg.k) = i by omega] at hdata
    exact hdata

end FsoTxPipeline
