import FsoGateway.SymbolAccess
import FsoGateway.TxRuns

/-! # Symbol data in the TX pipeline

    What each function of the TX pipeline copies, clears or reads of the `data`
    array of a symbol, in the order of the source.  The functions ending in
    `Accesses` go through the same branches as those they are named after.

    * `txAccessesRun` — the accesses of a run;
    * `sized_txRun` — all but those of `fragment_packet` are `symbol_size` bytes
      long, whatever the codec and the frames. -/

namespace FsoTxPipeline

open ByteBuffer FsoTypes FecWrapper FsoBlockBuilder FsoInterleaver PacketFragmenter
  SymbolAccess

/-! ## The accesses -/

/-- `fragment_packet`, of which `r` is the result: one copy for each symbol. -/
def fragmentAccesses (r : Int × (Nat → Symbol)) : List DataAccess :=
  (List.range r.1.toNat).map fun i => ⟨.fragmentPacket, (r.2 i).payloadLen.toNat⟩

/-- `block_builder_add_symbol`. -/
def addSymbolAccesses (bb : BlockBuilder) : List DataAccess :=
  if bb.kLimit = 0 then []
  else if bb.kLimit ≤ bb.symbolCount then []
  else [⟨.addSymbol, bb.symbolSize⟩]

/-- `block_builder_finalize_with_padding`. -/
def paddingAccesses (bb : BlockBuilder) : List DataAccess :=
  if bb.kLimit = 0 then []
  else if bb.kLimit < bb.symbolCount then []
  else List.replicate (bb.kLimit - bb.symbolCount) ⟨.finalizeWithPadding, bb.symbolSize⟩

/-- The loop of `fec_encode_block`. -/
def fecEncodeLoopAccesses (wh : Wirehair) (ctx : FecCtx) (encoder : wh.encoding.Encoder) :
    List Nat → List DataAccess
  | [] => []
  | i :: rest =>
      let r := wh.encoding.encode encoder (ctx.k + i)
      if r.1 ≠ .success ∨ r.2.length ≠ ctx.symbolSize then []
      else ⟨.repairSyms, ctx.symbolSize⟩ :: fecEncodeLoopAccesses wh ctx encoder rest

/-- `fec_encode_block`. -/
def fecEncodeBlockAccesses (wh : Wirehair) (ctx : FecCtx) (sourceData : List UInt8)
    (m : Nat) : List DataAccess :=
  if m < 1 then []
  else
    match wh.encoding.create sourceData ctx.symbolSize with
    | none => []
    | some encoder => fecEncodeLoopAccesses wh ctx encoder (List.range m)

/-- `interleaver_push_symbol`. -/
def pushAccesses (il : Interleaver) (sym : Symbol) : List DataAccess :=
  if il.ready then []
  else if toInt sym.fecId < 0 ∨ (il.n : Int) ≤ toInt sym.fecId then []
  else
    match resolveRow il sym.packetId with
    | none => []
    | some (row, il) =>
        if il.depth ≤ row then []
        else if Bitset.test (il.slots row).receivedMask sym.fecId.toNat then []
        else [⟨.pushSymbol, il.symbolSize⟩]

/-- The padding loop of `interleaver_tick`; the cells that are free. -/
def fillAccesses (il : Interleaver) : List DataAccess :=
  (List.range il.depth).flatMap fun row =>
    if (il.slots row).symbolCount < il.n then
      List.replicate
        ((List.range il.n).countP fun col => !Bitset.test (il.slots row).receivedMask col)
        ⟨.forceFillRow, il.symbolSize⟩
    else []

/-- `interleaver_tick`. -/
def interleaverTickAccesses (il : Interleaver) (now : Nat) : List DataAccess :=
  if il.flushTimeoutMs = 0 then []
  else if il.ready ∨ ¬ il.windowHasData ∨ il.completeSlots < 1 then []
  else if elapsedMs il.windowStart now < il.flushTimeoutMs then []
  else fillAccesses il

/-- The pops of `drain_interleaver`. -/
def drainLoopAccesses : Nat → Interleaver → List DataAccess
  | 0, _ => []
  | fuel + 1, il =>
      match interleaverPopReadySymbol il with
      | none => []
      | some (_, last, il') =>
          ⟨.popReadySymbol, il.symbolSize⟩ ::
            if last then [] else drainLoopAccesses fuel il'

/-- `drain_interleaver`. -/
def drainInterleaverAccesses (il : Interleaver) : List DataAccess :=
  if interleaverIsReady il then drainLoopAccesses (interleaverSymbolsPending il) il else []

/-- `tick_and_drain_interleaver`. -/
def tickAndDrainAccesses (clk : Nat → Nat) (pl : TxPipeline) : List DataAccess :=
  let r := interleaverTick pl.interleaver (clk pl.clock)
  interleaverTickAccesses pl.interleaver (clk pl.clock) ++
    if r.1 = 1 then drainInterleaverAccesses r.2 else []

/-- The push loops of `encode_and_drain`. -/
def pushSymbolsAccesses (clk : Nat → Nat) : List Symbol → TxPipeline → List DataAccess
  | [], _ => []
  | sym :: rest, pl =>
      let r := interleaverPushSymbol pl.interleaver sym (clk pl.clock)
      let pl' : TxPipeline := { pl with interleaver := r.2, clock := pl.clock + 1 }
      pushAccesses pl.interleaver sym ++
        if r.1 = -1 then [] else pushSymbolsAccesses clk rest pl'

/-- `encode_and_drain`. -/
def encodeAndDrainAccesses (wh : Wirehair) (clk : Nat → Nat) (pl : TxPipeline) :
    List DataAccess :=
  let r := fecEncodeBlock wh pl.fec (sourceBuf pl) pl.repairSyms pl.cfg.m
  List.replicate pl.cfg.k ⟨.sourceBuf, pl.cfg.symbolSize⟩ ++
    fecEncodeBlockAccesses wh pl.fec (sourceBuf pl) pl.cfg.m ++
    if r.1 ≠ fecDecodeOk then []
    else
      let blockId := pl.builder.blockId.toUInt32
      let pl : TxPipeline :=
        { pl with
          builder :=
            { pl.builder with
              symbols := stampAll pl.cfg.k (stampSource pl.cfg blockId)
                pl.builder.symbols }
          repairSyms := stampAll pl.cfg.m (stampRepair pl.cfg blockId) r.2
          blocksBuilt := pl.blocksBuilt + 1 }
      drainInterleaverAccesses pl.interleaver ++
        let pl := drainInterleaver pl
        let sources := (List.range pl.cfg.k).map pl.builder.symbols
        let p := pushSymbols clk sources pl
        pushSymbolsAccesses clk sources pl ++
          if p.1 = -1 then []
          else
            let repairs := (List.range pl.cfg.m).map pl.repairSyms
            let q := pushSymbols clk repairs p.2
            pushSymbolsAccesses clk repairs p.2 ++
              if q.1 = -1 then [] else drainInterleaverAccesses q.2.interleaver

/-- The padding of a partial block, and its encoding. -/
def flushBuilderAccesses (wh : Wirehair) (clk : Nat → Nat) (pl : TxPipeline) :
    List DataAccess :=
  paddingAccesses pl.builder ++
    encodeAndDrainAccesses wh clk
      { pl with builder := blockBuilderFinalizeWithPadding pl.builder }

/-- The end of both paths of `tx_pipeline_run_once`. -/
def checkTimeoutAccesses (wh : Wirehair) (clk : Nat → Nat) (pl : TxPipeline) :
    List DataAccess :=
  let timeoutRc := blockBuilderCheckTimeout pl.builder txBlockTimeoutMs (clk pl.clock)
  let pl : TxPipeline := { pl with clock := pl.clock + 1 }
  if timeoutRc = -1 then []
  else if timeoutRc = 1 ∧ 0 < pl.builder.symbolCount then
    let r := flushBuilder wh clk pl
    flushBuilderAccesses wh clk pl ++ if r.1 ≠ 0 then [] else tickAndDrainAccesses clk r.2
  else tickAndDrainAccesses clk pl

/-- The loop that adds the fragments of a packet. -/
def addFragmentsAccesses (wh : Wirehair) (clk : Nat → Nat) :
    List Symbol → TxPipeline → List DataAccess
  | [], _ => []
  | sym :: rest, pl =>
      let r := blockBuilderAddSymbol pl.builder sym (clk pl.clock)
      let pl' : TxPipeline := { pl with builder := r.2, clock := pl.clock + 1 }
      addSymbolAccesses pl.builder ++
        if r.1 = -1 then
          addFragmentsAccesses wh clk rest { pl' with refusedAdds := pl'.refusedAdds + 1 }
        else if r.1 = 1 then
          let e := encodeAndReset wh clk pl'
          encodeAndDrainAccesses wh clk pl' ++
            if e.1 ≠ 0 then []
            else
              tickAndDrainAccesses clk e.2 ++
                addFragmentsAccesses wh clk rest (tickAndDrainInterleaver clk e.2)
        else addFragmentsAccesses wh clk rest pl'

/-- The path of an accepted frame after fragmentation. -/
def addPacketAccesses (wh : Wirehair) (clk : Nat → Nat) (numFrags : Nat)
    (pl : TxPipeline) : List DataAccess :=
  let flushFirst := 0 < numFrags ∧ 0 < pl.builder.symbolCount ∧
    pl.builder.kLimit < pl.builder.symbolCount + numFrags
  let f := if flushFirst then flushBuilder wh clk pl else (0, pl)
  (if flushFirst then flushBuilderAccesses wh clk pl else []) ++
    if f.1 ≠ 0 then []
    else
      let pl := if flushFirst then tickAndDrainInterleaver clk f.2 else f.2
      let syms := (List.range numFrags).map pl.fragSyms
      let a := addFragments wh clk syms pl
      (if flushFirst then tickAndDrainAccesses clk f.2 else []) ++
        addFragmentsAccesses wh clk syms pl ++
        if a.1 ≠ 0 then [] else checkTimeoutAccesses wh clk a.2

/-- `tx_pipeline_run_once`. -/
def txAccessesOnce (wh : Wirehair) (clk : Nat → Nat) (pl : TxPipeline) :
    TxEvent → List DataAccess
  | .idle => checkTimeoutAccesses wh clk pl
  | .error => []
  | .frame pkt answered =>
      let pkt := pkt.take txRxBufSize
      if isOwnFrame pl pkt then []
      else if answered then []
      else
        let r := fragmentPacket pkt pl.packetIdCounter
          (UInt16.ofNat pl.cfg.symbolSize) pl.fragSyms
          (UInt16.ofNat pl.maxFragsPerPacket)
        let pl := { pl with fragSyms := r.2 }
        fragmentAccesses r ++
          if r.1 < 0 then []
          else
            addPacketAccesses wh clk r.1.toNat
              { pl with
                packetIdCounter := pl.packetIdCounter + 1
                accepted := pl.accepted ++ [pkt] }

theorem txAccessesOnce_frame (wh : Wirehair) (clk : Nat → Nat) (pl : TxPipeline)
    (pkt : List UInt8) (answered : Bool) :
    txAccessesOnce wh clk pl (.frame pkt answered)
      = onFrame pl pkt answered [] (fun _ r => fragmentAccesses r) fun pkt r =>
          fragmentAccesses r ++ addPacketAccesses wh clk r.1.toNat (accepting pl pkt r.2) := by
  rw [txAccessesOnce, onFrame]
  dsimp only
  split
  · rfl
  split
  · rfl
  split
  · exact List.append_nil _
  · rfl

/-- The accesses of a run. -/
def txAccessesRun (wh : Wirehair) (clk : Nat → Nat) :
    List TxEvent → TxPipeline → List DataAccess
  | [], _ => []
  | ev :: evs, pl =>
      let r := txPipelineRunOnce wh clk pl ev
      txAccessesOnce wh clk pl ev ++ if r.1 = -1 then [] else txAccessesRun wh clk evs r.2

/-! ## The sizes are kept -/

/-- Every part of the pipeline works with symbols of `ss` bytes. -/
structure Sizes (ss : Nat) (pl : TxPipeline) : Prop where
  cfg : pl.cfg.symbolSize = ss
  builder : pl.builder.symbolSize = ss
  fec : pl.fec.symbolSize = ss
  interleaver : pl.interleaver.symbolSize = ss

section Parts

variable {ss : Nat}

theorem sized_addSymbol {bb : BlockBuilder} (h : bb.symbolSize = ss) :
    AllSized ss (addSymbolAccesses bb) := by
  rw [addSymbolAccesses]
  split
  · exact allSized_nil
  · split
    · exact allSized_nil
    · exact allSized_cons h allSized_nil

theorem addSymbol_symbolSize (bb : BlockBuilder) (sym : Symbol) (now : Nat) :
    (blockBuilderAddSymbol bb sym now).2.symbolSize = bb.symbolSize := by
  rw [blockBuilderAddSymbol]
  split
  · rfl
  · split
    · rfl
    · rfl

theorem sized_padding {bb : BlockBuilder} (h : bb.symbolSize = ss) :
    AllSized ss (paddingAccesses bb) := by
  rw [paddingAccesses]
  split
  · exact allSized_nil
  · split
    · exact allSized_nil
    · exact allSized_replicate (show Sized ss ⟨.finalizeWithPadding, _⟩ from h) _

theorem padding_symbolSize (bb : BlockBuilder) :
    (blockBuilderFinalizeWithPadding bb).symbolSize = bb.symbolSize := by
  rw [blockBuilderFinalizeWithPadding]
  split
  · rfl
  · split
    · rfl
    · rfl

theorem sized_fecEncode (wh : Wirehair) {ctx : FecCtx} (h : ctx.symbolSize = ss)
    (sourceData : List UInt8) (m : Nat) :
    AllSized ss (fecEncodeBlockAccesses wh ctx sourceData m) := by
  have hloop : ∀ (encoder : wh.encoding.Encoder) (l : List Nat),
      AllSized ss (fecEncodeLoopAccesses wh ctx encoder l) := by
    intro encoder l
    induction l with
    | nil => exact allSized_nil
    | cons i l ih =>
        rw [fecEncodeLoopAccesses]
        split
        · exact allSized_nil
        · exact allSized_cons h ih
  rw [fecEncodeBlockAccesses]
  split
  · exact allSized_nil
  · split
    · exact allSized_nil
    · exact hloop _ _

/-! ### The interleaver -/

theorem resolveRow_symbolSize {il il' : Interleaver} {key : UInt32} {row : Nat}
    (h : resolveRow il key = some (row, il')) : il'.symbolSize = il.symbolSize := by
  rcases resolveRow_cases h with rfl | rfl
  · rfl
  · rfl

theorem sized_push {il : Interleaver} (h : il.symbolSize = ss) (sym : Symbol) (now : Nat) :
    AllSized ss (pushAccesses il sym) ∧
      (interleaverPushSymbol il sym now).2.symbolSize = ss := by
  rw [pushAccesses, interleaverPushSymbol]
  split
  · exact ⟨allSized_nil, h⟩
  split
  · exact ⟨allSized_nil, h⟩
  cases hres : resolveRow il sym.packetId with
  | none => exact ⟨allSized_nil, h⟩
  | some p =>
      obtain ⟨row, il1⟩ := p
      have h1 : il1.symbolSize = ss := (resolveRow_symbolSize hres).trans h
      dsimp only
      split
      · exact ⟨allSized_nil, h1⟩
      -- the timer is none of our concern
      have htimer : ∀ b : Bool, (if b then il1 else { il1 with
          windowStart := now, windowHasData := true }).symbolSize = ss := by
        intro b
        cases b
        · exact h1
        · exact h1
      constructor
      · split
        · exact allSized_nil
        · exact allSized_cons h1 allSized_nil
      · have h2 := htimer il1.windowHasData
        generalize (if il1.windowHasData then il1
          else { il1 with windowStart := now, windowHasData := true }) = il2 at h2 ⊢
        split
        · exact h2
        · split
          · split
            · exact h2
            · exact h2
          · exact h2

theorem sized_fill {il : Interleaver} (h : il.symbolSize = ss) :
    AllSized ss (fillAccesses il) := by
  intro a ha
  obtain ⟨row, -, ha⟩ := List.mem_flatMap.mp ha
  split at ha
  · rw [List.eq_of_mem_replicate ha]
    exact h
  · exact nomatch ha

theorem sized_interleaverTick {il : Interleaver} (h : il.symbolSize = ss) (now : Nat) :
    AllSized ss (interleaverTickAccesses il now) ∧
      (interleaverTick il now).2.symbolSize = ss := by
  rw [interleaverTickAccesses, interleaverTick]
  split
  · exact ⟨allSized_nil, h⟩
  split
  · exact ⟨allSized_nil, h⟩
  split
  · exact ⟨allSized_nil, h⟩
  · obtain ⟨hs, -⟩ := fill_rows il il.depth
    exact ⟨sized_fill h, hs.symbolSize.trans h⟩

theorem pop_symbolSize {il il' : Interleaver} {sym : Symbol} {last : Bool}
    (h : interleaverPopReadySymbol il = some (sym, last, il')) :
    il'.symbolSize = il.symbolSize := by
  obtain ⟨row, col, rfl⟩ := pop_cases h
  cases last with
  | true => rfl
  | false => rfl

end Parts

/-! ## One function after the other -/

section Sizes

variable (wh : Wirehair) (clk : Nat → Nat) {ss : Nat} {pl : TxPipeline}

theorem sized_drainLoop (fuel : Nat) (h : Sizes ss pl) :
    AllSized ss (drainLoopAccesses fuel pl.interleaver) ∧ Sizes ss (drainLoop fuel pl) := by
  induction fuel generalizing pl with
  | zero => exact ⟨allSized_nil, h⟩
  | succ fuel ih =>
      rw [drainLoopAccesses, drainLoop]
      cases hp : interleaverPopReadySymbol pl.interleaver with
      | none => exact ⟨allSized_nil, h⟩
      | some r =>
          obtain ⟨sym, last, il⟩ := r
          have hil : il.symbolSize = ss := (pop_symbolSize hp).trans h.interleaver
          have h1 : Sizes ss (txSerializeAndSend { pl with interleaver := il } sym) :=
            ⟨h.cfg, h.builder, h.fec, hil⟩
          cases last with
          | true => exact ⟨allSized_cons h.interleaver allSized_nil, h1⟩
          | false =>
              obtain ⟨hrest, h2⟩ := ih h1
              exact ⟨allSized_cons h.interleaver hrest, h2⟩

theorem sized_drain (h : Sizes ss pl) :
    AllSized ss (drainInterleaverAccesses pl.interleaver) ∧
      Sizes ss (drainInterleaver pl) := by
  rw [drainInterleaverAccesses, drainInterleaver]
  split
  · exact sized_drainLoop _ h
  · exact ⟨allSized_nil, h⟩

theorem sized_tickAndDrain (h : Sizes ss pl) :
    AllSized ss (tickAndDrainAccesses clk pl) ∧
      Sizes ss (tickAndDrainInterleaver clk pl) := by
  obtain ⟨htick, hil⟩ := sized_interleaverTick h.interleaver (clk pl.clock)
  have h1 : Sizes ss
      { pl with
        interleaver := (interleaverTick pl.interleaver (clk pl.clock)).2
        clock := pl.clock + 1 } := ⟨h.cfg, h.builder, h.fec, hil⟩
  obtain ⟨hdrain, h2⟩ := sized_drain h1
  rw [tickAndDrainAccesses, tickAndDrainInterleaver]
  by_cases hdue : (interleaverTick pl.interleaver (clk pl.clock)).1 = 1
  · rw [if_pos hdue, if_pos hdue]
    exact ⟨allSized_append htick hdrain, h2⟩
  · rw [if_neg hdue, if_neg hdue]
    exact ⟨allSized_append htick allSized_nil, h1⟩

theorem sized_pushSymbols (l : List Symbol) (h : Sizes ss pl) :
    AllSized ss (pushSymbolsAccesses clk l pl) ∧ Sizes ss (pushSymbols clk l pl).2 := by
  induction l generalizing pl with
  | nil => exact ⟨allSized_nil, h⟩
  | cons sym l ih =>
      obtain ⟨hpush, hil⟩ := sized_push h.interleaver sym (clk pl.clock)
      have h1 : Sizes ss
          { pl with
            interleaver := (interleaverPushSymbol pl.interleaver sym (clk pl.clock)).2
            clock := pl.clock + 1 } := ⟨h.cfg, h.builder, h.fec, hil⟩
      obtain ⟨hrest, h2⟩ := ih h1
      rw [pushSymbolsAccesses, pushSymbols]
      by_cases hbad : (interleaverPushSymbol pl.interleaver sym (clk pl.clock)).1 = -1
      · rw [if_pos hbad, if_pos hbad]
        exact ⟨allSized_append hpush allSized_nil, h1⟩
      · rw [if_neg hbad, if_neg hbad]
        exact ⟨allSized_append hpush hrest, h2⟩

/-- What follows the call of `fec_encode_block`. -/
theorem sized_pushBlock (h : Sizes ss pl) (sources repairs : List Symbol) :
    let p := pushSymbols clk sources pl
    let q := pushSymbols clk repairs p.2
    AllSized ss (pushSymbolsAccesses clk sources pl ++
        if p.1 = -1 then []
        else
          pushSymbolsAccesses clk repairs p.2 ++
            if q.1 = -1 then [] else drainInterleaverAccesses q.2.interleaver) ∧
      Sizes ss (if p.1 = -1 then (-1, p.2)
        else if q.1 = -1 then (-1, q.2) else (0, drainInterleaver q.2) : Int × _).2 := by
  intro p q
  obtain ⟨h1, hp⟩ := sized_pushSymbols clk sources h
  obtain ⟨h2, hq⟩ := sized_pushSymbols clk repairs hp
  obtain ⟨h3, hd⟩ := sized_drain hq
  by_cases hbad : p.1 = -1
  · rw [if_pos hbad, if_pos hbad]
    exact ⟨allSized_append h1 allSized_nil, hp⟩
  · rw [if_neg hbad, if_neg hbad]
    by_cases hbad' : q.1 = -1
    · rw [if_pos hbad', if_pos hbad']
      exact ⟨allSized_append h1 (allSized_append h2 allSized_nil), hq⟩
    · rw [if_neg hbad', if_neg hbad']
      exact ⟨allSized_append h1 (allSized_append h2 h3), hd⟩

theorem sized_encodeAndDrain (h : Sizes ss pl) :
    AllSized ss (encodeAndDrainAccesses wh clk pl) ∧
      Sizes ss (encodeAndDrain wh clk pl).2 := by
  have hsource : AllSized ss
      (List.replicate pl.cfg.k ⟨.sourceBuf, pl.cfg.symbolSize⟩) :=
    allSized_replicate (show Sized ss ⟨.sourceBuf, _⟩ from h.cfg) _
  have henc := allSized_append hsource (sized_fecEncode wh h.fec (sourceBuf pl) pl.cfg.m)
  rw [encodeAndDrainAccesses, encodeAndDrain]
  generalize fecEncodeBlock wh pl.fec (sourceBuf pl) pl.repairSyms pl.cfg.m = r
  dsimp only
  by_cases hbad : r.1 ≠ fecDecodeOk
  · rw [if_pos hbad, if_pos hbad]
    exact ⟨allSized_append henc allSized_nil, h.cfg, h.builder, h.fec, h.interleaver⟩
  · rw [if_neg hbad, if_neg hbad]
    let pl1 : TxPipeline :=
      { pl with
        builder :=
          { pl.builder with
            symbols := stampAll pl.cfg.k (stampSource pl.cfg pl.builder.blockId.toUInt32)
              pl.builder.symbols }
        repairSyms := stampAll pl.cfg.m (stampRepair pl.cfg pl.builder.blockId.toUInt32) r.2
        blocksBuilt := pl.blocksBuilt + 1 }
    have h1 : Sizes ss pl1 := ⟨h.cfg, h.builder, h.fec, h.interleaver⟩
    obtain ⟨hdrain, h2⟩ := sized_drain h1
    obtain ⟨hpush, h3⟩ := sized_pushBlock clk h2
      ((List.range (drainInterleaver pl1).cfg.k).map (drainInterleaver pl1).builder.symbols)
      ((List.range (drainInterleaver pl1).cfg.m).map (drainInterleaver pl1).repairSyms)
    exact ⟨allSized_append henc (allSized_append hdrain hpush), h3⟩

theorem sized_encodeAndReset (h : Sizes ss pl) :
    AllSized ss (encodeAndDrainAccesses wh clk pl) ∧
      Sizes ss (encodeAndReset wh clk pl).2 := by
  obtain ⟨henc, h1⟩ := sized_encodeAndDrain wh clk h
  refine ⟨henc, ?_⟩
  rw [encodeAndReset]
  dsimp only
  split
  · exact h1
  · exact ⟨h1.cfg, h1.builder, h1.fec, h1.interleaver⟩

theorem sized_flushBuilder (h : Sizes ss pl) :
    AllSized ss (flushBuilderAccesses wh clk pl) ∧
      Sizes ss (flushBuilder wh clk pl).2 := by
  have h1 : Sizes ss { pl with builder := blockBuilderFinalizeWithPadding pl.builder } :=
    ⟨h.cfg, (padding_symbolSize pl.builder).trans h.builder, h.fec, h.interleaver⟩
  obtain ⟨henc, h2⟩ := sized_encodeAndReset wh clk h1
  exact ⟨allSized_append (sized_padding h.builder) henc, h2⟩

theorem sized_checkTimeout (h : Sizes ss pl) :
    AllSized ss (checkTimeoutAccesses wh clk pl) ∧
      Sizes ss (checkTimeoutAndTick wh clk pl).2 := by
  let pl1 : TxPipeline := { pl with clock := pl.clock + 1 }
  have h1 : Sizes ss pl1 := ⟨h.cfg, h.builder, h.fec, h.interleaver⟩
  obtain ⟨hflush, h2⟩ := sized_flushBuilder wh clk h1
  obtain ⟨htick, h3⟩ := sized_tickAndDrain clk h2
  rw [checkTimeoutAccesses, checkTimeoutAndTick]
  dsimp only
  by_cases hbad : blockBuilderCheckTimeout pl.builder txBlockTimeoutMs (clk pl.clock) = -1
  · rw [if_pos hbad, if_pos hbad]
    exact ⟨allSized_nil, h1⟩
  rw [if_neg hbad, if_neg hbad]
  by_cases hdue : blockBuilderCheckTimeout pl.builder txBlockTimeoutMs (clk pl.clock) = 1
      ∧ 0 < pl.builder.symbolCount
  · rw [if_pos hdue, if_pos hdue]
    by_cases hfail : (flushBuilder wh clk pl1).1 ≠ 0
    · rw [if_pos hfail, if_pos hfail]
      exact ⟨allSized_append hflush allSized_nil, h2⟩
    · rw [if_neg hfail, if_neg hfail]
      exact ⟨allSized_append hflush htick, h3⟩
  · rw [if_neg hdue, if_neg hdue]
    exact sized_tickAndDrain clk h1

theorem sized_addFragments (l : List Symbol) (h : Sizes ss pl) :
    AllSized ss (addFragmentsAccesses wh clk l pl) ∧
      Sizes ss (addFragments wh clk l pl).2 := by
  induction l generalizing pl with
  | nil => exact ⟨allSized_nil, h⟩
  | cons sym l ih =>
      have hadd := sized_addSymbol h.builder
      have hsize := (addSymbol_symbolSize pl.builder sym (clk pl.clock)).trans h.builder
      rw [addFragmentsAccesses, addFragments]
      generalize blockBuilderAddSymbol pl.builder sym (clk pl.clock) = r at hsize ⊢
      let pl1 : TxPipeline := { pl with builder := r.2, clock := pl.clock + 1 }
      have h1 : Sizes ss pl1 := ⟨h.cfg, hsize, h.fec, h.interleaver⟩
      dsimp only
      by_cases hfull : r.1 = -1
      · rw [if_pos hfull, if_pos hfull]
        have h2 : Sizes ss { pl1 with refusedAdds := pl1.refusedAdds + 1 } :=
          ⟨h1.cfg, h1.builder, h1.fec, h1.interleaver⟩
        obtain ⟨hrest, h3⟩ := ih h2
        exact ⟨allSized_append hadd hrest, h3⟩
      rw [if_neg hfull, if_neg hfull]
      by_cases hlast : r.1 = 1
      · rw [if_pos hlast, if_pos hlast]
        obtain ⟨henc, h2⟩ := sized_encodeAndReset wh clk h1
        by_cases hfail : (encodeAndReset wh clk pl1).1 ≠ 0
        · rw [if_pos hfail, if_pos hfail]
          exact ⟨allSized_append hadd (allSized_append henc allSized_nil), h2⟩
        · rw [if_neg hfail, if_neg hfail]
          obtain ⟨htick, h3⟩ := sized_tickAndDrain clk h2
          obtain ⟨hrest, h4⟩ := ih h3
          exact ⟨allSized_append hadd (allSized_append henc (allSized_append htick hrest)), h4⟩
      · rw [if_neg hlast, if_neg hlast]
        obtain ⟨hrest, h2⟩ := ih h1
        exact ⟨allSized_append hadd hrest, h2⟩

theorem sized_addPacket (numFrags : Nat) (h : Sizes ss pl) :
    AllSized ss (addPacketAccesses wh clk numFrags pl) ∧
      Sizes ss (addPacket wh clk numFrags pl).2 := by
  -- once the builder was flushed or need not be: add the fragments and finish
  have hrest : ∀ {pl1 : TxPipeline}, Sizes ss pl1 →
      let syms := (List.range numFrags).map pl1.fragSyms
      let a := addFragments wh clk syms pl1
      AllSized ss (addFragmentsAccesses wh clk syms pl1 ++
          if a.1 ≠ 0 then [] else checkTimeoutAccesses wh clk a.2) ∧
        Sizes ss (if a.1 ≠ 0 then (-1, a.2) else checkTimeoutAndTick wh clk a.2 : Int × _).2 := by
    intro pl1 h1 syms a
    obtain ⟨hadds, h2⟩ := sized_addFragments wh clk syms h1
    by_cases hfail : a.1 ≠ 0
    · rw [if_pos hfail, if_pos hfail]
      exact ⟨allSized_append hadds allSized_nil, h2⟩
    · rw [if_neg hfail, if_neg hfail]
      obtain ⟨hend, h3⟩ := sized_checkTimeout wh clk h2
      exact ⟨allSized_append hadds hend, h3⟩
  rw [addPacketAccesses, addPacket]
  by_cases hflush : 0 < numFrags ∧ 0 < pl.builder.symbolCount ∧
      pl.builder.kLimit < pl.builder.symbolCount + numFrags
  · simp only [if_pos hflush]
    obtain ⟨hf, h1⟩ := sized_flushBuilder wh clk h
    by_cases hfail : (flushBuilder wh clk pl).1 ≠ 0
    · rw [if_pos hfail, if_pos hfail]
      exact ⟨allSized_append hf allSized_nil, h1⟩
    · rw [if_neg hfail, if_neg hfail]
      obtain ⟨htick, h2⟩ := sized_tickAndDrain clk h1
      obtain ⟨hadds, h3⟩ := hrest h2
      rw [List.append_assoc]
      exact ⟨allSized_append hf (allSized_append htick hadds), h3⟩
  · simp only [if_neg hflush, List.nil_append]
    rw [if_neg (not_not_intro rfl), if_neg (not_not_intro rfl)]
    exact hrest h

/-- **Fragmenting** stays within the array, whatever the symbol size: the size is
    checked. -/
theorem sized_fragment (pkt : List UInt8) (packetId : UInt32) (symbolSize : UInt16)
    (out : Nat → Symbol) (maxSymbols : UInt16) :
    AllSized ss (fragmentAccesses (fragmentPacket pkt packetId symbolSize out maxSymbols)) := by
  intro a ha
  obtain ⟨i, hi, rfl⟩ := List.mem_map.mp ha
  rw [List.mem_range] at hi
  show ((fragmentPacket pkt packetId symbolSize out maxSymbols).2 i).payloadLen.toNat
    ≤ maxSymbolDataSize
  by_cases hok : 0 < symbolSize.toNat ∧ symbolSize.toNat ≤ maxSymbolDataSize
  · rcases fragmentPacket_spec pkt packetId hok.1 hok.2 out maxSymbols with
      ⟨-, hrej⟩ | ⟨-, hcount, hsyms⟩
    · rw [hrej] at hi
      exact nomatch hi
    · rw [hcount, Int.toNat_natCast] at hi
      rw [hsyms i hi]
      show (UInt16.ofNat (fragmentLen pkt.length symbolSize.toNat i)).toNat ≤ _
      rw [UInt16.toNat_ofNat']
      exact (Nat.mod_le _ _).trans ((fragmentLen_le _ _ _).trans hok.2)
  · rw [fragmentPacket_refused hok] at hi
    exact nomatch hi

/-- **One call.** -/
theorem sized_txOnce (ev : TxEvent) (h : Sizes ss pl) :
    AllSized ss (txAccessesOnce wh clk pl ev) ∧
      Sizes ss (txPipelineRunOnce wh clk pl ev).2 := by
  cases ev with
  | idle => exact sized_checkTimeout wh clk h
  | error => exact ⟨allSized_nil, h⟩
  | frame pkt answered =>
      rw [txAccessesOnce_frame, runOnce_frame]
      have hfrag := @sized_fragment ss (pkt.take txRxBufSize) pl.packetIdCounter
        (UInt16.ofNat pl.cfg.symbolSize) pl.fragSyms (UInt16.ofNat pl.maxFragsPerPacket)
      cases frameWay pl pkt answered with
      | ignored way =>
          rw [way, way]
          exact ⟨allSized_nil, h⟩
      | refused r cut neg way =>
          rw [way, way, ← cut]
          exact ⟨hfrag, h.cfg, h.builder, h.fec, h.interleaver⟩
      | taken r cut nonneg way =>
          rw [way, way]
          rw [cut] at hfrag
          have h1 : Sizes ss (accepting pl (pkt.take txRxBufSize) r.2) :=
            ⟨h.cfg, h.builder, h.fec, h.interleaver⟩
          obtain ⟨hadd, h2⟩ := sized_addPacket wh clk r.1.toNat h1
          exact ⟨allSized_append hfrag hadd, h2⟩

/-- **A whole run**: all accesses but those of `fragment_packet` are as long as a
    symbol. -/
theorem sized_txRun (evs : List TxEvent) (h : Sizes ss pl) :
    AllSized ss (txAccessesRun wh clk evs pl) := by
  induction evs generalizing pl with
  | nil => exact allSized_nil
  | cons ev evs ih =>
      obtain ⟨honce, h1⟩ := sized_txOnce wh clk ev h
      rw [txAccessesRun]
      refine allSized_append honce ?_
      split
      · exact allSized_nil
      · exact ih h1

theorem sizes_create {mem : Nat → Nat → Symbol} {lanMac : List UInt8} {cfg : Config}
    (hc : txPipelineCreate mem lanMac cfg = some pl) : Sizes cfg.symbolSize pl := by
  obtain ⟨hk, hss, hdepth, hlen, builder, fec, il, hb, hf, hi, rfl⟩ := txPipelineCreate_some hc
  rw [blockBuilderInit, if_neg (by omega)] at hb
  rw [fecCreate, if_neg (by omega)] at hf
  rw [interleaverCreate, if_neg (by omega)] at hi
  rw [← Option.some.inj hb, ← Option.some.inj hf, ← Option.some.inj hi]
  exact ⟨rfl, rfl, rfl, rfl⟩

end Sizes

end FsoTxPipeline
