import FsoGateway.TxEncodeLog

/-! # The TX pipeline invariant

    A run is described by a history: the fragments of the accepted frames, in
    order, cut into the blocks built so far and the block being built; the
    rows of those blocks, in order, cut into the windows sent so far and the
    window being filled.

    `Rel` ties a state to such a history, and `Logged` ties the calls of
    `fec_encode_block` to its blocks.  The parts of a call of
    `tx_pipeline_run_once` keep both: closing a block (`encodeAndReset_spec`,
    `flushBuilder_spec`), the ticks (`tickAndDrain_spec`,
    `checkTimeoutAndTick_spec`) and the fragment loop (`addFragments_spec`). -/

namespace FsoTxPipeline

open ByteBuffer FsoTypes ErasureCode FecWrapper FsoBlockBuilder FsoInterleaver
  PacketFragmenter SymbolCrc

/-! ## Histories -/

/-- A fragment of an accepted frame: the number of the frame, its bytes, and
    the index of the fragment. -/
structure Frag where
  number : Nat
  pkt : List UInt8
  idx : Nat

/-- The number of fragments of the frame. -/
def Frag.total (ss : Nat) (f : Frag) : Nat := fragmentCount f.pkt.length ss

/-- The symbol that `fragment_packet` makes of it. -/
def Frag.symbol (ss : Nat) (f : Frag) : Symbol :=
  fragment f.pkt (UInt32.ofNat f.number) ss f.idx

/-- The fragments of one frame. -/
def fragsOf (ss number : Nat) (pkt : List UInt8) : List Frag :=
  (List.range (fragmentCount pkt.length ss)).map fun i => ⟨number, pkt, i⟩

/-- The fragments of a list of accepted frames, in order. -/
def allFrags (ss : Nat) (accepted : List (List UInt8)) : List Frag :=
  accepted.zipIdx.flatMap fun p => fragsOf ss p.2 p.1

theorem allFrags_append (ss : Nat) (accepted : List (List UInt8)) (pkt : List UInt8) :
    allFrags ss (accepted ++ [pkt])
      = allFrags ss accepted ++ fragsOf ss accepted.length pkt := by
  rw [allFrags, allFrags, List.zipIdx_append, List.flatMap_append]
  simp

/-- Source symbol `i` of a block: a fragment, or padding. -/
def sourceSymbol (ss : Nat) (frags : List Frag) (i : Nat) : Symbol :=
  match frags[i]? with
  | some f => f.symbol ss
  | none => symbolInit

/-- The 32-bit id of the block built as number `j`. -/
def blockIdOf (j : Nat) : UInt32 := UInt32.ofNat (j + 1)

/-- The row of the block built as number `j`. -/
def blockRow (wh : Wirehair) (cfg : Config) (j : Nat) (frags : List Frag) : Row where
  key := blockIdOf j
  cells := encodedSymbol wh cfg (blockIdOf j) (sourceSymbol cfg.symbolSize frags)

/-- What happened so far. -/
structure TxHist where
  blocks : List (List Frag)
  windows : List (List Row)
  rows : List Row
  cur : List Frag

/-- The rows of the blocks built. -/
def TxHist.allRows (wh : Wirehair) (cfg : Config) (h : TxHist) : List Row :=
  h.blocks.zipIdx.map fun p => blockRow wh cfg p.2 p.1

/-- A block may end inside a frame only when the frame has more than `k`
    fragments. -/
def EndsWell (cfg : Config) (b : List Frag) : Prop :=
  ∀ f ∈ b.getLast?, f.idx + 1 = f.total cfg.symbolSize ∨ cfg.k < f.total cfg.symbolSize

/-- The history is one of `frags`, and the pipeline is at its end; what the
    builder's array holds is left open. -/
structure Core (wh : Wirehair) (pl : TxPipeline) (h : TxHist) (frags : List Frag) :
    Prop where
  shape : TxShape pl
  blockId : pl.builder.blockId = UInt64.ofNat (h.blocks.length + 1)
  built : pl.blocksBuilt = h.blocks.length
  holds : Holds pl.interleaver h.rows
  sent : pl.sent = h.windows.flatMap (windowSymbols pl.cfg)
  rows : h.windows.flatten ++ h.rows = h.allRows wh pl.cfg
  windows : ∀ w ∈ h.windows, w ≠ [] ∧ w.length ≤ pl.cfg.depth
  frags : h.blocks.flatten ++ h.cur = frags
  blocks : ∀ b ∈ h.blocks, b ≠ [] ∧ b.length ≤ pl.cfg.k ∧ EndsWell pl.cfg b
  refused : pl.refusedAdds = 0

/-- The builder holds the fragments `cur`. -/
structure BuilderHas (ss : Nat) (bb : BlockBuilder) (cur : List Frag) : Prop where
  count : bb.symbolCount = cur.length
  symbols : ∀ i, i < cur.length →
    clipSymbol ss (bb.symbols i) = clipSymbol ss (sourceSymbol ss cur i)

/-- **The invariant of the TX pipeline.** -/
structure Rel (wh : Wirehair) (pl : TxPipeline) (h : TxHist) (frags : List Frag) :
    Prop where
  core : Core wh pl h frags
  builder : BuilderHas pl.cfg.symbolSize pl.builder h.cur
  room : h.cur.length < pl.cfg.k
  endsWell : EndsWell pl.cfg h.cur

/-! ## The calls behind the blocks -/

/-- Every block built was encoded by one call. -/
structure Logged (wh : Wirehair) (cfg : Config) (h : TxHist) (log : List TxPipeline) :
    Prop where
  length : log.length = h.blocks.length
  calls : ∀ j b pl, h.blocks[j]? = some b → log[j]? = some pl →
    CallOf wh cfg (blockIdOf j) (sourceSymbol cfg.symbolSize b) (encodeCall wh pl)

/-- `calls` are those for the blocks that `h'` has over `h`. -/
def Logs (wh : Wirehair) (cfg : Config) (h h' : TxHist) (calls : List TxPipeline) :
    Prop :=
  ∀ log, Logged wh cfg h log → Logged wh cfg h' (log ++ calls)

section Logs

variable {wh : Wirehair} {cfg : Config} {h h' h'' : TxHist} {c c' : List TxPipeline}

theorem Logs.of_blocks (hb : h'.blocks = h.blocks) : Logs wh cfg h h' [] := by
  rintro log ⟨hlen, hcalls⟩
  rw [List.append_nil]
  constructor
  · rw [hb, hlen]
  · rw [hb]
    exact hcalls

theorem Logs.trans (h1 : Logs wh cfg h h' c) (h2 : Logs wh cfg h' h'' c') :
    Logs wh cfg h h'' (c ++ c') := by
  intro log hlog
  rw [← List.append_assoc]
  exact h2 _ (h1 log hlog)

end Logs

/-! ## Small facts -/

theorem endsWell_nil (cfg : Config) : EndsWell cfg [] := by
  intro f hf
  rw [List.getLast?_nil] at hf
  exact nomatch hf

theorem sourceSymbol_payloadLen (ss : Nat) (frags : List Frag) (i : Nat) :
    (sourceSymbol ss frags i).payloadLen.toNat ≤ ss := by
  rw [sourceSymbol]
  cases frags[i]? with
  | none => exact Nat.zero_le ss
  | some f =>
      show (UInt16.ofNat (fragmentLen f.pkt.length ss f.idx)).toNat ≤ ss
      rw [UInt16.toNat_ofNat']
      exact le_trans (Nat.mod_le _ _) (fragmentLen_le _ _ _)

theorem blockIdOf_inj {i j : Nat} (h : blockIdOf i = blockIdOf j)
    (hij : i ≤ j) (hlt : j < i + 2 ^ 32) : i = j := by
  have h1 := congrArg UInt32.toNat h
  rw [blockIdOf, blockIdOf, UInt32.toNat_ofNat', UInt32.toNat_ofNat'] at h1
  omega

theorem toUInt32_blockId (j : Nat) : (UInt64.ofNat (j + 1)).toUInt32 = blockIdOf j := by
  apply UInt32.toNat_inj.mp
  rw [UInt64.toNat_toUInt32, UInt64.toNat_ofNat', blockIdOf, UInt32.toNat_ofNat']
  omega

/-- The reset moves on to the next id, also at the wrap of the counter. -/
theorem blockId_reset (j : Nat) :
    (if UInt64.ofNat (j + 1) ≠ 0 then UInt64.ofNat (j + 1) + 1 else 1)
      = UInt64.ofNat (j + 1 + 1) := by
  have hadd : UInt64.ofNat (j + 1) + 1 = UInt64.ofNat (j + 1 + 1) := by
    apply UInt64.toNat_inj.mp
    rw [UInt64.toNat_add, UInt64.toNat_ofNat', UInt64.toNat_ofNat']
    show ((j + 1) % 2 ^ 64 + 1) % 2 ^ 64 = _
    omega
  by_cases h : UInt64.ofNat (j + 1) = 0
  · rw [if_neg (not_not_intro h), ← hadd, h]
    rfl
  · rw [if_pos h, hadd]

theorem allRows_length (wh : Wirehair) (cfg : Config) (h : TxHist) :
    (h.allRows wh cfg).length = h.blocks.length := by
  rw [TxHist.allRows, List.length_map, List.length_zipIdx]

theorem allRows_getElem (wh : Wirehair) (cfg : Config) (h : TxHist) {j : Nat}
    (hj : j < h.blocks.length) :
    (h.allRows wh cfg)[j]? = some (blockRow wh cfg j h.blocks[j]) := by
  rw [TxHist.allRows, List.getElem?_map, List.getElem?_zipIdx,
    List.getElem?_eq_getElem hj]
  simp

section Core

variable {wh : Wirehair} {pl : TxPipeline} {h : TxHist} {frags : List Frag}

/-- The rows of the window being filled are the last blocks built. -/
theorem Core.row_mem (hc : Core wh pl h frags) {row : Row} (hr : row ∈ h.rows) :
    ∃ j, j < h.blocks.length ∧ h.blocks.length ≤ j + h.rows.length ∧
      row.key = blockIdOf j := by
  obtain ⟨r, hlt, hget⟩ := List.mem_iff_getElem.mp hr
  have hlen := congrArg List.length hc.rows
  rw [List.length_append, allRows_length] at hlen
  have hj : h.windows.flatten.length + r < h.blocks.length := by omega
  have h1 := allRows_getElem wh pl.cfg h hj
  rw [← hc.rows, List.getElem?_append_right (by omega), Nat.add_sub_cancel_left,
    List.getElem?_eq_getElem hlt, hget] at h1
  refine ⟨h.windows.flatten.length + r, hj, by omega, ?_⟩
  rw [Option.some.inj h1]
  rfl

/-- The block being built has no row yet. -/
theorem Core.fresh (hc : Core wh pl h frags) :
    ∀ row ∈ h.rows, row.key ≠ pl.builder.blockId.toUInt32 := by
  intro row hr heq
  obtain ⟨j, hlt, hle, hkey⟩ := hc.row_mem hr
  rw [hc.blockId, toUInt32_blockId, hkey] at heq
  have hroom := hc.holds.room
  rw [hc.shape.depth] at hroom
  have hd := pl.cfg.depth_int
  have := blockIdOf_inj heq (Nat.le_of_lt hlt) (by omega)
  omega

/-- A history in which the block being built is finished. -/
def TxHist.close (wh : Wirehair) (cfg : Config) (h : TxHist) : TxHist :=
  let rows := h.rows ++ [blockRow wh cfg h.blocks.length h.cur]
  { blocks := h.blocks ++ [h.cur]
    windows := if rows.length < cfg.depth then h.windows else h.windows ++ [rows]
    rows := if rows.length < cfg.depth then rows else []
    cur := [] }

/-- A history in which the window being filled is flushed. -/
def TxHist.flush (h : TxHist) : TxHist :=
  { h with windows := h.windows ++ [h.rows], rows := [] }

theorem close_allRows (wh : Wirehair) (cfg : Config) (h : TxHist) :
    (h.close wh cfg).allRows wh cfg
      = h.allRows wh cfg ++ [blockRow wh cfg h.blocks.length h.cur] := by
  show (h.blocks ++ [h.cur]).zipIdx.map _ = _
  rw [List.zipIdx_append, List.map_append]
  simp [TxHist.allRows]

theorem TxShape.congr {pl pl' : TxPipeline} (h : TxShape pl) (hs : SameTx pl pl')
    (hil : SameShape pl.interleaver pl'.interleaver)
    (hb : pl'.builder.kLimit = pl.builder.kLimit ∧
      pl'.builder.symbolSize = pl.builder.symbolSize) : TxShape pl' where
  fec := by rw [hs.fec, hs.cfg, h.fec]
  kLimit := by rw [hb.1, hs.cfg, h.kLimit]
  builderSize := by rw [hb.2, hs.cfg, h.builderSize]
  depth := by rw [hil.depth, hs.cfg, h.depth]
  n := by rw [hil.n, hs.cfg, h.n]
  symbolSize := by rw [hil.symbolSize, hs.cfg, h.symbolSize]

/-- Nothing that a history tells of is different. -/
structure SameCore (pl pl' : TxPipeline) : Prop where
  tx : SameTx pl pl'
  kLimit : pl'.builder.kLimit = pl.builder.kLimit
  builderSize : pl'.builder.symbolSize = pl.builder.symbolSize
  blockId : pl'.builder.blockId = pl.builder.blockId
  interleaver : pl'.interleaver = pl.interleaver
  built : pl'.blocksBuilt = pl.blocksBuilt
  sent : pl'.sent = pl.sent

theorem SameCore.clock (pl : TxPipeline) : SameCore pl { pl with clock := pl.clock + 1 } :=
  ⟨⟨rfl, rfl, rfl, rfl, rfl, rfl, rfl, rfl⟩, rfl, rfl, rfl, rfl, rfl, rfl⟩

theorem Core.congr {pl' : TxPipeline} (hc : Core wh pl h frags) (hs : SameCore pl pl') :
    Core wh pl' h frags where
  shape := hc.shape.congr hs.tx (by rw [hs.interleaver]; exact .refl _)
    ⟨hs.kLimit, hs.builderSize⟩
  blockId := hs.blockId.trans hc.blockId
  built := hs.built.trans hc.built
  holds := by rw [hs.interleaver]; exact hc.holds
  sent := by rw [hs.sent, hs.tx.cfg]; exact hc.sent
  rows := by rw [hs.tx.cfg]; exact hc.rows
  windows := by rw [hs.tx.cfg]; exact hc.windows
  frags := hc.frags
  blocks := by rw [hs.tx.cfg]; exact hc.blocks
  refused := hs.tx.refusedAdds.trans hc.refused

/-- Time passes. -/
theorem Rel.clock (hr : Rel wh pl h frags) :
    Rel wh { pl with clock := pl.clock + 1 } h frags :=
  ⟨hr.core.congr (.clock pl), hr.builder, hr.room, hr.endsWell⟩

/-! ## Closing a block -/

/-- The finished block is the last row. -/
theorem close_rows (wh : Wirehair) (cfg : Config) (h : TxHist) :
    (h.close wh cfg).windows.flatten ++ (h.close wh cfg).rows
      = h.windows.flatten ++ h.rows ++ [blockRow wh cfg h.blocks.length h.cur] := by
  rw [List.append_assoc, TxHist.close]
  dsimp only
  split
  · rfl
  · rw [List.flatten_append, List.flatten_singleton, List.append_nil]

theorem close_windows {cfg : Config}
    (hw : ∀ w ∈ h.windows, w ≠ [] ∧ w.length ≤ cfg.depth)
    (hroom : h.rows.length < cfg.depth) :
    ∀ w ∈ (h.close wh cfg).windows, w ≠ [] ∧ w.length ≤ cfg.depth := by
  intro w hmem
  rw [TxHist.close] at hmem
  dsimp only at hmem
  split at hmem
  · exact hw w hmem
  · rcases List.mem_append.mp hmem with hold | hnew
    · exact hw w hold
    · rw [List.mem_singleton.mp hnew, List.length_append, List.length_singleton]
      exact ⟨by simp, hroom⟩

/-- The call for a block logs its closing. -/
theorem logs_close {cfg : Config} {pl : TxPipeline}
    (hcall : CallOf wh cfg (blockIdOf h.blocks.length)
      (sourceSymbol cfg.symbolSize h.cur) (encodeCall wh pl)) :
    Logs wh cfg h (h.close wh cfg) [pl] := by
  rintro log ⟨hlen, hcalls⟩
  constructor
  · show (log ++ [pl]).length = (h.blocks ++ [h.cur]).length
    rw [List.length_append, List.length_append, hlen]
    rfl
  · intro j b c' hb hc'
    have hb' : (h.blocks ++ [h.cur])[j]? = some b := hb
    rcases Nat.lt_trichotomy j h.blocks.length with hlt | heq | hgt
    · rw [List.getElem?_append_left hlt] at hb'
      rw [List.getElem?_append_left (by omega)] at hc'
      exact hcalls j b c' hb' hc'
    · subst heq
      rw [List.getElem?_concat_length] at hb'
      rw [← hlen, List.getElem?_concat_length] at hc'
      cases hb'
      cases hc'
      exact hcall
    · rw [List.getElem?_eq_none (by
        rw [List.length_append, List.length_singleton]
        omega)] at hb'
      exact nomatch hb'

/-- **Encode and reset**: the block being built is finished. -/
theorem encodeAndReset_spec (clk : Nat → Nat) (hcfg : CodeOk pl.cfg)
    (hwh : Encodes wh.encoding pl.cfg.k (pl.cfg.k + pl.cfg.m) pl.cfg.symbolSize)
    (hc : Core wh pl h frags)
    (hfull : ∀ i, i < pl.cfg.k → clipSymbol pl.cfg.symbolSize (pl.builder.symbols i)
      = clipSymbol pl.cfg.symbolSize (sourceSymbol pl.cfg.symbolSize h.cur i))
    (hne : h.cur ≠ []) (hle : h.cur.length ≤ pl.cfg.k) (hends : EndsWell pl.cfg h.cur) :
    let r := encodeAndReset wh clk pl
    r.1 = 0 ∧ SameTx pl r.2 ∧ Core wh r.2 (h.close wh pl.cfg) frags ∧
      r.2.builder.symbolCount = 0 ∧
      Logs wh pl.cfg h (h.close wh pl.cfg) [pl] := by
  intro r
  have hlogs : Logs wh pl.cfg h (h.close wh pl.cfg) [pl] := by
    have hcall := callOf_encodeCall hcfg hwh hc.shape.fec hfull
    rw [hc.blockId, toUInt32_blockId] at hcall
    exact logs_close hcall
  obtain ⟨h0, hs, hil, hbuilt, ⟨symbols, hb⟩, hcase⟩ := encodeAndDrain_spec clk hcfg hwh
    hc.shape hc.holds hc.fresh hfull fun i _ => sourceSymbol_payloadLen _ _ _
  have hr : r = (0, { (encodeAndDrain wh clk pl).2 with
      builder := blockBuilderReset (encodeAndDrain wh clk pl).2.builder }) := by
    show encodeAndReset wh clk pl = _
    rw [encodeAndReset]
    exact if_neg (not_not_intro h0)
  -- only what `encodeAndDrain_spec` says of the encoded pipeline is used from here on
  rw [hr]
  clear hr h0
  generalize (encodeAndDrain wh clk pl).2 = pl1 at hs hil hbuilt hb hcase ⊢
  have hid : pl.builder.blockId.toUInt32 = blockIdOf h.blocks.length := by
    rw [hc.blockId, toUInt32_blockId]
  rw [hid] at hcase
  have hlen : (h.rows ++ [blockRow wh pl.cfg h.blocks.length h.cur]).length
      = h.rows.length + 1 := by
    rw [List.length_append, List.length_singleton]
  have hroom := hc.holds.room
  rw [hc.shape.depth] at hroom
  have hsame : SameTx pl { pl1 with builder := blockBuilderReset pl1.builder } :=
    ⟨hs.1, hs.2, hs.3, hs.4, hs.5, hs.6, hs.7, hs.8⟩
  refine ⟨rfl, hsame, ?_, rfl, hlogs⟩
  have hcfg1 := hs.cfg
  exact
    { shape := hc.shape.congr hsame hil (by
        show pl1.builder.kLimit = _ ∧ pl1.builder.symbolSize = _
        rw [hb]
        exact ⟨rfl, rfl⟩)
      blockId := by
        show (if pl1.builder.blockId ≠ 0 then pl1.builder.blockId + 1 else 1) = _
        rw [hb]
        show (if pl.builder.blockId ≠ 0 then pl.builder.blockId + 1 else 1) = _
        rw [hc.blockId, blockId_reset]
        show _ = UInt64.ofNat ((h.blocks ++ [h.cur]).length + 1)
        rw [List.length_append, List.length_singleton]
      built := by
        show pl1.blocksBuilt = (h.blocks ++ [h.cur]).length
        rw [hbuilt, hc.built, List.length_append, List.length_singleton]
      holds := by
        show Holds pl1.interleaver (h.close wh pl.cfg).rows
        rw [TxHist.close]
        dsimp only
        -- the window takes the row, or it was the last one and the window is sent
        rcases hcase with ⟨hlt, -, hh⟩ | ⟨heq, -, hh⟩
        · rw [if_pos (by omega)]
          exact hh
        · rw [if_neg (by omega)]
          exact hh
      sent := by
        show pl1.sent = (h.close wh pl.cfg).windows.flatMap (windowSymbols pl1.cfg)
        rw [hcfg1, TxHist.close]
        dsimp only
        rcases hcase with ⟨hlt, hsent, -⟩ | ⟨heq, hsent, -⟩
        · rw [if_pos (by omega), hsent, hc.sent]
        · rw [if_neg (by omega), hsent, hc.sent, List.flatMap_append,
            List.flatMap_singleton]
          rfl
      rows := by
        show _ = (h.close wh pl.cfg).allRows wh pl1.cfg
        rw [hcfg1, close_allRows, ← hc.rows, close_rows]
      windows := by
        show ∀ w ∈ _, w ≠ [] ∧ w.length ≤ pl1.cfg.depth
        rw [hcfg1]
        exact close_windows hc.windows hroom
      frags := by
        show (h.blocks ++ [h.cur]).flatten ++ [] = frags
        rw [List.flatten_append, List.flatten_singleton, List.append_nil, hc.frags]
      blocks := by
        intro b hbm
        show b ≠ [] ∧ b.length ≤ pl1.cfg.k ∧ EndsWell pl1.cfg b
        rw [hcfg1]
        rcases List.mem_append.mp (show b ∈ h.blocks ++ [h.cur] from hbm) with hold | hnew
        · exact hc.blocks b hold
        · rw [List.mem_singleton.mp hnew]
          exact ⟨hne, hle, hends⟩
      refused := by
        show pl1.refusedAdds = 0
        rw [hs.refusedAdds, hc.refused] }

/-- The padding completes the block. -/
theorem builder_finalize {ss : Nat} {bb : BlockBuilder} {cur : List Frag}
    (hb : BuilderHas ss bb cur) (hss : bb.symbolSize = ss) (hk : 0 < bb.kLimit)
    (hle : cur.length ≤ bb.kLimit) {i : Nat} (hi : i < bb.kLimit) :
    clipSymbol ss ((blockBuilderFinalizeWithPadding bb).symbols i)
      = clipSymbol ss (sourceSymbol ss cur i) := by
  have hcount := hb.count
  rw [blockBuilderFinalizeWithPadding, if_neg (by omega), if_neg (by omega)]
  show clipSymbol ss (if bb.symbolCount ≤ i ∧ i < bb.kLimit then _ else bb.symbols i) = _
  by_cases hlt : i < cur.length
  · rw [if_neg (by omega)]
    exact hb.symbols i hlt
  · rw [if_pos (by omega), sourceSymbol, List.getElem?_eq_none (by omega), hss]
    have hzero : clip ss (fun _ => 0) = fun _ => (0 : UInt8) :=
      funext fun i => ite_self (0 : UInt8)
    simp only [clipSymbol, FsoBlockBuilder.paddingSymbol, clip_memzero, symbolInit, hzero]

/-- **A flush** of a builder that holds something. -/
theorem flushBuilder_spec (clk : Nat → Nat) (hcfg : CodeOk pl.cfg)
    (hwh : Encodes wh.encoding pl.cfg.k (pl.cfg.k + pl.cfg.m) pl.cfg.symbolSize)
    (hr : Rel wh pl h frags) (hne : h.cur ≠ []) :
    let r := flushBuilder wh clk pl
    r.1 = 0 ∧ SameTx pl r.2 ∧ Rel wh r.2 (h.close wh pl.cfg) frags ∧
      Logs wh pl.cfg h (h.close wh pl.cfg) [finalized pl] := by
  intro r
  have hk := hr.core.shape.kLimit
  have hk2 := hcfg.source
  have hroom := hr.room
  have hcount := hr.builder.count
  have hfin : ∃ symbols, blockBuilderFinalizeWithPadding pl.builder
      = { pl.builder with symbols := symbols, symbolCount := pl.builder.kLimit } := by
    rw [blockBuilderFinalizeWithPadding, if_neg (by omega), if_neg (by omega)]
    exact ⟨_, rfl⟩
  obtain ⟨symbols, hfin⟩ := hfin
  let pl1 : TxPipeline :=
    { pl with builder := blockBuilderFinalizeWithPadding pl.builder }
  have hs1 : SameCore pl pl1 := by
    refine ⟨⟨rfl, rfl, rfl, rfl, rfl, rfl, rfl, rfl⟩, ?_, ?_, ?_, rfl, rfl, rfl⟩
    · show (blockBuilderFinalizeWithPadding pl.builder).kLimit = _
      rw [hfin]
    · show (blockBuilderFinalizeWithPadding pl.builder).symbolSize = _
      rw [hfin]
    · show (blockBuilderFinalizeWithPadding pl.builder).blockId = _
      rw [hfin]
  have hcore1 : Core wh pl1 h frags := hr.core.congr hs1
  have hcfg' : CodeOk pl1.cfg := hcfg
  obtain ⟨h1, h2, h3, h4, hlogs⟩ := encodeAndReset_spec clk hcfg' hwh hcore1
    (fun i hi => builder_finalize hr.builder hr.core.shape.builderSize (by omega)
      (by omega) (by rw [hk]; exact hi)) hne (Nat.le_of_lt hroom) hr.endsWell
  have hcfg1 : r.2.cfg = pl.cfg := h2.cfg
  refine ⟨h1, hs1.tx.trans h2,
    ⟨h3, ⟨h4, fun i hi => absurd hi (Nat.not_lt_zero i)⟩, ?_, ?_⟩, hlogs⟩
  · show 0 < r.2.cfg.k
    rw [hcfg1]
    omega
  · exact endsWell_nil _

/-! ## The interleaver tick -/

/-- **A tick** sends the rows of the window, padded, or does nothing. -/
theorem tickAndDrain_spec (clk : Nat → Nat) (hcfg : CodeOk pl.cfg)
    (hc : Core wh pl h frags) :
    let r := tickAndDrainInterleaver clk pl
    SameTx pl r ∧ r.builder = pl.builder ∧
      ∃ h', Core wh r h' frags ∧ h'.cur = h.cur ∧ h'.blocks = h.blocks := by
  intro r
  have hn : 0 < pl.interleaver.n := by
    rw [hc.shape.n]
    have := hcfg.repair
    omega
  rcases tick_holds (clk pl.clock) hc.holds hn with htick | ⟨h1, hne, hs, hd⟩
  -- no timeout: only the clock was read
  · have hr : r = { pl with clock := pl.clock + 1 } := by
      show tickAndDrainInterleaver clk pl = _
      rw [tickAndDrainInterleaver, htick]
      exact if_neg (show ¬ (0 : Int) = 1 by decide)
    rw [hr]
    exact ⟨(SameCore.clock pl).tx, rfl, h, hc.congr (.clock pl), rfl, rfl⟩
  · let pl1 : TxPipeline :=
      { pl with
        interleaver := (interleaverTick pl.interleaver (clk pl.clock)).2
        clock := pl.clock + 1 }
    -- the padded window goes out as a whole
    obtain ⟨il, hdrain, hs2, hholds⟩ := @drainInterleaver_draining pl1 _ hd
    have hr : r = drainInterleaver pl1 := by
      show tickAndDrainInterleaver clk pl = _
      rw [tickAndDrainInterleaver]
      exact if_pos h1
    replace hr := hr.trans hdrain
    have hsame : SameTx pl r := by
      rw [hr]
      exact ⟨rfl, rfl, rfl, rfl, rfl, rfl, rfl, rfl⟩
    have hbuilder : r.builder = pl.builder := by
      rw [hr]
    have hil : SameShape pl.interleaver r.interleaver := by
      rw [hr]
      exact hs.trans hs2
    have hcfg' := hsame.cfg
    refine ⟨hsame, hbuilder, h.flush, ?_, rfl, rfl⟩
    exact
      { shape := hc.shape.congr hsame hil (by rw [hbuilder]; exact ⟨rfl, rfl⟩)
        blockId := by rw [hbuilder]; exact hc.blockId
        built := by rw [hr]; exact hc.built
        holds := by rw [hr]; exact hholds
        sent := by
          have hsent : r.sent = pl.sent ++ windowSymbols pl.cfg h.rows := by
            rw [hr, windowSymbols, ← hc.shape.depth, ← hc.shape.n, ← hc.shape.symbolSize,
              ← hs.depth, ← hs.n, ← hs.symbolSize]
          rw [hsent, hcfg', hc.sent]
          show _ = (h.windows ++ [h.rows]).flatMap _
          rw [List.flatMap_append, List.flatMap_singleton]
        rows := by
          show (h.windows ++ [h.rows]).flatten ++ [] = h.allRows wh r.cfg
          rw [hcfg', ← hc.rows, List.flatten_append, List.flatten_singleton,
            List.append_nil]
        windows := by
          intro w hw
          rw [hcfg']
          rcases List.mem_append.mp hw with hold | hnew
          · exact hc.windows w hold
          · rw [List.mem_singleton.mp hnew]
            have hroom := hc.holds.room
            rw [hc.shape.depth] at hroom
            exact ⟨hne, Nat.le_of_lt hroom⟩
        frags := hc.frags
        blocks := by
          rw [hcfg']
          exact hc.blocks
        refused := hsame.refusedAdds.trans hc.refused }

theorem tick_rel (clk : Nat → Nat) (hcfg : CodeOk pl.cfg) (hr : Rel wh pl h frags) :
    let r := tickAndDrainInterleaver clk pl
    SameTx pl r ∧ ∃ h', Rel wh r h' frags ∧ h'.cur = h.cur ∧
      h'.blocks = h.blocks := by
  intro r
  obtain ⟨hs, hb, h', hc, hcur, hblocks⟩ := tickAndDrain_spec clk hcfg hr.core
  refine ⟨hs, h', ⟨hc, ?_, ?_, ?_⟩, hcur, hblocks⟩
  · rw [hs.cfg, hb, hcur]
    exact hr.builder
  · rw [hs.cfg, hcur]
    exact hr.room
  · rw [hs.cfg, hcur]
    exact hr.endsWell

/-- **The timeouts** of the builder and of the window. -/
theorem checkTimeoutAndTick_spec (clk : Nat → Nat) (hcfg : CodeOk pl.cfg)
    (hwh : Encodes wh.encoding pl.cfg.k (pl.cfg.k + pl.cfg.m) pl.cfg.symbolSize)
    (hr : Rel wh pl h frags) :
    let r := checkTimeoutAndTick wh clk pl
    r.1 = 0 ∧ SameTx pl r.2 ∧ ∃ h', Rel wh r.2 h' frags ∧
      Logs wh pl.cfg h h' (callsTimeout clk pl) := by
  intro r
  let pl1 : TxPipeline := { pl with clock := pl.clock + 1 }
  have hs1 : SameTx pl pl1 := (SameCore.clock pl).tx
  have hr1 : Rel wh pl1 h frags := hr.clock
  have hrc : blockBuilderCheckTimeout pl.builder txBlockTimeoutMs (clk pl.clock) ≠ -1 := by
    rw [blockBuilderCheckTimeout, if_neg (by decide +kernel)]
    split
    · decide
    · split
      · decide
      · decide
  by_cases hflush : blockBuilderCheckTimeout pl.builder txBlockTimeoutMs (clk pl.clock) = 1
      ∧ 0 < pl.builder.symbolCount
  · have hne : h.cur ≠ [] := by
      intro hnil
      have hcount := hr.builder.count
      rw [hnil, List.length_nil] at hcount
      omega
    have hcfg1 : CodeOk pl1.cfg := hcfg
    obtain ⟨h0, h2, h3, hlogs⟩ := flushBuilder_spec clk hcfg1 hwh hr1 hne
    have hcfg2 : CodeOk (flushBuilder wh clk pl1).2.cfg := by
      rw [h2.cfg]
      exact hcfg
    obtain ⟨h4, h', h5, -, hblocks⟩ := tick_rel clk hcfg2 h3
    have hres : r = (0, tickAndDrainInterleaver clk (flushBuilder wh clk pl1).2) := by
      show checkTimeoutAndTick wh clk pl = _
      rw [checkTimeoutAndTick, if_neg hrc, if_pos hflush]
      exact if_neg (not_not_intro h0)
    rw [hres, callsTimeout, if_pos hflush]
    exact ⟨rfl, (hs1.trans h2).trans h4, h', h5, hlogs.trans (.of_blocks hblocks)⟩
  · have hcfg1 : CodeOk pl1.cfg := hcfg
    obtain ⟨h4, h', h5, -, hblocks⟩ := tick_rel clk hcfg1 hr1
    have hres : r = (0, tickAndDrainInterleaver clk pl1) := by
      show checkTimeoutAndTick wh clk pl = _
      rw [checkTimeoutAndTick, if_neg hrc, if_neg hflush]
    rw [hres, callsTimeout, if_neg hflush]
    exact ⟨rfl, hs1.trans h4, h', h5, .of_blocks hblocks⟩

end Core

/-! ## Adding the fragments of a frame -/

/-- The builder takes one more fragment. -/
theorem builder_add {ss : Nat} {bb : BlockBuilder} {cur : List Frag} (f : Frag)
    (now : Nat) (hb : BuilderHas ss bb cur) (hss : bb.symbolSize = ss)
    (hroom : cur.length < bb.kLimit) :
    let r := blockBuilderAddSymbol bb (f.symbol ss) now
    r.1 = (if cur.length + 1 = bb.kLimit then 1 else 0) ∧
      BuilderHas ss r.2 (cur ++ [f]) ∧ r.2.kLimit = bb.kLimit ∧
      r.2.symbolSize = bb.symbolSize ∧ r.2.blockId = bb.blockId := by
  intro r
  have hcount := hb.count
  have hr : r = (if bb.symbolCount + 1 = bb.kLimit then 1 else 0,
      { bb with
        symbols := Function.update bb.symbols bb.symbolCount
          (copySymbol (bb.symbols bb.symbolCount) (f.symbol ss) bb.symbolSize)
        symbolCount := bb.symbolCount + 1
        firstActivity := if bb.symbolCount = 0 then now else bb.firstActivity }) := by
    show blockBuilderAddSymbol bb (f.symbol ss) now = _
    rw [blockBuilderAddSymbol, if_neg (by omega), if_neg (by omega)]
  rw [hr]
  refine ⟨by rw [hcount], ⟨?_, ?_⟩, rfl, rfl, rfl⟩
  · show bb.symbolCount + 1 = _
    rw [List.length_append, List.length_singleton, hcount]
  · intro i hi
    rw [List.length_append, List.length_singleton] at hi
    show clipSymbol ss (Function.update bb.symbols bb.symbolCount _ i) = _
    by_cases hlt : i < cur.length
    · rw [Function.update_of_ne (by omega), hb.symbols i hlt, sourceSymbol, sourceSymbol,
        List.getElem?_append_left hlt]
    · have hi' : i = cur.length := by omega
      rw [hi', ← hcount, Function.update_self, ← hss, clipSymbol_copySymbol, hss,
        sourceSymbol, hcount, List.getElem?_append_right le_rfl, Nat.sub_self]
      rfl

theorem endsWell_append {cfg : Config} {cur : List Frag} {f : Frag}
    (h : f.idx + 1 = f.total cfg.symbolSize ∨ cfg.k < f.total cfg.symbolSize) :
    EndsWell cfg (cur ++ [f]) := by
  intro g hg
  rw [List.getLast?_concat] at hg
  rw [← Option.some.inj hg]
  exact h

/-- One more fragment in the builder. -/
theorem Core.added {wh : Wirehair} {pl : TxPipeline} {h : TxHist} {frags : List Frag}
    (clk : Nat → Nat) (hc : Core wh pl h frags)
    (hb : BuilderHas pl.cfg.symbolSize pl.builder h.cur) (hroom : h.cur.length < pl.cfg.k)
    (f : Frag) :
    let h1 : TxHist := { h with cur := h.cur ++ [f] }
    let sym := f.symbol pl.cfg.symbolSize
    (blockBuilderAddSymbol pl.builder sym (clk pl.clock)).1
        = (if h.cur.length + 1 = pl.cfg.k then 1 else 0) ∧
      Core wh (added clk pl sym) h1 (frags ++ [f]) ∧
      BuilderHas pl.cfg.symbolSize (FsoTxPipeline.added clk pl sym).builder h1.cur := by
  intro h1 sym
  have hk := hc.shape.kLimit
  obtain ⟨hrc, hb1, hk1, hss1, hid1⟩ := builder_add f (clk pl.clock) hb hc.shape.builderSize
    (by omega)
  rw [hk] at hrc
  have hs1 : SameTx pl (FsoTxPipeline.added clk pl sym) :=
    ⟨rfl, rfl, rfl, rfl, rfl, rfl, rfl, rfl⟩
  refine ⟨hrc, ?_, hb1⟩
  exact
    { shape := hc.shape.congr hs1 (SameShape.refl _) ⟨hk1, hss1⟩
      blockId := hid1.trans hc.blockId
      built := hc.built
      holds := hc.holds
      sent := hc.sent
      rows := hc.rows
      windows := hc.windows
      frags := by
        show h.blocks.flatten ++ (h.cur ++ [f]) = _
        rw [← List.append_assoc, hc.frags]
      blocks := hc.blocks
      refused := hc.refused }

/-- A full builder is encoded and emptied, and the window ticks. -/
theorem encodeAndTick_spec {wh : Wirehair} {pl : TxPipeline} {h : TxHist}
    {frags : List Frag} (clk : Nat → Nat) (hcfg : CodeOk pl.cfg)
    (hwh : Encodes wh.encoding pl.cfg.k (pl.cfg.k + pl.cfg.m) pl.cfg.symbolSize)
    (hc : Core wh pl h frags) (hb : BuilderHas pl.cfg.symbolSize pl.builder h.cur)
    (hfull : h.cur.length = pl.cfg.k) (hends : EndsWell pl.cfg h.cur) :
    let pl2 := tickAndDrainInterleaver clk (encodeAndReset wh clk pl).2
    (encodeAndReset wh clk pl).1 = 0 ∧ SameTx pl pl2 ∧ pl2.builder.symbolCount = 0 ∧
      ∃ h', Core wh pl2 h' frags ∧ h'.cur = [] ∧ Logs wh pl.cfg h h' [pl] := by
  intro pl2
  have hk := hcfg.source
  have hne : h.cur ≠ [] := by
    intro hnil
    rw [hnil, List.length_nil] at hfull
    omega
  obtain ⟨he0, hes, hec, hecount, helogs⟩ := encodeAndReset_spec clk hcfg hwh hc
    (fun i hi => hb.symbols i (by omega)) hne (Nat.le_of_eq hfull) hends
  obtain ⟨hts, htb, h', htc, hcur, hblocks⟩ := tickAndDrain_spec clk
    (by rw [hes.cfg]; exact hcfg) hec
  refine ⟨he0, hes.trans hts, ?_, h', htc, hcur, helogs.trans (.of_blocks hblocks)⟩
  show pl2.builder.symbolCount = 0
  rw [htb]
  exact hecount

/-- **The fragment loop**: the fragments either fit into the block being built, or
    belong to a frame too long for any block. -/
theorem addFragments_spec {wh : Wirehair} (clk : Nat → Nat) (fs : List Frag)
    {pl : TxPipeline} {h : TxHist} {frags : List Frag} (hcfg : CodeOk pl.cfg)
    (hwh : Encodes wh.encoding pl.cfg.k (pl.cfg.k + pl.cfg.m) pl.cfg.symbolSize)
    (hc : Core wh pl h frags) (hb : BuilderHas pl.cfg.symbolSize pl.builder h.cur)
    (hroom : h.cur.length < pl.cfg.k) (hends : fs = [] → EndsWell pl.cfg h.cur)
    (hlast : ∀ f ∈ fs.getLast?, f.idx + 1 = f.total pl.cfg.symbolSize)
    (hfit : h.cur.length + fs.length ≤ pl.cfg.k ∨
      ∀ f ∈ fs, pl.cfg.k < f.total pl.cfg.symbolSize) :
    let r := addFragments wh clk (fs.map (Frag.symbol pl.cfg.symbolSize)) pl
    r.1 = 0 ∧ SameTx pl r.2 ∧ ∃ h', Rel wh r.2 h' (frags ++ fs) ∧
      Logs wh pl.cfg h h'
        (callsAdd wh clk (fs.map (Frag.symbol pl.cfg.symbolSize)) pl) := by
  induction fs generalizing pl h frags with
  | nil =>
      refine ⟨rfl, SameTx.refl pl, h, ?_, .of_blocks rfl⟩
      rw [List.append_nil]
      exact ⟨hc, hb, hroom, hends rfl⟩
  | cons f fs ih =>
      intro r
      obtain ⟨hrc, hc1, hb1⟩ := hc.added clk hb hroom f
      let pl1 := added clk pl (f.symbol pl.cfg.symbolSize)
      let h1 : TxHist := { h with cur := h.cur ++ [f] }
      have hs1 : SameTx pl pl1 := ⟨rfl, rfl, rfl, rfl, rfl, rfl, rfl, rfl⟩
      have hlogs1 : Logs wh pl.cfg h h1 [] := .of_blocks rfl
      have hlen1 : (h.cur ++ [f]).length = h.cur.length + 1 := by
        rw [List.length_append, List.length_singleton]
      rw [show frags ++ f :: fs = (frags ++ [f]) ++ fs by rw [List.append_assoc]; rfl]
      have hlast' : ∀ g ∈ fs.getLast?, g.idx + 1 = g.total pl.cfg.symbolSize := by
        intro g hg
        apply hlast g
        rw [List.getLast?_cons, Option.mem_def.mp hg]
        rfl
      have hfnil : fs = [] → f.idx + 1 = f.total pl.cfg.symbolSize := by
        intro hnil
        rw [hnil] at hlast
        exact hlast f rfl
      by_cases hfull : h.cur.length + 1 = pl.cfg.k
      · -- the block is full: close it, tick, go on with an empty builder
        have hnext : fs = [] ∨ ∀ g ∈ f :: fs, pl.cfg.k < g.total pl.cfg.symbolSize := by
          rcases hfit with hle | hbig
          · rw [List.length_cons] at hle
            exact .inl (List.length_eq_zero_iff.mp (by omega))
          · exact .inr hbig
        have hends1 : EndsWell pl.cfg h1.cur := by
          refine endsWell_append ?_
          rcases hnext with hnil | hbig
          · exact .inl (hfnil hnil)
          · exact .inr (hbig f List.mem_cons_self)
        have hcfg1 : CodeOk pl1.cfg := hcfg
        obtain ⟨he0, hs2, hcount, h2, hc2, hcur, hlogs2⟩ :=
          encodeAndTick_spec clk hcfg1 hwh hc1 hb1 (hlen1.trans hfull) hends1
        rw [if_pos hfull] at hrc
        obtain ⟨hr, hcalls⟩ :=
          addFragments_full (fs.map (Frag.symbol pl.cfg.symbolSize)) hrc he0
        have hcfg2 : (tickAndDrainInterleaver clk (encodeAndReset wh clk pl1).2).cfg
            = pl.cfg := hs2.cfg
        rw [show r = _ from hr, List.map_cons, hcalls,
          show added clk pl (f.symbol pl.cfg.symbolSize) = pl1 from rfl]
        generalize tickAndDrainInterleaver clk (encodeAndReset wh clk pl1).2 = pl2
          at hs2 hcount hc2 hcfg2 ⊢
        rw [← hcfg2] at hcfg hwh hroom hlast' hnext ⊢
        obtain ⟨h5, h6, h', h7, h8⟩ := ih hcfg hwh hc2
          (by
            rw [hcur]
            exact ⟨hcount, fun i hi => absurd hi (Nat.not_lt_zero i)⟩)
          (by
            rw [hcur]
            exact Nat.lt_of_le_of_lt (Nat.zero_le _) hroom)
          (fun _ => by rw [hcur]; exact endsWell_nil _) hlast'
          (by
            rcases hnext with hnil | hbig
            · left
              rw [hnil, hcur]
              exact Nat.zero_le _
            · exact .inr fun g hg => hbig g (List.mem_cons_of_mem _ hg))
        have hlogs2' : Logs wh pl.cfg h1 h2 [pl1] := hlogs2
        rw [← hcfg2] at hlogs1 hlogs2'
        exact ⟨h5, (hs1.trans hs2).trans h6, h', h7, hlogs1.trans (hlogs2'.trans h8)⟩
      · rw [if_neg hfull] at hrc
        -- room is left: the fragment joins the open block
        obtain ⟨hr, hcalls⟩ :=
          addFragments_more wh (fs.map (Frag.symbol pl.cfg.symbolSize)) hrc
        rw [show r = _ from hr, List.map_cons, hcalls]
        obtain ⟨h5, h6, h', h7, h8⟩ := @ih pl1 h1 (frags ++ [f]) hcfg hwh hc1 hb1
          (by
            show (h.cur ++ [f]).length < pl.cfg.k
            omega)
          (fun hnil => endsWell_append (.inl (hfnil hnil))) hlast'
          (by
            show (h.cur ++ [f]).length + fs.length ≤ pl.cfg.k ∨ _
            rw [List.length_cons] at hfit
            rcases hfit with hle | hbig
            · left
              omega
            · exact .inr fun g hg => hbig g (List.mem_cons_of_mem _ hg))
        exact ⟨h5, hs1.trans h6, h', h7, hlogs1.trans h8⟩

end FsoTxPipeline
