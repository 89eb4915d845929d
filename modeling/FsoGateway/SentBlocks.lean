import FsoGateway.WireFormat

/-! # What was sent

    The receiver sees the transmitter through the symbols that were sent.
    `SentBlocks` says what these are: padding, or the symbols of blocks that
    are cut out of the fragments of the accepted frames.  It holds of every run
    of the TX pipeline with fewer than `2 ^ 32` blocks (`sentBlocks_run`).

    A block that has the first fragment of a frame goes on with its other
    fragments, as far as it goes (`follows_get`). -/

namespace FsoLink

open ByteBuffer FsoTypes ErasureCode FecWrapper FsoTxPipeline FsoRxPipeline FsoInterleaver
  PacketFragmenter SymbolCrc

/-- Behind a fragment that is not the last of its frame stands the next one. -/
def Follows (ss : Nat) (f g : Frag) : Prop :=
  f.idx + 1 < f.total ss → g = ⟨f.number, f.pkt, f.idx + 1⟩

/-- **What was sent** for the blocks built so far. -/
structure SentBlocks (wh : Wirehair) (cfg : Config) (accepted : List (List UInt8))
    (sent : List Symbol) (blocks : List (List Frag)) : Prop where
  bound : blocks.length < 2 ^ 32
  accepted : ∀ b ∈ blocks, ∀ f ∈ b, f.pkt ∈ accepted
  frags : ∀ b ∈ blocks, ∀ f ∈ b, FragOk cfg.symbolSize f
  follows : ∀ b ∈ blocks, b.IsChain (Follows cfg.symbolSize)
  short : ∀ b ∈ blocks, b.length ≤ cfg.k
  cells : ∀ s ∈ sent, (s.packetId = 0 ∧ s.payloadLen = 0) ∨
    ∃ j b c, blocks[j]? = some b ∧ c < cfg.k + cfg.m ∧
      s = encodedSymbol wh cfg (blockIdOf j) (sourceSymbol cfg.symbolSize b) c
  wireOk : ∀ s ∈ sent, WireOk cfg s

/-! ## The fragments of the accepted frames -/

theorem allFrags_mem {ss : Nat} {accepted : List (List UInt8)} {f : Frag}
    (h : f ∈ allFrags ss accepted) : f.pkt ∈ accepted ∧ f.idx < f.total ss := by
  obtain ⟨⟨pkt, number⟩, hp, hf⟩ := List.mem_flatMap.mp h
  obtain ⟨i, hi, rfl⟩ := List.mem_map.mp hf
  exact ⟨List.fst_mem_of_mem_zipIdx hp, List.mem_range.mp hi⟩

/-- The fragments of one frame follow each other. -/
theorem fragsOf_follows (ss number : Nat) (pkt : List UInt8) :
    (fragsOf ss number pkt).IsChain (Follows ss) := by
  rw [fragsOf, List.isChain_map, List.isChain_range]
  intro i _ _
  rfl

theorem allFrags_last {ss : Nat} {accepted : List (List UInt8)} {f : Frag}
    (h : f ∈ (allFrags ss accepted).getLast?) : f.idx + 1 = f.total ss := by
  induction accepted using List.reverseRecOn with
  | nil => exact nomatch h
  | append_singleton accepted pkt ih =>
      rw [allFrags_append, List.getLast?_append] at h
      cases hl : (fragsOf ss accepted.length pkt).getLast? with
      | none =>
          rw [hl] at h
          exact ih h
      | some f' =>
          rw [hl] at h
          obtain rfl : f' = f := Option.some.inj h
          exact fragsOf_last hl

theorem allFrags_follows (ss : Nat) (accepted : List (List UInt8)) :
    (allFrags ss accepted).IsChain (Follows ss) := by
  induction accepted using List.reverseRecOn with
  | nil => exact List.isChain_nil
  | append_singleton accepted pkt ih =>
      rw [allFrags_append, List.isChain_append]
      refine ⟨ih, fragsOf_follows _ _ _, ?_⟩
      intro f hf g _ hlt
      have hlast := allFrags_last hf
      omega

/-! ## The symbols sent -/

/-- A symbol of a window is a cell of one of its rows, or padding. -/
theorem windowSymbols_cases {cfg : Config} {rows : List Row}
    (hle : rows.length ≤ cfg.depth) {s : Symbol} (hs : s ∈ windowSymbols cfg rows) :
    ∃ c, c < cfg.k + cfg.m ∧
      ((∃ row ∈ rows, s = clipSymbol cfg.symbolSize (row.cells c)) ∨
        s = clipSymbol cfg.symbolSize
          ((padRow (cfg.k + cfg.m) cfg.symbolSize).cells c)) := by
  obtain ⟨p, hget⟩ := List.mem_iff_getElem?.mp hs
  obtain ⟨hp, rfl⟩ := windowSymbols_getElem hget
  have hd : 0 < cfg.depth := Nat.pos_of_lt_mul_right hp
  refine ⟨p / cfg.depth, Nat.div_lt_of_lt_mul hp, ?_⟩
  rw [windowSymbol_eq hle hd]
  by_cases h : p % cfg.depth < rows.length
  · rw [dif_pos h]
    exact .inl ⟨_, List.getElem_mem h, rfl⟩
  · rw [dif_neg h]
    exact .inr rfl

section Cells

variable {wh : Wirehair} {pl : TxPipeline} {h : TxHist}

/-- The fragments of a block follow each other in the stream. -/
theorem infix_of_block (hr : Rel wh pl h (allFrags pl.cfg.symbolSize pl.accepted))
    {b : List Frag} (hb : b ∈ h.blocks) :
    b <:+: allFrags pl.cfg.symbolSize pl.accepted := by
  rw [← hr.core.frags]
  exact (List.infix_of_mem_flatten hb).trans (List.infix_append' [] _ _)

theorem block_frag (hi : RunInv wh pl)
    (hr : Rel wh pl h (allFrags pl.cfg.symbolSize pl.accepted)) {b : List Frag}
    {f : Frag} (hb : b ∈ h.blocks) (hf : f ∈ b) :
    f.pkt ∈ pl.accepted ∧ FragOk pl.cfg.symbolSize f := by
  obtain ⟨h1, h2⟩ := allFrags_mem ((infix_of_block hr hb).subset hf)
  exact ⟨h1, h2, hi.lengths f.pkt h1⟩

/-- **A symbol sent** is padding, or a symbol of a block. -/
theorem sent_cells (hi : RunInv wh pl)
    (hr : Rel wh pl h (allFrags pl.cfg.symbolSize pl.accepted)) :
    ∀ s ∈ pl.sent, WireOk pl.cfg s ∧ ((s.packetId = 0 ∧ s.payloadLen = 0) ∨
      ∃ j b c, h.blocks[j]? = some b ∧ c < pl.cfg.k + pl.cfg.m ∧
        s = encodedSymbol wh pl.cfg (blockIdOf j)
          (sourceSymbol pl.cfg.symbolSize b) c) := by
  have hc := hr.core
  intro s hs
  rw [hc.sent] at hs
  obtain ⟨w, hw, hsw⟩ := List.mem_flatMap.mp hs
  obtain ⟨c, hcn, ⟨row, hrow, rfl⟩ | rfl⟩ := windowSymbols_cases (hc.windows w hw).2 hsw
  · have hall : row ∈ h.allRows wh pl.cfg := by
      rw [← hc.rows]
      exact List.mem_append_left _ (List.mem_flatten.mpr ⟨w, hw, hrow⟩)
    obtain ⟨⟨b, j⟩, hp, rfl⟩ := List.mem_map.mp hall
    have hget := List.mem_zipIdx_iff_getElem?.mp hp
    have hok := encodedSymbol_wireOk hi.cfg hi.recovers (blockIdOf j)
      (fun f hf => (block_frag hi hr (List.mem_of_getElem? hget) hf).2) hcn
    have heq : clipSymbol pl.cfg.symbolSize ((blockRow wh pl.cfg j b).cells c) = _ :=
      wireOk_clip hok
    rw [heq]
    exact ⟨hok, .inr ⟨j, b, c, hget, hcn, rfl⟩⟩
  · obtain ⟨h1, h2, -⟩ := padCell pl.cfg c
    exact ⟨padCell_wireOk pl.cfg c, .inl ⟨h1, h2⟩⟩

end Cells

/-- **What was sent** in a run. -/
theorem sentBlocks_run {wh : Wirehair} {pl : TxPipeline} {h : TxHist}
    (hi : RunInv wh pl) (hr : Rel wh pl h (allFrags pl.cfg.symbolSize pl.accepted))
    (hlt : pl.blocksBuilt < 2 ^ 32) :
    SentBlocks wh pl.cfg pl.accepted pl.sent h.blocks := by
  have hc := hr.core
  have hpart := fun b hb => infix_of_block hr (b := b) hb
  have hmem := fun b hb f hf => block_frag hi hr (b := b) (f := f) hb hf
  have hcell := sent_cells hi hr
  exact
    { bound := by rw [← hc.built]; exact hlt
      accepted := fun b hb f hf => (hmem b hb f hf).1
      frags := fun b hb f hf => (hmem b hb f hf).2
      follows := fun b hb => List.IsChain.infix (allFrags_follows _ _) (hpart b hb)
      short := fun b hb => (hc.blocks b hb).2.1
      cells := fun s hs => (hcell s hs).2
      wireOk := fun s hs => (hcell s hs).1 }

/-- The symbols with one id, other than that of padding, are those of one block. -/
theorem SentBlocks.ofId {wh : Wirehair} {cfg : Config} {accepted : List (List UInt8)}
    {sent : List Symbol} {blocks : List (List Frag)}
    (h : SentBlocks wh cfg accepted sent blocks) (hcfg : CfgOk cfg)
    (hwh : Encodes wh.encoding cfg.k (cfg.k + cfg.m) cfg.symbolSize) {id : UInt32} (hid : id ≠ 0)
    (hex : ∃ s ∈ sent, s.packetId = id) :
    ∃ j b, blocks[j]? = some b ∧ id = blockIdOf j ∧
      ∀ s ∈ sent, s.packetId = id → s.fecId.toNat < cfg.k + cfg.m ∧
        s = encodedSymbol wh cfg id (sourceSymbol cfg.symbolSize b) s.fecId.toNat := by
  have hcase : ∀ s ∈ sent, s.packetId = id → ∃ j b, blocks[j]? = some b ∧
      id = blockIdOf j ∧ s.fecId.toNat < cfg.k + cfg.m ∧
      s = encodedSymbol wh cfg id (sourceSymbol cfg.symbolSize b) s.fecId.toNat := by
    intro s hs hsid
    rcases h.cells s hs with ⟨h1, -⟩ | ⟨j, b, c, hget, hc, heq⟩
    · exact absurd (hsid.symm.trans h1) hid
    · have hb := encodedSymbol_block hcfg hwh (blockIdOf j)
        (sourceSymbol cfg.symbolSize b) hc
      rw [← heq] at hb
      have hj : id = blockIdOf j := hsid.symm.trans hb.packetId
      refine ⟨j, b, hget, hj, by rw [hb.fecId]; exact hc, ?_⟩
      rw [hb.fecId, hj]
      exact heq
  obtain ⟨s0, hs0, hid0⟩ := hex
  obtain ⟨j, b, hget, hj, -⟩ := hcase s0 hs0 hid0
  refine ⟨j, b, hget, hj, fun s hs hsid => ?_⟩
  obtain ⟨j', b', hget', hj', h1, h2⟩ := hcase s hs hsid
  have hbound := h.bound
  have hlt := (List.getElem?_eq_some_iff.mp hget).1
  have hlt' := (List.getElem?_eq_some_iff.mp hget').1
  have hjj : j = j' := by
    rcases Nat.le_total j j' with hle | hle
    · exact blockIdOf_inj (hj.symm.trans hj') hle (by omega)
    · exact (blockIdOf_inj (hj'.symm.trans hj) hle (by omega)).symm
  subst hjj
  obtain rfl : b = b' := Option.some.inj (hget.symm.trans hget')
  exact ⟨h1, h2⟩

/-- A symbol with the id 0 is padding. -/
theorem SentBlocks.padding {wh : Wirehair} {cfg : Config} {accepted : List (List UInt8)}
    {sent : List Symbol} {blocks : List (List Frag)}
    (h : SentBlocks wh cfg accepted sent blocks) (hcfg : CfgOk cfg)
    (hwh : Encodes wh.encoding cfg.k (cfg.k + cfg.m) cfg.symbolSize) {s : Symbol}
    (hs : s ∈ sent) (hid : s.packetId = 0) : s.payloadLen = 0 := by
  rcases h.cells s hs with ⟨-, hlen⟩ | ⟨j, b, c, hget, hc, heq⟩
  · exact hlen
  · have hlt := (List.getElem?_eq_some_iff.mp hget).1
    have hbound := h.bound
    have hb := (encodedSymbol_block hcfg hwh (blockIdOf j)
      (sourceSymbol cfg.symbolSize b) hc).packetId
    rw [← heq, hid] at hb
    have h1 := congrArg UInt32.toNat hb
    rw [blockIdOf_toNat (by omega)] at h1
    exact absurd h1 (show ¬ 0 = j + 1 by omega)

/-- **A block that has a fragment goes on with the next ones** of the frame, as
    far as it goes. -/
theorem follows_get {ss : Nat} {b : List Frag} (h : b.IsChain (Follows ss)) {p : Nat}
    {f : Frag} (hf : b[p]? = some f) {j : Nat} (hj : f.idx + j < f.total ss)
    (hlt : p + j < b.length) : b[p + j]? = some ⟨f.number, f.pkt, f.idx + j⟩ := by
  induction j with
  | zero => exact hf
  | succ j ih =>
      have hprev := ih (by omega) (by omega)
      obtain ⟨hlt', hget⟩ := List.getElem?_eq_some_iff.mp hprev
      have hstep := List.isChain_iff_getElem.mp h (p + j) (by omega)
      rw [hget] at hstep
      have h1 := hstep hj
      exact List.getElem?_eq_some_iff.mpr ⟨hlt, h1⟩

end FsoLink
