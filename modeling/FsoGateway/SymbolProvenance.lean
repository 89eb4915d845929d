import FsoGateway.LossSafety

/-! # Encoder and decoder see the same bytes

    The wire carries `payload_len` bytes of a symbol, the codec works on
    `symbol_size`.  Wherever the receiver has a symbol, in a slot or in a
    block it decodes, all of these bytes are the ones that `fec_encode_block`
    was given or made for it.

    * `same_bytes` — of every filled position of a slot, and of every pair
      that `fec_decode_block` feeds to the codec. -/

namespace FsoLink

open ByteBuffer FsoTypes ErasureCode FecWrapper FecRoundTrip FecAgreement FsoTxPipeline
  FsoRxPipeline FsoDeinterleaver

/-- Some call made for the block `id` was given, or made, the bytes `x` for
    symbol `i`. -/
def Encoded (cfg : Config) (log : List EncodeCall) (id : UInt32) (i : Nat)
    (x : List UInt8) : Prop :=
  ∃ c ∈ log, c.blockId = id ∧ c.bytes cfg i = x

/-! ## What is sent -/

/-- **A symbol sent** that is not padding carries the bytes of a call. -/
theorem sent_encoded {wh : Wirehair} {pl : TxPipeline} {h : TxHist}
    {log : List TxPipeline} (hi : RunInv wh pl)
    (hr : Rel wh pl h (allFrags pl.cfg.symbolSize pl.accepted))
    (hlog : Logged wh pl.cfg h log) {s : Symbol} (hs : s ∈ pl.sent)
    (her : isErasure s = false) :
    Encoded pl.cfg (log.map (encodeCall wh)) s.packetId s.fecId.toNat (bytes s.data pl.cfg.symbolSize) := by
  obtain ⟨-, ⟨h1, h2⟩ | ⟨j, b, c, hget, hc, rfl⟩⟩ := sent_cells hi hr s hs
  · rw [isErasure, h1, h2] at her
    exact nomatch her
  · have hb := encodedSymbol_block hi.cfg hi.recovers (blockIdOf j)
      (sourceSymbol pl.cfg.symbolSize b) hc
    have hj : j < log.length := by
      rw [hlog.length]
      exact (List.getElem?_eq_some_iff.mp hget).1
    have hcall := hlog.calls j b _ hget (List.getElem?_eq_getElem hj)
    refine ⟨_, List.mem_map_of_mem (List.getElem_mem hj), ?_, ?_⟩
    · rw [hcall.blockId, hb.packetId]
    · rw [hb.fecId, hcall.bytes c hc, hb.data]

/-! ## What is received -/

/-- The receiver has nothing but what was encoded. -/
structure Genuine (cfg : Config) (log : List EncodeCall) (pl : RxPipeline)
    (seen : UInt32 → List Symbol) : Prop where
  ok : RxOk pl seen
  config : pl.cfg = cfg
  seen : ∀ id, ∀ x ∈ seen id,
    Encoded cfg log x.packetId x.fecId.toNat (bytes x.data cfg.symbolSize)
  drained : ∀ e ∈ pl.drained, ∀ p, p < cfg.k + cfg.m →
    isValid (e.blk.symbols p) = true →
    (e.blk.symbols p).fecId.toNat = p ∧
      Encoded cfg log e.blk.blockId.toUInt32 p
        (bytes (e.blk.symbols p).data cfg.symbolSize)

section Genuine

variable {cfg : Config} {log : List EncodeCall} {pl : RxPipeline}
  {seen : UInt32 → List Symbol}

/-- **A filled position** of a slot holds the bytes of a call for its block. -/
theorem Genuine.stored (h : Genuine cfg log pl seen) {i : Nat}
    (hi : i < pl.dil.maxActiveBlocks) (hst : (pl.dil.slots i).state ≠ .empty) {p : Nat}
    (hp : p < cfg.k + cfg.m)
    (ht : Bitset.test (pl.dil.slots i).receivedMask p = true) :
    ((pl.dil.slots i).block.symbols p).fecId.toNat = p ∧
      Encoded cfg log (pl.dil.slots i).blockId p
        (bytes ((pl.dil.slots i).block.symbols p).data cfg.symbolSize) := by
  have hc := (h.ok.pool.slot i hi hst).content
  rw [h.ok.shape.n, h.ok.shape.symbolSize, h.config] at hc
  obtain ⟨first, hf, hid, -, hclip⟩ := hc.stored p hp ht
  have hat := List.find?_some hf
  have hfec : first.fecId.toNat = p := eq_of_beq hat
  have hfirst := h.seen _ first (List.mem_of_find?_eq_some hf)
  rw [hid, hfec] at hfirst
  constructor
  · rw [(header_eq_of_clip _ hclip).2.1]
    exact hfec
  · rw [← bytes_clipSymbol, hclip, bytes_clipSymbol]
    exact hfirst

/-- A call changes nothing of this: what is pushed was encoded. -/
theorem genuine_closed (wh : Wirehair) (cfg : Config) (log : List EncodeCall) :
    StepClosed wh (Genuine cfg log) fun _ s => isErasure s = false →
      Encoded cfg log s.packetId s.fecId.toNat (bytes s.data cfg.symbolSize) where
  pool := fun h => h.ok.pool
  tick := fun now h => ⟨(rxOk_closed wh).tick now h.ok, h.config, h.seen, h.drained⟩
  crcDrop := fun h => ⟨(rxOk_closed wh).crcDrop h.ok, h.config, h.seen, h.drained⟩
  push := by
    intro pl seen sym now hsym h
    refine ⟨(rxOk_closed wh).push sym now trivial h.ok, h.config, ?_, h.drained⟩
    intro id x hx
    rw [seenStep] at hx
    by_cases hacc : isAccepted pl.dil sym = true
    · have her : isErasure sym = false := by
        rw [isAccepted, Bool.and_eq_true, Bool.not_eq_true'] at hacc
        exact hacc.1
      rw [if_pos hacc] at hx
      by_cases hid : id = sym.packetId
      · rw [hid, Function.update_self] at hx
        split at hx
        · rw [List.mem_singleton.mp hx]
          exact hsym her
        · rcases List.mem_append.mp hx with hold | hnew
          · exact h.seen _ x hold
          · rw [List.mem_singleton.mp hnew]
            exact hsym her
      · rw [Function.update_of_ne hid] at hx
        exact h.seen id x hx
    · rw [if_neg hacc] at hx
      exact h.seen id x hx
  drain := by
    intro pl seen i h hi hst
    have hok := (rxOk_closed wh).drain h.ok hi hst
    rw [drainBlock_spec wh h.ok.pool hi hst] at hok ⊢
    refine ⟨hok, h.config, h.seen, ?_⟩
    intro e he p hp hv
    rcases List.mem_append.mp he with hold | hnew
    · exact h.drained e hold p hp hv
    · rw [List.mem_singleton.mp hnew] at hv ⊢
      -- a position that is not a hole is one that was filled
      have hc := (h.ok.pool.slot i hi (ready_ne_empty hst)).content
      rw [h.ok.shape.n, h.config] at hc
      have ht : Bitset.test (pl.dil.slots i).receivedMask p = true := by
        cases ht : Bitset.test (pl.dil.slots i).receivedMask p with
        | true => rfl
        | false =>
            have hv' : isValid ((pl.dil.slots i).block.symbols p) = true := hv
            rw [isValid, hc.hole p hp ht] at hv'
            cases hv'
      have hb : (pl.dil.slots i).block.blockId.toUInt32 = (pl.dil.slots i).blockId := by
        rw [hc.blockId]
        exact UInt32.toUInt32_toUInt64 _
      have hres := h.stored hi (ready_ne_empty hst) hp ht
      rw [← hb] at hres
      exact hres

end Genuine

/-! ## Runs -/

/-- The empty history has no calls. -/
theorem logged_nil (wh : Wirehair) (cfg : Config) {h : TxHist} (hb : h.blocks = []) :
    Logged wh cfg h [] := by
  constructor
  · rw [hb]
    rfl
  · intro j b c _ hc
    exact nomatch hc

/-- **Encoder and decoder see the same bytes.**  Whatever frames were accepted
    and whatever part of the wire frames arrives, in any order and any number
    of times: every filled position `p` of a slot holds, and every pair
    `(p, x)` that `fec_decode_block` feeds to the codec is, the `symbol_size`
    bytes of symbol `p` in a call of `fec_encode_block` for that block.  Below
    `2 ^ 32` blocks there is one such call for a block. -/
theorem same_bytes (wh : Wirehair) (clk : Nat → Nat) (mem : Nat → Nat → Symbol)
    (lanMac : List UInt8) (rxMem : Buffer) (cfg : Config) (tx0 : TxPipeline)
    (rx0 : RxPipeline) (htx : txPipelineCreate mem lanMac cfg = some tx0)
    (hrx : rxPipelineCreate rxMem cfg = some rx0)
    (hss : cfg.symbolSize ≤ maxSymbolDataSize)
    (hwh : Encodes wh.encoding cfg.k (cfg.k + cfg.m) cfg.symbolSize)
    (evs : List TxEvent) (calls : List RxCall) :
    let tx := (txRun wh clk evs tx0).2
    let rx := rxRun wh calls rx0
    let log := encodesRun wh clk evs tx0
    (∀ wire ∈ receivedFrames calls, wire ∈ wireFrames tx) →
    (∀ i, i < rx.dil.maxActiveBlocks → (rx.dil.slots i).state ≠ .empty →
      ∀ p, p < cfg.k + cfg.m → Bitset.test (rx.dil.slots i).receivedMask p = true →
      Encoded cfg log (rx.dil.slots i).blockId p
        (bytes ((rx.dil.slots i).block.symbols p).data cfg.symbolSize)) ∧
    (∀ e ∈ rx.drained, ∀ p x,
      (p, x) ∈ feedPairs e.blk.symbols cfg.symbolSize
        (feedSlots e.blk.symbols (cfg.k + cfg.m) cfg.k) →
      p < cfg.k + cfg.m ∧ Encoded cfg log e.blk.blockId.toUInt32 p x) ∧
    (tx.blocksBuilt < 2 ^ 32 → ∀ c ∈ log, ∀ c' ∈ log, c.blockId = c'.blockId → c = c') := by
  intro tx rx log hcalls
  have hcfg := rxCreate_cfgOk hrx hss
  have hrepair := hcfg.repair
  obtain ⟨hinit, hcfg0, -⟩ := runInv_create htx (by omega) hss hwh
  obtain ⟨-, hi, htxcfg⟩ := runInv_run clk evs hinit
  obtain ⟨h0, hr0⟩ := hinit.hist
  have hb0 : h0.blocks = [] := by
    have hbuilt := create_blocksBuilt htx
    rw [hr0.core.built] at hbuilt
    exact List.length_eq_zero_iff.mp hbuilt
  obtain ⟨h, hr, hlogs⟩ := logs_run clk evs hinit hr0
  have hlog : Logged wh tx0.cfg h ([] ++ callsRun wh clk evs tx0) :=
    hlogs [] (logged_nil wh _ hb0)
  rw [List.nil_append, ← htxcfg] at hlog
  -- the receiver parses what was sent back into the symbols it was made of
  have hwire : ∀ s ∈ tx.sent, WireOk cfg s := by
    intro s hs
    rw [← hcfg0, ← htxcfg]
    exact (sent_cells hi hr s hs).1
  obtain ⟨hok, hrxcfg, hdrained, -⟩ := rxOk_create hrx
  have hstart : Genuine cfg log rx0 fun _ => [] :=
    ⟨hok, hrxcfg, fun _ x hx => (nomatch hx), fun e he => by
      rw [hdrained] at he
      exact nomatch he⟩
  have hbrings : ∀ pre call post, calls = pre ++ call :: post →
      Brings (rxRun wh pre rx0) call fun _ s => isErasure s = false →
        Encoded cfg log s.packetId s.fecId.toNat (bytes s.data cfg.symbolSize) := by
    intro pre call post heq wire sym he hf her
    have hsent := brings_sent hss hwire hcalls hrxcfg pre call post heq wire sym he hf
    have henc := sent_encoded hi hr hlog hsent her
    rw [htxcfg, hcfg0] at henc
    exact henc
  obtain ⟨seen, hgen⟩ := (genuine_closed wh cfg log).run calls hstart hbrings
  refine ⟨?_, ?_, ?_⟩
  · intro i hi' hst p hp ht
    exact (hgen.stored hi' hst hp ht).2
  · intro e he p x hpx
    obtain ⟨q, hq, heq⟩ := List.mem_map.mp hpx
    obtain ⟨hlt, hv⟩ := mem_feedSlots.mp hq
    obtain ⟨hfec, henc⟩ := hgen.drained e he q hlt hv
    rw [hfec] at heq
    cases heq
    exact ⟨hlt, henc⟩
  · intro hlt c hc c' hc' hid
    obtain ⟨a, ha, rfl⟩ := List.mem_map.mp hc
    obtain ⟨a', ha', rfl⟩ := List.mem_map.mp hc'
    obtain ⟨i, hilt, rfl⟩ := List.mem_iff_getElem.mp ha
    obtain ⟨j, hjlt, rfl⟩ := List.mem_iff_getElem.mp ha'
    -- block ids repeat only after `2 ^ 32` blocks
    have hbound : h.blocks.length < 2 ^ 32 := by
      rw [← hr.core.built]
      exact hlt
    have hlen := hlog.length
    have hcall := fun (q : Nat) (hq : q < (callsRun wh clk evs tx0).length) =>
      (hlog.calls q _ _ (List.getElem?_eq_getElem (by omega))
        (List.getElem?_eq_getElem hq)).blockId
    rw [hcall i hilt, hcall j hjlt] at hid
    have hij : i = j := by
      rcases Nat.le_total i j with hle | hle
      · exact blockIdOf_inj hid hle (by omega)
      · exact (blockIdOf_inj hid.symm hle (by omega)).symm
    subst hij
    rfl

/-- The second of two blocks loses its first symbol; the codec is fed its other
    two, the padded frame `21 22` only through the repair symbol. -/
theorem same_bytes_lossyTwo :
    ((rxRun parity (lossyTwo [21, 22]) plainReceiver).drained.map fun e =>
        feedPairs e.blk.symbols 4 (feedSlots e.blk.symbols 3 2))
      = [[(0, [1, 2, 3, 4]), (1, [5, 6, 7, 8]), (2, [4, 4, 4, 12])],
        [(1, [9, 10, 11, 12]), (2, [28, 28, 11, 12])]] ∧
    ∀ e ∈ (rxRun parity (lossyTwo [21, 22]) plainReceiver).drained, ∀ p x,
      (p, x) ∈ feedPairs e.blk.symbols 4 (feedSlots e.blk.symbols 3 2) →
      p < 3 ∧ Encoded plainLink
        (encodesRun parity (fun t => t) [.frame [1, 2, 3, 4] false,
          .frame [5, 6, 7, 8] false, .frame [21, 22] false,
          .frame [9, 10, 11, 12] false] plainSender) e.blk.blockId.toUInt32 p x := by
  refine ⟨by decide +kernel, ?_⟩
  exact (same_bytes parity (fun t => t) (fun _ _ => symbolInit) [] (fun _ => 0)
    plainLink plainSender plainReceiver (Option.some_get _).symm (Option.some_get _).symm
    (by decide) (parity_recovers 4).toEncodes _ (lossyTwo [21, 22])
    (by decide +kernel)).2.1

end FsoLink
