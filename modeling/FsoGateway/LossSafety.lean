import FsoGateway.FecAgreement
import FsoGateway.Recoverability
import FsoGateway.SentBlocks

/-! # Safety over a lossy link

    Any subset of the wire frames may be lost, the others arrive in order, at
    any times.  The bytes of a drained block are always those that were sent;
    what the walk makes of them depends on the headers in the slot, and at a
    lost position that is the header of an earlier block.

    * `ready_decodes` — a READY block is decoded to what was sent;
    * `lan_frames_accepted` — as long as every complete group of every drained
      block is the fragments of one frame, or is refused by the reassembler,
      every frame sent to the LAN was accepted by the transmitter;
    * `stale_header_corrupts` — a frame that was never accepted is sent
      otherwise. -/

namespace FsoLink

open ByteBuffer FsoTypes ErasureCode FecWrapper FecRoundTrip FecAgreement FsoTxPipeline
  FsoRxPipeline PacketFragmenter PacketReassembler FsoDeinterleaver

/-! ## Groups that are refused -/

theorem copySymbols_blank (base maxSize : Nat) (l : List Symbol) (len : Nat)
    (out out' : Buffer) :
    (copySymbols base maxSize (l.map blank) len out).1
      = (copySymbols base maxSize l len out').1 := by
  induction l generalizing len out out' with
  | nil => rfl
  | cons s l ih =>
      rw [List.map_cons, copySymbols, copySymbols]
      show (if maxSize < s.symbolIndex.toNat * base + s.payloadLen.toNat then _
        else _ : Int × Buffer).1 = _
      by_cases hbig : maxSize < s.symbolIndex.toNat * base + s.payloadLen.toNat
      · rw [if_pos hbig]
        simp only [if_pos hbig]
      · rw [if_neg hbig]
        simp only [if_neg hbig]
        exact ih _ _ _

/-- What the reassembler returns does not depend on the bytes. -/
theorem reassemblePacket_blank (l : List Symbol) (out out' : Buffer) (maxSize : Nat) :
    (reassemblePacket (l.map blank) out maxSize).1 = (reassemblePacket l out' maxSize).1 := by
  cases l with
  | nil => rfl
  | cons s l =>
      have hbase := inferBase_blank s.packetId s.totalSymbols (s :: l)
      have hcopy := fun base => copySymbols_blank base maxSize (s :: l) 0
        (memzero out maxSize) (memzero out' maxSize)
      have hlen : ((s :: l).map blank).length = (s :: l).length := List.length_map _
      rw [List.map_cons] at hbase hcopy hlen ⊢
      rw [reassemblePacket, reassemblePacket, hlen,
        show (blank s).totalSymbols = s.totalSymbols from rfl,
        show (blank s).packetId = s.packetId from rfl, hbase]
      by_cases h0 : s.totalSymbols = 0
      · rw [if_pos h0, if_pos h0]
      rw [if_neg h0, if_neg h0]
      by_cases hl : (s :: l).length ≠ s.totalSymbols.toNat
      · rw [if_pos hl, if_pos hl]
      rw [if_neg hl, if_neg hl]
      cases inferBase s.packetId s.totalSymbols (s :: l) with
      | none => rfl
      | some b =>
          cases b with
          | none =>
              show (if maxSize < s.payloadLen.toNat then _ else _ : Int × Buffer).1 = _
              by_cases hbig : maxSize < s.payloadLen.toNat
              · simp only [if_pos hbig]
              · simp only [if_neg hbig]
                rfl
          | some base =>
              by_cases hz : base = 0
              · simp only [if_pos hz]
              · simp only [if_neg hz]
                exact hcopy _

theorem reassembled_blank {l l' : List Symbol} (h : l.map blank = l'.map blank)
    (hnil : reassembled l = []) : reassembled l' = [] := by
  rw [reassembled] at hnil ⊢
  refine if_neg fun hpos => ?_
  rw [← reassemblePacket_blank l' (fun _ => 0), ← h, reassemblePacket_blank] at hpos
  rw [if_pos hpos] at hnil
  cases hnil

theorem reassembled_count {l : List Symbol} {f : List UInt8} (h : f ∈ reassembled l) :
    ∃ first rest, l = first :: rest ∧ l.length = first.totalSymbols.toNat := by
  by_contra hnone
  have hn : ¬ 0 < (reassemblePacket l (fun _ => 0) reassemBufSize).1 :=
    fun hpos => hnone (reassemblePacket_count hpos)
  rw [reassembled, if_neg hn] at h
  cases h

/-! ## Clean blocks -/

/-- The positions from `p` on carried the fragments of a frame of `n`
    fragments, and the slot has the index and the length of each. -/
def CarriesFrame (sent : List Symbol) (blk : Block) (p n : Nat) : Prop :=
  ∀ j, j < n → ∃ s ∈ sent, s.packetId = blk.blockId.toUInt32 ∧ s.fecId.toNat = p + j ∧
    s.symbolIndex.toNat = j ∧ s.totalSymbols.toNat = n ∧
    (blk.symbols (p + j)).symbolIndex = s.symbolIndex ∧
    (blk.symbols (p + j)).payloadLen = s.payloadLen

instance (sent : List Symbol) (blk : Block) (p n : Nat) :
    Decidable (CarriesFrame sent blk p n) :=
  inferInstanceAs (Decidable (∀ j, j < n → ∃ s ∈ sent, _))

/-- A complete group of positions that sends a frame that was sent, or nothing. -/
def CleanGroup (symbolSize : Nat) (sent : List Symbol) (blk : Block) (ps : List Nat) :
    Prop :=
  (∃ p, ps = List.range' p ps.length ∧ CarriesFrame sent blk p ps.length) ∨
    reassembled (ps.map (reconstruct symbolSize blk.symbols fun _ => 0)) = []

/-- Every complete group of the walk over the block is clean. -/
def Clean (cfg : Config) (sent : List Symbol) (blk : Block) : Prop :=
  Grouped blk.symbols (CleanGroup cfg.symbolSize sent blk) false
    (walkedPositions cfg.k blk.symbols cfg.k)

/-! ## One drained block -/

section Ready

variable {wh : Wirehair} {accepted : List (List UInt8)} {sent : List Symbol}
  {blocks : List (List Frag)} {pl : RxPipeline} {seen : UInt32 → List Symbol}

/-- **A READY block is decoded** to the bytes of the TX block with its id, from
    which every symbol in the slot was sent. -/
theorem ready_decodes (hs : SentBlocks wh pl.cfg accepted sent blocks)
    (hcfg : CfgOk pl.cfg)
    (hwh : Recovers wh pl.cfg.k (pl.cfg.k + pl.cfg.m) pl.cfg.symbolSize)
    (hok : RxOk pl seen) (hseen : ∀ id, ∀ x ∈ seen id, x ∈ sent) {i : Nat}
    (hi : i < pl.dil.maxActiveBlocks) (hst : (pl.dil.slots i).state = .readyToDecode)
    (hid : (pl.dil.slots i).blockId ≠ 0) :
    ∃ b ∈ blocks,
      (∀ s ∈ sent, s.packetId = (pl.dil.slots i).blockId →
        s.fecId.toNat < pl.cfg.k + pl.cfg.m ∧
        s = encodedSymbol wh pl.cfg (pl.dil.slots i).blockId
          (sourceSymbol pl.cfg.symbolSize b) s.fecId.toNat) ∧
      (decoded wh pl (pl.dil.slots i).block).rc = fecDecodeOk ∧
      bytes (decoded wh pl (pl.dil.slots i).block).outReconstructed
          (pl.cfg.k * pl.cfg.symbolSize)
        = message pl.cfg (sourceSymbol pl.cfg.symbolSize b) := by
  have hslot := hok.pool.slot i hi (ready_ne_empty hst)
  have hc := hslot.content
  have hready := hslot.ready hst
  rw [hok.shape.n, hok.shape.k, hok.shape.symbolSize] at hc
  rw [hok.shape.k] at hready
  have hsource := hok.shape.source
  -- some position is filled
  have hex : ∃ s ∈ sent, s.packetId = (pl.dil.slots i).blockId := by
    have hpos : 0 < Bitset.count (pl.dil.slots i).receivedMask (pl.cfg.k + pl.cfg.m) := by
      rw [← hc.valid]
      omega
    rw [Bitset.count, List.countP_pos_iff] at hpos
    obtain ⟨p, hp, ht⟩ := hpos
    obtain ⟨first, hf, hfid, -⟩ := hc.stored p (List.mem_range.mp hp) ht
    exact ⟨first, hseen _ first (List.mem_of_find?_eq_some hf), hfid⟩
  obtain ⟨j, b, hb, -, hsent⟩ := hs.ofId hcfg hwh.toEncodes hid hex
  have hrec : Received wh pl.cfg (pl.dil.slots i).blockId (sourceSymbol pl.cfg.symbolSize b)
      (pl.dil.slots i).block := by
    refine ⟨hc.symbolsPerBlock, ?_, ?_⟩
    · rw [hc.symbolCount, hc.valid]
      exact Bitset.count_le _ _
    · intro p hp hv
      obtain ⟨first, hf, hfid, -, hclip⟩ :=
        hc.stored p hp ((valid_iff_test hc hid hp).mp hv)
      obtain ⟨-, heq⟩ := hsent first (hseen _ first (List.mem_of_find?_eq_some hf)) hfid
      have hat := List.find?_some hf
      have hfec : first.fecId.toNat = p := eq_of_beq hat
      rw [hclip, ← hfec, ← heq]
  refine ⟨b, List.mem_of_getElem? hb, hsent,
    decoded_message hcfg hwh hok.shape.fec hrec ?_⟩
  rw [count_valid hc hid]
  exact hready

/-- Block 0 sends nothing. -/
theorem ready_zero_fails (hok : RxOk pl seen) {i : Nat}
    (hi : i < pl.dil.maxActiveBlocks) (hst : (pl.dil.slots i).state = .readyToDecode)
    (hid : (pl.dil.slots i).blockId = 0) :
    (drainedOf wh pl (pl.dil.slots i).block).frames = [] := by
  have hc := (hok.pool.slot i hi (ready_ne_empty hst)).content
  rw [hok.shape.n, hok.shape.k, hok.shape.symbolSize] at hc
  have hsource := hok.shape.source
  have hle : (pl.dil.slots i).block.symbolCount ≤ pl.cfg.k + pl.cfg.m := by
    rw [hc.symbolCount, hc.valid]
    exact Bitset.count_le _ _
  have hfew : fecCountValidSymbols (pl.dil.slots i).block.symbols (pl.cfg.k + pl.cfg.m)
      < (FecCtx.mk pl.cfg.k pl.cfg.symbolSize).k := by
    rw [count_valid_of_zero hc hid]
    show 0 < pl.cfg.k
    omega
  have herr := fecDecodeBlock_insufficient wh hle
    (memzero pl.reconBuf (pl.cfg.k * pl.cfg.symbolSize)) hfew
  refine if_pos (.inr ?_)
  rw [decoded, hok.shape.fec, hc.symbolsPerBlock]
  exact herr

/-- **A group that carries a frame** is that frame: every position has a
    fragment of the block behind it. -/
theorem carried_group (hs : SentBlocks wh pl.cfg accepted sent blocks)
    (hcfg : CfgOk pl.cfg) {id : UInt32} {b : List Frag} (hb : b ∈ blocks)
    (hsent : ∀ s ∈ sent, s.packetId = id → s.fecId.toNat < pl.cfg.k + pl.cfg.m ∧
      s = encodedSymbol wh pl.cfg id (sourceSymbol pl.cfg.symbolSize b) s.fecId.toNat)
    {recon : Buffer}
    (hrec : bytes recon (pl.cfg.k * pl.cfg.symbolSize)
      = message pl.cfg (sourceSymbol pl.cfg.symbolSize b))
    {blk : Block} (hid : blk.blockId.toUInt32 = id) {p n : Nat} (hn : 0 < n)
    (hpn : p + n ≤ pl.cfg.k) (hcar : CarriesFrame sent blk p n)
    (htot : (blk.symbols p).totalSymbols.toNat = n) :
    ∃ pkt ∈ accepted, PacketGroup pl.cfg.symbolSize pkt
      ((List.range' p n).map (reconstruct pl.cfg.symbolSize blk.symbols recon)) := by
  have hss : 0 < pl.cfg.symbolSize := hcfg.symbolSize
  -- the fragment behind a position, and what the slot has of it
  have hfrag : ∀ j, j < n → ∃ f, b[p + j]? = some f ∧ f.idx = j ∧
      f.total pl.cfg.symbolSize = n ∧
      (blk.symbols (p + j)).symbolIndex.toNat = j ∧
      (blk.symbols (p + j)).payloadLen.toNat
        = fragmentLen f.pkt.length pl.cfg.symbolSize f.idx := by
    intro j hj
    obtain ⟨s, hsm, hsid, hfec, hidx, hstot, h1, h2⟩ := hcar j hj
    obtain ⟨-, heq⟩ := hsent s hsm (hsid.trans hid)
    rw [hfec] at heq
    obtain ⟨-, -, h3, h4, h5, -⟩ := encodedSymbol_source wh id
      (show p + j < pl.cfg.k by omega) (sourceSymbol pl.cfg.symbolSize b)
    rw [← heq] at h3 h4 h5
    cases hget : b[p + j]? with
    | none =>
        rw [h4, sourceSymbol, hget] at hstot
        exact absurd hstot (show ¬ 0 = n by omega)
    | some f =>
        have hok := hs.frags b hb f (List.mem_of_getElem? hget)
        obtain ⟨hf, hft, -⟩ := hok.symbol hcfg.symbolSize hcfg.fits
        rw [sourceSymbol_of hget] at h3 h4 h5
        rw [h3, hf.index] at hidx
        rw [h4, hft] at hstot
        refine ⟨f, rfl, hidx, hstot, ?_, ?_⟩
        · rw [h1, h3, hf.index, hidx]
        · rw [h2, h5, hf.len]
  obtain ⟨f0, hget0, hidx0, htot0, -⟩ := hfrag 0 hn
  have hmem := List.mem_of_getElem? hget0
  have hok := hs.frags b hb f0 hmem
  have hpos : 0 < f0.pkt.length := by
    have h1 := (fragmentCount_lt_iff hss).mp hok.idx
    rw [hidx0, Nat.zero_mul] at h1
    exact h1
  -- the fragments that follow are those of the same frame
  have hsame : ∀ j, j < n → b[p + j]? = some ⟨f0.number, f0.pkt, j⟩ := by
    intro j hj
    obtain ⟨f, hget, -⟩ := hfrag j hj
    have h1 := follows_get (hs.follows b hb) hget0 (j := j)
      (by rw [hidx0, htot0]; omega) (List.getElem?_eq_some_iff.mp hget).1
    rw [hidx0, Nat.zero_add] at h1
    exact h1
  have hlen : (List.range' p n).length = n := List.length_range'
  refine ⟨f0.pkt, hs.accepted b hb f0 hmem, hpos, hok.length, ?_, ?_, ?_⟩
  · rw [List.length_map, hlen]
    exact htot0.symm
  · intro s hs'
    rw [List.head?_map, List.head?_range', if_neg (by omega)] at hs'
    rw [← Option.some.inj hs']
    exact htot.trans htot0.symm
  · intro j hj
    rw [List.length_map, hlen] at hj
    rw [List.getElem_map, List.getElem_range', Nat.one_mul]
    obtain ⟨f, hget, hfidx, -, h1, h2⟩ := hfrag j hj
    obtain rfl : f = ⟨f0.number, f0.pkt, j⟩ :=
      Option.some.inj (hget.symm.trans (hsame j hj))
    exact reconstruct_fragment hcfg hrec (by omega) hget
      (hs.frags b hb _ (List.mem_of_getElem? hget)) h1 h2

/-- **A clean block** sends frames that were accepted. -/
theorem clean_frames (hs : SentBlocks wh pl.cfg accepted sent blocks)
    (hcfg : CfgOk pl.cfg)
    (hwh : Recovers wh pl.cfg.k (pl.cfg.k + pl.cfg.m) pl.cfg.symbolSize)
    (hok : RxOk pl seen) (hseen : ∀ id, ∀ x ∈ seen id, x ∈ sent) {i : Nat}
    (hi : i < pl.dil.maxActiveBlocks) (hst : (pl.dil.slots i).state = .readyToDecode)
    (hclean : Clean pl.cfg sent (pl.dil.slots i).block) :
    ∀ f ∈ (drainedOf wh pl (pl.dil.slots i).block).frames, f ∈ accepted := by
  intro f hf
  by_cases hid : (pl.dil.slots i).blockId = 0
  · rw [ready_zero_fails hok hi hst hid] at hf
    exact nomatch hf
  obtain ⟨b, hb, hsent, hrc, hrec⟩ := ready_decodes hs hcfg hwh hok hseen hi hst hid
  have hc := (hok.pool.slot i hi (ready_ne_empty hst)).content
  have hk : pl.cfg.k + pl.cfg.m ≤ 256 := hcfg.length
  have hblk : (pl.dil.slots i).block.blockId.toUInt32 = (pl.dil.slots i).blockId := by
    rw [hc.blockId]
    exact UInt32.toUInt32_toUInt64 _
  let sym := reconstruct pl.cfg.symbolSize (pl.dil.slots i).block.symbols
    (decoded wh pl (pl.dil.slots i).block).outReconstructed
  have hidx : ∀ q, (sym q).symbolIndex = ((pl.dil.slots i).block.symbols q).symbolIndex :=
    fun _ => rfl
  have hwalked := walkedPositions_length pl.cfg.k (pl.dil.slots i).block.symbols pl.cfg.k
  rw [drainedOf_frames hrc (show pl.cfg.k ≤ 256 by omega), walkSymbols_eq] at hf
  rcases fold_grouped hidx (fun _ => rfl) hclean walkOk_start (fun _ => rfl)
      (show _ ≤ 256 by omega) hf with hnil | ⟨run, hgood, hsub, hin⟩
  · exact nomatch hnil
  rcases hgood with ⟨p, hp, hcar⟩ | hrefused
  · have hne : run ≠ [] := by
      rintro rfl
      exact nomatch hin
    have hn := List.length_pos_of_ne_nil hne
    generalize run.length = n at hp hcar hn
    subst hp
    have hpn : p + n ≤ pl.cfg.k := by
      have hlast := hsub (p + (n - 1)) (List.mem_range'_1.mpr (by omega))
      have := List.mem_range.mp (List.mem_filter.mp hlast).1
      omega
    have htot : ((pl.dil.slots i).block.symbols p).totalSymbols.toNat = n := by
      obtain ⟨first, rest, hl, hcount⟩ := reassembled_count hin
      have hfirst := congrArg List.head? hl
      rw [List.head?_map, List.head?_range', if_neg (by omega)] at hfirst
      rw [List.length_map, List.length_range', ← Option.some.inj hfirst] at hcount
      exact hcount.symm
    obtain ⟨pkt, hpkt, hgroup⟩ :=
      carried_group hs hcfg hb hsent hrec hblk hn hpn hcar htot
    rw [hgroup.reassembled hcfg.symbolSize] at hin
    rw [List.mem_singleton.mp hin]
    exact hpkt
  · have hnil : reassembled (run.map (reconstruct pl.cfg.symbolSize
        (pl.dil.slots i).block.symbols
        (decoded wh pl (pl.dil.slots i).block).outReconstructed)) = [] := by
      refine reassembled_blank ?_ hrefused
      rw [List.map_map, List.map_map]
      rfl
    rw [hnil] at hin
    exact nomatch hin

end Ready

/-! ## Runs -/

/-- The wire frame that a call brings in. -/
def receivedFrame (call : RxCall) : Option (List UInt8) :=
  match call.event with
  | .frame wire => some wire
  | _ => none

/-- The wire frames that arrive, in order. -/
def receivedFrames (calls : List RxCall) : List (List UInt8) :=
  calls.filterMap receivedFrame

/-- A symbol that arrives was sent. -/
theorem brings_sent {wh : Wirehair} {cfg : Config} {sent : List Symbol}
    (hfits : cfg.symbolSize ≤ maxSymbolDataSize) (hwire : ∀ s ∈ sent, WireOk cfg s)
    {calls : List RxCall}
    (hcalls : ∀ wire ∈ receivedFrames calls, wire ∈ sent.map serializeSymbol)
    {pl : RxPipeline} (hcfg : pl.cfg = cfg) :
    ∀ pre call post, calls = pre ++ call :: post →
      Brings (rxRun wh pre pl) call fun _ s => s ∈ sent := by
  intro pre call post heq wire sym he hf
  have hin : wire ∈ receivedFrames calls := by
    refine List.mem_filterMap.mpr ⟨call, by rw [heq]; simp, ?_⟩
    rw [receivedFrame, he]
  obtain ⟨s, hs, rfl⟩ := List.mem_map.mp (hcalls wire hin)
  rw [run_cfg, hcfg, parseFrame_serialize hfits (hwire s hs)] at hf
  rw [← Parsed.symbol.inj hf]
  exact hs

/-- Only sent symbols were seen, and every clean block that was drained sent
    accepted frames. -/
structure Safe (cfg : Config) (accepted : List (List UInt8)) (sent : List Symbol)
    (pl : RxPipeline) (seen : UInt32 → List Symbol) : Prop where
  ok : RxOk pl seen
  config : pl.cfg = cfg
  seen : ∀ id, ∀ x ∈ seen id, x ∈ sent
  drained : ∀ e ∈ pl.drained, Clean cfg sent e.blk → ∀ f ∈ e.frames, f ∈ accepted

theorem seenStep_sent {sent : List Symbol} {seen : UInt32 → List Symbol}
    (h : ∀ id, ∀ x ∈ seen id, x ∈ sent) (d : Deinterleaver) {sym : Symbol} (now : Nat)
    (hs : sym ∈ sent) : ∀ id, ∀ x ∈ seenStep d seen (.push sym now) id, x ∈ sent := by
  intro id x hx
  rw [seenStep] at hx
  by_cases hacc : isAccepted d sym = true
  · rw [if_pos hacc] at hx
    by_cases hid : id = sym.packetId
    · rw [hid, Function.update_self] at hx
      split at hx
      · rw [List.mem_singleton.mp hx]
        exact hs
      · rcases List.mem_append.mp hx with hx | hx
        · exact h _ x hx
        · rw [List.mem_singleton.mp hx]
          exact hs
    · rw [Function.update_of_ne hid] at hx
      exact h id x hx
  · rw [if_neg hacc] at hx
    exact h id x hx

theorem safe_closed {wh : Wirehair} {cfg : Config} {accepted : List (List UInt8)}
    {sent : List Symbol} {blocks : List (List Frag)}
    (hs : SentBlocks wh cfg accepted sent blocks) (hcfg : CfgOk cfg)
    (hwh : Recovers wh cfg.k (cfg.k + cfg.m) cfg.symbolSize) :
    StepClosed wh (Safe cfg accepted sent) fun _ s => s ∈ sent where
  pool := fun h => h.ok.pool
  tick := fun now h => ⟨(rxOk_closed wh).tick now h.ok, h.config, h.seen, h.drained⟩
  crcDrop := fun h => ⟨(rxOk_closed wh).crcDrop h.ok, h.config, h.seen, h.drained⟩
  push := fun sym now hsym h =>
    ⟨(rxOk_closed wh).push sym now trivial h.ok, h.config,
      seenStep_sent h.seen _ now hsym, h.drained⟩
  drain := by
    intro pl seen i h hi hst
    have hok := (rxOk_closed wh).drain h.ok hi hst
    rw [drainBlock_spec wh h.ok.pool hi hst] at hok ⊢
    refine ⟨hok, h.config, h.seen, fun e he hclean => ?_⟩
    rcases List.mem_append.mp he with hold | hnew
    · exact h.drained e hold hclean
    · rw [List.mem_singleton.mp hnew] at hclean ⊢
      have hpl := h.config
      subst hpl
      exact clean_frames hs hcfg hwh h.ok h.seen hi hst hclean

/-- **Safety under loss.**  Whatever the transmitter accepted and whatever was
    lost, at whatever times: if every drained block is clean, every frame sent
    to the LAN is one that was accepted. -/
theorem lan_frames_accepted (wh : Wirehair) (clk : Nat → Nat) (mem : Nat → Nat → Symbol)
    (lanMac : List UInt8) (rxMem : Buffer) (cfg : Config) (tx0 : TxPipeline)
    (rx0 : RxPipeline) (htx : txPipelineCreate mem lanMac cfg = some tx0)
    (hrx : rxPipelineCreate rxMem cfg = some rx0)
    (hss : cfg.symbolSize ≤ maxSymbolDataSize)
    (hwh : Recovers wh cfg.k (cfg.k + cfg.m) cfg.symbolSize)
    (evs : List TxEvent) (calls : List RxCall) :
    let tx := (txRun wh clk evs tx0).2
    let rx := rxRun wh calls rx0
    tx.blocksBuilt < 2 ^ 32 →
    List.Sublist (receivedFrames calls) (wireFrames tx) →
    (∀ e ∈ rx.drained, Clean cfg tx.sent e.blk) →
    ∀ f ∈ lanFrames rx, f ∈ tx.accepted := by
  intro tx rx hblocks hcalls hclean f hf
  have hcfg := rxCreate_cfgOk hrx hss
  have hrepair := hcfg.repair
  obtain ⟨hinit, hcfg0, -⟩ := runInv_create htx (by omega) hss hwh.toEncodes
  obtain ⟨-, hi, htxcfg⟩ := runInv_run clk evs hinit
  obtain ⟨h, hr⟩ := hi.hist
  have hsent := sentBlocks_run hi hr hblocks
  rw [htxcfg.trans hcfg0] at hsent
  obtain ⟨hok, hrxcfg, hdrained, -⟩ := rxOk_create hrx
  have hstart : Safe cfg tx.accepted tx.sent rx0 fun _ => [] :=
    ⟨hok, hrxcfg, fun _ x hx => (nomatch hx), fun e he => by
      rw [hdrained] at he
      exact nomatch he⟩
  obtain ⟨seen, hsafe⟩ := (safe_closed hsent hcfg hwh).run calls hstart
    (brings_sent hss hsent.wireOk (fun wire hw => hcalls.subset hw) hrxcfg)
  obtain ⟨e, he, hfe⟩ := List.mem_flatMap.mp hf
  exact hsafe.drained e he (hclean e he) f hfe

/-- Two blocks of two frames each; the first frame of the second block is of
    `second` bytes. -/
def twoBlocks (second : List UInt8) : TxPipeline :=
  (txRun parity (fun t => t) [.frame [1, 2, 3, 4] false, .frame [5, 6, 7, 8] false,
    .frame second false, .frame [9, 10, 11, 12] false] plainSender).2

/-- All of the first block arrives, and all but the first symbol of the second;
    the receiver is polled 2 ms later. -/
def lossyTwo (second : List UInt8) : List RxCall :=
  let wire := wireFrames (twoBlocks second)
  ([0, 1, 2, 4, 5].map fun i => ⟨.frame (wire.getD i []), 0, 0⟩) ++ [⟨.idle, 2000000, 2000000⟩]

/-- With frames of one length the header left over is the one that was lost:
    every block is clean, and what is sent was accepted. -/
theorem lan_frames_accepted_twoBlocks :
    [21, 22, 23, 24] ∈ lanFrames (rxRun parity (lossyTwo [21, 22, 23, 24]) plainReceiver) ∧
      ∀ f ∈ lanFrames (rxRun parity (lossyTwo [21, 22, 23, 24]) plainReceiver),
        f ∈ (twoBlocks [21, 22, 23, 24]).accepted := by
  refine ⟨by decide +kernel, ?_⟩
  refine lan_frames_accepted parity (fun t => t) (fun _ _ => symbolInit) [] (fun _ => 0)
    plainLink plainSender plainReceiver (Option.some_get _).symm (Option.some_get _).symm
    (by decide) (parity_recovers 4) _ (lossyTwo [21, 22, 23, 24]) (by decide +kernel)
    (by decide +kernel) ?_
  intro e he
  have hall : ∀ e ∈ (rxRun parity (lossyTwo [21, 22, 23, 24]) plainReceiver).drained,
      walkedPositions 2 e.blk.symbols 2 = [0, 1] ∧
        ∀ p, p < 2 → (e.blk.symbols p).totalSymbols = 1 ∧
          (e.blk.symbols p).symbolIndex = 0 ∧
          CarriesFrame (twoBlocks [21, 22, 23, 24]).sent e.blk p 1 := by
    decide +kernel
  obtain ⟨hpos, hhdr⟩ := hall e he
  obtain ⟨ht0, hi0, hc0⟩ := hhdr 0 (by decide)
  obtain ⟨ht1, hi1, hc1⟩ := hhdr 1 (by decide)
  show Grouped e.blk.symbols _ false (walkedPositions 2 e.blk.symbols 2)
  rw [hpos]
  refine .run 0 [] (.inl rfl) (fun q hq => nomatch hq) (by rw [ht0]; decide)
    (fun _ => .inl ⟨0, rfl, hc0⟩) ?_
  refine .run 1 [] (.inr hi1) (fun q hq => nomatch hq) (by rw [ht1]; decide)
    (fun _ => .inl ⟨1, rfl, hc1⟩) .nil

/-- **A frame that was never accepted**: the second block is decoded, but its
    lost position still has the length of the frame `1 2 3 4`, so the frame
    `21 22` is sent with two zero bytes behind it. -/
theorem stale_header_corrupts :
    (twoBlocks [21, 22]).accepted
        = [[1, 2, 3, 4], [5, 6, 7, 8], [21, 22], [9, 10, 11, 12]] ∧
      List.Sublist (receivedFrames (lossyTwo [21, 22])) (wireFrames (twoBlocks [21, 22])) ∧
      [21, 22, 0, 0] ∈ lanFrames (rxRun parity (lossyTwo [21, 22]) plainReceiver) ∧
      [21, 22, 0, 0] ∉ (twoBlocks [21, 22]).accepted := by
  decide +kernel

end FsoLink
