import FsoGateway.SentStream

/-! # A block that arrived completely

    When every symbol of a block is in its slot, the source symbols are fed to
    the decoder first and decode to themselves, and the headers in the slot are
    those that were sent: `complete_frames` — the block sends its frames. -/

namespace FsoLink

open ByteBuffer FsoTypes ErasureCode FecWrapper FecRoundTrip FsoTxPipeline FsoRxPipeline
  PacketFragmenter PacketReassembler

/-- Every position of `blk` holds the symbol of the block `id` that was sent
    for it. -/
structure Complete (wh : Wirehair) (cfg : Config) (id : UInt32) (src : Nat → Symbol)
    (blk : Block) : Prop where
  symbolsPerBlock : blk.symbolsPerBlock = cfg.k + cfg.m
  symbolCount : blk.symbolCount ≤ cfg.k + cfg.m
  symbols : ∀ i, i < cfg.k + cfg.m → clipSymbol cfg.symbolSize (blk.symbols i)
    = clipSymbol cfg.symbolSize (encodedSymbol wh cfg id src i)

section Decode

variable {wh : Wirehair} {pl : RxPipeline} {id : UInt32} {src : Nat → Symbol} {blk : Block}

/-- The source symbols come first, in order. -/
theorem feedSlots_complete {symbols : Nat → Symbol} {n k : Nat} (hkn : k ≤ n)
    (hn : n ≤ 256) (hv : ∀ i, i < n → isValid (symbols i) = true)
    (hfec : ∀ i, i < n → (symbols i).fecId.toNat = i) :
    (feedSlots symbols n k).take k = List.range k := by
  have hsource : (List.range n).filter (fun i => isSource k (symbols i)) = List.range k := by
    rw [← Burst.filter_range_lt hkn]
    refine List.filter_congr fun i hi => ?_
    have hlt := List.mem_range.mp hi
    have hint : toInt (symbols i).fecId = (i : Nat) := by
      rw [toInt_of_lt (by rw [hfec i hlt]; omega), hfec i hlt]
    rw [isSource, hv i hlt, hint, Bool.true_and]
    exact decide_eq_decide.mpr Int.ofNat_lt
  rw [feedSlots, hsource]
  exact List.take_left' List.length_range

/-- **Decoding a complete block** needs no repair symbol. -/
theorem decoded_complete (hcfg : CfgOk pl.cfg)
    (hwh : Systematic wh pl.cfg.k (pl.cfg.k + pl.cfg.m) pl.cfg.symbolSize)
    (hfec : pl.fec = ⟨pl.cfg.k, pl.cfg.symbolSize⟩) (hid : id ≠ 0)
    (hc : Complete wh pl.cfg id src blk) :
    (decoded wh pl blk).rc = fecDecodeOk ∧
      bytes (decoded wh pl blk).outReconstructed (pl.cfg.k * pl.cfg.symbolSize)
        = message pl.cfg src := by
  have hblock : ∀ i, i < pl.cfg.k + pl.cfg.m →
      BlockSymbol wh.encoding pl.cfg.k pl.cfg.symbolSize (message pl.cfg src) id i
        (blk.symbols i) := by
    intro i hi
    have hs := encodedSymbol_block hcfg hwh.toEncodes id src hi
    obtain ⟨h1, h2, -⟩ := header_eq_of_clip _ (hc.symbols i hi)
    refine ⟨h1.trans hs.packetId, by rw [h2]; exact hs.fecId, ?_⟩
    rw [← bytes_clipSymbol, hc.symbols i hi, bytes_clipSymbol]
    exact hs.data
  have hvalid : ∀ i, i < pl.cfg.k + pl.cfg.m → isValid (blk.symbols i) = true := by
    intro i hi
    rw [isValid, bne_iff_ne, (hblock i hi).packetId]
    exact hid
  have hcount : fecCountValidSymbols blk.symbols (pl.cfg.k + pl.cfg.m)
      = pl.cfg.k + pl.cfg.m := by
    rw [fecCountValidSymbols, List.countP_eq_length.mpr, List.length_range]
    exact fun i hi => hvalid i (List.mem_range.mp hi)
  have hn : pl.cfg.k + pl.cfg.m ≤ 256 := hcfg.length
  have hslots := feedSlots_complete (show pl.cfg.k ≤ pl.cfg.k + pl.cfg.m by omega) hn hvalid
    fun i hi => (hblock i hi).fecId
  have hfed : (feedPairs blk.symbols pl.cfg.symbolSize
        (feedSlots blk.symbols (pl.cfg.k + pl.cfg.m) pl.cfg.k)).take pl.cfg.k
      = (List.range pl.cfg.k).map fun i =>
          (i, chunk (message pl.cfg src) pl.cfg.symbolSize i) := by
    rw [feedPairs, ← List.map_take, hslots]
    refine List.map_congr_left fun i hi => ?_
    have hik := List.mem_range.mp hi
    have hb := hblock i (by omega)
    rw [hb.fecId, hb.data, symbolOf, if_pos hik]
  have hlen : (message pl.cfg src).length = (⟨pl.cfg.k, pl.cfg.symbolSize⟩ : FecCtx).k
      * (⟨pl.cfg.k, pl.cfg.symbolSize⟩ : FecCtx).symbolSize := message_length _ _
  rw [decoded, hfec, hc.symbolsPerBlock]
  refine fecDecodeBlock_of_decodes hlen hc.symbolCount _ ?_
    (decodes_of_source hwh hlen hfed)
  rw [hcount]
  exact Nat.le_add_right _ _

end Decode

/-! ## Its frames -/

/-- A symbol that looks like the fragment to the reassembler. -/
def LooksLike (ss : Nat) (s : Symbol) (f : Frag) : Prop :=
  FragmentOf ss f.pkt f.idx s ∧ s.totalSymbols.toNat = f.total ss

/-- The symbols of the fragments of whole frames fall into their groups. -/
theorem packetGroups {ss : Nat} {ps : List (List UInt8 × Nat)} {l : List Symbol}
    (h : List.Forall₂ (LooksLike ss) l (framesFrags ss ps))
    (hlen : ∀ p ∈ ps, 0 < p.1.length ∧ p.1.length ≤ reassemBufSize) :
    ∃ gs : List (List Symbol), gs.flatten = l ∧
      List.Forall₂ (fun g pkt => PacketGroup ss pkt g) gs (ps.map Prod.fst) := by
  induction ps generalizing l with
  | nil =>
      have hnil : l = [] := List.forall₂_nil_right_iff.mp h
      subst hnil
      exact ⟨[], rfl, .nil⟩
  | cons p ps ih =>
      have hsplit : framesFrags ss (p :: ps) = fragsOf ss p.2 p.1 ++ framesFrags ss ps := rfl
      rw [hsplit] at h
      have hhead := List.forall₂_take_append _ _ _ h
      have htail := List.forall₂_drop_append _ _ _ h
      generalize (fragsOf ss p.2 p.1).length = n at hhead htail
      obtain ⟨gs, hgs, hall⟩ := ih htail fun q hq => hlen q (List.mem_cons_of_mem _ hq)
      obtain ⟨hpos, hfits⟩ := hlen p List.mem_cons_self
      have hcount := hhead.length_eq
      rw [fragsOf_length] at hcount
      have hget : ∀ i (hi : i < (l.take n).length),
          FragmentOf ss p.1 i (l.take n)[i] ∧
            (l.take n)[i].totalSymbols.toNat = fragmentCount p.1.length ss := by
        intro i hi
        have hi' : i < (fragsOf ss p.2 p.1).length := by
          rw [fragsOf_length, ← hcount]
          exact hi
        have hlook := hhead.get hi hi'
        have hf : (fragsOf ss p.2 p.1).get ⟨i, hi'⟩ = ⟨p.2, p.1, i⟩ := by
          rw [List.get_eq_getElem]
          simp only [fragsOf, List.getElem_map, List.getElem_range]
        rw [hf] at hlook
        exact hlook
      refine ⟨l.take n :: gs, ?_, .cons ?_ hall⟩
      · rw [List.flatten_cons, hgs, List.take_append_drop]
      · refine ⟨hpos, hfits, hcount, ?_, fun i hi => (hget i hi).1⟩
        intro s hs
        obtain ⟨h0, heq⟩ := List.getElem?_eq_some_iff.mp
          (List.head?_eq_getElem?.symm.trans hs)
        rw [← heq]
        exact (hget 0 h0).2

/-- **A complete block of whole frames** sends these frames. -/
theorem complete_frames {wh : Wirehair} {pl : RxPipeline} {id : UInt32} {blk : Block}
    (hcfg : CfgOk pl.cfg)
    (hwh : Systematic wh pl.cfg.k (pl.cfg.k + pl.cfg.m) pl.cfg.symbolSize)
    (hfec : pl.fec = ⟨pl.cfg.k, pl.cfg.symbolSize⟩) (hid : id ≠ 0)
    {ps : List (List UInt8 × Nat)}
    (hc : Complete wh pl.cfg id
      (sourceSymbol pl.cfg.symbolSize (framesFrags pl.cfg.symbolSize ps)) blk)
    (hshort : (framesFrags pl.cfg.symbolSize ps).length ≤ pl.cfg.k)
    (hok : ∀ f ∈ framesFrags pl.cfg.symbolSize ps, FragOk pl.cfg.symbolSize f)
    (hlen : ∀ p ∈ ps, 0 < p.1.length ∧ p.1.length ≤ reassemBufSize) :
    (drainedOf wh pl blk).frames = ps.map Prod.fst := by
  obtain ⟨hrc, hrec⟩ := decoded_complete hcfg hwh hfec hid hc
  have hss : 0 < pl.cfg.symbolSize := hcfg.symbolSize
  have hn : pl.cfg.k + pl.cfg.m ≤ 256 := hcfg.length
  have hk : pl.cfg.k ≤ maxSymbolsPerBlock := show pl.cfg.k ≤ 256 by omega
  rw [drainedOf_frames hrc hk, walkSymbols_eq]
  generalize (decoded wh pl blk).outReconstructed = recon at hrec
  -- the headers in the slot
  have hhead : ∀ i, i < pl.cfg.k →
      (blk.symbols i).fecId = UInt32.ofNat i ∧
      (blk.symbols i).symbolIndex = (sourceSymbol pl.cfg.symbolSize
        (framesFrags pl.cfg.symbolSize ps) i).symbolIndex ∧
      (blk.symbols i).totalSymbols = (sourceSymbol pl.cfg.symbolSize
        (framesFrags pl.cfg.symbolSize ps) i).totalSymbols ∧
      (blk.symbols i).payloadLen = (sourceSymbol pl.cfg.symbolSize
        (framesFrags pl.cfg.symbolSize ps) i).payloadLen := by
    intro i hi
    obtain ⟨-, h2, h3, h4, h5⟩ := header_eq_of_clip _ (hc.symbols i (by omega))
    obtain ⟨-, g2, g3, g4, g5, -⟩ := encodedSymbol_source wh id hi
      (sourceSymbol pl.cfg.symbolSize (framesFrags pl.cfg.symbolSize ps))
    exact ⟨h2.trans g2, h3.trans g3, h4.trans g4, h5.trans g5⟩
  have hlook : ∀ i (hi : i < (framesFrags pl.cfg.symbolSize ps).length),
      LooksLike pl.cfg.symbolSize (reconstruct pl.cfg.symbolSize blk.symbols recon i)
        (framesFrags pl.cfg.symbolSize ps)[i] := by
    intro i hi
    have hget := List.getElem?_eq_getElem hi
    have hfrag := hok _ (List.getElem_mem hi)
    obtain ⟨hsym, htot, -⟩ := hfrag.symbol hcfg.symbolSize hcfg.fits
    obtain ⟨-, h3, h4, h5⟩ := hhead i (by omega)
    rw [sourceSymbol_of hget] at h3 h4 h5
    refine ⟨reconstruct_fragment hcfg hrec (by omega) hget hfrag ?_ ?_, ?_⟩
    · rw [h3, hsym.index]
    · rw [h5, hsym.len]
    · show (blk.symbols i).totalSymbols.toNat = _
      rw [h4, htot]
  have hwalked : walkedPositions pl.cfg.k blk.symbols pl.cfg.k
      = List.range (framesFrags pl.cfg.symbolSize ps).length := by
    rw [walkedPositions, ← Burst.filter_range_lt hshort]
    refine List.filter_congr fun i hi => ?_
    have hik := List.mem_range.mp hi
    obtain ⟨h2, -, -, h5⟩ := hhead i hik
    have hfec : (UInt32.ofNat i).toNat = i := toNat_ofNat_lt (by omega)
    have hint : toInt (UInt32.ofNat i) = (i : Nat) := by
      rw [toInt_of_lt (by omega), hfec]
    rw [isSkipped, h2, hint, decide_eq_false (by omega), Bool.false_or]
    by_cases hlt : i < (framesFrags pl.cfg.symbolSize ps).length
    · have hsym := (hlook i hlt).1
      have hpos := fragmentLen_pos hss (hok _ (List.getElem_mem hlt)).idx
      have hl : (blk.symbols i).payloadLen.toNat = _ := hsym.len
      rw [decide_eq_true hlt, Bool.not_eq_true', beq_eq_false_iff_ne]
      intro hz
      rw [hz] at hl
      exact absurd hl (Nat.ne_of_lt hpos)
    · rw [decide_eq_false hlt, h5, sourceSymbol,
        List.getElem?_eq_none (Nat.le_of_not_lt hlt)]
      rfl
  rw [hwalked]
  have hall : List.Forall₂ (LooksLike pl.cfg.symbolSize)
      ((List.range (framesFrags pl.cfg.symbolSize ps).length).map
        (reconstruct pl.cfg.symbolSize blk.symbols recon))
      (framesFrags pl.cfg.symbolSize ps) := by
    rw [List.forall₂_iff_get]
    refine ⟨by rw [List.length_map, List.length_range], fun i h1 h2 => ?_⟩
    rw [List.get_eq_getElem, List.get_eq_getElem, List.getElem_map, List.getElem_range]
    exact hlook i h2
  obtain ⟨gs, hgs, hgroups⟩ := packetGroups hall hlen
  have hsize := congrArg List.length hgs
  rw [List.length_map, List.length_range] at hsize
  rw [← hgs, fold_packets hss hgroups walkOk_start (by omega)]
  rfl

end FsoLink
