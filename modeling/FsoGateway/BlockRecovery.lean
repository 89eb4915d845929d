import FsoGateway.FecRoundTrip
import FsoGateway.RxSteps
import FsoGateway.RxWalk
import FsoGateway.TxInvariant

/-! # A block of the transmitter in a slot of the receiver

    `k` or more symbols of one block are enough to decode it
    (`decoded_message`), and then the walk reads, at every source position,
    the bytes of the symbol that was sent there, received or lost
    (`reconstruct_eq`).  The header it reads is that of the slot. -/

namespace FsoLink

open ByteBuffer FsoTypes ErasureCode FecWrapper FecRoundTrip FsoTxPipeline FsoRxPipeline
  PacketFragmenter PacketReassembler

/-! ## The symbols of a block -/

theorem symbolOf_length {wh : Wirehair} {k n ss i : Nat} {msg : List UInt8}
    (hwh : Encodes wh.encoding k n ss) (hlen : msg.length = k * ss) (hi : i < n) :
    (symbolOf wh.encoding k ss msg i).length = ss := by
  rw [symbolOf]
  by_cases hik : i < k
  · rw [if_pos hik]
    exact chunk_length hlen hik
  · obtain ⟨e, hc, he⟩ := hwh.encoder msg hlen
    obtain ⟨x, hx, hxl⟩ := he i (Nat.le_of_not_lt hik) hi
    rw [if_neg hik, hc]
    simp only [hx, hxl]

/-- The header and the bytes of symbol `i` of a block. -/
theorem encodedSymbol_block {wh : Wirehair} {cfg : Config} (hcfg : CfgOk cfg)
    (hwh : Encodes wh.encoding cfg.k (cfg.k + cfg.m) cfg.symbolSize) (id : UInt32)
    (src : Nat → Symbol) {i : Nat} (hi : i < cfg.k + cfg.m) :
    BlockSymbol wh.encoding cfg.k cfg.symbolSize (message cfg src) id i
      (encodedSymbol wh cfg id src i) := by
  have hlen : cfg.k + cfg.m ≤ 256 := hcfg.length
  rw [encodedSymbol]
  by_cases hik : i < cfg.k
  · rw [if_pos hik]
    obtain ⟨h1, h2, -, -, -, h6⟩ :=
      stampCrc_header cfg { src i with packetId := id, fecId := UInt32.ofNat i }
    refine ⟨h1, ?_, ?_⟩
    · rw [stampSource, h2]
      exact toNat_ofNat_lt (by omega)
    · rw [stampSource, h6, symbolOf, if_pos hik, message,
        chunk_join (fun j _ => bytes_length _ _) hik]
  · rw [if_neg hik]
    let rep : Symbol :=
      { symbolInit with
        data := ofList (symbolOf wh.encoding cfg.k cfg.symbolSize (message cfg src) i) }
    obtain ⟨h1, h2, -, -, -, h6⟩ := stampCrc_header cfg
      { rep with
        packetId := id
        fecId := UInt32.ofNat (cfg.k + (i - cfg.k))
        symbolIndex := UInt16.ofNat (cfg.k + (i - cfg.k))
        totalSymbols := UInt16.ofNat (cfg.k + cfg.m)
        payloadLen := UInt16.ofNat cfg.symbolSize }
    have hsum : cfg.k + (i - cfg.k) = i := by omega
    have hsl := symbolOf_length hwh (message_length cfg src) hi
    refine ⟨h1, ?_, ?_⟩
    · rw [stampRepair, h2]
      show (UInt32.ofNat (cfg.k + (i - cfg.k))).toNat = i
      rw [hsum]
      exact toNat_ofNat_lt (by omega)
    · rw [stampRepair, h6]
      show bytes (ofList (symbolOf wh.encoding cfg.k cfg.symbolSize (message cfg src) i))
        cfg.symbolSize = _
      have h := bytes_ofList (symbolOf wh.encoding cfg.k cfg.symbolSize (message cfg src) i)
      rw [hsl] at h
      exact h

/-- The bytes of a source symbol, in the message. -/
theorem message_getD (cfg : Config) (src : Nat → Symbol) {i o : Nat} (hi : i < cfg.k)
    (ho : o < cfg.symbolSize) :
    (message cfg src).getD (i * cfg.symbolSize + o) 0 = (src i).data o := by
  have h1 : chunk (message cfg src) cfg.symbolSize i = bytes (src i).data cfg.symbolSize :=
    chunk_join (fun j _ => bytes_length _ _) hi
  have h2 := bytes_getD (src i).data ho
  rw [← h1, chunk, List.getD_eq_getElem?_getD, List.getElem?_take, if_pos ho,
    List.getElem?_drop] at h2
  rw [List.getD_eq_getElem?_getD]
  exact h2

/-! ## Decoding a block -/

section Decode

variable {wh : Wirehair} {pl : RxPipeline} {id : UInt32} {src : Nat → Symbol} {blk : Block}

/-- Every position of `blk` that is not a hole holds the symbol of the block
    `id` that was sent for it. -/
structure Received (wh : Wirehair) (cfg : Config) (id : UInt32) (src : Nat → Symbol)
    (blk : Block) : Prop where
  symbolsPerBlock : blk.symbolsPerBlock = cfg.k + cfg.m
  symbolCount : blk.symbolCount ≤ cfg.k + cfg.m
  symbols : ∀ i, i < cfg.k + cfg.m → isValid (blk.symbols i) = true →
    clipSymbol cfg.symbolSize (blk.symbols i)
      = clipSymbol cfg.symbolSize (encodedSymbol wh cfg id src i)

/-- **Decoding**: `k` symbols of the block are enough. -/
theorem decoded_message (hcfg : CfgOk pl.cfg)
    (hwh : Recovers wh pl.cfg.k (pl.cfg.k + pl.cfg.m) pl.cfg.symbolSize)
    (hfec : pl.fec = ⟨pl.cfg.k, pl.cfg.symbolSize⟩)
    (hr : Received wh pl.cfg id src blk)
    (hk : pl.cfg.k ≤ fecCountValidSymbols blk.symbols (pl.cfg.k + pl.cfg.m)) :
    (decoded wh pl blk).rc = fecDecodeOk ∧
      bytes (decoded wh pl blk).outReconstructed (pl.cfg.k * pl.cfg.symbolSize)
        = message pl.cfg src := by
  have hblock : ∀ i, i < pl.cfg.k + pl.cfg.m → isValid (blk.symbols i) = true →
      BlockSymbol wh.encoding pl.cfg.k pl.cfg.symbolSize (message pl.cfg src) id i
        (blk.symbols i) := by
    intro i hi hv
    have hs := encodedSymbol_block hcfg hwh.toEncodes id src hi
    have hclip := hr.symbols i hi hv
    obtain ⟨h1, h2, -⟩ := header_eq_of_clip _ hclip
    refine ⟨h1.trans hs.packetId, by rw [h2]; exact hs.fecId, ?_⟩
    rw [← bytes_clipSymbol, hclip, bytes_clipSymbol]
    exact hs.data
  have htrue : FirstFedTrue wh.encoding pl.cfg.k pl.cfg.m pl.cfg.symbolSize
      (message pl.cfg src) blk.symbols (pl.cfg.k + pl.cfg.m) :=
    firstFedTrue_of_block _ (fun i => i) (fun i hi hv => ⟨hi, hblock i hi hv⟩)
      (fun i j _ _ _ _ h => h) hk
  obtain ⟨hv, hg⟩ := firstFedTrue_iff.mp htrue
  have hlen : (message pl.cfg src).length = (⟨pl.cfg.k, pl.cfg.symbolSize⟩ : FecCtx).k
      * (⟨pl.cfg.k, pl.cfg.symbolSize⟩ : FecCtx).symbolSize := message_length _ _
  rw [decoded, hfec, hr.symbolsPerBlock]
  exact fecDecodeBlock_ok hwh hlen hr.symbolCount _ hv hg

theorem not_decodeFails {d : FecDecoded} (h : d.rc = fecDecodeOk) : ¬ decodeFails d := by
  rw [decodeFails, h]
  decide

/-- The frames of a block that was decoded. -/
theorem drainedOf_frames (hrc : (decoded wh pl blk).rc = fecDecodeOk)
    (hk : pl.cfg.k ≤ maxSymbolsPerBlock) :
    (drainedOf wh pl blk).frames
      = (walkSymbols pl.cfg blk.symbols (decoded wh pl blk).outReconstructed
          pl.cfg.k).frames := by
  rw [← blockFrames_eq _ _ _ hk]
  exact if_neg (not_decodeFails hrc)

/-- **What the walk rebuilds**: the header of the slot over the bytes of the
    symbol that was sent. -/
theorem reconstruct_eq {cfg : Config} {recon : Buffer}
    (hb : bytes recon (cfg.k * cfg.symbolSize) = message cfg src)
    {symbols : Nat → Symbol} {i : Nat} (hi : i < cfg.k)
    (hlen : (symbols i).payloadLen.toNat ≤ cfg.symbolSize) :
    reconstruct cfg.symbolSize symbols recon i = rebuilt (symbols i) (src i).data := by
  rw [reconstruct_rebuilt]
  refine rebuilt_congr rfl rfl rfl rfl rfl fun o ho => ?_
  have hss : o < cfg.symbolSize := by omega
  have hlt : i * cfg.symbolSize + o < cfg.k * cfg.symbolSize := by
    have h1 : (i + 1) * cfg.symbolSize ≤ cfg.k * cfg.symbolSize :=
      Nat.mul_le_mul_right _ hi
    rw [Nat.add_mul, Nat.one_mul] at h1
    omega
  rw [← message_getD cfg src hi hss, ← hb, bytes_getD _ hlt]

end Decode

/-! ## The fragments in a block -/

/-- The fragments of an accepted frame fit the fields of a symbol. -/
structure FragOk (ss : Nat) (f : Frag) : Prop where
  idx : f.idx < f.total ss
  length : f.pkt.length ≤ txRxBufSize

section Frags

variable {ss : Nat} {f : Frag}

theorem FragOk.total_le (h : FragOk ss f) (hss : 1 ≤ ss) : f.total ss ≤ txRxBufSize :=
  (fragmentCount_le hss).trans h.length

/-- The symbol made of a fragment. -/
theorem FragOk.symbol (h : FragOk ss f) (hss : 1 ≤ ss) (hmax : ss ≤ maxSymbolDataSize) :
    FragmentOf ss f.pkt f.idx (f.symbol ss) ∧
      (f.symbol ss).totalSymbols.toNat = f.total ss ∧
      ∀ o, fragmentLen f.pkt.length ss f.idx ≤ o → (f.symbol ss).data o = 0 := by
  have htot := h.total_le hss
  have hidx := h.idx
  have hle := fragmentLen_le f.pkt.length ss f.idx
  have h9200 : txRxBufSize = 9200 := rfl
  have h9000 : maxSymbolDataSize = 9000 := rfl
  have hlen16 : (UInt16.ofNat (fragmentLen f.pkt.length ss f.idx)).toNat
      = fragmentLen f.pkt.length ss f.idx := by
    rw [UInt16.toNat_ofNat']
    omega
  refine ⟨⟨?_, hlen16, ?_⟩, ?_, ?_⟩
  · show (UInt16.ofNat f.idx).toNat = f.idx
    rw [UInt16.toNat_ofNat']
    omega
  · intro o ho
    show memcpy _ (ofList (f.pkt.drop (f.idx * ss))) _ o = _
    rw [memcpy, if_pos ho, ofList, List.getD_eq_getElem?_getD, List.getElem?_drop,
      List.getD_eq_getElem?_getD]
  · show (UInt16.ofNat (f.total ss)).toNat = f.total ss
    rw [UInt16.toNat_ofNat']
    omega
  · intro o ho
    show memcpy _ _ (fragmentLen f.pkt.length ss f.idx) o = 0
    rw [memcpy, if_neg (by omega)]
    rfl

end Frags

section Source

variable {wh : Wirehair} {cfg : Config} {id : UInt32} {frags : List Frag} {i : Nat}
  {f : Frag}

theorem sourceSymbol_of (h : frags[i]? = some f) :
    sourceSymbol cfg.symbolSize frags i = f.symbol cfg.symbolSize := by
  rw [sourceSymbol, h]

theorem encodedSymbol_source (wh : Wirehair) (id : UInt32) (hi : i < cfg.k)
    (src : Nat → Symbol) :
    (encodedSymbol wh cfg id src i).packetId = id ∧
      (encodedSymbol wh cfg id src i).fecId = UInt32.ofNat i ∧
      (encodedSymbol wh cfg id src i).symbolIndex = (src i).symbolIndex ∧
      (encodedSymbol wh cfg id src i).totalSymbols = (src i).totalSymbols ∧
      (encodedSymbol wh cfg id src i).payloadLen = (src i).payloadLen ∧
      (encodedSymbol wh cfg id src i).data = (src i).data := by
  rw [encodedSymbol, if_pos hi]
  exact stampCrc_header _ _

/-- **A fragment as the walk rebuilds it**, once the header in the slot is
    that of the fragment. -/
theorem reconstruct_fragment (hcfg : CfgOk cfg) {recon : Buffer}
    (hb : bytes recon (cfg.k * cfg.symbolSize)
      = message cfg (sourceSymbol cfg.symbolSize frags))
    {symbols : Nat → Symbol} (hi : i < cfg.k) (hf : frags[i]? = some f)
    (hok : FragOk cfg.symbolSize f)
    (hidx : (symbols i).symbolIndex.toNat = f.idx)
    (hlen : (symbols i).payloadLen.toNat = fragmentLen f.pkt.length cfg.symbolSize f.idx) :
    FragmentOf cfg.symbolSize f.pkt f.idx
      (reconstruct cfg.symbolSize symbols recon i) := by
  obtain ⟨hs, -, -⟩ := hok.symbol hcfg.symbolSize hcfg.fits
  refine ⟨hidx, hlen, ?_⟩
  intro o ho
  have hle := fragmentLen_le f.pkt.length cfg.symbolSize f.idx
  rw [reconstruct_eq hb hi (by omega)]
  show memcpy (fun _ => 0) (sourceSymbol cfg.symbolSize frags i).data
    (symbols i).payloadLen.toNat o = _
  rw [memcpy, if_pos (by rw [hlen]; exact ho), sourceSymbol_of hf]
  exact hs.data o ho

end Source

end FsoLink
