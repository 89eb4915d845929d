import FsoGateway.BlockRecovery
import FsoGateway.BurstSpread

/-! # The wire format

    A wire frame is an Ethernet header, a header of 18 bytes and the payload.
    `parseFrame_frame` — the receiver reads every frame that the transmitter
    sends, padding included and with any bytes behind it, back as the symbol
    it was made of. -/

namespace FsoLink

open ByteBuffer FsoTypes ErasureCode FecWrapper FsoTxPipeline FsoRxPipeline FsoInterleaver
  PacketFragmenter SymbolCrc

/-- A symbol as it is sent: nothing behind its payload, which is not longer
    than a symbol, and a valid CRC unless it is padding. -/
structure WireOk (cfg : Config) (s : Symbol) : Prop where
  payloadLen : s.payloadLen.toNat ≤ cfg.symbolSize
  tight : ∀ o, s.payloadLen.toNat ≤ o → s.data o = 0
  crc : (s.packetId = 0 ∧ s.payloadLen = 0) ∨
    (cfg.internalSymbolCrcEnabled = true → symbolVerifyCrc s = true)

/-! ## Parsing what was serialised -/

/-- The 18 bytes in front of the payload. -/
def wireHeader (s : Symbol) : List UInt8 :=
  be32 s.packetId ++ be32 s.fecId ++ be16 s.symbolIndex ++ be16 s.totalSymbols
    ++ be16 s.payloadLen ++ be32 s.crc32

theorem serializeSymbol_eq (s : Symbol) :
    serializeSymbol s
      = fsoEthHdr ++ (wireHeader s ++ bytes s.data s.payloadLen.toNat) := by
  rw [serializeSymbol, wireHeader]
  simp only [List.append_assoc]

theorem wireHeader_length (s : Symbol) : (wireHeader s).length = wireHdrSize := rfl

/-- The header fields come back. -/
theorem parseHeader_wire (s : Symbol) (payload : List UInt8) :
    parseHeader (ofList (wireHeader s ++ payload)) = { s with data := fun _ => 0 } := by
  have h1 : ofBe32 (ofList (wireHeader s ++ payload)) 0 = s.packetId :=
    ofBe32_be32 rfl rfl rfl rfl
  have h2 : ofBe32 (ofList (wireHeader s ++ payload)) 4 = s.fecId :=
    ofBe32_be32 rfl rfl rfl rfl
  have h3 : ofBe16 (ofList (wireHeader s ++ payload)) 8 = s.symbolIndex :=
    ofBe16_be16 rfl rfl
  have h4 : ofBe16 (ofList (wireHeader s ++ payload)) 10 = s.totalSymbols :=
    ofBe16_be16 rfl rfl
  have h5 : ofBe16 (ofList (wireHeader s ++ payload)) 12 = s.payloadLen :=
    ofBe16_be16 rfl rfl
  have h6 : ofBe32 (ofList (wireHeader s ++ payload)) 14 = s.crc32 :=
    ofBe32_be32 rfl rfl rfl rfl
  rw [parseHeader, h1, h2, h3, h4, h5, h6]

/-- The payload comes back, whatever follows it. -/
theorem payload_wire (s : Symbol) (trailing : List UInt8) :
    memcpy (fun _ => 0)
        (fun o => ofList (wireHeader s ++ (bytes s.data s.payloadLen.toNat ++ trailing))
          (wireHdrSize + o)) s.payloadLen.toNat = clip s.payloadLen.toNat s.data := by
  funext o
  rw [memcpy, clip]
  by_cases ho : o < s.payloadLen.toNat
  · rw [if_pos ho, if_pos ho, ofList, List.getD_eq_getElem?_getD,
      List.getElem?_append_right (by rw [wireHeader_length]; omega), wireHeader_length,
      Nat.add_sub_cancel_left,
      List.getElem?_append_left (by rw [bytes_length]; exact ho), bytes_getElem? _ ho]
    rfl
  · rw [if_neg ho, if_neg ho]

/-- A symbol as it is read: nothing behind its payload. -/
def wireSymbol (s : Symbol) : Symbol := { s with data := clip s.payloadLen.toNat s.data }

theorem verify_wireSymbol (s : Symbol) :
    symbolVerifyCrc (wireSymbol s) = symbolVerifyCrc s := by
  have hcrc : symbolComputeCrcValue (wireSymbol s) = symbolComputeCrcValue s :=
    symbolComputeCrcValue_congr rfl rfl rfl rfl rfl (bytes_clip _ _)
  rw [symbolVerifyCrc, symbolVerifyCrc, hcrc]
  rfl

/-- **A frame that was sent**, with any bytes behind it, is read as the symbol it
    was made of. -/
theorem parseFrame_frame {cfg : Config} {s : Symbol}
    (hfits : s.payloadLen.toNat ≤ maxSymbolDataSize)
    (hlen : s.payloadLen.toNat ≤ cfg.symbolSize)
    (hcrc : (s.packetId = 0 ∧ s.payloadLen = 0) ∨
      (cfg.internalSymbolCrcEnabled = true → symbolVerifyCrc s = true))
    (trailing : List UInt8) :
    parseFrame cfg (serializeSymbol s ++ trailing) = .symbol (wireSymbol s) := by
  have h9000 : maxSymbolDataSize = 9000 := rfl
  let wire := wireHeader s ++ (bytes s.data s.payloadLen.toNat ++ trailing)
  have hwire : wire.length = wireHdrSize + (s.payloadLen.toNat + trailing.length) := by
    rw [List.length_append, List.length_append, wireHeader_length, bytes_length]
  have hframe : serializeSymbol s ++ trailing = fsoEthHdr ++ wire := by
    rw [serializeSymbol_eq, List.append_assoc, List.append_assoc]
  have hparse : parseFrame cfg (serializeSymbol s ++ trailing) = parseSymbol cfg wire := by
    rw [hframe, parseFrame]
    refine if_pos ⟨?_, rfl, rfl⟩
    rw [List.length_append]
    exact Nat.le_add_right 14 _
  have hhdr : parseHeader (ofList wire) = { s with data := fun _ => 0 } :=
    parseHeader_wire s (bytes s.data s.payloadLen.toNat ++ trailing)
  rw [hparse, parseSymbol, if_neg (by omega)]
  simp only [hhdr]
  by_cases hpad : s.packetId = 0 ∧ s.payloadLen = 0
  · -- the shortcut of the padding reads no payload
    have hdata : clip s.payloadLen.toNat s.data = fun _ => 0 := by
      funext o
      rw [clip, hpad.2]
      rfl
    rw [if_pos hpad, wireSymbol, hdata]
  · rw [if_neg hpad, if_neg (Nat.not_lt.mpr hlen), if_neg (by omega), if_neg (by omega)]
    -- the payload that was read is that of the symbol, so the CRC fits it
    have hsym : ({ s with
        data := memcpy (fun _ => 0) (fun o => ofList wire (wireHdrSize + o))
          s.payloadLen.toNat } : Symbol) = wireSymbol s := by
      rw [wireSymbol, ← payload_wire s trailing]
    rw [hsym, verify_wireSymbol]
    cases hen : cfg.internalSymbolCrcEnabled with
    | true =>
        rw [hcrc.resolve_left hpad hen]
        rfl
    | false => rfl

/-- A frame with a payload that fits the array fits the receive buffer. -/
theorem take_serialize {s : Symbol} (h : s.payloadLen.toNat ≤ maxSymbolDataSize) :
    (serializeSymbol s).take rxWireBufSize = serializeSymbol s := by
  apply List.take_of_length_le
  rw [serializeSymbol_eq, List.length_append, List.length_append, wireHeader_length,
    bytes_length]
  have h9000 : s.payloadLen.toNat ≤ 9000 := h
  show 14 + (18 + s.payloadLen.toNat) ≤ 9200
  omega

/-- **The wire format round-trips.** -/
theorem parseFrame_serialize {cfg : Config} (hfits : cfg.symbolSize ≤ maxSymbolDataSize)
    {s : Symbol} (h : WireOk cfg s) :
    parseFrame cfg ((serializeSymbol s).take rxWireBufSize) = .symbol s := by
  have hpl := h.payloadLen
  have htight : wireSymbol s = s := by
    have hdata : clip s.payloadLen.toNat s.data = s.data := by
      funext o
      rw [clip]
      by_cases ho : o < s.payloadLen.toNat
      · exact if_pos ho
      · rw [if_neg ho, h.tight o (Nat.le_of_not_lt ho)]
    rw [wireSymbol, hdata]
  have hparse := parseFrame_frame (hpl.trans hfits) hpl h.crc []
  rw [List.append_nil, htight] at hparse
  rw [take_serialize (hpl.trans hfits), hparse]

/-! ## What is sent -/

theorem wireOk_clip {cfg : Config} {s : Symbol} (h : WireOk cfg s) :
    clipSymbol cfg.symbolSize s = s := by
  have hdata : clip cfg.symbolSize s.data = s.data := by
    funext o
    rw [clip]
    by_cases ho : o < cfg.symbolSize
    · exact if_pos ho
    · rw [if_neg ho, h.tight o (h.payloadLen.trans (Nat.le_of_not_lt ho))]
  rw [clipSymbol, hdata]

/-- Stamping a CRC is the last thing that happens to a symbol. -/
theorem wireOk_stampCrc {cfg : Config} {s : Symbol}
    (hlen : s.payloadLen.toNat ≤ cfg.symbolSize)
    (htight : ∀ o, s.payloadLen.toNat ≤ o → s.data o = 0) :
    WireOk cfg (stampCrc cfg s) := by
  obtain ⟨-, -, -, -, h5, h6⟩ := stampCrc_header cfg s
  refine ⟨by rw [h5]; exact hlen, by rw [h5, h6]; exact htight, .inr fun hen => ?_⟩
  rw [stampCrc, if_pos hen]
  exact symbolVerifyCrc_compute s

theorem sourceSymbol_tight {ss : Nat} {frags : List Frag} (hss : 1 ≤ ss)
    (hmax : ss ≤ maxSymbolDataSize) (hf : ∀ f ∈ frags, FragOk ss f) (i : Nat) {o : Nat}
    (ho : (sourceSymbol ss frags i).payloadLen.toNat ≤ o) :
    (sourceSymbol ss frags i).data o = 0 := by
  rw [sourceSymbol] at ho ⊢
  cases hget : frags[i]? with
  | none => rfl
  | some f =>
      rw [hget] at ho
      obtain ⟨h1, -, h3⟩ := (hf f (List.mem_of_getElem? hget)).symbol hss hmax
      exact h3 o (by rw [← h1.len]; exact ho)

theorem encodedSymbol_wireOk {wh : Wirehair} {cfg : Config} (hcfg : CfgOk cfg)
    (hwh : Encodes wh.encoding cfg.k (cfg.k + cfg.m) cfg.symbolSize) (id : UInt32)
    {frags : List Frag} (hf : ∀ f ∈ frags, FragOk cfg.symbolSize f) {c : Nat}
    (hc : c < cfg.k + cfg.m) :
    WireOk cfg (encodedSymbol wh cfg id (sourceSymbol cfg.symbolSize frags) c) := by
  rw [encodedSymbol]
  by_cases hck : c < cfg.k
  · rw [if_pos hck]
    exact wireOk_stampCrc (sourceSymbol_payloadLen _ _ _) fun o ho =>
      sourceSymbol_tight hcfg.symbolSize hcfg.fits hf c ho
  · rw [if_neg hck]
    have h9000 : cfg.symbolSize ≤ 9000 := hcfg.fits
    have hlen : (UInt16.ofNat cfg.symbolSize).toNat = cfg.symbolSize := by
      rw [UInt16.toNat_ofNat']
      omega
    refine wireOk_stampCrc (Nat.le_of_eq hlen) fun o ho => ?_
    have ho' : cfg.symbolSize ≤ o := by
      rw [← hlen]
      exact ho
    have hsl := symbolOf_length hwh
      (message_length cfg (sourceSymbol cfg.symbolSize frags)) hc
    show ofList _ o = 0
    rw [ofList, List.getD_eq_getElem?_getD, List.getElem?_eq_none (by rw [hsl]; exact ho')]
    rfl

/-- A padding cell is an erasure. -/
theorem padCell (cfg : Config) (c : Nat) :
    let s := clipSymbol cfg.symbolSize
      ((padRow (cfg.k + cfg.m) cfg.symbolSize).cells c)
    s.packetId = 0 ∧ s.payloadLen = 0 ∧ s.data = fun _ => 0 := by
  refine ⟨rfl, rfl, ?_⟩
  show clip cfg.symbolSize (memzero _ cfg.symbolSize) = _
  rw [clip_memzero]

theorem padCell_wireOk (cfg : Config) (c : Nat) :
    WireOk cfg (clipSymbol cfg.symbolSize
      ((padRow (cfg.k + cfg.m) cfg.symbolSize).cells c)) := by
  obtain ⟨h1, h2, h3⟩ := padCell cfg c
  refine ⟨by rw [h2]; exact Nat.zero_le _, fun o _ => by rw [h3], .inl ⟨h1, h2⟩⟩

end FsoLink
