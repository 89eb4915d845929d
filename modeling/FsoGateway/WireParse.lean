import FsoGateway.RxOnce
import FsoGateway.WireFormat

/-! # What the receiver accepts from the wire

    `parseFrameChecked` is the parser with every access to the received bytes
    checked: a read behind them makes it fail.  It never does
    (`parseFrameChecked_eq`), so no frame is read past its length.

    * `dropped_iff_malformed` — exactly the malformed frames are dropped;
    * `wire_round_trip` — `rx_pipeline_run_once` pushes the symbol of a frame
      that was sent, and pushes nothing for a malformed one. -/

namespace FsoLink

open ByteBuffer FsoTypes FecWrapper FsoTxPipeline FsoRxPipeline FsoDeinterleaver SymbolCrc

/-! ## Malformed frames -/

/-- The `payload_len` that a frame announces. -/
def announcedLen (wire : List UInt8) : Nat :=
  (ofBe16 (ofList wire) (fsoEthHdrSize + 12)).toNat

/-- A received frame that is cut short, of another EtherType, or too long. -/
inductive Malformed (symbolSize : Nat) (wire : List UInt8) : Prop where
  | ethernet (h : wire.length < fsoEthHdrSize)
  | etherType (h : ¬ (wire.getD 12 0 = 0x7f ∧ wire.getD 13 0 = 0xec))
  | header (h : wire.length < fsoEthHdrSize + wireHdrSize)
  | payload (h : wire.length < fsoEthHdrSize + wireHdrSize + announcedLen wire)
  | tooLong (h : symbolSize < announcedLen wire)

/-- The header of a frame announces its `payload_len`. -/
theorem parseHeader_payloadLen (wire : List UInt8) :
    (parseHeader (ofList (wire.drop fsoEthHdrSize))).payloadLen.toNat
      = announcedLen wire := by
  show (ofBe16 (ofList (wire.drop fsoEthHdrSize)) 12).toNat = _
  rw [announcedLen, ofBe16, ofBe16, ofList_drop, ofList_drop]

/-- **Exactly the malformed frames are dropped.** -/
theorem dropped_iff_malformed {cfg : Config} (hfits : cfg.symbolSize ≤ maxSymbolDataSize)
    (wire : List UInt8) :
    parseFrame cfg wire = .dropped ↔ Malformed cfg.symbolSize wire := by
  have hlen := parseHeader_payloadLen wire
  have hd : (wire.drop fsoEthHdrSize).length = wire.length - fsoEthHdrSize :=
    List.length_drop
  rw [parseFrame]
  by_cases heth : fsoEthHdrSize ≤ wire.length ∧ wire.getD 12 0 = 0x7f ∧
      wire.getD 13 0 = 0xec
  · obtain ⟨h14, htype⟩ := heth
    rw [if_pos ⟨h14, htype⟩, parseSymbol]
    by_cases hhdr : (wire.drop fsoEthHdrSize).length < wireHdrSize
    · rw [if_pos hhdr]
      exact iff_of_true rfl (.header (by omega))
    rw [if_neg hhdr]
    dsimp only
    generalize parseHeader (ofList (wire.drop fsoEthHdrSize)) = sym at hlen ⊢
    by_cases hpad : sym.packetId = 0 ∧ sym.payloadLen = 0
    · -- padding announces nothing, so nothing is missing
      rw [if_pos hpad]
      have h0 : announcedLen wire = 0 := by
        rw [← hlen, hpad.2]
        rfl
      refine iff_of_false ?_ ?_
      · intro h
        cases h
      rintro (h | h | h | h | h)
      · omega
      · exact h htype
      · omega
      · omega
      · omega
    rw [if_neg hpad]
    by_cases hlong : cfg.symbolSize < sym.payloadLen.toNat
    · rw [if_pos hlong]
      exact iff_of_true rfl (.tooLong (by omega))
    rw [if_neg hlong, if_neg (by omega)]
    by_cases hcut : (wire.drop fsoEthHdrSize).length < wireHdrSize + sym.payloadLen.toNat
    · rw [if_pos hcut]
      exact iff_of_true rfl (.payload (by omega))
    rw [if_neg hcut]
    refine iff_of_false ?_ ?_
    · intro h
      split at h
      · cases h
      · cases h
    · rintro (h | h | h | h | h)
      · omega
      · exact h htype
      · omega
      · omega
      · omega
  · rw [if_neg heth]
    refine iff_of_true rfl ?_
    by_cases h14 : fsoEthHdrSize ≤ wire.length
    · exact .etherType fun htype => heth ⟨h14, htype⟩
    · exact .ethernet (Nat.lt_of_not_le h14)

/-! ## The parser with checked reads -/

/-- The header fields, each read checked. -/
def parseHeaderChecked (wire : List UInt8) : Option Symbol := do
  let packetId ← readBe32 wire 0
  let fecId ← readBe32 wire 4
  let symbolIndex ← readBe16 wire 8
  let totalSymbols ← readBe16 wire 10
  let payloadLen ← readBe16 wire 12
  let crc32 ← readBe32 wire 14
  some { packetId, fecId, symbolIndex, totalSymbols, payloadLen, crc32, data := fun _ => 0 }

/-- `parseSymbol`, each read checked. -/
def parseSymbolChecked (cfg : Config) (wire : List UInt8) : Option Parsed :=
  if wire.length < wireHdrSize then some .dropped
  else do
    let sym ← parseHeaderChecked wire
    if sym.packetId = 0 ∧ sym.payloadLen = 0 then some (.symbol sym)
    else if cfg.symbolSize < sym.payloadLen.toNat then some .dropped
    else if maxSymbolDataSize < sym.payloadLen.toNat then some .dropped
    else if wire.length < wireHdrSize + sym.payloadLen.toNat then some .dropped
    else
      let payload ← readBytes wire wireHdrSize sym.payloadLen.toNat
      let sym := { sym with data := memcpy sym.data (ofList payload) sym.payloadLen.toNat }
      some (if cfg.internalSymbolCrcEnabled && !symbolVerifyCrc sym then .crcFail
        else .symbol sym)

/-- The test of the Ethernet header: the bytes are looked at in order, and the
    second only when the first is right. -/
def hasFsoEtherType (wire : List UInt8) : Option Bool :=
  if fsoEthHdrSize ≤ wire.length then do
    let b12 ← readByte wire 12
    if b12 = 0x7f then do
      let b13 ← readByte wire 13
      some (decide (b13 = 0xec))
    else some false
  else some false

/-- `parseFrame`, each read checked. -/
def parseFrameChecked (cfg : Config) (wire : List UInt8) : Option Parsed := do
  if ← hasFsoEtherType wire then
    let rest ← readBytes wire fsoEthHdrSize (wire.length - fsoEthHdrSize)
    parseSymbolChecked cfg rest
  else some .dropped

theorem parseHeaderChecked_eq {wire : List UInt8} (h : wireHdrSize ≤ wire.length) :
    parseHeaderChecked wire = some (parseHeader (ofList wire)) := by
  have h18 : 18 ≤ wire.length := h
  rw [parseHeaderChecked, readBe32_of_le (by omega), readBe32_of_le (by omega),
    readBe16_of_le (by omega), readBe16_of_le (by omega), readBe16_of_le (by omega),
    readBe32_of_le (by omega)]
  rfl

theorem parseSymbolChecked_eq (cfg : Config) (wire : List UInt8) :
    parseSymbolChecked cfg wire = some (parseSymbol cfg wire) := by
  rw [parseSymbolChecked, parseSymbol]
  by_cases hhdr : wire.length < wireHdrSize
  · rw [if_pos hhdr, if_pos hhdr]
  rw [if_neg hhdr, if_neg hhdr, parseHeaderChecked_eq (Nat.le_of_not_lt hhdr),
    Option.bind_eq_bind, Option.bind_some]
  dsimp only
  generalize parseHeader (ofList wire) = sym
  by_cases hpad : sym.packetId = 0 ∧ sym.payloadLen = 0
  · rw [if_pos hpad, if_pos hpad]
  rw [if_neg hpad, if_neg hpad]
  by_cases hlong : cfg.symbolSize < sym.payloadLen.toNat
  · rw [if_pos hlong, if_pos hlong]
  rw [if_neg hlong, if_neg hlong]
  by_cases hmax : maxSymbolDataSize < sym.payloadLen.toNat
  · rw [if_pos hmax, if_pos hmax]
  rw [if_neg hmax, if_neg hmax]
  by_cases hcut : wire.length < wireHdrSize + sym.payloadLen.toNat
  · rw [if_pos hcut, if_pos hcut]
  rw [if_neg hcut, if_neg hcut, readBytes_of_le (Nat.le_of_not_lt hcut),
    Option.bind_eq_bind, Option.bind_some]
  have hdata : memcpy sym.data
        (ofList ((wire.drop wireHdrSize).take sym.payloadLen.toNat)) sym.payloadLen.toNat
      = memcpy sym.data (fun i => ofList wire (wireHdrSize + i)) sym.payloadLen.toNat := by
    funext o
    rw [memcpy, memcpy]
    by_cases ho : o < sym.payloadLen.toNat
    · rw [if_pos ho, if_pos ho, ofList_drop_take wire wireHdrSize ho]
    · rw [if_neg ho, if_neg ho]
  rw [hdata]

theorem hasFsoEtherType_eq (wire : List UInt8) :
    hasFsoEtherType wire
      = some (decide (fsoEthHdrSize ≤ wire.length ∧ wire.getD 12 0 = 0x7f ∧
          wire.getD 13 0 = 0xec)) := by
  rw [hasFsoEtherType]
  by_cases h14 : fsoEthHdrSize ≤ wire.length
  · have h : 14 ≤ wire.length := h14
    rw [if_pos h14, readByte_of_lt (show 12 < wire.length by omega),
      readByte_of_lt (show 13 < wire.length by omega)]
    dsimp only [Option.bind_eq_bind, Option.bind_some]
    by_cases h12 : wire.getD 12 0 = 0x7f
    · rw [if_pos h12]
      simp only [h14, h12, true_and]
    · rw [if_neg h12]
      simp only [h12, false_and, and_false, decide_false]
  · rw [if_neg h14]
    simp only [h14, false_and, decide_false]

/-- **No read leaves the received bytes**: with every read checked, the parser
    still succeeds, and does the same. -/
theorem parseFrameChecked_eq (cfg : Config) (wire : List UInt8) :
    parseFrameChecked cfg wire = some (parseFrame cfg wire) := by
  rw [parseFrameChecked, hasFsoEtherType_eq, parseFrame]
  dsimp only [Option.bind_eq_bind, Option.bind_some]
  by_cases heth : fsoEthHdrSize ≤ wire.length ∧ wire.getD 12 0 = 0x7f ∧
      wire.getD 13 0 = 0xec
  · have hrest : (wire.drop fsoEthHdrSize).take (wire.length - fsoEthHdrSize)
        = wire.drop fsoEthHdrSize :=
      List.take_of_length_le (Nat.le_of_eq List.length_drop)
    rw [if_pos (decide_eq_true heth), if_pos heth,
      readBytes_of_le (by have := heth.1; omega), hrest]
    exact parseSymbolChecked_eq cfg _
  · rw [if_neg (by rw [decide_eq_false heth]; exact Bool.false_ne_true), if_neg heth]

/-! ## One call -/

/-- **The wire format.**  In any state, a call that receives a frame that was
    sent, with any bytes behind it that fit the receive buffer, pushes the
    symbol: the same header fields, the same payload, zeros behind it.  A call
    that receives a malformed frame pushes nothing, and is done with it without
    a read behind the received bytes. -/
theorem wire_round_trip (wh : Wirehair) (pl : RxPipeline)
    (hfits : pl.cfg.symbolSize ≤ maxSymbolDataSize) (call : RxCall) :
    (∀ (s : Symbol) (trailing : List UInt8),
      s.payloadLen.toNat ≤ pl.cfg.symbolSize →
      (pl.cfg.internalSymbolCrcEnabled = true → s.crc32 = symbolComputeCrcValue s) →
      (serializeSymbol s ++ trailing).length ≤ rxWireBufSize →
      call.event = .frame (serializeSymbol s ++ trailing) →
      rxPipelineRunOnce wh pl call
        = drainReadyBlocks wh
            { pl with
              dil := (deinterleaverPushSymbol (deinterleaverTick pl.dil (-1) call.tickNow).2
                { s with data := clip s.payloadLen.toNat s.data } call.pushNow).2 }) ∧
    (∀ wire, call.event = .frame wire →
      Malformed pl.cfg.symbolSize (wire.take rxWireBufSize) →
      rxPipelineRunOnce wh pl call
          = { pl with dil := (deinterleaverTick pl.dil (-1) call.tickNow).2 } ∧
        parseFrameChecked pl.cfg (wire.take rxWireBufSize) = some .dropped) := by
  constructor
  · intro s trailing hlen hcrc hbuf he
    have hstamped : pl.cfg.internalSymbolCrcEnabled = true → symbolVerifyCrc s = true := by
      intro hen
      rw [symbolVerifyCrc, ← hcrc hen]
      exact beq_self_eq_true _
    have hparse := parseFrame_frame (hlen.trans hfits) hlen (.inr hstamped) trailing
    rw [← List.take_of_length_le hbuf] at hparse
    exact runOnce_symbol he hparse
  · intro wire he hbad
    have hdrop := (dropped_iff_malformed hfits _).mpr hbad
    refine ⟨runOnce_dropped he hdrop, ?_⟩
    rw [parseFrameChecked_eq, hdrop]

/-- Two bytes of payload, a third behind them. -/
def shortSymbol : Symbol where
  packetId := 7
  fecId := 1
  symbolIndex := 3
  totalSymbols := 9
  payloadLen := 2
  crc32 := 5
  data := ofList [10, 20, 30]

/-- Its frame padded to 60 bytes, and its frame without its last byte. -/
theorem wire_round_trip_shortSymbol :
    rxPipelineRunOnce ErasureCode.parity plainReceiver
        ⟨.frame (serializeSymbol shortSymbol ++ List.replicate 26 0xff), 0, 0⟩
      = drainReadyBlocks ErasureCode.parity
          { plainReceiver with
            dil := (deinterleaverPushSymbol (deinterleaverTick plainReceiver.dil (-1) 0).2
              { shortSymbol with data := clip 2 shortSymbol.data } 0).2 } ∧
    (rxPipelineRunOnce ErasureCode.parity plainReceiver
        ⟨.frame ((serializeSymbol shortSymbol).take 33), 0, 0⟩
      = { plainReceiver with dil := (deinterleaverTick plainReceiver.dil (-1) 0).2 } ∧
      parseFrameChecked plainLink (((serializeSymbol shortSymbol).take 33).take 9200)
        = some .dropped) := by
  constructor
  · exact (wire_round_trip ErasureCode.parity plainReceiver (by decide)
      ⟨.frame (serializeSymbol shortSymbol ++ List.replicate 26 0xff), 0, 0⟩).1
      shortSymbol (List.replicate 26 0xff) (by decide) (fun h => nomatch h)
      (by decide +kernel) rfl
  · exact (wire_round_trip ErasureCode.parity plainReceiver (by decide)
      ⟨.frame ((serializeSymbol shortSymbol).take 33), 0, 0⟩).2
      ((serializeSymbol shortSymbol).take 33) rfl (.payload (by decide +kernel))

end FsoLink
