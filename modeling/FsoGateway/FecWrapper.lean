import FsoGateway.Types
import FsoGateway.Lib.ErasureCode

/-! # The FEC wrapper

    `fec_encode_block` and `fec_decode_block` around Wirehair, which is an
    external library and enters as a parameter: an erasure code over bytes.
    A hole in the symbol array is a `packet_id` of zero. -/

namespace FecWrapper

open ByteBuffer FsoTypes ErasureCode

/-- The codec behind `wirehair/wirehair.h`. -/
abbrev Wirehair := Codec UInt8

/-- `struct fec_ctx`; the encoder it keeps is rebuilt by every encode. -/
structure FecCtx where
  k : Nat
  symbolSize : Nat
  deriving DecidableEq, Repr

def FecCtx.blockBytes (ctx : FecCtx) : Nat := ctx.k * ctx.symbolSize

/-- `FEC_DECODE_OK`. -/
def fecDecodeOk : Int := 0

/-- `FEC_DECODE_ERR`. -/
def fecDecodeErr : Int := -1

/-- `FEC_DECODE_TOO_MANY_HOLES`. -/
def fecDecodeTooManyHoles : Int := -2

/-- `fec_create`; allocation succeeds. -/
def fecCreate (k symbolSize : Nat) : Option FecCtx :=
  if k < 2 ∨ symbolSize = 0 then none else some ⟨k, symbolSize⟩

/-! ## Encoding -/

/-- The loop of `fec_encode_block` over the repair symbols still to come. -/
def fecEncodeLoop (wh : Wirehair) (ctx : FecCtx) (encoder : wh.encoding.Encoder) :
    List Nat → (Nat → Symbol) → Int × (Nat → Symbol)
  | [], out => (fecDecodeOk, out)
  | i :: rest, out =>
      let repairFecId := ctx.k + i
      let r := wh.encoding.encode encoder repairFecId
      if r.1 ≠ .success ∨ r.2.length ≠ ctx.symbolSize then (fecDecodeErr, out)
      else
        fecEncodeLoop wh ctx encoder rest
          (Function.update out i
            { packetId := 0
              fecId := UInt32.ofNat repairFecId
              symbolIndex := 0
              totalSymbols := 0
              payloadLen := UInt16.ofNat ctx.symbolSize
              crc32 := 0
              data := memcpy (out i).data (ofList r.2) ctx.symbolSize })

/-- `fec_encode_block`. -/
def fecEncodeBlock (wh : Wirehair) (ctx : FecCtx) (sourceData : List UInt8)
    (outRepairSymbols : Nat → Symbol) (m : Nat) : Int × (Nat → Symbol) :=
  if m < 1 then (fecDecodeErr, outRepairSymbols)
  else
    match wh.encoding.create sourceData ctx.symbolSize with
    | none => (fecDecodeErr, outRepairSymbols)
    | some encoder =>
        fecEncodeLoop wh ctx encoder (List.range m) outRepairSymbols

/-! ## Decoding -/

/-- A slot of the symbol array that is not a hole. -/
def isValid (s : Symbol) : Bool := s.packetId != 0

/-- `fec_count_valid_symbols`. -/
def fecCountValidSymbols (symbols : Nat → Symbol) (scanCapacity : Nat) : Nat :=
  (List.range scanCapacity).countP fun i => isValid (symbols i)

/-- A valid slot that holds a source symbol: `(int)fec_id < k`. -/
def isSource (k : Nat) (s : Symbol) : Bool := isValid s && decide (toInt s.fecId < k)

/-- A valid slot that holds a repair symbol. -/
def isRepair (k : Nat) (s : Symbol) : Bool :=
  isValid s && decide ((k : Int) ≤ toInt s.fecId)

/-- `fec_build_feed_order`: the indices of the source symbols, then those of
    the repair symbols; the second component counts the latter. -/
def fecBuildFeedOrder (symbols : Nat → Symbol) (scanCapacity k : Nat) :
    List Nat × Nat :=
  let sources := (List.range scanCapacity).filter fun i => isSource k (symbols i)
  let repairs := (List.range scanCapacity).filter fun i => isRepair k (symbols i)
  (sources ++ repairs, repairs.length)

/-- The two checks made on the counts, with the code each returns. -/
def fecCheckCounts (ctx : FecCtx) (validReceived effectiveN : Nat) : Option Int :=
  let missingCount := effectiveN - validReceived
  let mLimit := effectiveN - ctx.k
  if validReceived < ctx.k then some fecDecodeErr
  else if ctx.k < effectiveN ∧ mLimit < missingCount then some fecDecodeTooManyHoles
  else none

/-- The feed loop: Wirehair's last answer, the decoder, and the number of
    repair symbols fed. -/
def fecFeedLoop (wh : Wirehair) (ctx : FecCtx) (symbols : Nat → Symbol) :
    List Nat → wh.decoding.Decoder → Nat → Result × wh.decoding.Decoder × Nat
  | [], decoder, repairUsed => (.needMore, decoder, repairUsed)
  | i :: rest, decoder, repairUsed =>
      let sym := symbols i
      let r := wh.decoding.decode decoder sym.fecId.toNat
        (bytes sym.data ctx.symbolSize)
      let repairUsed := if (ctx.k : Int) ≤ toInt sym.fecId then repairUsed + 1
        else repairUsed
      if r.1 = .needMore then fecFeedLoop wh ctx symbols rest r.2 repairUsed
      else (r.1, r.2, repairUsed)

/-- `fec_decode_telemetry_t`, less the block id. -/
structure FecDecodeTelemetry where
  numberOfSymbolsReceived : Nat
  numberOfMissingSymbols : Nat
  numberOfRepairSymbolsUsed : Nat
  decodeSuccess : Bool
  deriving DecidableEq, Repr

/-- What `fec_decode_block` leaves: its code, the output buffer, the
    telemetry. -/
structure FecDecoded where
  rc : Int
  outReconstructed : Buffer
  telemetry : FecDecodeTelemetry

/-- `fec_decode_block`. -/
def fecDecodeBlock (wh : Wirehair) (ctx : FecCtx) (symbols : Nat → Symbol)
    (symbolCount scanCapacity : Nat) (outReconstructed : Buffer) : FecDecoded :=
  let scanCapacity := if scanCapacity < symbolCount then symbolCount else scanCapacity
  let validReceived := fecCountValidSymbols symbols scanCapacity
  let failed (rc : Int) (out : Buffer) (repairUsed : Nat) : FecDecoded :=
    ⟨rc, out, ⟨validReceived, scanCapacity - validReceived, repairUsed, false⟩⟩
  match fecCheckCounts ctx validReceived scanCapacity with
  | some rc => failed rc outReconstructed 0
  | none =>
      match wh.decoding.create ctx.blockBytes ctx.symbolSize with
      | none => failed fecDecodeErr outReconstructed 0
      | some decoder =>
          let order := (fecBuildFeedOrder symbols scanCapacity ctx.k).1
          let r := fecFeedLoop wh ctx symbols order decoder 0
          if r.1 ≠ .success then failed fecDecodeErr outReconstructed r.2.2
          else
            let out := memzero outReconstructed ctx.blockBytes
            let recovered := wh.decoding.recover r.2.1
            if recovered.1 ≠ .success then failed fecDecodeErr out r.2.2
            else
              ⟨fecDecodeOk, memcpy out (ofList recovered.2) ctx.blockBytes,
                ⟨validReceived, scanCapacity - validReceived, r.2.2, true⟩⟩

/-! ## The self-test -/

/-- The source block of `fec_run_self_test`. -/
def selfTestSource : List UInt8 :=
  (List.range (8 * 128)).map fun i => UInt8.ofNat (i * 17 + 3)

/-- The array it decodes: eight source symbols, two repair symbols, symbol 3
    cleared. -/
def selfTestReceived (repairs : Nat → Symbol) : Nat → Symbol := fun i =>
  if i = 3 then symbolInit
  else if i < 8 then
    { symbolInit with
      fecId := UInt32.ofNat i
      payloadLen := 128
      data := memcpy symbolInit.data (ofList (chunk selfTestSource 128 i)) 128 }
  else if i < 10 then repairs (i - 8)
  else symbolInit

/-- `fec_run_self_test`; `repairs[]` is an uninitialised local array. -/
def fecRunSelfTest (wh : Wirehair) (repairs : Nat → Symbol) : Int :=
  match fecCreate 8 128 with
  | none => -1
  | some fec =>
      let e := fecEncodeBlock wh fec selfTestSource repairs 2
      if e.1 ≠ fecDecodeOk then -1
      else
        let d := fecDecodeBlock wh fec (selfTestReceived e.2) 9 10 fun _ => 0
        if d.rc ≠ fecDecodeOk then -1
        else if selfTestSource ≠ bytes d.outReconstructed (8 * 128) then -1
        else 0

end FecWrapper
