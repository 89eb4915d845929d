import FsoGateway.Deinterleaver
import FsoGateway.FecWrapper
import FsoGateway.PacketReassembler
import FsoGateway.SymbolCrc

/-! # The RX pipeline

    Wire → deinterleaver → FEC decode → fragments grouped by packet → LAN.
    One `rx_pipeline_run_once` handles one outcome of `packet_io_receive`;
    it returns 0 on every path.  A call carries its event and its two clock
    readings, that of the tick and that of the push.  Every send succeeds, and
    `arp_learn_from_packet` only writes to the ARP cache, which nothing here
    reads.

    `drained` is an observation: the blocks handed to the FEC decoder, each
    with what was sent to the LAN for it. -/

namespace FsoRxPipeline

open ByteBuffer FsoTypes FecWrapper FsoDeinterleaver PacketReassembler SymbolCrc

/-- `RX_WIRE_BUF_SIZE`. -/
def rxWireBufSize : Nat := 9200

/-- `WIRE_HDR_SIZE`. -/
def wireHdrSize : Nat := 18

/-- `FSO_ETH_HDR_SIZE`. -/
def fsoEthHdrSize : Nat := 14

/-- `RX_BLOCK_MAX_AGE_MS`. -/
def rxBlockMaxAgeMs : ℚ := 50

/-- `REASSEM_BUF_SIZE`. -/
def reassemBufSize : Nat := 9200

/-- A block handed to `fec_decode_block`: the block, the code returned, and
    the frames sent to the LAN for it. -/
structure Drained where
  blk : Block
  rc : Int
  frames : List (List UInt8)

/-- `struct rx_pipeline`, less the I/O handles; `pkt_syms_buf` is live during
    the walk over a block only. -/
structure RxPipeline where
  cfg : Config
  dil : Deinterleaver
  fec : FecCtx
  reconBuf : Buffer
  drained : List Drained

/-- The outcome of one `packet_io_receive`. -/
inductive RxEvent where
  | idle
  | error
  | frame (wire : List UInt8)

/-- One call of `rx_pipeline_run_once`. -/
structure RxCall where
  event : RxEvent
  tickNow : Nat
  pushNow : Nat

/-- `rx_pipeline_create`; allocation succeeds, and `mem` is what `recon_buf`
    contains.  The product `depth * 4` stays an `int`: a pool of `2 ^ 31`
    slots cannot be allocated. -/
def rxPipelineCreate (mem : Buffer) (cfg : Config) : Option RxPipeline :=
  match fecCreate cfg.k cfg.symbolSize with
  | none => none
  | some fec =>
      match deinterleaverCreate (cfg.depth * 4) (cfg.k + cfg.m) cfg.k cfg.symbolSize 2
          rxBlockMaxAgeMs with
      | none => none
      | some dil => some { cfg, dil, fec, reconBuf := mem, drained := [] }

/-! ## Parsing -/

/-- The symbol that the header of a wire frame describes. -/
def parseHeader (wireBuf : Buffer) : Symbol where
  packetId := ofBe32 wireBuf 0
  fecId := ofBe32 wireBuf 4
  symbolIndex := ofBe16 wireBuf 8
  totalSymbols := ofBe16 wireBuf 10
  payloadLen := ofBe16 wireBuf 12
  crc32 := ofBe32 wireBuf 14
  data := fun _ => 0

/-- What becomes of a received frame. -/
inductive Parsed where
  | dropped
  | crcFail
  | symbol (sym : Symbol)

/-- Step 2 of `rx_pipeline_run_once`, behind the Ethernet header. -/
def parseSymbol (cfg : Config) (wire : List UInt8) : Parsed :=
  if wire.length < wireHdrSize then .dropped
  else
    let wireBuf := ofList wire
    let sym := parseHeader wireBuf
    if sym.packetId = 0 ∧ sym.payloadLen = 0 then .symbol sym
    else if cfg.symbolSize < sym.payloadLen.toNat then .dropped
    else if maxSymbolDataSize < sym.payloadLen.toNat then .dropped
    else if wire.length < wireHdrSize + sym.payloadLen.toNat then .dropped
    else
      let sym :=
        { sym with
          data := memcpy sym.data (fun i => wireBuf (wireHdrSize + i)) sym.payloadLen.toNat }
      if cfg.internalSymbolCrcEnabled && !symbolVerifyCrc sym then .crcFail
      else .symbol sym

/-- The steps of `rx_pipeline_run_once` from a received frame to the symbol
    that is pushed. -/
def parseFrame (cfg : Config) (wire : List UInt8) : Parsed :=
  if fsoEthHdrSize ≤ wire.length ∧ wire.getD 12 0 = 0x7f ∧ wire.getD 13 0 = 0xec then
    parseSymbol cfg (wire.drop fsoEthHdrSize)
  else .dropped

/-! ## Grouping the fragments of a block -/

/-- The accumulated group, and the frames sent so far. -/
structure Walk where
  group : List Symbol
  frames : List (List UInt8)

/-- What is sent for a group. -/
def reassembled (group : List Symbol) : List (List UInt8) :=
  let r := reassemblePacket group (fun _ => 0) reassemBufSize
  if 0 < r.1 then [bytes r.2 r.1.toNat] else []

/-- Reassemble the group, send the packet, start over. -/
def flushGroup (w : Walk) : Walk :=
  { group := [], frames := w.frames ++ reassembled w.group }

/-- `pkt_sym_count > 0` and at least `total_symbols` of the first symbol. -/
def isComplete : List Symbol → Bool
  | [] => false
  | first :: rest => decide (first.totalSymbols.toNat ≤ (first :: rest).length)

/-- The flush before a symbol is added. -/
def flushBefore (w : Walk) (sym : Symbol) : Walk :=
  if w.group ≠ [] ∧ (isComplete w.group ∨ sym.symbolIndex = 0) then flushGroup w else w

/-- One reconstructed symbol: flush at a packet boundary, add the symbol,
    flush when it completes its packet. -/
def addToGroup (w : Walk) (sym : Symbol) : Walk :=
  let w := flushBefore w sym
  let w :=
    if w.group.length < maxSymbolsPerBlock then { w with group := w.group ++ [sym] } else w
  if isComplete w.group then flushGroup w else w

/-- The header of slot position `i` over the bytes decoded for it. -/
def reconstruct (symbolSize : Nat) (symbols : Nat → Symbol) (recon : Buffer) (i : Nat) :
    Symbol :=
  { symbols i with
    crc32 := 0
    data := memcpy (fun _ => 0) (fun o => recon (i * symbolSize + o))
      (symbols i).payloadLen.toNat }

/-- The source positions that are walked over: no repair symbol, no padding. -/
def isSkipped (k : Nat) (sym : Symbol) : Bool :=
  decide ((k : Int) ≤ toInt sym.fecId) || sym.payloadLen == 0

/-- One turn of the walk over the source positions. -/
def walkStep (cfg : Config) (symbols : Nat → Symbol) (recon : Buffer) (w : Walk)
    (i : Nat) : Walk :=
  if isSkipped cfg.k (symbols i) then w
  else addToGroup w (reconstruct cfg.symbolSize symbols recon i)

/-- The walk over the positions below `n`. -/
def walkSymbols (cfg : Config) (symbols : Nat → Symbol) (recon : Buffer) (n : Nat) : Walk :=
  (List.range n).foldl (walkStep cfg symbols recon) ⟨[], []⟩

/-- The frames sent for a decoded block. -/
def blockFrames (cfg : Config) (symbols : Nat → Symbol) (recon : Buffer) :
    List (List UInt8) :=
  let w := walkSymbols cfg symbols recon cfg.k
  if w.group = [] then w.frames else (flushGroup w).frames

/-! ## Draining -/

/-- One block of `drain_ready_blocks`: decode, send, `mark_result`. -/
def drainBlock (wh : Wirehair) (pl : RxPipeline) (blk : Block) : RxPipeline :=
  let d := fecDecodeBlock wh pl.fec blk.symbols blk.symbolCount blk.symbolsPerBlock
    (memzero pl.reconBuf (pl.cfg.k * pl.cfg.symbolSize))
  if d.rc = fecDecodeTooManyHoles ∨ d.rc = fecDecodeErr then
    { pl with
      reconBuf := d.outReconstructed
      drained := pl.drained ++ [⟨blk, d.rc, []⟩]
      dil := (deinterleaverMarkResult pl.dil blk.blockId.toUInt32 false).2 }
  else
    { pl with
      reconBuf := d.outReconstructed
      drained := pl.drained ++
        [⟨blk, d.rc, blockFrames pl.cfg blk.symbols d.outReconstructed⟩]
      dil := (deinterleaverMarkResult pl.dil blk.blockId.toUInt32 true).2 }

/-- The loop of `drain_ready_blocks`. -/
def drainLoop (wh : Wirehair) : Nat → RxPipeline → RxPipeline
  | 0, pl => pl
  | fuel + 1, pl =>
      let r := deinterleaverGetReadyBlock pl.dil
      match r.1 with
      | none => { pl with dil := r.2 }
      | some blk => drainLoop wh fuel (drainBlock wh { pl with dil := r.2 } blk)

/-- `drain_ready_blocks`: one turn for each READY slot. -/
def drainReadyBlocks (wh : Wirehair) (pl : RxPipeline) : RxPipeline :=
  drainLoop wh (deinterleaverReadyCount pl.dil) pl

/-! ## `rx_pipeline_run_once` -/

/-- What follows the tick. -/
def handleEvent (wh : Wirehair) (pl : RxPipeline) (event : RxEvent) (pushNow : Nat) :
    RxPipeline :=
  match event with
  | .idle => drainReadyBlocks wh pl
  | .error => pl
  | .frame wire =>
      match parseFrame pl.cfg (wire.take rxWireBufSize) with
      | .dropped => pl
      | .crcFail => { pl with dil := deinterleaverIncCrcDrop pl.dil }
      | .symbol sym =>
          drainReadyBlocks wh
            { pl with dil := (deinterleaverPushSymbol pl.dil sym pushNow).2 }

/-- `rx_pipeline_run_once`. -/
def rxPipelineRunOnce (wh : Wirehair) (pl : RxPipeline) (call : RxCall) : RxPipeline :=
  handleEvent wh { pl with dil := (deinterleaverTick pl.dil (-1) call.tickNow).2 }
    call.event call.pushNow

/-- The state after a run. -/
def rxRun (wh : Wirehair) (calls : List RxCall) (pl : RxPipeline) : RxPipeline :=
  calls.foldl (rxPipelineRunOnce wh) pl

/-- The frames handed to the LAN send, in order. -/
def lanFrames (pl : RxPipeline) : List (List UInt8) := pl.drained.flatMap Drained.frames

end FsoRxPipeline
