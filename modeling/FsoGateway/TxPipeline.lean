import FsoGateway.BlockBuilder
import FsoGateway.FecWrapper
import FsoGateway.Interleaver
import FsoGateway.PacketFragmenter
import FsoGateway.SymbolCrc

/-! # The TX pipeline

    LAN frame → fragments → block → repair symbols → interleaver → wire.
    One `tx_pipeline_run_once` handles one outcome of `packet_io_receive`.
    Clock readings are taken from a stream `clk`, one for each call that may
    read the clock; every send succeeds.

    The last four fields of the state are observations, which nothing
    reads: the symbols handed to the send, the frames accepted, the number of
    blocks encoded and the number of refused `block_builder_add_symbol`
    calls. -/

namespace FsoTxPipeline

open ByteBuffer FsoTypes FecWrapper FsoBlockBuilder FsoInterleaver PacketFragmenter
  SymbolCrc

/-- `TX_BLOCK_TIMEOUT_MS`. -/
def txBlockTimeoutMs : ℚ := 2

/-- `TX_INTERLEAVER_FLUSH_TIMEOUT_MS`. -/
def txInterleaverFlushTimeoutMs : Nat := 5

/-- `TX_RX_BUF_SIZE`. -/
def txRxBufSize : Nat := 9200

/-- `TX_MAX_PACKET_LEN`. -/
def txMaxPacketLen : Nat := 9000

/-- `FSO_ETH_HDR`. -/
def fsoEthHdr : List UInt8 :=
  [0x01, 0x7f, 0x45, 0x43, 0x00, 0x01, 0x02, 0x7f, 0x45, 0x43, 0x00, 0x01, 0x7f, 0xec]

/-- `struct tx_pipeline`, less the I/O handles. -/
structure TxPipeline where
  cfg : Config
  builder : BlockBuilder
  fec : FecCtx
  interleaver : Interleaver
  packetIdCounter : UInt32
  fragSyms : Nat → Symbol
  maxFragsPerPacket : Nat
  repairSyms : Nat → Symbol
  lanMac : List UInt8
  clock : Nat
  sent : List Symbol
  accepted : List (List UInt8)
  blocksBuilt : Nat
  refusedAdds : Nat

/-- The outcome of one `packet_io_receive`; for a frame also whether
    `try_proxy_arp` answers it from the cache. -/
inductive TxEvent where
  | idle
  | error
  | frame (pkt : List UInt8) (answered : Bool)

/-- `tx_pipeline_create`; `mem` is what the allocations of symbols contain. -/
def txPipelineCreate (mem : Nat → Nat → Symbol) (lanMac : List UInt8) (cfg : Config) :
    Option TxPipeline :=
  match blockBuilderInit cfg.k cfg.symbolSize with
  | none => none
  | some builder =>
      match fecCreate cfg.k cfg.symbolSize with
      | none => none
      | some fec =>
          match interleaverCreate mem cfg.depth (cfg.k + cfg.m) cfg.symbolSize
              txInterleaverFlushTimeoutMs with
          | none => none
          | some interleaver =>
              some
                { cfg, builder, fec, interleaver, packetIdCounter := 0
                  fragSyms := mem 0
                  maxFragsPerPacket :=
                    max ((txMaxPacketLen + cfg.symbolSize - 1) / cfg.symbolSize) cfg.k
                  repairSyms := mem 1
                  lanMac, clock := 0, sent := [], accepted := [], blocksBuilt := 0
                  refusedAdds := 0 }

/-! ## Sending -/

/-- The wire frame of a symbol, as `tx_serialize_and_send` lays it out. -/
def serializeSymbol (sym : Symbol) : List UInt8 :=
  fsoEthHdr ++ be32 sym.packetId ++ be32 sym.fecId ++ be16 sym.symbolIndex
    ++ be16 sym.totalSymbols ++ be16 sym.payloadLen ++ be32 sym.crc32
    ++ bytes sym.data sym.payloadLen.toNat

/-- `tx_serialize_and_send`. -/
def txSerializeAndSend (pl : TxPipeline) (sym : Symbol) : TxPipeline :=
  { pl with sent := pl.sent ++ [sym] }

/-- The frames put on the wire. -/
def wireFrames (pl : TxPipeline) : List (List UInt8) := pl.sent.map serializeSymbol

/-- The loop that pops and sends until the window is drained. -/
def drainLoop : Nat → TxPipeline → TxPipeline
  | 0, pl => pl
  | fuel + 1, pl =>
      match interleaverPopReadySymbol pl.interleaver with
      | none => pl
      | some (outSym, last, il) =>
          let pl := txSerializeAndSend { pl with interleaver := il } outSym
          if last then pl else drainLoop fuel pl

/-- `drain_interleaver`: no more pops than there are symbols pending. -/
def drainInterleaver (pl : TxPipeline) : TxPipeline :=
  if interleaverIsReady pl.interleaver then
    drainLoop (interleaverSymbolsPending pl.interleaver) pl
  else pl

/-- `tick_and_drain_interleaver`; the tick of an existing interleaver never
    fails. -/
def tickAndDrainInterleaver (clk : Nat → Nat) (pl : TxPipeline) : TxPipeline :=
  let r := interleaverTick pl.interleaver (clk pl.clock)
  let pl := { pl with interleaver := r.2, clock := pl.clock + 1 }
  if r.1 = 1 then drainInterleaver pl else pl

/-! ## Encoding a block -/

/-- The push loops of `encode_and_drain`: stop at the first refusal. -/
def pushSymbols (clk : Nat → Nat) : List Symbol → TxPipeline → Int × TxPipeline
  | [], pl => (0, pl)
  | sym :: rest, pl =>
      let r := interleaverPushSymbol pl.interleaver sym (clk pl.clock)
      let pl := { pl with interleaver := r.2, clock := pl.clock + 1 }
      if r.1 = -1 then (-1, pl) else pushSymbols clk rest pl

/-- `source_buf`. -/
def sourceBuf (pl : TxPipeline) : List UInt8 :=
  ErasureCode.join (fun i => bytes (pl.builder.symbols i).data pl.cfg.symbolSize)
    pl.cfg.k

/-- `symbol_compute_crc`, when the CRC is enabled. -/
def stampCrc (cfg : Config) (sym : Symbol) : Symbol :=
  if cfg.internalSymbolCrcEnabled then symbolComputeCrc sym else sym

/-- A source symbol of the block, stamped. -/
def stampSource (cfg : Config) (blockId : UInt32) (i : Nat) (sym : Symbol) : Symbol :=
  stampCrc cfg { sym with packetId := blockId, fecId := UInt32.ofNat i }

/-- A repair symbol of the block, stamped. -/
def stampRepair (cfg : Config) (blockId : UInt32) (i : Nat) (sym : Symbol) : Symbol :=
  stampCrc cfg
    { sym with
      packetId := blockId
      fecId := UInt32.ofNat (cfg.k + i)
      symbolIndex := UInt16.ofNat (cfg.k + i)
      totalSymbols := UInt16.ofNat (cfg.k + cfg.m)
      payloadLen := UInt16.ofNat cfg.symbolSize }

/-- Stamp the first `n` symbols of an array. -/
def stampAll (n : Nat) (stamp : Nat → Symbol → Symbol) (symbols : Nat → Symbol) :
    Nat → Symbol :=
  fun i => if i < n then stamp i (symbols i) else symbols i

/-- `encode_and_drain`. -/
def encodeAndDrain (wh : Wirehair) (clk : Nat → Nat) (pl : TxPipeline) :
    Int × TxPipeline :=
  let r := fecEncodeBlock wh pl.fec (sourceBuf pl) pl.repairSyms pl.cfg.m
  let pl := { pl with repairSyms := r.2 }
  if r.1 ≠ fecDecodeOk then (-1, pl)
  else
    let blockId := pl.builder.blockId.toUInt32
    let pl :=
      { pl with
        builder :=
          { pl.builder with
            symbols := stampAll pl.cfg.k (stampSource pl.cfg blockId)
              pl.builder.symbols }
        repairSyms := stampAll pl.cfg.m (stampRepair pl.cfg blockId) pl.repairSyms
        blocksBuilt := pl.blocksBuilt + 1 }
    let pl := drainInterleaver pl
    let p := pushSymbols clk ((List.range pl.cfg.k).map pl.builder.symbols) pl
    if p.1 = -1 then (-1, p.2)
    else
      let q := pushSymbols clk ((List.range pl.cfg.m).map pl.repairSyms) p.2
      if q.1 = -1 then (-1, q.2) else (0, drainInterleaver q.2)

/-- `encode_and_drain`, then `block_builder_reset`. -/
def encodeAndReset (wh : Wirehair) (clk : Nat → Nat) (pl : TxPipeline) :
    Int × TxPipeline :=
  let r := encodeAndDrain wh clk pl
  if r.1 ≠ 0 then (-1, r.2)
  else (0, { r.2 with builder := blockBuilderReset r.2.builder })

/-- `block_builder_finalize_with_padding`, then encode and reset. -/
def flushBuilder (wh : Wirehair) (clk : Nat → Nat) (pl : TxPipeline) :
    Int × TxPipeline :=
  encodeAndReset wh clk
    { pl with builder := blockBuilderFinalizeWithPadding pl.builder }

/-! ## `tx_pipeline_run_once` -/

/-- The flush on a block timeout and the interleaver tick that end both the
    idle and the busy path. -/
def checkTimeoutAndTick (wh : Wirehair) (clk : Nat → Nat) (pl : TxPipeline) :
    Int × TxPipeline :=
  let timeoutRc := blockBuilderCheckTimeout pl.builder txBlockTimeoutMs (clk pl.clock)
  let pl := { pl with clock := pl.clock + 1 }
  if timeoutRc = -1 then (-1, pl)
  else if timeoutRc = 1 ∧ 0 < pl.builder.symbolCount then
    let r := flushBuilder wh clk pl
    if r.1 ≠ 0 then (-1, r.2) else (0, tickAndDrainInterleaver clk r.2)
  else (0, tickAndDrainInterleaver clk pl)

/-- The loop that adds the fragments of a packet. -/
def addFragments (wh : Wirehair) (clk : Nat → Nat) :
    List Symbol → TxPipeline → Int × TxPipeline
  | [], pl => (0, pl)
  | sym :: rest, pl =>
      let r := blockBuilderAddSymbol pl.builder sym (clk pl.clock)
      let pl := { pl with builder := r.2, clock := pl.clock + 1 }
      if r.1 = -1 then
        addFragments wh clk rest { pl with refusedAdds := pl.refusedAdds + 1 }
      else if r.1 = 1 then
        let e := encodeAndReset wh clk pl
        if e.1 ≠ 0 then (-1, e.2)
        else addFragments wh clk rest (tickAndDrainInterleaver clk e.2)
      else addFragments wh clk rest pl

/-- A frame this gateway injected itself. -/
def isOwnFrame (pl : TxPipeline) (pkt : List UInt8) : Bool :=
  decide (12 ≤ pkt.length) && ((pkt.drop 6).take 6 == pl.lanMac)

/-- The path of an accepted frame after fragmentation. -/
def addPacket (wh : Wirehair) (clk : Nat → Nat) (numFrags : Nat) (pl : TxPipeline) :
    Int × TxPipeline :=
  let flushFirst := 0 < numFrags ∧ 0 < pl.builder.symbolCount ∧
    pl.builder.kLimit < pl.builder.symbolCount + numFrags
  let f := if flushFirst then flushBuilder wh clk pl else (0, pl)
  if f.1 ≠ 0 then (-1, f.2)
  else
    let pl := if flushFirst then tickAndDrainInterleaver clk f.2 else f.2
    let a := addFragments wh clk ((List.range numFrags).map pl.fragSyms) pl
    if a.1 ≠ 0 then (-1, a.2) else checkTimeoutAndTick wh clk a.2

/-- `tx_pipeline_run_once`. -/
def txPipelineRunOnce (wh : Wirehair) (clk : Nat → Nat) (pl : TxPipeline) :
    TxEvent → Int × TxPipeline
  | .idle => checkTimeoutAndTick wh clk pl
  | .error => (0, pl)
  | .frame pkt answered =>
      let pkt := pkt.take txRxBufSize
      if isOwnFrame pl pkt then (0, pl)
      else if answered then (0, pl)
      else
        let r := fragmentPacket pkt pl.packetIdCounter
          (UInt16.ofNat pl.cfg.symbolSize) pl.fragSyms
          (UInt16.ofNat pl.maxFragsPerPacket)
        let pl := { pl with fragSyms := r.2 }
        if r.1 < 0 then (0, pl)
        else
          addPacket wh clk r.1.toNat
            { pl with
              packetIdCounter := pl.packetIdCounter + 1
              accepted := pl.accepted ++ [pkt] }

/-- The state after a run; the caller stops at the first `-1`. -/
def txRun (wh : Wirehair) (clk : Nat → Nat) : List TxEvent → TxPipeline → Int × TxPipeline
  | [], pl => (0, pl)
  | ev :: evs, pl =>
      let r := txPipelineRunOnce wh clk pl ev
      if r.1 = -1 then r else txRun wh clk evs r.2

end FsoTxPipeline
