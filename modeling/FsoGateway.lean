import FsoGateway.Lib.ByteBuffer
import FsoGateway.Lib.Bitset
import FsoGateway.Lib.Scan
import FsoGateway.Types
import FsoGateway.Deinterleaver
import FsoGateway.DeinterleaverSteps
import FsoGateway.DeinterleaverInvariant
import FsoGateway.DeinterleaverFrame
import FsoGateway.PayloadBlind
import FsoGateway.Lib.ErasureCode
import FsoGateway.FecWrapper
import FsoGateway.FecProofs
import FsoGateway.FecAgreement
import FsoGateway.FecRoundTrip
import FsoGateway.SymbolCrc
import FsoGateway.PacketFragmenter
import FsoGateway.BlockBuilder
import FsoGateway.Interleaver
import FsoGateway.TxPipeline
import FsoGateway.Lib.Burst
import FsoGateway.Lib.Crc
import FsoGateway.InterleaverSteps
import FsoGateway.TxEncode
import FsoGateway.TxEncodeLog
import FsoGateway.TxInduction
import FsoGateway.TxInvariant
import FsoGateway.TxRuns
import FsoGateway.TxPlacement
import FsoGateway.BurstSpread
import FsoGateway.PacketReassembler
import FsoGateway.RxPipeline
import FsoGateway.RxSteps
import FsoGateway.RxOnce
import FsoGateway.RxReady
import FsoGateway.RxWalk
import FsoGateway.BlockRecovery
import FsoGateway.RxFragments
import FsoGateway.Recoverability
import FsoGateway.WireFormat
import FsoGateway.WireParse
import FsoGateway.SentBlocks
import FsoGateway.SentStream
import FsoGateway.LossSafety
import FsoGateway.SymbolProvenance
import FsoGateway.CompleteBlock
import FsoGateway.RxInOrder
import FsoGateway.LosslessLink
import FsoGateway.Lib.KeyedWindow
import FsoGateway.Lib.SlotPool
import FsoGateway.BlockAccounting
import FsoGateway.Lib.RingBuffer
import FsoGateway.ControlServer
import FsoGateway.EventStream
import FsoGateway.InterleaverWindow
import FsoGateway.PaddingContract
import FsoGateway.BlockIds
import FsoGateway.ConfigStore
import FsoGateway.ConfigAgreement
import FsoGateway.Lib.Runs
import FsoGateway.DaemonSupervisor
import FsoGateway.DaemonInvariant
import FsoGateway.Lib.KeyedTable
import FsoGateway.ArpCache
import FsoGateway.RunStore
import FsoGateway.Lib.Layout
import FsoGateway.Reassembly
import FsoGateway.ReassemblySound
import FsoGateway.DeinterleaverExits
import FsoGateway.RxDrain
import FsoGateway.PacketRecovery
import FsoGateway.TxAnySize
import FsoGateway.TxTimers
import FsoGateway.TxFlush
import FsoGateway.ConfigParse
import FsoGateway.SymbolAccess
import FsoGateway.TxAccesses
import FsoGateway.RxAccesses
import FsoGateway.BufferBounds
import FsoGateway.ArpRetention
import FsoGateway.DpdkDedup
import FsoGateway.Lib.Segments
import FsoGateway.BurstStats
import FsoGateway.HwStats
import FsoGateway.GatewaySource
import FsoGateway.AlertIds
import FsoGateway.Lib.Sampling
import FsoGateway.RunSamples
import FsoGateway.LogTail
import FsoGateway.LogWatch
import FsoGateway.LogProgress
import FsoGateway.LogFollow
import FsoGateway.CrcTable
import FsoGateway.EventRing
import FsoGateway.Lib.Printf
import FsoGateway.Snapshot
import FsoGateway.SnapshotFits
import FsoGateway.Lib.Tally
import FsoGateway.PipelineStats
import FsoGateway.RxAccounting
import FsoGateway.RxLedger
import FsoGateway.TxAccounting
import FsoGateway.ProxyArp
import FsoGateway.GatewayThreads
import FsoGateway.RxQuiet
import FsoGateway.Lib.Json
import FsoGateway.Lib.JsonCut
import FsoGateway.Lib.JsonWrite
import FsoGateway.SnapshotRead
import FsoGateway.TelemetryStream
import FsoGateway.RunDatabase
import FsoGateway.LossyRun
