import FsoGateway.ArpCache
import FsoGateway.ConfigParse
import FsoGateway.ControlServer
import FsoGateway.Lib.Printf

/-! # The snapshot of the control server

    `build_snapshot_json` of `src/control_server.c` writes one JSON object into a
    buffer of the worker, append by append, and returns -1 at the first append
    that does not fit.  The events are drained before they are written.

    All fields are of the types of the source.  Counters of other modules that
    are natural numbers there are read as the 64 bits that stand in memory.

    * `buildSnapshotJson_eq` — for a buffer of any size: the snapshot is written
      just when its whole text fits, and then it is the whole text. -/

namespace FsoControlServer

open FsoConfig (IfaceName)
open FsoDeinterleaver FsoArpCache Printf

/-- `SNAPSHOT_BUF_SZ`. -/
def snapshotBufSz : Nat := 32768

/-- `ARP_DUMP_MAX`. -/
def arpDumpMax : Int := 32

/-! ## What is read -/

/-- `struct config`, the fields of the snapshot. -/
structure GatewayConfig where
  lanIface : IfaceName
  fsoIface : IfaceName
  k : Int32
  m : Int32
  depth : Int32
  symbolSize : Int32
  internalSymbolCrcEnabled : Int32

/-- `struct stats_container`, the fields of the snapshot. -/
structure StatsContainer where
  ingressPackets : UInt64
  ingressBytes : UInt64
  transmittedPackets : UInt64
  transmittedBytes : UInt64
  recoveredPackets : UInt64
  recoveredBytes : UInt64
  failedPackets : UInt64
  totalSymbols : UInt64
  lostSymbols : UInt64
  symbolsDroppedCrc : UInt64
  packetFailCrcDrop : UInt64
  blocksAttempted : UInt64
  blocksRecovered : UInt64
  blocksFailed : UInt64
  totalBursts : UInt64
  maxBurstLength : UInt64
  sumBurstLengths : UInt64
  burstLen1 : UInt64
  burstLen2To5 : UInt64
  burstLen6To10 : UInt64
  burstLen11To50 : UInt64
  burstLen51To100 : UInt64
  burstLen101To500 : UInt64
  burstLen501Plus : UInt64
  burstsExceedingFecSpan : UInt64
  configuredFecBurstSpan : UInt64
  recoverableBursts : UInt64
  criticalBursts : UInt64
  blocksWithLoss : UInt64
  worstHolesInBlock : UInt64
  totalHolesInBlocks : UInt64

/-- `struct block_event`, whatever stands in it. -/
structure EventRecord where
  blockId : UInt32
  tsMs : Int64
  reason : UInt8
  isEviction : UInt8

/-- `struct control_server`, as a snapshot reads it. -/
structure SnapshotServer where
  gatewayCfg : Option GatewayConfig
  dil : Option Deinterleaver
  arpCache : Option ArpCache
  events : RingBuffer EventRecord

/-- The clocks: `now_ms`, the `double` that `elapsed_seconds` returns, and
    `time` in `arp_cache_dump`. -/
structure Readings where
  nowMs : Int64
  uptimeSec : ℚ
  time : Int

/-! ## The formats -/

/-- `escape_iface`; a name that is cut keeps its front. -/
def escapeIface (outSz : Nat) : Option Text → Text
  | none => []
  | some name => (name.take (outSz - 1)).map fun c => if c = 34 ∨ c = 92 then 95 else c

/-- `reason_str`. -/
def reasonStr : UInt8 → String
  | 0 => "NONE"
  | 1 => "SUCCESS"
  | 2 => "DECODE_FAILED"
  | 3 => "TIMEOUT"
  | 4 => "TOO_MANY_HOLES"
  | 5 => "EVICTED_FILLING"
  | 6 => "EVICTED_READY"
  | _ => "UNKNOWN"

/-- Members of an object that are counters. -/
def counters : List (String × UInt64) → List Piece
  | [] => []
  | [(name, x)] => [.text "\"", .text name, .text "\":", .ulong x]
  | (name, x) :: rest =>
    [.text "\"", .text name, .text "\":", .ulong x, .text ","] ++ counters rest

/-- The counters in `stats`. -/
def statCounters (s : StatsContainer) : List (String × UInt64) :=
  [("ingress_packets", s.ingressPackets),
    ("ingress_bytes", s.ingressBytes),
    ("transmitted_packets", s.transmittedPackets),
    ("transmitted_bytes", s.transmittedBytes),
    ("recovered_packets", s.recoveredPackets),
    ("recovered_bytes", s.recoveredBytes),
    ("failed_packets", s.failedPackets),
    ("total_symbols", s.totalSymbols),
    ("lost_symbols", s.lostSymbols),
    ("symbols_dropped_crc", s.symbolsDroppedCrc),
    ("packet_fail_crc_drop", s.packetFailCrcDrop),
    ("blocks_attempted", s.blocksAttempted),
    ("blocks_recovered", s.blocksRecovered),
    ("blocks_failed", s.blocksFailed),
    ("total_bursts", s.totalBursts),
    ("max_burst_length", s.maxBurstLength),
    ("sum_burst_lengths", s.sumBurstLengths),
    ("burst_len_1", s.burstLen1),
    ("burst_len_2_5", s.burstLen2To5),
    ("burst_len_6_10", s.burstLen6To10),
    ("burst_len_11_50", s.burstLen11To50),
    ("burst_len_51_100", s.burstLen51To100),
    ("burst_len_101_500", s.burstLen101To500),
    ("burst_len_501_plus", s.burstLen501Plus),
    ("bursts_exceeding_fec_span", s.burstsExceedingFecSpan),
    ("configured_fec_burst_span", s.configuredFecBurstSpan),
    ("recoverable_bursts", s.recoverableBursts),
    ("critical_bursts", s.criticalBursts),
    ("blocks_with_loss", s.blocksWithLoss),
    ("worst_holes_in_block", s.worstHolesInBlock),
    ("total_holes_in_blocks", s.totalHolesInBlocks)]

/-- The counters in `dil_stats`. -/
def dilCounters (ds : DilStats) : List (String × UInt64) :=
  [("dropped_duplicate", .ofNat ds.droppedSymbolsDuplicate),
    ("dropped_frozen", .ofNat ds.droppedSymbolsFrozen),
    ("dropped_erasure", .ofNat ds.droppedSymbolsErasure),
    ("dropped_crc_fail", .ofNat ds.droppedSymbolsCrcFail),
    ("evicted_filling", .ofNat ds.evictedFillingBlocks),
    ("evicted_done", .ofNat ds.evictedDoneBlocks),
    ("blocks_ready", .ofNat ds.blocksReady),
    ("blocks_failed_timeout", .ofNat ds.blocksFailedTimeout),
    ("blocks_failed_holes", .ofNat ds.blocksFailedHoles)]

/-- `config`, with what stands on either side of it. -/
def configFormat (k m depth symbolSize crc : Int32) (lan fso : Text) : List Piece :=
  [.text ",\"config\":\x7b\"k\":", .int k, .text ",\"m\":", .int m,
    .text ",\"depth\":", .int depth, .text ",\"symbol_size\":", .int symbolSize,
    .text ",\"internal_symbol_crc\":", .int crc,
    .text ",\"lan_iface\":\"", .str lan, .text "\",\"fso_iface\":\"", .str fso,
    .text "\"\x7d,\"stats\":\x7b"]

def headFormat (t : Readings) (k m depth symbolSize crc : Int32) (lan fso : Text)
    (s : StatsContainer) : List Piece :=
  [.text "\x7b\"schema\":\"fso-gw-stats/2\",\"ts_ms\":", .long t.nowMs,
    .text ",\"uptime_sec\":", .double 3 t.uptimeSec]
  ++ configFormat k m depth symbolSize crc lan fso ++ counters (statCounters s)
  ++ [.text "\x7d"]

/-- The first append, for the configuration or for none. -/
def headOf (t : Readings) (s : StatsContainer) : Option GatewayConfig → List Piece
  | none => headFormat t 0 0 0 0 0 [] [] s
  | some cfg =>
    headFormat t cfg.k cfg.m cfg.depth cfg.symbolSize cfg.internalSymbolCrcEnabled
      (escapeIface 32 (some cfg.lanIface)) (escapeIface 32 (some cfg.fsoIface)) s

def dilFormat (ds : DilStats) (active ready : Int32) : List Piece :=
  [.text ",\"dil_stats\":\x7b"]
  ++ counters (dilCounters ds)
  ++ [.text ",\"active_blocks\":", .int active, .text ",\"ready_count\":", .int ready,
    .text "\x7d"]

/-- The append for the deinterleaver. -/
def dilOf (d : Deinterleaver) : List Piece :=
  dilFormat d.stats (.ofNat (deinterleaverActiveBlocks d)) (.ofNat (deinterleaverReadyCount d))

/-- An entry of the ARP cache; its time is an `int64_t`. -/
def arpFormat (sep : String) (e : ArpEntry) : List Piece :=
  let ip := e.ipNbo
  [.str (bytes sep), .text "\x7b\"ip\":\"",
    .uint ((ip >>> 0) &&& 0xff), .text ".", .uint ((ip >>> 8) &&& 0xff), .text ".",
    .uint ((ip >>> 16) &&& 0xff), .text ".", .uint ((ip >>> 24) &&& 0xff),
    .text "\",\"mac\":\"", .hex e.mac[0], .text ":", .hex e.mac[1], .text ":",
    .hex e.mac[2], .text ":", .hex e.mac[3], .text ":", .hex e.mac[4], .text ":",
    .hex e.mac[5], .text "\",\"last_seen_ms\":", .long (.ofInt e.lastSeenMs), .text "\x7d"]

def eventFormat (sep : String) (e : EventRecord) : List Piece :=
  [.str (bytes sep), .text "\x7b\"block_id\":", .uint e.blockId, .text ",\"ts_ms\":",
    .long e.tsMs, .text ",\"reason\":\"", .str (bytes (reasonStr e.reason)),
    .text "\",\"evicted\":", .int (.ofNat e.isEviction.toNat), .text "\x7d"]

/-! ## The appends -/

/-- `append_fmt`: the text up to `pos`, or `none` for -1.  What `vsnprintf` leaves
    behind `pos` when it fails is not read again. -/
def appendFmt (bufsz : Nat) (buf : Text) (fmt : List Piece) : Option Text :=
  if bufsz ≤ buf.length then none
  else
    let out := render fmt
    if bufsz - buf.length ≤ out.length then none else some (buf ++ out)

/-- The comma before all entries of an array but the first. -/
def separator (i : Nat) : String := if i = 0 then "" else ","

/-- A loop that appends the entries of an array. -/
def appendEntries {ε : Type} (bufsz : Nat) (fmt : String → ε → List Piece) (entries : List ε)
    (buf : Text) : Option Text :=
  entries.zipIdx.foldlM (fun buf e => appendFmt bufsz buf (fmt (separator e.2) e.1)) buf

/-- The counters of the deinterleaver, if there is one. -/
def appendDil (bufsz : Nat) (buf : Text) : Option Deinterleaver → Option Text
  | none => some buf
  | some d => appendFmt bufsz buf (dilOf d)

/-- The dump of the ARP cache, if there is one. -/
def appendArp (bufsz : Nat) (buf : Text) (time : Int) : Option ArpCache → Option Text
  | none => some buf
  | some c => do
    let arp := arpCacheDump c time arpDumpMax
    let buf ← appendFmt bufsz buf [.text ",\"arp\":["]
    let buf ← appendEntries bufsz arpFormat arp buf
    appendFmt bufsz buf [.text "]"]

/-- What is appended before the ring is drained. -/
def appendState (bufsz : Nat) (cs : SnapshotServer) (t : Readings) (s : StatsContainer) :
    Option Text := do
  let buf ← appendFmt bufsz [] (headOf t s cs.gatewayCfg)
  let buf ← appendDil bufsz buf cs.dil
  appendArp bufsz buf t.time cs.arpCache

/-- And what is appended for the drained events. -/
def appendEvents (bufsz : Nat) (evs : List EventRecord) (buf : Text) : Option Text := do
  let buf ← appendFmt bufsz buf [.text ",\"block_events\":["]
  let buf ← appendEntries bufsz eventFormat evs buf
  let buf ← appendFmt bufsz buf [.text "]"]
  appendFmt bufsz buf [.text "\x7d\n"]

/-- `build_snapshot_json`: the text in the buffer, or `none` for -1, and the
    server after it. -/
def buildSnapshotJson (bufsz : Nat) (cs : SnapshotServer) (t : Readings)
    (s : StatsContainer) : Option Text × SnapshotServer :=
  match appendState bufsz cs t s with
  | none => (none, cs)
  | some buf =>
    let r := RingBuffer.drain eventRingCap cs.events eventRingCap
    (appendEvents bufsz r.1 buf, { cs with events := r.2 })

/-! ## The whole text -/

def entriesText {ε : Type} (fmt : String → ε → List Piece) (entries : List ε) : Text :=
  (entries.zipIdx.map fun e => render (fmt (separator e.2) e.1)).flatten

def dilText : Option Deinterleaver → Text
  | none => []
  | some d => render (dilOf d)

def arpText (time : Int) : Option ArpCache → Text
  | none => []
  | some c =>
    bytes ",\"arp\":[" ++ entriesText arpFormat (arpCacheDump c time arpDumpMax) ++ bytes "]"

def eventsText (evs : List EventRecord) : Text :=
  bytes ",\"block_events\":[" ++ entriesText eventFormat evs ++ bytes "]\x7d\n"

/-- The text before the events. -/
def stateText (cs : SnapshotServer) (t : Readings) (s : StatsContainer) : Text :=
  render (headOf t s cs.gatewayCfg) ++ dilText cs.dil ++ arpText t.time cs.arpCache

/-- The snapshot as it is meant: nothing is left out. -/
def snapshotText (cs : SnapshotServer) (t : Readings) (s : StatsContainer) : Text :=
  stateText cs t s ++ eventsText (RingBuffer.drain eventRingCap cs.events eventRingCap).1

/-! ## One append of everything -/

section Appends

variable {bufsz : Nat} (buf x : Text)

theorem appendFmt_eq (fmt : List Piece) : appendFmt bufsz buf fmt = put bufsz buf (render fmt) := by
  rw [appendFmt, put]
  by_cases hfull : bufsz ≤ buf.length
  · rw [if_pos hfull, if_neg (by omega)]
  · rw [if_neg hfull]
    by_cases hfits : buf.length + (render fmt).length < bufsz
    · rw [if_pos hfits]
      exact if_neg (by omega)
    · rw [if_neg hfits]
      exact if_pos (by omega)

theorem render_text (s : String) : render [.text s] = bytes s := List.append_nil _

theorem bind_appendFmt (fmt : List Piece) :
    ((put bufsz buf x).bind fun b => appendFmt bufsz b fmt) = put bufsz buf (x ++ render fmt) := by
  rw [← put_bind_put]
  simp only [appendFmt_eq]

theorem bind_appendEntries {ε : Type} (fmt : String → ε → List Piece) (entries : List ε) :
    ((put bufsz buf x).bind fun b => appendEntries bufsz fmt entries b)
      = put bufsz buf (x ++ entriesText fmt entries) := by
  rw [entriesText, ← put_bind_putAll]
  simp only [appendEntries, putAll, List.foldlM_map, appendFmt_eq]

theorem bind_appendDil (dil : Option Deinterleaver) :
    ((put bufsz buf x).bind fun b => appendDil bufsz b dil)
      = put bufsz buf (x ++ dilText dil) := by
  cases dil with
  | none =>
      rw [dilText, List.append_nil]
      exact Option.bind_fun_some _
  | some d => exact bind_appendFmt buf x (dilOf d)

theorem bind_appendArp (time : Int) (arpCache : Option ArpCache) :
    ((put bufsz buf x).bind fun b => appendArp bufsz b time arpCache)
      = put bufsz buf (x ++ arpText time arpCache) := by
  cases arpCache with
  | none =>
      rw [arpText, List.append_nil]
      exact Option.bind_fun_some _
  | some c =>
      rw [arpText, ← render_text, ← render_text, ← List.append_assoc, ← List.append_assoc,
        ← bind_appendFmt, ← bind_appendEntries, ← bind_appendFmt]
      simp only [Option.bind_assoc]
      rfl

theorem bind_appendEvents (evs : List EventRecord) :
    ((put bufsz buf x).bind fun b => appendEvents bufsz evs b)
      = put bufsz buf (x ++ eventsText evs) := by
  have hclose : bytes "]\x7d\n" = render [.text "]"] ++ render [.text "\x7d\n"] := by
    rw [render_text, render_text]
    rfl
  rw [eventsText, hclose, ← render_text, ← List.append_assoc, ← List.append_assoc,
    ← List.append_assoc, ← bind_appendFmt, ← bind_appendFmt, ← bind_appendEntries,
    ← bind_appendFmt]
  simp only [Option.bind_assoc]
  rfl

end Appends

theorem appendState_eq (bufsz : Nat) (cs : SnapshotServer) (t : Readings) (s : StatsContainer) :
    appendState bufsz cs t s = put bufsz [] (stateText cs t s) := by
  rw [stateText, ← bind_appendArp, ← bind_appendDil, ← appendFmt_eq]
  simp only [Option.bind_assoc]
  rfl

/-- **A snapshot** is its whole text, or it is refused because that does not
    fit. -/
theorem buildSnapshotJson_eq (bufsz : Nat) (cs : SnapshotServer) (t : Readings)
    (s : StatsContainer) :
    (buildSnapshotJson bufsz cs t s).1
      = if (snapshotText cs t s).length < bufsz then some (snapshotText cs t s) else none := by
  have hput : (buildSnapshotJson bufsz cs t s).1 = put bufsz [] (snapshotText cs t s) := by
    rw [snapshotText, ← bind_appendEvents, ← appendState_eq, buildSnapshotJson]
    cases appendState bufsz cs t s <;> rfl
  rw [hput, put, List.length_nil, Nat.zero_add, List.nil_append]

/-- A snapshot that is written leaves the ring empty. -/
theorem buildSnapshotJson_drained {bufsz : Nat} {cs : SnapshotServer} {t : Readings}
    {s : StatsContainer} (h : (snapshotText cs t s).length < bufsz) :
    (buildSnapshotJson bufsz cs t s).2
      = { cs with events := (RingBuffer.drain eventRingCap cs.events eventRingCap).2 } := by
  have hstate : (stateText cs t s).length < bufsz := by
    rw [snapshotText, List.length_append] at h
    omega
  rw [buildSnapshotJson, appendState_eq, put, if_pos]
  rwa [List.length_nil, Nat.zero_add]

end FsoControlServer
