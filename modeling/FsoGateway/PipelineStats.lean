import FsoGateway.BurstStats
import FsoGateway.HwStats
import FsoGateway.Lib.Tally

/-! # The counters of the pipelines

    The two pipelines count what they do in `src/stats.c`, and the receiver
    also in `src/hw_stats.c`, when it was given a handle.  A counting call is
    a value here, so that the calls of a run form a list.

    * `runStats`, `runHw` — the counters after a list of calls;
    * `runStats_interleaved` — the calls of the two pipelines do not get in each
      other's way, in whatever order they are made. -/

namespace FsoStats

open FsoHwStats

/-! ## `stats.c` -/

/-- `stats_atomic_container_t`, less `packet_fail_crc_drop`. -/
structure StatsAtomicContainer extends StatsContainer where
  ingressPackets : Nat
  ingressBytes : Nat
  transmittedPackets : Nat
  transmittedBytes : Nat
  recoveredPackets : Nat
  recoveredBytes : Nat
  failedPackets : Nat
  symbolsDroppedCrc : Nat
  blocksAttempted : Nat
  blocksRecovered : Nat
  blocksFailed : Nat
  blocksWithLoss : Nat
  worstHolesInBlock : Nat
  totalHolesInBlocks : Nat

/-- The counters as a program starts with them: cleared memory. -/
def statsZero : StatsAtomicContainer where
  totalSymbols := 0
  lostSymbols := 0
  totalBursts := 0
  currentBurstLength := 0
  maxBurstLength := 0
  sumBurstLengths := 0
  burstLen1 := 0
  burstLen2To5 := 0
  burstLen6To10 := 0
  burstLen11To50 := 0
  burstLen51To100 := 0
  burstLen101To500 := 0
  burstLen501Plus := 0
  burstsExceedingFecSpan := 0
  configuredFecBurstSpan := 0
  recoverableBursts := 0
  criticalBursts := 0
  burstSamplesRecorded := 0
  burstSamplesDropped := 0
  burstSamples := Vector.replicate statsMaxBurstSamples 0
  ingressPackets := 0
  ingressBytes := 0
  transmittedPackets := 0
  transmittedBytes := 0
  recoveredPackets := 0
  recoveredBytes := 0
  failedPackets := 0
  symbolsDroppedCrc := 0
  blocksAttempted := 0
  blocksRecovered := 0
  blocksFailed := 0
  blocksWithLoss := 0
  worstHolesInBlock := 0
  totalHolesInBlocks := 0

/-- `stats_init`. -/
def statsInit (s : StatsAtomicContainer) : StatsAtomicContainer where
  toStatsContainer := statsReset s.toStatsContainer
  ingressPackets := 0
  ingressBytes := 0
  transmittedPackets := 0
  transmittedBytes := 0
  recoveredPackets := 0
  recoveredBytes := 0
  failedPackets := 0
  symbolsDroppedCrc := 0
  blocksAttempted := 0
  blocksRecovered := 0
  blocksFailed := 0
  blocksWithLoss := 0
  worstHolesInBlock := 0
  totalHolesInBlocks := 0

/-- The counters that `gateway_create` starts with: `stats_init`, then the span. -/
def statsStart (s : StatsAtomicContainer) (span : Nat) : StatsAtomicContainer :=
  { statsInit s with
    toStatsContainer := statsSetBurstFecSpan (statsReset s.toStatsContainer) span }

/-- `stats_inc_ingress`. -/
def statsIncIngress (s : StatsAtomicContainer) (bytes : Nat) : StatsAtomicContainer :=
  { s with ingressPackets := s.ingressPackets + 1, ingressBytes := s.ingressBytes + bytes }

/-- `stats_inc_transmitted`. -/
def statsIncTransmitted (s : StatsAtomicContainer) (bytes : Nat) : StatsAtomicContainer :=
  { s with
    transmittedPackets := s.transmittedPackets + 1
    transmittedBytes := s.transmittedBytes + bytes }

/-- `stats_inc_recovered`. -/
def statsIncRecovered (s : StatsAtomicContainer) (bytes : Nat) : StatsAtomicContainer :=
  { s with
    recoveredPackets := s.recoveredPackets + 1
    recoveredBytes := s.recoveredBytes + bytes }

/-- `stats_inc_failed_packet`. -/
def statsIncFailedPacket (s : StatsAtomicContainer) : StatsAtomicContainer :=
  { s with failedPackets := s.failedPackets + 1 }

/-- `stats_add_symbols`; nothing is added for a 0. -/
def statsAddSymbols (s : StatsAtomicContainer) (total lost : Nat) : StatsAtomicContainer :=
  { s with
    totalSymbols := if total > 0 then s.totalSymbols + total else s.totalSymbols
    lostSymbols := if lost > 0 then s.lostSymbols + lost else s.lostSymbols }

/-- `stats_record_block`. -/
def statsRecordBlock (s : StatsAtomicContainer) (holes : Nat) : StatsAtomicContainer :=
  if holes = 0 then s
  else
    { s with
      blocksWithLoss := s.blocksWithLoss + 1
      totalHolesInBlocks := s.totalHolesInBlocks + holes
      worstHolesInBlock := statsUpdateMax s.worstHolesInBlock holes }

/-- `stats_inc_block_attempt`. -/
def statsIncBlockAttempt (s : StatsAtomicContainer) : StatsAtomicContainer :=
  { s with blocksAttempted := s.blocksAttempted + 1 }

/-- `stats_inc_block_success`. -/
def statsIncBlockSuccess (s : StatsAtomicContainer) : StatsAtomicContainer :=
  { s with blocksRecovered := s.blocksRecovered + 1 }

/-- `stats_inc_block_failure`. -/
def statsIncBlockFailure (s : StatsAtomicContainer) : StatsAtomicContainer :=
  { s with blocksFailed := s.blocksFailed + 1 }

/-- `stats_inc_crc_drop_symbol`. -/
def statsIncCrcDropSymbol (s : StatsAtomicContainer) : StatsAtomicContainer :=
  { s with symbolsDroppedCrc := s.symbolsDroppedCrc + 1 }

/-! ## `hw_stats.c` -/

/-- `hw_stats_block_success`. -/
def hwStatsBlockSuccess (s : HwStats) : HwStats :=
  { s with
    counters := { s.counters with
      blocksAttempted := s.counters.blocksAttempted + 1
      blocksDecodeSuccess := s.counters.blocksDecodeSuccess + 1 } }

/-- `hw_stats_block_failed`. -/
def hwStatsBlockFailed (s : HwStats) : HwStats :=
  { s with
    counters := { s.counters with
      blocksAttempted := s.counters.blocksAttempted + 1
      blocksDecodeFailed := s.counters.blocksDecodeFailed + 1 } }

/-- `hw_stats_packet_recovered`. -/
def hwStatsPacketRecovered (s : HwStats) : HwStats :=
  { s with
    counters := { s.counters with packetsRecovered := s.counters.packetsRecovered + 1 } }

/-- `hw_stats_packet_failed`. -/
def hwStatsPacketFailed (s : HwStats) : HwStats :=
  { s with counters := { s.counters with packetsFailed := s.counters.packetsFailed + 1 } }

/-! ## Calls -/

/-- A call that a pipeline makes; those with `hw` go to the handle. -/
inductive StatsCall where
  | incIngress (bytes : Nat)
  | incTransmitted (bytes : Nat)
  | incRecovered (bytes : Nat)
  | incFailedPacket
  | addSymbols (total lost : Nat)
  | recordBlock (holes : Nat)
  | incBlockAttempt
  | incBlockSuccess
  | incBlockFailure
  | incCrcDropSymbol
  | hwBlockSuccess
  | hwBlockFailed
  | hwRecordBlockHoles (holes : Nat)
  | hwPacketRecovered
  | hwPacketFailed

/-- What a call does to the global counters. -/
def statsStep (s : StatsAtomicContainer) : StatsCall → StatsAtomicContainer
  | .incIngress bytes => statsIncIngress s bytes
  | .incTransmitted bytes => statsIncTransmitted s bytes
  | .incRecovered bytes => statsIncRecovered s bytes
  | .incFailedPacket => statsIncFailedPacket s
  | .addSymbols total lost => statsAddSymbols s total lost
  | .recordBlock holes => statsRecordBlock s holes
  | .incBlockAttempt => statsIncBlockAttempt s
  | .incBlockSuccess => statsIncBlockSuccess s
  | .incBlockFailure => statsIncBlockFailure s
  | .incCrcDropSymbol => statsIncCrcDropSymbol s
  | _ => s

/-- What a call does to the counters behind the handle. -/
def hwStep (s : HwStats) : StatsCall → HwStats
  | .hwBlockSuccess => hwStatsBlockSuccess s
  | .hwBlockFailed => hwStatsBlockFailed s
  | .hwRecordBlockHoles holes => hwStatsRecordBlockHoles s holes
  | .hwPacketRecovered => hwStatsPacketRecovered s
  | .hwPacketFailed => hwStatsPacketFailed s
  | _ => s

/-- The global counters after a list of calls. -/
def runStats (s : StatsAtomicContainer) (calls : List StatsCall) : StatsAtomicContainer :=
  calls.foldl statsStep s

/-- The counters behind the handle after a list of calls. -/
def runHw (s : HwStats) (calls : List StatsCall) : HwStats := calls.foldl hwStep s

/-! ## Two pipelines -/

/-- Is it a call of the receiver? -/
def StatsCall.isRx : StatsCall → Bool
  | .incIngress _ => false
  | .incTransmitted _ => false
  | _ => true

/-- The lengths of the packets taken in. -/
def StatsCall.ingress : StatsCall → Option Nat
  | .incIngress bytes => some bytes
  | _ => none

/-- The lengths of the frames transmitted. -/
def StatsCall.transmitted : StatsCall → Option Nat
  | .incTransmitted bytes => some bytes
  | _ => none

/-- The counters of the transmitter, raised. -/
def addTx (s : StatsAtomicContainer) (ingress transmitted : List Nat) : StatsAtomicContainer :=
  { s with
    ingressPackets := s.ingressPackets + ingress.length
    ingressBytes := s.ingressBytes + ingress.sum
    transmittedPackets := s.transmittedPackets + transmitted.length
    transmittedBytes := s.transmittedBytes + transmitted.sum }

/-- A call of the receiver leaves the counters of the transmitter alone, and
    does not look at them. -/
theorem statsStep_addTx {c : StatsCall} (h : c.isRx = true) (s : StatsAtomicContainer)
    (ingress transmitted : List Nat) :
    statsStep (addTx s ingress transmitted) c = addTx (statsStep s c) ingress transmitted := by
  cases c with
  | incIngress bytes => exact absurd h Bool.false_ne_true
  | incTransmitted bytes => exact absurd h Bool.false_ne_true
  | recordBlock holes =>
      show statsRecordBlock _ holes = addTx (statsRecordBlock s holes) _ _
      rw [statsRecordBlock, statsRecordBlock]
      split <;> rfl
  | _ => rfl

theorem runStats_addTx {log : List StatsCall} (h : ∀ c ∈ log, c.isRx = true)
    (s : StatsAtomicContainer) (ingress transmitted : List Nat) :
    runStats (addTx s ingress transmitted) log
      = addTx (runStats s log) ingress transmitted := by
  induction log generalizing s with
  | nil => rfl
  | cons c log ih =>
      obtain ⟨hc, hlog⟩ := List.forall_mem_cons.mp h
      show runStats (statsStep _ c) log = addTx (runStats (statsStep s c) log) _ _
      rw [statsStep_addTx hc, ih hlog]

theorem addTx_addTx (s : StatsAtomicContainer) (ingress ingress' transmitted transmitted' :
    List Nat) :
    addTx (addTx s ingress transmitted) ingress' transmitted'
      = addTx s (ingress ++ ingress') (transmitted ++ transmitted') := by
  simp only [addTx, List.length_append, List.sum_append, Nat.add_assoc]

/-- **The order of the pipelines' calls does not matter**: the counters are
    those of the receiver's calls alone, with the transmitter's calls added. -/
theorem runStats_interleaved (log : List StatsCall) (s : StatsAtomicContainer) :
    runStats s log = addTx (runStats s (log.filter StatsCall.isRx))
      (log.filterMap StatsCall.ingress) (log.filterMap StatsCall.transmitted) := by
  have hrx : ∀ log : List StatsCall, ∀ c ∈ log.filter StatsCall.isRx, c.isRx = true :=
    fun log c hc => (List.mem_filter.mp hc).2
  have htx : ∀ (c : StatsCall) (log : List StatsCall) (s : StatsAtomicContainer),
      statsStep s c = addTx s c.ingress.toList c.transmitted.toList →
      c.isRx = false →
      runStats (statsStep s c) log = addTx (runStats (statsStep s c) (log.filter StatsCall.isRx))
        (log.filterMap StatsCall.ingress) (log.filterMap StatsCall.transmitted) →
      runStats s (c :: log) = addTx (runStats s ((c :: log).filter StatsCall.isRx))
        ((c :: log).filterMap StatsCall.ingress)
        ((c :: log).filterMap StatsCall.transmitted) := by
    intro c log s hstep hc ih
    rw [hstep, runStats_addTx (hrx log), addTx_addTx, ← hstep] at ih
    rw [List.filter_cons_of_neg (by rw [hc]; decide)]
    refine ih.trans ?_
    rw [List.filterMap_cons, List.filterMap_cons]
    cases c.ingress <;> cases c.transmitted <;> rfl
  induction log generalizing s with
  | nil => rfl
  | cons c log ih =>
      cases c with
      | incIngress bytes => exact htx _ _ _ rfl rfl (ih _)
      | incTransmitted bytes => exact htx _ _ _ rfl rfl (ih _)
      | _ => exact ih _

/-- The counters of the transmitter. -/
structure TxCounters where
  ingressPackets : Nat
  ingressBytes : Nat
  transmittedPackets : Nat
  transmittedBytes : Nat

def txCounters (s : StatsAtomicContainer) : TxCounters :=
  ⟨s.ingressPackets, s.ingressBytes, s.transmittedPackets, s.transmittedBytes⟩

/-- The receiver leaves the counters of the transmitter alone. -/
theorem txCounters_runStats {log : List StatsCall} (h : ∀ c ∈ log, c.isRx = true)
    (s : StatsAtomicContainer) : txCounters (runStats s log) = txCounters s := by
  induction log generalizing s with
  | nil => rfl
  | cons c log ih =>
      obtain ⟨hc, hlog⟩ := List.forall_mem_cons.mp h
      refine (ih hlog (statsStep s c)).trans ?_
      cases c with
      | incIngress bytes => exact absurd hc Bool.false_ne_true
      | incTransmitted bytes => exact absurd hc Bool.false_ne_true
      | recordBlock holes =>
          show txCounters (statsRecordBlock s holes) = _
          rw [statsRecordBlock]
          split <;> rfl
      | _ => rfl

/-- What calls of the transmitter count from 0 on. -/
def countTx (calls : List StatsCall) : TxCounters where
  ingressPackets := (calls.filterMap StatsCall.ingress).length
  ingressBytes := (calls.filterMap StatsCall.ingress).sum
  transmittedPackets := (calls.filterMap StatsCall.transmitted).length
  transmittedBytes := (calls.filterMap StatsCall.transmitted).sum

/-- The counters of the transmitter after a list of calls are those of its own. -/
theorem txCounters_interleaved (log : List StatsCall) (s : StatsAtomicContainer) (span : Nat) :
    txCounters (runStats (statsStart s span) log) = countTx (log.filter fun c => !c.isRx) := by
  have hpart : ∀ f : StatsCall → Option Nat, (∀ c, c.isRx = true → f c = none) →
      (log.filter fun c => !c.isRx).filterMap f = log.filterMap f := by
    intro f hf
    rw [List.filterMap_filter]
    refine List.filterMap_congr fun c _ => ?_
    cases hc : c.isRx with
    | true => exact (hf c hc).symm
    | false => rfl
  have hrx : ∀ c ∈ log.filter StatsCall.isRx, c.isRx = true :=
    fun c hc => (List.mem_filter.mp hc).2
  have hzero := txCounters_runStats hrx (statsStart s span)
  have hin := hpart StatsCall.ingress fun c hc => by
    cases c <;> first | rfl | exact absurd hc Bool.false_ne_true
  have hout := hpart StatsCall.transmitted fun c hc => by
    cases c <;> first | rfl | exact absurd hc Bool.false_ne_true
  rw [countTx, hin, hout, runStats_interleaved]
  generalize runStats (statsStart s span) (log.filter StatsCall.isRx) = s1 at hzero
  have h1 : s1.ingressPackets = 0 := congrArg TxCounters.ingressPackets hzero
  have h2 : s1.ingressBytes = 0 := congrArg TxCounters.ingressBytes hzero
  have h3 : s1.transmittedPackets = 0 := congrArg TxCounters.transmittedPackets hzero
  have h4 : s1.transmittedBytes = 0 := congrArg TxCounters.transmittedBytes hzero
  rw [txCounters, addTx]
  simp only [h1, h2, h3, h4, Nat.zero_add]

/-- The transmitter makes no calls to the handle. -/
theorem runHw_interleaved (log : List StatsCall) (s : HwStats) :
    runHw s log = runHw s (log.filter StatsCall.isRx) := by
  induction log generalizing s with
  | nil => rfl
  | cons c log ih =>
      cases c with
      | _ => exact ih _

end FsoStats
