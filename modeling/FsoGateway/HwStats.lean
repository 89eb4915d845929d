import FsoGateway.Lib.Segments
import Mathlib.Algebra.Order.BigOperators.Group.List
import Mathlib.Algebra.Order.Ring.Nat

/-! # Hardware-test statistics

    `src/hw_stats.c`: the holes of successive blocks add up in a running burst
    until a block without holes, or a finalisation, closes it.  A closed burst
    is one entry of a histogram whose last bucket also takes all longer ones,
    and the snapshot computes the totals from the histogram again.

    * `runCalls_histogram` — what the histogram counts;
    * `hwStats_loses_nothing_iff` — the snapshot has the number of bursts right,
      and the number of lost symbols just when no burst is longer than 256;
    * `hwStats_loses` — two blocks in a row with 150 holes each. -/

namespace FsoHwStats

/-- `HW_STATS_BURST_MAX`. -/
def hwStatsBurstMax : Nat := 256

/-- `HW_STATS_BURST_BUCKETS`. -/
def hwStatsBurstBuckets : Nat := 257

/-- The plain counters of `struct hw_stats`. -/
structure HwCounters where
  blocksAttempted : Nat
  blocksDecodeSuccess : Nat
  blocksDecodeFailed : Nat
  blocksTooManyHoles : Nat
  blocksTimeout : Nat
  symbolsReceived : Nat
  symbolsCrcDropped : Nat
  packetsInjected : Nat
  packetsRecovered : Nat
  packetsFailed : Nat
  deriving DecidableEq

/-- `struct hw_stats`. -/
structure HwStats where
  counters : HwCounters
  burstHistogram : Vector Nat hwStatsBurstBuckets
  runningBurst : Nat

/-- `hw_stats_create`. -/
def hwStatsCreate : HwStats :=
  ⟨⟨0, 0, 0, 0, 0, 0, 0, 0, 0, 0⟩, Vector.replicate hwStatsBurstBuckets 0, 0⟩

/-- The bucket of a burst: its length, clamped to the last bucket. -/
def bucketIndex (burstLen : Nat) : Nat :=
  if burstLen > hwStatsBurstMax then hwStatsBurstMax else burstLen

theorem bucketIndex_eq (n : Nat) : bucketIndex n = min n hwStatsBurstMax := by
  rw [bucketIndex]
  split
  · rename_i h
    exact (Nat.min_eq_right (Nat.le_of_lt h)).symm
  · rename_i h
    exact (Nat.min_eq_left (Nat.le_of_not_lt h)).symm

theorem bucketIndex_lt (n : Nat) : bucketIndex n < hwStatsBurstBuckets := by
  rw [bucketIndex_eq]
  exact Nat.lt_succ_of_le (Nat.min_le_right n hwStatsBurstMax)

/-- `burst_histogram[bucket]`. -/
def HwStats.bucket (s : HwStats) (bucket : Nat) : Nat := s.burstHistogram[bucket]?.getD 0

/-- `burst_histogram[bucket_index]++; running_burst = 0`. -/
def HwStats.closeBurst (s : HwStats) : HwStats :=
  { s with
    burstHistogram := s.burstHistogram.set (bucketIndex s.runningBurst)
      (s.bucket (bucketIndex s.runningBurst) + 1) (bucketIndex_lt _)
    runningBurst := 0 }

/-- `hw_stats_finalize_running_burst`. -/
def hwStatsFinalizeRunningBurst (s : HwStats) : HwStats :=
  if s.runningBurst > 0 then s.closeBurst else s

/-- `hw_stats_record_block_holes`. -/
def hwStatsRecordBlockHoles (s : HwStats) (holeCount : Int) : HwStats :=
  if holeCount < 0 then s
  else if holeCount > 0 then { s with runningBurst := s.runningBurst + holeCount.toNat }
  else if s.runningBurst > 0 then s.closeBurst
  else s

/-- The totals that the loop of `hw_stats_compute_snapshot` adds up. -/
structure BurstTotals where
  totalBurstEvents : Nat
  symbolsLostTotal : Nat
  longestBurstSeen : Nat
  deriving DecidableEq

/-- One round of that loop. -/
def snapshotBucket (s : HwStats) (t : BurstTotals) (bucket : Nat) : BurstTotals :=
  let count := s.bucket bucket
  if count = 0 then t
  else if bucket < hwStatsBurstMax then
    ⟨t.totalBurstEvents + count, t.symbolsLostTotal + bucket * count, bucket⟩
  else ⟨t.totalBurstEvents + count, t.symbolsLostTotal + hwStatsBurstMax * count, hwStatsBurstMax⟩

/-- `hw_stats_snapshot_t`, but for the rates and the duration. -/
structure HwStatsSnapshot where
  counters : HwCounters
  totals : BurstTotals
  deriving DecidableEq

/-- `hw_stats_compute_snapshot`. -/
def hwStatsComputeSnapshot (s : HwStats) : HwStatsSnapshot :=
  let t := (List.range' 1 hwStatsBurstMax).foldl (snapshotBucket s) ⟨0, 0, 0⟩
  if s.runningBurst > 0 then
    let runningBucket := bucketIndex s.runningBurst
    ⟨s.counters, t.totalBurstEvents + 1, t.symbolsLostTotal + runningBucket,
      if runningBucket > t.longestBurstSeen then runningBucket else t.longestBurstSeen⟩
  else ⟨s.counters, t⟩

/-! ## Runs -/

inductive Call where
  | recordBlockHoles (holes : Nat)
  | finalizeRunningBurst

def step (s : HwStats) : Call → HwStats
  | .recordBlockHoles holes => hwStatsRecordBlockHoles s holes
  | .finalizeRunningBurst => hwStatsFinalizeRunningBurst s

def runCalls (calls : List Call) : HwStats := calls.foldl step hwStatsCreate

/-- The holes a call records; a call without holes ends a run of them. -/
def holesOf : Call → Nat
  | .recordBlockHoles holes => holes
  | .finalizeRunningBurst => 0

/-- The totals of the closed maximal runs of consecutive blocks with holes. -/
def closedRuns (calls : List Call) : List Nat := Segments.runs holesOf calls

/-- The holes since the last block without any, or finalisation. -/
def openRun (calls : List Call) : Nat := Segments.openRun holesOf calls

/-- All maximal runs, the open one too. -/
def allRuns (calls : List Call) : List Nat :=
  closedRuns calls ++ if openRun calls = 0 then [] else [openRun calls]

/-! ## The histogram -/

/-- The histogram counts these bursts. -/
def Histogram (rs : List Nat) (s : HwStats) : Prop :=
  ∀ b, b < hwStatsBurstBuckets → s.bucket b = rs.countP fun n => bucketIndex n = b

theorem bucket_closeBurst (s : HwStats) (b : Nat) :
    s.closeBurst.bucket b = s.bucket b + if bucketIndex s.runningBurst = b then 1 else 0 := by
  rw [HwStats.closeBurst, HwStats.bucket, Vector.getElem?_set]
  split
  · rename_i heq
    rw [← heq]
    rfl
  · rfl

theorem Histogram.close {rs : List Nat} {s : HwStats} (h : Histogram rs s) :
    Histogram (rs ++ [s.runningBurst]) s.closeBurst := by
  intro b hb
  rw [bucket_closeBurst, h b hb, List.countP_append, List.countP_singleton]
  simp

/-- The histogram and the running burst are the runs of the calls. -/
def Tracks (calls : List Call) (s : HwStats) : Prop :=
  Histogram (closedRuns calls) s ∧ s.runningBurst = openRun calls

/-- A call without holes closes the running burst, if there is one. -/
theorem Tracks.close {calls : List Call} {s : HwStats} (h : Tracks calls s) {call : Call}
    (hcall : holesOf call = 0) :
    Tracks (calls ++ [call]) (if s.runningBurst > 0 then s.closeBurst else s) := by
  obtain ⟨hhist, hrunning⟩ := h
  obtain ⟨hruns, hopen⟩ := Segments.concat_lossless hcall calls
  rw [← closedRuns, ← closedRuns, ← openRun] at hruns
  rw [← openRun] at hopen
  split
  · rename_i hpos
    constructor
    · rw [hruns, if_neg (by omega), ← hrunning]
      exact hhist.close
    · exact hopen.symm
  · rename_i hzero
    constructor
    · rw [hruns, if_pos (by omega), List.append_nil]
      exact hhist
    · omega

theorem step_tracks {calls : List Call} {s : HwStats} (h : Tracks calls s) (call : Call) :
    Tracks (calls ++ [call]) (step s call) := by
  cases call with
  | finalizeRunningBurst => exact h.close rfl
  | recordBlockHoles holes =>
      rw [step, hwStatsRecordBlockHoles, if_neg (by omega)]
      cases holes with
      | zero => exact h.close rfl
      | succ n =>
          obtain ⟨hhist, hrunning⟩ := h
          obtain ⟨hruns, hopen⟩ :=
            Segments.concat_loss (f := holesOf) (a := .recordBlockHoles (n + 1))
              (Nat.succ_ne_zero n) calls
          rw [if_pos (by omega)]
          constructor
          · rw [closedRuns, hruns]
            exact hhist
          · rw [openRun, hopen, ← openRun, ← hrunning]
            rfl

theorem tracks_create : Tracks [] hwStatsCreate := by
  refine ⟨?_, rfl⟩
  intro b hb
  rw [hwStatsCreate, HwStats.bucket, Vector.getElem?_replicate, if_pos hb]
  rfl

theorem runCalls_tracks (calls : List Call) : Tracks calls (runCalls calls) := by
  induction calls using List.reverseRecOn with
  | nil => exact tracks_create
  | append_singleton calls call ih =>
      rw [runCalls, List.foldl_append]
      exact step_tracks ih call

/-- **The histogram** counts the closed runs, each in the bucket of its length. -/
theorem runCalls_histogram (calls : List Call) : Histogram (closedRuns calls) (runCalls calls) :=
  (runCalls_tracks calls).1

/-! ## The snapshot -/

/-- What the loop adds up, bucket by bucket. -/
theorem foldl_snapshotBucket (s : HwStats) (buckets : List Nat) (t : BurstTotals)
    (h : ∀ b ∈ buckets, b ≤ hwStatsBurstMax) :
    (buckets.foldl (snapshotBucket s) t).totalBurstEvents
        = t.totalBurstEvents + (buckets.map fun b => s.bucket b).sum
      ∧ (buckets.foldl (snapshotBucket s) t).symbolsLostTotal
        = t.symbolsLostTotal + (buckets.map fun b => b * s.bucket b).sum := by
  induction buckets generalizing t with
  | nil => exact ⟨rfl, rfl⟩
  | cons b buckets ih =>
      obtain ⟨hevents, hlost⟩ :=
        ih (snapshotBucket s t b) fun b' hb' => h b' (List.mem_cons_of_mem b hb')
      have hone : (snapshotBucket s t b).totalBurstEvents = t.totalBurstEvents + s.bucket b
          ∧ (snapshotBucket s t b).symbolsLostTotal
            = t.symbolsLostTotal + b * s.bucket b := by
        rw [snapshotBucket]
        split
        · rename_i hzero
          rw [hzero]
          exact ⟨rfl, rfl⟩
        · split
          · exact ⟨rfl, rfl⟩
          · rename_i hlast
            have hb := h b List.mem_cons_self
            rw [show hwStatsBurstMax = b by omega]
            exact ⟨rfl, rfl⟩
      rw [List.foldl_cons, List.map_cons, List.map_cons, List.sum_cons, List.sum_cons]
      rw [hevents, hlost, hone.1, hone.2, Nat.add_assoc, Nat.add_assoc]
      exact ⟨rfl, rfl⟩

/-- Summing over the buckets that some bursts are in is summing over the bursts. -/
theorem sum_buckets (f : Nat → Nat) {rs : List Nat} (h : ∀ n ∈ rs, 0 < n) :
    ((List.range' 1 hwStatsBurstMax).map fun b =>
        f b * rs.countP fun n => bucketIndex n = b).sum
      = (rs.map fun n => f (bucketIndex n)).sum := by
  induction rs with
  | nil => simp
  | cons n rs ih =>
      have hn : 0 < n := h n List.mem_cons_self
      have hmem : bucketIndex n ∈ List.range' 1 hwStatsBurstMax := by
        rw [List.mem_range'_1, bucketIndex_eq, hwStatsBurstMax]
        omega
      have hone : ((List.range' 1 hwStatsBurstMax).map fun b =>
          if bucketIndex n = b then f b else 0).sum = f (bucketIndex n) := by
        rw [List.sum_map_eq_nsmul_single (bucketIndex n) _
          fun b hb _ => if_neg (Ne.symm hb)]
        have hcount : (List.range' 1 hwStatsBurstMax).count (bucketIndex n) = 1 :=
          (List.nodup_range' 1).count.trans (if_pos hmem)
        rw [hcount, if_pos rfl, one_nsmul]
      have hsplit : ∀ b, f b * ((n :: rs).countP fun m => bucketIndex m = b)
          = (if bucketIndex n = b then f b else 0)
            + f b * rs.countP fun m => bucketIndex m = b := by
        intro b
        rw [List.countP_cons]
        by_cases hb : bucketIndex n = b
        · simp [hb, Nat.mul_add, Nat.add_comm]
        · simp [hb]
      rw [List.map_cons, List.sum_cons, ← ih fun m hm => h m (List.mem_cons_of_mem n hm)]
      rw [List.map_congr_left fun b _ => hsplit b, List.sum_map_add, hone]

/-- The snapshot in terms of the runs. -/
theorem snapshot_totals (calls : List Call) :
    (hwStatsComputeSnapshot (runCalls calls)).totals.totalBurstEvents = (allRuns calls).length
      ∧ (hwStatsComputeSnapshot (runCalls calls)).totals.symbolsLostTotal
        = ((allRuns calls).map bucketIndex).sum := by
  obtain ⟨hhist, hrunning⟩ := runCalls_tracks calls
  have hbucket : ∀ b ∈ List.range' 1 hwStatsBurstMax, b ≤ hwStatsBurstMax := by
    intro b hb
    have := List.mem_range'_1.mp hb
    omega
  obtain ⟨hevents, hlost⟩ := foldl_snapshotBucket (runCalls calls) _ ⟨0, 0, 0⟩ hbucket
  have hpos : ∀ n ∈ closedRuns calls, 0 < n := fun n hn => Segments.runs_pos hn
  have hcounts : ∀ b ∈ List.range' 1 hwStatsBurstMax, (runCalls calls).bucket b
      = (closedRuns calls).countP fun n => bucketIndex n = b := by
    intro b hb
    exact hhist b (Nat.lt_succ_of_le (hbucket b hb))
  have hlength := sum_buckets (fun _ => 1) hpos
  have hsum := sum_buckets (fun b => b) hpos
  simp only [Nat.one_mul] at hlength
  rw [List.map_congr_left hcounts, hlength] at hevents
  rw [List.map_congr_left fun b hb => congrArg (b * ·) (hcounts b hb), hsum] at hlost
  rw [hwStatsComputeSnapshot, allRuns]
  by_cases hopen : (runCalls calls).runningBurst > 0
  · simp only [if_pos hopen]
    rw [if_neg (by omega), hevents, hlost, hrunning]
    constructor
    · simp
    · simp
  · simp only [if_neg hopen]
    rw [if_pos (by omega), List.append_nil, hevents, hlost]
    constructor
    · simp
    · simp

theorem sum_allRuns (calls : List Call) : (allRuns calls).sum = (calls.map holesOf).sum := by
  have hall := Segments.sum_runs (f := holesOf) calls
  rw [← closedRuns, ← openRun, Segments.total] at hall
  rw [allRuns, List.sum_append, ← hall]
  split
  · rename_i hzero
    rw [hzero]
    rfl
  · rw [List.sum_singleton]

/-- Clamping loses nothing just when nothing is clamped. -/
theorem sum_bucketIndex_iff (rs : List Nat) :
    (rs.map bucketIndex).sum = rs.sum ↔ ∀ n ∈ rs, n ≤ hwStatsBurstMax := by
  have hle : ∀ n, bucketIndex n ≤ n := by
    intro n
    rw [bucketIndex_eq]
    exact Nat.min_le_left n hwStatsBurstMax
  constructor
  · intro hsum n hn
    by_contra hlong
    have hlt : bucketIndex n < n := by
      rw [bucketIndex_eq]
      omega
    have := List.sum_lt_sum (l := rs) bucketIndex (fun m => m) (fun m _ => hle m) ⟨n, hn, hlt⟩
    rw [List.map_id', hsum] at this
    exact Nat.lt_irrefl _ this
  · intro hshort
    have hsame : ∀ n ∈ rs, bucketIndex n = n := by
      intro n hn
      rw [bucketIndex_eq]
      exact Nat.min_eq_left (hshort n hn)
    rw [List.map_congr_left hsame, List.map_id']

/-- **What the snapshot reports**, after any blocks with any numbers of holes
    and any finalisations: its lost symbols are all the holes recorded if and
    only if no maximal run of blocks with holes, closed or open, has more than
    256 of them; its burst events are always the number of these runs. -/
theorem hwStats_loses_nothing_iff (calls : List Call) :
    ((hwStatsComputeSnapshot (runCalls calls)).totals.symbolsLostTotal
          = (calls.map holesOf).sum
        ↔ ∀ n ∈ allRuns calls, n ≤ 256)
      ∧ (hwStatsComputeSnapshot (runCalls calls)).totals.totalBurstEvents
        = (allRuns calls).length := by
  obtain ⟨hevents, hlost⟩ := snapshot_totals calls
  refine ⟨?_, hevents⟩
  rw [hlost, ← sum_allRuns]
  exact sum_bucketIndex_iff (allRuns calls)

/-- Two blocks in a row with 150 holes each, and one without: 256 are reported. -/
theorem hwStats_loses :
    ¬ ∀ calls : List Call,
        (hwStatsComputeSnapshot (runCalls calls)).totals.symbolsLostTotal
            = (calls.map holesOf).sum
          ∧ (hwStatsComputeSnapshot (runCalls calls)).totals.totalBurstEvents
            = (allRuns calls).length := by
  intro hall
  have hlost := (hall [.recordBlockHoles 150, .recordBlockHoles 150, .recordBlockHoles 0]).1
  have hruns : allRuns [.recordBlockHoles 150, .recordBlockHoles 150, .recordBlockHoles 0]
      = [300] := by decide
  rw [(snapshot_totals _).2, hruns] at hlost
  revert hlost
  decide

end FsoHwStats
