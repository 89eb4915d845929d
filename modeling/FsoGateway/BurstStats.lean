import FsoGateway.Lib.Segments

/-! # Burst statistics of the receiver

    `src/stats.c`: each symbol of the received stream is recorded as lost or
    not.  Losses lengthen the open burst; a symbol that arrives closes it, and
    so does a finalisation.  All counters are atomics of 64 bits, which no run
    can fill; the compare-and-swap loops end with the value they are after.

    * `statsCloseCurrentBurst_counts` — what closing a burst adds;
    * `burstStats_agree` — after any symbols and finalisations every counter
      says about the closed runs of losses what it is named for. -/

namespace FsoStats

/-- `STATS_MAX_BURST_SAMPLES`. -/
def statsMaxBurstSamples : Nat := 4096

/-- The symbol and burst counters of `stats_atomic_container_t`, and
    `g_burst_samples`. -/
structure StatsContainer where
  totalSymbols : Nat
  lostSymbols : Nat
  totalBursts : Nat
  currentBurstLength : Nat
  maxBurstLength : Nat
  sumBurstLengths : Nat
  burstLen1 : Nat
  burstLen2To5 : Nat
  burstLen6To10 : Nat
  burstLen11To50 : Nat
  burstLen51To100 : Nat
  burstLen101To500 : Nat
  burstLen501Plus : Nat
  burstsExceedingFecSpan : Nat
  configuredFecBurstSpan : Nat
  recoverableBursts : Nat
  criticalBursts : Nat
  burstSamplesRecorded : Nat
  burstSamplesDropped : Nat
  burstSamples : Vector Nat statsMaxBurstSamples

/-- `stats_update_max`. -/
def statsUpdateMax (target candidate : Nat) : Nat :=
  if candidate > target then candidate else target

/-- `stats_bucket_burst_length`. -/
def statsBucketBurstLength (s : StatsContainer) (burstLen : Nat) : StatsContainer :=
  if burstLen = 1 then { s with burstLen1 := s.burstLen1 + 1 }
  else if burstLen ≤ 5 then { s with burstLen2To5 := s.burstLen2To5 + 1 }
  else if burstLen ≤ 10 then { s with burstLen6To10 := s.burstLen6To10 + 1 }
  else if burstLen ≤ 50 then { s with burstLen11To50 := s.burstLen11To50 + 1 }
  else if burstLen ≤ 100 then { s with burstLen51To100 := s.burstLen51To100 + 1 }
  else if burstLen ≤ 500 then { s with burstLen101To500 := s.burstLen101To500 + 1 }
  else { s with burstLen501Plus := s.burstLen501Plus + 1 }

/-- `stats_store_burst_sample`. -/
def statsStoreBurstSample (s : StatsContainer) (burstLen : Nat) : StatsContainer :=
  if h : s.burstSamplesRecorded < statsMaxBurstSamples then
    { s with
      burstSamplesRecorded := s.burstSamplesRecorded + 1
      burstSamples := s.burstSamples.set s.burstSamplesRecorded burstLen h }
  else { s with burstSamplesDropped := s.burstSamplesDropped + 1 }

/-- `stats_close_current_burst`. -/
def statsCloseCurrentBurst (s : StatsContainer) : StatsContainer :=
  let burstLen := s.currentBurstLength
  let s := { s with currentBurstLength := 0 }
  if burstLen = 0 then s
  else
    let s := { s with
      totalBursts := s.totalBursts + 1
      sumBurstLengths := s.sumBurstLengths + burstLen
      maxBurstLength := statsUpdateMax s.maxBurstLength burstLen }
    let s := statsStoreBurstSample (statsBucketBurstLength s burstLen) burstLen
    let fecSpan := s.configuredFecBurstSpan
    if fecSpan > 0 ∧ burstLen > fecSpan then
      { s with
        criticalBursts := s.criticalBursts + 1
        burstsExceedingFecSpan := s.burstsExceedingFecSpan + 1 }
    else { s with recoverableBursts := s.recoverableBursts + 1 }

/-- `stats_record_symbol`. -/
def statsRecordSymbol (s : StatsContainer) (lost : Bool) : StatsContainer :=
  let s := { s with totalSymbols := s.totalSymbols + 1 }
  if lost then
    { s with
      lostSymbols := s.lostSymbols + 1
      currentBurstLength := s.currentBurstLength + 1 }
  else statsCloseCurrentBurst s

/-- `stats_finalize_burst`. -/
def statsFinalizeBurst (s : StatsContainer) : StatsContainer := statsCloseCurrentBurst s

/-- `stats_reset`: the samples themselves stay in place. -/
def statsReset (s : StatsContainer) : StatsContainer where
  totalSymbols := 0
  lostSymbols := 0
  totalBursts := 0
  currentBurstLength := 0
  maxBurstLength := 0
  sumBurstLengths := 0
  burstLen1 := 0
  burstLen2To5 := 0
  burstLen6To10 := 0
  burstLen11To50 := 0
  burstLen51To100 := 0
  burstLen101To500 := 0
  burstLen501Plus := 0
  burstsExceedingFecSpan := 0
  configuredFecBurstSpan := 0
  recoverableBursts := 0
  criticalBursts := 0
  burstSamplesRecorded := 0
  burstSamplesDropped := 0
  burstSamples := s.burstSamples

/-- `stats_set_burst_fec_span`. -/
def statsSetBurstFecSpan (s : StatsContainer) (span : Nat) : StatsContainer :=
  { s with configuredFecBurstSpan := span }

/-! ## Runs -/

inductive Call where
  | recordSymbol (lost : Bool)
  | finalizeBurst

def step (s : StatsContainer) : Call → StatsContainer
  | .recordSymbol lost => statsRecordSymbol s lost
  | .finalizeBurst => statsFinalizeBurst s

/-- A reset, a span, and then the calls. -/
def runCalls (s : StatsContainer) (span : Nat) (calls : List Call) : StatsContainer :=
  calls.foldl step (statsSetBurstFecSpan (statsReset s) span)

/-! ## The reference -/

/-- What a call loses; one that loses nothing ends a run of losses. -/
def loss : Call → Nat
  | .recordSymbol true => 1
  | _ => 0

/-- The lengths of the closed maximal runs of consecutive losses, in order. -/
def closedRuns (calls : List Call) : List Nat := Segments.runs loss calls

/-- The losses since the last symbol received, finalisation or reset. -/
def openRun (calls : List Call) : Nat := Segments.openRun loss calls

/-- How many of the runs have a length from `lo` to `hi`. -/
def countRange (lo hi : Nat) (rs : List Nat) : Nat :=
  rs.countP fun n => lo ≤ n ∧ n ≤ hi

/-- A run longer than a span that is not zero. -/
def exceeds (span n : Nat) : Bool := span > 0 ∧ n > span

/-- What the burst counters say, if these are the closed runs. -/
structure Counts (span : Nat) (rs : List Nat) (s : StatsContainer) : Prop where
  totalBursts : s.totalBursts = rs.length
  sumBurstLengths : s.sumBurstLengths = rs.sum
  maxBurstLength : s.maxBurstLength = rs.foldl max 0
  burstLen1 : s.burstLen1 = countRange 1 1 rs
  burstLen2To5 : s.burstLen2To5 = countRange 2 5 rs
  burstLen6To10 : s.burstLen6To10 = countRange 6 10 rs
  burstLen11To50 : s.burstLen11To50 = countRange 11 50 rs
  burstLen51To100 : s.burstLen51To100 = countRange 51 100 rs
  burstLen101To500 : s.burstLen101To500 = countRange 101 500 rs
  burstLen501Plus : s.burstLen501Plus = rs.countP (501 ≤ ·)
  configuredSpan : s.configuredFecBurstSpan = span
  criticalBursts : s.criticalBursts = rs.countP (exceeds span)
  burstsExceedingFecSpan : s.burstsExceedingFecSpan = rs.countP (exceeds span)
  recoverableBursts : s.recoverableBursts = rs.countP fun n => !exceeds span n
  recorded : s.burstSamplesRecorded = min rs.length statsMaxBurstSamples
  dropped : s.burstSamplesDropped = rs.length - statsMaxBurstSamples
  samples : s.burstSamples.toList.take s.burstSamplesRecorded = rs.take statsMaxBurstSamples

theorem countRange_concat (lo hi n : Nat) (rs : List Nat) :
    countRange lo hi (rs ++ [n]) = countRange lo hi rs + if lo ≤ n ∧ n ≤ hi then 1 else 0 := by
  rw [countRange, List.countP_append, List.countP_singleton]
  simp [countRange]

theorem statsUpdateMax_eq (target candidate : Nat) :
    statsUpdateMax target candidate = max target candidate := by
  rw [statsUpdateMax]
  split
  · rename_i h
    exact (Nat.max_eq_right (Nat.le_of_lt h)).symm
  · rename_i h
    exact (Nat.max_eq_left (Nat.le_of_not_lt h)).symm

/-! ## Closing a burst -/

/-- The bucket of a length, written as what each bucket gains. -/
theorem statsBucketBurstLength_eq (s : StatsContainer) {n : Nat} (hn : 0 < n) :
    statsBucketBurstLength s n =
      { s with
        burstLen1 := s.burstLen1 + if 1 ≤ n ∧ n ≤ 1 then 1 else 0
        burstLen2To5 := s.burstLen2To5 + if 2 ≤ n ∧ n ≤ 5 then 1 else 0
        burstLen6To10 := s.burstLen6To10 + if 6 ≤ n ∧ n ≤ 10 then 1 else 0
        burstLen11To50 := s.burstLen11To50 + if 11 ≤ n ∧ n ≤ 50 then 1 else 0
        burstLen51To100 := s.burstLen51To100 + if 51 ≤ n ∧ n ≤ 100 then 1 else 0
        burstLen101To500 := s.burstLen101To500 + if 101 ≤ n ∧ n ≤ 500 then 1 else 0
        burstLen501Plus := s.burstLen501Plus + if 501 ≤ n then 1 else 0 } := by
  rw [statsBucketBurstLength]
  -- the first bound that holds puts the length into its range and no other
  split
  · simp (disch := omega) only [if_pos, if_neg, Nat.add_zero]
  split
  · simp (disch := omega) only [if_pos, if_neg, Nat.add_zero]
  split
  · simp (disch := omega) only [if_pos, if_neg, Nat.add_zero]
  split
  · simp (disch := omega) only [if_pos, if_neg, Nat.add_zero]
  split
  · simp (disch := omega) only [if_pos, if_neg, Nat.add_zero]
  split
  · simp (disch := omega) only [if_pos, if_neg, Nat.add_zero]
  · simp (disch := omega) only [if_pos, if_neg, Nat.add_zero]

/-- The sample store keeps the first samples and counts the others. -/
theorem take_set_concat {rs : List Nat} {v : Vector Nat statsMaxBurstSamples}
    (h : rs.length < statsMaxBurstSamples) (n : Nat)
    (hv : v.toList.take rs.length = rs.take statsMaxBurstSamples) :
    (v.set rs.length n h).toList.take (rs.length + 1)
      = (rs ++ [n]).take statsMaxBurstSamples := by
  have hfull : (rs ++ [n]).length ≤ statsMaxBurstSamples := by
    rw [List.length_append]
    exact h
  rw [List.take_of_length_le (Nat.le_of_lt h)] at hv
  rw [List.take_of_length_le hfull, Vector.toList_set]
  have hlen : rs.length < (v.toList.set rs.length n).length := by
    rw [List.length_set, Vector.length_toList]
    exact h
  rw [List.take_succ_eq_append_getElem hlen, List.getElem_set_self, List.take_set_of_le]
  · rw [hv]
  · exact Nat.le_refl _

/-- All that closing an open burst does. -/
theorem statsCloseCurrentBurst_eq (s : StatsContainer) (hn : 0 < s.currentBurstLength) :
    statsCloseCurrentBurst s =
      { s with
        totalBursts := s.totalBursts + 1
        currentBurstLength := 0
        maxBurstLength := max s.maxBurstLength s.currentBurstLength
        sumBurstLengths := s.sumBurstLengths + s.currentBurstLength
        burstLen1 := s.burstLen1
          + if 1 ≤ s.currentBurstLength ∧ s.currentBurstLength ≤ 1 then 1 else 0
        burstLen2To5 := s.burstLen2To5
          + if 2 ≤ s.currentBurstLength ∧ s.currentBurstLength ≤ 5 then 1 else 0
        burstLen6To10 := s.burstLen6To10
          + if 6 ≤ s.currentBurstLength ∧ s.currentBurstLength ≤ 10 then 1 else 0
        burstLen11To50 := s.burstLen11To50
          + if 11 ≤ s.currentBurstLength ∧ s.currentBurstLength ≤ 50 then 1 else 0
        burstLen51To100 := s.burstLen51To100
          + if 51 ≤ s.currentBurstLength ∧ s.currentBurstLength ≤ 100 then 1 else 0
        burstLen101To500 := s.burstLen101To500
          + if 101 ≤ s.currentBurstLength ∧ s.currentBurstLength ≤ 500 then 1 else 0
        burstLen501Plus := s.burstLen501Plus + if 501 ≤ s.currentBurstLength then 1 else 0
        criticalBursts := s.criticalBursts
          + if exceeds s.configuredFecBurstSpan s.currentBurstLength then 1 else 0
        burstsExceedingFecSpan := s.burstsExceedingFecSpan
          + if exceeds s.configuredFecBurstSpan s.currentBurstLength then 1 else 0
        recoverableBursts := s.recoverableBursts
          + if !exceeds s.configuredFecBurstSpan s.currentBurstLength then 1 else 0
        burstSamplesRecorded := s.burstSamplesRecorded
          + if s.burstSamplesRecorded < statsMaxBurstSamples then 1 else 0
        burstSamplesDropped := s.burstSamplesDropped
          + if s.burstSamplesRecorded < statsMaxBurstSamples then 0 else 1
        burstSamples :=
          if h : s.burstSamplesRecorded < statsMaxBurstSamples then
            s.burstSamples.set s.burstSamplesRecorded s.currentBurstLength h
          else s.burstSamples } := by
  rw [statsCloseCurrentBurst]
  simp only [Nat.ne_of_gt hn, if_false, statsUpdateMax_eq]
  rw [statsBucketBurstLength_eq _ hn, statsStoreBurstSample]
  by_cases hroom : s.burstSamplesRecorded < statsMaxBurstSamples
  · simp only [hroom, dite_true, if_true]
    split
    · rename_i hexceeds
      simp [exceeds, hexceeds]
    · rename_i hwithin
      simp [exceeds, hwithin]
  · simp only [hroom, dite_false, if_false]
    split
    · rename_i hexceeds
      simp [exceeds, hexceeds]
    · rename_i hwithin
      simp [exceeds, hwithin]

/-- **Closing a burst** counts it among the closed runs. -/
theorem statsCloseCurrentBurst_counts {span : Nat} {rs : List Nat} {s : StatsContainer}
    (h : Counts span rs s) (hn : 0 < s.currentBurstLength) :
    Counts span (rs ++ [s.currentBurstLength]) (statsCloseCurrentBurst s) := by
  have hcount : ∀ p : Nat → Bool, (rs ++ [s.currentBurstLength]).countP p
      = rs.countP p + if p s.currentBurstLength then 1 else 0 := by
    intro p
    rw [List.countP_append, List.countP_singleton]
  rw [statsCloseCurrentBurst_eq s hn]
  constructor <;> simp only [countRange_concat, hcount]
  case totalBursts => rw [h.totalBursts, List.length_append, List.length_singleton]
  case sumBurstLengths => rw [h.sumBurstLengths, List.sum_append, List.sum_singleton]
  case maxBurstLength => rw [h.maxBurstLength, List.foldl_append, List.foldl_cons, List.foldl_nil]
  case burstLen1 => rw [h.burstLen1]
  case burstLen2To5 => rw [h.burstLen2To5]
  case burstLen6To10 => rw [h.burstLen6To10]
  case burstLen11To50 => rw [h.burstLen11To50]
  case burstLen51To100 => rw [h.burstLen51To100]
  case burstLen101To500 => rw [h.burstLen101To500]
  case burstLen501Plus => rw [h.burstLen501Plus]; simp
  case configuredSpan => exact h.configuredSpan
  case criticalBursts => rw [h.criticalBursts, h.configuredSpan]
  case burstsExceedingFecSpan => rw [h.burstsExceedingFecSpan, h.configuredSpan]
  case recoverableBursts => rw [h.recoverableBursts, h.configuredSpan]
  case recorded =>
    rw [h.recorded, List.length_append, List.length_singleton]
    split <;> omega
  case dropped =>
    rw [h.dropped, h.recorded, List.length_append, List.length_singleton]
    split <;> omega
  case samples =>
    have hrec := h.recorded
    have hsamples := h.samples
    by_cases hroom : s.burstSamplesRecorded < statsMaxBurstSamples
    · have hlen : s.burstSamplesRecorded = rs.length := by omega
      simp only [hroom, if_true, dite_true]
      rw [hlen] at hsamples
      simp only [hlen]
      exact take_set_concat (hlen ▸ hroom) s.currentBurstLength hsamples
    · have hlen : statsMaxBurstSamples ≤ rs.length := by omega
      simp only [hroom, if_false, dite_false, Nat.add_zero]
      rw [hsamples, List.take_append_of_le_length hlen]

/-! ## The counters agree with the reference -/

/-- What all symbol and burst counters say after these calls. -/
structure Agrees (span : Nat) (calls : List Call) (s : StatsContainer) : Prop where
  counts : Counts span (closedRuns calls) s
  current : s.currentBurstLength = openRun calls
  lost : s.lostSymbols = Segments.total loss calls

theorem agrees_start (s : StatsContainer) (span : Nat) :
    Agrees span [] (statsSetBurstFecSpan (statsReset s) span) where
  counts := by constructor <;> rfl
  current := rfl
  lost := rfl

/-- A call that loses nothing closes the open burst, if there is one. -/
theorem Agrees.close {span : Nat} {calls : List Call} {s : StatsContainer}
    (h : Agrees span calls s) {call : Call} (hcall : loss call = 0) :
    Agrees span (calls ++ [call]) (statsCloseCurrentBurst s) := by
  obtain ⟨hruns, hopen⟩ := Segments.concat_lossless hcall calls
  have htotal : Segments.total loss (calls ++ [call]) = Segments.total loss calls := by
    rw [Segments.total_concat, hcall, Nat.add_zero]
  rcases Nat.eq_zero_or_pos s.currentBurstLength with hzero | hn
  · -- no burst is open
    have hsame : statsCloseCurrentBurst s = s := by
      rw [statsCloseCurrentBurst]
      simp only [hzero, if_true]
      cases s
      simp_all
    rw [hsame]
    have hnone := h.current.symm.trans hzero
    rw [openRun] at hnone
    constructor
    · rw [closedRuns, hruns, if_pos hnone, List.append_nil]
      exact h.counts
    · rw [openRun, hopen]
      exact hzero
    · rw [htotal]
      exact h.lost
  · have hsome : Segments.openRun loss calls ≠ 0 := by
      rw [← openRun, ← h.current]
      exact Nat.ne_of_gt hn
    have hcounts := statsCloseCurrentBurst_counts h.counts hn
    constructor
    · rw [closedRuns, hruns, if_neg hsome, ← openRun, ← h.current]
      exact hcounts
    · rw [openRun, hopen, statsCloseCurrentBurst_eq s hn]
    · rw [htotal, statsCloseCurrentBurst_eq s hn]
      exact h.lost

/-- The counter of all symbols is no burst counter. -/
theorem Agrees.setTotal {span : Nat} {calls : List Call} {s : StatsContainer}
    (h : Agrees span calls s) (n : Nat) : Agrees span calls { s with totalSymbols := n } where
  counts := by
    obtain ⟨h1, h2, h3, h4, h5, h6, h7, h8, h9, h10, h11, h12, h13, h14, h15, h16, h17⟩ :=
      h.counts
    exact ⟨h1, h2, h3, h4, h5, h6, h7, h8, h9, h10, h11, h12, h13, h14, h15, h16, h17⟩
  current := h.current
  lost := h.lost

theorem step_agrees {span : Nat} {calls : List Call} {s : StatsContainer}
    (h : Agrees span calls s) (call : Call) : Agrees span (calls ++ [call]) (step s call) := by
  cases call with
  | finalizeBurst => exact h.close rfl
  | recordSymbol lost =>
      cases lost with
      | false => exact (h.setTotal (s.totalSymbols + 1)).close rfl
      | true =>
          obtain ⟨hruns, hopen⟩ :=
            Segments.concat_loss (f := loss) (a := .recordSymbol true) (by decide) calls
          obtain ⟨h1, h2, h3, h4, h5, h6, h7, h8, h9, h10, h11, h12, h13, h14, h15, h16, h17⟩ :=
            h.counts
          rw [step, statsRecordSymbol]
          constructor
          · rw [closedRuns, hruns]
            exact ⟨h1, h2, h3, h4, h5, h6, h7, h8, h9, h10, h11, h12, h13, h14, h15, h16, h17⟩
          · rw [openRun, hopen, ← openRun, ← h.current]
            rfl
          · rw [Segments.total_concat, ← h.lost]
            rfl

theorem runCalls_agrees (s : StatsContainer) (span : Nat) (calls : List Call) :
    Agrees span calls (runCalls s span calls) := by
  induction calls using List.reverseRecOn with
  | nil => exact agrees_start s span
  | append_singleton calls call ih =>
      rw [runCalls, List.foldl_append]
      exact step_agrees ih call

theorem total_eq_countP (calls : List Call) :
    Segments.total loss calls = calls.countP (fun call => loss call = 1) := by
  induction calls using List.reverseRecOn with
  | nil => rfl
  | append_singleton calls call ih =>
      rw [Segments.total_concat, List.countP_append, List.countP_singleton, ih]
      cases call with
      | finalizeBurst => rfl
      | recordSymbol lost =>
          cases lost with
          | true => rfl
          | false => rfl

/-- Every run is in one of the seven ranges. -/
theorem buckets_sum {rs : List Nat} (h : ∀ n ∈ rs, 0 < n) :
    countRange 1 1 rs + countRange 2 5 rs + countRange 6 10 rs + countRange 11 50 rs
      + countRange 51 100 rs + countRange 101 500 rs + rs.countP (501 ≤ ·) = rs.length := by
  induction rs using List.reverseRecOn with
  | nil => rfl
  | append_singleton rs n ih =>
      have hn : 0 < n := h n (List.mem_append_right rs List.mem_cons_self)
      have hrest := ih fun m hm => h m (List.mem_append_left [n] hm)
      simp only [countRange_concat, List.countP_append, List.countP_singleton,
        List.length_append, List.length_singleton, decide_eq_true_eq]
      have hone : (if 1 ≤ n ∧ n ≤ 1 then 1 else 0) + (if 2 ≤ n ∧ n ≤ 5 then 1 else 0)
          + (if 6 ≤ n ∧ n ≤ 10 then 1 else 0) + (if 11 ≤ n ∧ n ≤ 50 then 1 else 0)
          + (if 51 ≤ n ∧ n ≤ 100 then 1 else 0) + (if 101 ≤ n ∧ n ≤ 500 then 1 else 0)
          + (if 501 ≤ n then 1 else 0) = 1 := by
        have hrange : n = 1 ∨ (2 ≤ n ∧ n ≤ 5) ∨ (6 ≤ n ∧ n ≤ 10) ∨ (11 ≤ n ∧ n ≤ 50)
            ∨ (51 ≤ n ∧ n ≤ 100) ∨ (101 ≤ n ∧ n ≤ 500) ∨ 501 ≤ n := by omega
        rcases hrange with h | h | h | h | h | h | h <;>
          simp (disch := omega) only [if_pos, if_neg]
      omega

/-- The maximum of a list of runs is the longest of them. -/
theorem longest (rs : List Nat) :
    (∀ n ∈ rs, n ≤ rs.foldl max 0) ∧ (rs ≠ [] → rs.foldl max 0 ∈ rs) := by
  induction rs using List.reverseRecOn with
  | nil => exact ⟨fun n hn => absurd hn List.not_mem_nil, fun h => absurd rfl h⟩
  | append_singleton rs n ih =>
      obtain ⟨hle, hmem⟩ := ih
      rw [List.foldl_append, List.foldl_cons, List.foldl_nil]
      constructor
      · intro m hm
        rcases List.mem_append.mp hm with hm | hm
        · exact Nat.le_trans (hle m hm) (Nat.le_max_left _ _)
        · rw [List.mem_singleton.mp hm]
          exact Nat.le_max_right _ _
      · intro _
        rcases Nat.le_total n (rs.foldl max 0) with hn | hn
        · rw [Nat.max_eq_left hn]
          cases rs with
          | nil =>
              rw [List.foldl_nil, Nat.le_zero] at hn
              rw [hn]
              exact List.mem_cons_self
          | cons m rs => exact List.mem_append_left [n] (hmem (List.cons_ne_nil m rs))
        · rw [Nat.max_eq_right hn]
          exact List.mem_append_right rs List.mem_cons_self

/-- **Burst statistics.**  After a reset and a span setting, and any symbols and
    finalisations: the burst counters count the closed maximal runs of losses,
    the lengths closed and the open one make up the lost symbols, the maximum
    is the longest closed run, the buckets sum to the closed runs, those longer
    than a span that is not zero are critical and the others recoverable, and
    the samples are the first closed runs in order, the others being dropped. -/
theorem burstStats_agree (s : StatsContainer) (span : Nat) (calls : List Call) :
    Counts span (closedRuns calls) (runCalls s span calls)
      ∧ (runCalls s span calls).lostSymbols = calls.countP (fun call => loss call = 1)
      ∧ (runCalls s span calls).currentBurstLength = openRun calls
      ∧ (runCalls s span calls).sumBurstLengths + (runCalls s span calls).currentBurstLength
        = (runCalls s span calls).lostSymbols
      ∧ (∀ n ∈ closedRuns calls, n ≤ (runCalls s span calls).maxBurstLength)
      ∧ (closedRuns calls ≠ [] → (runCalls s span calls).maxBurstLength ∈ closedRuns calls)
      ∧ (runCalls s span calls).burstLen1 + (runCalls s span calls).burstLen2To5
        + (runCalls s span calls).burstLen6To10 + (runCalls s span calls).burstLen11To50
        + (runCalls s span calls).burstLen51To100 + (runCalls s span calls).burstLen101To500
        + (runCalls s span calls).burstLen501Plus = (runCalls s span calls).totalBursts
      ∧ (runCalls s span calls).criticalBursts + (runCalls s span calls).recoverableBursts
        = (runCalls s span calls).totalBursts
      ∧ (runCalls s span calls).burstSamplesRecorded
          + (runCalls s span calls).burstSamplesDropped
        = (runCalls s span calls).totalBursts := by
  have h := runCalls_agrees s span calls
  have hc := h.counts
  obtain ⟨hle, hmem⟩ := longest (closedRuns calls)
  refine ⟨hc, ?_, h.current, ?_, ?_, ?_, ?_, ?_, ?_⟩
  · rw [h.lost]
    exact total_eq_countP calls
  · rw [hc.sumBurstLengths, h.current, h.lost]
    exact Segments.sum_runs calls
  · rw [hc.maxBurstLength]
    exact hle
  · rw [hc.maxBurstLength]
    exact hmem
  · rw [hc.burstLen1, hc.burstLen2To5, hc.burstLen6To10, hc.burstLen11To50,
      hc.burstLen51To100, hc.burstLen101To500, hc.burstLen501Plus, hc.totalBursts]
    exact buckets_sum fun n hn => Segments.runs_pos hn
  · rw [hc.criticalBursts, hc.recoverableBursts, hc.totalBursts]
    rw [List.length_eq_countP_add_countP (exceeds span)]
    congr 2
    funext n
    cases exceeds span n <;> rfl
  · rw [hc.recorded, hc.dropped, hc.totalBursts]
    omega

end FsoStats
