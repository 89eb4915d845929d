import FsoGateway.RunStore
import FsoGateway.Lib.Sampling
import Mathlib.Data.List.Nodup

/-! # The samples of a run

    `webgui/server/run_store.py`: a recorded run is a set of samples, at most
    one for each time.  `get_samples` returns them in the order of time; of a
    run that is longer than the caller asked for it picks every n-th row, and
    the last one.

    * `getSamples_eq` — what it returns: the last sample, and every n-th of
      those before it;
    * `getSamples_keepsShape_iff` — it keeps to the limit just when no more than
      one sample is left over when their number is divided by the limit;
    * `getSamples_exceeds` — a run of five samples and a limit of three. -/

namespace FsoRunStore

open Sampling

variable {ρ : Type}

/-! ## The tables -/

/-- A row of `samples`; `ρ` are the values of the `REAL` columns. -/
structure Sample (ρ : Type) where
  runId : Int
  t : Int
  source : String
  linkState : String
  linkQualityPct : Option ρ
  txBps : Option ρ
  rxBps : Option ρ
  txPps : Option ρ
  rxPps : Option ρ
  blocksAttempted : Option Int
  blocksRecovered : Option Int
  blocksFailed : Option Int
  recoveredPackets : Option Int
  failedPackets : Option Int
  crcDrops : Option Int
  symbolLossRatio : Option ρ

/-- `PRIMARY KEY (run_id, t)`. -/
def Sample.key (r : Sample ρ) : Int × Int := (r.runId, r.t)

/-- The table `samples`. -/
structure SamplesTable (ρ : Type) where
  rows : List (Sample ρ)
  keys : (rows.map Sample.key).Nodup

/-- The two tables that the history is read from. -/
structure History (ρ : Type) where
  runs : RunsTable
  samples : SamplesTable ρ

/-- An `INSERT` of a row with a new key. -/
def SamplesTable.insert (s : SamplesTable ρ) (r : Sample ρ) (h : r.key ∉ s.rows.map Sample.key) :
    SamplesTable ρ where
  rows := s.rows ++ [r]
  keys := by
    rw [List.map_append, List.map_singleton, List.nodup_append]
    refine ⟨s.keys, List.nodup_singleton _, ?_⟩
    intro key hkey key' hkey' heq
    rw [heq, List.mem_singleton.mp hkey'] at hkey
    exact h hkey

/-- `append_sample`, for the row it makes of a snapshot.  A row of a run that
    does not exist, or with a key that does, is an `IntegrityError`, which it
    ignores. -/
def appendSample (db : History ρ) (r : Sample ρ) : History ρ :=
  if h : r.key ∈ db.samples.rows.map Sample.key then db
  else if db.runs.rows.any fun run => run.id = r.runId then
    { db with samples := db.samples.insert r h }
  else db

/-! ## Reading them -/

/-- A sample as the interface returns it. -/
structure SampleDict (ρ : Type) where
  t : Int
  source : String
  linkState : String
  linkQualityPct : Option ρ
  txBps : Option ρ
  rxBps : Option ρ
  txPps : Option ρ
  rxPps : Option ρ
  blocksAttempted : Option Int
  blocksRecovered : Option Int
  blocksFailed : Option Int
  recoveredPackets : Option Int
  failedPackets : Option Int
  crcDrops : Option Int
  symbolLossRatio : Option ρ

def Sample.toDict (r : Sample ρ) : SampleDict ρ where
  t := r.t
  source := r.source
  linkState := r.linkState
  linkQualityPct := r.linkQualityPct
  txBps := r.txBps
  rxBps := r.rxBps
  txPps := r.txPps
  rxPps := r.rxPps
  blocksAttempted := r.blocksAttempted
  blocksRecovered := r.blocksRecovered
  blocksFailed := r.blocksFailed
  recoveredPackets := r.recoveredPackets
  failedPackets := r.failedPackets
  crcDrops := r.crcDrops
  symbolLossRatio := r.symbolLossRatio

/-- The exceptions that `get_samples` may raise. -/
inductive PyError where
  | zeroDivisionError
  | indexError
  deriving DecidableEq

/-- `SELECT COUNT(*) … WHERE run_id = ?`. -/
def countSamples (db : History ρ) (runId : Int) : Nat :=
  db.samples.rows.countP fun r => r.runId = runId

/-- `WHERE run_id = ? ORDER BY t ASC`. -/
def storedSamples (db : History ρ) (runId : Int) : List (Sample ρ) :=
  (db.samples.rows.filter fun r => r.runId = runId).mergeSort fun a b => a.t ≤ b.t

/-- The rows with their `ROW_NUMBER()`. -/
def numberedRows (db : History ρ) (runId : Int) : List (Sample ρ × Nat) :=
  (storedSamples db runId).zipIdx 1

/-- The rows of which `get_samples` returns something. -/
def picked (stride : Int) (rows : List (Sample ρ × Nat)) :
    Except PyError (List (Sample ρ × Nat)) :=
  if stride ≤ 1 then .ok rows
  else
    let picked := rows.filter fun r => ((r.2 : Int) - 1) % stride = 0
    match rows.getLast? with
    | none => .ok picked
    | some last =>
      match picked.getLast? with
      | none => .error .indexError
      | some p => .ok (if p.1.t ≠ last.1.t then picked ++ [last] else picked)

/-- `get_samples`. -/
def getSamples (db : History ρ) (runId maxPoints : Int) :
    Except PyError (List (SampleDict ρ)) :=
  let total : Int := countSamples db runId
  if total = 0 then .ok []
  else if maxPoints = 0 then .error .zeroDivisionError
  else
    let stride := max 1 (total.fdiv maxPoints)
    (picked stride (numberedRows db runId)).map fun rows => rows.map fun r => r.1.toDict

/-- `get_run`. -/
def getRun (db : History ρ) (runId : Int) : Option Run :=
  db.runs.rows.find? fun run => run.id = runId

/-- What a request for samples is answered with; an exception is a server
    error. -/
inductive Response (ρ : Type) where
  | notFound (detail : String)
  | samples (runId : Int) (samples : List (SampleDict ρ))
  | serverError (e : PyError)

/-- `runs_samples`. -/
def runsSamples (db : History ρ) (runId maxPoints : Int) : Response ρ :=
  match getRun db runId with
  | none => .notFound ("run " ++ toString runId ++ " not found")
  | some _ =>
    match getSamples db runId maxPoints with
    | .ok samples => .samples runId samples
    | .error e => .serverError e

/-! ## The order of time -/

theorem length_storedSamples (db : History ρ) (runId : Int) :
    (storedSamples db runId).length = countSamples db runId := by
  rw [storedSamples, List.length_mergeSort, countSamples, List.countP_eq_length_filter]

/-- **The stored samples**: each time occurs once. -/
theorem storedSamples_ascending (db : History ρ) (runId : Int) :
    (storedSamples db runId).Pairwise fun a b => a.t < b.t := by
  have hperm : (storedSamples db runId).Perm
      (db.samples.rows.filter fun r => r.runId = runId) := List.mergeSort_perm _ _
  have hsorted : (storedSamples db runId).Pairwise fun a b => a.t ≤ b.t := by
    refine (List.pairwise_mergeSort ?_ ?_ _).imp of_decide_eq_true
    · intro a b c hab hbc
      exact decide_eq_true (Int.le_trans (of_decide_eq_true hab) (of_decide_eq_true hbc))
    · intro a b
      rw [Bool.or_eq_true, decide_eq_true_eq, decide_eq_true_eq]
      exact Int.le_total a.t b.t
  have hkeys : (storedSamples db runId).Pairwise fun a b => a.key ≠ b.key := by
    rw [← List.pairwise_map (f := Sample.key) (R := fun k k' => k ≠ k')]
    refine (hperm.map Sample.key).nodup_iff.mpr ?_
    exact db.samples.keys.sublist (List.filter_sublist.map Sample.key)
  have hrun : ∀ r ∈ storedSamples db runId, r.runId = runId := by
    intro r hr
    have := (List.mem_filter.mp (hperm.mem_iff.mp hr)).2
    exact of_decide_eq_true this
  refine List.Pairwise.imp_of_mem ?_ (hsorted.and hkeys)
  rintro a b ha hb ⟨hle, hne⟩
  refine Int.lt_iff_le_and_ne.mpr ⟨hle, ?_⟩
  -- two samples of one run with one time have one key
  intro ht
  apply hne
  rw [Sample.key, Sample.key, hrun a ha, hrun b hb, ht]

/-! ## What is picked -/

/-- `ROW_NUMBER()` counts from 1. -/
theorem everyNth_zipIdx (s : Nat) (rows : List (Sample ρ)) :
    ((rows.zipIdx 1).filter fun r => ((r.2 : Int) - 1) % (s : Int) = 0).map Prod.fst
      = everyNth s rows := by
  rw [everyNth, List.zipIdx_succ, List.filter_map, List.map_map]
  congr 1
  apply List.filter_congr
  rintro ⟨r, i⟩ -
  rw [Function.comp_apply, decide_eq_decide]
  push_cast
  rw [Int.add_sub_cancel]
  omega

theorem getLast?_map_fst (rows : List (Sample ρ × Nat)) :
    (rows.map Prod.fst).getLast? = rows.getLast?.map Prod.fst := List.getLast?_map

/-- **What is picked**: every n-th of the rows before the last, and the last. -/
theorem picked_concat {s : Nat} (hs : 0 < s) {before : List (Sample ρ)} {last : Sample ρ}
    (hrows : (before ++ [last]).Pairwise fun a b => a.t < b.t) :
    ∃ rows, picked (s : Int) ((before ++ [last]).zipIdx 1) = .ok rows
      ∧ rows.map Prod.fst = everyNth s before ++ [last] := by
  by_cases hone : s = 1
  · refine ⟨_, if_pos (by omega), ?_⟩
    rw [List.zipIdx_map_fst, hone, everyNth_one]
  · have hlast : ((before ++ [last]).zipIdx 1).getLast? = some (last, 1 + before.length) := by
      rw [List.zipIdx_append, List.zipIdx_singleton, List.getLast?_concat]
    have heach := everyNth_zipIdx s (before ++ [last])
    rw [picked, if_neg (by omega), hlast]
    simp only
    generalize ((before ++ [last]).zipIdx 1).filter
      (fun r => ((r.2 : Int) - 1) % (s : Int) = 0) = picks at heach ⊢
    rw [everyNth_concat] at heach
    have hends := getLast?_map_fst picks
    by_cases hdvd : before.length % s = 0
    · -- the last row is among the rows picked
      rw [if_pos hdvd] at heach
      rw [heach, List.getLast?_concat] at hends
      obtain ⟨p, hp, hpl⟩ := Option.map_eq_some_iff.mp hends.symm
      rw [hp]
      refine ⟨picks, ?_, heach⟩
      simp [hpl]
    · rw [if_neg hdvd, List.append_nil] at heach
      obtain ⟨r, hr⟩ : ∃ r, (everyNth s before).getLast? = some r := by
        cases hbefore : before with
        | nil => exact absurd (by rw [hbefore]; exact Nat.zero_mod s) hdvd
        | cons x l =>
            have hhead := head?_everyNth s (x :: l)
            cases heq : everyNth s (x :: l) with
            | nil => rw [heq] at hhead; cases hhead
            | cons y m => exact ⟨_, List.getLast?_cons⟩
      have hlt : r.t < last.t := by
        have hmem : r ∈ before := (everyNth_sublist s before).subset (List.mem_of_getLast? hr)
        exact (List.pairwise_append.mp hrows).2.2 r hmem last List.mem_cons_self
      rw [heach, hr] at hends
      obtain ⟨p, hp, hpr⟩ := Option.map_eq_some_iff.mp hends.symm
      rw [hp]
      refine ⟨picks ++ [(last, 1 + before.length)], ?_, ?_⟩
      · rw [← hpr] at hlt
        simp [Int.ne_of_lt hlt]
      · rw [List.map_append, heach]
        rfl

/-! ## What is returned -/

/-- What down-sampling must keep of a run. -/
structure KeepsShape (stored samples : List (SampleDict ρ)) (maxPoints : Int) : Prop where
  bound : (samples.length : Int) ≤ maxPoints + 1
  sublist : samples.Sublist stored
  ascending : samples.Pairwise fun a b => a.t < b.t
  first : samples.head? = stored.head?
  last : samples.getLast? = stored.getLast?

/-- The samples are fewer than the limit, or leave at most one over when they
    are divided by it.  Of no samples there is nothing to return. -/
def LeavesOne (total : Nat) (maxPoints : Int) : Prop :=
  (total = 0 ∧ -1 ≤ maxPoints)
    ∨ (0 < maxPoints ∧ ((total : Int) < maxPoints ∨ (total : Int) % maxPoints ≤ 1))

instance (total : Nat) (maxPoints : Int) : Decidable (LeavesOne total maxPoints) :=
  inferInstanceAs (Decidable (_ ∨ _))

/-- The stride, as the natural number that it is. -/
def strideOf (total : Nat) (maxPoints : Int) : Nat := (max 1 ((total : Int).fdiv maxPoints)).toNat

theorem strideOf_pos (total : Nat) (maxPoints : Int) : 0 < strideOf total maxPoints := by
  rw [strideOf]
  omega

/-- **The rows returned**: the last sample, and before it every n-th. -/
theorem getSamples_eq {db : History ρ} {runId maxPoints : Int} {before : List (Sample ρ)}
    {last : Sample ρ} (hstored : storedSamples db runId = before ++ [last])
    (hmax : maxPoints ≠ 0) :
    getSamples db runId maxPoints
      = .ok ((everyNth (strideOf (before.length + 1) maxPoints) before ++ [last]).map
          Sample.toDict) := by
  have hcount : countSamples db runId = before.length + 1 := by
    rw [← length_storedSamples, hstored, List.length_append, List.length_singleton]
  have hrows := storedSamples_ascending db runId
  rw [hstored] at hrows
  obtain ⟨rows, hpicked, hfst⟩ :=
    picked_concat (strideOf_pos (before.length + 1) maxPoints) hrows
  rw [strideOf, Int.toNat_of_nonneg (by omega), ← hcount, ← hstored] at hpicked
  rw [getSamples, if_neg (by rw [hcount]; omega), if_neg hmax, numberedRows]
  simp only
  rw [hpicked, ← hfst, List.map_map]
  rfl

/-- Rounding the stride down keeps to the limit just when at most one sample is
    left over. -/
theorem length_le_iff {n m : Nat} (hm : 0 < m) (before : List (Sample ρ))
    (hn : before.length = n) :
    (everyNth (strideOf (n + 1) m) before).length ≤ m ↔ n + 1 < m ∨ (n + 1) % m ≤ 1 := by
  have hs := strideOf_pos (n + 1) m
  have hstride : strideOf (n + 1) m = max 1 ((n + 1) / m) := by
    rw [strideOf, ← Int.ofNat_fdiv]
    omega
  rw [length_everyNth hs, hn, ← Nat.lt_succ_iff, Nat.div_lt_iff_lt_mul hs, hstride]
  have hdiv := Nat.div_add_mod (n + 1) m
  have hlt := Nat.mod_lt (n + 1) hm
  rcases Nat.eq_zero_or_pos ((n + 1) / m) with hq | hq
  · rw [hq, Nat.mul_zero, Nat.zero_add] at hdiv
    rw [hq, Nat.max_eq_left (Nat.zero_le 1), Nat.mul_one]
    omega
  · rw [Nat.max_eq_right hq, Nat.succ_mul]
    have hle : m ≤ m * ((n + 1) / m) := Nat.le_mul_of_pos_right m hq
    omega

/-- Whatever the stride, only the number of rows can be wrong. -/
theorem keepsShape_iff {before : List (Sample ρ)} {last : Sample ρ} {s : Nat}
    (hrows : (before ++ [last]).Pairwise fun a b => a.t < b.t) (maxPoints : Int) :
    KeepsShape ((before ++ [last]).map Sample.toDict)
        ((everyNth s before ++ [last]).map Sample.toDict) maxPoints
      ↔ ((everyNth s before).length : Int) ≤ maxPoints := by
  have hsub : (everyNth s before ++ [last]).Sublist (before ++ [last]) :=
    (everyNth_sublist s before).append_right _
  constructor
  · intro h
    have hbound := h.bound
    rw [List.length_map, List.length_append, List.length_singleton] at hbound
    omega
  · intro hlen
    refine ⟨?_, hsub.map _, ?_, ?_, ?_⟩
    · rw [List.length_map, List.length_append, List.length_singleton]
      omega
    · exact List.pairwise_map.mpr (hrows.sublist hsub)
    · rw [List.head?_map, List.head?_map, List.head?_append, List.head?_append, head?_everyNth]
    · rw [List.getLast?_map, List.getLast?_map, List.getLast?_concat, List.getLast?_concat]

/-- **Down-sampling** keeps the shape of a stored run, for any limit, if and only
    if the samples are fewer than the limit or leave at most one over. -/
theorem getSamples_keepsShape_iff (db : History ρ) (runId maxPoints : Int) :
    (∃ samples, getSamples db runId maxPoints = .ok samples
        ∧ KeepsShape ((storedSamples db runId).map Sample.toDict) samples maxPoints)
      ↔ LeavesOne (countSamples db runId) maxPoints := by
  have hcount := length_storedSamples db runId
  rcases List.eq_nil_or_concat (storedSamples db runId) with hnil | ⟨before, last, hstored⟩
  · rw [hnil, List.length_nil] at hcount
    rw [getSamples, if_pos (by rw [← hcount]; rfl), hnil, ← hcount]
    constructor
    · rintro ⟨samples, hsamples, h⟩
      cases hsamples
      have hbound := h.bound
      rw [List.length_nil] at hbound
      exact .inl ⟨rfl, by omega⟩
    · intro h
      refine ⟨[], rfl, ?_, List.Sublist.refl _, List.Pairwise.nil, rfl, rfl⟩
      rcases h with ⟨-, hmax⟩ | ⟨hmax, -⟩
      · rw [List.length_nil]
        omega
      · rw [List.length_nil]
        omega
  · rw [List.concat_eq_append] at hstored
    have hrows := storedSamples_ascending db runId
    rw [hstored] at hrows hcount
    rw [List.length_append, List.length_singleton] at hcount
    rw [hstored, ← hcount]
    rcases Int.lt_trichotomy maxPoints 0 with hneg | rfl | hpos
    · -- the rows are never fewer than one
      constructor
      · rintro ⟨samples, hsamples, h⟩
        rw [getSamples_eq hstored (Int.ne_of_lt hneg), Except.ok.injEq] at hsamples
        rw [← hsamples, keepsShape_iff hrows] at h
        omega
      · rintro (⟨hzero, -⟩ | ⟨hmax, -⟩)
        · cases hzero
        · omega
    · -- the limit 0 divides nothing
      have herr : getSamples db runId 0 = .error .zeroDivisionError := by
        rw [getSamples, if_neg (by rw [← hcount]; omega), if_pos rfl]
      constructor
      · rintro ⟨samples, hsamples, -⟩
        rw [herr] at hsamples
        cases hsamples
      · rintro (⟨hzero, -⟩ | ⟨hmax, -⟩)
        · cases hzero
        · exact absurd hmax (Int.lt_irrefl 0)
    · obtain ⟨m, rfl⟩ := Int.eq_ofNat_of_zero_le (Int.le_of_lt hpos)
      have hlen := length_le_iff (Int.natCast_pos.mp hpos) before rfl
      rw [getSamples_eq hstored (Int.ne_of_gt hpos)]
      constructor
      · rintro ⟨samples, hsamples, h⟩
        rw [Except.ok.injEq] at hsamples
        rw [← hsamples, keepsShape_iff hrows, Int.ofNat_le, hlen] at h
        exact .inr ⟨hpos, by omega⟩
      · intro h
        refine ⟨_, rfl, (keepsShape_iff hrows _).mpr (Int.ofNat_le.mpr (hlen.mpr ?_))⟩
        rcases h with ⟨hzero, -⟩ | ⟨-, hleft⟩
        · cases hzero
        · omega

/-- The interface returns them for a run that exists. -/
theorem runsSamples_eq {db : History ρ} {runId maxPoints : Int}
    {samples : List (SampleDict ρ)} (hrun : (getRun db runId).isSome = true)
    (hsamples : getSamples db runId maxPoints = .ok samples) :
    runsSamples db runId maxPoints = .samples runId samples := by
  obtain ⟨run, hr⟩ := Option.isSome_iff_exists.mp hrun
  rw [runsSamples, hr, hsamples]

/-! ## Five samples and a limit of three -/

def sampleAt (t : Int) : Sample Unit :=
  ⟨1, t, "gateway", "up", none, none, none, none, none, none, none, none, none, none, none, none⟩

def fiveSamples : History Unit :=
  ([1000, 2000, 3000, 4000, 5000].map sampleAt).foldl appendSample
    ⟨⟨[⟨1, "session", 0, none, none⟩], 1⟩, ⟨[], List.Pairwise.nil⟩⟩

/-- All five rows are returned. -/
theorem getSamples_exceeds :
    ¬ ∀ (db : History Unit) (runId maxPoints : Int), (getRun db runId).isSome = true →
        ∃ samples, getSamples db runId maxPoints = .ok samples
          ∧ KeepsShape ((storedSamples db runId).map Sample.toDict) samples maxPoints := by
  intro hall
  obtain ⟨samples, hsamples, hshape⟩ := hall fiveSamples 1 3 (by decide)
  have hcount := length_storedSamples fiveSamples 1
  rw [show countSamples fiveSamples 1 = 5 by decide] at hcount
  rcases List.eq_nil_or_concat (storedSamples fiveSamples 1) with hnil | ⟨before, last, hstored⟩
  · rw [hnil] at hcount
    cases hcount
  · rw [List.concat_eq_append] at hstored
    rw [hstored, List.length_append, List.length_singleton] at hcount
    have hbefore : before.length = 4 := Nat.succ.inj hcount
    rw [getSamples_eq hstored (by decide), Except.ok.injEq] at hsamples
    have hrows := storedSamples_ascending fiveSamples 1
    rw [hstored] at hrows hshape
    rw [← hsamples, keepsShape_iff hrows, hbefore] at hshape
    revert hshape
    rw [show ((3 : Int)) = ((3 : Nat) : Int) from rfl, Int.ofNat_le,
      length_le_iff (by decide) before hbefore]
    decide

end FsoRunStore
