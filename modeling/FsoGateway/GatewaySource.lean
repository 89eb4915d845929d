import Mathlib.Data.List.Basic
import Mathlib.Data.List.Induction
import Mathlib.Algebra.BigOperators.Group.List.Basic
import Mathlib.Order.Lattice
import Mathlib.Algebra.Order.Ring.Int

/-! # The web bridge's telemetry source

    `webgui/server/gateway_source.py`: each line from the daemon is a snapshot
    of its counters with the block events since the last one.  The source turns
    the difference to the snapshot before into a throughput sample and alerts,
    and puts the block events in front of a ring of 200.  A snapshot is kept as
    the one before even when it is not used: the first of a connection, and one
    within 10 ms of its predecessor.

    * `ingestAll_blockEvents`, `ingestAll_history` — the ring and the history
      are the newest of what has been entered and sampled;
    * `webIngest_accounts_iff` — all events enter, and the byte deltas sum to
      the growth of the counters, just when no snapshot that is not used
      carries an event or a byte;
    * `webIngest_skips` — an event in the first snapshot. -/

namespace FsoGatewaySource

/-- `HISTORY_SAMPLES`. -/
def historySamples : Nat := 300

/-- `ALERT_RING_MAX`. -/
def alertRingMax : Nat := 200

/-- `BLOCK_EVENT_RING`. -/
def blockEventRing : Nat := 200

/-- The counters of `raw["stats"]` that the source compares. -/
structure RawStats where
  transmittedBytes : Int
  recoveredBytes : Int
  transmittedPackets : Int
  recoveredPackets : Int
  blocksAttempted : Int
  blocksRecovered : Int
  blocksFailed : Int
  symbolsDroppedCrc : Int
  maxBurstLength : Int
  burstsExceedingFecSpan : Int

/-- One of `raw["block_events"]`; a key may be missing. -/
structure RawEvent where
  blockId : Option Int
  tsMs : Option Int
  reason : Option String
  evicted : Option Int

/-- A snapshot of the daemon. -/
structure Raw where
  tsMs : Int
  stats : RawStats
  blockEvents : List RawEvent

structure BlockEvent where
  blockId : Option Int
  t : Option Int
  reason : String
  evicted : Bool
  deriving DecidableEq

def blockEventOf (ev : RawEvent) : BlockEvent :=
  ⟨ev.blockId, ev.tsMs, ev.reason.getD "UNKNOWN", ev.evicted.getD 0 ≠ 0⟩

/-- An entry of the history: the deltas and the milliseconds that its rates are
    the quotients of. -/
structure Sample where
  t : Int
  dtMs : Int
  dTxBytes : Int
  dRxBytes : Int
  dTxPkts : Int
  dRxPkts : Int
  dBAtt : Int
  dBRec : Int
  dBFail : Int

inductive Severity where
  | critical
  | warning
  deriving DecidableEq

inductive AlertModule where
  | fec
  | crc
  | burst
  deriving DecidableEq

def AlertModule.text : AlertModule → String
  | .fec => "FEC"
  | .crc => "CRC"
  | .burst => "BURST"

structure Alert where
  id : String
  t : Int
  severity : Severity
  alertModule : AlertModule
  message : String
  deriving DecidableEq

/-- The state of `GatewaySource`. -/
structure GatewaySource where
  lastRaw : Option Raw
  prevRaw : Option Raw
  history : List Sample
  alerts : List Alert
  blockEvents : List BlockEvent

/-- `GatewaySource.__init__`. -/
def gatewaySource : GatewaySource := ⟨none, none, [], [], []⟩

/-- The alert that `_push_alert` makes. -/
def newAlert (s : GatewaySource) (ts : Int) (severity : Severity) (mod : AlertModule)
    (message : String) : Alert :=
  ⟨toString ts ++ "-" ++ mod.text ++ "-" ++ toString s.alerts.length, ts, severity, mod,
    message⟩

/-- `_push_alert`. -/
def pushAlert (s : GatewaySource) (ts : Int) (severity : Severity) (mod : AlertModule)
    (message : String) : GatewaySource :=
  { s with alerts := (newAlert s ts severity mod message :: s.alerts).take alertRingMax }

/-- `_detect_alerts`. -/
def detectAlerts (s : GatewaySource) (raw prev : Raw) : GatewaySource :=
  let ts := raw.tsMs
  let dBlocksFailed := raw.stats.blocksFailed - prev.stats.blocksFailed
  let s :=
    if dBlocksFailed ≥ 3 then
      pushAlert s ts .critical .fec (toString dBlocksFailed ++ " FEC blocks failed this tick")
    else s
  let dCrc := raw.stats.symbolsDroppedCrc - prev.stats.symbolsDroppedCrc
  let s :=
    if dCrc ≥ 20 then
      pushAlert s ts .warning .crc (toString dCrc ++ " symbols dropped on CRC")
    else s
  let s :=
    if raw.stats.maxBurstLength > prev.stats.maxBurstLength ∧ raw.stats.maxBurstLength > 20 then
      pushAlert s ts .warning .burst
        ("Max burst length climbed to " ++ toString raw.stats.maxBurstLength)
    else s
  let dExceed := raw.stats.burstsExceedingFecSpan - prev.stats.burstsExceedingFecSpan
  if dExceed > 0 then
    pushAlert s ts .critical .burst
      (toString dExceed ++ " burst(s) exceeded FEC span this tick")
  else s

/-- `max(0, ...)` of a difference. -/
def delta (now before : Int) : Int := max 0 (now - before)

/-- The sample that `_ingest` appends. -/
def sampleOf (prev raw : Raw) : Sample where
  t := raw.tsMs
  dtMs := raw.tsMs - prev.tsMs
  dTxBytes := delta raw.stats.transmittedBytes prev.stats.transmittedBytes
  dRxBytes := delta raw.stats.recoveredBytes prev.stats.recoveredBytes
  dTxPkts := delta raw.stats.transmittedPackets prev.stats.transmittedPackets
  dRxPkts := delta raw.stats.recoveredPackets prev.stats.recoveredPackets
  dBAtt := delta raw.stats.blocksAttempted prev.stats.blocksAttempted
  dBRec := delta raw.stats.blocksRecovered prev.stats.blocksRecovered
  dBFail := delta raw.stats.blocksFailed prev.stats.blocksFailed

/-- The history, without its oldest samples where it has grown too long. -/
def trimHistory (history : List Sample) : List Sample :=
  if history.length > historySamples then history.drop (history.length - historySamples)
  else history

/-- `_ingest`. -/
def ingest (s : GatewaySource) (raw : Raw) : GatewaySource :=
  let s := { s with prevRaw := s.lastRaw, lastRaw := some raw }
  match s.prevRaw with
  | none => s
  | some prev =>
    -- `dt_s <= 0.01`: the quotient by 1000.0 of a whole number of milliseconds
    if raw.tsMs - prev.tsMs ≤ 10 then s
    else
      let s := { s with history := trimHistory (s.history ++ [sampleOf prev raw]) }
      let s := detectAlerts s raw prev
      let ring := raw.blockEvents.foldl (fun ring ev => blockEventOf ev :: ring) s.blockEvents
      { s with blockEvents := ring.take blockEventRing }

/-- What `_run` does when a connection ends. -/
def disconnect (s : GatewaySource) : GatewaySource :=
  { s with prevRaw := none, lastRaw := none, history := [] }

/-- The snapshots of one connection. -/
def ingestAll (s : GatewaySource) (raws : List Raw) : GatewaySource := raws.foldl ingest s

/-! ## What is entered and what is sampled -/

/-- A snapshot that is used, after the one before it. -/
def used (last : Option Raw) (raw : Raw) : Option Raw :=
  last.filter fun prev => 10 < raw.tsMs - prev.tsMs

/-- The block events of the snapshots that are used. -/
def entered : Option Raw → List Raw → List BlockEvent
  | _, [] => []
  | last, raw :: rest =>
    (if (used last raw).isSome then raw.blockEvents.map blockEventOf else [])
      ++ entered (some raw) rest

/-- The samples of the snapshots that are used. -/
def sampled : Option Raw → List Raw → List Sample
  | _, [] => []
  | last, raw :: rest =>
    (used last raw).toList.map (fun prev => sampleOf prev raw) ++ sampled (some raw) rest

/-- All block events of these snapshots. -/
def allEvents (raws : List Raw) : List BlockEvent :=
  raws.flatMap fun raw => raw.blockEvents.map blockEventOf

/-! ## One snapshot -/

@[simp] theorem pushAlert_history (s : GatewaySource) (ts : Int) (severity : Severity)
    (mod : AlertModule) (message : String) :
    (pushAlert s ts severity mod message).history = s.history := rfl

@[simp] theorem pushAlert_blockEvents (s : GatewaySource) (ts : Int) (severity : Severity)
    (mod : AlertModule) (message : String) :
    (pushAlert s ts severity mod message).blockEvents = s.blockEvents := rfl

@[simp] theorem pushAlert_lastRaw (s : GatewaySource) (ts : Int) (severity : Severity)
    (mod : AlertModule) (message : String) :
    (pushAlert s ts severity mod message).lastRaw = s.lastRaw := rfl

/-- `_detect_alerts` changes the alerts only. -/
theorem detectAlerts_frame (s : GatewaySource) (raw prev : Raw) :
    (detectAlerts s raw prev).history = s.history
      ∧ (detectAlerts s raw prev).blockEvents = s.blockEvents
      ∧ (detectAlerts s raw prev).lastRaw = s.lastRaw := by
  rw [detectAlerts]
  split <;> split <;> split <;> split <;> simp

theorem ingest_lastRaw (s : GatewaySource) (raw : Raw) : (ingest s raw).lastRaw = some raw := by
  rw [ingest]
  cases s.lastRaw with
  | none => rfl
  | some prev =>
      simp only
      split
      · rfl
      · exact (detectAlerts_frame _ raw prev).2.2

/-- A snapshot that is not used is kept, and nothing else happens. -/
theorem ingest_skipped {s : GatewaySource} {raw : Raw} (h : used s.lastRaw raw = none) :
    ingest s raw = { s with prevRaw := s.lastRaw, lastRaw := some raw } := by
  rw [ingest]
  cases hlast : s.lastRaw with
  | none => rfl
  | some prev =>
      simp only
      rw [hlast, used, Option.filter_some] at h
      split at h
      · cases h
      · rename_i hshort
        rw [if_pos]
        rw [decide_eq_true_eq] at hshort
        omega

theorem foldl_blockEvents (events : List RawEvent) (ring : List BlockEvent) :
    events.foldl (fun ring ev => blockEventOf ev :: ring) ring
      = (events.map blockEventOf).reverse ++ ring := by
  induction events generalizing ring with
  | nil => rfl
  | cons ev events ih =>
      rw [List.foldl_cons, ih, List.map_cons, List.reverse_cons, List.append_assoc]
      rfl

/-- A snapshot that is used. -/
theorem ingest_used {s : GatewaySource} {raw prev : Raw} (h : used s.lastRaw raw = some prev) :
    (ingest s raw).history = trimHistory (s.history ++ [sampleOf prev raw])
      ∧ (ingest s raw).blockEvents
        = ((raw.blockEvents.map blockEventOf).reverse ++ s.blockEvents).take blockEventRing := by
  obtain ⟨hlast, hlong⟩ := Option.filter_eq_some_iff.mp h
  rw [decide_eq_true_eq] at hlong
  rw [ingest, hlast]
  simp only
  rw [if_neg (by omega)]
  obtain ⟨hhistory, hevents, -⟩ := detectAlerts_frame
    { s with
      prevRaw := s.lastRaw
      lastRaw := some raw
      history := trimHistory (s.history ++ [sampleOf prev raw]) } raw prev
  constructor
  · rw [hlast] at hhistory
    exact hhistory
  · rw [hlast] at hevents
    rw [foldl_blockEvents, hevents]

theorem take_append_take {α : Type} (n : Nat) (l m : List α) :
    (l ++ m.take n).take n = (l ++ m).take n := by
  rw [List.take_append, List.take_append, List.take_take]
  congr 2
  omega

/-! ## The snapshots of a connection -/

/-- **The ring** has the newest of the events entered, before those it had. -/
theorem ingestAll_blockEvents (s : GatewaySource) (raws : List Raw)
    (hs : s.blockEvents.length ≤ blockEventRing) :
    (ingestAll s raws).blockEvents
      = ((entered s.lastRaw raws).reverse ++ s.blockEvents).take blockEventRing := by
  induction raws generalizing s with
  | nil => exact (List.take_of_length_le hs).symm
  | cons raw rest ih =>
      rw [ingestAll, List.foldl_cons, ← ingestAll, entered]
      cases hused : used s.lastRaw raw with
      | none =>
          rw [ingest_skipped hused, ih]
          · rfl
          · exact hs
      | some prev =>
          obtain ⟨-, hevents⟩ := ingest_used hused
          rw [ih, hevents, ingest_lastRaw]
          · rw [Option.isSome_some, if_pos rfl, List.reverse_append, List.append_assoc]
            exact take_append_take _ _ _
          · rw [hevents, List.length_take]
            exact Nat.min_le_left _ _

/-- The newest `n` elements, the oldest first. -/
def lastOf {α : Type} (n : Nat) (l : List α) : List α := l.drop (l.length - n)

theorem trimHistory_eq (history : List Sample) :
    trimHistory history = lastOf historySamples history := by
  rw [trimHistory, lastOf]
  split
  · rfl
  · rename_i hshort
    rw [Nat.sub_eq_zero_of_le (Nat.le_of_not_lt hshort), List.drop_zero]

theorem lastOf_append {α : Type} (n : Nat) (l m : List α) :
    lastOf n (lastOf n l ++ m) = lastOf n (l ++ m) := by
  rw [lastOf, lastOf, lastOf, List.length_append, List.length_append, List.length_drop]
  rcases Nat.le_total n l.length with h | h
  · rw [← List.drop_append_of_le_length (by omega), List.drop_drop]
    congr 1
    omega
  · rw [Nat.sub_eq_zero_of_le h, List.drop_zero, Nat.sub_zero]

/-- **The history** has the newest of the samples. -/
theorem ingestAll_history (s : GatewaySource) (raws : List Raw)
    (hs : s.history.length ≤ historySamples) :
    (ingestAll s raws).history
      = lastOf historySamples (s.history ++ sampled s.lastRaw raws) := by
  induction raws generalizing s with
  | nil =>
      rw [sampled, List.append_nil, lastOf, Nat.sub_eq_zero_of_le hs]
      rfl
  | cons raw rest ih =>
      rw [ingestAll, List.foldl_cons, ← ingestAll, sampled]
      cases hused : used s.lastRaw raw with
      | none =>
          rw [ingest_skipped hused, ih]
          · rfl
          · exact hs
      | some prev =>
          obtain ⟨hhistory, -⟩ := ingest_used hused
          rw [ih, hhistory, ingest_lastRaw, trimHistory_eq, lastOf_append]
          · rw [List.append_assoc]
            rfl
          · rw [hhistory, trimHistory_eq, lastOf, List.length_drop]
            omega

/-! ## What is skipped -/

/-- Every snapshot that is not used is such a one, after the one before it. -/
def EverySkipped (P : Option Raw → Raw → Prop) : Option Raw → List Raw → Prop
  | _, [] => True
  | last, raw :: rest => (used last raw = none → P last raw) ∧ EverySkipped P (some raw) rest

theorem everySkipped_and {P Q : Option Raw → Raw → Prop} {last : Option Raw} {raws : List Raw} :
    EverySkipped (fun last raw => P last raw ∧ Q last raw) last raws
      ↔ EverySkipped P last raws ∧ EverySkipped Q last raws := by
  induction raws generalizing last with
  | nil => exact ⟨fun _ => ⟨trivial, trivial⟩, fun _ => trivial⟩
  | cons raw rest ih =>
      constructor
      · rintro ⟨hraw, hrest⟩
        obtain ⟨hp, hq⟩ := ih.mp hrest
        exact ⟨⟨fun h => (hraw h).1, hp⟩, ⟨fun h => (hraw h).2, hq⟩⟩
      · rintro ⟨⟨hp, hps⟩, ⟨hq, hqs⟩⟩
        exact ⟨fun h => ⟨hp h, hq h⟩, ih.mpr ⟨hps, hqs⟩⟩

/-- It carries no event. -/
def NoEvents (_ : Option Raw) (raw : Raw) : Prop := raw.blockEvents = []

/-- It carries no growth of a counter. -/
def NoGrowth (f : RawStats → Int) (last : Option Raw) (raw : Raw) : Prop :=
  ∀ prev, last = some prev → f raw.stats = f prev.stats

theorem entered_length_le (last : Option Raw) (raws : List Raw) :
    (entered last raws).length ≤ (allEvents raws).length := by
  induction raws generalizing last with
  | nil => exact Nat.le_refl 0
  | cons raw rest ih =>
      have hrest := ih (some raw)
      rw [entered, allEvents, List.flatMap_cons, ← allEvents, List.length_append,
        List.length_append]
      split
      · omega
      · rw [List.length_nil]
        omega

/-- All events are entered just when none is in a snapshot that is not used. -/
theorem entered_eq_iff (last : Option Raw) (raws : List Raw) :
    entered last raws = allEvents raws ↔ EverySkipped NoEvents last raws := by
  induction raws generalizing last with
  | nil => exact ⟨fun _ => trivial, fun _ => rfl⟩
  | cons raw rest ih =>
      rw [entered, allEvents, List.flatMap_cons, ← allEvents, EverySkipped, ← ih (some raw)]
      cases hused : used last raw with
      | some prev =>
          rw [Option.isSome_some, if_pos rfl, List.append_cancel_left_eq]
          exact ⟨fun h => ⟨fun hn => (nomatch hn), h⟩, fun h => h.2⟩
      | none =>
          rw [Option.isSome_none, if_neg Bool.false_ne_true, List.nil_append]
          have hle := entered_length_le (some raw) rest
          constructor
          · intro heq
            have hlen := congrArg List.length heq
            rw [List.length_append, List.length_map] at hlen
            have hnone : raw.blockEvents = [] := List.eq_nil_of_length_eq_zero (by omega)
            rw [hnone] at heq
            exact ⟨fun _ => hnone, heq⟩
          · rintro ⟨hnone, heq⟩
            have hno : raw.blockEvents = [] := hnone rfl
            rw [hno, heq]
            rfl

/-- The growth of a counter from the first snapshot to the last. -/
def growth (f : RawStats → Int) (raws : List Raw) : Int :=
  match raws.head?, raws.getLast? with
  | some first, some last => f last.stats - f first.stats
  | _, _ => 0

/-- The counter does not decrease. -/
def Grows (f : RawStats → Int) (raws : List Raw) : Prop :=
  raws.Pairwise fun a b => f a.stats ≤ f b.stats

theorem growth_cons_cons (f : RawStats → Int) (prev raw : Raw) (rest : List Raw) :
    growth f (prev :: raw :: rest)
      = (f raw.stats - f prev.stats) + growth f (raw :: rest) := by
  have hlast : (prev :: raw :: rest).getLast? = (raw :: rest).getLast? := by
    rw [List.getLast?_cons_cons]
  obtain ⟨last, hl⟩ : ∃ last, (raw :: rest).getLast? = some last :=
    ⟨_, List.getLast?_eq_some_getLast (List.cons_ne_nil raw rest)⟩
  rw [growth, growth, hlast, hl]
  show f last.stats - f prev.stats = _ + (f last.stats - f raw.stats)
  omega

section Counter

variable {f : RawStats → Int} {d : Sample → Int}
variable (hd : ∀ prev raw, d (sampleOf prev raw) = delta (f raw.stats) (f prev.stats))
include hd

/-- The deltas of the samples never exceed the growth, and are all of it just
    when no snapshot that is not used carries any. -/
theorem sum_sampled (prev : Raw) (raws : List Raw) (hgrows : Grows f (prev :: raws)) :
    ((sampled (some prev) raws).map d).sum ≤ growth f (prev :: raws)
      ∧ (((sampled (some prev) raws).map d).sum = growth f (prev :: raws)
        ↔ EverySkipped (NoGrowth f) (some prev) raws) := by
  induction raws generalizing prev with
  | nil =>
      have hzero : growth f [prev] = 0 := Int.sub_self (f prev.stats)
      rw [sampled, hzero]
      exact ⟨Int.le_refl 0, fun _ => trivial, fun _ => rfl⟩
  | cons raw rest ih =>
      have hstep : f prev.stats ≤ f raw.stats :=
        (List.pairwise_cons.mp hgrows).1 raw List.mem_cons_self
      obtain ⟨hle, hiff⟩ := ih raw (List.pairwise_cons.mp hgrows).2
      rw [sampled, EverySkipped, ← hiff, growth_cons_cons, List.map_append, List.sum_append]
      cases hused : used (some prev) raw with
      | some before =>
          obtain ⟨hbefore, -⟩ := Option.filter_eq_some_iff.mp hused
          rw [Option.some.injEq] at hbefore
          have hsum : ((((some before).toList.map fun prev => sampleOf prev raw).map d).sum : Int)
              = f raw.stats - f prev.stats := by
            rw [← hbefore]
            show d (sampleOf prev raw) + 0 = _
            rw [hd, delta, Int.add_zero]
            omega
          rw [hsum]
          refine ⟨by omega, ?_⟩
          constructor
          · intro heq
            exact ⟨fun hn => (nomatch hn), by omega⟩
          · rintro ⟨-, heq⟩
            omega
      | none =>
          have hsum : ((((none : Option Raw).toList.map fun prev => sampleOf prev raw).map d).sum
              : Int) = 0 := rfl
          rw [hsum]
          refine ⟨by omega, ?_⟩
          constructor
          · intro heq
            refine ⟨fun _ => ?_, by omega⟩
            rintro p hp
            rw [← Option.some.inj hp]
            omega
          · rintro ⟨hsame, heq⟩
            have := hsame rfl prev rfl
            omega

/-- From the first snapshot of a connection on. -/
theorem sum_sampled_iff (raws : List Raw) (hgrows : Grows f raws) :
    ((sampled none raws).map d).sum = growth f raws
      ↔ EverySkipped (NoGrowth f) none raws := by
  cases raws with
  | nil => exact ⟨fun _ => trivial, fun _ => rfl⟩
  | cons first rest =>
      have hnone : EverySkipped (NoGrowth f) none (first :: rest)
          ↔ EverySkipped (NoGrowth f) (some first) rest := by
        constructor
        · rintro ⟨-, hrest⟩
          exact hrest
        · intro hrest
          exact ⟨fun _ prev hprev => (nomatch hprev), hrest⟩
      rw [hnone]
      exact (sum_sampled hd first rest hgrows).2

end Counter

/-- What a snapshot that is not used must not carry: a block event, or growth
    of a byte counter. -/
def CarriesNothing (last : Option Raw) (raw : Raw) : Prop :=
  NoEvents last raw ∧ NoGrowth RawStats.transmittedBytes last raw
    ∧ NoGrowth RawStats.recoveredBytes last raw

/-- **The ingest** of one connection.  The ring always has the newest 200 of the
    events entered, and the history the newest 300 of the samples.  All block
    events of the snapshots are entered, in order, and the byte deltas of the
    samples sum to the growth of the counters, if and only if every snapshot
    that is the first one, or within 10 ms of its predecessor, carries neither
    an event nor a byte. -/
theorem webIngest_accounts_iff (s : GatewaySource) (raws : List Raw) (hs : s.lastRaw = none)
    (hring : s.blockEvents.length ≤ blockEventRing) (hhistory : s.history = [])
    (htx : Grows RawStats.transmittedBytes raws) (hrx : Grows RawStats.recoveredBytes raws) :
    (∀ pre, pre <+: raws →
        (ingestAll s pre).blockEvents
            = ((entered none pre).reverse ++ s.blockEvents).take blockEventRing
          ∧ (ingestAll s pre).history = lastOf historySamples (sampled none pre))
      ∧ ((entered none raws = allEvents raws
            ∧ ((sampled none raws).map Sample.dTxBytes).sum
              = growth RawStats.transmittedBytes raws
            ∧ ((sampled none raws).map Sample.dRxBytes).sum
              = growth RawStats.recoveredBytes raws)
          ↔ EverySkipped CarriesNothing none raws) := by
  constructor
  · intro pre _
    have hevents := ingestAll_blockEvents s pre hring
    have hsamples := ingestAll_history s pre (by rw [hhistory]; exact Nat.zero_le _)
    rw [hs] at hevents hsamples
    rw [hhistory, List.nil_append] at hsamples
    exact ⟨hevents, hsamples⟩
  · rw [entered_eq_iff, sum_sampled_iff (fun _ _ => rfl) raws htx,
      sum_sampled_iff (fun _ _ => rfl) raws hrx, ← everySkipped_and, ← everySkipped_and]
    rfl

/-- A snapshot with so many bytes sent and received. -/
def rawAt (tsMs tx rx : Int) (blockEvents : List RawEvent) : Raw :=
  ⟨tsMs, ⟨tx, rx, 0, 0, 0, 0, 0, 0, 0, 0⟩, blockEvents⟩

/-- A snapshot without events, and a second later one with an event. -/
def quietStart : List Raw :=
  [rawAt 1000 0 0 [], rawAt 2000 500 700 [⟨some 1, some 1500, some "SUCCESS", none⟩]]

theorem webIngest_accounts_quietStart :
    entered none quietStart = allEvents quietStart
      ∧ ((sampled none quietStart).map Sample.dTxBytes).sum
        = growth RawStats.transmittedBytes quietStart
      ∧ ((sampled none quietStart).map Sample.dRxBytes).sum
        = growth RawStats.recoveredBytes quietStart := by
  refine (webIngest_accounts_iff gatewaySource quietStart rfl (by decide) rfl ?_ ?_).2.mpr ?_
  · simp [Grows, quietStart, rawAt]
  · simp [Grows, quietStart, rawAt]
  · refine ⟨fun _ => ⟨rfl, ?_, ?_⟩, fun h => ?_, trivial⟩
    · intro prev hprev
      cases hprev
    · intro prev hprev
      cases hprev
    · simp [used, rawAt] at h

/-- The daemon's first snapshot of a connection carries an event. -/
theorem webIngest_skips :
    ¬ ∀ raws : List Raw, (raws.Pairwise fun a b => a.tsMs ≤ b.tsMs) →
        Grows RawStats.transmittedBytes raws → Grows RawStats.recoveredBytes raws →
        (∀ pre, pre <+: raws →
            (ingestAll gatewaySource pre).blockEvents
              = (allEvents pre).reverse.take blockEventRing)
          ∧ ((sampled none raws).map Sample.dTxBytes).sum
            = growth RawStats.transmittedBytes raws
          ∧ ((sampled none raws).map Sample.dRxBytes).sum
            = growth RawStats.recoveredBytes raws := by
  intro hall
  obtain ⟨hring, -⟩ :=
    hall [rawAt 1000 0 0 [⟨some 1, some 900, some "SUCCESS", none⟩]]
      (List.pairwise_singleton _ _) (List.pairwise_singleton _ _) (List.pairwise_singleton _ _)
  have hfirst := hring _ List.prefix_rfl
  revert hfirst
  decide

end FsoGatewaySource
