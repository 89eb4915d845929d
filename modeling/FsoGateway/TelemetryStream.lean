import FsoGateway.SnapshotRead

/-! # The telemetry stream

    The daemon's control server sends its snapshots over a connection one after
    the other; the connection may break off within any of them.  The web bridge
    reads lines: one that `json.loads` does not take is passed over, one of
    another schema too, and any other error ends the connection.

    What decodes a line is a parameter: it takes ASCII for what it is.

    * `rawOf_snapshot` — what the bridge finds in a snapshot is what the daemon
      put into it;
    * `readLoop_take` — of a connection that breaks off after any number of
      bytes the bridge takes in just the snapshots that are whole. -/

namespace FsoGatewaySource

open FsoControlServer
open Json (Value Written chars)

/-! ## What the bridge finds in an object -/

def intOf : Value → Option Int
  | .int n => some n
  | _ => none

def stringOf : Value → Option String
  | .str s => some (String.ofList (s.map Char.ofNat))
  | _ => none

/-- `raw["stats"][name]`, an integer. -/
def counterOf (stats : Value) (name : String) : Option Int := (stats.get? name).bind intOf

def statsOf (stats : Value) : Option RawStats := do
  let transmittedBytes ← counterOf stats "transmitted_bytes"
  let recoveredBytes ← counterOf stats "recovered_bytes"
  let transmittedPackets ← counterOf stats "transmitted_packets"
  let recoveredPackets ← counterOf stats "recovered_packets"
  let blocksAttempted ← counterOf stats "blocks_attempted"
  let blocksRecovered ← counterOf stats "blocks_recovered"
  let blocksFailed ← counterOf stats "blocks_failed"
  let symbolsDroppedCrc ← counterOf stats "symbols_dropped_crc"
  let maxBurstLength ← counterOf stats "max_burst_length"
  let burstsExceedingFecSpan ← counterOf stats "bursts_exceeding_fec_span"
  return { transmittedBytes, recoveredBytes, transmittedPackets, recoveredPackets,
           blocksAttempted, blocksRecovered, blocksFailed, symbolsDroppedCrc, maxBurstLength,
           burstsExceedingFecSpan }

/-- One of `raw["block_events"]`. -/
def eventOf : Value → Option RawEvent
  | .obj l =>
    let ev := Value.obj l
    some ⟨(ev.get? "block_id").bind intOf, (ev.get? "ts_ms").bind intOf,
      (ev.get? "reason").bind stringOf, (ev.get? "evicted").bind intOf⟩
  | _ => none

/-- `raw.get("block_events", [])`. -/
def eventsOf (raw : Value) : Option (List RawEvent) :=
  match raw.get? "block_events" with
  | none => some []
  | some (.arr l) => l.mapM eventOf
  | some _ => none

/-- What `_ingest` reads of a snapshot. -/
def rawOf (raw : Value) : Option Raw := do
  let tsMs ← (raw.get? "ts_ms").bind intOf
  let stats ← (raw.get? "stats").bind statsOf
  let blockEvents ← eventsOf raw
  return { tsMs, stats, blockEvents }

/-! ## What the daemon put there -/

/-- A snapshot: the server, the clocks and the counters. -/
structure Shot where
  server : SnapshotServer
  readings : Readings
  stats : StatsContainer

def Shot.text (x : Shot) : List UInt8 := snapshotText x.server x.readings x.stats

def Shot.doc (x : Shot) : Written :=
  snapshotDoc x.server x.readings x.stats (drainedEvents x.server)

def rawStatsOf (s : StatsContainer) : RawStats where
  transmittedBytes := s.transmittedBytes.toNat
  recoveredBytes := s.recoveredBytes.toNat
  transmittedPackets := s.transmittedPackets.toNat
  recoveredPackets := s.recoveredPackets.toNat
  blocksAttempted := s.blocksAttempted.toNat
  blocksRecovered := s.blocksRecovered.toNat
  blocksFailed := s.blocksFailed.toNat
  symbolsDroppedCrc := s.symbolsDroppedCrc.toNat
  maxBurstLength := s.maxBurstLength.toNat
  burstsExceedingFecSpan := s.burstsExceedingFecSpan.toNat

def rawEventOf (e : EventRecord) : RawEvent :=
  ⟨some e.blockId.toNat, some e.tsMs.toInt, some (reasonStr e.reason), some e.isEviction.toNat⟩

/-- The snapshot as the bridge is to see it. -/
def Shot.raw (x : Shot) : Raw where
  tsMs := x.readings.nowMs.toInt
  stats := rawStatsOf x.stats
  blockEvents := (drainedEvents x.server).map rawEventOf

/-! ## The one is the other -/

theorem counterOf_field {s : StatsContainer} {name : String} {x : UInt64}
    (h : (name, x) ∈ statCounters s) :
    counterOf (Written.object (counterFields (statCounters s))).value name
      = some (x.toNat : Int) := by
  have hname : Name name := statCounters_names s name (List.mem_map_of_mem h)
  have hfield : field name (.integer x.toNat) ∈ counterFields (statCounters s) :=
    List.mem_map_of_mem h
  have hnodup : ((counterFields (statCounters s)).map fun m => m.1.1).Nodup := by
    have hnames : ((counterFields (statCounters noStats)).map fun m => m.1.1).Nodup := by
      decide +kernel
    exact hnames
  rw [counterOf, Written.get?_field hnodup hfield (Json.cleanOf_val hname)]
  rfl

theorem statsOf_stats (s : StatsContainer) :
    statsOf (Written.object (counterFields (statCounters s))).value = some (rawStatsOf s) := by
  rw [statsOf, counterOf_field (x := s.transmittedBytes) (by simp [statCounters]),
    counterOf_field (x := s.recoveredBytes) (by simp [statCounters]),
    counterOf_field (x := s.transmittedPackets) (by simp [statCounters]),
    counterOf_field (x := s.recoveredPackets) (by simp [statCounters]),
    counterOf_field (x := s.blocksAttempted) (by simp [statCounters]),
    counterOf_field (x := s.blocksRecovered) (by simp [statCounters]),
    counterOf_field (x := s.blocksFailed) (by simp [statCounters]),
    counterOf_field (x := s.symbolsDroppedCrc) (by simp [statCounters]),
    counterOf_field (x := s.maxBurstLength) (by simp [statCounters]),
    counterOf_field (x := s.burstsExceedingFecSpan) (by simp [statCounters])]
  rfl

theorem stringOf_literal {s : String} (h : Name s) : stringOf (literal s).value = some s := by
  have hvalue : (literal s).value = .str (Json.codes s.toList) := by
    show Value.str (Json.codes (Json.cleanOf s.toList).1) = _
    rw [Json.cleanOf_val h]
  have hchars : (Json.codes s.toList).map Char.ofNat = s.toList := by
    rw [Json.codes, List.map_map]
    exact (List.map_congr_left fun c _ => Char.ofNat_toNat c).trans (List.map_id _)
  rw [hvalue, stringOf, hchars, String.ofList_toList]

theorem eventOf_event (e : EventRecord) : eventOf (eventDoc e).value = some (rawEventOf e) := by
  have hreason : ((eventDoc e).value.get? "reason").bind stringOf = some (reasonStr e.reason) :=
    stringOf_literal (reasonStr_name e.reason)
  have hevicted : (Int32.ofNat e.isEviction.toNat).toInt = (e.isEviction.toNat : Int) := by
    refine Int32.toInt_ofNat_of_lt ?_
    have hlt := e.isEviction.toNat_lt
    omega
  show some (RawEvent.mk _ _ (((eventDoc e).value.get? "reason").bind stringOf)
    (some (Int32.ofNat e.isEviction.toNat).toInt)) = _
  rw [hreason, hevicted]
  rfl

theorem eventsOf_events (evs : List EventRecord) :
    ((evs.map eventDoc).map Written.value).mapM eventOf = some (evs.map rawEventOf) := by
  induction evs with
  | nil => rfl
  | cons e evs ih =>
      rw [List.map_cons, List.map_cons, List.mapM_cons, eventOf_event, ih]
      rfl

/-- **The bridge finds** in a snapshot what the daemon put there. -/
theorem rawOf_doc (x : Shot) : rawOf x.doc.value = some x.raw := by
  have hts : x.doc.value.get? "ts_ms" = some (.int x.readings.nowMs.toInt) := by
    rw [Shot.doc, snapshotDoc]
    cases x.server.dil <;> cases x.server.arpCache <;> rfl
  have hstats : x.doc.value.get? "stats"
      = some (Written.object (counterFields (statCounters x.stats))).value := by
    rw [Shot.doc, snapshotDoc]
    cases x.server.dil <;> cases x.server.arpCache <;> rfl
  have hevents : x.doc.value.get? "block_events"
      = some (.arr (((drainedEvents x.server).map eventDoc).map Written.value)) := by
    rw [Shot.doc, snapshotDoc]
    cases x.server.dil <;> cases x.server.arpCache <;> rfl
  rw [rawOf, hts, hstats, Option.bind_some, Option.bind_some, statsOf_stats, eventsOf, hevents]
  simp only [eventsOf_events]
  rfl

/-- The schema of a snapshot, if it is an object and its schema a string. -/
def schemaOf : Value → Option (List Nat)
  | .obj l =>
    match (Value.obj l).get? "schema" with
    | none => some []
    | some (.str s) => some s
    | some _ => none
  | _ => none

/-- `"fso-gw-stats/"`. -/
def schemaPrefix : List Nat := Json.codes "fso-gw-stats/".toList

theorem schemaOf_doc (x : Shot) :
    schemaOf x.doc.value = some (Json.codes "fso-gw-stats/2".toList) := by
  rw [Shot.doc, snapshotDoc]
  cases x.server.dil <;> cases x.server.arpCache <;> rfl

/-! ## The read loop -/

/-- The limit of a `StreamReader`. -/
def lineLimit : Nat := 65536

/-- `reader.readline()`: a line with its line feed, or what is left, and what
    comes after it. -/
def readline : List UInt8 → List UInt8 × List UInt8
  | [] => ([], [])
  | b :: rest =>
    if b = 10 then ([b], rest)
    else
      let r := readline rest
      (b :: r.1, r.2)

/-- A line longer than this `readline` refuses. -/
def tooLong (line : List UInt8) : Bool := lineLimit < (line.takeWhile (· ≠ 10)).length

section Loop

variable (decode : List UInt8 → Option Json.Text)

/-- What the loop does with a line; `none` is an exception that ends it. -/
def handleLine (s : GatewaySource) (line : List UInt8) : Option GatewaySource :=
  if tooLong line then none
  else
    (decode line).bind fun text =>
      match Json.loads text with
      | none => some s
      | some raw =>
        (schemaOf raw).bind fun schema =>
          if schemaPrefix.isPrefixOf schema then (rawOf raw).map (ingest s) else some s

/-- How a connection ends. -/
inductive Ending where
  | eof
  | raised
  deriving DecidableEq

/-- `_read_loop` on all that comes over a connection, of at most `n` lines. -/
def readLoop : Nat → GatewaySource → List UInt8 → GatewaySource × Ending
  | 0, s, _ => (s, .eof)
  | n + 1, s, stream =>
    let r := readline stream
    if r.1 = [] then (s, .eof)
    else
      match handleLine decode s r.1 with
      | none => (s, .raised)
      | some s => readLoop n s r.2

/-- `_run` on one connection after the other. -/
def runConnections (s : GatewaySource) (streams : List (List UInt8)) : GatewaySource :=
  streams.foldl (fun s stream => disconnect (readLoop decode (stream.length + 1) s stream).1) s

end Loop

/-- How many of these lines are there in the first `n` bytes; the last one may
    lack its line feed. -/
def arrived : Nat → List (List UInt8) → Nat
  | _, [] => 0
  | n, t :: ts => if t.length ≤ n + 1 then arrived (n - t.length) ts + 1 else 0

/-! ## One line -/

theorem readline_line {line : List UInt8} (h : ∀ b ∈ line, b ≠ 10) (rest : List UInt8) :
    readline (line ++ 10 :: rest) = (line ++ [10], rest) := by
  induction line with
  | nil => rfl
  | cons b line ih =>
      rw [List.cons_append, readline, if_neg (h b List.mem_cons_self),
        ih fun c hc => h c (List.mem_cons_of_mem b hc)]
      rfl

theorem readline_last {line : List UInt8} (h : ∀ b ∈ line, b ≠ 10) :
    readline line = (line, []) := by
  induction line with
  | nil => rfl
  | cons b line ih =>
      rw [readline, if_neg (h b List.mem_cons_self),
        ih fun c hc => h c (List.mem_cons_of_mem b hc)]

/-- A snapshot that the daemon can send. -/
structure Shot.Sendable (x : Shot) : Prop where
  uptime : |x.readings.uptimeSec| < 10 ^ 12
  name : PrintableConfig x.server.gatewayCfg

/-- Its text is a printed line. -/
theorem Shot.text_line {x : Shot} (h : x.Sendable) :
    ∃ line, x.text = line ++ [10] ∧ Printable line ∧ chars line = x.doc.text
      ∧ line.length < lineLimit := by
  obtain ⟨line, htext, hprint, hchars⟩ := line_of_chars x.doc.printed
    (snapshotText_doc h.name x.readings x.stats)
  refine ⟨line, htext, hprint, hchars, ?_⟩
  have hle := snapshotText_length_le x.server h.uptime x.stats
  rw [htext, List.length_append] at hle
  exact Nat.lt_of_le_of_lt (Nat.le_trans (Nat.le_add_right _ _) hle) (by decide)

theorem printable_no_feed {line : List UInt8} (h : Printable line) : ∀ b ∈ line, b ≠ 10 := by
  rintro b hb rfl
  exact absurd (h 10 hb).1 (by decide)

theorem tooLong_line {line : List UInt8} (hprint : Printable line) (hlen : line.length < lineLimit)
    {space : List UInt8} (hspace : space.takeWhile (· ≠ 10) = []) :
    tooLong (line ++ space) = false := by
  have hall : ∀ b ∈ line, decide (b ≠ 10) = true :=
    fun b hb => decide_eq_true (printable_no_feed hprint b hb)
  rw [tooLong, List.takeWhile_append_of_pos hall, hspace, List.append_nil]
  exact decide_eq_false (Nat.not_lt.mpr (Nat.le_of_lt hlen))

section Lines

variable {decode : List UInt8 → Option Json.Text}

/-- ASCII text is decoded as what it is. -/
def DecodesAscii (decode : List UInt8 → Option Json.Text) : Prop :=
  ∀ t, (∀ b ∈ t, 0 < b.toNat ∧ b.toNat < 128) → decode t = some (chars t)

theorem decode_printable (hdecode : DecodesAscii decode) {line : List UInt8}
    (h : Printable line) : decode line = some (chars line) :=
  hdecode line fun b hb => ⟨Nat.lt_of_lt_of_le (by decide) (h b hb).1, (h b hb).2⟩

/-- A snapshot that has arrived, with its line feed or without. -/
theorem handleLine_whole (hdecode : DecodesAscii decode) {x : Shot} {line : List UInt8}
    (hprint : Printable line) (hchars : chars line = x.doc.text) (hlen : line.length < lineLimit)
    {space : List UInt8} (hspace : space = [] ∨ space = [10]) (s : GatewaySource) :
    handleLine decode s (line ++ space) = some (ingest s x.raw) := by
  have hlong : tooLong (line ++ space) = false := by
    refine tooLong_line hprint hlen ?_
    obtain rfl | rfl := hspace <;> rfl
  have hascii : ∀ b ∈ line ++ space, 0 < b.toNat ∧ b.toNat < 128 := by
    intro b hb
    rcases List.mem_append.mp hb with h | h
    · exact ⟨Nat.lt_of_lt_of_le (by decide) (hprint b h).1, (hprint b h).2⟩
    · obtain rfl | rfl := hspace
      · exact absurd h List.not_mem_nil
      · rw [List.mem_singleton.mp h]
        decide
  have hloads : Json.loads (chars (line ++ space)) = some x.doc.value := by
    rw [Json.chars_append, hchars]
    refine x.doc.loads_text ?_
    obtain rfl | rfl := hspace <;> decide
  rw [handleLine, hlong, if_neg Bool.false_ne_true, hdecode _ hascii, Option.bind_some]
  simp only [hloads]
  rw [schemaOf_doc, Option.bind_some, if_pos (by decide), rawOf_doc]
  rfl

/-- A snapshot that has been cut off. -/
theorem handleLine_cut (hdecode : DecodesAscii decode) {x : Shot} {t q : List UInt8}
    (hprint : Printable (t ++ q)) (hchars : chars (t ++ q) = x.doc.text)
    (hlen : (t ++ q).length < lineLimit) (ht : t ≠ []) (hq : q ≠ []) (s : GatewaySource) :
    handleLine decode s t = some s := by
  have hprint' : Printable t := fun b hb => hprint b (List.mem_append_left q hb)
  have hlen' : t.length < lineLimit := by
    rw [List.length_append] at hlen
    omega
  have hlong : tooLong (t ++ []) = false := tooLong_line hprint' hlen' rfl
  rw [List.append_nil] at hlong
  have hloads : Json.loads (chars t) = none := by
    cases t with
    | nil => exact absurd rfl ht
    | cons b t =>
        have htext : Char.ofNat b.toNat :: (chars t ++ chars q) = x.doc.text := by
          rw [← hchars, Json.chars_append, Json.chars_cons, List.cons_append]
        obtain ⟨more, hbrace⟩ : ∃ more, x.doc.text = '{' :: more := ⟨_, rfl⟩
        have hb : Char.ofNat b.toNat = '{' := (List.cons.inj (htext.trans hbrace)).1
        have hreads := x.doc.reads
        rw [← htext, hb] at hreads
        rw [Json.chars_cons, hb]
        refine Json.loads_cut hreads ?_
        rw [chars, ne_eq, List.map_eq_nil_iff]
        exact hq
  rw [handleLine, hlong, if_neg Bool.false_ne_true, decode_printable hdecode hprint',
    Option.bind_some]
  simp only [hloads]

/-! ## A connection -/

theorem readLoop_nil (n : Nat) (s : GatewaySource) : readLoop decode n s [] = (s, .eof) := by
  cases n with
  | zero => rfl
  | succ n => rfl

theorem arrived_zero {xs : List Shot} (h : ∀ x ∈ xs, x.Sendable) :
    arrived 0 (xs.map Shot.text) = 0 := by
  cases xs with
  | nil => rfl
  | cons x xs =>
      obtain ⟨line, htext, -, hchars, -⟩ := Shot.text_line (h x List.mem_cons_self)
      have hne : line ≠ [] := by
        rintro rfl
        exact absurd hchars (List.cons_ne_nil _ _).symm
      have hpos := List.length_pos_of_ne_nil hne
      rw [List.map_cons, arrived, if_neg]
      rw [htext, List.length_append, List.length_singleton]
      omega

/-- One line more. -/
theorem readLoop_line {line : List UInt8} (hne : line ≠ []) {rest stream : List UInt8}
    (hread : readline stream = (line, rest)) {s s' : GatewaySource}
    (hhandle : handleLine decode s line = some s') (fuel : Nat) :
    readLoop decode (fuel + 1) s stream = readLoop decode fuel s' rest := by
  rw [readLoop, hread]
  dsimp only
  rw [if_neg hne, hhandle]

/-- **A connection that breaks off** after `n` bytes: the bridge takes in the
    snapshots that have arrived, and no part of another one. -/
theorem readLoop_take (hdecode : DecodesAscii decode) {xs : List Shot}
    (h : ∀ x ∈ xs, x.Sendable) (n : Nat) {fuel : Nat}
    (hfuel : ((xs.map Shot.text).flatten.take n).length < fuel) (s : GatewaySource) :
    readLoop decode fuel s ((xs.map Shot.text).flatten.take n)
      = (ingestAll s ((xs.take (arrived n (xs.map Shot.text))).map Shot.raw), .eof) := by
  induction xs generalizing n fuel s with
  | nil =>
      rw [List.map_nil, List.flatten_nil, List.take_nil, readLoop_nil]
      rfl
  | cons x xs ih =>
      have hrest : ∀ y ∈ xs, y.Sendable := fun y hy => h y (List.mem_cons_of_mem x hy)
      obtain ⟨line, htext, hprint, hchars, hlen⟩ := Shot.text_line (h x List.mem_cons_self)
      have hfeed := printable_no_feed hprint
      have hne : line ≠ [] := by
        rintro rfl
        exact absurd hchars (List.cons_ne_nil _ _).symm
      have hsize : (line ++ [10]).length = line.length + 1 := List.length_append
      obtain ⟨fuel, rfl⟩ : ∃ f, fuel = f + 1 := ⟨fuel - 1, by omega⟩
      rw [List.map_cons, List.flatten_cons, arrived, htext, hsize]
      rcases Nat.lt_trichotomy n line.length with hlt | rfl | hgt
      · -- within the line, so what has come of it is passed over
        have htake : (line ++ [10] ++ (xs.map Shot.text).flatten).take n = line.take n := by
          rw [List.append_assoc, List.take_append_of_le_length (Nat.le_of_lt hlt)]
        rw [if_neg (by omega), htake, List.take_zero]
        by_cases hzero : n = 0
        · rw [hzero, List.take_zero, readLoop_nil]
          rfl
        · have hcut : line.take n ≠ [] := by
            rw [ne_eq, List.take_eq_nil_iff]
            exact not_or.mpr ⟨hzero, hne⟩
          have hmore : line.drop n ≠ [] := by
            rw [ne_eq, List.drop_eq_nil_iff]
            omega
          rw [← List.take_append_drop n line] at hprint hchars hlen
          have hhandle := handleLine_cut hdecode hprint hchars hlen hcut hmore s
          have hread : readline (line.take n) = (line.take n, []) :=
            readline_last fun b hb => hfeed b (List.mem_of_mem_take hb)
          rw [readLoop_line hcut hread hhandle, readLoop_nil]
          rfl
      · -- the line without its line feed
        have htake : (line ++ [10] ++ (xs.map Shot.text).flatten).take line.length = line := by
          rw [List.append_assoc, List.take_left]
        have hhandle := handleLine_whole hdecode hprint hchars hlen (Or.inl rfl) s
        rw [List.append_nil] at hhandle
        rw [if_pos (Nat.le_refl _), htake, readLoop_line hne (readline_last hfeed) hhandle,
          readLoop_nil, Nat.sub_eq_zero_of_le (Nat.le_succ _), arrived_zero hrest]
        rfl
      · -- the whole line, and what comes after it
        obtain ⟨k, rfl⟩ : ∃ k, n = line.length + 1 + k := ⟨n - (line.length + 1), by omega⟩
        have htake : (line ++ [10] ++ (xs.map Shot.text).flatten).take (line.length + 1 + k)
            = line ++ 10 :: (xs.map Shot.text).flatten.take k := by
          rw [← hsize, List.take_length_add_append, List.append_assoc]
          rfl
        have hhandle := handleLine_whole hdecode hprint hchars hlen (Or.inr rfl) s
        have hwhole : line ++ [10] ≠ [] := List.append_ne_nil_of_left_ne_nil hne _
        have hfuel' : ((xs.map Shot.text).flatten.take k).length < fuel := by
          rw [List.map_cons, List.flatten_cons, htext, htake, List.length_append,
            List.length_cons] at hfuel
          omega
        rw [if_pos (by omega), htake, readLoop_line hwhole (readline_line hfeed _) hhandle,
          ih hrest k hfuel', Nat.add_sub_cancel_left]
        rfl

/-- What a connection carries that breaks off. -/
structure Connection where
  shots : List Shot
  bytes : Nat

/-- What comes over a connection. -/
def Connection.stream (c : Connection) : List UInt8 :=
  ((c.shots.map Shot.text).flatten).take c.bytes

/-- The snapshots that arrive. -/
def Connection.arrivals (c : Connection) : List Raw :=
  (c.shots.take (arrived c.bytes (c.shots.map Shot.text))).map Shot.raw

/-- **The stream from the daemon to the bridge.**  However many connections there
    are and wherever each of them breaks off, the bridge is in the state of one
    that has been handed just the snapshots that arrived whole, in order. -/
theorem runConnections_eq (hdecode : DecodesAscii decode) (cs : List Connection)
    (h : ∀ c ∈ cs, ∀ x ∈ c.shots, x.Sendable) (s : GatewaySource) :
    runConnections decode s (cs.map Connection.stream)
      = cs.foldl (fun s c => disconnect (ingestAll s c.arrivals)) s := by
  induction cs generalizing s with
  | nil => rfl
  | cons c cs ih =>
      have hloop := readLoop_take hdecode (h c List.mem_cons_self) c.bytes
        (Nat.lt_succ_self (c.stream.length)) s
      have hrest := ih (fun d hd => h d (List.mem_cons_of_mem c hd))
        (disconnect (ingestAll s c.arrivals))
      rw [List.map_cons, runConnections, List.foldl_cons, List.foldl_cons, ← hrest, runConnections]
      congr 2
      exact congrArg Prod.fst hloop

end Lines

/-- A decoder that takes every byte for a character. -/
def decodeBytes (t : List UInt8) : Option Json.Text := some (chars t)

def namedShot : Shot := ⟨namedServer, ⟨1500, 1 / 2, 1⟩, noStats⟩

/-- A connection that breaks off in its first snapshot, and one in its third. -/
def brokenConnections : List Connection :=
  [⟨[namedShot], 100⟩, ⟨[namedShot, namedShot, namedShot], 2000⟩]

theorem namedShot_sendable : namedShot.Sendable := by
  refine ⟨?_, ?_⟩
  · show |(1 / 2 : ℚ)| < 10 ^ 12
    norm_num
  · intro c hc
    cases Option.some_inj.mp hc
    decide

theorem runConnections_eq_broken :
    DecodesAscii decodeBytes
      ∧ (∀ c ∈ brokenConnections, ∀ x ∈ c.shots, x.Sendable)
      ∧ runConnections decodeBytes gatewaySource (brokenConnections.map Connection.stream)
        = brokenConnections.foldl (fun s c => disconnect (ingestAll s c.arrivals)) gatewaySource := by
  have hdecode : DecodesAscii decodeBytes := fun t _ => rfl
  have hshots : ∀ c ∈ brokenConnections, ∀ x ∈ c.shots, x.Sendable := by
    intro c hc x hx
    have hx' : x = namedShot := by
      rcases List.mem_cons.mp hc with rfl | hc
      · exact List.mem_singleton.mp hx
      · rw [List.mem_singleton.mp hc] at hx
        exact List.eq_of_mem_replicate (n := 3) hx
    rw [hx']
    exact namedShot_sendable
  exact ⟨hdecode, hshots, runConnections_eq hdecode brokenConnections hshots gatewaySource⟩

end FsoGatewaySource
