import FsoGateway.GatewaySource
import FsoGateway.Lib.JsonCut
import FsoGateway.Lib.JsonWrite
import FsoGateway.SnapshotFits

/-! # Snapshots on the wire

    The daemon writes a snapshot as one line of JSON by `printf` formats; the web
    bridge reads lines and gives them to `json.loads`.

    * `snapshotText_doc` — the text of a snapshot is a written object, and a
      line feed;
    * `snapshot_read` — so `json.loads` reads every snapshot as it was meant. -/

namespace FsoControlServer

open FsoDeinterleaver FsoArpCache Printf
open Json (Written CleanText Value chars cleanOf)

/-! ## The document -/

def field (name : String) (w : Written) : Written.Field := (cleanOf name.toList, w)

/-- A string of the source. -/
def literal (s : String) : Written := .string (cleanOf s.toList)

/-- A string that is no literal. -/
def ofText (t : Text) : Written := .string (cleanOf (chars t))

def counterFields (fs : List (String × UInt64)) : List Written.Field :=
  fs.map fun f => field f.1 (.integer f.2.toNat)

/-- `config`. -/
def configDoc (k m depth symbolSize crc : Int32) (lan fso : Text) : Written :=
  .object [field "k" (.integer k.toInt), field "m" (.integer m.toInt),
    field "depth" (.integer depth.toInt), field "symbol_size" (.integer symbolSize.toInt),
    field "internal_symbol_crc" (.integer crc.toInt), field "lan_iface" (ofText lan),
    field "fso_iface" (ofText fso)]

/-- `config`, of a configuration or of none. -/
def configOf : Option GatewayConfig → Written
  | none => configDoc 0 0 0 0 0 [] []
  | some cfg =>
    configDoc cfg.k cfg.m cfg.depth cfg.symbolSize cfg.internalSymbolCrcEnabled
      (escapeIface 32 (some cfg.lanIface)) (escapeIface 32 (some cfg.fsoIface))

theorem three_pos : 0 < 3 := by decide

/-- The members of the first append. -/
def headFields (t : Readings) (s : StatsContainer) (config : Written) : List Written.Field :=
  [field "schema" (literal "fso-gw-stats/2"), field "ts_ms" (.integer t.nowMs.toInt),
    field "uptime_sec" (.fixed 3 three_pos t.uptimeSec), field "config" config,
    field "stats" (.object (counterFields (statCounters s)))]

/-- `dil_stats`, if there is a deinterleaver. -/
def dilFields : Option Deinterleaver → List Written.Field
  | none => []
  | some d =>
    [field "dil_stats" (.object (counterFields (dilCounters d.stats)
      ++ [field "active_blocks" (.integer (Int32.ofNat (deinterleaverActiveBlocks d)).toInt),
        field "ready_count" (.integer (Int32.ofNat (deinterleaverReadyCount d)).toInt)]))]

/-- An address with dots. -/
def ipText (ip : UInt32) : Text :=
  digits ((ip >>> 0) &&& 0xff).toNat ++ bytes "." ++ digits ((ip >>> 8) &&& 0xff).toNat
    ++ bytes "." ++ digits ((ip >>> 16) &&& 0xff).toNat ++ bytes "."
    ++ digits ((ip >>> 24) &&& 0xff).toNat

/-- `%02x`. -/
def hexText (x : UInt8) : Text := zeroPad 2 (ascii (Nat.toDigits 16 x.toNat))

/-- An address with colons. -/
def macText (mac : Mac) : Text :=
  hexText (mac.get 0) ++ bytes ":" ++ hexText (mac.get 1) ++ bytes ":" ++ hexText (mac.get 2)
    ++ bytes ":" ++ hexText (mac.get 3) ++ bytes ":" ++ hexText (mac.get 4) ++ bytes ":"
    ++ hexText (mac.get 5)

def arpDoc (e : ArpEntry) : Written :=
  .object [field "ip" (ofText (ipText e.ipNbo)), field "mac" (ofText (macText e.mac)),
    field "last_seen_ms" (.integer (Int64.ofInt e.lastSeenMs).toInt)]

/-- `arp`, if there is a cache. -/
def arpFields (time : Int) : Option ArpCache → List Written.Field
  | none => []
  | some c => [field "arp" (.array ((arpCacheDump c time arpDumpMax).map arpDoc))]

def eventDoc (e : EventRecord) : Written :=
  .object [field "block_id" (.integer e.blockId.toNat), field "ts_ms" (.integer e.tsMs.toInt),
    field "reason" (literal (reasonStr e.reason)),
    field "evicted" (.integer (Int32.ofNat e.isEviction.toNat).toInt)]

/-- **A snapshot as an object**, with the events `evs`. -/
def snapshotDoc (cs : SnapshotServer) (t : Readings) (s : StatsContainer)
    (evs : List EventRecord) : Written :=
  .object (headFields t s (configOf cs.gatewayCfg) ++ (dilFields cs.dil ++ arpFields t.time cs.arpCache
    ++ [field "block_events" (.array (evs.map eventDoc))]))

/-! ## Its text -/

/-- A name that is printed between quotes as it is. -/
def Name (s : String) : Prop := Json.Clean s.toList

instance (s : String) : Decidable (Name s) := inferInstanceAs (Decidable (Json.Clean _))

theorem field_text {name : String} (h : Json.Clean name.toList) (w : Written) :
    (field name w).text = '"' :: (name.toList ++ '"' :: ':' :: w.text) := by
  rw [field, Written.Field.text, Json.cleanOf_val h, Json.quoted, List.cons_append,
    List.append_assoc]
  rfl

theorem integer_text (x : Int) : (Written.integer x).text = chars (signed x) := rfl

theorem fixed_text (p : Nat) (hp : 0 < p) (x : ℚ) :
    (Written.fixed p hp x).text = chars (fixed p x) := rfl

theorem signed_natCast (n : Nat) : signed (n : Int) = digits n :=
  if_neg (Int.not_lt.mpr (Int.natCast_nonneg n))

theorem chars_append_render (ps qs : List Piece) :
    chars (render (ps ++ qs)) = chars (render ps) ++ chars (render qs) := by
  rw [render, List.flatMap_append, Json.chars_append]
  rfl

/-- A counter as a member of an object. -/
theorem chars_counter {f : String × UInt64} (h : Name f.1) :
    chars (render [.text "\"", .text f.1, .text "\":", .ulong f.2])
      = (field f.1 (.integer f.2.toNat)).text := by
  have hrender : render [.text "\"", .text f.1, .text "\":", .ulong f.2]
      = bytes "\"" ++ (bytes f.1 ++ (bytes "\":" ++ (digits f.2.toNat ++ []))) := rfl
  rw [field_text h, integer_text, signed_natCast, hrender]
  simp only [Json.chars_append, Json.chars_bytes h.ascii, List.append_nil]
  rfl

/-- Counters as the members of an object. -/
theorem chars_counters {fs : List (String × UInt64)} (h : ∀ name ∈ fs.map Prod.fst, Name name) :
    chars (render (counters fs)) = Json.commas ((counterFields fs).map Written.Field.text) := by
  induction fs using counters.induct with
  | case1 => rfl
  | case2 name x => exact chars_counter (f := (name, x)) (h name List.mem_cons_self)
  | case3 name x rest hne ih =>
      have hname : Name name := h name List.mem_cons_self
      have hrest := ih fun n hn => h n (List.mem_cons_of_mem _ hn)
      have hfields : (counterFields rest).map Written.Field.text ≠ [] := by
        rw [counterFields, List.map_map, ne_eq, List.map_eq_nil_iff]
        exact hne
      have hcommas : Json.commas ((counterFields ((name, x) :: rest)).map Written.Field.text)
          = (field name (.integer x.toNat)).text
            ++ ',' :: Json.commas ((counterFields rest).map Written.Field.text) :=
        Json.commas_append (List.cons_ne_nil _ []) hfields
      have hcounter : chars (render [.text "\"", .text name, .text "\":", .ulong x])
          = (field name (.integer x.toNat)).text := chars_counter (f := (name, x)) hname
      have hpieces : [.text "\"", .text name, .text "\":", .ulong x, .text ","]
          = [.text "\"", .text name, .text "\":", .ulong x] ++ [Piece.text ","] := rfl
      rw [counters, hpieces, chars_append_render, chars_append_render, hrest, hcommas, hcounter,
        List.append_assoc]
      · rfl
      · exact hne

/-- The members of an object behind the first ones. -/
theorem commas_behind {ts : List Json.Text} (h : ts ≠ []) (us : List Json.Text) :
    Json.commas (ts ++ us) = Json.commas ts ++ us.flatMap fun u => ',' :: u := by
  induction us generalizing ts with
  | nil => rw [List.append_nil, List.flatMap_nil, List.append_nil]
  | cons u us ih =>
      have hsplit : ts ++ u :: us = ts ++ [u] ++ us := List.append_cons ts u us
      rw [hsplit, ih (List.append_ne_nil_of_left_ne_nil h _),
        Json.commas_append h (List.cons_ne_nil u []), List.flatMap_cons, List.append_assoc]
      rfl

/-- The names of the counters. -/
theorem statCounters_names (s : StatsContainer) :
    ∀ name ∈ (statCounters s).map Prod.fst, Name name := by
  have hnames : ∀ name ∈ (statCounters noStats).map Prod.fst, Name name := by decide +kernel
  exact hnames

theorem dilCounters_names (ds : DilStats) :
    ∀ name ∈ (dilCounters ds).map Prod.fst, Name name := by
  have hnames : ∀ name ∈ (dilCounters {}).map Prod.fst, Name name := by decide +kernel
  exact hnames

theorem object_text (ms : List Written.Field) :
    (Written.object ms).text = '{' :: (Json.commas (ms.map Written.Field.text) ++ ['}']) := rfl

theorem array_text (es : List Written) :
    (Written.array es).text = '[' :: (Json.commas (es.map Written.text) ++ [']']) := rfl

theorem ofText_text {t : Text} (h : Json.Clean (chars t)) :
    (ofText t).text = '"' :: (chars t ++ ['"']) := by
  show Json.quoted (cleanOf (chars t)).1 = _
  rw [Json.cleanOf_val h]
  rfl

theorem literal_text {s : String} (h : Json.Clean s.toList) :
    (literal s).text = '"' :: (s.toList ++ ['"']) := by
  show Json.quoted (cleanOf s.toList).1 = _
  rw [Json.cleanOf_val h]
  rfl

theorem chars_config (k m depth symbolSize crc : Int32) {lan fso : Text}
    (hlan : Json.Clean (chars lan)) (hfso : Json.Clean (chars fso)) :
    chars (render (configFormat k m depth symbolSize crc lan fso))
      = ',' :: ((field "config" (configDoc k m depth symbolSize crc lan fso)).text
          ++ ",\"stats\":\x7b".toList) := by
  simp (disch := decide) only [configFormat, configDoc, List.map_cons, List.map_nil, Json.commas,
    field_text, object_text, integer_text, ofText_text hlan, ofText_text hfso,
    render, List.flatMap_cons, List.flatMap_nil, Piece.render, Json.chars_append,
    Json.chars_bytes, String.reduceToList, List.cons_append, List.nil_append,
    List.append_nil, List.append_assoc]

/-- The first append. -/
theorem chars_head (t : Readings) (k m depth symbolSize crc : Int32) {lan fso : Text}
    (hlan : Json.Clean (chars lan)) (hfso : Json.Clean (chars fso)) (s : StatsContainer) :
    chars (render (headFormat t k m depth symbolSize crc lan fso s))
      = '{' :: Json.commas ((headFields t s (configDoc k m depth symbolSize crc lan fso)).map
          Written.Field.text) := by
  rw [headFormat, chars_append_render, chars_append_render, chars_append_render,
    chars_counters (statCounters_names s), chars_config k m depth symbolSize crc hlan hfso]
  simp (disch := decide) only [headFields, List.map_cons, List.map_nil, Json.commas, field_text,
    object_text, integer_text, fixed_text, literal_text, render, List.flatMap_cons,
    List.flatMap_nil, Piece.render, Json.chars_append, Json.chars_bytes, String.reduceToList,
    List.cons_append, List.nil_append, List.append_nil, List.append_assoc]

/-- What is appended for the deinterleaver. -/
theorem chars_dil (dil : Option Deinterleaver) :
    chars (dilText dil) = ((dilFields dil).map Written.Field.text).flatMap fun u => ',' :: u := by
  cases dil with
  | none => rfl
  | some d =>
      have hcounters := chars_counters (dilCounters_names d.stats)
      have hmore : Json.commas ((counterFields (dilCounters d.stats)
            ++ [field "active_blocks" (.integer (Int32.ofNat (deinterleaverActiveBlocks d)).toInt),
              field "ready_count" (.integer (Int32.ofNat (deinterleaverReadyCount d)).toInt)]).map
            Written.Field.text)
          = Json.commas ((counterFields (dilCounters d.stats)).map Written.Field.text)
            ++ ',' :: ((field "active_blocks"
                (.integer (Int32.ofNat (deinterleaverActiveBlocks d)).toInt)).text
              ++ ',' :: (field "ready_count"
                (.integer (Int32.ofNat (deinterleaverReadyCount d)).toInt)).text) := by
        rw [List.map_append]
        exact Json.commas_append (List.cons_ne_nil _ _) (List.cons_ne_nil _ _)
      show chars (render (_ ++ counters (dilCounters d.stats) ++ _)) = _
      rw [chars_append_render, chars_append_render, hcounters]
      simp (disch := decide) only [dilFields, List.map_cons, List.map_nil, List.flatMap_cons,
        List.flatMap_nil, field_text, object_text, hmore, integer_text, render, Piece.render,
        Json.chars_append, Json.chars_bytes, String.reduceToList, List.cons_append, List.nil_append,
        List.append_nil, List.append_assoc]

/-! ### Arrays -/

section Entries

variable {ε : Type} {fmt : String → ε → List Piece} {doc : ε → Written}

/-- The entries of an array behind the first one. -/
theorem chars_entriesBehind
    (h : ∀ i e, chars (render (fmt (separator i) e)) = (separator i).toList ++ (doc e).text)
    (entries : List ε) (k : Nat) :
    chars (((entries.zipIdx (k + 1)).map fun e => render (fmt (separator e.2) e.1)).flatten)
      = (entries.map fun e => (doc e).text).flatMap fun u => ',' :: u := by
  induction entries generalizing k with
  | nil => rfl
  | cons e entries ih =>
      rw [List.zipIdx_cons, List.map_cons, List.flatten_cons, Json.chars_append, ih, h, separator,
        if_neg (Nat.succ_ne_zero k)]
      rfl

theorem chars_entries
    (h : ∀ i e, chars (render (fmt (separator i) e)) = (separator i).toList ++ (doc e).text)
    (entries : List ε) :
    chars (entriesText fmt entries) = Json.commas ((entries.map doc).map Written.text) := by
  cases entries with
  | nil => rfl
  | cons e entries =>
      have hbehind := chars_entriesBehind h entries 0
      have hcommas := commas_behind (List.cons_ne_nil (doc e).text [])
        (entries.map fun e => (doc e).text)
      rw [entriesText, List.zipIdx_cons, List.map_cons, List.flatten_cons, Json.chars_append,
        hbehind, h, List.map_map]
      exact hcommas.symm

end Entries

theorem clean_digits (n : Nat) : Json.Clean (chars (digits n)) := by
  rw [Json.chars_digits]
  exact Json.clean_digits (Json.toDigits_isDigit n)

theorem clean_hexText (x : UInt8) : Json.Clean (chars (hexText x)) := by
  have hall : ∀ n < 256, Json.Clean (chars (zeroPad 2 (ascii (Nat.toDigits 16 n)))) := by
    decide +kernel
  exact hall x.toNat x.toNat_lt

theorem clean_ipText (ip : UInt32) : Json.Clean (chars (ipText ip)) := by
  have hdot : Json.Clean (chars (bytes ".")) := by decide
  simp only [ipText, Json.chars_append]
  exact Json.clean_append (Json.clean_append (Json.clean_append (Json.clean_append (Json.clean_append (Json.clean_append
    (clean_digits _) hdot) (clean_digits _)) hdot) (clean_digits _)) hdot) (clean_digits _)

theorem clean_macText (mac : Mac) : Json.Clean (chars (macText mac)) := by
  have hcolon : Json.Clean (chars (bytes ":")) := by decide
  simp only [macText, Json.chars_append]
  exact Json.clean_append (Json.clean_append (Json.clean_append (Json.clean_append (Json.clean_append (Json.clean_append
    (Json.clean_append (Json.clean_append (Json.clean_append (Json.clean_append (clean_hexText _) hcolon)
      (clean_hexText _)) hcolon) (clean_hexText _)) hcolon) (clean_hexText _)) hcolon)
    (clean_hexText _)) hcolon) (clean_hexText _)

theorem separator_ascii (i : Nat) : Json.Ascii (separator i).toList := by
  rw [separator]
  split <;> decide

theorem chars_arp (i : Nat) (e : ArpEntry) :
    chars (render (arpFormat (separator i) e)) = (separator i).toList ++ (arpDoc e).text := by
  have hsep := Json.chars_bytes (separator_ascii i)
  -- the strings as wholes, before their parts
  simp (disch := decide) only [arpDoc, List.map_cons, List.map_nil, Json.commas, field_text,
    object_text, integer_text, ofText_text (clean_ipText e.ipNbo), ofText_text (clean_macText e.mac)]
  simp (disch := decide) only [arpFormat, ipText, macText, hexText, render, List.flatMap_cons,
    List.flatMap_nil, Piece.render, hsep, Json.chars_append, Json.chars_bytes, String.reduceToList,
    List.cons_append, List.nil_append, List.append_nil, List.append_assoc]
  rfl

theorem reasonStr_name (r : UInt8) : Name (reasonStr r) := by
  unfold reasonStr
  split <;> decide

theorem chars_event (i : Nat) (e : EventRecord) :
    chars (render (eventFormat (separator i) e)) = (separator i).toList ++ (eventDoc e).text := by
  have hsep := Json.chars_bytes (separator_ascii i)
  have hreason := reasonStr_name e.reason
  simp (disch := decide) only [eventFormat, eventDoc, render, List.flatMap_cons, List.flatMap_nil,
    Piece.render, hsep, Json.chars_bytes hreason.ascii, List.map_cons, List.map_nil, Json.commas,
    field_text, object_text, integer_text, literal_text hreason, signed_natCast,
    Json.chars_append, Json.chars_bytes, String.reduceToList, List.cons_append, List.nil_append,
    List.append_nil, List.append_assoc]

/-! ### The whole -/

/-- Characters that are printed. -/
def Printable (name : Text) : Prop := ∀ b ∈ name, 32 ≤ b.toNat ∧ b.toNat < 128

instance (name : Text) : Decidable (Printable name) := List.decidableBAll _ name

theorem clean_escapeIface {name : Text} (h : Printable name) (outSz : Nat) :
    Json.Clean (chars (escapeIface outSz (some name))) := by
  intro c hc
  obtain ⟨b, hb, rfl⟩ := List.mem_map.mp hc
  obtain ⟨a, ha, rfl⟩ := List.mem_map.mp hb
  obtain ⟨hle, hlt⟩ := h a (List.mem_of_mem_take ha)
  have hall : ∀ n < 128, ¬ (32 ≤ n ∧ n ≠ 34 ∧ n ≠ 92) ∨ Json.isClean (Char.ofNat n) = true := by
    decide +kernel
  by_cases hesc : a = 34 ∨ a = 92
  · rw [if_pos hesc]
    decide
  · rw [if_neg hesc]
    obtain ⟨hquote, hback⟩ := not_or.mp hesc
    refine (hall a.toNat hlt).resolve_left (not_not_intro ⟨hle, ?_, ?_⟩)
    · exact fun heq => hquote (UInt8.toNat_inj.mp heq)
    · exact fun heq => hback (UInt8.toNat_inj.mp heq)

/-- The names of the interfaces are printed as they are. -/
def PrintableConfig (cfg : Option GatewayConfig) : Prop :=
  ∀ c ∈ cfg, Printable c.lanIface.1 ∧ Printable c.fsoIface.1

theorem chars_headOf (t : Readings) (s : StatsContainer) {cfg : Option GatewayConfig}
    (h : PrintableConfig cfg) :
    chars (render (headOf t s cfg))
      = '{' :: Json.commas ((headFields t s (configOf cfg)).map Written.Field.text) := by
  cases cfg with
  | none => exact chars_head t 0 0 0 0 0 (by decide) (by decide) s
  | some c =>
      obtain ⟨hlan, hfso⟩ := h c rfl
      exact chars_head t _ _ _ _ _ (clean_escapeIface hlan 32) (clean_escapeIface hfso 32) s

theorem chars_arpText (time : Int) (arpCache : Option ArpCache) :
    chars (arpText time arpCache)
      = ((arpFields time arpCache).map Written.Field.text).flatMap fun u => ',' :: u := by
  cases arpCache with
  | none => rfl
  | some c =>
      simp (disch := decide) only [arpText, Json.chars_append, chars_entries chars_arp, arpFields,
        List.map_cons, List.map_nil, List.flatMap_cons, List.flatMap_nil, field_text, array_text,
        Json.chars_bytes, String.reduceToList, List.cons_append, List.nil_append, List.append_nil,
        List.append_assoc]

/-- **The text of a snapshot** is that of its object, and ends with a line feed. -/
theorem snapshotText_doc {cs : SnapshotServer} (h : PrintableConfig cs.gatewayCfg) (t : Readings)
    (s : StatsContainer) :
    chars (snapshotText cs t s)
      = (snapshotDoc cs t s (RingBuffer.drain eventRingCap cs.events eventRingCap).1).text
        ++ ['\n'] := by
  generalize hevs : (RingBuffer.drain eventRingCap cs.events eventRingCap).1 = evs
  have hevents : chars (eventsText evs)
      = ',' :: ((field "block_events" (.array (evs.map eventDoc))).text ++ ['}', '\n']) := by
    simp (disch := decide) only [eventsText, Json.chars_append, chars_entries chars_event,
      field_text, array_text, Json.chars_bytes, String.reduceToList, List.cons_append,
      List.nil_append, List.append_assoc]
  have hne : (headFields t s (configOf cs.gatewayCfg)).map Written.Field.text ≠ [] :=
    List.cons_ne_nil _ _
  have hcommas := commas_behind hne
    ((dilFields cs.dil ++ arpFields t.time cs.arpCache
      ++ [field "block_events" (.array (evs.map eventDoc))]).map Written.Field.text)
  rw [snapshotText, hevs, stateText, Json.chars_append, Json.chars_append, Json.chars_append,
    chars_headOf t s h, chars_dil, chars_arpText, hevents, snapshotDoc, object_text, List.map_append,
    hcommas]
  simp only [List.map_append, List.flatMap_append, List.map_cons, List.map_nil, List.flatMap_cons,
    List.flatMap_nil, List.cons_append, List.nil_append, List.append_nil, List.append_assoc]

/-! ## A snapshot is read as it was meant -/

/-- The events that a snapshot takes out of the ring. -/
def drainedEvents (cs : SnapshotServer) : List EventRecord :=
  (RingBuffer.drain eventRingCap cs.events eventRingCap).1

theorem toNat_charOf (b : UInt8) : (Char.ofNat b.toNat).toNat = b.toNat := by
  have hall : ∀ n < 256, (Char.ofNat n).toNat = n := by decide +kernel
  exact hall b.toNat b.toNat_lt

/-- Bytes whose characters are a printed line. -/
theorem line_of_chars {text : Text} {u : Json.Text} (hu : Json.Printed u)
    (h : chars text = u ++ ['\n']) :
    ∃ line, text = line ++ [10] ∧ Printable line ∧ chars line = u := by
  obtain ⟨line, last, rfl, hline, hlast⟩ := List.map_eq_append_iff.mp h
  obtain ⟨b, more, rfl, hb, hmore⟩ := List.map_eq_cons_iff.mp hlast
  have hfeed : b = 10 := UInt8.toNat_inj.mp (by rw [← toNat_charOf b, hb]; rfl)
  refine ⟨line, ?_, ?_, hline⟩
  · rw [List.map_eq_nil_iff.mp hmore, hfeed]
  · intro b hb
    have hchar := hu _ (hline ▸ List.mem_map_of_mem hb)
    rwa [toNat_charOf] at hchar

/-- **A snapshot is read as it was meant.**  The daemon's line is printed ASCII
    with one line feed, at its end, and `json.loads` reads it as the object with
    the configuration, every counter, the ARP cache and the drained events. -/
theorem snapshot_read (cs : SnapshotServer) (t : Readings) (s : StatsContainer)
    (huptime : |t.uptimeSec| < 10 ^ 12) (hname : PrintableConfig cs.gatewayCfg) :
    ∃ line, (buildSnapshotJson snapshotBufSz cs t s).1 = some (line ++ [10])
      ∧ Printable line
      ∧ Json.loads (chars (line ++ [10]))
        = some (snapshotDoc cs t s (drainedEvents cs)).value := by
  have htext := snapshotText_doc hname t s
  obtain ⟨line, hline, hprint, -⟩ := line_of_chars (Written.printed _) htext
  refine ⟨line, ?_, hprint, ?_⟩
  · rw [buildSnapshotJson_eq, if_pos (snapshotText_length_lt cs huptime s), hline]
  · rw [← hline, htext]
    exact Written.loads_text _ (by decide)

def shortName : Text := [101, 110, 112, 34]

theorem shortName_length : shortName.length < FsoConfig.ifaceSize := by decide

/-- A gateway on one interface, with a quote in its name. -/
def namedServer : SnapshotServer :=
  { oneEventServer with
    gatewayCfg :=
      some ⟨⟨shortName, shortName_length⟩, ⟨shortName, shortName_length⟩, 8, 4, 4, 1500, 1⟩ }

theorem snapshot_read_named :
    |(1 / 2 : ℚ)| < 10 ^ 12 ∧ PrintableConfig namedServer.gatewayCfg
      ∧ ∃ line, (buildSnapshotJson snapshotBufSz namedServer ⟨1500, 1 / 2, 1⟩ noStats).1
          = some (line ++ [10])
        ∧ Printable line
        ∧ Json.loads (chars (line ++ [10]))
          = some (snapshotDoc namedServer ⟨1500, 1 / 2, 1⟩ noStats
            (drainedEvents namedServer)).value := by
  have huptime : |(1 / 2 : ℚ)| < 10 ^ 12 := by norm_num
  have hname : PrintableConfig namedServer.gatewayCfg := by
    intro c hc
    cases Option.some_inj.mp hc
    decide
  exact ⟨huptime, hname, snapshot_read namedServer ⟨1500, 1 / 2, 1⟩ noStats huptime hname⟩

end FsoControlServer
