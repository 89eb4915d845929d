import FsoGateway.EventRing
import FsoGateway.Snapshot
import Mathlib.Algebra.Group.Nat.Defs
import Mathlib.Algebra.Order.BigOperators.Group.List

/-! # A snapshot always fits

    The worker hands `build_snapshot_json` a buffer of 32768 bytes.  Whatever the
    counters, the configuration, the ARP cache and the event ring hold, the text
    takes at most 31810 of them, if the daemon is up for less than 10^12
    seconds.

    * `headOf_length_le`, `dilText_length_le`, `arpText_length_le`,
      `eventsText_length_le` — the parts of a snapshot;
    * `snapshot_fits` — so no snapshot is refused, and no drained event lost;
    * `snapshot_newest` — on the ring of any pushes and drains a snapshot is a
      drain, and carries the newest events since the one before. -/

namespace FsoControlServer

open FsoDeinterleaver FsoArpCache Printf Segments

/-! ## Formats -/

/-- Each counter is a number of 64 bits. -/
theorem argSize_counters (fs : List (String × UInt64)) :
    argSize (counters fs) = 20 * fs.length := by
  induction fs using counters.induct with
  | case1 => rfl
  | case2 name x => rfl
  | case3 name x rest hne ih =>
      have hmember : argSize [.text "\"", .text name, .text "\":", .ulong x, .text ","] = 20 := rfl
      rw [counters, argSize_append, ih, hmember, List.length_cons]
      · omega
      · exact hne

theorem escapeIface_length_le (outSz : Nat) (name : Option Text) :
    (escapeIface outSz name).length ≤ outSz - 1 := by
  cases name with
  | none => exact Nat.zero_le _
  | some name =>
      rw [escapeIface, List.length_map]
      exact List.length_take_le _ _

/-! ## The state -/

theorem headFormat_textSize (t : Readings) (k m depth symbolSize crc : Int32)
    (lan fso : Text) (s : StatsContainer) :
    textSize (headFormat t k m depth symbolSize crc lan fso s) = 789 := by
  simp only [headFormat, configFormat, statCounters, counters, textSize_append, textSize_cons,
    textSize_nil, Piece.textSize]
  decide +kernel

theorem headFormat_argSize (t : Readings) (k m depth symbolSize crc : Int32)
    (lan fso : Text) (s : StatsContainer) :
    argSize (headFormat t k m depth symbolSize crc lan fso s)
      = 695 + (fixed 3 t.uptimeSec).length + lan.length + fso.length := by
  rw [headFormat, argSize_append, argSize_append, argSize_append, argSize_counters, configFormat,
    statCounters]
  simp only [argSize_cons, argSize_nil, Piece.argSize, List.length_cons, List.length_nil]
  omega

theorem headFormat_length_le {t : Readings} (huptime : |t.uptimeSec| < 10 ^ 12)
    (k m depth symbolSize crc : Int32) {lan fso : Text} (hlan : lan.length ≤ 31)
    (hfso : fso.length ≤ 31) (s : StatsContainer) :
    (render (headFormat t k m depth symbolSize crc lan fso s)).length ≤ 1564 := by
  have hlen := render_length_le (headFormat t k m depth symbolSize crc lan fso s)
  have hfixed := fixed_length_le (show 0 < 3 by decide) huptime
  rw [headFormat_textSize, headFormat_argSize] at hlen
  omega

theorem headOf_length_le {t : Readings} (huptime : |t.uptimeSec| < 10 ^ 12)
    (s : StatsContainer) (cfg : Option GatewayConfig) :
    (render (headOf t s cfg)).length ≤ 1564 := by
  cases cfg with
  | none => exact headFormat_length_le huptime _ _ _ _ _ (Nat.zero_le _) (Nat.zero_le _) s
  | some cfg =>
      exact headFormat_length_le huptime _ _ _ _ _ (escapeIface_length_le 32 _)
        (escapeIface_length_le 32 _) s

theorem dilFormat_length_le (ds : DilStats) (active ready : Int32) :
    (render (dilFormat ds active ready)).length ≤ 425 := by
  have htext : textSize (dilFormat ds active ready) = 223 := by
    simp only [dilFormat, dilCounters, counters, textSize_append, textSize_cons, textSize_nil,
      Piece.textSize]
    decide +kernel
  have harg : argSize (dilFormat ds active ready) = 202 := by
    rw [dilFormat, argSize_append, argSize_append, argSize_counters]
    rfl
  have hlen := render_length_le (dilFormat ds active ready)
  rwa [htext, harg] at hlen

theorem dilText_length_le (dil : Option Deinterleaver) : (dilText dil).length ≤ 425 := by
  cases dil with
  | none => exact Nat.zero_le _
  | some d => exact dilFormat_length_le _ _ _

/-! ## The arrays -/

theorem separator_length_le (i : Nat) : (bytes (separator i)).length ≤ 1 := by
  rw [separator]
  split <;> decide

/-- The entries of an array, each with its comma. -/
theorem entriesText_length_le {ε : Type} {fmt : String → ε → List Piece} {n : Nat}
    (hfmt : ∀ i e, (render (fmt (separator i) e)).length ≤ n) (entries : List ε) :
    (entriesText fmt entries).length ≤ entries.length * n := by
  have hsum := List.sum_le_card_nsmul
    ((entries.zipIdx.map fun e => render (fmt (separator e.2) e.1)).map List.length) n
  rw [List.length_map, List.length_map, List.length_zipIdx, nsmul_eq_mul, Nat.cast_id] at hsum
  rw [entriesText, List.length_flatten]
  refine hsum ?_
  intro len hlen
  obtain ⟨out, hout, rfl⟩ := List.mem_map.mp hlen
  obtain ⟨e, -, rfl⟩ := List.mem_map.mp hout
  exact hfmt e.2 e.1

theorem arpFormat_length_le (i : Nat) (e : ArpEntry) :
    (render (arpFormat (separator i) e)).length ≤ 115 := by
  have htext : textSize (arpFormat (separator i) e) = 42 := by
    simp only [arpFormat, textSize_cons, textSize_nil, Piece.textSize]
    decide +kernel
  have harg : argSize (arpFormat (separator i) e) = (bytes (separator i)).length + 72 := by
    simp only [arpFormat, argSize_cons, argSize_nil, Piece.argSize]
  have hlen := render_length_le (arpFormat (separator i) e)
  have hsep := separator_length_le i
  omega

theorem arpText_length_le (time : Int) (arpCache : Option ArpCache) :
    (arpText time arpCache).length ≤ 3689 := by
  cases arpCache with
  | none => exact Nat.zero_le _
  | some c =>
      have hdump : (arpCacheDump c time arpDumpMax).length ≤ 32 := dumpLoop_length_le _ _ _
      have hentries := entriesText_length_le arpFormat_length_le (arpCacheDump c time arpDumpMax)
      have hopen : (bytes ",\"arp\":[").length = 8 := rfl
      have hclose : (bytes "]").length = 1 := rfl
      rw [arpText, List.length_append, List.length_append, hopen, hclose]
      omega

theorem reasonStr_length_le (r : UInt8) : (bytes (reasonStr r)).length ≤ 15 := by
  unfold reasonStr
  split <;> decide

theorem eventFormat_length_le (i : Nat) (e : EventRecord) :
    (render (eventFormat (separator i) e)).length ≤ 102 := by
  have htext : textSize (eventFormat (separator i) e) = 45 := by
    simp only [eventFormat, textSize_cons, textSize_nil, Piece.textSize]
    decide +kernel
  have harg : argSize (eventFormat (separator i) e)
      = (bytes (separator i)).length + 30 + (bytes (reasonStr e.reason)).length + 11 := by
    simp only [eventFormat, argSize_cons, argSize_nil, Piece.argSize]
    omega
  have hlen := render_length_le (eventFormat (separator i) e)
  have hsep := separator_length_le i
  have hreason := reasonStr_length_le e.reason
  omega

theorem eventsText_length_le {evs : List EventRecord} (h : evs.length ≤ eventRingCap) :
    (eventsText evs).length ≤ 26132 := by
  have hentries := entriesText_length_le eventFormat_length_le evs
  have hopen : (bytes ",\"block_events\":[").length = 17 := rfl
  have hclose : (bytes "]\x7d\n").length = 3 := rfl
  have hcap : evs.length ≤ 256 := h
  rw [eventsText, List.length_append, List.length_append, hopen, hclose]
  omega

/-! ## The whole -/

/-- **The length of a snapshot**, at most. -/
theorem snapshotText_length_le (cs : SnapshotServer) {t : Readings}
    (huptime : |t.uptimeSec| < 10 ^ 12) (s : StatsContainer) :
    (snapshotText cs t s).length ≤ 31810 := by
  have hhead := headOf_length_le huptime s cs.gatewayCfg
  have hdil := dilText_length_le cs.dil
  have harp := arpText_length_le t.time cs.arpCache
  have hevents := eventsText_length_le
    (RingBuffer.drain_length_le eventRingCap cs.events eventRingCap)
  rw [snapshotText, stateText, List.length_append, List.length_append, List.length_append]
  omega

theorem snapshotText_length_lt (cs : SnapshotServer) {t : Readings}
    (huptime : |t.uptimeSec| < 10 ^ 12) (s : StatsContainer) :
    (snapshotText cs t s).length < snapshotBufSz :=
  Nat.lt_of_le_of_lt (snapshotText_length_le cs huptime s) (by decide)

/-- The text of an event. -/
theorem mem_entriesText {ε : Type} (fmt : String → ε → List Piece) {entries : List ε} {e : ε}
    (h : e ∈ entries) : ∃ i, render (fmt (separator i) e) <:+: entriesText fmt entries := by
  obtain ⟨i, hi⟩ := List.mem_iff_getElem?.mp h
  refine ⟨i, List.infix_of_mem_flatten ?_⟩
  exact List.mem_map.mpr ⟨(e, i), List.mem_zipIdx_iff_getElem?.mpr hi, rfl⟩

/-- Every drained event is in the text. -/
theorem mem_snapshotText (cs : SnapshotServer) (t : Readings) (s : StatsContainer)
    {e : EventRecord} (h : e ∈ (RingBuffer.drain eventRingCap cs.events eventRingCap).1) :
    ∃ i, render (eventFormat (separator i) e) <:+: snapshotText cs t s := by
  obtain ⟨i, hi⟩ := mem_entriesText eventFormat h
  refine ⟨i, hi.trans ?_⟩
  rw [snapshotText, eventsText, ← List.append_assoc, ← List.append_assoc]
  exact ⟨_, _, rfl⟩

/-- **Every snapshot fits.**  `build_snapshot_json` with the buffer of the worker
    writes the whole text of any server, with every event that it drained. -/
theorem snapshot_fits (cs : SnapshotServer) (t : Readings) (s : StatsContainer)
    (huptime : |t.uptimeSec| < 10 ^ 12) :
    (buildSnapshotJson snapshotBufSz cs t s).1 = some (snapshotText cs t s)
      ∧ (snapshotText cs t s).length < snapshotBufSz
      ∧ ∀ e ∈ (RingBuffer.drain eventRingCap cs.events eventRingCap).1,
          ∃ i, render (eventFormat (separator i) e) <:+: snapshotText cs t s := by
  have hfits := snapshotText_length_lt cs huptime s
  refine ⟨?_, hfits, ?_⟩
  · rw [buildSnapshotJson_eq, if_pos hfits]
  · intro e he
    exact mem_snapshotText cs t s he

/-- A server without a configuration, with one event. -/
def oneEventServer : SnapshotServer := ⟨none, none, none, ⟨fun _ => ⟨7, 1000, 1, 0⟩, 1, 1⟩⟩

def noStats : StatsContainer :=
  ⟨0, 0, 0, 0, 0, 0, 0, 0, 0, 0, 0, 0, 0, 0, 0, 0, 0, 0, 0, 0, 0, 0, 0, 0, 0, 0, 0, 0, 0, 0, 0⟩

/-- Its snapshot after half a second. -/
theorem snapshot_fits_oneEvent :
    (buildSnapshotJson snapshotBufSz oneEventServer ⟨1500, 1 / 2, 1⟩ noStats).1.isSome = true := by
  rw [(snapshot_fits oneEventServer ⟨1500, 1 / 2, 1⟩ noStats (by norm_num)).1]
  rfl

/-! ## The ring of any run -/

/-- The number of a reason in `deinterleaver_block_final_reason_t`. -/
def reasonByte : BlockFinalReason → UInt8
  | .none => 0
  | .decodeSuccess => 1
  | .decodeFailed => 2
  | .discardedTimeoutBeforeDecode => 3
  | .discardedTooManyHolesBeforeDecode => 4
  | .discardedEvictedBeforeDecode => 5
  | .discardedReadyEvictedBeforeMark => 6

/-- An event as it stands in memory. -/
def BlockEvent.record (e : BlockEvent) : EventRecord :=
  ⟨e.blockId, .ofInt e.tsMs, reasonByte e.reason, if e.isEviction then 1 else 0⟩

theorem eventsDrain_drain (cs : ControlServer) (max : Nat) :
    (eventsDrain cs max).1 = (RingBuffer.drain eventRingCap (ringOf cs) max).1
      ∧ ringOf (eventsDrain cs max).2 = (RingBuffer.drain eventRingCap (ringOf cs) max).2 :=
  ⟨rfl, rfl⟩

/-- **A snapshot is a drain** of the ring, whatever was pushed and drained before,
    and carries the newest events pushed since the last one. -/
theorem snapshot_newest (calls : List RingCall) {cs : SnapshotServer}
    (hring : cs.events = (ringOf (ringRun calls).1).map BlockEvent.record) {t : Readings}
    (huptime : |t.uptimeSec| < 10 ^ 12) (s : StatsContainer) :
    (∀ e ∈ RingBuffer.lastN eventRingCap (pushed (pending RingCall.isDrain calls)),
        ∃ i, render (eventFormat (separator i) e.record) <:+: snapshotText cs t s)
      ∧ (buildSnapshotJson snapshotBufSz cs t s).2.events
        = (ringOf (ringRun (calls ++ [.drain eventRingCap (Nat.le_refl _)])).1).map
            BlockEvent.record := by
  have hspec := ringRun_spec calls
  constructor
  · intro e he
    apply mem_snapshotText
    rw [← hspec.pending, ← eventsDrain_pending hspec.good.count, (eventsDrain_drain _ _).1] at he
    rw [hring, RingBuffer.drain_map]
    exact List.mem_map_of_mem he
  · rw [buildSnapshotJson_drained (snapshotText_length_lt cs huptime s), hring, ringRun_concat]
    rfl

end FsoControlServer
