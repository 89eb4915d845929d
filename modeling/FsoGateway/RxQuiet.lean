import FsoGateway.LosslessLink
import FsoGateway.RxReady

/-! # The receiver after a silence

    An idle call 50 ms after the last call empties every slot: what can be
    decoded is decoded, the rest is given up.  An empty pool carries nothing
    over, whatever bytes its slots still hold, so that from then on a sender
    that starts anew is received as by a new receiver.

    * `quiet_empties` — nothing stays in the pool, and no block with `k`
      symbols is given up;
    * `delivery_after_quiet` — after any history and a silence, a link without
      losses delivers everything. -/

namespace FsoLink

open ByteBuffer FsoTypes ErasureCode FecWrapper FsoTxPipeline FsoRxPipeline
  PacketFragmenter PacketReassembler FsoDeinterleaver

/-! ## The times of the slots -/

theorem drain_begunBy {pl : RxPipeline} {seen : UInt32 → List Symbol} (wh : Wirehair)
    (h : PoolInv pl.dil seen) {now : Nat} (hb : BegunBy pl.dil now) :
    BegunBy (drainReadyBlocks wh pl).dil now := by
  intro i hne
  rw [(drainReadyBlocks_spec wh h).1.slots i] at hne ⊢
  split at hne
  · exact absurd rfl hne
  · rename_i hi
    rw [if_neg hi]
    exact hb i hne

/-- **One call**: no block of the pool began after it. -/
theorem runOnce_begunBy {pl : RxPipeline} {seen : UInt32 → List Symbol} (wh : Wirehair)
    (h : RxOk pl seen) (call : RxCall) {now : Nat} (htick : call.tickNow ≤ now)
    (hpush : call.pushNow ≤ now) (hb : BegunBy pl.dil now) :
    BegunBy (rxPipelineRunOnce wh pl call).dil now := by
  have hok := rxOk_ticked h call
  have hticked : BegunBy (ticked pl call).dil now := by
    refine begunBy_step h.pool (.tick (-1) call.tickNow) ?_ hb
    rintro t ⟨⟩
    exact htick
  cases he : call.event with
  | idle =>
      rw [runOnce_idle he]
      exact drain_begunBy wh hok.pool hticked
  | error =>
      rw [runOnce_error he]
      exact hticked
  | frame wire =>
      cases hf : parseFrame pl.cfg (wire.take rxWireBufSize) with
      | dropped =>
          rw [runOnce_dropped he hf]
          exact hticked
      | crcFail =>
          rw [runOnce_crcFail he hf]
          exact hticked
      | symbol sym =>
          rw [runOnce_symbol he hf]
          refine drain_begunBy wh (poolInv_push sym call.pushNow hok.pool) ?_
          refine begunBy_step hok.pool (.push sym call.pushNow) ?_ hticked
          rintro t ⟨⟩
          exact hpush

theorem run_begunBy {pl : RxPipeline} {seen : UInt32 → List Symbol} (wh : Wirehair)
    (h : RxOk pl seen) (calls : List RxCall) {now : Nat}
    (htimes : ∀ c ∈ calls, c.tickNow ≤ now ∧ c.pushNow ≤ now) (hb : BegunBy pl.dil now) :
    BegunBy (rxRun wh calls pl).dil now := by
  induction calls generalizing pl seen with
  | nil => exact hb
  | cons call calls ih =>
      obtain ⟨htick, hpush⟩ := htimes call List.mem_cons_self
      obtain ⟨seen', h'⟩ := (rxOk_closed wh).runOnce h call fun _ _ _ _ => trivial
      exact ih h' (fun c hc => htimes c (List.mem_cons_of_mem call hc))
        (runOnce_begunBy wh h call htick hpush hb)

/-! ## The idle call -/

/-- What an idle call after a silence does to the pool: nothing stays in it, and
    every block that can be decoded is decoded. -/
structure Quiets (pl pl' : RxPipeline) : Prop where
  empty : ∀ i, i < pl'.dil.maxActiveBlocks → (pl'.dil.slots i).state = .empty
  decoded : ∃ es, pl'.drained = pl.drained ++ es ∧
    ∀ i, i < pl.dil.maxActiveBlocks → (pl.dil.slots i).state ≠ .empty →
      pl.dil.k ≤ (pl.dil.slots i).validSymbols → (pl.dil.slots i).block ∈ es.map Drained.blk

/-- 50 ms after the first symbol of a block the tick lets it go. -/
theorem tick_settles {pl : RxPipeline} {seen : UInt32 → List Symbol} (h : RxOk pl seen)
    {now i : Nat} (hi : i < pl.dil.maxActiveBlocks)
    (hold : (pl.dil.slots i).state ≠ .empty → 50 ≤ elapsedMs (pl.dil.slots i).firstSymTime now) :
    ((deinterleaverTick pl.dil (-1) now).2.slots i).state = .empty ∨
      ((deinterleaverTick pl.dil (-1) now).2.slots i).state = .readyToDecode := by
  obtain ⟨hempty, hready, -⟩ := tick_state h now hi
  cases hs : (pl.dil.slots i).state with
  | empty => exact .inl (hempty.mpr (.inl hs))
  | readyToDecode => exact .inr (hready.mpr (.inl hs))
  | filling =>
      have hage := hold (by rw [hs]; decide)
      rcases Nat.lt_or_ge (pl.dil.slots i).validSymbols pl.dil.k with hlt | hge
      · exact .inl (hempty.mpr (.inr ⟨hs, hlt, hage⟩))
      · exact .inr (hready.mpr (.inr ⟨hs, hge, .inr (.inr hage)⟩))

/-- A block that can be decoded is READY after the tick, with its symbols. -/
theorem tick_promotes {pl : RxPipeline} {seen : UInt32 → List Symbol} (h : RxOk pl seen)
    {now i : Nat} (hi : i < pl.dil.maxActiveBlocks) (hne : (pl.dil.slots i).state ≠ .empty)
    (hold : 50 ≤ elapsedMs (pl.dil.slots i).firstSymTime now)
    (hk : pl.dil.k ≤ (pl.dil.slots i).validSymbols) :
    ((deinterleaverTick pl.dil (-1) now).2.slots i).state = .readyToDecode ∧
      ((deinterleaverTick pl.dil (-1) now).2.slots i).block = (pl.dil.slots i).block := by
  have hready := (tick_state h now hi).2.1
  obtain ⟨hfill, hother⟩ := tick_exits h.pool (-1) now i
  cases hs : (pl.dil.slots i).state with
  | empty => exact absurd hs hne
  | readyToDecode =>
      refine ⟨hready.mpr (.inl hs), ?_⟩
      rw [hother fun hf => absurd (hs.symm.trans hf.2) (by decide)]
  | filling =>
      have hr := hready.mpr (.inr ⟨hs, hk, .inr (.inr hold)⟩)
      refine ⟨hr, ?_⟩
      rw [(hfill hi hs).promoted hr]

theorem idle_quiets {pl : RxPipeline} {seen : UInt32 → List Symbol} (wh : Wirehair)
    (h : RxOk pl seen) {call : RxCall} (hidle : call.event = .idle)
    (hold : ∀ i, (pl.dil.slots i).state ≠ .empty →
      50 ≤ elapsedMs (pl.dil.slots i).firstSymTime call.tickNow) :
    Quiets pl (rxPipelineRunOnce wh pl call) := by
  have hok := rxOk_ticked h call
  have hmax : (ticked pl call).dil.maxActiveBlocks = pl.dil.maxActiveBlocks :=
    (tick_slots pl.dil (-1) call.tickNow).1.maxActiveBlocks
  obtain ⟨heff, -⟩ := drainReadyBlocks_spec wh hok.pool
  rw [runOnce_idle hidle]
  constructor
  · intro i hi
    rw [heff.params.maxActiveBlocks] at hi
    rw [heff.slots i]
    split
    · rfl
    · rename_i hnot
      rcases tick_settles h (hmax ▸ hi) (hold i) with he | hr
      · exact he
      · exact absurd (mem_readyList.mpr ⟨hi, hr⟩) hnot
  · obtain ⟨es, hes, hblks⟩ := heff.drained
    refine ⟨es, hes, ?_⟩
    intro i hi hne hk
    obtain ⟨hr, hblk⟩ := tick_promotes h hi hne (hold i hne) hk
    rw [hblks, ← hblk]
    exact List.mem_map_of_mem (mem_readyList.mpr ⟨hmax.symm ▸ hi, hr⟩)

/-- **Nothing stays in the receiver**: after any calls, an idle call 50 ms after
    the last reading of the clock leaves every slot EMPTY, and no block with `k`
    symbols is given up. -/
theorem quiet_empties (wh : Wirehair) (mem : Buffer) (cfg : Config) (rx0 : RxPipeline)
    (hcreate : rxPipelineCreate mem cfg = some rx0) (history : List RxCall) (last : Nat)
    (htimes : ∀ c ∈ history, c.tickNow ≤ last ∧ c.pushNow ≤ last) (quiet : RxCall)
    (hidle : quiet.event = .idle) (hlong : 50 ≤ elapsedMs last quiet.tickNow) :
    Quiets (rxRun wh history rx0) (rxRun wh (history ++ [quiet]) rx0) := by
  obtain ⟨hok, -, -, -, -, hslots⟩ := rxOk_create hcreate
  obtain ⟨seen, hok'⟩ := rxOk_run wh history hok
  have hbegun : BegunBy (rxRun wh history rx0).dil last := by
    refine run_begunBy wh hok history htimes ?_
    intro i hne
    rw [hslots i] at hne
    exact absurd rfl hne
  have hrun : rxRun wh (history ++ [quiet]) rx0
      = rxPipelineRunOnce wh (rxRun wh history rx0) quiet := List.foldl_concat ..
  rw [hrun]
  refine idle_quiets wh hok' hidle ?_
  intro i hne
  exact wholeMs_fifty.widen (hbegun i hne) le_rfl hlong

/-- The first symbols of a sender that breaks off. -/
def brokenOff : List RxCall := promptCalls.take 4

/-- An idle call 50 ms later. -/
def quietCall : RxCall := ⟨.idle, 50000000, 50000000⟩

theorem brokenOff_times : ∀ c ∈ brokenOff, c.tickNow ≤ 0 ∧ c.pushNow ≤ 0 := by
  intro c hc
  obtain ⟨wire, -, rfl⟩ := List.mem_map.mp (List.mem_of_mem_take hc)
  exact ⟨Nat.le_refl 0, Nat.le_refl 0⟩

theorem quietCall_long : 50 ≤ elapsedMs 0 quietCall.tickNow := by
  decide +kernel

theorem quiet_empties_brokenOff :
    let rx0 := (rxPipelineCreate (fun _ => 0) smallLink).get rfl
    Quiets (rxRun parity brokenOff rx0) (rxRun parity (brokenOff ++ [quietCall]) rx0) :=
  quiet_empties parity (fun _ => 0) smallLink _ (Option.some_get _).symm brokenOff 0
    brokenOff_times quietCall rfl quietCall_long

/-! ## A sender that starts anew -/

/-- **The receiver recovers from anything.**  Whatever it was given before, after
    a silence of 50 ms with an idle call at its end it delivers all that a sender
    which starts anew sends over a link without losses, and nothing else. -/
theorem delivery_after_quiet (wh : Wirehair) (clk : Nat → Nat) (mem : Nat → Nat → Symbol)
    (lanMac : List UInt8) (rxMem : Buffer) (cfg : Config) (tx0 : TxPipeline)
    (rx0 : RxPipeline) (htx : txPipelineCreate mem lanMac cfg = some tx0)
    (hrx : rxPipelineCreate rxMem cfg = some rx0)
    (hss : cfg.symbolSize ≤ maxSymbolDataSize)
    (hwh : Systematic wh cfg.k (cfg.k + cfg.m) cfg.symbolSize)
    (history : List RxCall) (last : Nat)
    (htimes : ∀ c ∈ history, c.tickNow ≤ last ∧ c.pushNow ≤ last) (quiet : RxCall)
    (hidle : quiet.event = .idle) (hlong : 50 ≤ elapsedMs last quiet.tickNow)
    (evs : List TxEvent) (calls : List RxCall) :
    let tx := (txRun wh clk evs tx0).2
    let rx := rxRun wh (history ++ [quiet]) rx0
    tx.blocksBuilt < 2 ^ 32 → Flushed tx →
    (∀ pkt ∈ tx.accepted,
      0 < pkt.length ∧ fragmentCount pkt.length cfg.symbolSize ≤ cfg.k) →
    receivedFrames calls = wireFrames tx → InTime cfg calls →
    lanFrames (rxRun wh calls rx) = lanFrames rx ++ tx.accepted := by
  intro tx rx hblocks hflushed hfit hcalls htime
  have hrepair := (rxCreate_cfgOk hrx hss).repair
  obtain ⟨hinit, hcfg0, -⟩ := runInv_create htx (by omega) hss hwh.toEncodes
  obtain ⟨-, hi, htxcfg⟩ := runInv_run clk evs hinit
  obtain ⟨hok, hrxcfg, -⟩ := rxOk_create hrx
  have hconf : tx.cfg = cfg := htxcfg.trans hcfg0
  have hrconf : rx.cfg = cfg := (run_cfg wh _ rx0).trans hrxcfg
  rw [← hconf] at hwh hfit
  obtain ⟨pss, hl, -, hframes⟩ := flushed_linkOk hi hwh hblocks hflushed hfit
  obtain ⟨seen, hok'⟩ := rxOk_run wh (history ++ [quiet]) hok
  have hempty := (quiet_empties wh rxMem cfg rx0 hrx history last htimes quiet hidle hlong).empty
  rw [show (txRun wh clk evs tx0).2.cfg = rx.cfg from hconf.trans hrconf.symm] at hl hframes
  rw [← hrconf] at htime
  rw [lossless_run hl (inStep_of_empty hok' hempty) (List.nil_append _).symm hcalls htime
    fun i hi hne => absurd (hempty i hi) hne]
  exact congrArg (lanFrames rx ++ ·) hframes

/-- The same sender again, 60 ms after the first. -/
def laterCalls : List RxCall :=
  (wireFrames flushedSender).map fun wire => ⟨.frame wire, 60000000, 60000000⟩

/-- Both frames come out, after what came out of the symbols before. -/
theorem delivery_after_quiet_brokenOff :
    let rx := rxRun parity (brokenOff ++ [quietCall])
      ((rxPipelineCreate (fun _ => 0) smallLink).get rfl)
    lanFrames (rxRun parity laterCalls rx) = lanFrames rx ++ flushedSender.accepted := by
  have hlater : ∀ c ∈ laterCalls, c.tickNow = 60000000 ∧ c.pushNow = 60000000 := by
    intro c hc
    obtain ⟨wire, -, rfl⟩ := List.mem_map.mp hc
    exact ⟨rfl, rfl⟩
  refine delivery_after_quiet parity (fun t => t * 3000000) (fun _ _ => symbolInit) []
    (fun _ => 0) smallLink smallPipeline _ (Option.some_get _).symm (Option.some_get _).symm
    (by decide) ((parity_recovers 4).systematic (by decide)) brokenOff 0 brokenOff_times
    quietCall rfl quietCall_long _ laterCalls (by decide +kernel)
    ⟨by decide +kernel, by decide +kernel⟩ (by decide +kernel) ?_
    (inTime_atOnce smallLink hlater)
  rw [receivedFrames, laterCalls, List.filterMap_map]
  exact List.filterMap_some

end FsoLink
