import FsoGateway.TxAnySize
import FsoGateway.TxInduction
import FsoGateway.TxPlacement

/-! # The two timers of the transmitter

    The builder's timer runs from the first symbol of the block being built,
    the window's from the first symbol pushed into the window.  Neither starts
    by itself: each is a field that has to be written at the right moment.

    * `Armed` — a window with a complete row has its start on record, and it is
      a clock reading of the past (`armed_run`);
    * `Since` — a builder that holds something has on record when its first
      fragment was added (`since_run`), `readingsRun` being the clock readings
      of all fragments added in a run. -/

namespace FsoTxPipeline

open ByteBuffer FsoTypes ErasureCode FecWrapper FsoBlockBuilder FsoInterleaver
  PacketFragmenter SymbolCrc

/-! ## The window's timer -/

/-- The timer of a window, `t` clock readings after the start. -/
structure Armed (clk : Nat → Nat) (t : Nat) (il : Interleaver) : Prop where
  timeout : il.flushTimeoutMs = txInterleaverFlushTimeoutMs
  hasData : 0 < il.completeSlots → il.windowHasData = true
  start : il.windowHasData = true → ∃ j < t, il.windowStart = clk j

/-- The fields of the timer. -/
structure SameTimer (il il' : Interleaver) : Prop where
  timeout : il'.flushTimeoutMs = il.flushTimeoutMs
  complete : il'.completeSlots = il.completeSlots
  hasData : il'.windowHasData = il.windowHasData
  start : il'.windowStart = il.windowStart

section Armed

variable {clk : Nat → Nat} {t : Nat} {il il' : Interleaver}

theorem Armed.mono {t' : Nat} (h : Armed clk t il) (hle : t ≤ t') : Armed clk t' il where
  timeout := h.timeout
  hasData := h.hasData
  start := by
    intro hd
    obtain ⟨j, hj, heq⟩ := h.start hd
    exact ⟨j, Nat.lt_of_lt_of_le hj hle, heq⟩

theorem Armed.same (h : Armed clk t il) (hs : SameTimer il il') : Armed clk t il' where
  timeout := hs.timeout.trans h.timeout
  hasData := by
    rw [hs.complete, hs.hasData]
    exact h.hasData
  start := by
    rw [hs.hasData, hs.start]
    exact h.start

/-- A window whose data flag is set may count more rows. -/
theorem Armed.rows (h : Armed clk t il) (hd : il.windowHasData = true) (n col row : Nat)
    (ready : Bool) :
    Armed clk t
      { il with completeSlots := n, ready := ready, popCol := col, popRow := row } :=
  ⟨h.timeout, fun _ => hd, h.start⟩

theorem Armed.reset (h : Armed clk t il) : Armed clk t (resetWindow il) :=
  ⟨h.timeout, fun hpos => absurd hpos (Nat.lt_irrefl 0), fun hd => nomatch hd⟩

theorem resolveRow_timer {key : UInt32} {row : Nat}
    (h : resolveRow il key = some (row, il')) : SameTimer il il' := by
  rcases resolveRow_cases h with rfl | rfl
  · exact ⟨rfl, rfl, rfl, rfl⟩
  · exact ⟨rfl, rfl, rfl, rfl⟩

/-- **A push**: the first symbol of a window starts its timer. -/
theorem armed_push (h : Armed clk t il) (sym : Symbol) :
    Armed clk (t + 1) (interleaverPushSymbol il sym (clk t)).2 := by
  have hlater := h.mono (Nat.le_succ t)
  rw [interleaverPushSymbol]
  split
  · exact hlater
  split
  · exact hlater
  cases hres : resolveRow il sym.packetId with
  | none => exact hlater
  | some p =>
      obtain ⟨row, il1⟩ := p
      have h1 := hlater.same (resolveRow_timer hres)
      dsimp only
      split
      · exact h1
      have hstarted : Armed clk (t + 1) (if il1.windowHasData then il1
            else { il1 with windowStart := clk t, windowHasData := true }) ∧
          (if il1.windowHasData then il1
            else { il1 with windowStart := clk t, windowHasData := true }).windowHasData
            = true := by
        split
        · rename_i hd
          exact ⟨h1, hd⟩
        · exact ⟨⟨h1.timeout, fun _ => rfl, fun _ => ⟨t, Nat.lt_succ_self t, rfl⟩⟩, rfl⟩
      generalize (if il1.windowHasData then il1
        else { il1 with windowStart := clk t, windowHasData := true }) = il2 at hstarted ⊢
      obtain ⟨h2, hd⟩ := hstarted
      have h3 : Armed clk (t + 1) (storeCell il2 row sym.fecId.toNat sym) :=
        h2.same ⟨rfl, rfl, rfl, rfl⟩
      split
      · exact h2
      split
      · split
        · exact h3.rows hd _ _ _ _
        · exact h3.rows hd _ _ _ _
      · exact h3

theorem armed_pop (h : Armed clk t il) {sym : Symbol} {last : Bool}
    (hp : interleaverPopReadySymbol il = some (sym, last, il')) : Armed clk t il' := by
  obtain ⟨row, col, rfl⟩ := pop_cases hp
  have hmoved : Armed clk t { il with popRow := row, popCol := col } :=
    h.same ⟨rfl, rfl, rfl, rfl⟩
  cases last with
  | true => exact hmoved.reset
  | false => exact hmoved

theorem fillShortRow_timer (il : Interleaver) (row : Nat) :
    SameTimer il (fillShortRow il row) := by
  rw [fillShortRow]
  split <;> exact ⟨rfl, rfl, rfl, rfl⟩

theorem armed_fill (h : Armed clk t il) (rows : List Nat) :
    Armed clk t (rows.foldl fillShortRow il) ∧
      (rows.foldl fillShortRow il).windowHasData = il.windowHasData := by
  induction rows generalizing il with
  | nil => exact ⟨h, rfl⟩
  | cons row rows ih =>
      have hs := fillShortRow_timer il row
      obtain ⟨h1, h2⟩ := ih (h.same hs)
      exact ⟨h1, h2.trans hs.hasData⟩

/-- **A tick** does not touch the timer; it may complete the rows. -/
theorem armed_tick (h : Armed clk t il) (now : Nat) :
    Armed clk t (interleaverTick il now).2 := by
  rcases tick_cases il now with hsame | ⟨-, hdata, -, heq⟩
  · rw [hsame]
    exact h
  · rw [heq]
    obtain ⟨h1, h2⟩ := armed_fill h (List.range il.depth)
    exact h1.rows (h2.trans hdata) _ _ _ _

end Armed

section ArmedRun

variable {wh : Wirehair} {clk : Nat → Nat} {pl : TxPipeline}

/-- The timer of the pipeline's window. -/
def WindowArmed (clk : Nat → Nat) (pl : TxPipeline) : Prop :=
  Armed clk pl.clock pl.interleaver

theorem armed_drainLoop (fuel : Nat) (h : WindowArmed clk pl) :
    WindowArmed clk (drainLoop fuel pl) := by
  induction fuel generalizing pl with
  | zero => exact h
  | succ fuel ih =>
      rw [drainLoop]
      cases hp : interleaverPopReadySymbol pl.interleaver with
      | none => exact h
      | some r =>
          obtain ⟨sym, last, il⟩ := r
          have h1 : WindowArmed clk (txSerializeAndSend { pl with interleaver := il } sym) :=
            armed_pop h hp
          cases last with
          | true => exact h1
          | false => exact ih h1

theorem armed_drain (h : WindowArmed clk pl) : WindowArmed clk (drainInterleaver pl) := by
  rw [drainInterleaver]
  split
  · exact armed_drainLoop _ h
  · exact h

theorem armed_tickAndDrain (h : WindowArmed clk pl) :
    WindowArmed clk (tickAndDrainInterleaver clk pl) := by
  have h1 : WindowArmed clk
      { pl with
        interleaver := (interleaverTick pl.interleaver (clk pl.clock)).2
        clock := pl.clock + 1 } :=
    (armed_tick h _).mono (Nat.le_succ _)
  rw [tickAndDrainInterleaver]
  split
  · exact armed_drain h1
  · exact h1

theorem armed_pushSymbols (l : List Symbol) (h : WindowArmed clk pl) :
    WindowArmed clk (pushSymbols clk l pl).2 := by
  induction l generalizing pl with
  | nil => exact h
  | cons s l ih =>
      have h1 : WindowArmed clk
          { pl with
            interleaver := (interleaverPushSymbol pl.interleaver s (clk pl.clock)).2
            clock := pl.clock + 1 } :=
        armed_push h s
      rw [pushSymbols]
      split
      · exact h1
      · exact ih h1

theorem armed_encode (h : WindowArmed clk pl) (h0 : (encodeAndReset wh clk pl).1 = 0) :
    WindowArmed clk (encodeAndReset wh clk pl).2 := by
  obtain ⟨b, pl', -, rfl, -, heq⟩ := encodeAndReset_ok h0
  have hst : WindowArmed clk (stamped wh pl) := h
  have hpush := armed_pushSymbols b (armed_drain hst)
  rw [heq]
  exact armed_drain hpush

theorem armed_closed (wh : Wirehair) (clk : Nat → Nat) :
    TxClosed wh clk (fun pl _ => WindowArmed clk pl) (fun _ _ => True) where
  weaken := fun _ => trivial
  same := fun h _ _ _ _ _ hle => h.mono hle
  add := fun h _ _ => h
  finalize := fun h => h
  tick := fun h => armed_tickAndDrain h
  encode := fun h h0 => armed_encode h h0
  fail := fun _ _ => trivial

/-- **The window's timer** in a run without a failure. -/
theorem armed_run {mem : Nat → Nat → Symbol} {lanMac : List UInt8} {cfg : Config}
    {pl0 : TxPipeline} (hc : txPipelineCreate mem lanMac cfg = some pl0)
    (evs : List TxEvent) (h0 : (txRun wh clk evs pl0).1 ≠ -1) :
    WindowArmed clk (txRun wh clk evs pl0).2 := by
  obtain ⟨hk, hss, hdepth, hlen, builder, fec, il, -, -, hi, rfl⟩ := txPipelineCreate_some hc
  rw [interleaverCreate, if_neg (by omega)] at hi
  rw [← Option.some.inj hi] at h0 ⊢
  refine (@TxClosed.run wh clk _ _ _ [] (armed_closed wh clk) evs ?_).ok h0
  refine ⟨rfl, fun hpos => absurd hpos (Nat.lt_irrefl 0), ?_⟩
  intro hd
  cases hd

end ArmedRun

/-! ## The builder's timer -/

/-- The clock readings of the fragments of a frame: each is the one with which
    `block_builder_add_symbol` takes the fragment. -/
def packetReadings (wh : Wirehair) (clk : Nat → Nat) (numFrags : Nat) (pl : TxPipeline) :
    List Nat :=
  let start := packetStart wh clk numFrags pl
  (List.range numFrags).map fun j =>
    clk (addFragments wh clk ((List.range j).map start.fragSyms) start).2.clock

/-- Those of one call. -/
def readingsOnce (wh : Wirehair) (clk : Nat → Nat) (pl : TxPipeline) : TxEvent → List Nat
  | .idle => []
  | .error => []
  | .frame pkt answered =>
      let pkt := pkt.take txRxBufSize
      if isOwnFrame pl pkt then []
      else if answered then []
      else
        let r := fragmentPacket pkt pl.packetIdCounter
          (UInt16.ofNat pl.cfg.symbolSize) pl.fragSyms
          (UInt16.ofNat pl.maxFragsPerPacket)
        if r.1 < 0 then []
        else
          packetReadings wh clk r.1.toNat
            { pl with
              fragSyms := r.2
              packetIdCounter := pl.packetIdCounter + 1
              accepted := pl.accepted ++ [pkt] }

theorem readingsOnce_frame (wh : Wirehair) (clk : Nat → Nat) (pl : TxPipeline)
    (pkt : List UInt8) (answered : Bool) :
    readingsOnce wh clk pl (.frame pkt answered)
      = onFrame pl pkt answered [] (fun _ _ => [])
          fun pkt r => packetReadings wh clk r.1.toNat (accepting pl pkt r.2) :=
  rfl

/-- Those of a run. -/
def readingsRun (wh : Wirehair) (clk : Nat → Nat) : List TxEvent → TxPipeline → List Nat
  | [], _ => []
  | ev :: evs, pl =>
      readingsOnce wh clk pl ev ++ readingsRun wh clk evs (txPipelineRunOnce wh clk pl ev).2

/-- The reading of the first fragment in the builder: the builder holds the
    last ones that were added. -/
def firstReading (wh : Wirehair) (clk : Nat → Nat) (evs : List TxEvent) (pl : TxPipeline) :
    Option Nat :=
  let log := readingsRun wh clk evs pl
  let count := (txRun wh clk evs pl).2.builder.symbolCount
  if count = 0 then none else log[log.length - count]?

/-- The timer of a builder, `log` being the readings so far. -/
structure Since (log : List Nat) (bb : BlockBuilder) : Prop where
  count : bb.symbolCount ≤ log.length
  first : 0 < bb.symbolCount → log[log.length - bb.symbolCount]? = some bb.firstActivity

theorem since_empty (log : List Nat) {bb : BlockBuilder} (h : bb.symbolCount = 0) :
    Since log bb where
  count := by
    rw [h]
    exact Nat.zero_le _
  first := fun hpos => absurd h (Nat.ne_of_gt hpos)

section Since

variable {wh : Wirehair} {clk : Nat → Nat} {k x : Nat} {pl : TxPipeline} {log : List Nat}

/-- The builder is empty after a whole number of blocks. -/
theorem At.empty {b : Nat} (h : At k (k * b) pl) : pl.builder.symbolCount = 0 := by
  have hmod := h.mod
  rw [Nat.mul_mod_right] at hmod
  exact hmod.symm

/-- **One fragment** starts the timer of an empty builder, and no other. -/
theorem since_single (h : At k x pl) (hs : Since log pl.builder) (sym : Symbol)
    (h0 : (addFragments wh clk [sym] pl).1 = 0) :
    Since (log ++ [clk pl.clock]) (addFragments wh clk [sym] pl).2.builder := by
  have hroom := h.room
  have hadd := (h.added clk sym).2
  have hlim : (added clk pl sym).builder.kLimit = k := by
    rw [hadd]
    exact h.kLimit
  rcases addFragments_single_ok h h0 with ⟨-, he, heq⟩ | ⟨-, heq⟩
  -- the fragment filled the block, which is gone
  · rw [heq]
    have hat := (encodeAndReset_at clk (by omega) hlim he).2
    exact since_empty _ (hat.same (tick_sameBlock clk _)).empty
  · rw [heq, hadd]
    have hcount := hs.count
    constructor
    · show pl.builder.symbolCount + 1 ≤ (log ++ [clk pl.clock]).length
      rw [List.length_append, List.length_singleton]
      omega
    · intro _
      show (log ++ [clk pl.clock])[(log ++ [clk pl.clock]).length
        - (pl.builder.symbolCount + 1)]? = some (if pl.builder.symbolCount = 0 then _ else _)
      rw [List.length_append, List.length_singleton, Nat.add_sub_add_right]
      -- the first symbol of a block sets the timer, the others find it set
      by_cases hz : pl.builder.symbolCount = 0
      · rw [if_pos hz, hz, Nat.sub_zero, List.getElem?_concat_length]
      · rw [if_neg hz, List.getElem?_append_left (by omega)]
        exact hs.first (Nat.pos_of_ne_zero hz)

theorem since_fragments (h : At k x pl) (hs : Since log pl.builder) (syms : Nat → Symbol)
    {n : Nat} (h0 : (addFragments wh clk ((List.range n).map syms) pl).1 = 0) :
    Since (log ++ (List.range n).map fun j =>
        clk (addFragments wh clk ((List.range j).map syms) pl).2.clock)
      (addFragments wh clk ((List.range n).map syms) pl).2.builder := by
  induction n with
  | zero =>
      rw [List.range_zero, List.map_nil, List.append_nil]
      exact hs
  | succ n ih =>
      have hsplit : (List.range (n + 1)).map syms = (List.range n).map syms ++ [syms n] := by
        rw [List.range_succ, List.map_append, List.map_singleton]
      rw [hsplit, addFragments_append] at h0 ⊢
      rw [List.range_succ, List.map_append, List.map_singleton, ← List.append_assoc]
      by_cases hn : (addFragments wh clk ((List.range n).map syms) pl).1 = 0
      · rw [if_pos hn] at h0 ⊢
        obtain ⟨-, hat⟩ := addFragments_at clk h _ hn
        exact since_single hat (ih hn) (syms n) h0
      · rw [if_neg hn] at h0
        exact absurd h0 hn

/-- The timeouts leave the builder alone, or they empty it. -/
theorem checkTimeoutAndTick_builder (h : At k x pl)
    (h0 : (checkTimeoutAndTick wh clk pl).1 = 0) :
    (blockBuilderCheckTimeout pl.builder txBlockTimeoutMs (clk pl.clock) ≠ 1 →
        (checkTimeoutAndTick wh clk pl).2.builder = pl.builder) ∧
      (blockBuilderCheckTimeout pl.builder txBlockTimeoutMs (clk pl.clock) = 1 →
        (checkTimeoutAndTick wh clk pl).2.builder.symbolCount = 0) := by
  have hroom := h.room
  have hs1 := sameBlock_clock pl
  rcases checkTimeoutAndTick_ok h0 with ⟨hdue, hf, heq⟩ | ⟨hnot, heq⟩
  · have hat := (flushBuilder_at clk (by omega) (h.same hs1).kLimit hf).2
    rw [heq]
    exact ⟨fun hne => absurd hdue.1 hne, fun _ => (hat.same (tick_sameBlock clk _)).empty⟩
  · have ht := hs1.trans (tick_sameBlock clk { pl with clock := pl.clock + 1 })
    rw [heq]
    refine ⟨fun _ => ht.builder, ?_⟩
    intro hdue
    rw [ht.builder]
    by_contra hne
    exact hnot ⟨hdue, Nat.pos_of_ne_zero hne⟩

theorem since_timeout (h : At k x pl) (hs : Since log pl.builder)
    (h0 : (checkTimeoutAndTick wh clk pl).1 = 0) :
    Since log (checkTimeoutAndTick wh clk pl).2.builder := by
  obtain ⟨hkeep, hempty⟩ := checkTimeoutAndTick_builder h h0
  by_cases hdue : blockBuilderCheckTimeout pl.builder txBlockTimeoutMs (clk pl.clock) = 1
  · exact since_empty log (hempty hdue)
  · rw [hkeep hdue]
    exact hs

/-- **A frame.** -/
theorem since_packet (h : At k x pl) (hs : Since log pl.builder) {n : Nat}
    (h0 : (addPacket wh clk n pl).1 = 0) :
    Since (log ++ packetReadings wh clk n pl) (addPacket wh clk n pl).2.builder := by
  obtain ⟨-, ⟨y, -, hat, -⟩, ha, heq⟩ := addPacket_start clk h h0
  have hstart : Since log (packetStart wh clk n pl).builder := by
    rw [packetStart] at hat ⊢
    by_cases hflush : 0 < n ∧ 0 < pl.builder.symbolCount ∧
        pl.builder.kLimit < pl.builder.symbolCount + n
    · rw [if_pos hflush]
      have hroom := h.room
      have hf : (flushBuilder wh clk pl).1 = 0 := by
        by_contra hbad
        rw [addPacket] at h0
        simp only [if_pos hflush] at h0
        rw [if_pos hbad] at h0
        simp at h0
      have hat1 := (flushBuilder_at clk (by omega) h.kLimit hf).2
      exact since_empty log (hat1.same (tick_sameBlock clk _)).empty
    · rw [if_neg hflush]
      exact hs
  rw [heq] at h0 ⊢
  obtain ⟨-, hat1⟩ := addFragments_at clk hat _ ha
  exact since_timeout hat1 (since_fragments hat hstart _ ha) h0

theorem since_once (h : At pl.cfg.k x pl) (hs : Since log pl.builder) (ev : TxEvent)
    (h0 : (txPipelineRunOnce wh clk pl ev).1 = 0) :
    Since (log ++ readingsOnce wh clk pl ev) (txPipelineRunOnce wh clk pl ev).2.builder := by
  cases ev with
  | idle =>
      rw [readingsOnce, List.append_nil]
      exact since_timeout h hs h0
  | error =>
      rw [readingsOnce, List.append_nil]
      exact hs
  | frame pkt answered =>
      rw [runOnce_frame] at h0 ⊢
      rw [readingsOnce_frame]
      cases frameWay pl pkt answered with
      | ignored way =>
          rw [way, way, List.append_nil]
          exact hs
      | refused r cut neg way =>
          rw [way, way, List.append_nil]
          exact hs
      | taken r cut nonneg way =>
          rw [way] at h0 ⊢
          rw [way]
          have hat1 : At pl.cfg.k x (accepting pl (pkt.take txRxBufSize) r.2) :=
            ⟨h.kLimit, h.room, h.number⟩
          have hs1 : Since log (accepting pl (pkt.take txRxBufSize) r.2).builder := hs
          exact since_packet hat1 hs1 h0

theorem since_runFrom (evs : List TxEvent) (h : At pl.cfg.k x pl) (hs : Since log pl.builder)
    (h0 : (txRun wh clk evs pl).1 = 0) :
    Since (log ++ readingsRun wh clk evs pl) (txRun wh clk evs pl).2.builder := by
  induction evs generalizing pl x log with
  | nil =>
      rw [readingsRun, List.append_nil]
      exact hs
  | cons ev evs ih =>
      obtain ⟨h1, hstep⟩ := txRun_cons_ok h0
      obtain ⟨hcfg, z, -, -, hat, -⟩ := runOnce_places wh clk h ev h1
      rw [hstep] at h0 ⊢
      rw [readingsRun, ← List.append_assoc]
      rw [← hcfg] at hat
      exact ih hat (since_once h hs ev h1) h0

/-- **The builder's timer** in a run without a failure: it shows the reading of
    the first fragment in the builder. -/
theorem since_run {mem : Nat → Nat → Symbol} {lanMac : List UInt8} {cfg : Config}
    {pl0 : TxPipeline} (hc : txPipelineCreate mem lanMac cfg = some pl0)
    (evs : List TxEvent) (h0 : (txRun wh clk evs pl0).1 = 0)
    (hpos : 0 < (txRun wh clk evs pl0).2.builder.symbolCount) :
    firstReading wh clk evs pl0 = some (txRun wh clk evs pl0).2.builder.firstActivity := by
  have hstart : At pl0.cfg.k 0 pl0 ∧ pl0.builder.symbolCount = 0 := by
    obtain ⟨hk, hss, -, -, builder, fec, il, hb, -, -, rfl⟩ := txPipelineCreate_some hc
    rw [blockBuilderInit, if_neg (by omega)] at hb
    rw [← Option.some.inj hb]
    exact ⟨⟨rfl, by show 0 < cfg.k; omega, by show 0 = cfg.k * 0 + 0; omega⟩, rfl⟩
  have hs := since_runFrom evs hstart.1 (since_empty [] hstart.2) h0
  rw [firstReading, if_neg (Nat.ne_of_gt hpos)]
  exact hs.first hpos

end Since

end FsoTxPipeline
