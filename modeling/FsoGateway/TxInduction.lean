import FsoGateway.TxEncodeLog

/-! # Induction over a run of the TX pipeline

    A run changes the pipeline in few ways: bookkeeping fields, a symbol added
    to the builder, padding, an interleaver tick, and `encode_and_drain`
    followed by a reset.  An invariant that each of these keeps holds of a whole
    run, and so do facts about the calls of `encode_and_drain` made so far.

    Nothing is assumed of the configuration or of the codec.

    * `TxClosed` — what has to be shown of an invariant;
    * `TxClosed.run` — what it gives. -/

namespace FsoTxPipeline

open ByteBuffer FsoTypes FecWrapper FsoBlockBuilder FsoInterleaver PacketFragmenter
  SymbolCrc

/-- `P` holds of the pipeline and of the calls made so far, as long as no call
    fails; `Q` holds in any case. -/
structure TxClosed (wh : Wirehair) (clk : Nat → Nat)
    (P Q : TxPipeline → List TxPipeline → Prop) : Prop where
  weaken : ∀ {pl log}, P pl log → Q pl log
  same : ∀ {pl log}, P pl log → ∀ clock fragSyms counter accepted refused,
    pl.clock ≤ clock → P { pl with
        clock := clock
        fragSyms := fragSyms
        packetIdCounter := counter
        accepted := accepted
        refusedAdds := refused } log
  add : ∀ {pl log}, P pl log → ∀ sym now,
    P { pl with builder := (blockBuilderAddSymbol pl.builder sym now).2 } log
  finalize : ∀ {pl log}, P pl log → P (finalized pl) log
  tick : ∀ {pl log}, P pl log → P (tickAndDrainInterleaver clk pl) log
  encode : ∀ {pl log}, P pl log → (encodeAndReset wh clk pl).1 = 0 →
    P (encodeAndReset wh clk pl).2 (log ++ [pl])
  fail : ∀ {pl log}, P pl log → (encodeAndReset wh clk pl).1 ≠ 0 →
    Q (encodeAndReset wh clk pl).2 (log ++ [pl])

/-- The outcome of a part of a run, with the calls it made. -/
structure Kept (P Q : TxPipeline → List TxPipeline → Prop) (r : Int × TxPipeline)
    (log : List TxPipeline) : Prop where
  always : Q r.2 log
  ok : r.1 ≠ -1 → P r.2 log

namespace TxClosed

variable {wh : Wirehair} {clk : Nat → Nat} {P Q : TxPipeline → List TxPipeline → Prop}
  {pl : TxPipeline} {log : List TxPipeline}

theorem stay (h : TxClosed wh clk P Q) (hp : P pl log) (rc : Int) :
    Kept P Q (rc, pl) log :=
  ⟨h.weaken hp, fun _ => hp⟩

theorem tickClock (h : TxClosed wh clk P Q) (hp : P pl log) :
    P { pl with clock := pl.clock + 1 } log :=
  h.same hp (pl.clock + 1) pl.fragSyms pl.packetIdCounter pl.accepted pl.refusedAdds
    (Nat.le_succ _)

/-- What follows the call of `encode_and_drain`: the caller gives up or ticks. -/
theorem encoded (h : TxClosed wh clk P Q) (hp : P pl log) :
    Q (encodeAndReset wh clk pl).2 (log ++ [pl]) ∧
      ((encodeAndReset wh clk pl).1 = 0 →
        P (tickAndDrainInterleaver clk (encodeAndReset wh clk pl).2) (log ++ [pl])) := by
  by_cases h0 : (encodeAndReset wh clk pl).1 = 0
  · exact ⟨h.weaken (h.encode hp h0), fun _ => h.tick (h.encode hp h0)⟩
  · exact ⟨h.fail hp h0, fun hz => absurd hz h0⟩

theorem gaveUp {pl : TxPipeline} (hq : Q pl log) : Kept P Q (-1, pl) log :=
  ⟨hq, fun hne => absurd rfl hne⟩

theorem timeout (h : TxClosed wh clk P Q) (hp : P pl log) :
    Kept P Q (checkTimeoutAndTick wh clk pl) (log ++ callsTimeout clk pl) := by
  have hp1 := h.tickClock hp
  rw [checkTimeoutAndTick, callsTimeout]
  dsimp only
  by_cases hbad : blockBuilderCheckTimeout pl.builder txBlockTimeoutMs (clk pl.clock) = -1
  · rw [if_pos hbad, if_neg (by rw [hbad]; rintro ⟨h1, -⟩; exact nomatch h1),
      List.append_nil]
    exact h.stay hp1 _
  rw [if_neg hbad]
  by_cases hdue : blockBuilderCheckTimeout pl.builder txBlockTimeoutMs (clk pl.clock) = 1
      ∧ 0 < pl.builder.symbolCount
  · rw [if_pos hdue, if_pos hdue]
    have he := h.encoded (h.finalize hp1)
    by_cases h0 : (flushBuilder wh clk { pl with clock := pl.clock + 1 }).1 ≠ 0
    · rw [if_pos h0]
      exact gaveUp he.1
    · rw [if_neg h0]
      exact h.stay (he.2 (not_not.mp h0)) _
  · rw [if_neg hdue, if_neg hdue, List.append_nil]
    exact h.stay (h.tick hp1) _

theorem adds (h : TxClosed wh clk P Q) (syms : List Symbol) (hp : P pl log) :
    Kept P Q (addFragments wh clk syms pl) (log ++ callsAdd wh clk syms pl) := by
  induction syms generalizing pl log with
  | nil =>
      rw [callsAdd, List.append_nil]
      exact h.stay hp _
  | cons sym rest ih =>
      have hp1 := h.tickClock (h.add hp sym (clk pl.clock))
      rw [addFragments, callsAdd]
      dsimp only at hp1 ⊢
      generalize blockBuilderAddSymbol pl.builder sym (clk pl.clock) = r at hp1 ⊢
      by_cases hfull : r.1 = -1
      · rw [if_pos hfull, if_pos hfull]
        exact ih (h.same hp1 (pl.clock + 1) pl.fragSyms pl.packetIdCounter pl.accepted
          (pl.refusedAdds + 1) le_rfl)
      rw [if_neg hfull, if_neg hfull]
      by_cases hlast : r.1 = 1
      · rw [if_pos hlast, if_pos hlast]
        have he := h.encoded hp1
        generalize ({ pl with builder := r.2, clock := pl.clock + 1 } : TxPipeline) = pl1
          at he ⊢
        by_cases h0 : (encodeAndReset wh clk pl1).1 ≠ 0
        · rw [if_pos h0, if_pos h0]
          exact gaveUp he.1
        · rw [if_neg h0, if_neg h0, List.append_cons]
          exact ih (he.2 (not_not.mp h0))
      · rw [if_neg hlast, if_neg hlast]
        exact ih hp1

theorem packet (h : TxClosed wh clk P Q) (numFrags : Nat) (hp : P pl log) :
    Kept P Q (addPacket wh clk numFrags pl) (log ++ callsPacket wh clk numFrags pl) := by
  -- once the builder was flushed or need not be: add the fragments and finish
  have hrest : ∀ pl1 log1, P pl1 log1 →
      Kept P Q
        (if (addFragments wh clk ((List.range numFrags).map pl1.fragSyms) pl1).1 ≠ 0 then
          (-1, (addFragments wh clk ((List.range numFrags).map pl1.fragSyms) pl1).2)
        else checkTimeoutAndTick wh clk
          (addFragments wh clk ((List.range numFrags).map pl1.fragSyms) pl1).2)
        (log1 ++ (callsAdd wh clk ((List.range numFrags).map pl1.fragSyms) pl1 ++
          if (addFragments wh clk ((List.range numFrags).map pl1.fragSyms) pl1).1 ≠ 0 then []
          else callsTimeout clk
            (addFragments wh clk ((List.range numFrags).map pl1.fragSyms) pl1).2)) := by
    intro pl1 log1 hp1
    have ha := h.adds ((List.range numFrags).map pl1.fragSyms) hp1
    generalize addFragments wh clk ((List.range numFrags).map pl1.fragSyms) pl1 = a at ha ⊢
    rw [← List.append_assoc]
    by_cases h0 : a.1 ≠ 0
    · rw [if_pos h0, if_pos h0, List.append_nil]
      exact gaveUp ha.always
    · rw [if_neg h0, if_neg h0]
      exact h.timeout (ha.ok (by rw [not_not.mp h0]; decide))
  rw [addPacket, callsPacket]
  by_cases hflush : 0 < numFrags ∧ 0 < pl.builder.symbolCount ∧
      pl.builder.kLimit < pl.builder.symbolCount + numFrags
  · simp only [if_pos hflush]
    have hf := h.encoded (h.finalize hp)
    rw [← List.append_assoc]
    by_cases h0 : (flushBuilder wh clk pl).1 ≠ 0
    · rw [if_pos h0, if_pos h0, List.append_nil]
      exact gaveUp hf.1
    · rw [if_neg h0, if_neg h0]
      exact hrest _ _ (hf.2 (not_not.mp h0))
  · simp only [if_neg hflush, List.nil_append]
    exact hrest pl log hp

theorem once (h : TxClosed wh clk P Q) (ev : TxEvent) (hp : P pl log) :
    Kept P Q (txPipelineRunOnce wh clk pl ev) (log ++ callsOnce wh clk pl ev) := by
  cases ev with
  | idle => exact h.timeout hp
  | error =>
      rw [callsOnce, List.append_nil]
      exact h.stay hp _
  | frame pkt answered =>
      rw [runOnce_frame, callsOnce_frame]
      cases frameWay pl pkt answered with
      | ignored way =>
          rw [way, way, List.append_nil]
          exact h.stay hp _
      | refused r cut neg way =>
          rw [way, way, List.append_nil]
          exact h.stay (h.same hp pl.clock r.2 pl.packetIdCounter pl.accepted
            pl.refusedAdds le_rfl) _
      | taken r cut nonneg way =>
          rw [way, way]
          exact h.packet _ (h.same hp pl.clock r.2 (pl.packetIdCounter + 1)
            (pl.accepted ++ [pkt.take txRxBufSize]) pl.refusedAdds le_rfl)

/-- **A whole run.** -/
theorem run (h : TxClosed wh clk P Q) (evs : List TxEvent) (hp : P pl log) :
    Kept P Q (txRun wh clk evs pl) (log ++ callsRun wh clk evs pl) := by
  induction evs generalizing pl log with
  | nil =>
      rw [callsRun, List.append_nil]
      exact h.stay hp _
  | cons ev evs ih =>
      have h1 := h.once ev hp
      rw [txRun, callsRun]
      generalize txPipelineRunOnce wh clk pl ev = r at h1 ⊢
      by_cases hstop : r.1 = -1
      · rw [if_pos hstop, if_pos hstop, List.append_nil]
        exact h1
      · rw [if_neg hstop, if_neg hstop, ← List.append_assoc]
        exact ih (h1.ok hstop)

end TxClosed

end FsoTxPipeline
