import FsoGateway.BurstSpread
import FsoGateway.PipelineStats
import FsoGateway.TxInduction

/-! # What the transmitter counts

    A LAN frame is counted before it is cut into fragments, and a symbol after
    it was sent.  The sends may fail here, in any pattern: nothing but the
    counters depends on them.

    * `txCountedRun` — the counting calls of a run;
    * `tx_accounts_agree` — what the counters say about the frames, the blocks
      and the windows of a run. -/

namespace FsoTxPipeline

open ByteBuffer FsoTypes FecWrapper FsoBlockBuilder FsoInterleaver PacketFragmenter
  SymbolCrc FsoStats ErasureCode

/-! ## Calls -/

/-- The frame that a call counts as ingress: it is not one of the gateway's own,
    and was not answered from the ARP cache. -/
def ingressFrame (pl : TxPipeline) : TxEvent → Option (List UInt8)
  | .idle => none
  | .error => none
  | .frame pkt answered =>
      onFrame pl pkt answered none (fun pkt _ => some pkt) fun pkt _ => some pkt

/-- `FSO_ETH_HDR_SIZE + WIRE_HDR_SIZE + payload_len`. -/
def wireLen (sym : Symbol) : Nat := 14 + 18 + sym.payloadLen.toNat

theorem serializeSymbol_length (sym : Symbol) : (serializeSymbol sym).length = wireLen sym := by
  rw [serializeSymbol]
  simp only [List.length_append, be32_length, be16_length, bytes_length, wireLen]
  rfl

/-- What is counted for symbols handed to `tx_serialize_and_send`, the first of
    which is number `i` of the run; `ok` tells which sends succeed. -/
def transmitCalls (ok : Nat → Bool) : Nat → List Symbol → List StatsCall
  | _, [] => []
  | i, sym :: rest =>
      (if ok i then [.incTransmitted (wireLen sym)] else []) ++ transmitCalls ok (i + 1) rest

/-- What a call of `tx_pipeline_run_once` counts. -/
def txCountedOnce (wh : Wirehair) (clk : Nat → Nat) (ok : Nat → Bool) (pl : TxPipeline)
    (ev : TxEvent) : List StatsCall :=
  ((ingressFrame pl ev).map fun pkt => StatsCall.incIngress pkt.length).toList ++
    transmitCalls ok pl.sent.length
      ((txPipelineRunOnce wh clk pl ev).2.sent.drop pl.sent.length)

/-- What a run counts; the caller stops at the first `-1`. -/
def txCountedRun (wh : Wirehair) (clk : Nat → Nat) (ok : Nat → Bool) :
    List TxEvent → TxPipeline → List StatsCall
  | [], _ => []
  | ev :: evs, pl =>
      txCountedOnce wh clk ok pl ev ++
        if (txPipelineRunOnce wh clk pl ev).1 = -1 then []
        else txCountedRun wh clk ok evs (txPipelineRunOnce wh clk pl ev).2

theorem transmitCalls_isTx (ok : Nat → Bool) (i : Nat) (l : List Symbol) :
    (transmitCalls ok i l).filter (fun c => !c.isRx) = transmitCalls ok i l := by
  induction l generalizing i with
  | nil => rfl
  | cons sym l ih =>
      rw [transmitCalls, List.filter_append, ih]
      cases ok i <;> rfl

/-- Every call of the transmitter is one. -/
theorem txCountedRun_isTx (wh : Wirehair) (clk : Nat → Nat) (ok : Nat → Bool)
    (evs : List TxEvent) (pl : TxPipeline) :
    (txCountedRun wh clk ok evs pl).filter (fun c => !c.isRx)
      = txCountedRun wh clk ok evs pl := by
  induction evs generalizing pl with
  | nil => rfl
  | cons ev evs ih =>
      rw [txCountedRun, txCountedOnce, List.filter_append, List.filter_append,
        transmitCalls_isTx]
      congr 1
      · cases ingressFrame pl ev <;> rfl
      · split
        · rfl
        · exact ih _

/-- The frames counted as ingress in a run. -/
def ingressFrames (wh : Wirehair) (clk : Nat → Nat) :
    List TxEvent → TxPipeline → List (List UInt8)
  | [], _ => []
  | ev :: evs, pl =>
      (ingressFrame pl ev).toList ++
        if (txPipelineRunOnce wh clk pl ev).1 = -1 then []
        else ingressFrames wh clk evs (txPipelineRunOnce wh clk pl ev).2

/-- The wire frames whose sends succeeded. -/
def transmittedFrames (ok : Nat → Bool) (pl : TxPipeline) : List (List UInt8) :=
  ((wireFrames pl).zipIdx.filter fun p => ok p.2).map Prod.fst

/-! ## The symbols handed to the send -/

theorem drainLoop_sent (fuel : Nat) (pl : TxPipeline) : pl.sent <+: (drainLoop fuel pl).sent := by
  induction fuel generalizing pl with
  | zero => exact List.prefix_rfl
  | succ fuel ih =>
      rw [drainLoop]
      cases interleaverPopReadySymbol pl.interleaver with
      | none => exact List.prefix_rfl
      | some r =>
          obtain ⟨outSym, last, il⟩ := r
          cases last with
          | true => exact List.prefix_append pl.sent [outSym]
          | false =>
              exact (List.prefix_append pl.sent [outSym]).trans
                (ih (txSerializeAndSend { pl with interleaver := il } outSym))

theorem drainInterleaver_sent (pl : TxPipeline) : pl.sent <+: (drainInterleaver pl).sent := by
  rw [drainInterleaver]
  split
  · exact drainLoop_sent _ pl
  · exact List.prefix_rfl

theorem pushSymbols_sent (clk : Nat → Nat) (l : List Symbol) (pl : TxPipeline) :
    (pushSymbols clk l pl).2.sent = pl.sent := by
  obtain ⟨il, t, h⟩ := pushSymbols_frame clk l pl
  rw [h]

theorem encodeAndDrain_sent (wh : Wirehair) (clk : Nat → Nat) (pl : TxPipeline) :
    pl.sent <+: (encodeAndDrain wh clk pl).2.sent := by
  have hdrain : ∀ p : TxPipeline, p.sent = pl.sent → pl.sent <+: (drainInterleaver p).sent := by
    intro p h
    rw [← h]
    exact drainInterleaver_sent p
  rw [encodeAndDrain]
  dsimp only
  split
  · exact List.prefix_rfl
  · split
    · rw [pushSymbols_sent]
      exact hdrain _ rfl
    · split
      · rw [pushSymbols_sent, pushSymbols_sent]
        exact hdrain _ rfl
      · refine List.IsPrefix.trans ?_ (drainInterleaver_sent _)
        rw [pushSymbols_sent, pushSymbols_sent]
        exact hdrain _ rfl

theorem encodeAndReset_sent (wh : Wirehair) (clk : Nat → Nat) (pl : TxPipeline) :
    pl.sent <+: (encodeAndReset wh clk pl).2.sent := by
  rw [encodeAndReset]
  split <;> exact encodeAndDrain_sent wh clk pl

theorem tickAndDrain_sent (clk : Nat → Nat) (pl : TxPipeline) :
    pl.sent <+: (tickAndDrainInterleaver clk pl).sent := by
  rw [tickAndDrainInterleaver]
  split
  · exact drainInterleaver_sent
      { pl with
        interleaver := (interleaverTick pl.interleaver (clk pl.clock)).2
        clock := pl.clock + 1 }
  · exact List.prefix_rfl

/-- Nothing takes a symbol back that was handed to the send. -/
theorem sentGrows_closed (wh : Wirehair) (clk : Nat → Nat) (l : List Symbol) :
    TxClosed wh clk (fun pl _ => l <+: pl.sent) (fun pl _ => l <+: pl.sent) where
  weaken := fun h => h
  same := fun h _ _ _ _ _ _ => h
  add := fun h _ _ => h
  finalize := fun h => h
  tick := fun h => h.trans (tickAndDrain_sent clk _)
  encode := fun h _ => h.trans (encodeAndReset_sent wh clk _)
  fail := fun h _ => h.trans (encodeAndReset_sent wh clk _)

theorem runOnce_sent (wh : Wirehair) (clk : Nat → Nat) (pl : TxPipeline) (ev : TxEvent) :
    pl.sent <+: (txPipelineRunOnce wh clk pl ev).2.sent := by
  have hkept : Kept _ _ _ ([] ++ callsOnce wh clk pl ev) :=
    (sentGrows_closed wh clk pl.sent).once ev List.prefix_rfl
  exact hkept.always

/-! ## The calls of a run -/

theorem transmitCalls_append (ok : Nat → Bool) (i : Nat) (l l' : List Symbol) :
    transmitCalls ok i (l ++ l') = transmitCalls ok i l ++ transmitCalls ok (i + l.length) l' := by
  induction l generalizing i with
  | nil => rfl
  | cons sym l ih =>
      rw [List.cons_append, transmitCalls, transmitCalls, ih, List.append_assoc,
        List.length_cons, Nat.add_assoc i 1, Nat.add_comm 1]

theorem transmitCalls_ingress (ok : Nat → Bool) (i : Nat) (l : List Symbol) :
    (transmitCalls ok i l).filterMap StatsCall.ingress = [] := by
  induction l generalizing i with
  | nil => rfl
  | cons sym l ih =>
      rw [transmitCalls, List.filterMap_append, ih]
      cases ok i <;> rfl

/-- The transmitted calls are those of the frames whose sends succeeded. -/
theorem transmitCalls_transmitted (ok : Nat → Bool) (i : Nat) (l : List Symbol) :
    (transmitCalls ok i l).filterMap StatsCall.transmitted
      = ((((l.map serializeSymbol).zipIdx i).filter fun p => ok p.2).map Prod.fst).map
          List.length := by
  induction l generalizing i with
  | nil => rfl
  | cons sym l ih =>
      rw [transmitCalls, List.filterMap_append, ih, List.map_cons, List.zipIdx_cons,
        List.filter_cons]
      cases ok i with
      | true =>
          rw [if_pos rfl, if_pos rfl, List.map_cons, List.map_cons, serializeSymbol_length]
          rfl
      | false =>
          rw [if_neg Bool.false_ne_true, if_neg Bool.false_ne_true]
          rfl

theorem txCountedOnce_ingress (wh : Wirehair) (clk : Nat → Nat) (ok : Nat → Bool)
    (pl : TxPipeline) (ev : TxEvent) :
    (txCountedOnce wh clk ok pl ev).filterMap StatsCall.ingress
      = (ingressFrame pl ev).toList.map List.length := by
  rw [txCountedOnce, List.filterMap_append, transmitCalls_ingress, List.append_nil]
  cases ingressFrame pl ev <;> rfl

theorem txCountedOnce_transmitted (wh : Wirehair) (clk : Nat → Nat) (ok : Nat → Bool)
    (pl : TxPipeline) (ev : TxEvent) :
    (txCountedOnce wh clk ok pl ev).filterMap StatsCall.transmitted
      = (transmitCalls ok pl.sent.length
          ((txPipelineRunOnce wh clk pl ev).2.sent.drop pl.sent.length)).filterMap
            StatsCall.transmitted := by
  rw [txCountedOnce, List.filterMap_append]
  cases ingressFrame pl ev <;> rfl

theorem txCountedRun_ingress (wh : Wirehair) (clk : Nat → Nat) (ok : Nat → Bool)
    (evs : List TxEvent) (pl : TxPipeline) :
    (txCountedRun wh clk ok evs pl).filterMap StatsCall.ingress
      = (ingressFrames wh clk evs pl).map List.length := by
  induction evs generalizing pl with
  | nil => rfl
  | cons ev evs ih =>
      rw [txCountedRun, ingressFrames, List.filterMap_append, List.map_append,
        txCountedOnce_ingress]
      congr 1
      split
      · rfl
      · exact ih _

/-- What a run transmits, after the symbols that were sent before. -/
theorem txCountedRun_transmitted (wh : Wirehair) (clk : Nat → Nat) (ok : Nat → Bool)
    (evs : List TxEvent) (pl : TxPipeline) :
    (transmitCalls ok 0 pl.sent ++ txCountedRun wh clk ok evs pl).filterMap
        StatsCall.transmitted
      = (transmitCalls ok 0 (txRun wh clk evs pl).2.sent).filterMap StatsCall.transmitted := by
  induction evs generalizing pl with
  | nil =>
      rw [txCountedRun, List.append_nil]
      rfl
  | cons ev evs ih =>
      obtain ⟨more, hmore⟩ := runOnce_sent wh clk pl ev
      have hone : (transmitCalls ok 0 pl.sent ++ txCountedOnce wh clk ok pl ev).filterMap
            StatsCall.transmitted
          = (transmitCalls ok 0 (txPipelineRunOnce wh clk pl ev).2.sent).filterMap
            StatsCall.transmitted := by
        rw [List.filterMap_append, txCountedOnce_transmitted, ← hmore, List.drop_left,
          transmitCalls_append, List.filterMap_append, Nat.zero_add]
      rw [txCountedRun, txRun, ← List.append_assoc, List.filterMap_append, hone,
        ← List.filterMap_append]
      by_cases hstop : (txPipelineRunOnce wh clk pl ev).1 = -1
      · rw [if_pos hstop, if_pos hstop, List.append_nil]
      · rw [if_neg hstop, if_neg hstop]
        exact ih _

/-! ## The frames of a run -/

/-- The most fragments that a frame may have. -/
def maxFrags (cfg : Config) : Nat :=
  max ((txMaxPacketLen + cfg.symbolSize - 1) / cfg.symbolSize) cfg.k

/-- Can the frame be cut into fragments? -/
def isCut (cfg : Config) (pkt : List UInt8) : Bool :=
  decide (fragmentCount pkt.length cfg.symbolSize ≤ maxFrags cfg)

theorem maxFrags_lt {cfg : Config} (hs : 0 < cfg.symbolSize) (hk : cfg.k ≤ 256) :
    maxFrags cfg < 2 ^ 16 := by
  have hdiv : (txMaxPacketLen + cfg.symbolSize - 1) / cfg.symbolSize ≤ txMaxPacketLen := by
    refine Nat.div_le_of_le_mul ?_
    rw [txMaxPacketLen]
    have hmul : 9000 + cfg.symbolSize - 1 ≤ cfg.symbolSize * 9000 := by
      obtain ⟨s, hs⟩ := Nat.exists_eq_add_of_lt hs
      rw [hs]
      omega
    exact hmul
  rw [maxFrags]
  rw [txMaxPacketLen] at hdiv ⊢
  omega

/-- **One call** accepts the frame that it counts, if it can be cut. -/
theorem runOnce_accepts {wh : Wirehair} (clk : Nat → Nat) {pl : TxPipeline}
    (hi : RunInv wh pl) (hmax : pl.maxFragsPerPacket = maxFrags pl.cfg) (ev : TxEvent) :
    let r := txPipelineRunOnce wh clk pl ev
    r.2.accepted = pl.accepted ++ (ingressFrame pl ev).toList.filter (isCut pl.cfg) ∧
      r.2.maxFragsPerPacket = pl.maxFragsPerPacket := by
  obtain ⟨h, hr⟩ := hi.hist
  cases ev with
  | idle =>
      obtain ⟨-, hs, -⟩ := checkTimeoutAndTick_spec clk hi.cfg.toCodeOk hi.recovers hr
      exact ⟨hs.accepted.trans (List.append_nil _).symm, hs.maxFragsPerPacket⟩
  | error => exact ⟨(List.append_nil _).symm, rfl⟩
  | frame pkt answered =>
      intro r
      have hss16 : (UInt16.ofNat pl.cfg.symbolSize).toNat = pl.cfg.symbolSize := by
        have h9000 : pl.cfg.symbolSize ≤ 9000 := hi.cfg.fits
        rw [UInt16.toNat_ofNat']
        omega
      have hmax16 : (UInt16.ofNat pl.maxFragsPerPacket).toNat = maxFrags pl.cfg := by
        have hlen : pl.cfg.k + pl.cfg.m ≤ 256 := hi.cfg.length
        rw [UInt16.toNat_ofNat', hmax]
        exact Nat.mod_eq_of_lt (maxFrags_lt hi.cfg.symbolSize (by omega))
      have hspec := fragmentPacket_spec (pkt.take txRxBufSize) pl.packetIdCounter
        (show 0 < (UInt16.ofNat pl.cfg.symbolSize).toNat by rw [hss16]; exact hi.cfg.symbolSize)
        (by rw [hss16]; exact hi.cfg.fits)
        pl.fragSyms (UInt16.ofNat pl.maxFragsPerPacket)
      rw [hss16, hmax16] at hspec
      have hr0 : r = _ := runOnce_frame wh clk pl pkt answered
      rw [ingressFrame]
      cases frameWay pl pkt answered with
      | ignored way =>
          rw [way] at hr0 ⊢
          rw [hr0]
          exact ⟨(List.append_nil _).symm, rfl⟩
      | refused fp cut neg way =>
          rw [way] at hr0 ⊢
          rw [cut] at hspec
          rcases hspec with ⟨hlong, -⟩ | ⟨-, hcnt, -⟩
          · rw [hr0]
            refine ⟨?_, rfl⟩
            show pl.accepted = _ ++ List.filter _ [pkt.take txRxBufSize]
            rw [List.filter_cons_of_neg (by rw [isCut, decide_eq_true_iff]; omega)]
            exact (List.append_nil _).symm
          · omega
      | taken fp cut nonneg way =>
          rw [way] at hr0 ⊢
          rw [cut] at hspec
          rcases hspec with ⟨-, hrej⟩ | ⟨hshort, hcnt, hsyms⟩
          · rw [hrej] at nonneg
            exact absurd (show (-1 : Int) < 0 by decide) nonneg
          · rw [hi.counter] at hsyms
            obtain ⟨-, hs, -⟩ := addPacket_spec clk
              (show CodeOk (accepting pl (pkt.take txRxBufSize) fp.2).cfg from hi.cfg.toCodeOk)
              hi.recovers (hr.accepting (pkt.take txRxBufSize) fp.2)
              (fragsOf_length _ _ _) (fragsOf_symbols rfl hsyms)
              (fun f hf => fragsOf_total hf) fun f hf => fragsOf_last hf
            rw [hcnt, Int.toNat_natCast] at hr0
            rw [hr0]
            refine ⟨hs.accepted.trans ?_, hs.maxFragsPerPacket⟩
            show _ = _ ++ List.filter _ [pkt.take txRxBufSize]
            rw [List.filter_cons_of_pos (by rw [isCut, decide_eq_true_iff]; exact hshort)]
            rfl

theorem run_accepts {wh : Wirehair} (clk : Nat → Nat) (evs : List TxEvent) {pl : TxPipeline}
    (hi : RunInv wh pl) (hmax : pl.maxFragsPerPacket = maxFrags pl.cfg) :
    (txRun wh clk evs pl).2.accepted
      = pl.accepted ++ (ingressFrames wh clk evs pl).filter (isCut pl.cfg) := by
  induction evs generalizing pl with
  | nil => exact (List.append_nil _).symm
  | cons ev evs ih =>
      obtain ⟨h0, hi', hcfg⟩ := runInv_runOnce clk hi ev
      obtain ⟨hacc, hmax'⟩ := runOnce_accepts clk hi hmax ev
      have hne : (txPipelineRunOnce wh clk pl ev).1 ≠ -1 := by
        rw [h0]
        decide
      rw [txRun_cons evs h0, ingressFrames, if_neg hne, List.filter_append,
        ih hi' (by rw [hmax', hcfg, hmax]), hacc, hcfg, List.append_assoc]

/-! ## The blocks of a run -/

/-- Is it a symbol of a block, not padding of a window? -/
def ofABlock (sym : Symbol) : Bool := sym.packetId != 0

/-- Is it symbol `i` of block `id`? -/
def isSymbol (id : UInt32) (i : Nat) (sym : Symbol) : Bool :=
  sym.packetId == id && sym.fecId == UInt32.ofNat i

/-- The symbols in the rows of the window. -/
def waitingSymbols (il : Interleaver) : List Symbol :=
  (List.range il.windowBlockCount).flatMap fun r => (List.range il.n).map (il.matrix r)

/-- The symbols of a row, as they are sent. -/
def rowSymbols (n ss : Nat) (row : Row) : List Symbol :=
  (List.range n).map fun c => clipSymbol ss (row.cells c)

/-- **A window** has the symbols of its rows and of the padding, by columns. -/
theorem windowSymbols_perm {cfg : Config} {rows : List Row} (hd : 0 < cfg.depth)
    (hle : rows.length ≤ cfg.depth) :
    (windowSymbols cfg rows).Perm ((padded cfg.depth (cfg.k + cfg.m) cfg.symbolSize rows).flatMap
      (rowSymbols (cfg.k + cfg.m) cfg.symbolSize)) := by
  have hrow : ∀ r ∈ List.range cfg.depth,
      ((List.range (cfg.k + cfg.m)).map fun c => cfg.depth * c + r).map
          (windowSymbol cfg.depth cfg.symbolSize
            (padded cfg.depth (cfg.k + cfg.m) cfg.symbolSize rows))
        = rowSymbols (cfg.k + cfg.m) cfg.symbolSize
            ((padded cfg.depth (cfg.k + cfg.m) cfg.symbolSize rows).getD r
              ⟨0, fun _ => symbolInit⟩) := by
    intro r hr
    rw [List.map_map, rowSymbols]
    refine List.map_congr_left fun c _ => ?_
    rw [Function.comp, windowSymbol, Nat.mul_add_mod, Nat.mod_eq_of_lt (List.mem_range.mp hr),
      Nat.mul_add_div hd, Nat.div_eq_of_lt (List.mem_range.mp hr), Nat.add_zero]
  have hall : (List.range cfg.depth).map
        (fun r => (padded cfg.depth (cfg.k + cfg.m) cfg.symbolSize rows).getD r
          ⟨0, fun _ => symbolInit⟩)
      = padded cfg.depth (cfg.k + cfg.m) cfg.symbolSize rows := by
    refine List.ext_getElem ?_ fun r hr hr' => ?_
    · rw [List.length_map, List.length_range, padded_length hle]
    · rw [List.getElem_map, List.getElem_range, List.getD_eq_getElem?_getD,
        List.getElem?_eq_getElem hr', Option.getD_some]
  have hperm := (Burst.range_mul_perm cfg.depth (cfg.k + cfg.m)).map
    (windowSymbol cfg.depth cfg.symbolSize
      (padded cfg.depth (cfg.k + cfg.m) cfg.symbolSize rows))
  rw [List.map_flatMap, List.flatMap_congr hrow, ← List.flatMap_map, hall] at hperm
  exact hperm

/-- The padding counts for nothing. -/
theorem windowSymbols_countP {cfg : Config} {rows : List Row} (hd : 0 < cfg.depth)
    (hle : rows.length ≤ cfg.depth) {p : Symbol → Bool} (hpad : ∀ s, s.packetId = 0 → p s = false) :
    (windowSymbols cfg rows).countP p
      = Tally.weigh (fun row => (rowSymbols (cfg.k + cfg.m) cfg.symbolSize row).countP p) rows := by
  have hnone : (rowSymbols (cfg.k + cfg.m) cfg.symbolSize
      (padRow (cfg.k + cfg.m) cfg.symbolSize)).countP p = 0 := by
    refine List.countP_eq_zero.mpr fun s hs => ?_
    obtain ⟨c, -, rfl⟩ := List.mem_map.mp hs
    rw [hpad (clipSymbol cfg.symbolSize ((padRow (cfg.k + cfg.m) cfg.symbolSize).cells c)) rfl]
    exact Bool.false_ne_true
  rw [(windowSymbols_perm hd hle).countP_eq, List.countP_flatMap, padded, List.map_append,
    List.sum_append, List.map_replicate, Function.comp_apply, hnone, List.sum_replicate_nat,
    Nat.mul_zero, Nat.add_zero]
  rfl

/-- A row has `n` symbols of its block. -/
theorem Uniform.count_ofABlock {n ss : Nat} {row : Row} (hu : Uniform n row) (hkey : row.key ≠ 0) :
    (rowSymbols n ss row).countP ofABlock = n := by
  have hall : (rowSymbols n ss row).countP ofABlock = (rowSymbols n ss row).length := by
    refine List.countP_eq_length.mpr fun s hs => ?_
    obtain ⟨c, hc, rfl⟩ := List.mem_map.mp hs
    rw [ofABlock, clipSymbol_packetId, hu.packetId c (List.mem_range.mp hc), bne_iff_ne]
    exact hkey
  rw [hall, rowSymbols, List.length_map, List.length_range]

/-- Each of them once. -/
theorem Uniform.count_isSymbol {n ss : Nat} {row : Row} (hu : Uniform n row) (hn : n ≤ 256)
    {i : Nat} (hi : i < n) (id : UInt32) :
    (rowSymbols n ss row).countP (isSymbol id i) = (row.key == id).toNat := by
  have hcell : ∀ c ∈ List.range n,
      isSymbol id i (clipSymbol ss (row.cells c)) = (row.key == id && c == i) := by
    intro c hc
    have hcn := List.mem_range.mp hc
    rw [isSymbol, clipSymbol_packetId, clipSymbol_fecId, hu.packetId c hcn, hu.fecId c hcn]
    refine congrArg (row.key == id && ·) ?_
    rw [Bool.eq_iff_iff, beq_iff_eq, beq_iff_eq]
    constructor
    · intro h
      have hnat := congrArg UInt32.toNat h
      rw [toNat_ofNat_lt (by omega), toNat_ofNat_lt (by omega)] at hnat
      exact hnat
    · exact fun h => congrArg UInt32.ofNat h
  rw [rowSymbols, List.countP_map]
  refine (List.countP_congr fun c hc => ?_).trans
    (b := (List.range n).countP fun c => row.key == id && c == i) ?_
  · rw [Function.comp, hcell c hc]
  · cases row.key == id with
    | false => exact List.countP_eq_zero.mpr fun _ _ => Bool.false_ne_true
    | true =>
        simp only [Bool.true_and, Bool.toNat_true]
        exact List.count_eq_one_of_mem List.nodup_range (List.mem_range.mpr hi)

/-- The counters of a run, in terms of the frames it counted as ingress and of
    what was sent. -/
structure TxAgrees (tx : TxPipeline) (frames : List (List UInt8)) (ok : Nat → Bool)
    (s : StatsAtomicContainer) : Prop where
  ingress : s.ingressPackets = frames.length
  ingressBytes : s.ingressBytes = Tally.weigh List.length frames
  /-- a frame that was counted is forwarded unless it has too many fragments -/
  accepted : tx.accepted = frames.filter (isCut tx.cfg)
  transmitted : s.transmittedPackets = (transmittedFrames ok tx).length
  transmittedBytes : s.transmittedBytes = Tally.weigh List.length (transmittedFrames ok tx)
  /-- whole windows are sent -/
  windows : ∃ w, tx.sent.length = w * (tx.cfg.depth * (tx.cfg.k + tx.cfg.m)) ∧
    w ≤ tx.blocksBuilt
  /-- with fewer than `2 ^ 32` blocks, every symbol of a block was sent once or
      waits in the window, and nothing else was sent but padding -/
  blocks : tx.blocksBuilt < 2 ^ 32 →
    (∀ j i, j < tx.blocksBuilt → i < tx.cfg.k + tx.cfg.m →
      (tx.sent ++ waitingSymbols tx.interleaver).countP (isSymbol (blockIdOf j) i) = 1) ∧
    tx.sent.countP ofABlock + (tx.cfg.k + tx.cfg.m) * tx.interleaver.windowBlockCount
      = (tx.cfg.k + tx.cfg.m) * tx.blocksBuilt

section Run

variable {wh : Wirehair} {pl : TxPipeline} {h : TxHist} {frags : List Frag}

theorem sent_countP (hc : Core wh pl h frags) (hd : 0 < pl.cfg.depth) {p : Symbol → Bool}
    (hpad : ∀ s, s.packetId = 0 → p s = false) :
    pl.sent.countP p = Tally.weigh
      (fun row => (rowSymbols (pl.cfg.k + pl.cfg.m) pl.cfg.symbolSize row).countP p)
      h.windows.flatten := by
  have hwindow : ∀ w ∈ h.windows, (List.countP p ∘ windowSymbols pl.cfg) w = Tally.weigh
      (fun row => (rowSymbols (pl.cfg.k + pl.cfg.m) pl.cfg.symbolSize row).countP p) w :=
    fun w hw => windowSymbols_countP hd (hc.windows w hw).2 hpad
  rw [hc.sent, List.countP_flatMap, List.map_congr_left hwindow, Tally.weigh, List.map_flatten,
    List.sum_flatten, List.map_map]
  rfl

/-- The symbols that wait are those of the rows. -/
theorem waiting_countP (hc : Core wh pl h frags) {p : Symbol → Bool}
    (hclip : ∀ s, p (clipSymbol pl.cfg.symbolSize s) = p s) :
    (waitingSymbols pl.interleaver).countP p = Tally.weigh
      (fun row => (rowSymbols (pl.cfg.k + pl.cfg.m) pl.cfg.symbolSize row).countP p) h.rows := by
  rw [waitingSymbols, List.countP_flatMap, hc.holds.windowCount, hc.shape.n]
  refine congrArg List.sum (List.ext_getElem ?_ fun r hr hr' => ?_)
  · rw [List.length_map, List.length_map, List.length_range]
  · rw [List.length_map] at hr'
    rw [List.getElem_map, List.getElem_map, List.getElem_range, Function.comp_apply, rowSymbols,
      List.countP_map, List.countP_map]
    refine List.countP_congr fun c hcol => ?_
    have hcell := (hc.holds.done r hr').cells c (by
      rw [hc.shape.n]
      exact List.mem_range.mp hcol)
    rw [hc.shape.symbolSize] at hcell
    rw [Function.comp_apply, Function.comp_apply, ← hclip, hcell]

/-- Each block has its own id. -/
theorem allRows_count (wh : Wirehair) (cfg : Config) {h : TxHist} (hlt : h.blocks.length < 2 ^ 32)
    {j : Nat} (hj : j < h.blocks.length) :
    (h.allRows wh cfg).countP (fun row => row.key == blockIdOf j) = 1 := by
  have hmem : blockIdOf j ∈ (h.allRows wh cfg).map Row.key := by
    rw [allRows_keys]
    exact List.mem_map_of_mem (List.mem_range.mpr hj)
  have hcount := List.count_eq_one_of_mem (allRows_nodup wh cfg hlt) hmem
  rw [List.count, List.countP_map] at hcount
  exact hcount

/-- The windows of a run. -/
theorem sent_windows (hi : RunInv wh pl) :
    ∃ w, pl.sent.length = w * (pl.cfg.depth * (pl.cfg.k + pl.cfg.m)) ∧ w ≤ pl.blocksBuilt := by
  obtain ⟨h, hr⟩ := hi.hist
  have hc := hr.core
  have hrows : h.windows.flatten.length + h.rows.length = pl.blocksBuilt := by
    rw [hc.built, ← allRows_length wh pl.cfg h, ← hc.rows, List.length_append]
  refine ⟨h.windows.length, ?_, ?_⟩
  · rw [hc.sent, List.length_flatMap, List.map_congr_left fun w _ => windowSymbols_length pl.cfg w]
    show Tally.weigh _ _ = _
    rw [Tally.weigh_const, Nat.mul_comm]
  · have hne : h.windows.length ≤ h.windows.flatten.length := by
      rw [List.length_flatten]
      show _ ≤ Tally.weigh List.length h.windows
      rw [← Nat.one_mul h.windows.length, ← Tally.weigh_const]
      refine List.sum_le_sum fun w hw => ?_
      exact List.length_pos_iff.mpr (hc.windows w hw).1
    omega

/-- **The blocks of a run**: their symbols are the symbols of its rows. -/
theorem sent_blocks (hi : RunInv wh pl) (hlt : pl.blocksBuilt < 2 ^ 32) :
    (∀ j i, j < pl.blocksBuilt → i < pl.cfg.k + pl.cfg.m →
      (pl.sent ++ waitingSymbols pl.interleaver).countP (isSymbol (blockIdOf j) i) = 1) ∧
    pl.sent.countP ofABlock + (pl.cfg.k + pl.cfg.m) * pl.interleaver.windowBlockCount
      = (pl.cfg.k + pl.cfg.m) * pl.blocksBuilt := by
  obtain ⟨h, hr⟩ := hi.hist
  have hc := hr.core
  have hrows : h.windows.flatten.length + h.rows.length = pl.blocksBuilt := by
    rw [hc.built, ← allRows_length wh pl.cfg h, ← hc.rows, List.length_append]
  obtain ⟨hw, hkey⟩ := hc.windows_ok hlt
  constructor
  · intro j i hj hic
    rw [hc.built] at hj hlt
    have hid : blockIdOf j ≠ 0 := by
      intro hz
      have hnat := blockIdOf_toNat (j := j) (by omega)
      rw [hz] at hnat
      exact absurd hnat (Nat.succ_ne_zero j).symm
    have hpad : ∀ s : Symbol, s.packetId = 0 → isSymbol (blockIdOf j) i s = false := by
      intro s hs
      rw [isSymbol, hs, beq_eq_false_iff_ne.mpr hid.symm, Bool.false_and]
    rw [List.countP_append, sent_countP hc hi.cfg.depth hpad, waiting_countP hc fun s => rfl,
      ← Tally.weigh_append, hc.rows, Tally.weigh_congr fun row hrow =>
        (allRows_uniform hrow).count_isSymbol hi.cfg.length hic (blockIdOf j),
      Tally.weigh_toNat]
    exact allRows_count wh pl.cfg hlt hj
  · have hpad : ∀ s : Symbol, s.packetId = 0 → ofABlock s = false := by
      intro s hs
      rw [ofABlock, hs]
      rfl
    rw [sent_countP hc hi.cfg.depth hpad, Tally.weigh_congr fun row hrow =>
      (hw.uniform row hrow).count_ofABlock (hkey row hrow), Tally.weigh_const,
      hc.holds.windowCount, ← Nat.mul_add, hrows]

end Run

/-- **The accounts of the transmitter agree** with what it did, whichever sends
    fail, and however its calls are interleaved with those of the receiver. -/
theorem tx_accounts_agree (wh : Wirehair) (clk : Nat → Nat) (mem : Nat → Nat → Symbol)
    (lanMac : List UInt8) (cfg : Config) (tx0 : TxPipeline)
    (hcreate : txPipelineCreate mem lanMac cfg = some tx0) (hm : 1 ≤ cfg.m)
    (hss : cfg.symbolSize ≤ maxSymbolDataSize)
    (hwh : Encodes wh.encoding cfg.k (cfg.k + cfg.m) cfg.symbolSize)
    (evs : List TxEvent) (ok : Nat → Bool) (s0 : StatsAtomicContainer) (span : Nat)
    (log : List StatsCall)
    (hlog : log.filter (fun c => !c.isRx) = txCountedRun wh clk ok evs tx0) :
    TxAgrees (txRun wh clk evs tx0).2 (ingressFrames wh clk evs tx0) ok
      (runStats (statsStart s0 span) log) := by
  obtain ⟨hi, hcfg, hacc, hmax⟩ := runInv_create hcreate hm hss hwh
  obtain ⟨-, hi', hcfg'⟩ := runInv_run clk evs hi
  have hsent : tx0.sent = [] := by
    obtain ⟨-, -, -, -, builder, fec, il, -, -, -, rfl⟩ := txPipelineCreate_some hcreate
    rfl
  have hcounters := txCounters_interleaved log s0 span
  have htransmitted := txCountedRun_transmitted wh clk ok evs tx0
  rw [hsent, transmitCalls, List.nil_append, transmitCalls_transmitted] at htransmitted
  rw [hlog, countTx, txCountedRun_ingress, htransmitted] at hcounters
  refine ⟨?_, ?_, ?_, ?_, ?_, sent_windows hi', sent_blocks hi'⟩
  · have h := congrArg TxCounters.ingressPackets hcounters
    exact h.trans (List.length_map _)
  · exact congrArg TxCounters.ingressBytes hcounters
  · have h := run_accepts clk evs hi (hmax.trans (by rw [hcfg]; rfl))
    rw [hacc, List.nil_append] at h
    rw [hcfg']
    exact h
  · have h := congrArg TxCounters.transmittedPackets hcounters
    exact h.trans (List.length_map _)
  · exact congrArg TxCounters.transmittedBytes hcounters

/-- Two frames and three polls, 3 ms apart; the first send fails. -/
def twoFrames : List TxEvent :=
  [.frame [1, 2, 3] false, .frame [4, 5, 6, 7, 8] false, .idle, .idle, .idle]

/-- `tx_accounts_agree` on that run: of the twelve symbols of two windows,
    eleven are transmitted. -/
theorem tx_accounts_agree_smallLink :
    let clk := fun t => t * 3000000
    let ok := fun i => i != 0
    let tx := (txRun parity clk twoFrames smallPipeline).2
    TxAgrees tx (ingressFrames parity clk twoFrames smallPipeline) ok
        (runStats (statsStart statsZero 2)
          (txCountedRun parity clk ok twoFrames smallPipeline)) ∧
      (transmittedFrames ok tx).length = 11 :=
  ⟨tx_accounts_agree parity (fun t => t * 3000000) (fun _ _ => symbolInit) [] smallLink
    smallPipeline (Option.some_get _).symm (by decide) (by decide)
    ((parity_recovers 4).systematic (by decide)).toEncodes twoFrames (fun i => i != 0) statsZero
    2 _ (txCountedRun_isTx ..), by decide +kernel⟩

end FsoTxPipeline
