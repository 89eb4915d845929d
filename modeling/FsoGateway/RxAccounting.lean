import FsoGateway.Lib.Tally
import FsoGateway.PipelineStats
import FsoGateway.RxDrain

/-! # What the receiver counts

    Every block that is drained is counted by `stats.c`, by `hw_stats.c` and by
    the deinterleaver, and every group of fragments that is flushed by the
    first two.  `countedRun` lists the blocks and the CRC drops of a run, in
    order; the calls are read off it.

    * `countedRun_drained` — the blocks counted are the blocks drained;
    * `blockFlushes_kept` — the groups flushed for a block are its fragments;
    * `runStats_callsOf`, `runHw_callsOf` — what the counters are after the
      calls of any run. -/

namespace FsoRxPipeline

open ByteBuffer FsoTypes FecWrapper FsoDeinterleaver PacketReassembler FsoStats FsoHwStats

/-! ## Flushed groups -/

/-- The groups that `addToGroup` flushes, at most one before the symbol is
    added and one after. -/
def addFlushes (w : Walk) (sym : Symbol) : List (List Symbol) :=
  let before :=
    if w.group ≠ [] ∧ (isComplete w.group ∨ sym.symbolIndex = 0) then [w.group] else []
  let w := flushBefore w sym
  let w :=
    if w.group.length < maxSymbolsPerBlock then { w with group := w.group ++ [sym] } else w
  before ++ if isComplete w.group then [w.group] else []

/-- The groups that `walkStep` flushes. -/
def walkStepFlushes (cfg : Config) (symbols : Nat → Symbol) (recon : Buffer) (w : Walk)
    (i : Nat) : List (List Symbol) :=
  if isSkipped cfg.k (symbols i) then []
  else addFlushes w (reconstruct cfg.symbolSize symbols recon i)

/-- The groups flushed on the walk over some positions. -/
def walkFlushes (cfg : Config) (symbols : Nat → Symbol) (recon : Buffer) :
    Walk → List Nat → List (List Symbol)
  | _, [] => []
  | w, i :: rest =>
      walkStepFlushes cfg symbols recon w i ++
        walkFlushes cfg symbols recon (walkStep cfg symbols recon w i) rest

/-- The groups flushed for a decoded block. -/
def blockFlushes (cfg : Config) (symbols : Nat → Symbol) (recon : Buffer) :
    List (List Symbol) :=
  let w := walkSymbols cfg symbols recon cfg.k
  walkFlushes cfg symbols recon ⟨[], []⟩ (List.range cfg.k) ++
    if w.group = [] then [] else [w.group]

/-! ## Calls -/

/-- `block_holes`. -/
def blockHoles (blk : Block) : Nat :=
  if blk.symbolCount < blk.symbolsPerBlock then blk.symbolsPerBlock - blk.symbolCount else 0

/-- The code of a decode that failed. -/
def failedRc (rc : Int) : Bool := rc == fecDecodeTooManyHoles || rc == fecDecodeErr

theorem failedRc_iff (d : FecDecoded) : failedRc d.rc = true ↔ decodeFails d := by
  rw [failedRc, decodeFails, Bool.or_eq_true, beq_iff_eq, beq_iff_eq]

/-- One turn of the loop of `drain_ready_blocks`: the block, what the decoder
    returned, and the groups that were flushed; none are if it failed. -/
structure BlockTurn where
  blk : Block
  rc : Int
  flushes : List (List Symbol)
  silent : failedRc rc = true → flushes = []

/-- What is counted for a flushed group. -/
def flushCalls (group : List Symbol) : List StatsCall :=
  let r := reassemblePacket group (fun _ => 0) reassemBufSize
  if 0 < r.1 then [.incRecovered r.1.toNat, .hwPacketRecovered]
  else [.incFailedPacket, .hwPacketFailed]

/-- What is counted for a block. -/
def BlockTurn.calls (t : BlockTurn) : List StatsCall :=
  let holes := blockHoles t.blk
  [.incBlockAttempt, .addSymbols t.blk.symbolsPerBlock holes, .recordBlock holes] ++
    if failedRc t.rc then [.incBlockFailure, .hwBlockFailed, .hwRecordBlockHoles holes]
    else
      [.incBlockSuccess, .hwBlockSuccess, .hwRecordBlockHoles holes] ++
        t.flushes.flatMap flushCalls

theorem ite_decodeFails {α : Type} {d : FecDecoded} (x y : α) (h : failedRc d.rc = true) :
    (if decodeFails d then x else y) = x := if_pos ((failedRc_iff d).mp h)

/-- The turn of the loop that drains a block. -/
def blockTurn (wh : Wirehair) (pl : RxPipeline) (blk : Block) : BlockTurn where
  blk := blk
  rc := (decoded wh pl blk).rc
  flushes :=
    if decodeFails (decoded wh pl blk) then []
    else blockFlushes pl.cfg blk.symbols (decoded wh pl blk).outReconstructed
  silent := ite_decodeFails _ _

/-- The record that the pipeline keeps of the turn. -/
def BlockTurn.drained (t : BlockTurn) : Drained := ⟨t.blk, t.rc, t.flushes.flatMap reassembled⟩

/-- The turns of `drainLoop`. -/
def drainTurns (wh : Wirehair) : Nat → RxPipeline → List BlockTurn
  | 0, _ => []
  | fuel + 1, pl =>
      let r := deinterleaverGetReadyBlock pl.dil
      match r.1 with
      | none => []
      | some blk =>
          blockTurn wh { pl with dil := r.2 } blk ::
            drainTurns wh fuel (drainBlock wh { pl with dil := r.2 } blk)

/-- What a call of `rx_pipeline_run_once` counts. -/
inductive Counted where
  | crcDrop
  | block (t : BlockTurn)

/-- The blocks that `drain_ready_blocks` counts. -/
def readyCounted (wh : Wirehair) (pl : RxPipeline) : List Counted :=
  (drainTurns wh (deinterleaverReadyCount pl.dil) pl).map .block

/-- What a call counts. -/
def countedOnce (wh : Wirehair) (pl : RxPipeline) (call : RxCall) : List Counted :=
  let pl := ticked pl call
  match call.event with
  | .idle => readyCounted wh pl
  | .error => []
  | .frame wire =>
      match parseFrame pl.cfg (wire.take rxWireBufSize) with
      | .dropped => []
      | .crcFail => [.crcDrop]
      | .symbol sym =>
          readyCounted wh (withDil pl (deinterleaverPushSymbol pl.dil sym call.pushNow).2)

/-- What a run counts. -/
def countedRun (wh : Wirehair) : List RxCall → RxPipeline → List Counted
  | [], _ => []
  | call :: calls, pl =>
      countedOnce wh pl call ++ countedRun wh calls (rxPipelineRunOnce wh pl call)

/-- The counting calls, in order. -/
def Counted.calls : Counted → List StatsCall
  | .crcDrop => [.incCrcDropSymbol]
  | .block t => t.calls

/-- The blocks among what was counted. -/
def turnsOf (l : List Counted) : List BlockTurn :=
  l.filterMap fun
    | .crcDrop => none
    | .block t => some t

/-! ## Flushes -/

theorem flushGroup_frames (w : Walk) :
    (flushGroup w).frames = w.frames ++ [w.group].flatMap reassembled :=
  congrArg (w.frames ++ ·) (List.append_nil _).symm

/-- The frames that `addToGroup` sends are those of the groups it flushes. -/
theorem addToGroup_frames (w : Walk) (sym : Symbol) :
    (addToGroup w sym).frames = w.frames ++ (addFlushes w sym).flatMap reassembled := by
  rw [addToGroup, addFlushes]
  have hbefore : (flushBefore w sym).frames = w.frames ++
      (if w.group ≠ [] ∧ (isComplete w.group ∨ sym.symbolIndex = 0) then [w.group]
        else []).flatMap reassembled := by
    rw [flushBefore]
    split
    · exact flushGroup_frames w
    · exact (List.append_nil _).symm
  generalize flushBefore w sym = w1 at hbefore ⊢
  have hadd : (if w1.group.length < maxSymbolsPerBlock then
      { w1 with group := w1.group ++ [sym] } else w1).frames = w1.frames := by
    split <;> rfl
  generalize (if w1.group.length < maxSymbolsPerBlock then
      { w1 with group := w1.group ++ [sym] } else w1) = w2 at hadd ⊢
  rw [List.flatMap_append, ← List.append_assoc, ← hbefore, ← hadd]
  split
  · exact flushGroup_frames w2
  · exact (List.append_nil _).symm

/-- As long as there is room for it, a symbol is in the group or was flushed
    with one. -/
theorem addToGroup_kept {w : Walk} (sym : Symbol) (h : w.group.length < maxSymbolsPerBlock) :
    (addFlushes w sym).flatten ++ (addToGroup w sym).group = w.group ++ [sym] := by
  rw [addToGroup, addFlushes]
  have hbefore : (if w.group ≠ [] ∧ (isComplete w.group ∨ sym.symbolIndex = 0) then [w.group]
      else []).flatten ++ (flushBefore w sym).group = w.group := by
    rw [flushBefore]
    split
    · rw [flushGroup, List.append_nil]
      exact List.append_nil _
    · rfl
  have hroom : (flushBefore w sym).group.length < maxSymbolsPerBlock := by
    rw [flushBefore]
    split
    · exact Nat.lt_of_le_of_lt (Nat.zero_le _) h
    · exact h
  generalize flushBefore w sym = w1 at hbefore hroom ⊢
  rw [if_pos hroom, List.flatten_append, List.append_assoc]
  conv_rhs => rw [← hbefore, List.append_assoc]
  congr 1
  split
  · rw [flushGroup, List.append_nil]
    exact List.append_nil _
  · rfl

/-- A group that is flushed is not empty. -/
theorem addFlushes_ne_nil {w : Walk} {sym : Symbol} {g : List Symbol}
    (h : g ∈ addFlushes w sym) : g ≠ [] := by
  rw [addFlushes] at h
  generalize (if (flushBefore w sym).group.length < maxSymbolsPerBlock then
    { flushBefore w sym with group := (flushBefore w sym).group ++ [sym] }
    else flushBefore w sym) = w2 at h
  rcases List.mem_append.mp h with h | h
  · split at h
    · rename_i hne
      rw [List.mem_singleton.mp h]
      exact hne.1
    · exact absurd h List.not_mem_nil
  · split at h
    · rename_i hc
      rw [List.mem_singleton.mp h]
      intro hnil
      rw [hnil] at hc
      exact Bool.false_ne_true hc
    · exact absurd h List.not_mem_nil

section Walks

variable (cfg : Config) (symbols : Nat → Symbol) (recon : Buffer)

theorem walkFlushes_frames (l : List Nat) (w : Walk) :
    (l.foldl (walkStep cfg symbols recon) w).frames
      = w.frames ++ (walkFlushes cfg symbols recon w l).flatMap reassembled := by
  induction l generalizing w with
  | nil => exact (List.append_nil _).symm
  | cons i l ih =>
      rw [List.foldl_cons, ih, walkFlushes, List.flatMap_append, ← List.append_assoc]
      congr 1
      rw [walkStep, walkStepFlushes]
      split
      · exact (List.append_nil _).symm
      · exact addToGroup_frames w _

/-- The fragments of a block, in the order of the walk. -/
def collected (l : List Nat) : List Symbol :=
  (l.filter fun i => !isSkipped cfg.k (symbols i)).map (reconstruct cfg.symbolSize symbols recon)

/-- Every fragment is in the last group, or in one that was flushed. -/
theorem walkFlushes_kept (l : List Nat) {w : Walk}
    (h : w.group.length + l.length ≤ maxSymbolsPerBlock) :
    (walkFlushes cfg symbols recon w l).flatten
        ++ (l.foldl (walkStep cfg symbols recon) w).group
      = w.group ++ collected cfg symbols recon l := by
  induction l generalizing w with
  | nil => exact (List.append_nil _).symm
  | cons i l ih =>
      rw [List.length_cons] at h
      rw [List.foldl_cons, walkFlushes, List.flatten_append, List.append_assoc, collected,
        walkStep, walkStepFlushes]
      by_cases hs : isSkipped cfg.k (symbols i) = true
      · rw [if_pos hs, if_pos hs, List.filter_cons_of_neg (by rw [hs]; decide)]
        exact ih (by omega)
      · have hkept := addToGroup_kept (reconstruct cfg.symbolSize symbols recon i)
          (w := w) (by omega)
        have hlen := congrArg List.length hkept
        rw [List.length_append, List.length_append, List.length_singleton] at hlen
        rw [if_neg hs, if_neg hs, ih (by omega), ← List.append_assoc, hkept,
          List.filter_cons_of_pos (by rw [Bool.not_eq_true] at hs; rw [hs]; rfl),
          List.map_cons, List.append_assoc]
        rfl

theorem walkFlushes_ne_nil {l : List Nat} {w : Walk} {g : List Symbol}
    (h : g ∈ walkFlushes cfg symbols recon w l) : g ≠ [] := by
  induction l generalizing w with
  | nil => exact absurd h List.not_mem_nil
  | cons i l ih =>
      rw [walkFlushes] at h
      rcases List.mem_append.mp h with h | h
      · rw [walkStepFlushes] at h
        split at h
        · exact absurd h List.not_mem_nil
        · exact addFlushes_ne_nil h
      · exact ih h

/-- **The frames of a block** are those of the groups flushed for it. -/
theorem blockFlushes_frames :
    blockFrames cfg symbols recon
      = (blockFlushes cfg symbols recon).flatMap reassembled := by
  have hwalk := walkFlushes_frames cfg symbols recon (List.range cfg.k) ⟨[], []⟩
  rw [List.nil_append] at hwalk
  rw [blockFrames, blockFlushes, walkSymbols]
  rw [List.flatMap_append, ← hwalk]
  split
  · exact (List.append_nil _).symm
  · exact flushGroup_frames _

/-- **The groups of a block** are its fragments, cut into pieces. -/
theorem blockFlushes_kept (h : cfg.k ≤ maxSymbolsPerBlock) :
    (blockFlushes cfg symbols recon).flatten
      = collected cfg symbols recon (List.range cfg.k) := by
  have hwalk := walkFlushes_kept cfg symbols recon (List.range cfg.k) (w := ⟨[], []⟩)
    (by rw [List.length_range]; exact (Nat.zero_add _).trans_le h)
  rw [List.nil_append] at hwalk
  rw [← hwalk, blockFlushes, walkSymbols, List.flatten_append]
  congr 1
  split
  · rename_i hnil
    rw [hnil]
    rfl
  · exact List.append_nil _

theorem blockFlushes_ne_nil {g : List Symbol} (h : g ∈ blockFlushes cfg symbols recon) :
    g ≠ [] := by
  rw [blockFlushes] at h
  rcases List.mem_append.mp h with h | h
  · exact walkFlushes_ne_nil cfg symbols recon h
  · split at h
    · exact absurd h List.not_mem_nil
    · rename_i hne
      rw [List.mem_singleton.mp h]
      exact hne

end Walks

/-! ## What was drained -/

theorem blockTurn_drained (wh : Wirehair) (pl : RxPipeline) (blk : Block) :
    (blockTurn wh pl blk).drained = drainedOf wh pl blk := by
  have hflushes : (blockTurn wh pl blk).flushes = if decodeFails (decoded wh pl blk) then []
      else blockFlushes pl.cfg blk.symbols (decoded wh pl blk).outReconstructed := rfl
  rw [BlockTurn.drained, drainedOf, hflushes, blockFlushes_frames]
  congr 1
  by_cases hf : decodeFails (decoded wh pl blk)
  · rw [if_pos hf, if_pos hf]
    rfl
  · rw [if_neg hf, if_neg hf]

theorem drainBlock_drained (wh : Wirehair) (pl : RxPipeline) (blk : Block) :
    (drainBlock wh pl blk).drained = pl.drained ++ [(blockTurn wh pl blk).drained] := by
  rw [blockTurn_drained, drainedOf, drainBlock]
  show (if decodeFails (decoded wh pl blk) then _ else _ : RxPipeline).drained = _
  by_cases hf : decodeFails (decoded wh pl blk)
  · rw [if_pos hf, if_pos hf]
    rfl
  · rw [if_neg hf, if_neg hf]
    rfl

theorem drainTurns_drained (wh : Wirehair) (fuel : Nat) (pl : RxPipeline) :
    (drainLoop wh fuel pl).drained
      = pl.drained ++ (drainTurns wh fuel pl).map BlockTurn.drained := by
  induction fuel generalizing pl with
  | zero => exact (List.append_nil _).symm
  | succ fuel ih =>
      rw [drainLoop, drainTurns]
      cases (deinterleaverGetReadyBlock pl.dil).1 with
      | none => exact (List.append_nil _).symm
      | some blk =>
          dsimp only
          rw [ih, drainBlock_drained, List.map_cons, List.append_assoc]
          rfl

theorem turnsOf_map (l : List BlockTurn) : turnsOf (l.map .block) = l := by
  rw [turnsOf, List.filterMap_map]
  exact List.filterMap_some

theorem turnsOf_append (l l' : List Counted) : turnsOf (l ++ l') = turnsOf l ++ turnsOf l' :=
  List.filterMap_append

section Once

variable {wh : Wirehair} {pl : RxPipeline} {call : RxCall} {wire : List UInt8}

theorem countedOnce_idle (he : call.event = .idle) :
    countedOnce wh pl call = readyCounted wh (ticked pl call) := by
  rw [countedOnce, he]

theorem countedOnce_error (he : call.event = .error) : countedOnce wh pl call = [] := by
  rw [countedOnce, he]

theorem countedOnce_dropped (he : call.event = .frame wire)
    (hf : parseFrame pl.cfg (wire.take rxWireBufSize) = .dropped) :
    countedOnce wh pl call = [] := by
  have hf' : parseFrame (ticked pl call).cfg (wire.take rxWireBufSize) = .dropped := hf
  rw [countedOnce, he]
  dsimp only
  rw [hf']

theorem countedOnce_crcFail (he : call.event = .frame wire)
    (hf : parseFrame pl.cfg (wire.take rxWireBufSize) = .crcFail) :
    countedOnce wh pl call = [.crcDrop] := by
  have hf' : parseFrame (ticked pl call).cfg (wire.take rxWireBufSize) = .crcFail := hf
  rw [countedOnce, he]
  dsimp only
  rw [hf']

theorem countedOnce_symbol {sym : Symbol} (he : call.event = .frame wire)
    (hf : parseFrame pl.cfg (wire.take rxWireBufSize) = .symbol sym) :
    countedOnce wh pl call = readyCounted wh (withDil (ticked pl call)
      (deinterleaverPushSymbol (ticked pl call).dil sym call.pushNow).2) := by
  have hf' : parseFrame (ticked pl call).cfg (wire.take rxWireBufSize) = .symbol sym := hf
  rw [countedOnce, he]
  dsimp only
  rw [hf']

/-- The blocks that a call counts are those it drains. -/
theorem countedOnce_drained (wh : Wirehair) (pl : RxPipeline) (call : RxCall) :
    (rxPipelineRunOnce wh pl call).drained
      = pl.drained ++ (turnsOf (countedOnce wh pl call)).map BlockTurn.drained := by
  have hready : ∀ pl' : RxPipeline, pl'.drained = pl.drained →
      (drainReadyBlocks wh pl').drained
        = pl.drained ++ (turnsOf (readyCounted wh pl')).map BlockTurn.drained := by
    intro pl' h
    rw [drainReadyBlocks, drainTurns_drained, h, readyCounted, turnsOf_map]
  cases he : call.event with
  | idle =>
      rw [runOnce_idle he, countedOnce_idle he]
      exact hready _ rfl
  | error =>
      rw [runOnce_error he, countedOnce_error he]
      exact (List.append_nil _).symm
  | frame wire =>
      cases hf : parseFrame pl.cfg (wire.take rxWireBufSize) with
      | dropped =>
          rw [runOnce_dropped he hf, countedOnce_dropped he hf]
          exact (List.append_nil _).symm
      | crcFail =>
          rw [runOnce_crcFail he hf, countedOnce_crcFail he hf]
          exact (List.append_nil _).symm
      | symbol sym =>
          rw [runOnce_symbol he hf, countedOnce_symbol he hf]
          exact hready _ rfl

end Once

/-- **What a run counts** is what it drains. -/
theorem countedRun_drained (wh : Wirehair) (calls : List RxCall) (pl : RxPipeline) :
    (rxRun wh calls pl).drained
      = pl.drained ++ (turnsOf (countedRun wh calls pl)).map BlockTurn.drained := by
  induction calls generalizing pl with
  | nil => exact (List.append_nil _).symm
  | cons call calls ih =>
      rw [countedRun, turnsOf_append, List.map_append, ← List.append_assoc,
        ← countedOnce_drained]
      exact ih _

/-! ## What the calls add -/

theorem runStats_append (s : StatsAtomicContainer) (l l' : List StatsCall) :
    runStats s (l ++ l') = runStats (runStats s l) l' := List.foldl_append

theorem runHw_append (s : HwStats) (l l' : List StatsCall) :
    runHw s (l ++ l') = runHw (runHw s l) l' := List.foldl_append

/-- The bytes of some frames. -/
def byteCount (frames : List (List UInt8)) : Nat := Tally.weigh List.length frames

/-- The groups that cannot be reassembled. -/
def lostGroups (gs : List (List Symbol)) : Nat := gs.countP fun g => (reassembled g).isEmpty

theorem lostGroups_cons (g : List Symbol) (gs : List (List Symbol)) :
    lostGroups (g :: gs) = lostGroups gs + if (reassembled g).isEmpty then 1 else 0 :=
  List.countP_cons

/-- A flush is counted for the frame it sends, or as a failure. -/
theorem flushCalls_cases (g : List Symbol) :
    (∃ frame, reassembled g = [frame] ∧
        flushCalls g = [.incRecovered frame.length, .hwPacketRecovered]) ∨
      reassembled g = [] ∧ flushCalls g = [.incFailedPacket, .hwPacketFailed] := by
  rw [reassembled, flushCalls]
  generalize reassemblePacket g (fun _ => 0) reassemBufSize = r
  by_cases h : 0 < r.1
  · refine .inl ⟨bytes r.2 r.1.toNat, if_pos h, ?_⟩
    rw [bytes_length]
    exact if_pos h
  · exact .inr ⟨if_neg h, if_neg h⟩

theorem runStats_flushes (gs : List (List Symbol)) (s : StatsAtomicContainer) :
    runStats s (gs.flatMap flushCalls) =
      { s with
        recoveredPackets := s.recoveredPackets + (gs.flatMap reassembled).length
        recoveredBytes := s.recoveredBytes + byteCount (gs.flatMap reassembled)
        failedPackets := s.failedPackets + lostGroups gs } := by
  induction gs generalizing s with
  | nil => rfl
  | cons g gs ih =>
      rw [List.flatMap_cons, List.flatMap_cons, runStats_append, ih, lostGroups_cons]
      obtain ⟨frame, hr, hc⟩ | ⟨hr, hc⟩ := flushCalls_cases g
      · rw [hr, hc]
        simp [runStats, statsStep, statsIncRecovered, byteCount, Nat.add_assoc,
          Nat.add_comm]
      · rw [hr, hc]
        simp [runStats, statsStep, statsIncFailedPacket, byteCount, Nat.add_comm,
          Nat.add_left_comm]

theorem runHw_flushes (gs : List (List Symbol)) (s : HwStats) :
    runHw s (gs.flatMap flushCalls) =
      { s with
        counters := { s.counters with
          packetsRecovered := s.counters.packetsRecovered + (gs.flatMap reassembled).length
          packetsFailed := s.counters.packetsFailed + lostGroups gs } } := by
  induction gs generalizing s with
  | nil => rfl
  | cons g gs ih =>
      rw [List.flatMap_cons, List.flatMap_cons, runHw_append, ih, lostGroups_cons]
      obtain ⟨frame, hr, hc⟩ | ⟨hr, hc⟩ := flushCalls_cases g
      · rw [hr, hc]
        simp [runHw, hwStep, hwStatsPacketRecovered, Nat.add_assoc, Nat.add_comm]
      · rw [hr, hc]
        simp [runHw, hwStep, hwStatsPacketFailed, Nat.add_comm, Nat.add_left_comm]

/-- What is not counted among the holes arrived. -/
theorem blockHoles_eq (blk : Block) :
    blockHoles blk = blk.symbolsPerBlock - blk.symbolCount := by
  rw [blockHoles]
  split <;> omega

/-- The frames of a turn. -/
def BlockTurn.frames (t : BlockTurn) : List (List UInt8) := t.flushes.flatMap reassembled

/-- Has the block holes? -/
def BlockTurn.lossy (t : BlockTurn) : Bool := blockHoles t.blk != 0

/-- **What the calls for one block add** to the global counters. -/
theorem runStats_turn (t : BlockTurn) (s : StatsAtomicContainer) :
    runStats s t.calls =
      { s with
        totalSymbols := s.totalSymbols + t.blk.symbolsPerBlock
        lostSymbols := s.lostSymbols + blockHoles t.blk
        recoveredPackets := s.recoveredPackets + t.frames.length
        recoveredBytes := s.recoveredBytes + byteCount t.frames
        failedPackets := s.failedPackets + lostGroups t.flushes
        blocksAttempted := s.blocksAttempted + 1
        blocksRecovered := s.blocksRecovered + (!failedRc t.rc).toNat
        blocksFailed := s.blocksFailed + (failedRc t.rc).toNat
        blocksWithLoss := s.blocksWithLoss + t.lossy.toNat
        worstHolesInBlock := max s.worstHolesInBlock (blockHoles t.blk)
        totalHolesInBlocks := s.totalHolesInBlocks + blockHoles t.blk } := by
  have hsymbols : ∀ s : StatsAtomicContainer,
      statsAddSymbols s t.blk.symbolsPerBlock (blockHoles t.blk) =
        { s with
          totalSymbols := s.totalSymbols + t.blk.symbolsPerBlock
          lostSymbols := s.lostSymbols + blockHoles t.blk } := by
    intro s
    rw [statsAddSymbols]
    congr 2 <;> split <;> omega
  have hblock : ∀ s : StatsAtomicContainer,
      statsRecordBlock s (blockHoles t.blk) =
        { s with
          blocksWithLoss := s.blocksWithLoss + t.lossy.toNat
          worstHolesInBlock := max s.worstHolesInBlock (blockHoles t.blk)
          totalHolesInBlocks := s.totalHolesInBlocks + blockHoles t.blk } := by
    intro s
    rw [statsRecordBlock, BlockTurn.lossy]
    split
    · rename_i h
      rw [h, Nat.max_zero]
      rfl
    · rename_i h
      rw [statsUpdateMax_eq, bne_iff_ne.mpr h]
      rfl
  rw [BlockTurn.calls, runStats_append]
  generalize hs1 : runStats s _ = s1
  have h1 : s1 = statsRecordBlock (statsAddSymbols (statsIncBlockAttempt s)
      t.blk.symbolsPerBlock (blockHoles t.blk)) (blockHoles t.blk) := hs1.symm
  rw [hsymbols, hblock, statsIncBlockAttempt] at h1
  rw [h1, BlockTurn.frames]
  cases hf : failedRc t.rc with
  | true =>
      rw [if_pos rfl, t.silent hf]
      rfl
  | false =>
      rw [if_neg Bool.false_ne_true, runStats_append, runStats_flushes]
      rfl

theorem recordBlockHoles_counters (s : HwStats) (c : HwCounters) (holes : Int) :
    hwStatsRecordBlockHoles { s with counters := c } holes
      = { hwStatsRecordBlockHoles s holes with counters := c } := by
  rw [hwStatsRecordBlockHoles, hwStatsRecordBlockHoles]
  split
  · rfl
  · split
    · rfl
    · split <;> rfl

/-- **What the calls for one block add** to the counters behind the handle. -/
theorem runHw_turn (t : BlockTurn) (s : HwStats) :
    runHw s t.calls =
      { hwStatsRecordBlockHoles s (blockHoles t.blk) with
        counters := { s.counters with
          blocksAttempted := s.counters.blocksAttempted + 1
          blocksDecodeSuccess := s.counters.blocksDecodeSuccess + (!failedRc t.rc).toNat
          blocksDecodeFailed := s.counters.blocksDecodeFailed + (failedRc t.rc).toNat
          packetsRecovered := s.counters.packetsRecovered + t.frames.length
          packetsFailed := s.counters.packetsFailed + lostGroups t.flushes } } := by
  rw [BlockTurn.calls, runHw_append, BlockTurn.frames]
  show runHw s _ = _
  cases hf : failedRc t.rc with
  | true =>
      rw [if_pos rfl, t.silent hf]
      exact recordBlockHoles_counters s (hwStatsBlockFailed s).counters (blockHoles t.blk)
  | false =>
      rw [if_neg Bool.false_ne_true, runHw_append, runHw_flushes]
      have h := recordBlockHoles_counters s (hwStatsBlockSuccess s).counters (blockHoles t.blk)
      have h1 : runHw s [.incBlockSuccess, .hwBlockSuccess,
          .hwRecordBlockHoles (blockHoles t.blk)]
          = { hwStatsRecordBlockHoles s (blockHoles t.blk) with
              counters := (hwStatsBlockSuccess s).counters } := h
      rw [h1]
      rfl

/-! ## What a run adds -/

/-- Is it a CRC drop? -/
def Counted.isCrcDrop : Counted → Bool
  | .crcDrop => true
  | .block _ => false

/-- The CRC drops among what was counted. -/
def crcDrops (l : List Counted) : Nat := l.countP Counted.isCrcDrop

/-- The calls for what was counted. -/
def callsOf (l : List Counted) : List StatsCall := l.flatMap Counted.calls

/-- The frames sent for some blocks. -/
def framesOf (ts : List BlockTurn) : List (List UInt8) := ts.flatMap BlockTurn.frames

/-- The groups flushed for some blocks. -/
def flushesOf (ts : List BlockTurn) : List (List Symbol) := ts.flatMap BlockTurn.flushes

/-- Did the decoder give the block back? -/
def BlockTurn.failed (t : BlockTurn) : Bool := failedRc t.rc

/-- The holes of a turn. -/
def BlockTurn.holes (t : BlockTurn) : Nat := blockHoles t.blk

theorem turnsOf_crcDrop (l : List Counted) : turnsOf (.crcDrop :: l) = turnsOf l := rfl

theorem turnsOf_block (t : BlockTurn) (l : List Counted) :
    turnsOf (.block t :: l) = t :: turnsOf l := rfl

/-- **The global counters** after what was counted. -/
theorem runStats_callsOf (l : List Counted) (s : StatsAtomicContainer) :
    runStats s (callsOf l) =
      { s with
        totalSymbols := s.totalSymbols + Tally.weigh (·.blk.symbolsPerBlock) (turnsOf l)
        lostSymbols := s.lostSymbols + Tally.weigh BlockTurn.holes (turnsOf l)
        recoveredPackets := s.recoveredPackets + (framesOf (turnsOf l)).length
        recoveredBytes := s.recoveredBytes + byteCount (framesOf (turnsOf l))
        failedPackets := s.failedPackets + lostGroups (flushesOf (turnsOf l))
        symbolsDroppedCrc := s.symbolsDroppedCrc + crcDrops l
        blocksAttempted := s.blocksAttempted + (turnsOf l).length
        blocksRecovered := s.blocksRecovered + (turnsOf l).countP (!·.failed)
        blocksFailed := s.blocksFailed + (turnsOf l).countP (·.failed)
        blocksWithLoss := s.blocksWithLoss + (turnsOf l).countP (·.lossy)
        worstHolesInBlock :=
          max s.worstHolesInBlock (Tally.heaviest BlockTurn.holes (turnsOf l))
        totalHolesInBlocks := s.totalHolesInBlocks + Tally.weigh BlockTurn.holes (turnsOf l) }
    := by
  induction l generalizing s with
  | nil =>
      show s = _
      rw [show turnsOf [] = [] from rfl, Tally.heaviest_nil, Nat.max_zero]
      rfl
  | cons c l ih =>
      rw [callsOf, List.flatMap_cons, runStats_append]
      cases c with
      | crcDrop =>
          rw [turnsOf_crcDrop, crcDrops, List.countP_cons_of_pos rfl]
          have h := ih (statsIncCrcDropSymbol s)
          rw [callsOf] at h
          refine h.trans ?_
          rw [statsIncCrcDropSymbol, Nat.add_right_comm, Nat.add_assoc]
          rfl
      | block t =>
          rw [turnsOf_block, crcDrops, List.countP_cons_of_neg Bool.false_ne_true]
          show runStats (runStats s t.calls) _ = _
          rw [runStats_turn]
          refine (ih _).trans ?_
          simp only [Tally.weigh_cons, Tally.heaviest_cons, Tally.countP_cons, framesOf,
            flushesOf, List.flatMap_cons, List.length_append, List.length_cons, byteCount,
            Tally.weigh_append, lostGroups, List.countP_append, Nat.max_assoc, Nat.add_assoc,
            Nat.add_comm 1]
          rfl

/-- The calls of `hw_stats_record_block_holes`. -/
def holesCalls (ts : List BlockTurn) : List FsoHwStats.Call :=
  ts.map fun t => .recordBlockHoles t.holes

/-- **The counters behind the handle** after what was counted. -/
theorem runHw_callsOf (l : List Counted) (s : HwStats) :
    runHw s (callsOf l) =
      { (holesCalls (turnsOf l)).foldl FsoHwStats.step s with
        counters := { s.counters with
          blocksAttempted := s.counters.blocksAttempted + (turnsOf l).length
          blocksDecodeSuccess :=
            s.counters.blocksDecodeSuccess + (turnsOf l).countP (!·.failed)
          blocksDecodeFailed := s.counters.blocksDecodeFailed + (turnsOf l).countP (·.failed)
          packetsRecovered := s.counters.packetsRecovered + (framesOf (turnsOf l)).length
          packetsFailed := s.counters.packetsFailed + lostGroups (flushesOf (turnsOf l)) } }
    := by
  have hfold : ∀ (ts : List BlockTurn) (s : HwStats) (c : HwCounters),
      (holesCalls ts).foldl FsoHwStats.step { s with counters := c }
        = { (holesCalls ts).foldl FsoHwStats.step s with counters := c } := by
    intro ts
    induction ts with
    | nil => exact fun s c => rfl
    | cons t ts ih =>
        intro s c
        show (holesCalls ts).foldl _ (hwStatsRecordBlockHoles _ _) = _
        rw [recordBlockHoles_counters, ih]
        rfl
  induction l generalizing s with
  | nil => rfl
  | cons c l ih =>
      rw [callsOf, List.flatMap_cons, runHw_append]
      cases c with
      | crcDrop => exact ih s
      | block t =>
          rw [turnsOf_block]
          show runHw (runHw s t.calls) _ = _
          rw [runHw_turn]
          refine (ih _).trans ?_
          rw [hfold]
          simp only [Tally.countP_cons, framesOf, flushesOf, List.flatMap_cons,
            List.length_append, List.length_cons, lostGroups, List.countP_append,
            Nat.add_assoc, Nat.add_comm 1]
          rfl

end FsoRxPipeline
