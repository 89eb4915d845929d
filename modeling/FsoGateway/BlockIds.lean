import FsoGateway.InterleaverWindow
import FsoGateway.TxInduction
import FsoGateway.TxPlacement

/-! # The ids of the blocks

    The block counter has 64 bits and starts at 1; what is stamped on the
    symbols is its lower half.  `block_builder_reset` steps over 0 on the
    counter, not on what is stamped, so block number `2 ^ 32` is stamped with
    0, the id of an erased symbol.

    * `numbered_run` — block `j` of a run is stamped with `blockIdOf j`;
    * `wire_run` — the pipeline's interleaver is handed the stamped blocks, and
      what is sent is what its windows give back;
    * `block_ids_usable_iff` — the ids obey their law exactly in the runs with
      fewer than `2 ^ 32` blocks. -/

namespace FsoTxPipeline

open ByteBuffer FsoTypes ErasureCode KeyedWindow FecWrapper FsoBlockBuilder FsoInterleaver
  PacketFragmenter SymbolCrc

/-! ## The law of the ids -/

/-- Every block has `n` symbols of one id, which is not 0 and not the id of any
    of the `2 ^ 32 - 2` blocks before it. -/
structure IdLaw (n : Nat) (blocks : List (List Symbol)) : Prop where
  length : ∀ b ∈ blocks, b.length = n
  same : ∀ b ∈ blocks, ∀ s ∈ b, ∀ t ∈ b, s.packetId = t.packetId
  nonzero : ∀ b ∈ blocks, ∀ s ∈ b, s.packetId ≠ 0
  fresh : ∀ (i j : Nat) (b c : List Symbol), blocks[i]? = some b → blocks[j]? = some c →
    i < j → j ≤ i + (2 ^ 32 - 2) → ∀ s ∈ b, ∀ t ∈ c, s.packetId ≠ t.packetId

/-- Block `j` has `n` symbols, and all carry `blockIdOf j`. -/
def Numbered (n : Nat) (blocks : List (List Symbol)) : Prop :=
  ∀ (j : Nat) (b : List Symbol), blocks[j]? = some b →
    b.length = n ∧ ∀ s ∈ b, s.packetId = blockIdOf j

theorem Numbered.append {n : Nat} {blocks : List (List Symbol)} {b : List Symbol}
    (h : Numbered n blocks) (hlen : b.length = n)
    (hid : ∀ s ∈ b, s.packetId = blockIdOf blocks.length) :
    Numbered n (blocks ++ [b]) := by
  intro j c hc
  rcases Nat.lt_trichotomy j blocks.length with hlt | rfl | hgt
  · rw [List.getElem?_append_left hlt] at hc
    exact h j c hc
  · rw [List.getElem?_concat_length] at hc
    obtain rfl := Option.some.inj hc
    exact ⟨hlen, hid⟩
  · rw [List.getElem?_eq_none (by rw [List.length_append, List.length_singleton]; omega)]
      at hc
    exact nomatch hc

/-- **The law holds of numbered blocks** as long as there are fewer than
    `2 ^ 32` of them. -/
theorem idLaw_iff {n : Nat} {blocks : List (List Symbol)} (hn : 0 < n)
    (h : Numbered n blocks) : IdLaw n blocks ↔ blocks.length < 2 ^ 32 := by
  have hat : ∀ b ∈ blocks, ∃ j, j < blocks.length ∧ b.length = n ∧
      ∀ s ∈ b, s.packetId = blockIdOf j := by
    intro b hb
    obtain ⟨j, hj, rfl⟩ := List.getElem_of_mem hb
    exact ⟨j, hj, h j _ (List.getElem?_eq_getElem hj)⟩
  constructor
  · intro hlaw
    by_contra hge
    -- block number `2 ^ 32 - 1`, counted from 0, is stamped with 0
    have hlt : 2 ^ 32 - 1 < blocks.length := by omega
    obtain ⟨hlen, hid⟩ := h _ _ (List.getElem?_eq_getElem hlt)
    obtain ⟨s, hs⟩ := List.exists_mem_of_length_pos (by rw [hlen]; exact hn)
    exact hlaw.nonzero _ (List.getElem_mem hlt) s hs ((hid s hs).trans rfl)
  · intro hlt
    refine ⟨?_, ?_, ?_, ?_⟩
    · intro b hb
      obtain ⟨j, -, hlen, -⟩ := hat b hb
      exact hlen
    · intro b hb s hs t ht
      obtain ⟨j, -, -, hid⟩ := hat b hb
      rw [hid s hs, hid t ht]
    · intro b hb s hs hzero
      obtain ⟨j, hj, -, hid⟩ := hat b hb
      rw [hid s hs] at hzero
      have h0 := congrArg UInt32.toNat hzero
      rw [blockIdOf, UInt32.toNat_ofNat', Nat.mod_eq_of_lt (by omega)] at h0
      cases h0
    · intro i j b c hb hc hij hnear s hs t ht heq
      rw [(h i b hb).2 s hs, (h j c hc).2 t ht] at heq
      have hsame := blockIdOf_inj heq (Nat.le_of_lt hij) (by omega)
      omega

/-! ## The ids of a run -/

/-- What one call stamps. -/
theorem stampedBlock_spec {wh : Wirehair} {pl : TxPipeline} {b : List Symbol}
    (h : stampedBlock wh pl = some b) :
    b.length = pl.cfg.k + pl.cfg.m ∧
      ∀ s ∈ b, s.packetId = pl.builder.blockId.toUInt32 := by
  rw [stampedBlock] at h
  split at h
  · cases h
  obtain rfl := Option.some.inj h
  constructor
  · simp
  · intro s hs
    rcases List.mem_append.mp hs with hs | hs
    · obtain ⟨i, hi, rfl⟩ := List.mem_map.mp hs
      show (stampAll _ _ _ i).packetId = _
      rw [stampAll, if_pos (List.mem_range.mp hi)]
      exact (stampCrc_header _ _).1
    · obtain ⟨i, hi, rfl⟩ := List.mem_map.mp hs
      show (stampAll _ _ _ i).packetId = _
      rw [stampAll, if_pos (List.mem_range.mp hi)]
      exact (stampCrc_header _ _).1

/-- The builder counts the blocks stamped so far. -/
structure Counts (wh : Wirehair) (cfg : Config) (pl : TxPipeline)
    (log : List TxPipeline) : Prop where
  config : pl.cfg = cfg
  numbered : Numbered (cfg.k + cfg.m) (log.filterMap (stampedBlock wh))
  blockId : pl.builder.blockId
    = UInt64.ofNat ((log.filterMap (stampedBlock wh)).length + 1)
  built : pl.blocksBuilt = (log.filterMap (stampedBlock wh)).length

theorem Counts.same {wh : Wirehair} {cfg : Config} {pl pl' : TxPipeline}
    {log : List TxPipeline} (h : Counts wh cfg pl log) (hcfg : pl'.cfg = pl.cfg)
    (hid : pl'.builder.blockId = pl.builder.blockId)
    (hbuilt : pl'.blocksBuilt = pl.blocksBuilt) : Counts wh cfg pl' log where
  config := hcfg.trans h.config
  numbered := h.numbered
  blockId := hid.trans h.blockId
  built := hbuilt.trans h.built

/-- The block stamped next is the next one. -/
theorem Counts.numbered_next {wh : Wirehair} {cfg : Config} {pl : TxPipeline}
    {log : List TxPipeline} (h : Counts wh cfg pl log) :
    Numbered (cfg.k + cfg.m) ((log ++ [pl]).filterMap (stampedBlock wh)) := by
  rw [List.filterMap_append]
  cases hb : stampedBlock wh pl with
  | none =>
      rw [List.filterMap_cons_none hb, List.filterMap_nil, List.append_nil]
      exact h.numbered
  | some b =>
      obtain ⟨hlen, hid⟩ := stampedBlock_spec hb
      rw [List.filterMap_cons_some hb, List.filterMap_nil]
      refine h.numbered.append (by rw [hlen, h.config]) ?_
      intro s hs
      rw [hid s hs, h.blockId, toUInt32_blockId]

theorem addSymbol_blockId (bb : BlockBuilder) (sym : Symbol) (now : Nat) :
    (blockBuilderAddSymbol bb sym now).2.blockId = bb.blockId := by
  rw [blockBuilderAddSymbol]
  split
  · rfl
  · split <;> rfl

theorem finalize_blockId (bb : BlockBuilder) :
    (blockBuilderFinalizeWithPadding bb).blockId = bb.blockId := by
  rw [blockBuilderFinalizeWithPadding]
  split
  · rfl
  · split <;> rfl

/-- **Each part of a run** keeps the count. -/
theorem counts_closed (wh : Wirehair) (clk : Nat → Nat) (cfg : Config) :
    TxClosed wh clk (Counts wh cfg)
      (fun _ log => Numbered (cfg.k + cfg.m) (log.filterMap (stampedBlock wh))) where
  weaken := fun h => h.numbered
  same := fun h _ _ _ _ _ _ => h.same rfl rfl rfl
  add := fun h sym now => h.same rfl (addSymbol_blockId _ sym now) rfl
  finalize := fun h => h.same rfl (finalize_blockId _) rfl
  tick := by
    intro pl log h
    have ht := tick_sameBlock clk pl
    exact h.same ht.tx.cfg (by rw [ht.builder]) ht.built
  encode := by
    intro pl log h h0
    obtain ⟨b, pl', hb, -, hs, heq⟩ := encodeAndReset_ok h0
    have hlog : (log ++ [pl]).filterMap (stampedBlock wh)
        = log.filterMap (stampedBlock wh) ++ [b] := by
      rw [List.filterMap_append, List.filterMap_cons_some hb, List.filterMap_nil]
    have hnext := h.numbered_next
    have hid : pl'.builder.blockId = pl.builder.blockId := by
      rw [hs.builder]
      rfl
    have hbuilt : pl'.blocksBuilt = pl.blocksBuilt + 1 := hs.built
    rw [heq]
    refine ⟨hs.tx.cfg.trans h.config, hnext, ?_, ?_⟩
    · rw [hlog, List.length_append, List.length_singleton]
      show (if pl'.builder.blockId ≠ 0 then pl'.builder.blockId + 1 else 1) = _
      rw [hid, h.blockId]
      exact blockId_reset _
    · rw [hlog, List.length_append, List.length_singleton]
      show pl'.blocksBuilt = _
      rw [hbuilt, h.built]
  fail := fun h _ => h.numbered_next

theorem counts_create {mem : Nat → Nat → Symbol} {lanMac : List UInt8} {cfg : Config}
    {pl : TxPipeline} (hc : txPipelineCreate mem lanMac cfg = some pl) (wh : Wirehair) :
    Counts wh cfg pl [] := by
  obtain ⟨hk, hsize, -, -, builder, fec, il, hb, -, -, rfl⟩ := txPipelineCreate_some hc
  rw [blockBuilderInit, if_neg (by omega)] at hb
  obtain rfl := Option.some.inj hb
  refine ⟨rfl, ?_, rfl, rfl⟩
  intro i b hb
  cases hb

/-- **The ids of a run**, whether it ends with a failed call or not. -/
theorem numbered_run (wh : Wirehair) (clk : Nat → Nat) {mem : Nat → Nat → Symbol}
    {lanMac : List UInt8} {cfg : Config} {pl : TxPipeline}
    (hc : txPipelineCreate mem lanMac cfg = some pl) (evs : List TxEvent) :
    Numbered (cfg.k + cfg.m) (stampedRun wh clk evs pl) :=
  ((counts_closed wh clk cfg).run evs (counts_create hc wh)).always

/-! ## The wire -/

/-- The symbols handed to the interleaver. -/
def pushesOf (ops : List WindowOp) : List Symbol :=
  ops.filterMap fun
    | .push sym _ => some sym
    | _ => none

/-- What came out of the interleaver. -/
def wireOf (h : History) : List Symbol := h.closed.flatMap Prod.snd ++ h.popped

/-- The pipeline's interleaver made the calls `ops`, and what came out was sent. -/
structure WindowLink (il : Interleaver) (pl : TxPipeline) (ops : List WindowOp) :
    Prop where
  interleaver : (windowRun il ops).1 = pl.interleaver
  sent : wireOf (windowRun il ops).2 = pl.sent

section Wire

variable {il0 : Interleaver} {pl : TxPipeline} {ops : List WindowOp}

theorem windowRun_append (il : Interleaver) (ops ops' : List WindowOp) :
    windowRun il (ops ++ ops') = ops'.foldl windowStep (windowRun il ops) :=
  List.foldl_append

theorem WindowLink.push (h : WindowLink il0 pl ops) (sym : Symbol) (now t : Nat) :
    WindowLink il0
      { pl with
        interleaver := (interleaverPushSymbol pl.interleaver sym now).2
        clock := t } (ops ++ [.push sym now]) := by
  obtain ⟨hil, hsent⟩ := h
  constructor
  · rw [windowRun_append]
    show (interleaverPushSymbol (windowRun il0 ops).1 sym now).2 = _
    rw [hil]
  · rw [windowRun_append, List.foldl_cons, List.foldl_nil, windowStep]
    dsimp only
    split
    · exact hsent
    · exact hsent

theorem WindowLink.tick (h : WindowLink il0 pl ops) (now t : Nat) :
    WindowLink il0
      { pl with
        interleaver := (interleaverTick pl.interleaver now).2
        clock := t } (ops ++ [.tick now]) := by
  obtain ⟨hil, hsent⟩ := h
  rw [← hil, ← hsent]
  constructor
  · rw [windowRun_append]
    rfl
  · rw [windowRun_append]
    rfl

theorem WindowLink.pop (h : WindowLink il0 pl ops) {s : Symbol} {last : Bool}
    {il : Interleaver}
    (hpop : interleaverPopReadySymbol pl.interleaver = some (s, last, il)) :
    WindowLink il0 (txSerializeAndSend { pl with interleaver := il } s)
      (ops ++ [.pop]) := by
  obtain ⟨hil, hsent⟩ := h
  rw [← hil] at hpop
  have hrun : windowRun il0 (ops ++ [.pop]) = windowStep (windowRun il0 ops) .pop := by
    rw [windowRun_append]
    rfl
  rw [windowStep, hpop] at hrun
  cases last with
  | false =>
      refine ⟨congrArg Prod.fst hrun, ?_⟩
      rw [hrun]
      show _ = pl.sent ++ [s]
      rw [← hsent]
      exact (List.append_assoc _ _ _).symm
  | true =>
      refine ⟨congrArg Prod.fst hrun, ?_⟩
      rw [hrun]
      show _ = pl.sent ++ [s]
      rw [← hsent, wireOf, wireOf, List.flatMap_append, List.flatMap_singleton,
        List.append_nil, List.append_assoc]

/-- Calls that hand nothing over. -/
def Silent (ops : List WindowOp) : Prop := pushesOf ops = []

theorem drainLoop_link (fuel : Nat) (h : WindowLink il0 pl ops) :
    ∃ more, Silent more ∧ WindowLink il0 (drainLoop fuel pl) (ops ++ more) := by
  induction fuel generalizing pl ops with
  | zero => exact ⟨[], rfl, by rw [List.append_nil]; exact h⟩
  | succ fuel ih =>
      rw [drainLoop]
      cases hpop : interleaverPopReadySymbol pl.interleaver with
      | none => exact ⟨[], rfl, by rw [List.append_nil]; exact h⟩
      | some r =>
          obtain ⟨s, last, il⟩ := r
          have h1 := h.pop hpop
          cases last with
          | true => exact ⟨[.pop], rfl, h1⟩
          | false =>
              obtain ⟨more, hsil, h2⟩ := ih h1
              rw [List.append_assoc] at h2
              exact ⟨.pop :: more, hsil, h2⟩

theorem drain_link (h : WindowLink il0 pl ops) :
    ∃ more, Silent more ∧ WindowLink il0 (drainInterleaver pl) (ops ++ more) := by
  rw [drainInterleaver]
  split
  · exact drainLoop_link _ h
  · exact ⟨[], rfl, by rw [List.append_nil]; exact h⟩

theorem tick_link (clk : Nat → Nat) (h : WindowLink il0 pl ops) :
    ∃ more, Silent more ∧
      WindowLink il0 (tickAndDrainInterleaver clk pl) (ops ++ more) := by
  have h1 := h.tick (clk pl.clock) (pl.clock + 1)
  rw [tickAndDrainInterleaver]
  split
  · obtain ⟨more, hsil, h2⟩ := drain_link h1
    rw [List.append_assoc] at h2
    exact ⟨.tick (clk pl.clock) :: more, hsil, h2⟩
  · exact ⟨[.tick (clk pl.clock)], rfl, h1⟩

/-- The push loop hands over all symbols, or those up to the one refused. -/
theorem pushSymbols_link (clk : Nat → Nat) (l : List Symbol)
    (h : WindowLink il0 pl ops) :
    ∃ more, pushesOf more <+: l ∧
      ((pushSymbols clk l pl).1 ≠ -1 → pushesOf more = l) ∧
      WindowLink il0 (pushSymbols clk l pl).2 (ops ++ more) := by
  induction l generalizing pl ops with
  | nil =>
      exact ⟨[], List.nil_prefix, fun _ => rfl, by rw [List.append_nil]; exact h⟩
  | cons s l ih =>
      have h1 := h.push s (clk pl.clock) (pl.clock + 1)
      rw [pushSymbols]
      split
      · refine ⟨[.push s (clk pl.clock)], ?_, fun hne => absurd rfl hne, h1⟩
        exact (List.prefix_cons_inj s).mpr List.nil_prefix
      · obtain ⟨more, hpre, hall, h2⟩ := ih h1
        rw [List.append_assoc] at h2
        refine ⟨.push s (clk pl.clock) :: more, ?_, ?_, h2⟩
        · exact (List.prefix_cons_inj s).mpr hpre
        · intro hne
          exact congrArg (s :: ·) (hall hne)

theorem pushesOf_append (ops ops' : List WindowOp) :
    pushesOf (ops ++ ops') = pushesOf ops ++ pushesOf ops' :=
  List.filterMap_append

theorem pushesOf_silent {more : List WindowOp} (h : Silent more) (ops : List WindowOp) :
    pushesOf (ops ++ more) = pushesOf ops := by
  rw [pushesOf_append, h, List.append_nil]

/-- What was handed over stands in the relation `R` to the stamped blocks. -/
def Handed (wh : Wirehair) (il0 : Interleaver) (R : List Symbol → List Symbol → Prop)
    (pl : TxPipeline) (log : List TxPipeline) : Prop :=
  ∃ ops, WindowLink il0 pl ops ∧
    R (pushesOf ops) (log.filterMap (stampedBlock wh)).flatten

theorem Handed.same {wh : Wirehair} {R : List Symbol → List Symbol → Prop}
    {pl' : TxPipeline} {log : List TxPipeline} (h : Handed wh il0 R pl log)
    (hil : pl'.interleaver = pl.interleaver) (hsent : pl'.sent = pl.sent) :
    Handed wh il0 R pl' log := by
  obtain ⟨ops, ⟨h1, h2⟩, hr⟩ := h
  exact ⟨ops, ⟨h1.trans hil.symm, h2.trans hsent.symm⟩, hr⟩

/-- **An encode** hands over the block it stamps, or a first part of it. -/
theorem encodeAndDrain_handed {wh : Wirehair} (clk : Nat → Nat) {log : List TxPipeline}
    (h : Handed wh il0 (· = ·) pl log) :
    Handed wh il0 (· <+: ·) (encodeAndDrain wh clk pl).2 (log ++ [pl]) ∧
      ((encodeAndDrain wh clk pl).1 = 0 →
        Handed wh il0 (· = ·) (encodeAndDrain wh clk pl).2 (log ++ [pl])) := by
  obtain ⟨ops, hlink, hops⟩ := h
  cases hb : stampedBlock wh pl with
  | none =>
      obtain ⟨reps, hfail⟩ := encodeAndDrain_unstamped clk hb
      rw [hfail, Handed, List.filterMap_append, List.filterMap_cons_none hb,
        List.filterMap_nil, List.append_nil]
      exact ⟨⟨ops, ⟨hlink.interleaver, hlink.sent⟩, hops ▸ List.prefix_rfl⟩,
        fun hz => absurd hz (show ¬ (-1 : Int) = 0 by decide)⟩
  | some b =>
      have hblocks : ((log ++ [pl]).filterMap (stampedBlock wh)).flatten
          = (log.filterMap (stampedBlock wh)).flatten ++ b := by
        rw [List.filterMap_append, List.filterMap_cons_some hb, List.filterMap_nil,
          List.flatten_append, List.flatten_singleton]
      have h0 : WindowLink il0 (stamped wh pl) ops := ⟨hlink.interleaver, hlink.sent⟩
      obtain ⟨more1, hsil1, h1⟩ := drain_link h0
      obtain ⟨more2, hpre, hall, h2⟩ := pushSymbols_link clk b h1
      have hpushes : pushesOf (ops ++ more1 ++ more2)
          = (log.filterMap (stampedBlock wh)).flatten ++ pushesOf more2 := by
        rw [pushesOf_append, pushesOf_silent hsil1, hops]
      have hpart : pushesOf (ops ++ more1 ++ more2)
          <+: ((log ++ [pl]).filterMap (stampedBlock wh)).flatten := by
        rw [hpushes, hblocks]
        exact (List.prefix_append_right_inj _).mpr hpre
      have heq := encodeAndDrain_stamped clk hb
      dsimp only at heq
      by_cases hq : (pushSymbols clk b (drainInterleaver (stamped wh pl))).1 = -1
      · rw [heq, if_pos hq]
        exact ⟨⟨_, h2, hpart⟩, fun hz => absurd hz (show ¬ (-1 : Int) = 0 by decide)⟩
      · rw [heq, if_neg hq]
        obtain ⟨more3, hsil3, h3⟩ := drain_link h2
        refine ⟨⟨_, h3, ?_⟩, fun _ => ⟨_, h3, ?_⟩⟩
        · rw [pushesOf_silent hsil3]
          exact hpart
        · rw [pushesOf_silent hsil3, hpushes, hall hq, hblocks]

/-- **Each part of a run** keeps the link to the wire. -/
theorem handed_closed (wh : Wirehair) (clk : Nat → Nat) (il0 : Interleaver) :
    TxClosed wh clk (Handed wh il0 (· = ·)) (Handed wh il0 (· <+: ·)) where
  weaken := by
    rintro pl log ⟨ops, hlink, hops⟩
    exact ⟨ops, hlink, hops ▸ List.prefix_rfl⟩
  same := fun h _ _ _ _ _ _ => h.same rfl rfl
  add := fun h _ _ => h.same rfl rfl
  finalize := fun h => h.same rfl rfl
  tick := by
    rintro pl log ⟨ops, hlink, hops⟩
    obtain ⟨more, hsil, hlink'⟩ := tick_link clk hlink
    exact ⟨_, hlink', by rw [pushesOf_silent hsil, hops]⟩
  encode := by
    intro pl log h h0
    obtain ⟨-, hok⟩ := encodeAndDrain_handed clk h
    rw [encodeAndReset] at h0 ⊢
    by_cases hrc : (encodeAndDrain wh clk pl).1 ≠ 0
    · rw [if_pos hrc] at h0
      simp at h0
    · rw [if_neg hrc]
      exact (hok (not_not.mp hrc)).same rfl rfl
  fail := by
    intro pl log h h0
    obtain ⟨hany, -⟩ := encodeAndDrain_handed clk h
    rw [encodeAndReset]
    split
    · exact hany
    · exact hany.same rfl rfl

/-! ## What is on the wire -/

/-- What a window has accepted was handed over. -/
theorem accepted_pushed (il : Interleaver) (ops : List WindowOp) :
    (∀ s ∈ (windowRun il ops).2.accepted, s ∈ pushesOf ops) ∧
      ∀ w ∈ (windowRun il ops).2.closed, ∀ s ∈ w.1, s ∈ pushesOf ops := by
  induction ops using List.reverseRecOn with
  | nil =>
      exact ⟨fun _ hs => absurd hs List.not_mem_nil, fun _ hw => absurd hw List.not_mem_nil⟩
  | append_singleton ops op ih =>
      obtain ⟨ihAcc, ihClosed⟩ := ih
      have hleft : ∀ s ∈ pushesOf ops, s ∈ pushesOf (ops ++ [op]) := by
        intro s hs
        rw [pushesOf_append]
        exact List.mem_append_left _ hs
      rw [windowRun_append, List.foldl_cons, List.foldl_nil]
      cases op with
      | push sym now =>
          rw [windowStep]
          dsimp only
          split
          · exact ⟨fun s hs => hleft s (ihAcc s hs), fun w hw s hs =>
              hleft s (ihClosed w hw s hs)⟩
          · refine ⟨?_, fun w hw s hs => hleft s (ihClosed w hw s hs)⟩
            intro s hs
            rw [pushesOf_append]
            exact List.mem_append.mpr ((List.mem_append.mp hs).imp (ihAcc s) id)
      | tick now =>
          exact ⟨fun s hs => hleft s (ihAcc s hs), fun w hw s hs =>
            hleft s (ihClosed w hw s hs)⟩
      | pop =>
          rw [windowStep]
          split
          · exact ⟨fun s hs => hleft s (ihAcc s hs), fun w hw s hs =>
              hleft s (ihClosed w hw s hs)⟩
          · exact ⟨fun s hs => hleft s (ihAcc s hs), fun w hw s hs =>
              hleft s (ihClosed w hw s hs)⟩
          · refine ⟨fun _ hs => absurd hs List.not_mem_nil, ?_⟩
            intro w hw s hs
            rcases List.mem_append.mp hw with hw | hw
            · exact hleft s (ihClosed w hw s hs)
            · rw [List.mem_singleton.mp hw] at hs
              exact hleft s (ihAcc s hs)

end Wire

/-- A symbol on the wire is one of the symbols `handed` to the interleaver, or
    padding without payload, for one of their blocks or for none. -/
inductive OnWire (ss : Nat) (handed : List Symbol) (s : Symbol) : Prop where
  | symbol (t : Symbol) (ht : t ∈ handed) (h : s = clipSymbol ss t)
  | padding (h : s.payloadLen = 0)
      (hid : s.packetId = 0 ∨ ∃ t ∈ handed, s.packetId = t.packetId)

theorem onWire_windowOut {depth n ss : Nat} {acc handed : List Symbol} {s : Symbol}
    (hacc : ∀ t ∈ acc, t ∈ handed) (hs : s ∈ windowOut depth n ss acc) :
    OnWire ss handed s := by
  obtain ⟨p, -, rfl⟩ := List.mem_map.mp hs
  rw [readCell]
  cases hat : itemAt Symbol.packetId column acc (p % depth) (p / depth) with
  | some t => exact .symbol t (hacc t (itemAt_some hat).1) rfl
  | none =>
      refine .padding rfl ?_
      show (rowKeys Symbol.packetId acc)[p % depth]?.getD 0 = 0 ∨
        ∃ t ∈ handed, (rowKeys Symbol.packetId acc)[p % depth]?.getD 0 = t.packetId
      cases hk : (rowKeys Symbol.packetId acc)[p % depth]? with
      | none => exact .inl rfl
      | some key =>
          obtain ⟨t, ht, hkey⟩ := mem_rowKeys.mp (List.mem_of_getElem? hk)
          exact .inr ⟨t, hacc t ht, hkey.symm⟩

/-- **What a run sends** are the symbols of the stamped blocks, and padding. -/
theorem wire_run (wh : Wirehair) (clk : Nat → Nat) {mem : Nat → Nat → Symbol}
    {lanMac : List UInt8} {cfg : Config} {pl : TxPipeline}
    (hc : txPipelineCreate mem lanMac cfg = some pl) (evs : List TxEvent) :
    ∀ s ∈ (txRun wh clk evs pl).2.sent,
      OnWire cfg.symbolSize (stampedRun wh clk evs pl).flatten s := by
  obtain ⟨-, -, -, -, builder, fec, il, -, -, hil, rfl⟩ := txPipelineCreate_some hc
  obtain ⟨hn, hn256, hinv0⟩ := windowInv_create hil
  generalize hpl : TxPipeline.mk cfg builder fec il _ _ _ _ _ _ _ _ _ _ = pl
  have hstart : Handed wh il (· = ·) pl [] := by
    rw [← hpl]
    exact ⟨[], ⟨rfl, rfl⟩, rfl⟩
  obtain ⟨ops, hlink, hpre⟩ := ((handed_closed wh clk il).run evs hstart).always
  rw [List.nil_append] at hpre
  have hinv : WindowInv cfg.depth (cfg.k + cfg.m) cfg.symbolSize (windowRun il ops) :=
    windowInv_run ops hn (by omega) hinv0
  obtain ⟨-, -, hss, hcur, hclosed⟩ := hinv
  obtain ⟨hacc, hold⟩ := accepted_pushed il ops
  intro s hs
  rw [← hlink.sent] at hs
  rcases List.mem_append.mp hs with hs | hs
  · obtain ⟨w, hw, hsw⟩ := List.mem_flatMap.mp hs
    rw [(hclosed w hw).2] at hsw
    exact onWire_windowOut (fun t ht => hpre.subset (hold w hw t ht)) hsw
  · cases hcur with
    | collecting _ hp =>
        rw [hp] at hs
        exact nomatch hs
    | draining p _ _ hp =>
        rw [hp, hss] at hs
        exact onWire_windowOut (fun t ht => hpre.subset (hacc t ht)) (List.mem_of_mem_take hs)

/-- **The ids of the blocks.**  In every run, with any codec and any accepted
    configuration, what is sent are the symbols of the stamped blocks and padding
    without payload.  The ids of these blocks obey their law exactly when there
    are fewer than `2 ^ 32` of them. -/
theorem block_ids_usable_iff (wh : Wirehair) (clk : Nat → Nat)
    (mem : Nat → Nat → Symbol) (lanMac : List UInt8) (cfg : Config) (pl0 : TxPipeline)
    (hcreate : txPipelineCreate mem lanMac cfg = some pl0) (evs : List TxEvent) :
    (∀ s ∈ (txRun wh clk evs pl0).2.sent,
      OnWire cfg.symbolSize (stampedRun wh clk evs pl0).flatten s) ∧
    (IdLaw (cfg.k + cfg.m) (stampedRun wh clk evs pl0)
      ↔ (stampedRun wh clk evs pl0).length < 2 ^ 32) := by
  obtain ⟨hk, -⟩ := txPipelineCreate_some hcreate
  exact ⟨wire_run wh clk hcreate evs,
    idLaw_iff (by omega) (numbered_run wh clk hcreate evs)⟩

/-! ## A run with `2 ^ 32` blocks -/

/-- A frame of two fragments, a block of the small link. -/
def twoFragments : TxEvent := .frame [1, 2, 3, 4, 5, 6, 7, 8] false

/-- `block_ids_usable_iff` there, for two of them. -/
theorem block_ids_usable_smallLink :
    IdLaw 3 (stampedRun parity (fun t => t) [twoFragments, twoFragments] smallPipeline) :=
  (block_ids_usable_iff parity (fun t => t) (fun _ _ => symbolInit) [] smallLink
    smallPipeline rfl [twoFragments, twoFragments]).2.mpr (by decide +kernel)

/-- What a run never changes. -/
structure OfSmallLink (pl : TxPipeline) : Prop where
  cfg : pl.cfg = smallLink
  maxFragsPerPacket : pl.maxFragsPerPacket = 2250

theorem OfSmallLink.same {pl pl' : TxPipeline} (h : OfSmallLink pl) (hs : SameTx pl pl') :
    OfSmallLink pl' :=
  ⟨hs.cfg.trans h.cfg, hs.maxFragsPerPacket.trans h.maxFragsPerPacket⟩

theorem ofSmallLink_closed (wh : Wirehair) (clk : Nat → Nat) :
    TxClosed wh clk (fun pl _ => OfSmallLink pl) (fun _ _ => True) where
  weaken := fun _ => trivial
  same := fun h _ _ _ _ _ _ => ⟨h.cfg, h.maxFragsPerPacket⟩
  add := fun h _ _ => ⟨h.cfg, h.maxFragsPerPacket⟩
  finalize := fun h => ⟨h.cfg, h.maxFragsPerPacket⟩
  tick := fun h => h.same (tick_sameBlock clk _).tx
  encode := by
    intro pl log h h0
    obtain ⟨b, pl', -, -, hs, heq⟩ := encodeAndReset_ok h0
    have h1 : OfSmallLink (stamped wh pl) := ⟨h.cfg, h.maxFragsPerPacket⟩
    have h2 := h1.same hs.tx
    rw [heq]
    exact ⟨h2.cfg, h2.maxFragsPerPacket⟩
  fail := fun _ _ => trivial

/-- The frame is accepted. -/
theorem twoFragments_accepted {pl : TxPipeline} (h : OfSmallLink pl) :
    acceptedOnce pl twoFragments = some [1, 2, 3, 4, 5, 6, 7, 8] := by
  obtain ⟨hcfg, hmax⟩ := h
  have hcount : (fragmentPacket [1, 2, 3, 4, 5, 6, 7, 8] pl.packetIdCounter
      (UInt16.ofNat pl.cfg.symbolSize) pl.fragSyms
      (UInt16.ofNat pl.maxFragsPerPacket)).1 = 2 := by
    rw [hcfg, hmax]
    rfl
  have hown : isOwnFrame pl [1, 2, 3, 4, 5, 6, 7, 8] = false := rfl
  have htake : ([1, 2, 3, 4, 5, 6, 7, 8] : List UInt8).take txRxBufSize
      = [1, 2, 3, 4, 5, 6, 7, 8] := rfl
  rw [twoFragments, acceptedOnce, onFrame]
  dsimp only
  rw [htake, hown, if_neg Bool.false_ne_true, if_neg Bool.false_ne_true, hcount,
    if_neg (by decide)]

/-- An accepted frame takes a place for each of its fragments. -/
theorem CallPlaces.advance {cfg : Config} {x z : Nat} {pl pl' : TxPipeline} {pkt : List UInt8}
    {seg : List ((Nat × Nat) × Symbol)} (h : CallPlaces cfg x z pl pl' (some pkt) seg) :
    x + frameFrags cfg pkt ≤ z := by
  cases h with
  | frame _ y hacc hid hy hz hfit => omega

/-- `n` such frames take `2 * n` places. -/
theorem twoFragments_run {wh : Wirehair} {clk : Nat → Nat} (n : Nat) {pl : TxPipeline}
    {x : Nat} (hlink : OfSmallLink pl) (hat : At 2 x pl)
    (h0 : (txRun wh clk (List.replicate n twoFragments) pl).1 = 0) :
    ∃ z, x + 2 * n ≤ z ∧ At 2 z (txRun wh clk (List.replicate n twoFragments) pl).2 := by
  induction n generalizing pl x with
  | zero => exact ⟨x, le_rfl, hat⟩
  | succ n ih =>
      rw [List.replicate_succ] at h0 ⊢
      obtain ⟨hev, hcons⟩ := txRun_cons_ok h0
      have hk : pl.cfg.k = 2 := by
        rw [hlink.cfg]
        rfl
      rw [← hk] at hat
      obtain ⟨-, w, seg, hcall, hat', -⟩ := runOnce_places wh clk hat twoFragments hev
      rw [twoFragments_accepted hlink, hlink.cfg] at hcall
      have hw : x + 2 ≤ w := hcall.advance
      rw [hk] at hat'
      have honce : Kept (fun pl _ => OfSmallLink pl) (fun _ _ => True)
          (txPipelineRunOnce wh clk pl twoFragments) ([] ++ callsOnce wh clk pl twoFragments) :=
        (ofSmallLink_closed wh clk).once twoFragments hlink
      have hlink' := honce.ok (by rw [hev]; decide)
      rw [hcons] at h0 ⊢
      obtain ⟨z, hz, hatz⟩ := ih hlink' hat' h0
      exact ⟨z, by omega, hatz⟩

/-- A run of `n` such frames stamps `n` blocks or more. -/
theorem twoFragments_blocks (n : Nat) :
    n ≤ (stampedRun parity (fun t => t) (List.replicate n twoFragments)
      smallPipeline).length := by
  have hcreate : txPipelineCreate (fun _ _ => symbolInit) [] smallLink
      = some smallPipeline := rfl
  obtain ⟨hinv, -⟩ := runInv_create hcreate (by decide) (by decide)
    (parity_recovers 4).toEncodes
  obtain ⟨h0, -⟩ := runInv_run (fun t => t) (List.replicate n twoFragments) hinv
  obtain ⟨-, -, hat⟩ := at_create hcreate
  obtain ⟨z, hz, hatz⟩ := twoFragments_run n ⟨rfl, rfl⟩ hat h0
  have hcount := ((counts_closed parity (fun t => t) smallLink).run
    (List.replicate n twoFragments) (counts_create hcreate parity)).ok
    (by rw [h0]; decide)
  have hbuilt := hcount.built
  rw [List.nil_append] at hbuilt
  rw [stampedRun, ← hbuilt]
  have hnumber := hatz.number
  have hroom := hatz.room
  omega

/-- **The ids wrap.**  After `2 ^ 32` blocks the law is broken. -/
theorem block_ids_wrap :
    ¬ IdLaw 3 (stampedRun parity (fun t => t) (List.replicate (2 ^ 32) twoFragments)
      smallPipeline) := by
  have hcreate : txPipelineCreate (fun _ _ => symbolInit) [] smallLink
      = some smallPipeline := rfl
  have hnum : Numbered 3 _ := numbered_run parity (fun t => t) hcreate
    (List.replicate (2 ^ 32) twoFragments)
  have hmany := twoFragments_blocks (2 ^ 32)
  rw [idLaw_iff (by decide) hnum]
  omega

end FsoTxPipeline
