import FsoGateway.TxRuns

/-! # Where fragments are placed

    The blocks of a run are those that were handed to `encode_and_drain`, `k`
    symbols each, and the one being built at the end.  A position that holds a
    payload is a stored fragment; the others are padding.

    Adding fragments, padding, encoding and resetting keep one law: the stored
    symbols, block after block, are the fragments added so far (`Packs`).  So
    the places of a frame are read off the blocks (`storedRun`); they are in
    one block exactly when no block ends between them.

    Nothing here is about the codec or the interleaver: the results hold of
    every configuration that `tx_pipeline_create` accepts, also when an encode
    fails later on.

    * `packet_in_one_block_iff` — a frame stays in one block exactly when it
      has at most `k` fragments. -/

namespace FsoTxPipeline

open ByteBuffer FsoTypes ErasureCode FecWrapper FsoBlockBuilder FsoInterleaver
  PacketFragmenter SymbolCrc

/-! ## The blocks of a run -/

/-- The source symbols of a block when `encode_and_drain` is entered. -/
def blockSymbols (pl : TxPipeline) : List Symbol :=
  (List.range pl.cfg.k).map pl.builder.symbols

/-- The symbols of the block being built. -/
def openSymbols (pl : TxPipeline) : List Symbol :=
  (List.range pl.builder.symbolCount).map pl.builder.symbols

/-- The blocks encoded by `log` and the one being built. -/
def blocksOf (log : List TxPipeline) (pl : TxPipeline) : List (List Symbol) :=
  log.map blockSymbols ++ [openSymbols pl]

/-- The stored symbols of block number `b`, each with its place, a block and a
    position in it. -/
def storedAt (b : Nat) (block : List Symbol) : List ((Nat × Nat) × Symbol) :=
  (block.zipIdx.filter fun e => e.1.payloadLen != 0).map fun e => ((b, e.2), e.1)

/-- The stored symbols of all blocks, in order. -/
def stored (blocks : List (List Symbol)) : List ((Nat × Nat) × Symbol) :=
  blocks.zipIdx.flatMap fun p => storedAt p.2 p.1

/-- Only the first `ss` bytes of a symbol are the block's. -/
def clipped (ss : Nat) (l : List ((Nat × Nat) × Symbol)) : List ((Nat × Nat) × Symbol) :=
  l.map (Prod.map id (clipSymbol ss))

/-- What is stored at the end of a run, and where. -/
def storedRun (wh : Wirehair) (clk : Nat → Nat) (evs : List TxEvent) (pl : TxPipeline) :
    List ((Nat × Nat) × Symbol) :=
  clipped pl.cfg.symbolSize
    (stored (blocksOf (callsRun wh clk evs pl) (txRun wh clk evs pl).2))

/-- One block, consecutive positions, in the order of the list. -/
def InOneBlock (ps : List (Nat × Nat)) : Prop :=
  ∃ b p, ps = (List.range ps.length).map fun j => (b, p + j)

/-- An earlier place. -/
def Earlier (a b : Nat × Nat) : Prop := a.1 < b.1 ∨ (a.1 = b.1 ∧ a.2 < b.2)

/-! ## Numbered places -/

/-- Place number `x` in blocks of `k`. -/
def nthPlace (k x : Nat) : Nat × Nat := (x / k, x % k)

/-- A run of consecutive places stays in one block when no block ends in it. -/
theorem inOneBlock_iff {k x n : Nat} (hk : 0 < k) :
    InOneBlock ((List.range n).map fun j => nthPlace k (x + j)) ↔ x % k + n ≤ k := by
  have hdiv := Nat.div_add_mod x k
  have hmod := Nat.mod_lt x hk
  rw [InOneBlock, List.length_map, List.length_range]
  constructor
  · rintro ⟨b, p, h⟩
    rcases Nat.eq_zero_or_pos n with rfl | hn
    · omega
    have hat : ∀ j, j < n → nthPlace k (x + j) = (b, p + j) := by
      intro j hj
      exact List.map_inj_left.mp h j (List.mem_range.mpr hj)
    have h0 := hat 0 hn
    have h1 := hat (n - 1) (by omega)
    have hp : x % k = p := congrArg Prod.snd h0
    have hlast : (x + (n - 1)) % k = p + (n - 1) := congrArg Prod.snd h1
    have hlt := Nat.mod_lt (x + (n - 1)) hk
    omega
  · intro h
    refine ⟨x / k, x % k, List.map_congr_left fun j hj => ?_⟩
    have hj' := List.mem_range.mp hj
    have heq : x + j = (x % k + j) + k * (x / k) := by omega
    rw [nthPlace, heq, Nat.add_mul_div_left _ _ hk, Nat.add_mul_mod_self_left,
      Nat.div_eq_of_lt (by omega), Nat.mod_eq_of_lt (by omega), Nat.zero_add]

/-! ## Stored symbols -/

theorem stored_concat (blocks : List (List Symbol)) (b : List Symbol) :
    stored (blocks ++ [b]) = stored blocks ++ storedAt blocks.length b := by
  rw [stored, stored, List.zipIdx_append, List.flatMap_append, Nat.zero_add]
  exact congrArg _ (List.append_nil _)

theorem storedAt_append (b : Nat) (l l' : List Symbol) :
    storedAt b (l ++ l') = storedAt b l ++
      ((l'.zipIdx l.length).filter fun e => e.1.payloadLen != 0).map
        fun e => ((b, e.2), e.1) := by
  rw [storedAt, storedAt, List.zipIdx_append, List.filter_append, List.map_append, Nat.zero_add]

/-- A symbol with a payload takes the next position. -/
theorem storedAt_concat (b : Nat) (l : List Symbol) {s : Symbol} (h : s.payloadLen ≠ 0) :
    storedAt b (l ++ [s]) = storedAt b l ++ [((b, l.length), s)] := by
  rw [storedAt_append, List.zipIdx_singleton, List.filter_singleton]
  show _ ++ List.map _ (bif s.payloadLen != 0 then _ else _) = _
  rw [bne_iff_ne.mpr h]
  rfl

/-- Padding is not stored. -/
theorem storedAt_padded (b : Nat) (l : List Symbol) {l' : List Symbol}
    (h : ∀ s ∈ l', s.payloadLen = 0) : storedAt b (l ++ l') = storedAt b l := by
  have hnone : (l'.zipIdx l.length).filter (fun e => e.1.payloadLen != 0) = [] := by
    rw [List.filter_eq_nil_iff]
    intro e he
    rw [h e.1 (List.fst_mem_of_mem_zipIdx he)]
    decide
  rw [storedAt_append, hnone]
  exact List.append_nil _

/-- The places are listed from the first block to the last. -/
theorem stored_sorted (blocks : List (List Symbol)) :
    ((stored blocks).map Prod.fst).Pairwise Earlier := by
  have hindex : ∀ {α : Type} (l : List α), l.zipIdx.Pairwise fun a b => a.2 < b.2 := by
    intro α l
    rw [← List.pairwise_map (R := (· < ·)), List.zipIdx_map_snd]
    exact List.pairwise_lt_range'
  have hblock : ∀ b block, ∀ e ∈ storedAt b block, e.1.1 = b := by
    intro b block e he
    obtain ⟨x, -, rfl⟩ := List.mem_map.mp he
    rfl
  rw [List.pairwise_map, stored, List.pairwise_flatMap]
  constructor
  · intro p _
    rw [storedAt, List.pairwise_map]
    exact ((hindex p.1).filter _).imp fun hlt => .inr ⟨rfl, hlt⟩
  · refine (hindex blocks).imp fun {p q} hlt e he e' he' => ?_
    rw [Earlier, hblock _ _ e he, hblock _ _ e' he']
    exact .inl hlt

theorem clipped_fst (ss : Nat) (l : List ((Nat × Nat) × Symbol)) :
    (clipped ss l).map Prod.fst = l.map Prod.fst := by
  rw [clipped, List.map_map]
  rfl

/-! ## What the other steps leave alone -/

/-- The fields that the interleaver's part leaves alone. -/
structure SameBlock (pl pl' : TxPipeline) : Prop where
  tx : SameTx pl pl'
  builder : pl'.builder = pl.builder
  built : pl'.blocksBuilt = pl.blocksBuilt

theorem SameBlock.refl (pl : TxPipeline) : SameBlock pl pl := ⟨.refl pl, rfl, rfl⟩

theorem SameBlock.trans {a b c : TxPipeline} (h1 : SameBlock a b) (h2 : SameBlock b c) :
    SameBlock a c :=
  ⟨h1.tx.trans h2.tx, h2.builder.trans h1.builder, h2.built.trans h1.built⟩

theorem drain_sameBlock (pl : TxPipeline) : SameBlock pl (drainInterleaver pl) := by
  obtain ⟨il, sent, h⟩ := drainInterleaver_frame pl
  rw [h]
  exact ⟨⟨rfl, rfl, rfl, rfl, rfl, rfl, rfl, rfl⟩, rfl, rfl⟩

theorem tick_sameBlock (clk : Nat → Nat) (pl : TxPipeline) :
    SameBlock pl (tickAndDrainInterleaver clk pl) := by
  rw [tickAndDrainInterleaver]
  have hs : SameBlock pl
      { pl with
        interleaver := (interleaverTick pl.interleaver (clk pl.clock)).2
        clock := pl.clock + 1 } :=
    ⟨⟨rfl, rfl, rfl, rfl, rfl, rfl, rfl, rfl⟩, rfl, rfl⟩
  split
  · exact hs.trans (drain_sameBlock _)
  · exact hs

theorem pushSymbols_sameBlock (clk : Nat → Nat) (l : List Symbol) (pl : TxPipeline) :
    SameBlock pl (pushSymbols clk l pl).2 := by
  obtain ⟨il, n, h⟩ := pushSymbols_frame clk l pl
  rw [h]
  exact ⟨⟨rfl, rfl, rfl, rfl, rfl, rfl, rfl, rfl⟩, rfl, rfl⟩

/-- An encode that succeeds stamps a block and pushes it between two drains;
    beyond the interleaver's part only the reset follows. -/
theorem encodeAndReset_ok {wh : Wirehair} {clk : Nat → Nat} {pl : TxPipeline}
    (h0 : (encodeAndReset wh clk pl).1 = 0) :
    ∃ b pl', stampedBlock wh pl = some b ∧
      pl' = drainInterleaver (pushSymbols clk b (drainInterleaver (stamped wh pl))).2 ∧
      SameBlock (stamped wh pl) pl' ∧
      encodeAndReset wh clk pl
        = (0, { pl' with builder := blockBuilderReset pl'.builder }) := by
  rw [encodeAndReset] at h0 ⊢
  cases hb : stampedBlock wh pl with
  | none =>
      obtain ⟨reps, hfail⟩ := encodeAndDrain_unstamped clk hb
      rw [hfail] at h0
      simp at h0
  | some b =>
      have hs := (drain_sameBlock (stamped wh pl)).trans
        (pushSymbols_sameBlock clk b (drainInterleaver (stamped wh pl)))
      have heq := encodeAndDrain_stamped clk hb
      dsimp only at heq
      by_cases hq : (pushSymbols clk b (drainInterleaver (stamped wh pl))).1 = -1
      · rw [heq, if_pos hq] at h0
        simp at h0
      · rw [heq, if_neg hq]
        exact ⟨b, _, rfl, rfl, hs.trans (drain_sameBlock _), if_neg (not_not_intro rfl)⟩

/-! ## The builder along a run -/

section Building

variable {wh : Wirehair} {k : Nat} {pl : TxPipeline}

/-- The builder of blocks of `k` has room, and its next place has number `x`. -/
structure At (k x : Nat) (pl : TxPipeline) : Prop where
  kLimit : pl.builder.kLimit = k
  room : pl.builder.symbolCount < k
  number : x = k * pl.blocksBuilt + pl.builder.symbolCount

theorem At.place {x : Nat} (h : At k x pl) :
    nthPlace k x = (pl.blocksBuilt, pl.builder.symbolCount) := by
  have hroom := h.room
  rw [nthPlace, h.number, Nat.mul_add_div (by omega), Nat.mul_add_mod,
    Nat.div_eq_of_lt hroom, Nat.mod_eq_of_lt hroom, Nat.add_zero]

theorem At.mod {x : Nat} (h : At k x pl) : x % k = pl.builder.symbolCount :=
  congrArg Prod.snd h.place

theorem At.same {x : Nat} {pl' : TxPipeline} (h : At k x pl) (hs : SameBlock pl pl') :
    At k x pl' where
  kLimit := by rw [hs.builder]; exact h.kLimit
  room := by rw [hs.builder]; exact h.room
  number := by rw [hs.builder, hs.built]; exact h.number

/-- An encode that succeeds closes the block; the next place is the first one
    of the next block. -/
theorem encodeAndReset_at (clk : Nat → Nat) (hk : 0 < k)
    (hlimit : pl.builder.kLimit = k) (h0 : (encodeAndReset wh clk pl).1 = 0) :
    SameTx pl (encodeAndReset wh clk pl).2 ∧
      At k (k * (pl.blocksBuilt + 1)) (encodeAndReset wh clk pl).2 := by
  obtain ⟨b, pl', -, -, hs, heq⟩ := encodeAndReset_ok h0
  have hs1 : SameTx pl (stamped wh pl) := ⟨rfl, rfl, rfl, rfl, rfl, rfl, rfl, rfl⟩
  have hbuilt : pl'.blocksBuilt = pl.blocksBuilt + 1 := hs.built
  have hlim : pl'.builder.kLimit = k := by
    rw [hs.builder]
    exact hlimit
  rw [heq]
  refine ⟨(hs1.trans hs.tx).trans ⟨rfl, rfl, rfl, rfl, rfl, rfl, rfl, rfl⟩, hlim, hk, ?_⟩
  show k * (pl.blocksBuilt + 1) = k * pl'.blocksBuilt + 0
  rw [hbuilt]
  rfl

theorem flushBuilder_at (clk : Nat → Nat) (hk : 0 < k)
    (hlimit : pl.builder.kLimit = k) (h0 : (flushBuilder wh clk pl).1 = 0) :
    SameTx pl (flushBuilder wh clk pl).2 ∧
      At k (k * (pl.blocksBuilt + 1)) (flushBuilder wh clk pl).2 := by
  have hfinal : (blockBuilderFinalizeWithPadding pl.builder).kLimit = k := by
    rw [blockBuilderFinalizeWithPadding]
    split
    · exact hlimit
    · split <;> exact hlimit
  let pl1 : TxPipeline := { pl with builder := blockBuilderFinalizeWithPadding pl.builder }
  have hs1 : SameTx pl pl1 := ⟨rfl, rfl, rfl, rfl, rfl, rfl, rfl, rfl⟩
  have hlimit1 : pl1.builder.kLimit = k := hfinal
  obtain ⟨hs, hat⟩ := encodeAndReset_at clk hk hlimit1 h0
  exact ⟨hs1.trans hs, hat⟩

/-! ## Adding fragments -/

/-- The loop over a list that is added in two parts. -/
theorem addFragments_append (clk : Nat → Nat) (l l' : List Symbol) (pl : TxPipeline) :
    addFragments wh clk (l ++ l') pl
      = if (addFragments wh clk l pl).1 = 0 then
          addFragments wh clk l' (addFragments wh clk l pl).2
        else addFragments wh clk l pl := by
  induction l generalizing pl with
  | nil => exact (if_pos rfl).symm
  | cons sym rest ih =>
      rw [List.cons_append, addFragments, addFragments]
      dsimp only
      split
      · exact ih _
      · split
        · split
          · exact (if_neg (show ¬ (-1 : Int) = 0 by decide)).symm
          · exact ih _
        · exact ih _

/-- A builder with room takes a fragment. -/
theorem At.added {x : Nat} (h : At k x pl) (clk : Nat → Nat) (sym : Symbol) :
    (blockBuilderAddSymbol pl.builder sym (clk pl.clock)).1
        = (if pl.builder.symbolCount + 1 = k then 1 else 0) ∧
      (added clk pl sym).builder =
        { pl.builder with
          symbols := Function.update pl.builder.symbols pl.builder.symbolCount
            (copySymbol (pl.builder.symbols pl.builder.symbolCount) sym
              pl.builder.symbolSize)
          symbolCount := pl.builder.symbolCount + 1
          firstActivity := if pl.builder.symbolCount = 0 then clk pl.clock
            else pl.builder.firstActivity } := by
  have hlim := h.kLimit
  have hroom := h.room
  rw [FsoTxPipeline.added, blockBuilderAddSymbol, if_neg (by omega), if_neg (by omega),
    ← hlim]
  exact ⟨rfl, rfl⟩

/-- It is encoded when that was the last one it had room for. -/
theorem addFragments_single (wh : Wirehair) (clk : Nat → Nat) {x : Nat} (h : At k x pl)
    (sym : Symbol) :
    addFragments wh clk [sym] pl
      = if pl.builder.symbolCount + 1 = k then
          (if (encodeAndReset wh clk (added clk pl sym)).1 ≠ 0 then
            (-1, (encodeAndReset wh clk (added clk pl sym)).2)
          else (0, tickAndDrainInterleaver clk (encodeAndReset wh clk (added clk pl sym)).2))
        else (0, added clk pl sym) := by
  have hrc := (h.added clk sym).1
  by_cases hfull : pl.builder.symbolCount + 1 = k
  · rw [if_pos hfull] at hrc ⊢
    rw [addFragments, hrc]
    rfl
  · rw [if_neg hfull] at hrc ⊢
    rw [addFragments, hrc]
    rfl

/-- A fragment that is added: the block it fills was encoded. -/
theorem addFragments_single_ok {clk : Nat → Nat} {x : Nat} (h : At k x pl) {sym : Symbol}
    (h0 : (addFragments wh clk [sym] pl).1 = 0) :
    (pl.builder.symbolCount + 1 = k ∧ (encodeAndReset wh clk (added clk pl sym)).1 = 0 ∧
      addFragments wh clk [sym] pl
        = (0, tickAndDrainInterleaver clk (encodeAndReset wh clk (added clk pl sym)).2)) ∨
    (pl.builder.symbolCount + 1 ≠ k ∧
      addFragments wh clk [sym] pl = (0, added clk pl sym)) := by
  rw [addFragments_single wh clk h sym] at h0 ⊢
  by_cases hfull : pl.builder.symbolCount + 1 = k
  · rw [if_pos hfull] at h0 ⊢
    by_cases he : (encodeAndReset wh clk (added clk pl sym)).1 ≠ 0
    · rw [if_pos he] at h0
      simp at h0
    · rw [if_neg he]
      exact .inl ⟨hfull, not_not.mp he, rfl⟩
  · rw [if_neg hfull]
    exact .inr ⟨hfull, rfl⟩

/-- **One fragment** moves the builder on by one place, over the end of a block
    when the block is full. -/
theorem addFragments_one (clk : Nat → Nat) {x : Nat} (h : At k x pl) (sym : Symbol)
    (h0 : (addFragments wh clk [sym] pl).1 = 0) :
    SameTx pl (addFragments wh clk [sym] pl).2 ∧
      At k (x + 1) (addFragments wh clk [sym] pl).2 := by
  have hroom := h.room
  have hs1 : SameTx pl (added clk pl sym) := ⟨rfl, rfl, rfl, rfl, rfl, rfl, rfl, rfl⟩
  have hadd := (h.added clk sym).2
  have hlim1 : (added clk pl sym).builder.kLimit = k := by
    rw [hadd]
    exact h.kLimit
  rcases addFragments_single_ok h h0 with ⟨hfull, he, heq⟩ | ⟨hfull, heq⟩
  · rw [heq]
    obtain ⟨hs, hat⟩ := encodeAndReset_at clk (by omega) hlim1 he
    have ht := tick_sameBlock clk (encodeAndReset wh clk (added clk pl sym)).2
    have hnum : k * ((added clk pl sym).blocksBuilt + 1) = x + 1 := by
      show k * (pl.blocksBuilt + 1) = x + 1
      rw [h.number, Nat.mul_succ]
      omega
    rw [← hnum]
    exact ⟨(hs1.trans hs).trans ht.tx, hat.same ht⟩
  · rw [heq]
    refine ⟨hs1, hlim1, ?_, ?_⟩
    · rw [hadd]
      show pl.builder.symbolCount + 1 < k
      omega
    · rw [hadd]
      show x + 1 = k * pl.blocksBuilt + (pl.builder.symbolCount + 1)
      rw [h.number, Nat.add_assoc]

/-- **The loop** takes one place for each fragment. -/
theorem addFragments_at (clk : Nat → Nat) {x : Nat} (h : At k x pl) (l : List Symbol)
    (h0 : (addFragments wh clk l pl).1 = 0) :
    SameTx pl (addFragments wh clk l pl).2 ∧
      At k (x + l.length) (addFragments wh clk l pl).2 := by
  induction l using List.reverseRecOn with
  | nil => exact ⟨SameTx.refl pl, h⟩
  | append_singleton l sym ih =>
      rw [addFragments_append] at h0 ⊢
      by_cases hl : (addFragments wh clk l pl).1 = 0
      · rw [if_pos hl] at h0 ⊢
        obtain ⟨hs, hat⟩ := ih hl
        obtain ⟨hs1, hat1⟩ := addFragments_one clk hat sym h0
        rw [List.length_append, List.length_singleton, ← Nat.add_assoc]
        exact ⟨hs.trans hs1, hat1⟩
      · rw [if_neg hl] at h0
        exact absurd h0 hl

/-! ## One call -/

/-- The clock goes on. -/
theorem sameBlock_clock (pl : TxPipeline) : SameBlock pl { pl with clock := pl.clock + 1 } :=
  ⟨⟨rfl, rfl, rfl, rfl, rfl, rfl, rfl, rfl⟩, rfl, rfl⟩

/-- An idle call that succeeds: a builder that is due was flushed, another is
    left alone, and the interleaver ticks. -/
theorem checkTimeoutAndTick_ok (h0 : (checkTimeoutAndTick wh clk pl).1 = 0) :
    let pl1 : TxPipeline := { pl with clock := pl.clock + 1 }
    let due := blockBuilderCheckTimeout pl.builder txBlockTimeoutMs (clk pl.clock) = 1 ∧
      0 < pl.builder.symbolCount
    (due ∧ (flushBuilder wh clk pl1).1 = 0 ∧ checkTimeoutAndTick wh clk pl
        = (0, tickAndDrainInterleaver clk (flushBuilder wh clk pl1).2)) ∨
      (¬ due ∧ checkTimeoutAndTick wh clk pl = (0, tickAndDrainInterleaver clk pl1)) := by
  intro pl1 due
  let rc := blockBuilderCheckTimeout pl.builder txBlockTimeoutMs (clk pl.clock)
  have heq : checkTimeoutAndTick wh clk pl = if rc = -1 then (-1, pl1)
      else if due then
        (if (flushBuilder wh clk pl1).1 ≠ 0 then (-1, (flushBuilder wh clk pl1).2)
        else (0, tickAndDrainInterleaver clk (flushBuilder wh clk pl1).2))
      else (0, tickAndDrainInterleaver clk pl1) := rfl
  rw [heq] at h0 ⊢
  by_cases hrc : rc = -1
  · rw [if_pos hrc] at h0
    simp at h0
  rw [if_neg hrc] at h0 ⊢
  by_cases hdue : due
  · rw [if_pos hdue] at h0 ⊢
    by_cases hf : (flushBuilder wh clk pl1).1 ≠ 0
    · rw [if_pos hf] at h0
      simp at h0
    · rw [if_neg hf]
      exact .inl ⟨hdue, not_not.mp hf, rfl⟩
  · rw [if_neg hdue]
    exact .inr ⟨hdue, rfl⟩

theorem checkTimeoutAndTick_at (clk : Nat → Nat) {x : Nat} (h : At k x pl)
    (h0 : (checkTimeoutAndTick wh clk pl).1 = 0) :
    SameTx pl (checkTimeoutAndTick wh clk pl).2 ∧
      ∃ y, x ≤ y ∧ At k y (checkTimeoutAndTick wh clk pl).2 := by
  have hroom := h.room
  have hs1 := sameBlock_clock pl
  rcases checkTimeoutAndTick_ok h0 with ⟨-, hf, heq⟩ | ⟨-, heq⟩
  · obtain ⟨hs, hat⟩ := flushBuilder_at clk (by omega) (h.same hs1).kLimit hf
    have ht := tick_sameBlock clk (flushBuilder wh clk { pl with clock := pl.clock + 1 }).2
    rw [heq]
    refine ⟨(hs1.tx.trans hs).trans ht.tx, _, ?_, hat.same ht⟩
    rw [h.number]
    show k * pl.blocksBuilt + pl.builder.symbolCount ≤ k * (pl.blocksBuilt + 1)
    rw [Nat.mul_succ]
    omega
  · have ht := hs1.trans (tick_sameBlock clk { pl with clock := pl.clock + 1 })
    rw [heq]
    exact ⟨ht.tx, x, le_rfl, h.same ht⟩

/-- The pipeline when `addPacket` starts to add the fragments: flushed first
    when they do not fit behind what the builder holds. -/
def packetStart (wh : Wirehair) (clk : Nat → Nat) (numFrags : Nat) (pl : TxPipeline) :
    TxPipeline :=
  if 0 < numFrags ∧ 0 < pl.builder.symbolCount ∧
      pl.builder.kLimit < pl.builder.symbolCount + numFrags then
    tickAndDrainInterleaver clk (flushBuilder wh clk pl).2
  else pl

/-- A frame that succeeds: the state in which the loop over its fragments starts,
    and what follows the loop. -/
theorem addPacket_start (clk : Nat → Nat) {x n : Nat} (h : At k x pl)
    (h0 : (addPacket wh clk n pl).1 = 0) :
    SameTx pl (packetStart wh clk n pl) ∧
      (∃ y, x ≤ y ∧ At k y (packetStart wh clk n pl) ∧ (y % k + n ≤ k ↔ n ≤ k)) ∧
      (addFragments wh clk ((List.range n).map (packetStart wh clk n pl).fragSyms)
        (packetStart wh clk n pl)).1 = 0 ∧
      addPacket wh clk n pl = checkTimeoutAndTick wh clk
        (addFragments wh clk ((List.range n).map (packetStart wh clk n pl).fragSyms)
          (packetStart wh clk n pl)).2 := by
  have hroom := h.room
  have hlim := h.kLimit
  -- the loop did not fail either
  have hloop : ∀ a : Int × TxPipeline,
      (if a.1 ≠ 0 then (-1, a.2) else checkTimeoutAndTick wh clk a.2 : Int × _).1 = 0 →
      a.1 = 0 ∧ (if a.1 ≠ 0 then (-1, a.2) else checkTimeoutAndTick wh clk a.2 : Int × _)
        = checkTimeoutAndTick wh clk a.2 := by
    intro a ha
    by_cases hbad : a.1 ≠ 0
    · rw [if_pos hbad] at ha
      simp at ha
    · exact ⟨not_not.mp hbad, if_neg hbad⟩
  rw [addPacket] at h0 ⊢
  rw [packetStart]
  by_cases hflush : 0 < n ∧ 0 < pl.builder.symbolCount ∧
      pl.builder.kLimit < pl.builder.symbolCount + n
  · simp only [if_pos hflush] at h0 ⊢
    by_cases hf : (flushBuilder wh clk pl).1 ≠ 0
    · rw [if_pos hf] at h0
      simp at h0
    rw [if_neg hf] at h0 ⊢
    obtain ⟨hs, hat⟩ := flushBuilder_at clk (by omega) hlim (not_not.mp hf)
    have ht := tick_sameBlock clk (flushBuilder wh clk pl).2
    refine ⟨hs.trans ht.tx, ⟨_, ?_, hat.same ht, ?_⟩, hloop _ h0⟩
    · rw [h.number, Nat.mul_succ]
      omega
    · rw [Nat.mul_mod_right, Nat.zero_add]
  · simp only [if_neg hflush] at h0 ⊢
    rw [if_neg (not_not_intro rfl)] at h0 ⊢
    refine ⟨SameTx.refl pl, ⟨x, le_rfl, h, ?_⟩, hloop _ h0⟩
    rw [h.mod]
    omega

end Building

/-! ## What the blocks hold -/

/-- **The law**: what is stored in the blocks encoded by `log` and in the one
    being built, with its places, is `l`. -/
structure Packs (log : List TxPipeline) (pl : TxPipeline) (l : List ((Nat × Nat) × Symbol)) :
    Prop where
  kLimit : pl.builder.kLimit = pl.cfg.k
  size : pl.builder.symbolSize = pl.cfg.symbolSize
  built : pl.blocksBuilt = log.length
  content : clipped pl.cfg.symbolSize (stored (blocksOf log pl)) = l

/-- Symbols at consecutive places from number `x` on. -/
def placed (cfg : Config) (x : Nat) (syms : List Symbol) : List ((Nat × Nat) × Symbol) :=
  (syms.zipIdx x).map fun e => (nthPlace cfg.k e.2, clipSymbol cfg.symbolSize e.1)

section Packing

variable {wh : Wirehair} {clk : Nat → Nat} {pl : TxPipeline} {log : List TxPipeline}
  {l : List ((Nat × Nat) × Symbol)} {x : Nat}

theorem Packs.same {pl' : TxPipeline} (h : Packs log pl l) (hs : SameBlock pl pl') :
    Packs log pl' l where
  kLimit := by rw [hs.builder, hs.tx.cfg]; exact h.kLimit
  size := by rw [hs.builder, hs.tx.cfg]; exact h.size
  built := hs.built.trans h.built
  content := by
    rw [blocksOf, openSymbols, hs.builder, hs.tx.cfg]
    exact h.content

/-- The stored symbols, the open block apart. -/
theorem stored_blocksOf (log : List TxPipeline) (pl : TxPipeline) :
    stored (blocksOf log pl)
      = stored (log.map blockSymbols) ++ storedAt log.length (openSymbols pl) := by
  rw [blocksOf, stored_concat, List.length_map]

/-- **A fragment** is stored at the next place. -/
theorem Packs.added (h : Packs log pl l) (hat : At pl.cfg.k x pl) (clk : Nat → Nat)
    {sym : Symbol} (hpay : sym.payloadLen ≠ 0) :
    Packs log (added clk pl sym)
      (l ++ [(nthPlace pl.cfg.k x, clipSymbol pl.cfg.symbolSize sym)]) := by
  have hadd := (hat.added clk sym).2
  have hopen : openSymbols (FsoTxPipeline.added clk pl sym) = openSymbols pl ++
      [copySymbol (pl.builder.symbols pl.builder.symbolCount) sym pl.cfg.symbolSize] := by
    rw [openSymbols, hadd, openSymbols, ← h.size]
    show (List.range (pl.builder.symbolCount + 1)).map (Function.update pl.builder.symbols
      pl.builder.symbolCount (copySymbol _ sym pl.builder.symbolSize)) = _
    rw [List.range_succ, List.map_append, List.map_singleton, Function.update_self]
    congr 1
    refine List.map_congr_left fun i hi => ?_
    exact Function.update_of_ne (Nat.ne_of_lt (List.mem_range.mp hi)) _ _
  constructor
  · rw [hadd]
    exact h.kLimit
  · rw [hadd]
    exact h.size
  · exact h.built
  · have hcopy : (copySymbol (pl.builder.symbols pl.builder.symbolCount) sym
        pl.cfg.symbolSize).payloadLen ≠ 0 := hpay
    show clipped pl.cfg.symbolSize (stored _) = _
    rw [stored_blocksOf, hopen, storedAt_concat _ _ hcopy, ← List.append_assoc,
      ← stored_blocksOf, clipped, List.map_append, List.map_singleton, ← h.content, clipped,
      hat.place, h.built, openSymbols, List.length_map, List.length_range]
    show _ ++ [(_, clipSymbol pl.cfg.symbolSize (copySymbol _ sym pl.cfg.symbolSize))] = _
    rw [clipSymbol_copySymbol]
    rfl

/-- **Padding** stores nothing; it fills the block. -/
theorem Packs.finalized (h : Packs log pl l) (hat : At pl.cfg.k x pl) :
    Packs log (finalized pl) l ∧
      (FsoTxPipeline.finalized pl).builder.symbolCount = pl.cfg.k := by
  have hroom := hat.room
  have hlim := h.kLimit
  have hbuilder : (FsoTxPipeline.finalized pl).builder =
      { pl.builder with
        symbols := fun i =>
          if pl.builder.symbolCount ≤ i ∧ i < pl.builder.kLimit then
            paddingSymbol (pl.builder.symbols i) pl.builder.symbolSize
          else pl.builder.symbols i
        symbolCount := pl.builder.kLimit } := by
    rw [FsoTxPipeline.finalized, blockBuilderFinalizeWithPadding, if_neg (by omega),
      if_neg (by omega)]
  have hopen : openSymbols (FsoTxPipeline.finalized pl) = openSymbols pl ++
      (List.range' pl.builder.symbolCount (pl.cfg.k - pl.builder.symbolCount)).map fun i =>
        paddingSymbol (pl.builder.symbols i) pl.builder.symbolSize := by
    have hsplit : List.range pl.cfg.k = List.range pl.builder.symbolCount ++
        List.range' pl.builder.symbolCount (pl.cfg.k - pl.builder.symbolCount) := by
      have happ : List.range' 0 pl.builder.symbolCount ++
          List.range' (0 + pl.builder.symbolCount) (pl.cfg.k - pl.builder.symbolCount)
            = List.range' 0 (pl.builder.symbolCount + (pl.cfg.k - pl.builder.symbolCount)) :=
        List.range'_append_1
      rw [Nat.zero_add, Nat.add_sub_cancel' (Nat.le_of_lt hroom)] at happ
      rw [List.range_eq_range', List.range_eq_range', happ]
    rw [openSymbols, hbuilder]
    show (List.range pl.builder.kLimit).map _ = _
    rw [hlim, hsplit, List.map_append, openSymbols]
    congr 1
    · refine List.map_congr_left fun i hi => if_neg fun hge => ?_
      exact absurd (List.mem_range.mp hi) (Nat.not_lt.mpr hge.1)
    · refine List.map_congr_left fun i hi => if_pos ?_
      have hmem := List.mem_range'_1.mp hi
      omega
  refine ⟨⟨?_, ?_, h.built, ?_⟩, ?_⟩
  · rw [hbuilder]
    exact hlim
  · rw [hbuilder]
    exact h.size
  · show clipped pl.cfg.symbolSize (stored _) = _
    rw [stored_blocksOf, hopen, storedAt_padded, ← stored_blocksOf]
    · exact h.content
    · intro s hs
      obtain ⟨i, -, rfl⟩ := List.mem_map.mp hs
      rfl
  · rw [hbuilder]
    exact hlim

/-- **An encode** hands over the block that was being built, and the next one
    is empty. -/
theorem Packs.encoded (h : Packs log pl l) (hfull : pl.builder.symbolCount = pl.cfg.k)
    (h0 : (encodeAndReset wh clk pl).1 = 0) :
    Packs (log ++ [pl]) (encodeAndReset wh clk pl).2 l := by
  obtain ⟨b, pl', -, -, hs, heq⟩ := encodeAndReset_ok h0
  have hcfg : pl'.cfg = pl.cfg := hs.tx.cfg
  have hblock : blockSymbols pl = openSymbols pl := by
    rw [blockSymbols, openSymbols, hfull]
  rw [heq]
  refine ⟨?_, ?_, ?_, ?_⟩
  · show pl'.builder.kLimit = pl'.cfg.k
    rw [hs.builder, hcfg]
    exact h.kLimit
  · show pl'.builder.symbolSize = pl'.cfg.symbolSize
    rw [hs.builder, hcfg]
    exact h.size
  · show pl'.blocksBuilt = (log ++ [pl]).length
    rw [hs.built, List.length_append, List.length_singleton]
    exact congrArg (· + 1) h.built
  · show clipped pl'.cfg.symbolSize (stored _) = l
    rw [hcfg, ← h.content, stored_blocksOf, List.map_append, List.map_singleton, hblock]
    exact congrArg _ (List.append_nil _)

theorem Packs.flushed (h : Packs log pl l) (hat : At pl.cfg.k x pl)
    (h0 : (flushBuilder wh clk pl).1 = 0) :
    Packs (log ++ [FsoTxPipeline.finalized pl]) (flushBuilder wh clk pl).2 l := by
  obtain ⟨hp, hfull⟩ := h.finalized hat
  exact hp.encoded hfull h0

/-- **The loop** stores the fragments at consecutive places. -/
theorem addFragments_packs (syms : List Symbol) (hpay : ∀ s ∈ syms, s.payloadLen ≠ 0)
    (h : Packs log pl l) (hat : At pl.cfg.k x pl) (h0 : (addFragments wh clk syms pl).1 = 0) :
    Packs (log ++ callsAdd wh clk syms pl) (addFragments wh clk syms pl).2
      (l ++ placed pl.cfg x syms) := by
  induction syms generalizing pl log l x with
  | nil =>
      rw [callsAdd, List.append_nil]
      show Packs log pl (l ++ [])
      rw [List.append_nil]
      exact h
  | cons sym rest ih =>
      have hone : (addFragments wh clk [sym] pl).1 = 0 := by
        by_contra hbad
        have hsplit : addFragments wh clk ([sym] ++ rest) pl = _ :=
          addFragments_append clk [sym] rest pl
        rw [if_neg hbad] at hsplit
        exact hbad (hsplit ▸ h0)
      obtain ⟨hsame, hat1⟩ := addFragments_one clk hat sym hone
      have hrc := (hat.added clk sym).1
      have hp1 := h.added hat clk (hpay sym List.mem_cons_self)
      have hcons : l ++ placed pl.cfg x (sym :: rest)
          = l ++ [(nthPlace pl.cfg.k x, clipSymbol pl.cfg.symbolSize sym)]
            ++ placed pl.cfg (x + 1) rest := by
        rw [List.append_assoc]
        rfl
      have hrest : ∀ s ∈ rest, s.payloadLen ≠ 0 := fun s hs => hpay s (List.mem_cons_of_mem _ hs)
      rw [hcons]
      rcases addFragments_single_ok hat hone with ⟨hfull, he, heq⟩ | ⟨hfull, heq⟩
      · -- the block is full: it is handed over, and the window ticks
        rw [heq] at hsame hat1
        rw [if_pos hfull] at hrc
        have hcount : (added clk pl sym).builder.symbolCount = (added clk pl sym).cfg.k := by
          rw [(hat.added clk sym).2]
          exact hfull
        have hp2 := (hp1.encoded hcount he).same
          (tick_sameBlock clk (encodeAndReset wh clk (added clk pl sym)).2)
        obtain ⟨hadd, hcalls⟩ := addFragments_full rest hrc he
        rw [hadd] at h0 ⊢
        rw [hcalls, List.append_cons]
        rw [← hsame.cfg] at hat1
        have hfinal := ih hrest hp2 hat1 h0
        rw [hsame.cfg] at hfinal
        exact hfinal
      · rw [heq] at hat1
        rw [if_neg hfull] at hrc
        obtain ⟨hadd, hcalls⟩ := addFragments_more wh rest hrc
        rw [hadd] at h0 ⊢
        rw [hcalls]
        exact ih hrest hp1 hat1 h0

/-- **The end of a call** stores nothing. -/
theorem checkTimeoutAndTick_packs (h : Packs log pl l) (hat : At pl.cfg.k x pl)
    (h0 : (checkTimeoutAndTick wh clk pl).1 = 0) :
    Packs (log ++ callsTimeout clk pl) (checkTimeoutAndTick wh clk pl).2 l := by
  have hs1 := sameBlock_clock pl
  have hp1 := h.same hs1
  have hat1 := hat.same hs1
  rw [callsTimeout]
  rcases checkTimeoutAndTick_ok h0 with ⟨hdue, hf, heq⟩ | ⟨hnot, heq⟩
  · rw [heq, if_pos hdue]
    exact (hp1.flushed hat1 hf).same (tick_sameBlock clk _)
  · rw [heq, if_neg hnot, List.append_nil]
    exact hp1.same (tick_sameBlock clk _)

/-- The calls of a frame that succeeds: the one that makes room, those of the
    loop, and that of the end. -/
theorem callsPacket_start (hat : At pl.cfg.k x pl) (h : Packs log pl l) {n : Nat}
    (h0 : (addPacket wh clk n pl).1 = 0) :
    ∃ first, Packs (log ++ first) (packetStart wh clk n pl) l ∧
      callsPacket wh clk n pl = first ++
        (callsAdd wh clk ((List.range n).map (packetStart wh clk n pl).fragSyms)
            (packetStart wh clk n pl) ++
          callsTimeout clk (addFragments wh clk
            ((List.range n).map (packetStart wh clk n pl).fragSyms)
            (packetStart wh clk n pl)).2) := by
  obtain ⟨-, -, ha, -⟩ := addPacket_start clk hat h0
  rw [callsPacket]
  rw [packetStart] at ha ⊢
  by_cases hflush : 0 < n ∧ 0 < pl.builder.symbolCount ∧
      pl.builder.kLimit < pl.builder.symbolCount + n
  · have hf : (flushBuilder wh clk pl).1 = 0 := by
      by_contra hbad
      rw [addPacket] at h0
      simp only [if_pos hflush] at h0
      rw [if_pos hbad] at h0
      simp at h0
    simp only [if_pos hflush] at ha ⊢
    rw [if_neg (not_not_intro hf), if_neg (not_not_intro ha)]
    exact ⟨_, (h.flushed hat hf).same (tick_sameBlock clk _), rfl⟩
  · simp only [if_neg hflush] at ha ⊢
    rw [if_neg (not_not_intro rfl), if_neg (not_not_intro ha)]
    exact ⟨[], by rw [List.append_nil]; exact h, rfl⟩

/-- **A frame**: its fragments are stored at consecutive places, and these are in
    one block exactly when they fit in one. -/
theorem addPacket_places (clk : Nat → Nat) {n : Nat} (hat : At pl.cfg.k x pl)
    (hpay : ∀ j, j < n → (pl.fragSyms j).payloadLen ≠ 0)
    (h0 : (addPacket wh clk n pl).1 = 0) :
    SameTx pl (addPacket wh clk n pl).2 ∧
      ∃ y z, x ≤ y ∧ y + n ≤ z ∧ (y % pl.cfg.k + n ≤ pl.cfg.k ↔ n ≤ pl.cfg.k) ∧
        At pl.cfg.k z (addPacket wh clk n pl).2 ∧
        ∀ log l, Packs log pl l → Packs (log ++ callsPacket wh clk n pl)
          (addPacket wh clk n pl).2
          (l ++ placed pl.cfg y ((List.range n).map pl.fragSyms)) := by
  obtain ⟨hs, ⟨y, hxy, haty, hiff⟩, ha, heq⟩ := addPacket_start clk hat h0
  have hpacket := h0
  rw [heq] at h0 ⊢
  obtain ⟨hs1, hat1⟩ := addFragments_at clk haty _ ha
  obtain ⟨hs2, z, hz, hat2⟩ := checkTimeoutAndTick_at clk hat1 h0
  rw [List.length_map, List.length_range] at hz
  refine ⟨(hs.trans hs1).trans hs2, y, z, hxy, hz, hiff, hat2, fun log l h => ?_⟩
  obtain ⟨first, hp, hfirst⟩ := callsPacket_start hat h hpacket
  have hall : ∀ s ∈ (List.range n).map (packetStart wh clk n pl).fragSyms,
      s.payloadLen ≠ 0 := by
    intro s hmem
    obtain ⟨j, hj, rfl⟩ := List.mem_map.mp hmem
    rw [hs.fragSyms]
    exact hpay j (List.mem_range.mp hj)
  rw [← hs.cfg] at haty hat1
  have hp1 := addFragments_packs _ hall hp haty ha
  rw [← hs1.cfg] at hat1
  have hp2 := checkTimeoutAndTick_packs hp1 hat1 h0
  rw [hs.fragSyms, hs.cfg, List.append_assoc, List.append_assoc] at hp2
  rw [hfirst, hs.fragSyms]
  exact hp2

end Packing

/-! ## Runs -/

/-- The number of fragments `fragment_packet` cuts a frame into: it works with
    the 16-bit symbol size. -/
def frameFrags (cfg : Config) (pkt : List UInt8) : Nat :=
  fragmentCount pkt.length (UInt16.ofNat cfg.symbolSize).toNat

/-- The fragments of an accepted frame. -/
def frameSymbols (cfg : Config) (id : UInt32) (pkt : List UInt8) : List Symbol :=
  (List.range (frameFrags cfg pkt)).map
    (fragment pkt id (UInt16.ofNat cfg.symbolSize).toNat)

/-- The frame that a call accepts. -/
def acceptedOnce (pl : TxPipeline) : TxEvent → Option (List UInt8)
  | .idle => none
  | .error => none
  | .frame pkt answered =>
      onFrame pl pkt answered none (fun _ _ => none) fun pkt _ => some pkt

/-- What one call stores when the next place had number `x`; the next one then
    has number `z`. -/
inductive CallPlaces (cfg : Config) (x z : Nat) (pl pl' : TxPipeline) :
    Option (List UInt8) → List ((Nat × Nat) × Symbol) → Prop where
  | silent (hacc : pl'.accepted = pl.accepted)
      (hid : pl'.packetIdCounter = pl.packetIdCounter) (hz : x ≤ z) :
      CallPlaces cfg x z pl pl' none []
  | frame (pkt : List UInt8) (y : Nat) (hacc : pl'.accepted = pl.accepted ++ [pkt])
      (hid : pl'.packetIdCounter = pl.packetIdCounter + 1)
      (hy : x ≤ y) (hz : y + frameFrags cfg pkt ≤ z)
      (hfit : y % cfg.k + frameFrags cfg pkt ≤ cfg.k ↔ frameFrags cfg pkt ≤ cfg.k) :
      CallPlaces cfg x z pl pl' (some pkt)
        (placed cfg y (frameSymbols cfg pl.packetIdCounter pkt))

/-- A frame that is not refused: its fragments, none of them empty. -/
theorem fragmentPacket_taken {pkt : List UInt8} {id : UInt32} {ss max : UInt16}
    {out : Nat → Symbol} (h : ¬ (fragmentPacket pkt id ss out max).1 < 0) :
    (fragmentPacket pkt id ss out max).1 = fragmentCount pkt.length ss.toNat ∧
      ∀ j, j < fragmentCount pkt.length ss.toNat →
        (fragmentPacket pkt id ss out max).2 j = fragment pkt id ss.toNat j ∧
          ((fragmentPacket pkt id ss out max).2 j).payloadLen ≠ 0 := by
  by_cases hsize : 0 < ss.toNat ∧ ss.toNat ≤ maxSymbolDataSize
  · rcases fragmentPacket_spec pkt id hsize.1 hsize.2 out max with ⟨-, hrej⟩ | ⟨-, hcnt, hget⟩
    · rw [hrej] at h
      exact absurd (show (-1 : Int) < 0 by decide) h
    · refine ⟨hcnt, fun j hj => ⟨hget j hj, ?_⟩⟩
      rw [hget j hj]
      intro hz
      have hz' : (UInt16.ofNat (fragmentLen pkt.length ss.toNat j)).toNat = 0 :=
        congrArg UInt16.toNat hz
      have hpos := fragmentLen_pos hsize.1 hj
      have hle := fragmentLen_le pkt.length ss.toNat j
      have hlt := ss.toNat_lt
      rw [UInt16.toNat_ofNat'] at hz'
      omega
  · rw [fragmentPacket_refused hsize] at h
    exact absurd (show (-1 : Int) < 0 by decide) h

/-- **One call** of a run. -/
theorem runOnce_places (wh : Wirehair) (clk : Nat → Nat) {pl : TxPipeline} {x : Nat}
    (h : At pl.cfg.k x pl) (ev : TxEvent) (h0 : (txPipelineRunOnce wh clk pl ev).1 = 0) :
    (txPipelineRunOnce wh clk pl ev).2.cfg = pl.cfg ∧
      ∃ z seg, CallPlaces pl.cfg x z pl (txPipelineRunOnce wh clk pl ev).2
          (acceptedOnce pl ev) seg ∧
        At pl.cfg.k z (txPipelineRunOnce wh clk pl ev).2 ∧
        ∀ log l, Packs log pl l → Packs (log ++ callsOnce wh clk pl ev)
          (txPipelineRunOnce wh clk pl ev).2 (l ++ seg) := by
  have hstay : ∀ log l, Packs log pl l → Packs (log ++ []) pl (l ++ []) := by
    intro log l hp
    rw [List.append_nil, List.append_nil]
    exact hp
  cases ev with
  | idle =>
      obtain ⟨hs, z, hz, hat⟩ := checkTimeoutAndTick_at clk h h0
      refine ⟨hs.cfg, z, [], .silent hs.accepted hs.packetIdCounter hz, hat, ?_⟩
      intro log l hp
      rw [List.append_nil]
      exact checkTimeoutAndTick_packs hp h h0
  | error => exact ⟨rfl, x, [], .silent rfl rfl le_rfl, h, hstay⟩
  | frame pkt answered =>
      rw [runOnce_frame] at h0 ⊢
      rw [callsOnce_frame, acceptedOnce]
      cases frameWay pl pkt answered with
      | ignored way =>
          rw [way, way, way]
          exact ⟨rfl, x, [], .silent rfl rfl le_rfl, h, hstay⟩
      | refused r cut neg way =>
          rw [way, way, way]
          refine ⟨rfl, x, [], .silent rfl rfl le_rfl, ⟨h.kLimit, h.room, h.number⟩, ?_⟩
          intro log l hp
          obtain ⟨h1, h2, h3, h4⟩ := hstay log l hp
          exact ⟨h1, h2, h3, h4⟩
      | taken r cut nonneg way =>
          rw [way] at h0 ⊢
          rw [way, way]
          rw [← cut] at nonneg
          obtain ⟨hcount, hfrag⟩ := fragmentPacket_taken nonneg
          rw [cut] at hcount hfrag
          rw [hcount, Int.toNat_natCast] at h0 ⊢
          have hat1 : At pl.cfg.k x (accepting pl (pkt.take txRxBufSize) r.2) :=
            ⟨h.kLimit, h.room, h.number⟩
          obtain ⟨hs, y, z, hxy, hyz, hfit, hatz, hpacks⟩ :=
            addPacket_places clk hat1 (fun j hj => (hfrag j hj).2) h0
          have hsyms : (List.range (fragmentCount (pkt.take txRxBufSize).length
                (UInt16.ofNat pl.cfg.symbolSize).toNat)).map r.2
              = frameSymbols pl.cfg pl.packetIdCounter (pkt.take txRxBufSize) :=
            List.map_congr_left fun j hj => (hfrag j (List.mem_range.mp hj)).1
          refine ⟨hs.cfg, z, _, .frame (pkt.take txRxBufSize) y hs.accepted
            hs.packetIdCounter hxy hyz hfit, hatz, ?_⟩
          intro log l hp
          rw [← hsyms]
          exact hpacks log l ⟨hp.kLimit, hp.size, hp.built, hp.content⟩

theorem checkTimeoutAndTick_rc (wh : Wirehair) (clk : Nat → Nat) (pl : TxPipeline) :
    (checkTimeoutAndTick wh clk pl).1 = 0 ∨ (checkTimeoutAndTick wh clk pl).1 = -1 := by
  rw [checkTimeoutAndTick]
  dsimp only
  split
  · exact .inr rfl
  · split
    · split
      · exact .inr rfl
      · exact .inl rfl
    · exact .inl rfl

theorem addPacket_rc (wh : Wirehair) (clk : Nat → Nat) (n : Nat) (pl : TxPipeline) :
    (addPacket wh clk n pl).1 = 0 ∨ (addPacket wh clk n pl).1 = -1 := by
  rw [addPacket]
  dsimp only
  split
  · split
    · exact .inr rfl
    · split
      · exact .inr rfl
      · exact checkTimeoutAndTick_rc wh clk _
  · split
    · exact .inr rfl
    · split
      · exact .inr rfl
      · exact checkTimeoutAndTick_rc wh clk _

theorem runOnce_rc (wh : Wirehair) (clk : Nat → Nat) (pl : TxPipeline) (ev : TxEvent) :
    (txPipelineRunOnce wh clk pl ev).1 = 0 ∨ (txPipelineRunOnce wh clk pl ev).1 = -1 := by
  cases ev with
  | idle => exact checkTimeoutAndTick_rc wh clk pl
  | error => exact .inl rfl
  | frame pkt answered =>
      rw [runOnce_frame]
      cases frameWay pl pkt answered with
      | ignored way => exact .inl (by rw [way])
      | refused r cut neg way => exact .inl (by rw [way])
      | taken r cut nonneg way =>
          rw [way]
          exact addPacket_rc wh clk _ _

/-- A run that does not fail: neither does its first call, and the run goes on
    from there. -/
theorem txRun_cons_ok {wh : Wirehair} {clk : Nat → Nat} {ev : TxEvent}
    {evs : List TxEvent} {pl : TxPipeline} (h : (txRun wh clk (ev :: evs) pl).1 = 0) :
    (txPipelineRunOnce wh clk pl ev).1 = 0 ∧
      txRun wh clk (ev :: evs) pl = txRun wh clk evs (txPipelineRunOnce wh clk pl ev).2 := by
  rcases runOnce_rc wh clk pl ev with hok | hbad
  · exact ⟨hok, txRun_cons evs hok⟩
  · rw [txRun, if_pos hbad, hbad] at h
    simp at h

/-- Where the fragments of accepted frame number `a` are: they are stored in
    order, and they are in one block exactly when there are at most `k`. -/
structure Placed (cfg : Config) (frame : List UInt8 × Nat)
    (seg : List ((Nat × Nat) × Symbol)) : Prop where
  fragments : seg.map Prod.snd
    = (frameSymbols cfg (UInt32.ofNat frame.2) frame.1).map (clipSymbol cfg.symbolSize)
  oneBlock : InOneBlock (seg.map Prod.fst) ↔ frameFrags cfg frame.1 ≤ cfg.k

theorem placed_spec {cfg : Config} (hk : 0 < cfg.k) {pkt : List UInt8} {a y : Nat}
    (hfit : y % cfg.k + frameFrags cfg pkt ≤ cfg.k ↔ frameFrags cfg pkt ≤ cfg.k) :
    Placed cfg (pkt, a) (placed cfg y (frameSymbols cfg (UInt32.ofNat a) pkt)) := by
  constructor
  · rw [placed, List.map_map]
    show List.map (clipSymbol cfg.symbolSize ∘ Prod.fst) _ = _
    rw [← List.map_map, List.zipIdx_map_fst]
  · have hplaces : (placed cfg y (frameSymbols cfg (UInt32.ofNat a) pkt)).map Prod.fst
        = (List.range (frameFrags cfg pkt)).map fun j => nthPlace cfg.k (y + j) := by
      rw [placed, List.map_map]
      show List.map (nthPlace cfg.k ∘ Prod.snd) _ = _
      rw [← List.map_map, List.zipIdx_map_snd, frameSymbols, List.length_map,
        List.length_range, List.range'_eq_map_range, List.map_map]
      rfl
    rw [hplaces]
    exact (inOneBlock_iff hk).trans hfit

/-- **A run**: what is stored is cut into the fragments of the accepted frames. -/
theorem run_places (wh : Wirehair) (clk : Nat → Nat) (evs : List TxEvent)
    {pl : TxPipeline} {x : Nat} (h : At pl.cfg.k x pl)
    (hid : pl.packetIdCounter = UInt32.ofNat pl.accepted.length)
    {log : List TxPipeline} {l : List ((Nat × Nat) × Symbol)} (hp : Packs log pl l)
    (h0 : (txRun wh clk evs pl).1 = 0) :
    (txRun wh clk evs pl).2.cfg = pl.cfg ∧
    ∃ frames segs, (txRun wh clk evs pl).2.accepted = pl.accepted ++ frames ∧
      List.Forall₂ (Placed pl.cfg) (frames.zipIdx pl.accepted.length) segs ∧
      Packs (log ++ callsRun wh clk evs pl) (txRun wh clk evs pl).2 (l ++ segs.flatten) := by
  have hroom := h.room
  induction evs generalizing pl x log l with
  | nil =>
      refine ⟨rfl, [], [], (List.append_nil _).symm, .nil, ?_⟩
      rw [callsRun, List.flatten_nil, List.append_nil, List.append_nil]
      exact hp
  | cons ev evs ih =>
      obtain ⟨hev, hcons⟩ := txRun_cons_ok h0
      obtain ⟨hcfg, w, seg, hcall, hat, hpacks⟩ := runOnce_places wh clk h ev hev
      have hcalls : callsRun wh clk (ev :: evs) pl = callsOnce wh clk pl ev ++
          callsRun wh clk evs (txPipelineRunOnce wh clk pl ev).2 := by
        rw [callsRun]
        exact congrArg _ (if_neg (by rw [hev]; decide))
      have hp1 := hpacks log l hp
      rw [hcons] at h0 ⊢
      rw [hcalls, ← List.append_assoc]
      rw [← hcfg] at hat
      generalize txPipelineRunOnce wh clk pl ev = r at hcfg hcall hat hp1 h0 ⊢
      generalize acceptedOnce pl ev = taken at hcall
      cases hcall with
      | silent hacc hid' hz =>
          rw [List.append_nil] at hp1
          obtain ⟨hc, frames, segs, ha, hseg, hpk⟩ :=
            ih hat (by rw [hid', hacc, hid]) hp1 h0 hat.room
          rw [hacc] at ha hseg
          rw [hcfg] at hseg
          exact ⟨hc.trans hcfg, frames, segs, ha, hseg, hpk⟩
      | frame pkt y hacc hid' hy hz hfit =>
          have hlen : r.2.accepted.length = pl.accepted.length + 1 := by
            rw [hacc, List.length_append, List.length_singleton]
          obtain ⟨hc, frames, segs, ha, hseg, hpk⟩ :=
            ih hat (by rw [hid', hlen, hid, UInt32.ofNat_add]; rfl) hp1 h0 hat.room
          rw [hlen, hcfg] at hseg
          have hfirst : Placed pl.cfg (pkt, pl.accepted.length)
              (placed pl.cfg y (frameSymbols pl.cfg pl.packetIdCounter pkt)) := by
            rw [hid]
            exact placed_spec (by omega) hfit
          refine ⟨hc.trans hcfg, pkt :: frames, _ :: segs, ?_, .cons hfirst hseg, ?_⟩
          · rw [ha, hacc, List.append_assoc]
            rfl
          · rw [List.flatten_cons, ← List.append_assoc]
            exact hpk

theorem at_create {mem : Nat → Nat → Symbol} {lanMac : List UInt8} {cfg : Config}
    {pl : TxPipeline} (hc : txPipelineCreate mem lanMac cfg = some pl) :
    pl.cfg = cfg ∧ pl.accepted = [] ∧ At cfg.k 0 pl := by
  obtain ⟨hk, hsize, -, -, builder, fec, il, hb, -, -, rfl⟩ := txPipelineCreate_some hc
  rw [blockBuilderInit, if_neg (by omega)] at hb
  obtain rfl := Option.some.inj hb
  exact ⟨rfl, rfl, rfl, show 0 < cfg.k by omega, rfl⟩

theorem packs_create {mem : Nat → Nat → Symbol} {lanMac : List UInt8} {cfg : Config}
    {pl : TxPipeline} (hc : txPipelineCreate mem lanMac cfg = some pl) :
    pl.packetIdCounter = 0 ∧ Packs [] pl [] := by
  obtain ⟨hk, hsize, -, -, builder, fec, il, hb, -, -, rfl⟩ := txPipelineCreate_some hc
  rw [blockBuilderInit, if_neg (by omega)] at hb
  obtain rfl := Option.some.inj hb
  exact ⟨rfl, rfl, rfl, rfl, rfl⟩

/-- **Fragments of one frame and blocks.**  In every run without a failed call,
    the symbols stored in the blocks that were encoded, as many as were built,
    and in the one being built are the fragments of the accepted frames, in
    order: each frame has its segment of them.  The places are listed from the
    first to the last, so nothing stands between fragments at consecutive
    positions.  And the places of a frame are consecutive positions of one block
    exactly when it has at most `k` fragments. -/
theorem packet_in_one_block_iff (wh : Wirehair) (clk : Nat → Nat)
    (mem : Nat → Nat → Symbol) (lanMac : List UInt8) (cfg : Config) (pl0 : TxPipeline)
    (hcreate : txPipelineCreate mem lanMac cfg = some pl0) (evs : List TxEvent)
    (hrun : (txRun wh clk evs pl0).1 = 0) :
    (txRun wh clk evs pl0).2.blocksBuilt = (callsRun wh clk evs pl0).length ∧
      ((storedRun wh clk evs pl0).map Prod.fst).Pairwise Earlier ∧
      ∃ segs, storedRun wh clk evs pl0 = segs.flatten ∧
        List.Forall₂ (Placed cfg) (txRun wh clk evs pl0).2.accepted.zipIdx segs := by
  obtain ⟨hcfg, hacc, hat⟩ := at_create hcreate
  obtain ⟨hid, hp⟩ := packs_create hcreate
  rw [← hcfg] at hat ⊢
  obtain ⟨hrunCfg, frames, segs, ha, hseg, hpacks⟩ :=
    run_places wh clk evs hat (by rw [hid, hacc]; rfl) hp hrun
  refine ⟨hpacks.built, ?_, ?_⟩
  · rw [storedRun, clipped_fst]
    exact stored_sorted _
  · refine ⟨segs, ?_, ?_⟩
    · rw [storedRun, ← hrunCfg]
      exact hpacks.content
    · rw [hacc] at ha hseg
      rw [ha]
      exact hseg

/-- Two frames that fit: the second one waits for the next block. -/
theorem packet_in_one_block_smallLink :
    (storedRun parity (fun t => t)
        [.frame [1, 2, 3, 4] false, .frame [5, 6, 7, 8, 9] false] smallPipeline).map Prod.fst
        = [(0, 0), (1, 0), (1, 1)] ∧
      ∃ first second, storedRun parity (fun t => t)
          [.frame [1, 2, 3, 4] false, .frame [5, 6, 7, 8, 9] false] smallPipeline
            = first ++ second ∧
        InOneBlock (first.map Prod.fst) ∧ InOneBlock (second.map Prod.fst) := by
  obtain ⟨-, -, segs, hsegs, hplaced⟩ := packet_in_one_block_iff parity (fun t => t)
    (fun _ _ => symbolInit) [] smallLink smallPipeline rfl
    [.frame [1, 2, 3, 4] false, .frame [5, 6, 7, 8, 9] false] (by decide +kernel)
  have hacc : (txRun parity (fun t => t)
      [.frame [1, 2, 3, 4] false, .frame [5, 6, 7, 8, 9] false] smallPipeline).2.accepted
        = [[1, 2, 3, 4], [5, 6, 7, 8, 9]] := by decide +kernel
  refine ⟨by decide +kernel, ?_⟩
  rw [hacc] at hplaced
  rw [hsegs]
  obtain _ | ⟨h1, _ | ⟨h2, hnil⟩⟩ := hplaced
  cases hnil
  exact ⟨_, _, by rw [List.flatten_cons, List.flatten_singleton], h1.oneBlock.mpr (by decide),
    h2.oneBlock.mpr (by decide)⟩

/-- **A frame that straddles**: three fragments and blocks of two. -/
theorem packet_straddles :
    (txRun parity (fun t => t) [.frame [1, 2, 3, 4, 5, 6, 7, 8, 9] false]
        smallPipeline).2.accepted = [[1, 2, 3, 4, 5, 6, 7, 8, 9]] ∧
      (storedRun parity (fun t => t) [.frame [1, 2, 3, 4, 5, 6, 7, 8, 9] false]
        smallPipeline).map Prod.fst = [(0, 0), (0, 1), (1, 0)] ∧
      ¬ InOneBlock [(0, 0), (0, 1), (1, 0)] := by
  refine ⟨by decide +kernel, by decide +kernel, ?_⟩
  rintro ⟨b, p, h⟩
  have h0 : (0, 0) = (b, p + 0) := congrArg (fun l => l.getD 0 (0, 0)) h
  have h2 : (1, 0) = (b, p + 2) := congrArg (fun l => l.getD 2 (0, 0)) h
  have hb0 : 0 = b := congrArg Prod.fst h0
  have hb2 : 1 = b := congrArg Prod.fst h2
  omega

end FsoTxPipeline
