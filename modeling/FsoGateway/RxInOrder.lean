import FsoGateway.CompleteBlock
import FsoGateway.RxReady

/-! # The receiver in step with the stream

    As long as the symbols arrive in order and in time, the slots in use are
    exactly those of the blocks that are under way, each FILLING and holding
    the symbols of its block that were sent so far (`InStep`).

    * `tick_keeps` — a tick in time changes no slot;
    * `InStep.pushed` — where the next symbol of a block goes;
    * `InStep.write` — in step after its slot was written. -/

namespace FsoLink

open ByteBuffer FsoTypes ErasureCode FecWrapper FsoTxPipeline FsoRxPipeline
  PacketFragmenter PacketReassembler FsoDeinterleaver

/-! ## Parts of the stream -/

section Stream

variable {cfg : Config} {sent pre post : List Symbol} {id : UInt32} {s : Symbol}

/-- The symbols of a block that were sent so far are its first ones. -/
theorem Stream.sofar (h : Stream cfg sent) (hsplit : sent = pre ++ post) (hid : id ≠ 0) :
    (ofBlock id pre).map (fun s => s.fecId.toNat) = List.range (ofBlock id pre).length ∧
      (ofBlock id pre).length ≤ cfg.k + cfg.m := by
  rcases h.inOrder id hid with hnil | hall
  · rw [hsplit, ofBlock_append] at hnil
    rw [(List.append_eq_nil_iff.mp hnil).1]
    exact ⟨rfl, Nat.zero_le _⟩
  · rw [hsplit, ofBlock_append, List.map_append] at hall
    have hlen := congrArg List.length hall
    rw [List.length_append, List.length_map, List.length_map, List.length_range] at hlen
    have htake := congrArg (List.take (ofBlock id pre).length) hall
    rw [List.take_left' (List.length_map _), List.take_range,
      Nat.min_eq_left (by omega)] at htake
    exact ⟨htake, by omega⟩

theorem ofBlock_snoc (id : UInt32) (pre : List Symbol) (s : Symbol) :
    ofBlock id (pre ++ [s]) = if s.packetId = id then ofBlock id pre ++ [s]
      else ofBlock id pre := by
  have hone : ofBlock id [s] = if (s.packetId == id) = true then [s] else [] :=
    List.filter_cons
  rw [ofBlock_append, hone]
  by_cases h : s.packetId = id
  · rw [if_pos h, if_pos (beq_iff_eq.mpr h)]
  · rw [if_neg h, if_neg (by rwa [beq_iff_eq]), List.append_nil]

/-- The next symbol of a block is the one behind those sent so far. -/
theorem Stream.next (h : Stream cfg sent) (hsplit : sent = pre ++ s :: post)
    (hid : s.packetId ≠ 0) : s.fecId.toNat = (ofBlock s.packetId pre).length ∧
      (ofBlock s.packetId pre).length < cfg.k + cfg.m := by
  have hsplit' : sent = (pre ++ [s]) ++ post := by
    rw [hsplit, List.append_assoc]
    rfl
  obtain ⟨hmap, hle⟩ := h.sofar hsplit' hid
  rw [ofBlock_snoc, if_pos rfl, List.length_append, List.length_singleton] at hmap hle
  rw [List.map_append, List.range_succ] at hmap
  have hlast := (List.append_inj' hmap rfl).2
  exact ⟨List.singleton_injective hlast, by omega⟩

end Stream

/-! ## Slots in step -/

/-- A FILLING slot that has seen its first `t` symbols, in order. -/
theorem filling_count {n k ss t : Nat} {s : Slot} {seen : List Symbol}
    (h : Content n k ss s seen) (hs : s.state = .filling)
    (hseen : seen.map (fun x => x.fecId.toNat) = List.range t) (ht : t ≤ n) :
    s.validSymbols = t ∧ ∀ p, Bitset.test s.receivedMask p = decide (p < t) := by
  have hmask : ∀ p, Bitset.test s.receivedMask p = decide (p < t) := by
    intro p
    by_cases hp : p < n
    · cases hb : Bitset.test s.receivedMask p with
      | true =>
          obtain ⟨first, hf, -⟩ := h.stored p hp hb
          have hat := List.find?_some hf
          have hfec : first.fecId.toNat = p := eq_of_beq hat
          have hmem : p ∈ seen.map fun x => x.fecId.toNat :=
            List.mem_map.mpr ⟨first, List.mem_of_find?_eq_some hf, hfec⟩
          rw [hseen] at hmem
          exact (decide_eq_true (List.mem_range.mp hmem)).symm
      | false =>
          have hnone := h.unseen hs p hp hb
          rw [firstAt, List.find?_eq_none] at hnone
          refine (decide_eq_false fun hlt => ?_).symm
          have hmem : p ∈ seen.map fun x => x.fecId.toNat := by
            rw [hseen]
            exact List.mem_range.mpr hlt
          obtain ⟨x, hx, hxp⟩ := List.mem_map.mp hmem
          exact hnone x hx (beq_iff_eq.mpr hxp)
    · rw [h.range p (Nat.le_of_not_lt hp), decide_eq_false (by omega)]
  refine ⟨?_, hmask⟩
  rw [h.valid, Bitset.count_extend ht fun p hp => by
    rw [hmask p, decide_eq_false (Nat.not_lt.mpr hp)]]
  exact Bitset.count_eq_iff.mpr fun p hp => by rw [hmask p, decide_eq_true hp]

/-- **In step**: the slots in use are those of the blocks under way. -/
structure InStep (pre : List Symbol) (pl : RxPipeline) (seen : UInt32 → List Symbol) :
    Prop where
  ok : RxOk pl seen
  slots : ∀ i, i < pl.dil.maxActiveBlocks → (pl.dil.slots i).state ≠ .empty →
    (pl.dil.slots i).state = .filling ∧ (pl.dil.slots i).blockId ≠ 0 ∧
      seen (pl.dil.slots i).blockId = ofBlock (pl.dil.slots i).blockId pre
  hasSlot : ∀ id, id ≠ 0 → 0 < (ofBlock id pre).length →
    (ofBlock id pre).length < pl.cfg.k + pl.cfg.m →
    ∃ i, i < pl.dil.maxActiveBlocks ∧ (pl.dil.slots i).state ≠ .empty ∧
      (pl.dil.slots i).blockId = id

section InStep

variable {sent pre post : List Symbol} {pl : RxPipeline} {seen : UInt32 → List Symbol}

/-- What a slot in use has. -/
theorem InStep.count (h : InStep pre pl seen) (hs : Stream pl.cfg sent)
    (hsplit : sent = pre ++ post) {i : Nat} (hi : i < pl.dil.maxActiveBlocks)
    (hne : (pl.dil.slots i).state ≠ .empty) :
    (pl.dil.slots i).validSymbols = (ofBlock (pl.dil.slots i).blockId pre).length ∧
      (∀ p, Bitset.test (pl.dil.slots i).receivedMask p
        = decide (p < (ofBlock (pl.dil.slots i).blockId pre).length)) ∧
      0 < (ofBlock (pl.dil.slots i).blockId pre).length ∧
      (ofBlock (pl.dil.slots i).blockId pre).length < pl.cfg.k + pl.cfg.m := by
  obtain ⟨hfill, hid, hseen⟩ := h.slots i hi hne
  have hslot := h.ok.pool.slot i hi hne
  have hc := hslot.content
  rw [h.ok.shape.n, h.ok.shape.k, h.ok.shape.symbolSize, hseen] at hc
  obtain ⟨hmap, hle⟩ := hs.sofar hsplit hid
  obtain ⟨hv, hmask⟩ := filling_count hc hfill hmap hle
  have hpos := hslot.pos
  have hlt := hslot.filling hfill
  rw [h.ok.shape.n] at hlt
  rw [hv] at hpos hlt
  exact ⟨hv, hmask, hpos, hlt⟩

/-- **There is room**: at most `depth` of the `4 * depth` slots are in use. -/
theorem InStep.room (h : InStep pre pl seen) (hs : Stream pl.cfg sent)
    (hsplit : sent = pre ++ post) (hd : 0 < pl.cfg.depth) :
    ∃ i, i < pl.dil.maxActiveBlocks ∧ (pl.dil.slots i).state = .empty := by
  by_contra hnone
  have hall : ∀ i, i < pl.dil.maxActiveBlocks → (pl.dil.slots i).state ≠ .empty :=
    fun i hi he => hnone ⟨i, hi, he⟩
  obtain ⟨ids, hlen, hids⟩ := hs.underWay pre post hsplit
  let used := (List.range pl.dil.maxActiveBlocks).map fun i => (pl.dil.slots i).blockId
  have hnd : used.Nodup := by
    refine List.Nodup.map_on ?_ List.nodup_range
    intro i hi j hj hij
    rw [List.mem_range] at hi hj
    exact h.ok.pool.distinct i j hi hj (hall i hi) (hall j hj) hij
  have hsub : used ⊆ ids := by
    intro id hid
    obtain ⟨i, hi, rfl⟩ := List.mem_map.mp hid
    rw [List.mem_range] at hi
    obtain ⟨-, -, hpos, hlt⟩ := h.count hs hsplit hi (hall i hi)
    exact hids _ (h.slots i hi (hall i hi)).2.1 hpos hlt
  have hle := (hnd.subperm hsub).length_le
  rw [List.length_map, List.length_range, h.ok.shape.slots] at hle
  omega

end InStep

/-! ## Steps that change nothing -/

section Early

variable {pl : RxPipeline} {seen : UInt32 → List Symbol}

theorem defaultTimeout_eq (h : RxShape pl) : defaultTimeoutMs pl.dil = 50 := by
  rw [defaultTimeoutMs, h.maxAge, if_pos (by norm_num)]

/-- A FILLING slot that is not full stays as it is, as long as its last symbol
    is less than 2 ms old and its first one less than 50 ms. -/
theorem settled_early (h : RxShape pl) {s : Slot} (now : Nat) (hs : s.state = .filling)
    (hv : s.validSymbols ≠ pl.dil.symbolsPerBlock)
    (hlast : elapsedMs s.lastSymTime now < 2) (hfirst : elapsedMs s.firstSymTime now < 50) :
    settledSlot pl.dil s 50 now = s := by
  have hstab := h.stabilization
  have hstable : ¬ (pl.dil.k ≤ s.validSymbols ∧ (pl.dil.stabilizationMs = 0 ∨
      pl.dil.stabilizationMs ≤ elapsedMs s.lastSymTime now)) := by
    rw [hstab]
    rintro ⟨-, h2 | h2⟩
    · exact absurd h2 (by norm_num)
    · exact absurd h2 (not_le.mpr hlast)
  have hlate : ¬ (50 : ℚ) ≤ elapsedMs s.firstSymTime now := not_le.mpr hfirst
  rcases maybeFreezeSlot_cases pl.dil.symbolsPerBlock pl.dil.k pl.dil.m
      pl.dil.stabilizationMs 50 now pl.dil.stats hs with
    ⟨-, -, hfull | ⟨-, -, hexit⟩⟩ | ⟨-, -, -, -, hexit⟩ | ⟨hnone, -⟩
  · exact absurd hfull hv
  · exact absurd hexit (not_or.mpr ⟨hstable, hlate⟩)
  · exact absurd hexit (not_or.mpr ⟨hstable, hlate⟩)
  · rw [settledSlot, show freezeRc pl.dil s 50 now = .none from hnone]

/-- **A tick in time** changes no slot. -/
theorem tick_keeps (h : RxShape pl) (now : Nat)
    (hearly : ∀ i, i < pl.dil.maxActiveBlocks → (pl.dil.slots i).state = .filling →
      (pl.dil.slots i).validSymbols ≠ pl.dil.symbolsPerBlock ∧
      elapsedMs (pl.dil.slots i).lastSymTime now < 2 ∧
      elapsedMs (pl.dil.slots i).firstSymTime now < 50) :
    (deinterleaverTick pl.dil (-1) now).2.slots = pl.dil.slots := by
  funext i
  rw [(tick_slots pl.dil (-1) now).2 i, tickTimeout_eq h]
  by_cases hi : i < pl.dil.maxActiveBlocks ∧ (pl.dil.slots i).state = .filling
  · rw [if_pos hi]
    obtain ⟨hv, hlast, hfirst⟩ := hearly i hi.1 hi.2
    exact settled_early h now hi.2 hv hlast hfirst
  · rw [if_neg hi]

/-- One READY slot. -/
theorem readyList_single {d : Deinterleaver} {i : Nat} (hi : i < d.maxActiveBlocks)
    (hst : (d.slots i).state = .readyToDecode)
    (hother : ∀ j, j < d.maxActiveBlocks → j ≠ i →
      (d.slots j).state ≠ .readyToDecode) : readyList d = [i] := by
  have hpred : ∀ j ∈ List.range d.maxActiveBlocks,
      decide ((d.slots j).state = .readyToDecode) = (j == i) := by
    intro j hj
    by_cases hji : j = i
    · subst hji
      rw [beq_self_eq_true]
      exact decide_eq_true hst
    · rw [beq_eq_false_iff_ne.mpr hji]
      exact decide_eq_false (hother j (List.mem_range.mp hj) hji)
  rw [readyList, List.filter_congr hpred, List.filter_beq,
    List.count_eq_one_of_mem List.nodup_range (List.mem_range.mpr hi)]
  rfl

theorem drain_none (wh : Wirehair) (h : readyList pl.dil = []) :
    drainReadyBlocks wh pl = pl := by
  rw [drainReadyBlocks, readyCount_eq, h]
  rfl

theorem drain_one (wh : Wirehair) (h : PoolInv pl.dil seen) {i : Nat}
    (hl : readyList pl.dil = [i]) :
    drainReadyBlocks wh pl = drainBlock wh pl (pl.dil.slots i).block := by
  have hhead : findReady pl.dil = some i := by
    rw [findReady_eq, hl]
    rfl
  rw [drainReadyBlocks, readyCount_eq, hl]
  show FsoRxPipeline.drainLoop wh (0 + 1) pl = _
  rw [FsoRxPipeline.drainLoop, getReady_eq h, hhead]
  rfl

/-- The slot that a symbol in time leaves behind. -/
theorem pushedSlot_early (h : RxShape pl) {base : Slot} (sym : Symbol) (now : Nat)
    (hs : base.state = .filling) (hfirst : elapsedMs base.firstSymTime now < 2) :
    pushedSlot pl.dil base sym now =
      if base.validSymbols + 1 = pl.dil.symbolsPerBlock then
        { slotStore base sym pl.dil.symbolSize now with state := .readyToDecode }
      else slotStore base sym pl.dil.symbolSize now := by
  have hs' : (slotStore base sym pl.dil.symbolSize now).state = .filling := hs
  rw [pushedSlot, defaultTimeout_eq h]
  by_cases hfull : base.validSymbols + 1 = pl.dil.symbolsPerBlock
  · have hrc : freezeRc pl.dil (slotStore base sym pl.dil.symbolSize now) 50 now
        = .ready := by
      rw [freezeRc, maybeFreezeSlot_full _ _ _ _ _ _ hs' hfull]
      rfl
    rw [if_pos hfull, settledSlot, hrc]
  · rw [if_neg hfull]
    refine settled_early h now hs' hfull ?_ (lt_trans hfirst (by norm_num))
    show elapsedMs now now < 2
    rw [elapsedMs_self]
    norm_num

end Early

/-! ## The next symbol -/

section Push

variable {sent pre post : List Symbol} {pl : RxPipeline} {seen : UInt32 → List Symbol}
  {s : Symbol}

/-- A block without a slot has sent nothing yet, or all of its symbols. -/
theorem InStep.find (h : InStep pre pl seen) {id : UInt32} (hid : id ≠ 0)
    (hlt : (ofBlock id pre).length < pl.cfg.k + pl.cfg.m) :
    (findSlotAny pl.dil id = none → ofBlock id pre = []) ∧
      (findSlotAny pl.dil id ≠ none → seen id = ofBlock id pre) := by
  constructor
  · intro hnone
    by_contra hne
    obtain ⟨i, hi, hst, hsid⟩ := h.hasSlot id hid (List.length_pos_of_ne_nil hne) hlt
    exact findSlotAny_none hnone hi hst hsid
  · intro hsome
    obtain ⟨i, hf⟩ := Option.ne_none_iff_exists'.mp hsome
    obtain ⟨hi, hst, hsid⟩ := findSlotAny_some hf
    obtain ⟨-, -, hseen⟩ := h.slots i hi hst
    rw [hsid] at hseen
    exact hseen

/-- The next symbol of a block is accepted, and joins those seen. -/
theorem InStep.accepted (h : InStep pre pl seen) (hs : Stream pl.cfg sent)
    (hsplit : sent = pre ++ s :: post) (hid : s.packetId ≠ 0)
    (hlen : s.payloadLen.toNat ≤ pl.cfg.symbolSize) (now : Nat) :
    isAccepted pl.dil s = true ∧ seenStep pl.dil seen (.push s now)
      = Function.update seen s.packetId (ofBlock s.packetId (pre ++ [s])) := by
  obtain ⟨hfec, hlt⟩ := hs.next hsplit hid
  have hn := h.ok.pool.params.position
  have hacc : isAccepted pl.dil s = true := by
    refine (isAccepted_iff hn).mpr ⟨?_, ?_, ?_⟩
    · rw [isErasure, beq_eq_false_iff_ne.mpr hid, Bool.false_and]
    · rw [h.ok.shape.symbolSize]
      exact hlen
    · rw [h.ok.shape.n, hfec]
      exact hlt
  refine ⟨hacc, ?_⟩
  obtain ⟨hnone, hsome⟩ := h.find hid hlt
  rw [seenStep, if_pos hacc, ofBlock_snoc, if_pos rfl]
  by_cases hf : findSlotAny pl.dil s.packetId = none
  · rw [if_pos hf, hnone hf, List.nil_append]
  · rw [if_neg hf, hsome hf]

/-- **Where the next symbol goes**: into the slot of its block, or into an EMPTY
    one when it is the first. -/
theorem InStep.pushed (h : InStep pre pl seen) (hs : Stream pl.cfg sent)
    (hsplit : sent = pre ++ s :: post) (hid : s.packetId ≠ 0)
    (hlen : s.payloadLen.toNat ≤ pl.cfg.symbolSize) (hd : 0 < pl.cfg.depth) (now : Nat) :
    ∃ i base, i < pl.dil.maxActiveBlocks ∧
      (deinterleaverPushSymbol pl.dil s now).2.slots
        = Function.update pl.dil.slots i (pushedSlot pl.dil base s now) ∧
      base.state = .filling ∧ base.blockId = s.packetId ∧
      base.validSymbols = (ofBlock s.packetId pre).length ∧
      ((pl.dil.slots i).state = .empty ∧ base.firstSymTime = now ∨
        (pl.dil.slots i).state ≠ .empty ∧ base = pl.dil.slots i) := by
  obtain ⟨hacc, -⟩ := h.accepted hs hsplit hid hlen now
  obtain ⟨hfec, hlt⟩ := hs.next hsplit hid
  have heff := push_effect s now h.ok.pool.params.slots
  generalize deinterleaverPushSymbol pl.dil s now = r at heff ⊢
  cases heff with
  | dropped _ _ _ hdrop =>
      -- the slot is FILLING, and the position is free
      obtain ⟨i, hf, hwhy⟩ := hdrop hacc
      obtain ⟨hi, hne, hsid⟩ := findSlotAny_some hf
      obtain ⟨-, hmask, -⟩ := h.count hs hsplit hi hne
      rcases hwhy with hst | htest
      · exact absurd (h.slots i hi hne).1 hst
      · rw [hmask, hsid, hfec, decide_eq_true_iff] at htest
        exact absurd htest (Nat.lt_irrefl _)
  | @stored d' i base calls _ hi hb _ _ hslots _ =>
      obtain ⟨hfill, hbid⟩ := hb.filling
      refine ⟨i, base, hi, hslots, hfill, hbid, ?_⟩
      cases hb with
      | found hf hst =>
          obtain ⟨-, hne, hsid⟩ := findSlotAny_some hf
          obtain ⟨hv, -⟩ := h.count hs hsplit hi hne
          rw [hsid] at hv
          exact ⟨hv, .inr ⟨hne, rfl⟩⟩
      | opened hf hchoice =>
          have hnil := (h.find hid hlt).1 hf
          obtain ⟨j, hj, hempty⟩ := h.room hs hsplit hd
          refine ⟨by rw [hnil]; rfl, .inl ⟨?_, rfl⟩⟩
          cases hchoice with
          | free hst => exact hst
          | ready _ hfull _ => exact absurd hempty (hfull j hj)
          | filling _ hfull _ =>
              have hj' := hfull j hj
              rw [hempty] at hj'
              exact nomatch hj'

/-- In step after one slot was written, that of the next symbol's block. -/
theorem InStep.write (h : InStep pre pl seen) {pl' : RxPipeline} {i : Nat}
    (hok : RxOk pl' (Function.update seen s.packetId (ofBlock s.packetId (pre ++ [s]))))
    (hcfg : pl'.cfg = pl.cfg) (hp : SameParams pl.dil pl'.dil)
    (hi : i < pl.dil.maxActiveBlocks) (hid : s.packetId ≠ 0)
    (hsame : ∀ j, j ≠ i → pl'.dil.slots j = pl.dil.slots j)
    (hold : (pl.dil.slots i).state = .empty ∨ (pl.dil.slots i).blockId = s.packetId)
    (hother : ∀ j, j < pl.dil.maxActiveBlocks → j ≠ i → (pl.dil.slots j).state ≠ .empty →
      (pl.dil.slots j).blockId ≠ s.packetId)
    (hnew : (pl'.dil.slots i).state ≠ .empty →
      (pl'.dil.slots i).state = .filling ∧ (pl'.dil.slots i).blockId = s.packetId)
    (hkept : (ofBlock s.packetId (pre ++ [s])).length < pl.cfg.k + pl.cfg.m →
      (pl'.dil.slots i).state ≠ .empty) :
    InStep (pre ++ [s]) pl'
      (Function.update seen s.packetId (ofBlock s.packetId (pre ++ [s]))) where
  ok := hok
  slots := by
    rw [hp.maxActiveBlocks]
    intro j hj hne
    by_cases hji : j = i
    · subst hji
      obtain ⟨hfill, hsid⟩ := hnew hne
      rw [hsid, Function.update_self]
      exact ⟨hfill, hid, rfl⟩
    · rw [hsame j hji] at hne ⊢
      obtain ⟨hfill, hjid, hseen⟩ := h.slots j hj hne
      have hdiff := hother j hj hji hne
      rw [Function.update_of_ne hdiff, ofBlock_snoc, if_neg hdiff.symm]
      exact ⟨hfill, hjid, hseen⟩
  hasSlot := by
    rw [hp.maxActiveBlocks, hcfg]
    intro id hidne hpos hlt
    by_cases hsid : s.packetId = id
    · subst hsid
      have hne := hkept hlt
      exact ⟨i, hi, hne, (hnew hne).2⟩
    · rw [ofBlock_snoc, if_neg hsid] at hpos hlt
      obtain ⟨j, hj, hne, hjid⟩ := h.hasSlot id hidne hpos hlt
      have hji : j ≠ i := by
        rintro rfl
        rcases hold with he | he
        · exact hne he
        · exact hsid (he.symm.trans hjid)
      exact ⟨j, hj, by rw [hsame j hji]; exact hne, by rw [hsame j hji]; exact hjid⟩

end Push

end FsoLink
