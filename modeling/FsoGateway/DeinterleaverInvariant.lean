import FsoGateway.DeinterleaverSteps

/-! # The representation invariant of the deinterleaver

    A run is any sequence of calls after `deinterleaver_create`.  Beside the
    state it carries `seen`: for every block id the valid symbols pushed for
    it since its slot was opened.  The code keeps no such list; it is what
    the mask and the symbol array of a slot are about.

    * `Content` — what one slot holds, in terms of the symbols seen;
    * `PoolInv` — the invariant, preserved by every call (`poolInv_step`);
    * `representation_invariant` — the five clauses, in every reachable state. -/

namespace FsoDeinterleaver

open ByteBuffer FsoTypes

/-! ## Calls and runs -/

/-- The public calls that may change a deinterleaver. -/
inductive Op where
  | push (sym : Symbol) (now : Nat)
  | tick (overrideTimeoutMs : ℚ) (now : Nat)
  | getReadyBlock
  | markResult (blockId : UInt32) (success : Bool)
  | incCrcDrop
  | setBlockFinalCallback
  | setEvictionCallback

/-- The state after one call. -/
def step (d : Deinterleaver) : Op → Deinterleaver
  | .push sym now => (deinterleaverPushSymbol d sym now).2
  | .tick override now => (deinterleaverTick d override now).2
  | .getReadyBlock => (deinterleaverGetReadyBlock d).2
  | .markResult b ok => (deinterleaverMarkResult d b ok).2
  | .incCrcDrop => deinterleaverIncCrcDrop d
  | .setBlockFinalCallback => deinterleaverSetBlockFinalCallback d
  | .setEvictionCallback => deinterleaverSetEvictionCallback d

/-- The state after a run. -/
def run (d : Deinterleaver) (ops : List Op) : Deinterleaver :=
  ops.foldl step d

/-- The symbols seen after one call: an accepted symbol is appended to those
    of its block, or starts them afresh when the block has no slot. -/
def seenStep (d : Deinterleaver) (seen : UInt32 → List Symbol) :
    Op → UInt32 → List Symbol
  | .push sym _ =>
      if isAccepted d sym then
        Function.update seen sym.packetId
          (if findSlotAny d sym.packetId = none then [sym]
           else seen sym.packetId ++ [sym])
      else seen
  | _ => seen

/-- The symbols seen at the end of a run. -/
def seenRun (d : Deinterleaver) (seen : UInt32 → List Symbol) :
    List Op → UInt32 → List Symbol
  | [] => seen
  | op :: ops => seenRun (step d op) (seenStep d seen op) ops

/-- The first symbol of a list that is for position `i`. -/
def firstAt (l : List Symbol) (i : Nat) : Option Symbol :=
  l.find? fun x => x.fecId.toNat == i

theorem firstAt_append (l : List Symbol) (x : Symbol) (i : Nat) :
    firstAt (l ++ [x]) i
      = (firstAt l i).or (if x.fecId.toNat = i then some x else none) := by
  rw [firstAt, List.find?_append, firstAt]
  congr 1
  by_cases h : x.fecId.toNat = i <;> simp [h]

theorem firstAt_append_some {l : List Symbol} {i : Nat} {y : Symbol} (x : Symbol)
    (h : firstAt l i = some y) : firstAt (l ++ [x]) i = some y := by
  rw [firstAt_append, h]
  rfl

/-! ## One slot -/

/-- What a slot holds: `n` positions, `k` of them source, `ss` bytes each. -/
structure Content (n k ss : Nat) (s : Slot) (seen : List Symbol) : Prop where
  /-- the counter is the number of set bits -/
  valid : s.validSymbols = Bitset.count s.receivedMask n
  symbolCount : s.block.symbolCount = s.validSymbols
  blockId : s.block.blockId = s.blockId.toUInt64
  symbolsPerBlock : s.block.symbolsPerBlock = n
  kLimit : s.block.kLimit = k
  /-- no bit past the last position -/
  range : ∀ i, n ≤ i → Bitset.test s.receivedMask i = false
  /-- a filled position holds the first symbol seen for it -/
  stored : ∀ i, i < n → Bitset.test s.receivedMask i = true →
    ∃ first, firstAt seen i = some first ∧ first.packetId = s.blockId ∧
      first.payloadLen.toNat ≤ ss ∧
      clipSymbol ss (s.block.symbols i) = clipSymbol ss first
  /-- a hole carries the sentinel -/
  hole : ∀ i, i < n → Bitset.test s.receivedMask i = false →
    (s.block.symbols i).packetId = 0
  /-- while FILLING a hole is a position nothing was seen for -/
  unseen : s.state = .filling → ∀ i, i < n →
    Bitset.test s.receivedMask i = false → firstAt seen i = none

/-- A slot that was just opened holds nothing. -/
theorem content_open (d : Deinterleaver) (i : Nat) (b : UInt32) (now : Nat) :
    Content d.symbolsPerBlock d.k d.symbolSize (openSlot d i b now) [] where
  valid := (Bitset.count_clear _).symm
  symbolCount := rfl
  blockId := rfl
  symbolsPerBlock := rfl
  kLimit := rfl
  range := fun _ _ => Bitset.test_clear _
  stored := by
    intro j _ h
    rw [show (openSlot d i b now).receivedMask = Bitset.clear from rfl,
      Bitset.test_clear] at h
    exact nomatch h
  hole := by
    intro j hj _
    show (if j < d.symbolsPerBlock then _ else _ : Symbol).packetId = 0
    rw [if_pos hj]
  unseen := fun _ _ _ _ => rfl

/-- Storing a symbol at a free position. -/
theorem content_store {n k ss : Nat} {s : Slot} {seen : List Symbol}
    {sym : Symbol} (now : Nat) (h : Content n k ss s seen)
    (hs : s.state = .filling) (hid : s.blockId = sym.packetId)
    (hlen : sym.payloadLen.toNat ≤ ss) (hf : sym.fecId.toNat < n)
    (hnew : Bitset.test s.receivedMask sym.fecId.toNat = false) :
    Content n k ss (slotStore s sym ss now) (seen ++ [sym]) where
  valid := by
    show s.validSymbols + 1 = Bitset.count (Bitset.set _ _) n
    rw [Bitset.count_set hf hnew, h.valid]
  symbolCount := rfl
  blockId := h.blockId
  symbolsPerBlock := h.symbolsPerBlock
  kLimit := h.kLimit
  range := by
    intro i hi
    show Bitset.test (Bitset.set _ _) i = false
    rw [Bitset.test_set, h.range i hi, decide_eq_false (by omega)]
    rfl
  stored := by
    intro i hi ht
    by_cases hie : i = sym.fecId.toNat
    · subst hie
      refine ⟨sym, ?_, hid.symm, hlen, ?_⟩
      · rw [firstAt_append, h.unseen hs _ hi hnew, if_pos rfl]
        rfl
      · show clipSymbol ss (Function.update s.block.symbols _ _ _) = _
        rw [Function.update_self, clipSymbol_copySymbol]
    · have ht' : Bitset.test s.receivedMask i = true := by
        have h1 : Bitset.test (Bitset.set s.receivedMask sym.fecId.toNat) i = true := ht
        rwa [Bitset.test_set, decide_eq_false hie, Bool.false_or] at h1
      obtain ⟨first, h1, h2, h3, h4⟩ := h.stored i hi ht'
      refine ⟨first, firstAt_append_some sym h1, h2, h3, ?_⟩
      show clipSymbol ss (Function.update s.block.symbols _ _ _) = _
      rw [Function.update_of_ne hie, h4]
  hole := by
    intro i hi ht
    have h1 : Bitset.test (Bitset.set s.receivedMask sym.fecId.toNat) i = false := ht
    rw [Bitset.test_set, Bool.or_eq_false_iff] at h1
    show (Function.update s.block.symbols _ _ i).packetId = 0
    rw [Function.update_of_ne (of_decide_eq_false h1.1)]
    exact h.hole i hi h1.2
  unseen := by
    intro _ i hi ht
    have h1 : Bitset.test (Bitset.set s.receivedMask sym.fecId.toNat) i = false := ht
    rw [Bitset.test_set, Bool.or_eq_false_iff] at h1
    have hne : sym.fecId.toNat ≠ i := fun he => of_decide_eq_false h1.1 he.symm
    rw [firstAt_append, h.unseen hs i hi h1.2, if_neg hne]
    rfl

/-- A dropped symbol of the same block leaves the content as it is: the slot
    is no longer FILLING, or the position was taken. -/
theorem content_seen {n k ss : Nat} {s : Slot} {seen : List Symbol} {sym : Symbol}
    (h : Content n k ss s seen)
    (hd : s.state ≠ .filling ∨ Bitset.test s.receivedMask sym.fecId.toNat = true) :
    Content n k ss s (seen ++ [sym]) where
  valid := h.valid
  symbolCount := h.symbolCount
  blockId := h.blockId
  symbolsPerBlock := h.symbolsPerBlock
  kLimit := h.kLimit
  range := h.range
  stored := by
    intro i hi ht
    obtain ⟨first, h1, h2⟩ := h.stored i hi ht
    exact ⟨first, firstAt_append_some sym h1, h2⟩
  hole := h.hole
  unseen := by
    intro hs i hi ht
    have hm := hd.resolve_left (not_not_intro hs)
    have hne : sym.fecId.toNat ≠ i := by
      intro he
      rw [he, ht] at hm
      exact nomatch hm
    rw [firstAt_append, h.unseen hs i hi ht, if_neg hne]
    rfl

/-- Promotion leaves the content as it is. -/
theorem content_ready {n k ss : Nat} {s : Slot} {seen : List Symbol}
    (h : Content n k ss s seen) :
    Content n k ss { s with state := .readyToDecode } seen where
  valid := h.valid
  symbolCount := h.symbolCount
  blockId := h.blockId
  symbolsPerBlock := h.symbolsPerBlock
  kLimit := h.kLimit
  range := h.range
  stored := h.stored
  hole := h.hole
  unseen := fun hs => nomatch hs

/-! ## The pool -/

/-- The values `deinterleaver_create` lets through. -/
structure ParamsOk (d : Deinterleaver) : Prop where
  slots : 1 ≤ d.maxActiveBlocks
  length : d.symbolsPerBlock ≤ maxSymbolsPerBlock
  source : 1 ≤ d.k
  repair : d.k < d.symbolsPerBlock
  holes : d.m = d.symbolsPerBlock - d.k
  symbolSize : 1 ≤ d.symbolSize

/-- A position of a block is an `int`. -/
theorem ParamsOk.position {d : Deinterleaver} (h : ParamsOk d) :
    d.symbolsPerBlock ≤ 2 ^ 31 :=
  h.length.trans (by decide)

theorem ParamsOk.congr {d d' : Deinterleaver} (h : ParamsOk d)
    (hp : SameParams d d') : ParamsOk d' where
  slots := by rw [hp.maxActiveBlocks]; exact h.slots
  length := by rw [hp.symbolsPerBlock]; exact h.length
  source := by rw [hp.k]; exact h.source
  repair := by rw [hp.k, hp.symbolsPerBlock]; exact h.repair
  holes := by rw [hp.m, hp.k, hp.symbolsPerBlock]; exact h.holes
  symbolSize := by rw [hp.symbolSize]; exact h.symbolSize

/-- What holds of a slot that is not EMPTY. -/
structure SlotInv (d : Deinterleaver) (s : Slot) (seen : List Symbol) : Prop where
  content : Content d.symbolsPerBlock d.k d.symbolSize s seen
  pos : 1 ≤ s.validSymbols
  filling : s.state = .filling → s.validSymbols < d.symbolsPerBlock
  ready : s.state = .readyToDecode → d.k ≤ s.validSymbols

/-- **The invariant of the pool.** -/
structure PoolInv (d : Deinterleaver) (seen : UInt32 → List Symbol) : Prop where
  params : ParamsOk d
  /-- the block ids of the slots in use differ -/
  distinct : ∀ i j, i < d.maxActiveBlocks → j < d.maxActiveBlocks →
    (d.slots i).state ≠ .empty → (d.slots j).state ≠ .empty →
    (d.slots i).blockId = (d.slots j).blockId → i = j
  slot : ∀ i, i < d.maxActiveBlocks → (d.slots i).state ≠ .empty →
    SlotInv d (d.slots i) (seen (d.slots i).blockId)

theorem SlotInv.congr {d d' : Deinterleaver} {s : Slot} {seen : List Symbol}
    (h : SlotInv d s seen) (hp : SameParams d d') : SlotInv d' s seen where
  content := by
    rw [hp.symbolsPerBlock, hp.k, hp.symbolSize]
    exact h.content
  pos := h.pos
  filling := by rw [hp.symbolsPerBlock]; exact h.filling
  ready := by rw [hp.k]; exact h.ready

/-- A slot that was just stored into and then settled. -/
theorem slotInv_settled {d : Deinterleaver} {s : Slot} {seen : List Symbol}
    (t : ℚ) (now : Nat) (hpar : ParamsOk d)
    (hc : Content d.symbolsPerBlock d.k d.symbolSize s seen)
    (hpos : 1 ≤ s.validSymbols) (hs : s.state = .filling)
    (hne : (settledSlot d s t now).state ≠ .empty) :
    SlotInv d (settledSlot d s t now) seen ∧
      (settledSlot d s t now).blockId = s.blockId := by
  have hle : s.validSymbols ≤ d.symbolsPerBlock := by
    rw [hc.valid]
    exact Bitset.count_le _ _
  have hrep := hpar.repair
  rcases settledSlot_cases t now hs with ⟨he, hn⟩ | ⟨he, hn⟩ | ⟨he, hn⟩
  · rw [he]
    refine ⟨⟨content_ready hc, hpos, fun h => (nomatch h), ?_⟩, rfl⟩
    intro _
    show d.k ≤ s.validSymbols
    omega
  · rw [he] at hne
    exact absurd rfl hne
  · rw [he]
    refine ⟨⟨hc, hpos, ?_, ?_⟩, rfl⟩
    · intro _
      omega
    · intro h
      rw [hs] at h
      exact nomatch h

/-- Settling an old slot keeps what holds of it. -/
theorem slotInv_resettled {d : Deinterleaver} {s : Slot} {seen : List Symbol}
    (t : ℚ) (now : Nat) (hpar : ParamsOk d) (h : SlotInv d s seen)
    (hs : s.state = .filling) (hne : (settledSlot d s t now).state ≠ .empty) :
    SlotInv d (settledSlot d s t now) seen ∧
      (settledSlot d s t now).blockId = s.blockId :=
  slotInv_settled t now hpar h.content h.pos hs hne

/-- A call that rewrites no slot keeps the invariant. -/
theorem poolInv_congr {d d' : Deinterleaver} {seen : UInt32 → List Symbol}
    (h : PoolInv d seen) (hp : SameParams d d') (hs : d'.slots = d.slots) :
    PoolInv d' seen where
  params := h.params.congr hp
  distinct := by
    rw [hp.maxActiveBlocks, hs]
    exact h.distinct
  slot := by
    intro i hi
    rw [hp.maxActiveBlocks] at hi
    rw [hs]
    intro hne
    exact (h.slot i hi hne).congr hp

/-- **One slot rewritten**: the invariant is kept when the new slot is EMPTY,
    or holds what was seen for a block id that no other slot has. -/
theorem poolInv_update {d d' : Deinterleaver} {seen seen' : UInt32 → List Symbol}
    {i : Nat} {s : Slot} (h : PoolInv d seen) (hp : SameParams d d')
    (hs : d'.slots = Function.update d.slots i s)
    (hnew : s.state ≠ .empty →
      SlotInv d s (seen' s.blockId) ∧
        ∀ j, j < d.maxActiveBlocks → j ≠ i → (d.slots j).state ≠ .empty →
          (d.slots j).blockId ≠ s.blockId)
    (hseen : ∀ j, j < d.maxActiveBlocks → j ≠ i → (d.slots j).state ≠ .empty →
      seen' (d.slots j).blockId = seen (d.slots j).blockId) :
    PoolInv d' seen' where
  params := h.params.congr hp
  distinct := by
    intro a b ha hb
    rw [hp.maxActiveBlocks] at ha hb
    rw [hs]
    by_cases hai : a = i <;> by_cases hbi : b = i
    · intros
      rw [hai, hbi]
    · rw [hai, Function.update_self, Function.update_of_ne hbi]
      intro h1 h2 h3
      exact absurd h3.symm ((hnew h1).2 b hb hbi h2)
    · rw [hbi, Function.update_self, Function.update_of_ne hai]
      intro h1 h2 h3
      exact absurd h3 ((hnew h2).2 a ha hai h1)
    · rw [Function.update_of_ne hai, Function.update_of_ne hbi]
      exact h.distinct a b ha hb
  slot := by
    intro j hj
    rw [hp.maxActiveBlocks] at hj
    rw [hs]
    by_cases hji : j = i
    · rw [hji, Function.update_self]
      intro hne
      exact (hnew hne).1.congr hp
    · rw [Function.update_of_ne hji]
      intro hne
      rw [hseen j hj hji hne]
      exact (h.slot j hj hne).congr hp

/-! ## Every call keeps the invariant -/

theorem poolInv_create {maxA n k ss : Nat} {stab age : ℚ} {d : Deinterleaver}
    (h : deinterleaverCreate maxA n k ss stab age = some d) :
    PoolInv d fun _ => [] := by
  rw [deinterleaverCreate] at h
  split at h
  · exact nomatch h
  · rename_i hbad
    have hd := Option.some.inj h
    subst hd
    refine ⟨⟨?_, ?_, ?_, ?_, rfl, ?_⟩, ?_, ?_⟩
    · show 1 ≤ maxA
      omega
    · show n ≤ maxSymbolsPerBlock
      omega
    · show 1 ≤ k
      omega
    · show k < n
      omega
    · show 1 ≤ ss
      omega
    · intro i _ _ _ hne
      exact absurd rfl hne
    · intro i _ hne
      exact absurd rfl hne

/-- The slot in which a block id lives is the one `find_slot_any` finds. -/
theorem findSlotAny_eq {d : Deinterleaver} {seen : UInt32 → List Symbol}
    (h : PoolInv d seen) {i : Nat} (hi : i < d.maxActiveBlocks)
    (hne : (d.slots i).state ≠ .empty) :
    findSlotAny d (d.slots i).blockId = some i := by
  cases hf : findSlotAny d (d.slots i).blockId with
  | none => exact absurd rfl (findSlotAny_none hf hi hne)
  | some j =>
      obtain ⟨hj, hjne, hb⟩ := findSlotAny_some hf
      rw [h.distinct j i hj hi hjne hne hb]

theorem poolInv_push {d : Deinterleaver} {seen : UInt32 → List Symbol}
    (sym : Symbol) (now : Nat) (h : PoolInv d seen) :
    PoolInv (step d (.push sym now)) (seenStep d seen (.push sym now)) := by
  have heff := push_effect sym now (d := d) h.params.slots
  show PoolInv (deinterleaverPushSymbol d sym now).2 _
  generalize deinterleaverPushSymbol d sym now = r at heff ⊢
  have hlen := h.params.position
  cases heff with
  | dropped hp hs hl hacc =>
      refine poolInv_congr ?_ hp hs
      rw [seenStep]
      by_cases ha : isAccepted d sym = true
      · -- the block has a slot, and it is frozen there or has the position
        obtain ⟨i, hf, hdrop⟩ := hacc ha
        obtain ⟨hi, hne, hb⟩ := findSlotAny_some hf
        rw [if_pos ha, hf, if_neg (Option.some_ne_none i)]
        refine ⟨h.params, h.distinct, ?_⟩
        intro j hj hjne
        by_cases hjb : (d.slots j).blockId = sym.packetId
        · have hji : j = i := h.distinct j i hj hi hjne hne (hjb.trans hb.symm)
          subst hji
          rw [hjb, Function.update_self, ← hjb]
          have hsl := h.slot j hj hjne
          exact ⟨content_seen hsl.content hdrop, hsl.pos, hsl.filling, hsl.ready⟩
        · rw [Function.update_of_ne hjb]
          exact h.slot j hj hjne
      · rw [if_neg ha]
        exact h
  | @stored d' i base calls hacc hi hb hnew hp hs hl =>
      obtain ⟨-, hpay, hfec⟩ := (isAccepted_iff hlen).mp hacc
      obtain ⟨hbs, hbid⟩ := hb.filling
      rw [seenStep, if_pos hacc]
      -- the base slot holds what was seen, the stored one also this symbol
      have hbase : ∃ old, Content d.symbolsPerBlock d.k d.symbolSize base old ∧
          (if findSlotAny d sym.packetId = none then [sym]
            else seen sym.packetId ++ [sym]) = old ++ [sym] ∧
          ∀ j, j < d.maxActiveBlocks → j ≠ i → (d.slots j).state ≠ .empty →
            (d.slots j).blockId ≠ sym.packetId := by
        cases hb with
        | found hf hsf =>
            obtain ⟨-, hne, hbi⟩ := findSlotAny_some hf
            refine ⟨seen sym.packetId, ?_, ?_, ?_⟩
            · have hsl := (h.slot i hi hne).content
              rwa [hbi] at hsl
            · rw [hf, if_neg (Option.some_ne_none i)]
            · intro j hj hji hjne hjb
              exact hji (h.distinct j i hj hi hjne hne (hjb.trans hbi.symm))
        | opened hf hc =>
            refine ⟨[], content_open d i sym.packetId now, ?_, ?_⟩
            · rw [if_pos hf]
              rfl
            · intro j hj _ hjne
              exact findSlotAny_none hf hj hjne
      obtain ⟨old, hcont, hseen, hother⟩ := hbase
      rw [hseen]
      have hst := content_store now hcont hbs hbid hpay hfec hnew
      refine poolInv_update h hp hs ?_ ?_
      · intro hne
        obtain ⟨h1, h2⟩ := slotInv_settled (defaultTimeoutMs d) now h.params hst
          (Nat.le_add_left 1 base.validSymbols) hbs hne
        have hid : (pushedSlot d base sym now).blockId = sym.packetId :=
          h2.trans hbid
        rw [hid, Function.update_self]
        exact ⟨h1, hother⟩
      · intro j hj hji hjne
        exact Function.update_of_ne (hother j hj hji hjne) ..

theorem poolInv_tick {d : Deinterleaver} {seen : UInt32 → List Symbol}
    (override : ℚ) (now : Nat) (h : PoolInv d seen) :
    PoolInv (deinterleaverTick d override now).2 seen := by
  obtain ⟨hp, hs⟩ := tick_slots d override now
  -- a slot that is in use afterwards was in use before, for the same block
  have hone : ∀ i, i < d.maxActiveBlocks →
      ((deinterleaverTick d override now).2.slots i).state ≠ .empty →
      (d.slots i).state ≠ .empty ∧
        ((deinterleaverTick d override now).2.slots i).blockId
          = (d.slots i).blockId ∧
        SlotInv d ((deinterleaverTick d override now).2.slots i)
          (seen (d.slots i).blockId) := by
    intro i hi
    rw [hs i]
    by_cases hf : i < d.maxActiveBlocks ∧ (d.slots i).state = .filling
    · rw [if_pos hf]
      intro hne
      have hbne : (d.slots i).state ≠ .empty := by
        rw [hf.2]
        decide
      obtain ⟨h1, h2⟩ := slotInv_resettled (tickTimeoutMs d override) now h.params
        (h.slot i hi hbne) hf.2 hne
      exact ⟨hbne, h2, h1⟩
    · rw [if_neg hf]
      intro hne
      exact ⟨hne, rfl, h.slot i hi hne⟩
  refine ⟨h.params.congr hp, ?_, ?_⟩
  · intro i j hi hj
    rw [hp.maxActiveBlocks] at hi hj
    intro hne hne' heq
    obtain ⟨h1, h2, -⟩ := hone i hi hne
    obtain ⟨h3, h4, -⟩ := hone j hj hne'
    exact h.distinct i j hi hj h1 h3 (h2.symm.trans (heq.trans h4))
  · intro i hi
    rw [hp.maxActiveBlocks] at hi
    intro hne
    obtain ⟨-, h2, h3⟩ := hone i hi hne
    rw [h2]
    exact h3.congr hp

/-- Finalising a slot in use. -/
theorem poolInv_finalize {d : Deinterleaver} {seen : UInt32 → List Symbol}
    {i : Nat} (r : BlockFinalReason) (h : PoolInv d seen)
    (hne : (d.slots i).state ≠ .empty) :
    PoolInv (finalizeAndResetSlot d i r) seen :=
  poolInv_update h (sameParams_finalize d i r) (finalize_slots r hne)
    (fun hs => absurd rfl hs) fun _ _ _ _ => rfl

/-- The block a READY slot hands out has its length set already. -/
theorem getReady_eq {d : Deinterleaver} {seen : UInt32 → List Symbol}
    (h : PoolInv d seen) :
    deinterleaverGetReadyBlock d
      = ((findReady d).map fun i => (d.slots i).block, d) := by
  apply getReady_spec
  intro i hi hs
  have hne : (d.slots i).state ≠ .empty := by
    rw [hs]
    decide
  rw [(h.slot i hi hne).content.symbolsPerBlock]
  have := h.params.repair
  omega

/-- **One call** keeps the invariant. -/
theorem poolInv_step {d : Deinterleaver} {seen : UInt32 → List Symbol} (op : Op)
    (h : PoolInv d seen) : PoolInv (step d op) (seenStep d seen op) := by
  cases op with
  | push sym now => exact poolInv_push sym now h
  | tick override now => exact poolInv_tick override now h
  | getReadyBlock =>
      show PoolInv (deinterleaverGetReadyBlock d).2 seen
      rw [getReady_eq h]
      exact h
  | markResult b ok =>
      show PoolInv (deinterleaverMarkResult d b ok).2 seen
      rcases markResult_effect d b ok with ⟨he, -⟩ | ⟨i, -, hs, he⟩
      · rw [he]
        exact h
      · rw [he]
        refine poolInv_finalize _ h ?_
        rw [hs]
        decide
  | incCrcDrop =>
      exact poolInv_congr h ⟨rfl, rfl, rfl, rfl, rfl, rfl, rfl, rfl, rfl⟩ rfl
  | setBlockFinalCallback => exact ⟨⟨h.1.1, h.1.2, h.1.3, h.1.4, h.1.5, h.1.6⟩, h.2,
      fun i hi hne => ⟨(h.3 i hi hne).1, (h.3 i hi hne).2, (h.3 i hi hne).3,
        (h.3 i hi hne).4⟩⟩
  | setEvictionCallback => exact ⟨⟨h.1.1, h.1.2, h.1.3, h.1.4, h.1.5, h.1.6⟩, h.2,
      fun i hi hne => ⟨(h.3 i hi hne).1, (h.3 i hi hne).2, (h.3 i hi hne).3,
        (h.3 i hi hne).4⟩⟩

/-- **A run** keeps the invariant. -/
theorem poolInv_run (ops : List Op) {d : Deinterleaver}
    {seen : UInt32 → List Symbol} (h : PoolInv d seen) :
    PoolInv (run d ops) (seenRun d seen ops) := by
  induction ops generalizing d seen with
  | nil => exact h
  | cons op ops ih => exact ih (poolInv_step op h)

/-! ## READY slots are frozen -/

/-- The call takes slot `i` from its block: the slot is EMPTY afterwards, or
    it was emptied and at once opened for a block that had no slot. -/
def Released (d : Deinterleaver) (i : Nat) (op : Op) : Prop :=
  ((step d op).slots i).state = .empty ∨
    ∃ sym now, op = .push sym now ∧ findSlotAny d sym.packetId = none ∧
      (step d op).slots i
        = pushedSlot d (openSlot d i sym.packetId now) sym now

/-- A call leaves a READY slot as it is, or releases it. -/
theorem ready_step {d : Deinterleaver} {seen : UInt32 → List Symbol} (op : Op)
    {i : Nat} (h : PoolInv d seen) (hs : (d.slots i).state = .readyToDecode) :
    (step d op).slots i = d.slots i ∨ Released d i op := by
  cases op with
  | push sym now =>
      have heff := push_effect sym now (d := d) h.params.slots
      rw [Released]
      show (deinterleaverPushSymbol d sym now).2.slots i = _ ∨ _ ∨ ∃ sym' now', _ ∧ _ ∧
        (deinterleaverPushSymbol d sym now).2.slots i = _
      generalize deinterleaverPushSymbol d sym now = r at heff ⊢
      cases heff with
      | dropped hp hsl hl hacc => exact .inl (congrFun hsl i)
      | @stored d' j base calls hacc hj hb hnew hp hsl hl =>
          by_cases hij : i = j
          · subst hij
            cases hb with
            | found hf hsf =>
                rw [hs] at hsf
                exact nomatch hsf
            | opened hf hc =>
                refine .inr (.inr ⟨sym, now, rfl, hf, ?_⟩)
                show d'.slots i = _
                rw [hsl, Function.update_self]
          · refine .inl ?_
            show d'.slots i = _
            rw [hsl, Function.update_of_ne hij]
  | tick override now =>
      refine .inl ?_
      show (deinterleaverTick d override now).2.slots i = _
      rw [(tick_slots d override now).2 i, if_neg]
      rintro ⟨-, hf⟩
      rw [hs] at hf
      exact nomatch hf
  | getReadyBlock =>
      refine .inl ?_
      show (deinterleaverGetReadyBlock d).2.slots i = _
      rw [getReady_eq h]
  | markResult b ok =>
      show (deinterleaverMarkResult d b ok).2.slots i = _ ∨
        ((deinterleaverMarkResult d b ok).2.slots i).state = _ ∨ _
      rcases markResult_effect d b ok with ⟨he, -⟩ | ⟨j, -, hjs, he⟩
      · rw [he]
        exact .inl rfl
      · have hne : (d.slots j).state ≠ .empty := by
          rw [hjs]
          decide
        rw [he]
        show (finalizeAndResetSlot d j _).slots i = _ ∨
          ((finalizeAndResetSlot d j _).slots i).state = _ ∨ _
        rw [finalize_slots _ hne]
        by_cases hij : i = j
        · subst hij
          rw [Function.update_self]
          exact .inr (.inl rfl)
        · rw [Function.update_of_ne hij]
          exact .inl rfl
  | incCrcDrop => exact .inl rfl
  | setBlockFinalCallback => exact .inl rfl
  | setEvictionCallback => exact .inl rfl

/-- Over a run a READY slot stays as it is until a call releases it. -/
theorem ready_run (ops : List Op) {d : Deinterleaver}
    {seen : UInt32 → List Symbol} {i : Nat} (h : PoolInv d seen)
    (hs : (d.slots i).state = .readyToDecode) :
    (run d ops).slots i = d.slots i ∨
      ∃ pre op post, ops = pre ++ op :: post ∧
        (run d pre).slots i = d.slots i ∧ Released (run d pre) i op := by
  induction ops generalizing d seen with
  | nil => exact .inl rfl
  | cons op ops ih =>
      rcases ready_step op h hs with hsame | hrel
      · rcases ih (poolInv_step op h) (by rw [hsame]; exact hs) with
          heq | ⟨pre, op', post, ho, hpre, hr⟩
        · exact .inl (heq.trans hsame)
        · refine .inr ⟨op :: pre, op', post, ?_, ?_, hr⟩
          · rw [ho]
            rfl
          · exact hpre.trans hsame
      · exact .inr ⟨[], op, ops, rfl, rfl, hrel⟩

/-! ## The representation invariant -/

theorem run_sameSize (ops : List Op) (d : Deinterleaver)
    {seen : UInt32 → List Symbol} (h : PoolInv d seen) :
    (run d ops).maxActiveBlocks = d.maxActiveBlocks ∧
      (run d ops).symbolsPerBlock = d.symbolsPerBlock ∧
      (run d ops).k = d.k ∧ (run d ops).symbolSize = d.symbolSize := by
  induction ops generalizing d seen with
  | nil => exact ⟨rfl, rfl, rfl, rfl⟩
  | cons op ops ih =>
      obtain ⟨h1, h2, h3, h4⟩ := ih (step d op) (poolInv_step op h)
      have hstep : (step d op).maxActiveBlocks = d.maxActiveBlocks ∧
          (step d op).symbolsPerBlock = d.symbolsPerBlock ∧
          (step d op).k = d.k ∧ (step d op).symbolSize = d.symbolSize := by
        cases op with
        | push sym now =>
            have heff := push_effect sym now (d := d) h.params.slots
            show (deinterleaverPushSymbol d sym now).2.maxActiveBlocks = _ ∧
              (deinterleaverPushSymbol d sym now).2.symbolsPerBlock = _ ∧
              (deinterleaverPushSymbol d sym now).2.k = _ ∧
              (deinterleaverPushSymbol d sym now).2.symbolSize = _
            generalize deinterleaverPushSymbol d sym now = r at heff ⊢
            cases heff with
            | dropped hp => exact ⟨hp.1, hp.2, hp.3, hp.5⟩
            | stored _ _ _ _ hp => exact ⟨hp.1, hp.2, hp.3, hp.5⟩
        | tick override now =>
            have hp := (tick_slots d override now).1
            exact ⟨hp.1, hp.2, hp.3, hp.5⟩
        | getReadyBlock =>
            show (deinterleaverGetReadyBlock d).2.maxActiveBlocks = _ ∧
              (deinterleaverGetReadyBlock d).2.symbolsPerBlock = _ ∧
              (deinterleaverGetReadyBlock d).2.k = _ ∧
              (deinterleaverGetReadyBlock d).2.symbolSize = _
            rw [getReady_eq h]
            exact ⟨rfl, rfl, rfl, rfl⟩
        | markResult b ok =>
            show (deinterleaverMarkResult d b ok).2.maxActiveBlocks = _ ∧
              (deinterleaverMarkResult d b ok).2.symbolsPerBlock = _ ∧
              (deinterleaverMarkResult d b ok).2.k = _ ∧
              (deinterleaverMarkResult d b ok).2.symbolSize = _
            rcases markResult_effect d b ok with ⟨he, -⟩ | ⟨j, -, -, he⟩
            · rw [he]
              exact ⟨rfl, rfl, rfl, rfl⟩
            · rw [he]
              have hp := sameParams_finalize d j
                (if ok then .decodeSuccess else .decodeFailed)
              exact ⟨hp.1, hp.2, hp.3, hp.5⟩
        | incCrcDrop => exact ⟨rfl, rfl, rfl, rfl⟩
        | setBlockFinalCallback => exact ⟨rfl, rfl, rfl, rfl⟩
        | setEvictionCallback => exact ⟨rfl, rfl, rfl, rfl⟩
      exact ⟨h1.trans hstep.1, h2.trans hstep.2.1, h3.trans hstep.2.2.1,
        h4.trans hstep.2.2.2⟩

/-- **The representation invariant**, in every state a run can reach: block
    ids are unique, the counters are the mask, a set bit is the first symbol
    pushed for the position and a clear one the sentinel, FILLING slots are
    not full, READY slots have `k` symbols and are frozen until released. -/
theorem representation_invariant {maxA n k ss : Nat} {stab age : ℚ}
    {d0 : Deinterleaver} (hd : deinterleaverCreate maxA n k ss stab age = some d0)
    (ops : List Op) :
    let d := run d0 ops
    let seen := seenRun d0 (fun _ => []) ops
    (∀ i j, i < maxA → j < maxA → (d.slots i).state ≠ .empty →
      (d.slots j).state ≠ .empty → (d.slots i).blockId = (d.slots j).blockId →
      i = j) ∧
    ∀ i, i < maxA → (d.slots i).state ≠ .empty →
      let s := d.slots i
      (s.validSymbols = Bitset.count s.receivedMask maskBits ∧
        s.validSymbols = s.block.symbolCount ∧
        1 ≤ s.validSymbols ∧ s.validSymbols ≤ n) ∧
      (∀ p, p < n →
        (Bitset.test s.receivedMask p = true →
          ∃ first, firstAt (seen s.blockId) p = some first ∧
            clipSymbol ss (s.block.symbols p) = clipSymbol ss first ∧
            (s.block.symbols p).packetId = s.blockId) ∧
        (Bitset.test s.receivedMask p = false →
          (s.block.symbols p).packetId = 0)) ∧
      (s.state = .filling → s.validSymbols < n) ∧
      (s.state = .readyToDecode →
        k ≤ s.validSymbols ∧
        ∀ later, (run d later).slots i = s ∨
          ∃ pre op post, later = pre ++ op :: post ∧
            (run d pre).slots i = s ∧ Released (run d pre) i op) := by
  intro d seen
  have h0 := poolInv_create hd
  have hparams : d0.maxActiveBlocks = maxA ∧ d0.symbolsPerBlock = n ∧ d0.k = k ∧
      d0.symbolSize = ss := by
    rw [deinterleaverCreate] at hd
    split at hd
    · exact nomatch hd
    · rw [← Option.some.inj hd]
      exact ⟨rfl, rfl, rfl, rfl⟩
  have h : PoolInv d seen := poolInv_run ops h0
  -- the sizes never change, so they are those of the creation
  obtain ⟨hm, hn, hk, hss⟩ := run_sameSize ops d0 h0
  rw [hparams.1] at hm
  rw [hparams.2.1] at hn
  rw [hparams.2.2.1] at hk
  rw [hparams.2.2.2] at hss
  refine ⟨fun i j hi hj => h.distinct i j (by rw [hm]; exact hi)
    (by rw [hm]; exact hj), ?_⟩
  intro i hi hne s
  have hsl : SlotInv d s (seen s.blockId) := h.slot i (by rw [hm]; exact hi) hne
  have hc := hsl.content
  have hfill := hsl.filling
  have hready := hsl.ready
  rw [hn, hk, hss] at hc
  rw [hn] at hfill
  rw [hk] at hready
  have hn256 : n ≤ maskBits := by
    have := h.params.length
    rw [hn] at this
    exact le_trans this (by decide)
  refine ⟨⟨?_, hc.symbolCount.symm, hsl.pos, ?_⟩, ?_, hfill, ?_⟩
  · rw [Bitset.count_extend hn256 hc.range]
    exact hc.valid
  · rw [hc.valid]
    exact Bitset.count_le _ _
  · intro p hp
    refine ⟨?_, hc.hole p hp⟩
    intro ht
    obtain ⟨first, h1, h2, -, h4⟩ := hc.stored p hp ht
    exact ⟨first, h1, h4, (header_eq_of_clip ss h4).1.trans h2⟩
  · intro hs
    exact ⟨hready hs, fun later => ready_run later h hs⟩

/-- A symbol of one byte for block `b`, position `f`. -/
def byteSymbol (b f : UInt32) (x : UInt8) : Symbol :=
  { symbolInit with
    packetId := b, fecId := f, totalSymbols := 1, payloadLen := 1
    data := fun _ => x }

/-- A pool of four slots for blocks of two source symbols and one repair
    symbol, each of one byte; blocks are promoted at once. -/
theorem create_small :
    deinterleaverCreate 4 3 2 1 0 0
      = some ((deinterleaverCreate 4 3 2 1 0 0).get rfl) := (Option.some_get rfl).symm

/-- Two of the three positions of block 7, the repair one first. -/
theorem representation_invariant_pair :
    let d := run ((deinterleaverCreate 4 3 2 1 0 0).get rfl)
      [.push (byteSymbol 7 2 5) 10, .push (byteSymbol 7 0 6) 20]
    (d.slots 0).state = .readyToDecode ∧ 2 ≤ (d.slots 0).validSymbols := by
  intro d
  have hs : (d.slots 0).state = .readyToDecode := by decide +kernel
  have h := (representation_invariant create_small
    [.push (byteSymbol 7 2 5) 10, .push (byteSymbol 7 0 6) 20]).2 0 (by decide)
    (by show (d.slots 0).state ≠ _; rw [hs]; decide)
  exact ⟨hs, (h.2.2.2 hs).1⟩

end FsoDeinterleaver
