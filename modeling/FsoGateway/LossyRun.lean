import FsoGateway.RxOnce
import FsoGateway.RxQuiet

/-! # The receiver behind a link with losses

    Of the symbols of a stream any may be lost and the others may arrive in any
    order, as long as those of one block arrive within 2 ms and a new block
    finds room in the pool.  Then a slot holds what has arrived of its block,
    and it is let go only when nothing of the block is still to come:

    * `Tracked` — the invariant, for the slots in use, for the blocks that are
      over and for those drained;
    * `Tracked.tick`, `Tracked.push`, `Tracked.drain` — the three parts of a
      call, and `tracked_run`, a run;
    * `lossy_delivery` — every block of which `k` symbols arrive is drained
      exactly once, and what arrived whole in it is sent to the LAN. -/

namespace FsoLink

open ByteBuffer FsoTypes ErasureCode FecWrapper FsoTxPipeline FsoRxPipeline
  PacketFragmenter PacketReassembler FsoDeinterleaver

/-! ## What arrives -/

/-- Symbols of blocks, each position of a block at most once, and padding. -/
structure Arrivals (cfg : Config) (got : List Symbol) : Prop where
  position : ∀ s ∈ got, s.packetId ≠ 0 → s.fecId.toNat < cfg.k + cfg.m
  once : ∀ id, id ≠ 0 → ((ofBlock id got).map fun s => s.fecId.toNat).Nodup
  padding : ∀ s ∈ got, s.packetId = 0 → s.payloadLen = 0
  payload : ∀ s ∈ got, s.payloadLen.toNat ≤ cfg.symbolSize

/-- **The slot holds the symbols `l`** of its block, and no others. -/
structure Holds (n k ss : Nat) (slot : Slot) (l : List Symbol) : Prop where
  content : Content n k ss slot l
  complete : ∀ x ∈ l, Bitset.test slot.receivedMask x.fecId.toNat = true

section Holds

variable {n k ss : Nat} {slot : Slot} {l : List Symbol}

theorem Holds.mask (h : Holds n k ss slot l) {p : Nat} :
    Bitset.test slot.receivedMask p = true ↔ p ∈ l.map fun x => x.fecId.toNat := by
  constructor
  · intro htest
    have hp : p < n := by
      by_contra hge
      rw [h.content.range p (Nat.le_of_not_lt hge)] at htest
      exact Bool.false_ne_true htest
    obtain ⟨first, hf, -⟩ := h.content.stored p hp htest
    have hat := List.find?_some hf
    exact List.mem_map.mpr ⟨first, List.mem_of_find?_eq_some hf, eq_of_beq hat⟩
  · intro hmem
    obtain ⟨x, hx, rfl⟩ := List.mem_map.mp hmem
    exact h.complete x hx

/-- The counter of the slot is the number of its symbols. -/
theorem Holds.count (h : Holds n k ss slot l) (hpos : ∀ x ∈ l, x.fecId.toNat < n)
    (hnd : (l.map fun x => x.fecId.toNat).Nodup) : slot.validSymbols = l.length := by
  have hperm : ((List.range n).filter (Bitset.test slot.receivedMask)).Perm
      (l.map fun x => x.fecId.toNat) := by
    refine (List.perm_ext_iff_of_nodup (List.nodup_range.filter _) hnd).mpr ?_
    intro p
    rw [List.mem_filter, List.mem_range, h.mask]
    refine and_iff_right_of_imp ?_
    intro hmem
    obtain ⟨x, hx, rfl⟩ := List.mem_map.mp hmem
    exact hpos x hx
  rw [h.content.valid, Bitset.count, List.countP_eq_length_filter, hperm.length_eq,
    List.length_map]

end Holds

/-! ## The invariant -/

/-- Some slot in use has the block. -/
def HasSlot (pl : RxPipeline) (id : UInt32) : Prop :=
  ∃ i, i < pl.dil.maxActiveBlocks ∧ (pl.dil.slots i).state ≠ .empty ∧
    (pl.dil.slots i).blockId = id

/-- The entry `e` was made of the slot, which held the symbols `l` of its block. -/
structure DrainedFrom (wh : Wirehair) (cfg : Config) (l : List Symbol) (e : Drained)
    (slot : Slot) (rx : RxPipeline) : Prop where
  config : rx.cfg = cfg
  codec : rx.fec = ⟨cfg.k, cfg.symbolSize⟩
  holds : Holds (cfg.k + cfg.m) cfg.k cfg.symbolSize slot l
  residue : ∀ p, (slot.block.symbols p).payloadLen.toNat ≤ cfg.symbolSize
  entry : e = drainedOf wh rx slot.block

/-- A slot in use, `pre` having arrived and `post` being still to come. -/
structure TrackedSlot (pre post : List Symbol) (seen : UInt32 → List Symbol)
    (slot : Slot) : Prop where
  blockId : slot.blockId ≠ 0
  seen : seen slot.blockId = ofBlock slot.blockId pre
  complete : ∀ x ∈ ofBlock slot.blockId pre,
    Bitset.test slot.receivedMask x.fecId.toNat = true
  ready : slot.state = .readyToDecode → ofBlock slot.blockId post = []

/-- **The invariant**: a block that has begun and has no slot is over; it was
    drained if `k` symbols of it arrived. -/
structure Tracked (wh : Wirehair) (pre post : List Symbol) (pl : RxPipeline)
    (seen : UInt32 → List Symbol) : Prop where
  ok : ResidueOk pl seen
  slots : ∀ i, i < pl.dil.maxActiveBlocks → (pl.dil.slots i).state ≠ .empty →
    TrackedSlot pre post seen (pl.dil.slots i)
  ended : ∀ id, id ≠ 0 → ofBlock id pre ≠ [] → ¬ HasSlot pl id →
    ofBlock id post = [] ∧ (id ∈ drainedIds pl.drained ↔ pl.cfg.k ≤ (ofBlock id pre).length)
  drained : ∀ e ∈ pl.drained, ∃ slot rx, slot.blockId ≠ 0 ∧ ofBlock slot.blockId pre ≠ [] ∧
    ¬ HasSlot pl slot.blockId ∧
    DrainedFrom wh pl.cfg (ofBlock slot.blockId pre) e slot rx
  once : (drainedIds pl.drained).Nodup

section Tracked

variable {wh : Wirehair} {pre post : List Symbol} {pl : RxPipeline}
  {seen : UInt32 → List Symbol}

theorem DrainedFrom.id {cfg : Config} {l : List Symbol} {e : Drained} {slot : Slot}
    {rx : RxPipeline} (h : DrainedFrom wh cfg l e slot rx) :
    e.blk.blockId.toUInt32 = slot.blockId := by
  have hblk : e.blk = slot.block := congrArg Drained.blk h.entry
  rw [hblk, h.holds.content.blockId]
  exact UInt32.toUInt32_toUInt64 _

theorem Tracked.shape (h : Tracked wh pre post pl seen) : RxShape pl := h.ok.ok.shape

/-- What a slot in use holds. -/
theorem Tracked.holds (h : Tracked wh pre post pl seen) {i : Nat}
    (hi : i < pl.dil.maxActiveBlocks) (hne : (pl.dil.slots i).state ≠ .empty) :
    Holds (pl.cfg.k + pl.cfg.m) pl.cfg.k pl.cfg.symbolSize (pl.dil.slots i)
      (ofBlock (pl.dil.slots i).blockId pre) := by
  have hc := (h.ok.ok.pool.slot i hi hne).content
  have ht := h.slots i hi hne
  rw [h.shape.n, h.shape.k, h.shape.symbolSize, ht.seen] at hc
  exact ⟨hc, ht.complete⟩

theorem Arrivals.before {cfg : Config} (h : Arrivals cfg (pre ++ post)) : Arrivals cfg pre where
  position := fun s hs => h.position s (List.mem_append_left _ hs)
  once := by
    intro id hid
    have hnd := h.once id hid
    rw [ofBlock_append, List.map_append] at hnd
    exact (List.nodup_append.mp hnd).1
  padding := fun s hs => h.padding s (List.mem_append_left _ hs)
  payload := fun s hs => h.payload s (List.mem_append_left _ hs)

/-- Once all positions of a block have arrived, none is to come. -/
theorem Arrivals.done {cfg : Config} (h : Arrivals cfg (pre ++ post)) {id : UInt32}
    (hid : id ≠ 0) (hfull : (ofBlock id pre).length = cfg.k + cfg.m) :
    ofBlock id post = [] := by
  have hsub : (ofBlock id (pre ++ post)).map (fun s => s.fecId.toNat)
      ⊆ List.range (cfg.k + cfg.m) := by
    intro p hp
    obtain ⟨s, hs, rfl⟩ := List.mem_map.mp hp
    obtain ⟨hmem, hsid⟩ := mem_ofBlock.mp hs
    exact List.mem_range.mpr (h.position s hmem (by rw [hsid]; exact hid))
  have hle := ((h.once id hid).subperm hsub).length_le
  rw [List.length_map, ofBlock_append, List.length_append, List.length_range] at hle
  exact List.eq_nil_of_length_eq_zero (by omega)

/-- A symbol that arrives has a position of its own. -/
theorem Arrivals.fresh {cfg : Config} {s : Symbol} (h : Arrivals cfg (pre ++ s :: post))
    (hid : s.packetId ≠ 0) :
    s.fecId.toNat ∉ (ofBlock s.packetId pre).map fun x => x.fecId.toNat := by
  intro hmem
  have hnd := h.once s.packetId hid
  rw [ofBlock_append, List.map_append] at hnd
  refine (List.nodup_append.mp hnd).2.2 _ hmem _ ?_ rfl
  exact List.mem_map.mpr ⟨s, mem_ofBlock.mpr ⟨List.mem_cons_self, rfl⟩, rfl⟩

/-- The counter of a slot in use. -/
theorem Tracked.count (h : Tracked wh pre post pl seen)
    (ha : Arrivals pl.cfg (pre ++ post)) {i : Nat} (hi : i < pl.dil.maxActiveBlocks)
    (hne : (pl.dil.slots i).state ≠ .empty) :
    (pl.dil.slots i).validSymbols = (ofBlock (pl.dil.slots i).blockId pre).length := by
  have hid := (h.slots i hi hne).blockId
  refine (h.holds hi hne).count ?_ (ha.before.once _ hid)
  intro x hx
  obtain ⟨hpre, hxid⟩ := mem_ofBlock.mp hx
  exact ha.before.position x hpre (by rw [hxid]; exact hid)

/-! ## The tick -/

/-- What a tick makes of a slot that stays in use. -/
theorem ticked_slot (h : RxOk pl seen) (call : RxCall) {i : Nat}
    (hi : i < pl.dil.maxActiveBlocks)
    (hne : ((ticked pl call).dil.slots i).state ≠ .empty) :
    (ticked pl call).dil.slots i = pl.dil.slots i ∨
      (pl.dil.slots i).state = .filling ∧
        (ticked pl call).dil.slots i = { pl.dil.slots i with state := .readyToDecode } := by
  obtain ⟨hfill, hother⟩ := tick_exits h.pool (-1) call.tickNow i
  by_cases hs : (pl.dil.slots i).state = .filling
  · have hex : Exits pl.dil (pl.dil.slots i) ((ticked pl call).dil.slots i)
        (tickTimeoutMs pl.dil (-1)) call.tickNow := hfill hi hs
    cases hst : ((ticked pl call).dil.slots i).state with
    | empty => exact absurd hst hne
    | filling => exact .inl (hex.kept hst)
    | readyToDecode => exact .inr ⟨hs, hex.promoted hst⟩
  · exact .inl (hother fun hc => hs hc.2)

/-- A slot that the tick lets go or promotes is at least 2 ms old. -/
theorem settled_old {now i : Nat} (h : Tracked wh pre post pl seen)
    (hi : i < pl.dil.maxActiveBlocks) (hs : (pl.dil.slots i).state = .filling)
    (hord : (pl.dil.slots i).firstSymTime ≤ (pl.dil.slots i).lastSymTime)
    (hset : BecomesEmpty pl.dil (pl.dil.slots i) now ∨
      BecomesReady pl.dil (pl.dil.slots i) now) :
    2 ≤ elapsedMs (pl.dil.slots i).firstSymTime now := by
  have hne : (pl.dil.slots i).state ≠ .empty := by
    rw [hs]
    decide
  have hold : (2 : ℚ) ≤ 50 := by norm_num
  rcases hset with (he | ⟨-, -, hage⟩) | (hr | ⟨-, -, hfull | hlast | hage⟩)
  · exact absurd he hne
  · exact hold.trans hage
  · rw [hs] at hr
    exact absurd hr (by decide)
  · exact absurd hfull (Nat.ne_of_lt ((h.ok.ok.pool.slot i hi hne).filling hs))
  · exact wholeMs_two.widen hord (Nat.le_refl now) hlast
  · exact hold.trans hage

/-- **The tick**: a block that is let go or promoted has nothing to come. -/
theorem Tracked.tick (h : Tracked wh pre post pl seen)
    (ha : Arrivals pl.cfg (pre ++ post)) (call : RxCall)
    (hord : ∀ i, i < pl.dil.maxActiveBlocks → (pl.dil.slots i).state ≠ .empty →
      (pl.dil.slots i).firstSymTime ≤ (pl.dil.slots i).lastSymTime)
    (hdone : ∀ i, i < pl.dil.maxActiveBlocks → (pl.dil.slots i).state ≠ .empty →
      2 ≤ elapsedMs (pl.dil.slots i).firstSymTime call.tickNow →
      ofBlock (pl.dil.slots i).blockId post = []) :
    Tracked wh pre post (ticked pl call) seen := by
  have hmax : (ticked pl call).dil.maxActiveBlocks = pl.dil.maxActiveBlocks :=
    (tick_slots pl.dil (-1) call.tickNow).1.maxActiveBlocks
  have hok : ResidueOk (ticked pl call) seen := (residueOk_closed wh).tick call.tickNow h.ok
  -- a slot in use after the tick was in use before, with the same block
  have hback : ∀ i, i < pl.dil.maxActiveBlocks →
      ((ticked pl call).dil.slots i).state ≠ .empty →
      (pl.dil.slots i).state ≠ .empty ∧
        ((ticked pl call).dil.slots i).blockId = (pl.dil.slots i).blockId := by
    intro i hi hne
    rcases ticked_slot h.ok.ok call hi hne with hsame | ⟨hs, hr⟩
    · rw [hsame] at hne
      exact ⟨hne, by rw [hsame]⟩
    · exact ⟨by rw [hs]; decide, by rw [hr]⟩
  have hslot : ∀ id, HasSlot (ticked pl call) id → HasSlot pl id := by
    rintro id ⟨i, hi, hne, hid⟩
    rw [hmax] at hi
    obtain ⟨hne', hid'⟩ := hback i hi hne
    exact ⟨i, hi, hne', hid'.symm.trans hid⟩
  refine ⟨hok, ?_, ?_, ?_, h.once⟩
  · intro i hi hne
    rw [hmax] at hi
    rcases ticked_slot h.ok.ok call hi hne with hsame | ⟨hs, hr⟩
    · rw [hsame] at hne ⊢
      exact h.slots i hi hne
    · have hne' : (pl.dil.slots i).state ≠ .empty := by
        rw [hs]
        decide
      obtain ⟨hid, hseen, hcomplete, -⟩ := h.slots i hi hne'
      have hready : ((ticked pl call).dil.slots i).state = .readyToDecode := by rw [hr]
      have hbecomes := (tick_state h.ok.ok call.tickNow hi).2.1.mp hready
      rw [hr]
      exact ⟨hid, hseen, hcomplete, fun _ => hdone i hi hne'
        (settled_old h hi hs (hord i hi hne') (.inr hbecomes))⟩
  · intro id hid hpre hno
    by_cases hhas : HasSlot pl id
    · -- the tick has just let it go
      obtain ⟨i, hi, hne, rfl⟩ := hhas
      have hempty : ((ticked pl call).dil.slots i).state = .empty := by
        by_contra hne'
        exact hno ⟨i, hmax.symm ▸ hi, hne', (hback i hi hne').2⟩
      have hbecomes := (tick_state h.ok.ok call.tickNow hi).1.mp hempty
      rcases hbecomes with he | ⟨hs, hlt, hage⟩
      · exact absurd he hne
      · refine ⟨hdone i hi hne (settled_old h hi hs (hord i hi hne)
          (.inl (.inr ⟨hs, hlt, hage⟩))), ?_⟩
        have hcount := h.count ha hi hne
        rw [h.shape.k] at hlt
        refine iff_of_false ?_ (by show ¬ pl.cfg.k ≤ _; omega)
        intro hmem
        obtain ⟨e, he, heid⟩ := List.mem_map.mp hmem
        obtain ⟨slot, rx, -, -, hnot, hfrom⟩ := h.drained e he
        rw [← hfrom.id, heid] at hnot
        exact hnot ⟨i, hi, hne, rfl⟩
    · exact h.ended id hid hpre hhas
  · intro e he
    obtain ⟨slot, rx, hid, hpre, hnot, hfrom⟩ := h.drained e he
    exact ⟨slot, rx, hid, hpre, fun hhas => hnot (hslot _ hhas), hfrom⟩

/-! ## The push -/

/-- What does not touch the slots keeps the invariant. -/
theorem Tracked.congr {pl' : RxPipeline} {pre' post' : List Symbol}
    (h : Tracked wh pre post pl seen) (hok : ResidueOk pl' seen) (hcfg : pl'.cfg = pl.cfg)
    (hdrained : pl'.drained = pl.drained) (hp : SameParams pl.dil pl'.dil)
    (hslots : pl'.dil.slots = pl.dil.slots)
    (hpre : ∀ id, id ≠ 0 → ofBlock id pre' = ofBlock id pre)
    (hpost : ∀ id, id ≠ 0 → ofBlock id post' = ofBlock id post) :
    Tracked wh pre' post' pl' seen := by
  have hhas : ∀ id, HasSlot pl' id ↔ HasSlot pl id := by
    intro id
    rw [HasSlot, HasSlot, hp.maxActiveBlocks, hslots]
  refine ⟨hok, ?_, ?_, ?_, ?_⟩
  · rw [hp.maxActiveBlocks, hslots]
    intro i hi hne
    obtain ⟨hid, hseen, hcomplete, hready⟩ := h.slots i hi hne
    refine ⟨hid, ?_, ?_, ?_⟩
    · rw [hpre _ hid]
      exact hseen
    · rw [hpre _ hid]
      exact hcomplete
    · rw [hpost _ hid]
      exact hready
  · intro id hid
    rw [hpre id hid, hpost id hid, hhas, hcfg, hdrained]
    exact h.ended id hid
  · rw [hdrained, hcfg]
    intro e he
    obtain ⟨slot, rx, hid, hne, hno, hfrom⟩ := h.drained e he
    refine ⟨slot, rx, hid, ?_, ?_, ?_⟩
    · rw [hpre _ hid]
      exact hne
    · rw [hhas]
      exact hno
    · rw [hpre _ hid]
      exact hfrom
  · rw [hdrained]
    exact h.once

/-- A symbol of a block is accepted. -/
theorem Tracked.accepted {s : Symbol} (h : Tracked wh pre (s :: post) pl seen)
    (ha : Arrivals pl.cfg (pre ++ s :: post)) (hid : s.packetId ≠ 0) :
    isAccepted pl.dil s = true := by
  have hmem : s ∈ pre ++ s :: post := List.mem_append_right _ List.mem_cons_self
  refine (isAccepted_iff h.ok.ok.pool.params.position).mpr ⟨?_, ?_, ?_⟩
  · rw [isErasure, beq_eq_false_iff_ne.mpr hid, Bool.false_and]
  · rw [h.shape.symbolSize]
    exact ha.payload s hmem
  · rw [h.shape.n]
    exact ha.position s hmem hid

/-- A slot in use that has the block of a symbol yet to come is FILLING. -/
theorem Tracked.filling {s : Symbol} (h : Tracked wh pre (s :: post) pl seen) {i : Nat}
    (hi : i < pl.dil.maxActiveBlocks) (hne : (pl.dil.slots i).state ≠ .empty)
    (hsid : (pl.dil.slots i).blockId = s.packetId) : (pl.dil.slots i).state = .filling := by
  cases hst : (pl.dil.slots i).state with
  | empty => exact absurd hst hne
  | filling => rfl
  | readyToDecode =>
      have hnil := (h.slots i hi hne).ready hst
      have hs : s ∈ ofBlock (pl.dil.slots i).blockId (s :: post) :=
        mem_ofBlock.mpr ⟨List.mem_cons_self, hsid.symm⟩
      rw [hnil] at hs
      exact absurd hs List.not_mem_nil

/-- A block without a slot that has a symbol to come has not begun. -/
theorem Tracked.unbegun {s : Symbol} (h : Tracked wh pre (s :: post) pl seen)
    (hid : s.packetId ≠ 0) (hno : findSlotAny pl.dil s.packetId = none) :
    ofBlock s.packetId pre = [] := by
  by_contra hne
  have hnot : ¬ HasSlot pl s.packetId := by
    rintro ⟨i, hi, hst, hsid⟩
    exact findSlotAny_none hno hi hst hsid
  have hs : s ∈ ofBlock s.packetId (s :: post) :=
    mem_ofBlock.mpr ⟨List.mem_cons_self, rfl⟩
  rw [(h.ended _ hid hne hnot).1] at hs
  exact absurd hs List.not_mem_nil

/-- Slot `i`, FILLING, with what has arrived of the block of `s`. -/
structure Base (pre : List Symbol) (pl : RxPipeline) (s : Symbol) (now i : Nat)
    (base : Slot) : Prop where
  inPool : i < pl.dil.maxActiveBlocks
  filling : base.state = .filling
  blockId : base.blockId = s.packetId
  count : base.validSymbols = (ofBlock s.packetId pre).length
  complete : ∀ x ∈ ofBlock s.packetId pre,
    Bitset.test base.receivedMask x.fecId.toNat = true
  origin : (pl.dil.slots i).state = .empty ∧ base.firstSymTime = now ∨
    (pl.dil.slots i).state ≠ .empty ∧ base = pl.dil.slots i

/-- **Where a symbol goes**: into the slot of its block, or into an EMPTY one. -/
theorem Tracked.pushed {s : Symbol} (h : Tracked wh pre (s :: post) pl seen)
    (ha : Arrivals pl.cfg (pre ++ s :: post)) (hid : s.packetId ≠ 0)
    (hroom : findSlotAny pl.dil s.packetId = none →
      ∃ i, i < pl.dil.maxActiveBlocks ∧ (pl.dil.slots i).state = .empty) (now : Nat) :
    ∃ i base, Base pre pl s now i base ∧
      (deinterleaverPushSymbol pl.dil s now).2.slots
        = Function.update pl.dil.slots i (pushedSlot pl.dil base s now) := by
  have hacc := h.accepted ha hid
  have heff := push_effect s now h.ok.ok.pool.params.slots
  generalize deinterleaverPushSymbol pl.dil s now = r at heff ⊢
  cases heff with
  | dropped _ _ _ hdrop =>
      -- the slot is FILLING, and the position is free
      obtain ⟨i, hf, hwhy⟩ := hdrop hacc
      obtain ⟨hi, hne, hsid⟩ := findSlotAny_some hf
      rcases hwhy with hst | htest
      · exact absurd (h.filling hi hne hsid) hst
      · have hmem := (h.holds hi hne).mask.mp htest
        rw [hsid] at hmem
        exact absurd hmem (ha.fresh hid)
  | @stored d' i base calls _ hi hb _ _ hslots _ =>
      obtain ⟨hfill, hbid⟩ := hb.filling
      refine ⟨i, base, ?_, hslots⟩
      cases hb with
      | found hf hst =>
          obtain ⟨-, hne, hsid⟩ := findSlotAny_some hf
          have hcount := h.count ha hi hne
          have hcomplete := (h.slots i hi hne).complete
          rw [hsid] at hcount hcomplete
          exact ⟨hi, hfill, hbid, hcount, hcomplete, .inr ⟨hne, rfl⟩⟩
      | opened hf hchoice =>
          have hnil := h.unbegun hid hf
          obtain ⟨j, hj, hempty⟩ := hroom hf
          have hfree : (pl.dil.slots i).state = .empty := by
            cases hchoice with
            | free hst => exact hst
            | ready _ hfull _ => exact absurd hempty (hfull j hj)
            | filling _ hfull _ =>
                have hst := hfull j hj
                rw [hempty] at hst
                cases hst
          refine ⟨hi, hfill, hbid, by rw [hnil]; rfl, ?_, .inl ⟨hfree, rfl⟩⟩
          rw [hnil]
          exact fun x hx => absurd hx List.not_mem_nil

/-- What a symbol in time leaves behind in its slot. -/
theorem Base.stored {s : Symbol} {now i : Nat} {base : Slot} (hb : Base pre pl s now i base)
    (hshape : RxShape pl) (hfast : elapsedMs base.firstSymTime now < 2) :
    let new := pushedSlot pl.dil base s now
    new.state ≠ .empty ∧ new.receivedMask = Bitset.set base.receivedMask s.fecId.toNat ∧
      (new.state = .readyToDecode → base.validSymbols + 1 = pl.cfg.k + pl.cfg.m) ∧
      JustStored pl s now i new := by
  intro new
  have hfirst : base.firstSymTime = now ∨ (pl.dil.slots i).state ≠ .empty ∧
      (pl.dil.slots i).blockId = s.packetId ∧
      base.firstSymTime = (pl.dil.slots i).firstSymTime := by
    rcases hb.origin with ⟨-, hnow⟩ | ⟨hne, heq⟩
    · exact .inl hnow
    · exact .inr ⟨hne, by rw [← heq]; exact hb.blockId, by rw [heq]⟩
  have hnew : new = _ := pushedSlot_early hshape s now hb.filling hfast
  rw [hnew, ← hshape.n]
  split
  · rename_i hfull
    exact ⟨BlockState.noConfusion, rfl, fun _ => hfull, hb.blockId, rfl, hfirst⟩
  · refine ⟨?_, rfl, ?_, hb.blockId, rfl, hfirst⟩
    · show base.state ≠ .empty
      rw [hb.filling]
      decide
    · intro hready
      have hst : base.state = .readyToDecode := hready
      rw [hb.filling] at hst
      cases hst

/-- The symbols seen after a push are those that have arrived. -/
theorem Tracked.seenAfter {s : Symbol} (h : Tracked wh pre (s :: post) pl seen)
    (ha : Arrivals pl.cfg (pre ++ s :: post)) (hid : s.packetId ≠ 0) (now : Nat) :
    seenStep pl.dil seen (.push s now) = seenNext pre s seen := by
  rw [seenStep, if_pos (h.accepted ha hid), seenNext, ofBlock_snoc, if_pos rfl]
  by_cases hf : findSlotAny pl.dil s.packetId = none
  · rw [if_pos hf, h.unbegun hid hf]
    rfl
  · obtain ⟨i, hi⟩ := Option.ne_none_iff_exists'.mp hf
    obtain ⟨hlt, hne, hsid⟩ := findSlotAny_some hi
    have hseen := (h.slots i hlt hne).seen
    rw [hsid] at hseen
    rw [if_neg hf, hseen]

/-- **A symbol in time** is stored; the last one of its block makes the slot READY. -/
theorem Tracked.push {s : Symbol} (h : Tracked wh pre (s :: post) pl seen)
    (ha : Arrivals pl.cfg (pre ++ s :: post)) (hid : s.packetId ≠ 0)
    (hroom : findSlotAny pl.dil s.packetId = none →
      ∃ i, i < pl.dil.maxActiveBlocks ∧ (pl.dil.slots i).state = .empty) (now : Nat)
    (hfast : ∀ i, i < pl.dil.maxActiveBlocks → (pl.dil.slots i).state ≠ .empty →
      (pl.dil.slots i).blockId = s.packetId →
      elapsedMs (pl.dil.slots i).firstSymTime now < 2) :
    let pl' := withDil pl (deinterleaverPushSymbol pl.dil s now).2
    Tracked wh (pre ++ [s]) post pl' (seenNext pre s seen) ∧
      ∀ i, i < pl.dil.maxActiveBlocks → (pl'.dil.slots i).state ≠ .empty →
        pl'.dil.slots i = pl.dil.slots i ∨ JustStored pl s now i (pl'.dil.slots i) := by
  intro pl'
  obtain ⟨i, base, hb, hslots⟩ := h.pushed ha hid hroom now
  have hi := hb.inPool
  have hbase : elapsedMs base.firstSymTime now < 2 := by
    rcases hb.origin with ⟨-, hnow⟩ | ⟨hne, heq⟩
    · rw [hnow, elapsedMs_self]
      norm_num
    · rw [heq]
      exact hfast i hi hne (by rw [← heq]; exact hb.blockId)
  obtain ⟨hne, hmask, hready, hstored⟩ := hb.stored h.shape hbase
  have hp : SameParams pl.dil pl'.dil := sameParams_push s now h.ok.ok.pool.params.slots
  have hok : ResidueOk pl' (seenNext pre s seen) := by
    have hpush := (residueOk_closed wh).push s now trivial h.ok
    rw [h.seenAfter ha hid now] at hpush
    exact hpush
  have hself : pl'.dil.slots i = pushedSlot pl.dil base s now := by
    show (deinterleaverPushSymbol pl.dil s now).2.slots i = _
    rw [hslots, Function.update_self]
  have hsame : ∀ j, j ≠ i → pl'.dil.slots j = pl.dil.slots j := by
    intro j hj
    show (deinterleaverPushSymbol pl.dil s now).2.slots j = _
    rw [hslots, Function.update_of_ne hj]
  rw [← hself] at hne hmask hready hstored
  -- the slots of the other blocks are as before
  have hother : ∀ id, HasSlot pl' id → id ≠ s.packetId → HasSlot pl id := by
    rintro id ⟨j, hj, hjne, hjid⟩ hdiff
    have hji : j ≠ i := by
      rintro rfl
      exact hdiff (hjid.symm.trans hstored.blockId)
    rw [hsame j hji] at hjne hjid
    exact ⟨j, hp.maxActiveBlocks ▸ hj, hjne, hjid⟩
  have hkept : ∀ id, HasSlot pl id → HasSlot pl' id := by
    rintro id ⟨j, hj, hjne, hjid⟩
    by_cases hji : j = i
    · subst hji
      rcases hb.origin with ⟨he, -⟩ | ⟨-, heq⟩
      · exact absurd he hjne
      · refine ⟨j, hp.maxActiveBlocks.symm ▸ hj, hne, hstored.blockId.trans ?_⟩
        rw [← hjid, ← heq]
        exact hb.blockId.symm
    · exact ⟨j, hp.maxActiveBlocks.symm ▸ hj, by rw [hsame j hji]; exact hjne,
        by rw [hsame j hji]; exact hjid⟩
  have hmine : HasSlot pl' s.packetId := ⟨i, hp.maxActiveBlocks.symm ▸ hi, hne,
    hstored.blockId⟩
  have hpre : ∀ id, id ≠ s.packetId → ofBlock id (pre ++ [s]) = ofBlock id pre := by
    intro id hdiff
    rw [ofBlock_snoc, if_neg hdiff.symm]
  have hpost : ∀ id, id ≠ s.packetId → ofBlock id (s :: post) = ofBlock id post := by
    intro id hdiff
    exact List.filter_cons_of_neg (by rw [beq_iff_eq]; exact hdiff.symm)
  refine ⟨⟨hok, ?_, ?_, ?_, h.once⟩, ?_⟩
  · rw [hp.maxActiveBlocks]
    intro j hj hjne
    by_cases hji : j = i
    · subst hji
      refine ⟨?_, ?_, ?_, ?_⟩
      · rw [hstored.blockId]
        exact hid
      · rw [hstored.blockId, seenNext, Function.update_self]
      · rw [hstored.blockId, hmask, ofBlock_snoc, if_pos rfl]
        intro x hx
        rw [Bitset.test_set, Bool.or_eq_true, decide_eq_true_iff]
        rcases List.mem_append.mp hx with hx' | hx'
        · exact .inr (hb.complete x hx')
        · rw [List.mem_singleton.mp hx']
          exact .inl rfl
      · intro hst
        have hfull := hready hst
        have ha' : Arrivals pl.cfg ((pre ++ [s]) ++ post) := by
          rw [List.append_assoc]
          exact ha
        rw [hstored.blockId]
        refine ha'.done hid ?_
        rw [ofBlock_snoc, if_pos rfl, List.length_append, ← hb.count]
        exact hfull
    · rw [hsame j hji] at hjne ⊢
      have hdiff : (pl.dil.slots j).blockId ≠ s.packetId := by
        intro heq
        have hd := hok.ok.pool.distinct j i (hp.maxActiveBlocks.symm ▸ hj)
          (hp.maxActiveBlocks.symm ▸ hi) (by rw [hsame j hji]; exact hjne) hne
          (by rw [hsame j hji, heq, hstored.blockId])
        exact hji hd
      obtain ⟨hjid, hseen, hcomplete, hjready⟩ := h.slots j hj hjne
      rw [hpost _ hdiff] at hjready
      refine ⟨hjid, ?_, ?_, hjready⟩
      · rw [seenNext, Function.update_of_ne hdiff, hpre _ hdiff]
        exact hseen
      · rw [hpre _ hdiff]
        exact hcomplete
  · intro id hidne hbegun hno
    have hdiff : id ≠ s.packetId := by
      rintro rfl
      exact hno hmine
    rw [hpre id hdiff] at hbegun ⊢
    rw [← hpost id hdiff]
    exact h.ended id hidne hbegun fun hhas => hno (hkept id hhas)
  · intro e he
    obtain ⟨slot, rx, hsid, hbegun, hno, hfrom⟩ := h.drained e he
    have hdiff : slot.blockId ≠ s.packetId := by
      intro heq
      have hs : s ∈ ofBlock slot.blockId (s :: post) :=
        mem_ofBlock.mpr ⟨List.mem_cons_self, heq.symm⟩
      rw [(h.ended _ hsid hbegun hno).1] at hs
      exact absurd hs List.not_mem_nil
    refine ⟨slot, rx, hsid, ?_, fun hhas => hno (hother _ hhas hdiff), ?_⟩
    · rw [hpre _ hdiff]
      exact hbegun
    · rw [hpre _ hdiff]
      exact hfrom
  · intro j hj hjne
    by_cases hji : j = i
    · subst hji
      exact .inr hstored
    · exact .inl (hsame j hji)

/-! ## The drain -/

/-- **One block is drained**: it holds at least `k` symbols, and none is to come. -/
theorem Tracked.drain (h : Tracked wh pre post pl seen) (ha : Arrivals pl.cfg (pre ++ post))
    {i : Nat} (hi : i < pl.dil.maxActiveBlocks)
    (hs : (pl.dil.slots i).state = .readyToDecode) :
    Tracked wh pre post (drainBlock wh pl (pl.dil.slots i).block) seen := by
  have hne := ready_ne_empty hs
  have hslot := h.ok.ok.pool.slot i hi hne
  have hcount := h.count ha hi hne
  obtain ⟨hid, -, -, hready⟩ := h.slots i hi hne
  have hok : ResidueOk (drainBlock wh pl (pl.dil.slots i).block) seen :=
    (residueOk_closed wh).drain h.ok hi hs
  have hspec := drainBlock_spec wh h.ok.ok.pool hi hs
  dsimp only at hspec
  generalize drainBlock wh pl (pl.dil.slots i).block = pl' at hok hspec ⊢
  have hdrained : pl'.drained = pl.drained ++ [drainedOf wh pl (pl.dil.slots i).block] := by
    rw [hspec]
  have hcfg : pl'.cfg = pl.cfg := by rw [hspec]
  have hmax : pl'.dil.maxActiveBlocks = pl.dil.maxActiveBlocks := by
    rw [hspec]
    exact (sameParams_finalize _ _ _).maxActiveBlocks
  have hslots : pl'.dil.slots = Function.update pl.dil.slots i (slotReset (pl.dil.slots i)) := by
    rw [hspec]
    exact finalize_slots _ hne
  have hsame : ∀ j, (pl'.dil.slots j).state ≠ .empty →
      j ≠ i ∧ pl'.dil.slots j = pl.dil.slots j := by
    intro j hj
    have hji : j ≠ i := by
      rintro rfl
      refine hj ?_
      rw [hslots, Function.update_self]
      rfl
    exact ⟨hji, by rw [hslots, Function.update_of_ne hji]⟩
  have hmine : HasSlot pl (pl.dil.slots i).blockId := ⟨i, hi, hne, rfl⟩
  have hother : ∀ id, HasSlot pl' id → HasSlot pl id ∧ id ≠ (pl.dil.slots i).blockId := by
    rintro id ⟨j, hj, hjne, hjid⟩
    rw [hmax] at hj
    obtain ⟨hji, heq⟩ := hsame j hjne
    rw [heq] at hjne hjid
    refine ⟨⟨j, hj, hjne, hjid⟩, fun hbad => hji ?_⟩
    exact h.ok.ok.pool.distinct j i hj hi hjne hne (hjid.trans hbad)
  have hkept : ∀ id, HasSlot pl id → id ≠ (pl.dil.slots i).blockId → HasSlot pl' id := by
    rintro id ⟨j, hj, hjne, hjid⟩ hdiff
    have hji : j ≠ i := by
      rintro rfl
      exact hdiff hjid.symm
    have heq : pl'.dil.slots j = pl.dil.slots j := by rw [hslots, Function.update_of_ne hji]
    exact ⟨j, hmax.symm ▸ hj, by rw [heq]; exact hjne, by rw [heq]; exact hjid⟩
  have hfrom : DrainedFrom wh pl.cfg (ofBlock (pl.dil.slots i).blockId pre)
      (drainedOf wh pl (pl.dil.slots i).block) (pl.dil.slots i) pl :=
    ⟨rfl, h.shape.fec, h.holds hi hne, h.ok.residue i, rfl⟩
  have hids : drainedIds pl'.drained
      = drainedIds pl.drained ++ [(pl.dil.slots i).blockId] := by
    rw [hdrained, drainedIds, List.map_append, List.map_singleton, hfrom.id]
    rfl
  refine ⟨hok, ?_, ?_, ?_, ?_⟩
  · intro j hj hjne
    rw [hmax] at hj
    obtain ⟨-, heq⟩ := hsame j hjne
    rw [heq] at hjne ⊢
    exact h.slots j hj hjne
  · intro id hidne hbegun hno
    rw [hids, hcfg]
    by_cases hdiff : id = (pl.dil.slots i).blockId
    · rw [hdiff]
      refine ⟨hready hs, iff_of_true (List.mem_append_right _ List.mem_cons_self) ?_⟩
      have hk := hslot.ready hs
      rw [h.shape.k, hcount] at hk
      exact hk
    · obtain ⟨hover, hiff⟩ := h.ended id hidne hbegun fun hhas => hno (hkept id hhas hdiff)
      refine ⟨hover, ?_⟩
      rw [← hiff, List.mem_append, List.mem_singleton]
      exact or_iff_left hdiff
  · rw [hdrained, hcfg]
    intro e he
    rcases List.mem_append.mp he with hold | hlast
    · obtain ⟨slot, rx, hsid, hbegun, hno, hd⟩ := h.drained e hold
      exact ⟨slot, rx, hsid, hbegun, fun hhas => hno (hother _ hhas).1, hd⟩
    · rw [List.mem_singleton.mp hlast]
      refine ⟨_, pl, hid, ?_, fun hhas => (hother _ hhas).2 rfl, hfrom⟩
      have hpos := hslot.pos
      rw [hcount] at hpos
      exact List.ne_nil_of_length_pos hpos
  · rw [hids, List.nodup_append]
    refine ⟨h.once, List.nodup_singleton _, ?_⟩
    rintro id hmem id' hid' rfl
    rw [List.mem_singleton] at hid'
    obtain ⟨e, he, heid⟩ := List.mem_map.mp hmem
    obtain ⟨slot, rx, -, -, hno, hd⟩ := h.drained e he
    rw [← hd.id, heid, hid'] at hno
    exact hno hmine

/-- The drain loop. -/
theorem Tracked.drainLoop (h : Tracked wh pre post pl seen)
    (ha : Arrivals pl.cfg (pre ++ post)) (fuel : Nat) :
    Tracked wh pre post (drainLoop wh fuel pl) seen := by
  induction fuel generalizing pl with
  | zero => exact h
  | succ fuel ih =>
      rw [FsoRxPipeline.drainLoop, getReady_eq h.ok.ok.pool]
      cases hf : findReady pl.dil with
      | none => exact h
      | some i =>
          obtain ⟨hi, hs⟩ := findReady_some hf
          have hcfg : (drainBlock wh pl (pl.dil.slots i).block).cfg = pl.cfg := by
            rw [drainBlock_spec wh h.ok.ok.pool hi hs]
          exact ih (h.drain ha hi hs) (hcfg.symm ▸ ha)

/-- **The drain of a call.** -/
theorem Tracked.drainAll (h : Tracked wh pre post pl seen)
    (ha : Arrivals pl.cfg (pre ++ post)) :
    Tracked wh pre post (drainReadyBlocks wh pl) seen := h.drainLoop ha _

end Tracked

/-! ## One call -/

/-- The symbols that the calls bring in. -/
def arrivals (cfg : Config) (calls : List RxCall) : List Symbol :=
  calls.filterMap (arriving cfg)

/-- A symbol that the call brings in finds the slot of its block, or one that is
    EMPTY once the tick has run. -/
def HasRoom (pl : RxPipeline) (call : RxCall) : Prop :=
  ∀ s, arriving pl.cfg call = some s → s.packetId ≠ 0 →
    ∃ i, i < pl.dil.maxActiveBlocks ∧
      (BecomesEmpty pl.dil (pl.dil.slots i) call.tickNow ∨
        (pl.dil.slots i).blockId = s.packetId)

/-- The slots in use get their symbols in time. -/
def OnTime (pl : RxPipeline) (calls : List RxCall) : Prop :=
  ∀ i, i < pl.dil.maxActiveBlocks → (pl.dil.slots i).state ≠ .empty →
    Timely pl.cfg calls (pl.dil.slots i)

section Run

variable {wh : Wirehair} {pre post : List Symbol} {pl : RxPipeline}
  {seen : UInt32 → List Symbol} {calls : List RxCall} {call : RxCall}

theorem arrivals_cons (cfg : Config) (call : RxCall) (calls : List RxCall) :
    arrivals cfg (call :: calls) = (arriving cfg call).toList ++ arrivals cfg calls := by
  rw [arrivals, List.filterMap_cons]
  cases arriving cfg call <;> rfl

/-- What is sent at once arrives as it is. -/
theorem arrivals_sent {cfg : Config} (hfits : cfg.symbolSize ≤ maxSymbolDataSize)
    {l : List Symbol} (hl : ∀ s ∈ l, WireOk cfg s) (now : Nat) :
    arrivals cfg (l.map fun s => ⟨.frame (serializeSymbol s), now, now⟩) = l := by
  induction l with
  | nil => rfl
  | cons s l ih =>
      have harr : arriving cfg ⟨.frame (serializeSymbol s), now, now⟩ = some s :=
        arriving_sent hfits (hl s List.mem_cons_self) rfl
      rw [List.map_cons, arrivals_cons, harr, ih fun x hx => hl x (List.mem_cons_of_mem _ hx)]
      rfl

/-- A slot that is 2 ms old has all of its symbols. -/
theorem OnTime.over (h : OnTime pl (call :: calls)) (htime : InTime pl.cfg (call :: calls))
    {i : Nat} (hi : i < pl.dil.maxActiveBlocks) (hne : (pl.dil.slots i).state ≠ .empty)
    (hold : 2 ≤ elapsedMs (pl.dil.slots i).firstSymTime call.tickNow) :
    ofBlock (pl.dil.slots i).blockId (arrivals pl.cfg (call :: calls)) = [] := by
  by_contra hmore
  obtain ⟨s, hs⟩ := List.exists_mem_of_ne_nil _ hmore
  obtain ⟨hmem, hsid⟩ := mem_ofBlock.mp hs
  obtain ⟨c, hc, harr⟩ := List.mem_filterMap.mp hmem
  have hfast := (h i hi hne).fast c hc s harr hsid
  have hle := htime.reached hc
  exact absurd (wholeMs_two.widen le_rfl hle hold) (not_le.mpr hfast)

/-- The tick of a call. -/
theorem OnTime.tick (h : OnTime pl (call :: calls)) (hok : RxOk pl seen) :
    OnTime (ticked pl call) (call :: calls) := by
  intro i hi hne
  have hmax : (ticked pl call).dil.maxActiveBlocks = pl.dil.maxActiveBlocks :=
    (tick_slots pl.dil (-1) call.tickNow).1.maxActiveBlocks
  rw [hmax] at hi
  rcases ticked_slot hok call hi hne with hsame | ⟨hs, hr⟩
  · rw [hsame] at hne ⊢
    exact h i hi hne
  · have hne' : (pl.dil.slots i).state ≠ .empty := by
      rw [hs]
      decide
    obtain ⟨hord, hlater, hfast⟩ := h i hi hne'
    rw [hr]
    exact ⟨hord, hlater, hfast⟩

/-- The drain of a call. -/
theorem OnTime.drainAll (h : OnTime pl calls) (wh : Wirehair) (hok : RxOk pl seen) :
    OnTime (drainReadyBlocks wh pl) calls := by
  obtain ⟨heff, -⟩ := drainReadyBlocks_spec wh hok.pool
  intro i hi hne
  rw [heff.params.maxActiveBlocks] at hi
  rw [heff.slots i] at hne ⊢
  rw [heff.cfg]
  split at hne
  · exact absurd rfl hne
  · rename_i hnot
    rw [if_neg hnot]
    exact h i hi hne

theorem OnTime.tail (h : OnTime pl (call :: calls)) : OnTime pl calls :=
  fun i hi hne => (h i hi hne).tail

/-- The room that a call needs is there when its symbol is pushed. -/
theorem HasRoom.afterTick {s : Symbol} (h : HasRoom pl call) (hok : RxOk pl seen)
    (harr : arriving pl.cfg call = some s) (hid : s.packetId ≠ 0)
    (hno : findSlotAny (ticked pl call).dil s.packetId = none) :
    ∃ i, i < (ticked pl call).dil.maxActiveBlocks ∧
      ((ticked pl call).dil.slots i).state = .empty := by
  have hmax : (ticked pl call).dil.maxActiveBlocks = pl.dil.maxActiveBlocks :=
    (tick_slots pl.dil (-1) call.tickNow).1.maxActiveBlocks
  obtain ⟨i, hi, hwhy⟩ := h s harr hid
  have hst := tick_state hok call.tickNow hi
  refine ⟨i, hmax.symm ▸ hi, ?_⟩
  rcases hwhy with hempty | hsid
  · exact hst.1.mpr hempty
  · by_contra hne
    exact findSlotAny_none hno (hmax.symm ▸ hi) hne ((hst.2.2 hne).trans hsid)

/-- A symbol, of a block or padding, is pushed. -/
theorem Tracked.arrival {s : Symbol} (h : Tracked wh pre (s :: post) pl seen)
    (ha : Arrivals pl.cfg (pre ++ s :: post)) (harr : arriving pl.cfg call = some s)
    (htime : InTime pl.cfg (call :: calls)) (hon : OnTime pl (call :: calls))
    (hroom : s.packetId ≠ 0 → findSlotAny pl.dil s.packetId = none →
      ∃ i, i < pl.dil.maxActiveBlocks ∧ (pl.dil.slots i).state = .empty) :
    let pl' := withDil pl (deinterleaverPushSymbol pl.dil s call.pushNow).2
    ∃ seen', Tracked wh (pre ++ [s]) post pl' seen' ∧ OnTime pl' calls := by
  intro pl'
  by_cases hid : s.packetId = 0
  · have hlen := ha.padding s (List.mem_append_right _ List.mem_cons_self) hid
    obtain ⟨hacc, hp, hslots⟩ := push_padding h.ok.ok.pool hid hlen call.pushNow
    have hok := (residueOk_closed wh).push s call.pushNow trivial h.ok
    rw [seenStep, hacc, if_neg Bool.false_ne_true] at hok
    refine ⟨seen, h.congr hok rfl rfl hp hslots ?_ ?_, ?_⟩
    · intro id hidne
      rw [ofBlock_snoc, if_neg fun he => hidne (he.symm.trans hid)]
    · intro id hidne
      refine (List.filter_cons_of_neg ?_).symm
      rw [beq_iff_eq, hid]
      exact hidne.symm
    · intro i hi hne
      have hsame : pl'.dil.slots i = pl.dil.slots i := congrFun hslots i
      have hmax : pl'.dil.maxActiveBlocks = pl.dil.maxActiveBlocks := hp.maxActiveBlocks
      rw [hsame] at hne ⊢
      exact (hon i (hmax ▸ hi) hne).tail
  · have hmax : pl'.dil.maxActiveBlocks = pl.dil.maxActiveBlocks :=
      (sameParams_push s call.pushNow h.ok.ok.pool.params.slots).maxActiveBlocks
    obtain ⟨hstep, hslots⟩ := h.push ha hid (hroom hid) call.pushNow fun i hi hne hsid =>
      (hon i hi hne).fast call List.mem_cons_self s harr hsid.symm
    refine ⟨_, hstep, ?_⟩
    intro i hi hne
    rw [hmax] at hi
    rcases hslots i hi hne with hsame | hnew
    · have hsame' : pl'.dil.slots i = pl.dil.slots i := hsame
      rw [hsame'] at hne ⊢
      exact (hon i hi hne).tail
    · exact hnew.timely harr hid htime (hon i hi)

/-- **One call** keeps the invariant. -/
theorem Tracked.runOnce (h : Tracked wh pre (arrivals pl.cfg (call :: calls)) pl seen)
    (ha : Arrivals pl.cfg (pre ++ arrivals pl.cfg (call :: calls)))
    (htime : InTime pl.cfg (call :: calls)) (hon : OnTime pl (call :: calls))
    (hroom : HasRoom pl call) :
    ∃ seen', Tracked wh (pre ++ (arriving pl.cfg call).toList) (arrivals pl.cfg calls)
        (rxPipelineRunOnce wh pl call) seen' ∧
      OnTime (rxPipelineRunOnce wh pl call) calls := by
  have ht : Tracked wh pre (arrivals pl.cfg (call :: calls)) (ticked pl call) seen :=
    h.tick ha call (fun i hi hne => (hon i hi hne).ordered)
      fun i hi hne hold => hon.over htime hi hne hold
  have hont := hon.tick h.ok.ok
  rw [arrivals_cons] at ht ha
  cases he : call.event with
  | idle =>
      have hnone : arriving pl.cfg call = none := by rw [arriving, receivedFrame, he]
      rw [hnone] at ht ha ⊢
      rw [runOnce_idle he, Option.toList_none, List.append_nil]
      exact ⟨seen, ht.drainAll ha, hont.tail.drainAll wh ht.ok.ok⟩
  | error =>
      have hnone : arriving pl.cfg call = none := by rw [arriving, receivedFrame, he]
      rw [hnone] at ht ⊢
      rw [runOnce_error he, Option.toList_none, List.append_nil]
      exact ⟨seen, ht, hont.tail⟩
  | frame wire =>
      have hframe : receivedFrame call = some wire := by rw [receivedFrame, he]
      cases hf : parseFrame pl.cfg (wire.take rxWireBufSize) with
      | dropped =>
          have hnone : arriving pl.cfg call = none := by
            rw [arriving, hframe]
            simp only [hf]
          rw [hnone] at ht ⊢
          rw [runOnce_dropped he hf, Option.toList_none, List.append_nil]
          exact ⟨seen, ht, hont.tail⟩
      | crcFail =>
          have hnone : arriving pl.cfg call = none := by
            rw [arriving, hframe]
            simp only [hf]
          rw [hnone] at ht ⊢
          rw [runOnce_crcFail he hf, Option.toList_none, List.append_nil]
          have hok := (residueOk_closed wh).crcDrop ht.ok
          have hp : SameParams (ticked pl call).dil
              (deinterleaverIncCrcDrop (ticked pl call).dil) :=
            ⟨rfl, rfl, rfl, rfl, rfl, rfl, rfl, rfl, rfl⟩
          exact ⟨seen, ht.congr hok rfl rfl hp rfl (fun _ _ => rfl) fun _ _ => rfl,
            hont.tail⟩
      | symbol s =>
          have harr : arriving pl.cfg call = some s := arriving_some hframe hf
          rw [harr] at ht ha ⊢
          obtain ⟨seen', hpush, hon'⟩ := ht.arrival ha harr htime hont
            fun hid hno => hroom.afterTick h.ok.ok harr hid hno
          have ha' : Arrivals pl.cfg ((pre ++ [s]) ++ arrivals pl.cfg calls) := by
            rw [List.append_assoc]
            exact ha
          rw [runOnce_symbol he hf, Option.toList_some]
          exact ⟨seen', hpush.drainAll ha', hon'.drainAll wh hpush.ok.ok⟩

/-- **A run** keeps the invariant. -/
theorem tracked_run {cfg : Config} (hcfg : pl.cfg = cfg)
    (h : Tracked wh pre (arrivals cfg calls) pl seen)
    (ha : Arrivals cfg (pre ++ arrivals cfg calls)) (htime : InTime cfg calls)
    (hon : OnTime pl calls)
    (hroom : ∀ before call after, calls = before ++ call :: after →
      HasRoom (rxRun wh before pl) call) :
    ∃ seen', Tracked wh (pre ++ arrivals cfg calls) [] (rxRun wh calls pl) seen' ∧
      OnTime (rxRun wh calls pl) [] := by
  induction calls generalizing pl pre seen with
  | nil =>
      rw [arrivals, List.filterMap_nil, List.append_nil]
      exact ⟨seen, h, hon⟩
  | cons call calls ih =>
      subst hcfg
      obtain ⟨seen', hstep, hnext⟩ := h.runOnce ha htime hon (hroom [] call calls rfl)
      have hsplit : pre ++ arrivals pl.cfg (call :: calls)
          = (pre ++ (arriving pl.cfg call).toList) ++ arrivals pl.cfg calls := by
        rw [arrivals_cons, List.append_assoc]
      rw [hsplit] at ha ⊢
      exact ih (runOnce_cfg wh pl call) hstep ha htime.tail hnext
        fun before c after heq => hroom (call :: before) c after (by rw [heq]; rfl)

end Run

/-! ## What is sent -/

section Sent

variable {wh : Wirehair} {cfg : Config} {accepted : List (List UInt8)} {sent : List Symbol}
  {pss : List (List (List UInt8 × Nat))}

/-- **Any symbols are lost**, and the others come in any order. -/
theorem LinkOk.arrivals (h : LinkOk wh cfg accepted sent pss) {got : List Symbol}
    (hsub : got.Subperm sent) : Arrivals cfg got where
  position := by
    intro s hs hid
    have hmem := hsub.subset hs
    obtain ⟨_, _, _, _, hall⟩ := h.blocks.ofId h.config h.codec.toEncodes hid ⟨s, hmem, rfl⟩
    exact (hall s hmem rfl).1
  once := by
    intro id hid
    have hnd : ((ofBlock id sent).map fun s => s.fecId.toNat).Nodup := by
      rcases h.stream.inOrder id hid with hnil | hall
      · rw [hnil]
        exact List.nodup_nil
      · rw [hall]
        exact List.nodup_range
    have hof : (ofBlock id got).Subperm (ofBlock id sent) := hsub.filter _
    obtain ⟨l, hperm, hl⟩ := hof
    exact (hperm.map _).nodup_iff.mp (hnd.sublist (hl.map _))
  padding := fun s hs hid =>
    h.blocks.padding h.config h.codec.toEncodes (hsub.subset hs) hid
  payload := fun s hs => (h.blocks.wireOk s (hsub.subset hs)).payloadLen

/-- **A frame that arrived whole** is sent when its block is drained. -/
theorem DrainedFrom.frame {l : List Symbol} {e : Drained} {slot : Slot} {rx : RxPipeline}
    (hd : DrainedFrom wh cfg l e slot rx) (h : LinkOk wh cfg accepted sent pss)
    (hwh : Recovers wh cfg.k (cfg.k + cfg.m) cfg.symbolSize)
    (hl : ∀ x ∈ l, x ∈ sent ∧ x.packetId = slot.blockId) (hid : slot.blockId ≠ 0)
    (hk : cfg.k ≤ slot.validSymbols) {j : Nat} (hj : slot.blockId = blockIdOf j)
    {before after : List (List UInt8 × Nat)} {p : List UInt8 × Nat}
    (hblock : pss[j]? = some (before ++ p :: after))
    (hwhole : ∀ i, i < fragmentCount p.1.length cfg.symbolSize →
      ∃ x ∈ l, x.fecId.toNat = (framesFrags cfg.symbolSize before).length + i) :
    p.1 ∈ e.frames := by
  obtain ⟨rfl, hfec, hholds, hresidue, rfl⟩ := hd
  have hc := hholds.content
  have hlen := h.lengths _ (List.mem_of_getElem? hblock) p
    (List.mem_append_right _ List.mem_cons_self)
  have hcount : 0 < fragmentCount p.1.length rx.cfg.symbolSize := by
    rw [fragmentCount_lt_iff h.config.symbolSize, Nat.zero_mul]
    exact hlen.1
  -- the block that was sent under this id
  obtain ⟨x, hx, -⟩ := hwhole 0 hcount
  obtain ⟨hsent, hxid⟩ := hl x hx
  obtain ⟨j', b, hget, hj', hall⟩ :=
    h.blocks.ofId h.config h.codec.toEncodes hid ⟨x, hsent, hxid⟩
  have hbound := h.blocks.bound
  rw [List.length_map] at hbound
  have hlt := (List.getElem?_eq_some_iff.mp hblock).1
  have hlt' := (List.getElem?_eq_some_iff.mp hget).1
  rw [List.length_map] at hlt'
  have hjj : j = j' := by
    have heq := hj.symm.trans hj'
    rcases Nat.le_total j j' with hle | hle
    · exact blockIdOf_inj heq hle (by omega)
    · exact (blockIdOf_inj heq.symm hle (by omega)).symm
  subst hjj
  have hb : b = withPacket rx.cfg.symbolSize (framesFrags rx.cfg.symbolSize before) p.2 p.1
      (framesFrags rx.cfg.symbolSize after) := by
    rw [List.getElem?_map, hblock] at hget
    rw [← Option.some.inj hget, framesFrags, List.flatMap_append, List.flatMap_cons,
      withPacket, List.append_assoc]
    rfl
  have hshort := h.blocks.short b (List.mem_of_getElem? hget)
  rw [hb, withPacket, List.length_append, List.length_append, fragsOf_length] at hshort
  have hslot : slot.block = slotBlock wh rx.cfg slot.blockId b
      (fun i => !Bitset.test slot.receivedMask i) slot.block.symbols :=
    slotBlock_of_content hc fun y hy _ _ => congrArg _ (hall y (hl y hy).1 (hl y hy).2).2
  have hlost := lost_count (show rx.cfg.k ≤ Bitset.count slot.receivedMask
    (rx.cfg.k + rx.cfg.m) from hc.valid ▸ hk)
  have hkept : ∀ i, i < fragmentCount p.1.length rx.cfg.symbolSize →
      (!Bitset.test slot.receivedMask
        ((framesFrags rx.cfg.symbolSize before).length + i)) = false := by
    intro i hi
    obtain ⟨y, hy, hyp⟩ := hwhole i hi
    rw [← hyp, hholds.complete y hy]
    rfl
  have hfit : (framesFrags rx.cfg.symbolSize before).length
      + fragmentCount p.1.length rx.cfg.symbolSize ≤ rx.cfg.k := by omega
  rw [hb] at hslot
  rw [hslot]
  have hdelivered := packet_arrived p.2 (framesFrags rx.cfg.symbolSize after) h.config hwh
    hfec hid hlost hresidue hlen.1 hlen.2 hfit hkept
  refine hdelivered.sent.subset ?_
  rw [hdelivered.once]
  exact List.mem_append_right _ List.mem_cons_self

end Sent

/-! ## The result -/

section Result

variable {wh : Wirehair} {cfg : Config} {accepted : List (List UInt8)} {sent : List Symbol}
  {pss : List (List (List UInt8 × Nat))} {mem : Buffer} {rx0 : RxPipeline}

/-- A new receiver has drained nothing, and nothing is under way. -/
theorem tracked_create (wh : Wirehair) (hrx : rxPipelineCreate mem cfg = some rx0)
    (post : List Symbol) : Tracked wh [] post rx0 fun _ => [] := by
  obtain ⟨hok, -, hdrained, -, -, hempty⟩ := rxOk_create hrx
  refine ⟨⟨hok, ?_⟩, ?_, fun id _ hbegun => absurd rfl hbegun, ?_, ?_⟩
  · intro i p
    rw [hempty i]
    exact Nat.zero_le _
  · intro i _ hne
    rw [hempty i] at hne
    exact absurd rfl hne
  · rw [hdrained]
    exact fun e he => absurd he List.not_mem_nil
  · rw [hdrained]
    exact List.nodup_nil

/-- Once every slot is EMPTY, the blocks drained are those of which `k` symbols
    have arrived. -/
theorem Tracked.drained_iff {pl : RxPipeline} {got : List Symbol}
    {seen : UInt32 → List Symbol} (h : Tracked wh got [] pl seen) (hk : 0 < pl.cfg.k)
    (hempty : ∀ i, i < pl.dil.maxActiveBlocks → (pl.dil.slots i).state = .empty)
    {id : UInt32} (hid : id ≠ 0) :
    id ∈ drainedIds pl.drained ↔ pl.cfg.k ≤ (ofBlock id got).length := by
  have hno : ¬ HasSlot pl id := by
    rintro ⟨i, hi, hne, -⟩
    exact hne (hempty i hi)
  by_cases hbegun : ofBlock id got = []
  · refine iff_of_false ?_ (by rw [hbegun]; exact Nat.not_le.mpr hk)
    intro hmem
    obtain ⟨e, he, heid⟩ := List.mem_map.mp hmem
    obtain ⟨slot, rx, -, hne, -, hd⟩ := h.drained e he
    rw [← hd.id, heid] at hne
    exact hne hbegun
  · exact (h.ended id hid hbegun hno).2

/-- A frame that arrived whole, in a block that is drained. -/
theorem Tracked.frame {pl : RxPipeline} {got : List Symbol} {seen : UInt32 → List Symbol}
    (ht : Tracked wh got [] pl seen) (h : LinkOk wh pl.cfg accepted sent pss)
    (hwh : Recovers wh pl.cfg.k (pl.cfg.k + pl.cfg.m) pl.cfg.symbolSize)
    (hsub : got.Subperm sent) {j : Nat} {before after : List (List UInt8 × Nat)}
    {p : List UInt8 × Nat} (hblock : pss[j]? = some (before ++ p :: after))
    (hmem : blockIdOf j ∈ drainedIds pl.drained)
    (hk : pl.cfg.k ≤ (ofBlock (blockIdOf j) got).length)
    (hwhole : ∀ i, i < fragmentCount p.1.length pl.cfg.symbolSize →
      ∃ x ∈ ofBlock (blockIdOf j) got,
        x.fecId.toNat = (framesFrags pl.cfg.symbolSize before).length + i) :
    p.1 ∈ lanFrames pl := by
  have ha := h.arrivals hsub
  obtain ⟨e, he, heid⟩ := List.mem_map.mp hmem
  obtain ⟨slot, rx, hid, -, -, hd⟩ := ht.drained e he
  have hj : slot.blockId = blockIdOf j := hd.id.symm.trans heid
  have hcount : slot.validSymbols = (ofBlock slot.blockId got).length := by
    refine hd.holds.count ?_ (ha.once _ hid)
    intro x hx
    obtain ⟨hxgot, hxid⟩ := mem_ofBlock.mp hx
    exact ha.position x hxgot (by rw [hxid]; exact hid)
  refine List.mem_flatMap.mpr ⟨e, he, hd.frame h hwh ?_ hid ?_ hj hblock ?_⟩
  · intro x hx
    obtain ⟨hxgot, hxid⟩ := mem_ofBlock.mp hx
    exact ⟨hsub.subset hxgot, hxid⟩
  · rw [hcount, hj]
    exact hk
  · rw [hj]
    exact hwhole

/-- **A link with losses.**  Of the symbols that a flushed sender has sent any
    are lost, and the others arrive in any order, those of one block within
    2 ms, each finding a slot.  After a silence with an idle call at its end
    the blocks of which at least `k` symbols arrived have been drained, once
    each, and no others; and every frame of such a block that arrived whole
    has been sent to the LAN. -/
theorem lossy_delivery (wh : Wirehair) (clk : Nat → Nat) (mem : Nat → Nat → Symbol)
    (lanMac : List UInt8) (rxMem : Buffer) (cfg : Config) (tx0 : TxPipeline)
    (rx0 : RxPipeline) (htx : txPipelineCreate mem lanMac cfg = some tx0)
    (hrx : rxPipelineCreate rxMem cfg = some rx0)
    (hss : cfg.symbolSize ≤ maxSymbolDataSize)
    (hwh : Recovers wh cfg.k (cfg.k + cfg.m) cfg.symbolSize) (evs : List TxEvent)
    (calls : List RxCall) (last : Nat)
    (htimes : ∀ c ∈ calls, c.tickNow ≤ last ∧ c.pushNow ≤ last) (quiet : RxCall)
    (hidle : quiet.event = .idle) (hlong : 50 ≤ elapsedMs last quiet.tickNow) :
    let tx := (txRun wh clk evs tx0).2
    let rx := rxRun wh (calls ++ [quiet]) rx0
    let got := arrivals cfg calls
    tx.blocksBuilt < 2 ^ 32 → Flushed tx →
    (∀ pkt ∈ tx.accepted,
      0 < pkt.length ∧ fragmentCount pkt.length cfg.symbolSize ≤ cfg.k) →
    got.Subperm tx.sent → InTime cfg calls →
    (∀ before call after, calls = before ++ call :: after →
      HasRoom (rxRun wh before rx0) call) →
    (drainedIds rx.drained).Nodup ∧
    (∀ id, id ≠ 0 →
      (id ∈ drainedIds rx.drained ↔ cfg.k ≤ (ofBlock id got).length)) ∧
    ∃ pss : List (List (List UInt8 × Nat)), pss.flatten.map Prod.fst = tx.accepted ∧
      SentBlocks wh cfg tx.accepted tx.sent (pss.map (framesFrags cfg.symbolSize)) ∧
      ∀ j before p after, pss[j]? = some (before ++ p :: after) →
        cfg.k ≤ (ofBlock (blockIdOf j) got).length →
        (∀ i, i < fragmentCount p.1.length cfg.symbolSize →
          ∃ x ∈ ofBlock (blockIdOf j) got,
            x.fecId.toNat = (framesFrags cfg.symbolSize before).length + i) →
        p.1 ∈ lanFrames rx := by
  intro tx rx got hblocks hflushed hfit hsub htime hroom
  have hcfg := rxCreate_cfgOk hrx hss
  have hrepair := hcfg.repair
  obtain ⟨hinit, hcfg0, -⟩ := runInv_create htx (by omega) hss hwh.toEncodes
  obtain ⟨-, hi, htxcfg⟩ := runInv_run clk evs hinit
  have hconf : tx.cfg = cfg := htxcfg.trans hcfg0
  rw [← hconf] at hfit
  have hsys : Systematic wh tx.cfg.k (tx.cfg.k + tx.cfg.m) tx.cfg.symbolSize := by
    rw [hconf]
    exact hwh.systematic (Nat.le_add_right _ _)
  obtain ⟨pss, hl, hflat, -⟩ := flushed_linkOk hi hsys hblocks hflushed hfit
  rw [show (txRun wh clk evs tx0).2.cfg = cfg from hconf] at hl
  obtain ⟨-, hrxcfg, -⟩ := rxOk_create hrx
  have hrconf : rx.cfg = cfg := (run_cfg wh _ rx0).trans hrxcfg
  -- up to the silence
  obtain ⟨seen, hrun, hon⟩ := tracked_run hrxcfg (tracked_create wh hrx got)
    (hl.arrivals hsub) htime
    (fun i _ hne => absurd (congrArg Slot.state ((rxOk_create hrx).2.2.2.2.2 i)) hne) hroom
  rw [List.nil_append] at hrun
  have hgot : Arrivals (rxRun wh calls rx0).cfg (got ++ []) := by
    rw [List.append_nil, run_cfg wh calls rx0, hrxcfg]
    exact hl.arrivals hsub
  -- the idle call
  have hlast : Tracked wh got [] rx seen := by
    have hone : rx = drainReadyBlocks wh (ticked (rxRun wh calls rx0) quiet) :=
      (List.foldl_concat ..).trans (runOnce_idle hidle)
    rw [hone]
    exact (hrun.tick hgot quiet (fun i hi hne => (hon i hi hne).ordered)
      fun _ _ _ _ => rfl).drainAll hgot
  have hempty := (quiet_empties wh rxMem cfg rx0 hrx calls last htimes quiet hidle hlong).empty
  have hiff : ∀ id, id ≠ 0 →
      (id ∈ drainedIds rx.drained ↔ cfg.k ≤ (ofBlock id got).length) := by
    intro id hid
    have hk : 0 < rx.cfg.k := by
      have hsource := hcfg.source
      rw [hrconf]
      omega
    rw [← hrconf]
    exact hlast.drained_iff hk hempty hid
  refine ⟨hlast.once, hiff, pss, hflat, hl.blocks, ?_⟩
  intro j before p after hblock hk hwhole
  have hid : blockIdOf j ≠ 0 := by
    have hbound := hl.blocks.bound
    rw [List.length_map] at hbound
    have hlt := (List.getElem?_eq_some_iff.mp hblock).1
    intro hzero
    have heq := congrArg UInt32.toNat hzero
    rw [blockIdOf_toNat (by omega)] at heq
    exact absurd heq (Nat.succ_ne_zero j)
  have hdrained := (hiff _ hid).mpr hk
  rw [← hrconf] at hl hwh hk hwhole
  exact hlast.frame hl hwh hsub hblock hdrained hk hwhole

end Result

/-! ## Block 1 without its second symbol -/

/-- Of block 1 the first symbol and the repair symbol arrive, of block 2 the
    first symbol alone, all in the wrong order and without the padding. -/
def arrivedSymbols : List Symbol :=
  (flushedSender.sent.filter fun s =>
    s.packetId == 1 && s.fecId != 1 || s.packetId == 2 && s.fecId == 0).reverse

/-- They arrive at once. -/
def thinnedCalls : List RxCall :=
  arrivedSymbols.map fun s => ⟨.frame (serializeSymbol s), 0, 0⟩

theorem arrivedSymbols_subperm : arrivedSymbols.Subperm flushedSender.sent :=
  (List.reverse_perm _).subperm.trans List.filter_sublist.subperm

theorem flushedSender_wireOk : ∀ s ∈ flushedSender.sent, WireOk smallLink s := by
  have htx : txPipelineCreate (fun _ _ => symbolInit) [] smallLink = some smallPipeline :=
    (Option.some_get _).symm
  obtain ⟨hinit, hcfg, -⟩ := runInv_create htx (by decide) (by decide)
    (parity_recovers 4).toEncodes
  obtain ⟨-, hi, htxcfg⟩ := runInv_run (fun t => t * 3000000) [.frame [1, 2, 3] false,
    .frame [4, 5, 6, 7, 8] false, .idle, .idle, .idle] hinit
  obtain ⟨h, hr⟩ := hi.hist
  have hwire := (sentBlocks_run hi hr (show flushedSender.blocksBuilt < 2 ^ 32 by
    decide +kernel)).wireOk
  rw [htxcfg.trans hcfg] at hwire
  exact hwire

theorem arrivals_thinned : arrivals smallLink thinnedCalls = arrivedSymbols :=
  arrivals_sent (by decide)
    (fun s hs => flushedSender_wireOk s (arrivedSymbols_subperm.subset hs)) 0

theorem thinned_room (before : List RxCall) (call : RxCall) (after : List RxCall)
    (h : thinnedCalls = before ++ call :: after) :
    HasRoom (rxRun parity before ((rxPipelineCreate (fun _ => 0) smallLink).get rfl)) call := by
  have hroom : ∀ n, n < 3 →
      let pl := rxRun parity (thinnedCalls.take n)
        ((rxPipelineCreate (fun _ => 0) smallLink).get rfl)
      7 < pl.dil.maxActiveBlocks ∧ (pl.dil.slots 7).state = .empty := by decide +kernel
  have hlen : thinnedCalls.length = 3 := by decide +kernel
  have htake : thinnedCalls.take before.length = before := by
    rw [h]
    exact List.take_left
  have hlt : before.length < 3 := by
    rw [h, List.length_append, List.length_cons] at hlen
    omega
  have hfree := hroom before.length hlt
  rw [htake] at hfree
  exact fun s _ _ => ⟨7, hfree.1, .inl (.inl hfree.2)⟩

theorem framesFrags_first {ss : Nat} {pkt : List UInt8} (number : Nat)
    (after : List (List UInt8 × Nat)) (h : 0 < fragmentCount pkt.length ss) :
    (framesFrags ss ((pkt, number) :: after))[0]? = some ⟨number, pkt, 0⟩ := by
  rw [framesFrags, List.flatMap_cons, List.getElem?_append_left (by rw [fragsOf_length]; exact h),
    fragsOf, List.getElem?_map, List.getElem?_range h]
  rfl

/-- Block 1 begins with the first frame: its first symbol carries three bytes. -/
theorem flushedSender_first {pss : List (List (List UInt8 × Nat))}
    (hflat : pss.flatten.map Prod.fst = flushedSender.accepted)
    (hblocks : SentBlocks parity smallLink flushedSender.accepted flushedSender.sent
      (pss.map (framesFrags smallLink.symbolSize))) :
    ∃ p after, pss[0]? = some (p :: after) ∧ p.1 = [1, 2, 3] := by
  have hsent : ∃ s ∈ flushedSender.sent, s.packetId = 1 ∧ s.fecId = 0 ∧ s.payloadLen = 3 := by
    decide +kernel
  obtain ⟨s, hs, hid, hfec, hlen⟩ := hsent
  rcases hblocks.cells s hs with ⟨hzero, -⟩ | ⟨j, b, c, hj, hc, rfl⟩
  · rw [hid] at hzero
    exact absurd hzero (by decide)
  · obtain ⟨rx, hrx⟩ : ∃ rx, rxPipelineCreate (fun _ => 0) smallLink = some rx :=
      Option.isSome_iff_exists.mp rfl
    have hcfg := rxCreate_cfgOk hrx (by decide)
    have hsym := encodedSymbol_block hcfg (parity_recovers 4).toEncodes (blockIdOf j)
      (sourceSymbol smallLink.symbolSize b) hc
    -- the id and the position tell which symbol it is
    obtain rfl : j = 0 := by
      have hlt := (List.getElem?_eq_some_iff.mp hj).1
      have hbound := hblocks.bound
      have hone : (blockIdOf j).toNat = 1 := by rw [← hsym.packetId, hid]; rfl
      rw [blockIdOf_toNat (by omega)] at hone
      exact Nat.succ.inj hone
    obtain rfl : c = 0 := by rw [← hsym.fecId, hfec]; rfl
    obtain ⟨ps, hps, rfl⟩ := Option.map_eq_some_iff.mp (List.getElem?_map ▸ hj)
    rw [(encodedSymbol_source parity _ (by decide) _).2.2.2.2.1] at hlen
    cases ps with
    | nil => exact absurd hlen (by decide)
    | cons p after =>
        have hmem : p.1 ∈ flushedSender.accepted := by
          rw [← hflat]
          exact List.mem_map_of_mem
            (List.mem_flatten_of_mem (List.mem_of_getElem? hps) List.mem_cons_self)
        rw [show flushedSender.accepted = [[1, 2, 3], [4, 5, 6, 7, 8]] by decide +kernel] at hmem
        obtain ⟨pkt, number⟩ := p
        refine ⟨_, after, hps, ?_⟩
        rcases List.mem_pair.mp hmem with rfl | rfl
        · rfl
        · -- the first fragment of the other frame has four bytes
          rw [sourceSymbol_of (framesFrags_first number after (by decide))] at hlen
          exact absurd hlen (by show ¬ (4 : UInt16) = 3; decide)

/-- Block 1 is drained, once, with its frame, and block 2 is given up. -/
theorem lossy_delivery_thinned :
    let rx := rxRun parity (thinnedCalls ++ [quietCall])
      ((rxPipelineCreate (fun _ => 0) smallLink).get rfl)
    (drainedIds rx.drained).Nodup ∧ 1 ∈ drainedIds rx.drained ∧
      2 ∉ drainedIds rx.drained ∧ [1, 2, 3] ∈ lanFrames rx := by
  have hzero : ∀ c ∈ thinnedCalls, c.tickNow = 0 ∧ c.pushNow = 0 := by
    intro c hc
    obtain ⟨s, -, rfl⟩ := List.mem_map.mp hc
    exact ⟨rfl, rfl⟩
  obtain ⟨honce, hiff, pss, hflat, hblocks, hframes⟩ := lossy_delivery parity (fun t => t * 3000000)
    (fun _ _ => symbolInit) [] (fun _ => 0) smallLink smallPipeline _
    (Option.some_get _).symm (Option.some_get _).symm (by decide) (parity_recovers 4)
    [.frame [1, 2, 3] false, .frame [4, 5, 6, 7, 8] false, .idle, .idle, .idle] thinnedCalls 0
    (fun c hc => ⟨Nat.le_of_eq (hzero c hc).1, Nat.le_of_eq (hzero c hc).2⟩) quietCall rfl
    quietCall_long (by decide +kernel) ⟨by decide +kernel, by decide +kernel⟩
    (by decide +kernel) (arrivals_thinned ▸ arrivedSymbols_subperm)
    (inTime_atOnce smallLink hzero) thinned_room
  obtain ⟨p, after, hblock, hp⟩ := flushedSender_first hflat hblocks
  have hframe := hframes 0 [] p after hblock
  rw [arrivals_thinned] at hiff hframe
  rw [hp] at hframe
  refine ⟨honce, (hiff 1 (by decide)).mpr (by decide +kernel),
    fun h => absurd ((hiff 2 (by decide)).mp h) (by decide +kernel),
    hframe (by decide +kernel) ?_⟩
  intro i hi
  obtain rfl : i = 0 := Nat.lt_one_iff.mp hi
  have hwhole : ∃ x ∈ ofBlock 1 arrivedSymbols, x.fecId.toNat = 0 := by decide +kernel
  exact hwhole

end FsoLink
