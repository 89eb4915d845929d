import FsoGateway.LossSafety
import FsoGateway.RxInOrder

/-! # A link without losses

    Every symbol that was sent arrives, in order and in time.  The receiver
    stays in step with the stream, so that every block is drained when its last
    symbol arrives, and the blocks come in the order in which they were built:

    * `InStep.symbol`, `InStep.tick` — one symbol, one tick;
    * `lossless_delivery` — the frames sent to the LAN are those that were
      accepted, in order. -/

namespace FsoLink

open ByteBuffer FsoTypes ErasureCode FecWrapper FsoTxPipeline FsoRxPipeline
  PacketFragmenter PacketReassembler FsoDeinterleaver

/-- What the receiver needs to know of a flushed transmitter; `pss` are the
    frames of its blocks. -/
structure LinkOk (wh : Wirehair) (cfg : Config) (accepted : List (List UInt8))
    (sent : List Symbol) (pss : List (List (List UInt8 × Nat))) : Prop where
  config : CfgOk cfg
  codec : Systematic wh cfg.k (cfg.k + cfg.m) cfg.symbolSize
  stream : Stream cfg sent
  blocks : SentBlocks wh cfg accepted sent (pss.map (framesFrags cfg.symbolSize))
  lengths : ∀ ps ∈ pss, ∀ p ∈ ps, 0 < p.1.length ∧ p.1.length ≤ reassemBufSize

/-- The frames in block `id`. -/
def framesOf (pss : List (List (List UInt8 × Nat))) (id : UInt32) : List (List UInt8) :=
  (pss.getD (id.toNat - 1) []).map Prod.fst

/-- The frames of the blocks whose last symbol is in the list. -/
def framesOfLast (cfg : Config) (pss : List (List (List UInt8 × Nat)))
    (l : List Symbol) : List (List UInt8) :=
  (l.filter (isLast (cfg.k + cfg.m))).flatMap fun s => framesOf pss s.packetId

section Step

variable {wh : Wirehair} {accepted : List (List UInt8)} {sent pre post : List Symbol}
  {pss : List (List (List UInt8 × Nat))} {pl : RxPipeline}
  {seen : UInt32 → List Symbol} {s : Symbol}

/-- **A full slot** sends the frames of its block. -/
theorem full_slot_frames (hl : LinkOk wh pl.cfg accepted sent pss) (hok : RxOk pl seen)
    {i : Nat} (hi : i < pl.dil.maxActiveBlocks)
    (hne : (pl.dil.slots i).state ≠ .empty) (hid : (pl.dil.slots i).blockId ≠ 0)
    (hfull : (pl.dil.slots i).validSymbols = pl.cfg.k + pl.cfg.m)
    (hseen : ∀ x ∈ seen (pl.dil.slots i).blockId, x ∈ sent) :
    (drainedOf wh pl (pl.dil.slots i).block).frames
      = framesOf pss (pl.dil.slots i).blockId := by
  have hc := (hok.pool.slot i hi hne).content
  rw [hok.shape.n, hok.shape.k, hok.shape.symbolSize] at hc
  have hmask := Bitset.count_eq_iff.mp (hc.valid.symm.trans hfull)
  have hn : pl.cfg.k + pl.cfg.m ≤ 256 := hl.config.length
  have hsource := hl.config.source
  have hstored : ∀ p, p < pl.cfg.k + pl.cfg.m → ∃ x ∈ sent,
      x.packetId = (pl.dil.slots i).blockId ∧ x.fecId.toNat = p ∧
        clipSymbol pl.cfg.symbolSize ((pl.dil.slots i).block.symbols p)
          = clipSymbol pl.cfg.symbolSize x := by
    intro p hp
    obtain ⟨first, hf, hfid, -, hclip⟩ := hc.stored p hp (hmask p hp)
    have hat := List.find?_some hf
    exact ⟨first, hseen first (List.mem_of_find?_eq_some hf), hfid, eq_of_beq hat, hclip⟩
  obtain ⟨x, hx, hxid, -⟩ := hstored 0 (by omega)
  obtain ⟨j, b, hget, hj, hsent⟩ :=
    hl.blocks.ofId hl.config hl.codec.toEncodes hid ⟨x, hx, hxid⟩
  have hb := List.mem_of_getElem? hget
  have hjlt := (List.getElem?_eq_some_iff.mp hget).1
  have hbound := hl.blocks.bound
  rw [List.getElem?_map, Option.map_eq_some_iff] at hget
  obtain ⟨ps, hps, rfl⟩ := hget
  have hcomplete : Complete wh pl.cfg (pl.dil.slots i).blockId
      (sourceSymbol pl.cfg.symbolSize (framesFrags pl.cfg.symbolSize ps))
      (pl.dil.slots i).block := by
    refine ⟨hc.symbolsPerBlock, ?_, fun p hp => ?_⟩
    · rw [hc.symbolCount, hfull]
    · obtain ⟨y, hy, hyid, hyp, hclip⟩ := hstored p hp
      have heq := (hsent y hy hyid).2
      rw [hyp] at heq
      rw [hclip, ← heq]
  rw [complete_frames hl.config hl.codec hok.shape.fec hid hcomplete
    (hl.blocks.short _ hb) (hl.blocks.frags _ hb)
    (hl.lengths ps (List.mem_of_getElem? hps))]
  rw [framesOf, hj, blockIdOf_toNat (by omega), Nat.add_sub_cancel,
    List.getD_eq_getElem?_getD, hps]
  rfl

/-- In step, no slot is READY. -/
theorem InStep.notReady (h : InStep pre pl seen) : readyList pl.dil = [] := by
  refine List.eq_nil_iff_forall_not_mem.mpr fun i hi => ?_
  obtain ⟨hlt, hst⟩ := mem_readyList.mp hi
  have hfill := (h.slots i hlt (ready_ne_empty hst)).1
  rw [hst] at hfill
  exact nomatch hfill

/-- A push of padding stores nothing. -/
theorem push_padding {d : Deinterleaver} (h : PoolInv d seen) (hid : s.packetId = 0)
    (hlen : s.payloadLen = 0) (now : Nat) :
    isAccepted d s = false ∧ SameParams d (deinterleaverPushSymbol d s now).2 ∧
      (deinterleaverPushSymbol d s now).2.slots = d.slots := by
  have herasure : isErasure s = true := by
    rw [isErasure, hid, hlen]
    rfl
  have hacc : isAccepted d s = false := by
    rw [isAccepted, herasure]
    rfl
  refine ⟨hacc, ?_⟩
  have heff := push_effect s now h.params.slots
  generalize deinterleaverPushSymbol d s now = r at heff ⊢
  cases heff with
  | dropped hp hslots _ _ => exact ⟨hp, hslots⟩
  | stored hstored _ _ _ _ _ _ =>
      rw [hacc] at hstored
      cases hstored

/-- **Padding** is dropped. -/
theorem InStep.padding (h : InStep pre pl seen) (wh : Wirehair) (hid : s.packetId = 0)
    (hlen : s.payloadLen = 0) (now : Nat) :
    let pl' := drainReadyBlocks wh (withDil pl (deinterleaverPushSymbol pl.dil s now).2)
    InStep (pre ++ [s]) pl' seen ∧ pl'.cfg = pl.cfg ∧ pl'.drained = pl.drained ∧
      pl'.dil.slots = pl.dil.slots ∧ pl'.dil.maxActiveBlocks = pl.dil.maxActiveBlocks := by
  obtain ⟨hacc, hp, hslots⟩ := push_padding h.ok.pool hid hlen now
  have hok := (rxOk_closed wh).push s now trivial h.ok
  rw [seenStep, hacc, if_neg Bool.false_ne_true] at hok
  generalize deinterleaverPushSymbol pl.dil s now = r at hp hslots hok ⊢
  have hsofar : ∀ id, id ≠ 0 → ofBlock id (pre ++ [s]) = ofBlock id pre := by
    intro id hne
    rw [ofBlock_snoc, if_neg fun he => hne (he.symm.trans hid)]
  have hstep : InStep (pre ++ [s]) (withDil pl r.2) seen := by
    refine ⟨hok, ?_, ?_⟩
    · show ∀ i, i < r.2.maxActiveBlocks → (r.2.slots i).state ≠ .empty → _
      rw [hp.maxActiveBlocks]
      show ∀ i, _ → (r.2.slots i).state ≠ .empty → (r.2.slots i).state = .filling ∧
        (r.2.slots i).blockId ≠ 0 ∧
        seen (r.2.slots i).blockId = ofBlock (r.2.slots i).blockId (pre ++ [s])
      rw [hslots]
      intro i hi hne
      obtain ⟨h1, h2, h3⟩ := h.slots i hi hne
      exact ⟨h1, h2, h3.trans (hsofar _ h2).symm⟩
    · intro id hne
      rw [hsofar id hne]
      show _ → _ → ∃ i, i < r.2.maxActiveBlocks ∧ (r.2.slots i).state ≠ .empty ∧
        (r.2.slots i).blockId = id
      rw [hp.maxActiveBlocks, hslots]
      exact h.hasSlot id hne
  intro pl'
  have hpl : pl' = withDil pl r.2 := drain_none wh hstep.notReady
  rw [hpl]
  exact ⟨hstep, rfl, rfl, hslots, hp.maxActiveBlocks⟩

/-- What became of slot `i` when `s` was stored into it. -/
structure JustStored (pl : RxPipeline) (s : Symbol) (now i : Nat) (slot : Slot) : Prop where
  blockId : slot.blockId = s.packetId
  last : slot.lastSymTime = now
  first : slot.firstSymTime = now ∨ (pl.dil.slots i).state ≠ .empty ∧
    (pl.dil.slots i).blockId = s.packetId ∧
    slot.firstSymTime = (pl.dil.slots i).firstSymTime

/-- What a symbol in time does. -/
structure NextStep (pss : List (List (List UInt8 × Nat))) (pre : List Symbol) (s : Symbol)
    (now : Nat) (pl pl' : RxPipeline) (seen' : UInt32 → List Symbol) : Prop where
  inStep : InStep (pre ++ [s]) pl' seen'
  config : pl'.cfg = pl.cfg
  size : pl'.dil.maxActiveBlocks = pl.dil.maxActiveBlocks
  frames : lanFrames pl' = lanFrames pl ++ framesOfLast pl.cfg pss [s]
  slots : ∀ i, i < pl.dil.maxActiveBlocks → (pl'.dil.slots i).state ≠ .empty →
    pl'.dil.slots i = pl.dil.slots i ∨ JustStored pl s now i (pl'.dil.slots i)

/-- The pool `d` after the next symbol `s` was stored into slot `i`, on top of
    `base`; the slots of other blocks are as before. -/
structure Placed (pre : List Symbol) (s : Symbol) (now : Nat) (pl : RxPipeline)
    (d : Deinterleaver) (seen' : UInt32 → List Symbol) (i : Nat) (base : Slot) : Prop where
  inPool : i < pl.dil.maxActiveBlocks
  params : SameParams pl.dil d
  ok : RxOk (withDil pl d) seen'
  self : d.slots i =
    if (ofBlock s.packetId pre).length + 1 = pl.cfg.k + pl.cfg.m then
      { slotStore base s pl.dil.symbolSize now with state := .readyToDecode }
    else slotStore base s pl.dil.symbolSize now
  same : ∀ j, j ≠ i → d.slots j = pl.dil.slots j
  filling : base.state = .filling
  blockId : base.blockId = s.packetId
  count : base.validSymbols = (ofBlock s.packetId pre).length
  origin : (pl.dil.slots i).state = .empty ∧ base.firstSymTime = now ∨
    (pl.dil.slots i).state ≠ .empty ∧ base = pl.dil.slots i

/-- The symbols seen after the next one. -/
def seenNext (pre : List Symbol) (s : Symbol) (seen : UInt32 → List Symbol) :
    UInt32 → List Symbol :=
  Function.update seen s.packetId (ofBlock s.packetId (pre ++ [s]))

/-- **The next symbol of a block**, in time, is placed. -/
theorem InStep.placed (h : InStep pre pl seen) (hl : LinkOk wh pl.cfg accepted sent pss)
    (hsplit : sent = pre ++ s :: post) (hid : s.packetId ≠ 0) (now : Nat)
    (hfast : ∀ i, i < pl.dil.maxActiveBlocks → (pl.dil.slots i).state ≠ .empty →
      (pl.dil.slots i).blockId = s.packetId →
      elapsedMs (pl.dil.slots i).firstSymTime now < 2) :
    ∃ i base, Placed pre s now pl (deinterleaverPushSymbol pl.dil s now).2
      (seenNext pre s seen) i base := by
  have hmem : s ∈ sent := by
    rw [hsplit]
    exact List.mem_append_right _ List.mem_cons_self
  have hlen := (hl.blocks.wireOk s hmem).payloadLen
  obtain ⟨i, base, hi, hslots, hfill, hbid, hv, hwhere⟩ :=
    h.pushed hl.stream hsplit hid hlen hl.config.depth now
  have hok := (rxOk_closed wh).push s now trivial h.ok
  rw [(h.accepted hl.stream hsplit hid hlen now).2] at hok
  have hbase : elapsedMs base.firstSymTime now < 2 := by
    rcases hwhere with ⟨-, hnow⟩ | ⟨hne, rfl⟩
    · rw [hnow, elapsedMs_self]
      norm_num
    · exact hfast i hi hne hbid
  have hpushed := pushedSlot_early h.ok.shape s now hfill hbase
  rw [hv, h.ok.shape.n] at hpushed
  refine ⟨i, base, hi, sameParams_push s now h.ok.pool.params.slots, hok, ?_, ?_, hfill, hbid,
    hv, hwhere⟩
  · rw [hslots, Function.update_self, hpushed]
  · intro j hj
    rw [hslots, Function.update_of_ne hj]

section Placed

variable {d : Deinterleaver} {now i : Nat} {base : Slot}

theorem Placed.old {seen' : UInt32 → List Symbol} (hp : Placed pre s now pl d seen' i base) :
    (pl.dil.slots i).state = .empty ∨ (pl.dil.slots i).blockId = s.packetId := by
  rcases hp.origin with ⟨he, -⟩ | ⟨-, heq⟩
  · exact .inl he
  · rw [← heq]
    exact .inr hp.blockId

/-- The slot, READY or not. -/
theorem Placed.slot {seen' : UInt32 → List Symbol} (hp : Placed pre s now pl d seen' i base) :
    (d.slots i).state ≠ .empty ∧ (d.slots i).blockId = s.packetId ∧
      (d.slots i).validSymbols = (ofBlock s.packetId pre).length + 1 := by
  rw [hp.self]
  split
  · exact ⟨(fun he => nomatch he), hp.blockId, congrArg (· + 1) hp.count⟩
  · refine ⟨?_, hp.blockId, congrArg (· + 1) hp.count⟩
    show base.state ≠ .empty
    rw [hp.filling]
    exact fun he => nomatch he

/-- No other slot has the block. -/
theorem Placed.other {seen' : UInt32 → List Symbol} (hp : Placed pre s now pl d seen' i base)
    {j : Nat} (hj : j < pl.dil.maxActiveBlocks) (hji : j ≠ i)
    (hne : (pl.dil.slots j).state ≠ .empty) : (pl.dil.slots j).blockId ≠ s.packetId := by
  intro heq
  have hmax : d.maxActiveBlocks = pl.dil.maxActiveBlocks := hp.params.maxActiveBlocks
  have hi := hp.inPool
  obtain ⟨hst, hbid, -⟩ := hp.slot
  have hd := hp.ok.pool.distinct j i (show j < d.maxActiveBlocks by omega)
    (show i < d.maxActiveBlocks by omega)
    (show (d.slots j).state ≠ .empty by rw [hp.same j hji]; exact hne) hst
    (show (d.slots j).blockId = (d.slots i).blockId by rw [hp.same j hji, heq, hbid])
  exact hji hd

theorem Placed.justStored {seen' : UInt32 → List Symbol}
    (hp : Placed pre s now pl d seen' i base) :
    JustStored pl s now i (slotStore base s pl.dil.symbolSize now) := by
  refine ⟨hp.blockId, rfl, ?_⟩
  rcases hp.origin with ⟨-, hnow⟩ | ⟨hne, heq⟩
  · exact .inl hnow
  · have hfirst : base.firstSymTime = (pl.dil.slots i).firstSymTime := by rw [heq]
    exact .inr ⟨hne, by rw [← heq]; exact hp.blockId, hfirst⟩

/-- **The last symbol of a block** makes its slot READY, and the block is drained
    at once. -/
theorem Placed.last (hp : Placed pre s now pl d (seenNext pre s seen) i base)
    (h : InStep pre pl seen) (hl : LinkOk wh pl.cfg accepted sent pss)
    (hsplit : sent = pre ++ s :: post) (hid : s.packetId ≠ 0)
    (hfull : (ofBlock s.packetId pre).length + 1 = pl.cfg.k + pl.cfg.m) :
    NextStep pss pre s now pl (drainReadyBlocks wh (withDil pl d)) (seenNext pre s seen) := by
  have hmax : d.maxActiveBlocks = pl.dil.maxActiveBlocks := hp.params.maxActiveBlocks
  have hi : i < (withDil pl d).dil.maxActiveBlocks := by
    show i < d.maxActiveBlocks
    rw [hmax]
    exact hp.inPool
  obtain ⟨hst, hbid, hvalid⟩ := hp.slot
  have hready : ((withDil pl d).dil.slots i).state = .readyToDecode := by
    show (d.slots i).state = _
    rw [hp.self, if_pos hfull]
  -- every other slot is FILLING: the block is drained alone
  have hlist : readyList (withDil pl d).dil = [i] := by
    refine readyList_single hi hready fun j hj hji hjst => ?_
    have hjst' : (pl.dil.slots j).state = .readyToDecode := by
      rw [← hp.same j hji]
      exact hjst
    have hfill := (h.slots j (hmax ▸ hj) (ready_ne_empty hjst')).1
    rw [hjst'] at hfill
    exact nomatch hfill
  have hdrain := drain_one wh hp.ok.pool hlist
  rw [drainBlock_spec wh hp.ok.pool hi hready] at hdrain
  have hok := (rxOk_closed wh).drain hp.ok hi hready
  rw [drainBlock_spec wh hp.ok.pool hi hready] at hok
  rw [hdrain]
  have hseen : ∀ x ∈ seenNext pre s seen (d.slots i).blockId, x ∈ sent := by
    rw [hbid, seenNext, Function.update_self]
    intro x hx
    rw [hsplit]
    rcases List.mem_append.mp (mem_ofBlock.mp hx).1 with hx' | hx'
    · exact List.mem_append_left _ hx'
    · rw [List.mem_singleton.mp hx']
      exact List.mem_append_right _ List.mem_cons_self
  have hl' : LinkOk wh (withDil pl d).cfg accepted sent pss := hl
  have hframes := full_slot_frames hl' hp.ok hi (ready_ne_empty hready)
    (show (d.slots i).blockId ≠ 0 by rw [hbid]; exact hid) (hvalid.trans hfull) hseen
  generalize drainReason wh (withDil pl d) ((withDil pl d).dil.slots i).block = reason
    at hok ⊢
  -- after the drain the slot is free, and the rest of the pool as before
  have hfin : (finalizeAndResetSlot d i reason).slots
      = Function.update d.slots i (slotReset (d.slots i)) := finalize_slots reason hst
  have hpf := sameParams_finalize d i reason
  have hempty : ((finalizeAndResetSlot d i reason).slots i).state = .empty := by
    rw [hfin, Function.update_self]
    rfl
  have hsame : ∀ j, j ≠ i → (finalizeAndResetSlot d i reason).slots j = pl.dil.slots j := by
    intro j hj
    rw [hfin, Function.update_of_ne hj, hp.same j hj]
  have hlen : (ofBlock s.packetId (pre ++ [s])).length
      = (ofBlock s.packetId pre).length + 1 := by
    rw [ofBlock_snoc, if_pos rfl, List.length_append, List.length_singleton]
  refine ⟨h.write hok rfl (hp.params.trans hpf) hp.inPool hid hsame hp.old
    (fun j hj hji hne => hp.other hj hji hne) (fun hne => absurd hempty hne)
    (fun hlt => by omega), rfl, hpf.maxActiveBlocks.trans hmax, ?_, ?_⟩
  · have hlast : isLast (pl.cfg.k + pl.cfg.m) s = true := by
      rw [isLast, bne_iff_ne.mpr hid, (hl.stream.next hsplit hid).1, beq_iff_eq.mpr hfull]
      rfl
    show (pl.drained ++ [_]).flatMap Drained.frames = _
    rw [List.flatMap_append, List.flatMap_singleton, hframes, framesOfLast,
      List.filter_cons_of_pos hlast, List.filter_nil, List.flatMap_singleton]
    show lanFrames pl ++ framesOf pss (d.slots i).blockId = _
    rw [hbid]
  · intro j hj hne
    by_cases hji : j = i
    · subst hji
      exact absurd hempty hne
    · exact .inl (hsame j hji)

/-- Any other symbol waits for the rest of its block. -/
theorem Placed.more (hp : Placed pre s now pl d (seenNext pre s seen) i base)
    (h : InStep pre pl seen) (hs : Stream pl.cfg sent) (hsplit : sent = pre ++ s :: post)
    (wh : Wirehair) (hid : s.packetId ≠ 0)
    (hpart : ¬ (ofBlock s.packetId pre).length + 1 = pl.cfg.k + pl.cfg.m) :
    NextStep pss pre s now pl (drainReadyBlocks wh (withDil pl d)) (seenNext pre s seen) := by
  obtain ⟨hst, hbid, -⟩ := hp.slot
  have hself := hp.self
  rw [if_neg hpart] at hself
  have hstep : InStep (pre ++ [s]) (withDil pl d) (seenNext pre s seen) := by
    refine h.write hp.ok rfl hp.params hp.inPool hid hp.same hp.old
      (fun j hj hji hne => hp.other hj hji hne) (fun _ => ?_) fun _ => hst
    refine ⟨?_, hbid⟩
    show (d.slots i).state = .filling
    rw [hself]
    exact hp.filling
  rw [drain_none wh hstep.notReady]
  refine ⟨hstep, rfl, hp.params.maxActiveBlocks, ?_, ?_⟩
  · have hlast : isLast (pl.cfg.k + pl.cfg.m) s = false := by
      rw [isLast, (hs.next hsplit hid).1, beq_eq_false_iff_ne.mpr hpart, Bool.and_false]
    rw [framesOfLast, List.filter_cons_of_neg (by rw [hlast]; exact Bool.false_ne_true)]
    exact (List.append_nil _).symm
  · intro j hj hne
    by_cases hji : j = i
    · subst hji
      refine .inr ?_
      show JustStored pl s now j (d.slots j)
      rw [hself]
      exact hp.justStored
    · exact .inl (hp.same j hji)

end Placed

/-- **The next symbol of a block** is stored; the last one makes its slot READY,
    and the block is drained at once. -/
theorem InStep.symbol (h : InStep pre pl seen) (hl : LinkOk wh pl.cfg accepted sent pss)
    (hsplit : sent = pre ++ s :: post) (hid : s.packetId ≠ 0) (now : Nat)
    (hfast : ∀ i, i < pl.dil.maxActiveBlocks → (pl.dil.slots i).state ≠ .empty →
      (pl.dil.slots i).blockId = s.packetId →
      elapsedMs (pl.dil.slots i).firstSymTime now < 2) :
    NextStep pss pre s now pl
      (drainReadyBlocks wh (withDil pl (deinterleaverPushSymbol pl.dil s now).2))
      (seenNext pre s seen) := by
  obtain ⟨i, base, hp⟩ := h.placed hl hsplit hid now hfast
  by_cases hfull : (ofBlock s.packetId pre).length + 1 = pl.cfg.k + pl.cfg.m
  · exact hp.last h hl hsplit hid hfull
  · exact hp.more h hl.stream hsplit wh hid hfull

end Step

/-! ## Calls in time -/

/-- The symbol that a call brings in. -/
def arriving (cfg : Config) (call : RxCall) : Option Symbol :=
  match receivedFrame call with
  | none => none
  | some wire =>
      match parseFrame cfg (wire.take rxWireBufSize) with
      | .symbol s => some s
      | _ => none

/-- The clock does not go back, and the symbols of a block arrive within less
    than 2 ms. -/
structure InTime (cfg : Config) (calls : List RxCall) : Prop where
  ticks : ∀ c ∈ calls, c.tickNow ≤ c.pushNow
  clock : calls.Pairwise fun c c' => c.pushNow ≤ c'.tickNow
  fast : calls.Pairwise fun c c' => ∀ s ∈ arriving cfg c, ∀ s' ∈ arriving cfg c',
    s.packetId = s'.packetId → s.packetId ≠ 0 → elapsedMs c.pushNow c'.pushNow < 2

/-- A slot in use will get its symbols in time. -/
structure Timely (cfg : Config) (calls : List RxCall) (slot : Slot) : Prop where
  ordered : slot.firstSymTime ≤ slot.lastSymTime
  later : ∀ c ∈ calls, slot.lastSymTime ≤ c.tickNow
  fast : ∀ c ∈ calls, ∀ s ∈ arriving cfg c, s.packetId = slot.blockId →
    elapsedMs slot.firstSymTime c.pushNow < 2

section Run

variable {wh : Wirehair} {accepted : List (List UInt8)} {sent pre post : List Symbol}
  {pss : List (List (List UInt8 × Nat))} {pl : RxPipeline}
  {seen : UInt32 → List Symbol} {calls : List RxCall} {call : RxCall}

theorem framesOfLast_append (cfg : Config) (pss : List (List (List UInt8 × Nat)))
    (l l' : List Symbol) :
    framesOfLast cfg pss (l ++ l') = framesOfLast cfg pss l ++ framesOfLast cfg pss l' := by
  rw [framesOfLast, List.filter_append, List.flatMap_append]
  rfl

theorem receivedFrame_some {wire : List UInt8} (h : receivedFrame call = some wire) :
    call.event = .frame wire := by
  rw [receivedFrame] at h
  cases he : call.event with
  | idle =>
      rw [he] at h
      cases h
  | error =>
      rw [he] at h
      cases h
  | frame wire' =>
      rw [he] at h
      rw [Option.some.inj h]

theorem arriving_some {cfg : Config} {wire : List UInt8} {s : Symbol}
    (hc : receivedFrame call = some wire)
    (hp : parseFrame cfg (wire.take rxWireBufSize) = .symbol s) :
    arriving cfg call = some s := by
  rw [arriving, hc]
  simp only [hp]

/-- A symbol that was sent arrives as it is. -/
theorem arriving_sent {cfg : Config} {s : Symbol}
    (hfits : cfg.symbolSize ≤ maxSymbolDataSize) (hs : WireOk cfg s)
    (hc : receivedFrame call = some (serializeSymbol s)) : arriving cfg call = some s :=
  arriving_some hc (parseFrame_serialize hfits hs)

/-- Every symbol still to come has its call. -/
theorem call_of_symbol {cfg : Config} (hfits : cfg.symbolSize ≤ maxSymbolDataSize)
    (hwire : ∀ s ∈ post, WireOk cfg s)
    (hcalls : receivedFrames calls = post.map serializeSymbol) {s : Symbol}
    (hs : s ∈ post) : ∃ c ∈ calls, arriving cfg c = some s := by
  have hin : serializeSymbol s ∈ receivedFrames calls := by
    rw [hcalls]
    exact List.mem_map_of_mem hs
  obtain ⟨c, hc, hframe⟩ := List.mem_filterMap.mp hin
  exact ⟨c, hc, arriving_sent hfits (hwire s hs) hframe⟩

/-- No push comes before the tick of the next call. -/
theorem InTime.reached {cfg : Config} (h : InTime cfg (call :: calls)) {c : RxCall}
    (hc : c ∈ call :: calls) : call.tickNow ≤ c.pushNow := by
  rcases List.mem_cons.mp hc with rfl | hc'
  · exact h.ticks _ List.mem_cons_self
  · have h1 := h.ticks call List.mem_cons_self
    have h2 := (List.pairwise_cons.mp h.clock).1 c hc'
    have h3 := h.ticks c hc
    omega

/-- Calls that come all at once are in time. -/
theorem inTime_atOnce (cfg : Config) {now : Nat}
    (h : ∀ c ∈ calls, c.tickNow = now ∧ c.pushNow = now) : InTime cfg calls := by
  refine ⟨fun c hc => ?_, ?_, ?_⟩
  · rw [(h c hc).1, (h c hc).2]
  · refine List.pairwise_of_forall_mem_list fun c hc c' hc' => ?_
    rw [(h c hc).2, (h c' hc').1]
  · refine List.pairwise_of_forall_mem_list fun c hc c' hc' => ?_
    intro s _ s' _ _ _
    rw [(h c hc).2, (h c' hc').2, elapsedMs_self]
    norm_num

/-- **The tick of a call in time** changes no slot: the block of every slot in
    use has a symbol to come. -/
theorem InStep.tick (h : InStep pre pl seen) (hl : LinkOk wh pl.cfg accepted sent pss)
    (hsplit : sent = pre ++ post)
    (hcalls : receivedFrames (call :: calls) = post.map serializeSymbol)
    (htime : InTime pl.cfg (call :: calls))
    (hslots : ∀ i, i < pl.dil.maxActiveBlocks → (pl.dil.slots i).state ≠ .empty →
      Timely pl.cfg (call :: calls) (pl.dil.slots i)) :
    (ticked pl call).dil.slots = pl.dil.slots ∧ InStep pre (ticked pl call) seen := by
  have hsame : (ticked pl call).dil.slots = pl.dil.slots := by
    refine tick_keeps h.ok.shape call.tickNow fun i hi hst => ?_
    have hne : (pl.dil.slots i).state ≠ .empty := by
      rw [hst]
      exact fun he => nomatch he
    obtain ⟨hv, -, hpos, hlt⟩ := h.count hl.stream hsplit hi hne
    obtain ⟨-, hid, -⟩ := h.slots i hi hne
    have hslot := hslots i hi hne
    -- a symbol of the block is still to come
    have hmore : ofBlock (pl.dil.slots i).blockId post ≠ [] := by
      intro hnil
      rcases hl.stream.inOrder _ hid with hnone | hall
      · rw [hsplit, ofBlock_append] at hnone
        rw [(List.append_eq_nil_iff.mp hnone).1] at hpos
        exact Nat.lt_irrefl 0 hpos
      · have hlen := congrArg List.length hall
        rw [hsplit, ofBlock_append, hnil, List.append_nil, List.length_map,
          List.length_range] at hlen
        omega
    obtain ⟨s, hs⟩ := List.exists_mem_of_ne_nil _ hmore
    obtain ⟨hpost, hsid⟩ := mem_ofBlock.mp hs
    have hwire : ∀ s ∈ post, WireOk pl.cfg s := fun s hs =>
      hl.blocks.wireOk s (by rw [hsplit]; exact List.mem_append_right _ hs)
    obtain ⟨c, hc, harr⟩ := call_of_symbol hl.config.fits hwire hcalls hpost
    have hfast := hslot.fast c hc s harr hsid
    have hle := htime.reached hc
    have hfirst : elapsedMs (pl.dil.slots i).firstSymTime call.tickNow < 2 :=
      wholeMs_two.narrow le_rfl hle hfast
    refine ⟨?_, wholeMs_two.narrow hslot.ordered le_rfl hfirst,
      lt_trans hfirst (by norm_num)⟩
    rw [hv, h.ok.shape.n]
    omega
  have hp := (tick_slots pl.dil (-1) call.tickNow).1
  refine ⟨hsame, (rxOk_closed wh).tick call.tickNow h.ok, ?_, ?_⟩
  · show ∀ i, i < (ticked pl call).dil.maxActiveBlocks → _
    rw [hsame]
    intro i hi
    exact h.slots i (hp.maxActiveBlocks ▸ hi)
  · intro id hid hpos hlt
    obtain ⟨i, hi, hst⟩ := h.hasSlot id hid hpos hlt
    rw [hsame]
    exact ⟨i, hp.maxActiveBlocks.symm ▸ hi, hst⟩

theorem Timely.tail {cfg : Config} {slot : Slot} (h : Timely cfg (call :: calls) slot) :
    Timely cfg calls slot :=
  ⟨h.ordered, fun c hc => h.later c (List.mem_cons_of_mem _ hc),
    fun c hc => h.fast c (List.mem_cons_of_mem _ hc)⟩

/-- A slot that a symbol in time was stored into is still timely. -/
theorem JustStored.timely {cfg : Config} {i : Nat} {slot : Slot}
    (hnew : JustStored pl s call.pushNow i slot) (harr : arriving cfg call = some s)
    (hid : s.packetId ≠ 0) (htime : InTime cfg (call :: calls))
    (hslot : (pl.dil.slots i).state ≠ .empty →
      Timely cfg (call :: calls) (pl.dil.slots i)) : Timely cfg calls slot := by
  refine ⟨?_, ?_, ?_⟩
  · rw [hnew.last]
    rcases hnew.first with hnow | ⟨hold, -, hfirst⟩
    · exact Nat.le_of_eq hnow
    · have h1 := (hslot hold).ordered
      have h2 := (hslot hold).later call List.mem_cons_self
      have h3 := htime.ticks call List.mem_cons_self
      omega
  · rw [hnew.last]
    exact (List.pairwise_cons.mp htime.clock).1
  · intro c hc x hx hxid
    rcases hnew.first with hnow | ⟨hold, holdid, hfirst⟩
    · rw [hnow]
      exact (List.pairwise_cons.mp htime.fast).1 c hc s harr x hx
        (hnew.blockId.symm.trans hxid.symm) hid
    · rw [hfirst]
      exact (hslot hold).fast c (List.mem_cons_of_mem _ hc) x hx
        (hxid.trans (hnew.blockId.trans holdid.symm))

/-- The slots after a symbol that came in time are still timely. -/
theorem NextStep.timely {pl' : RxPipeline} {seen' : UInt32 → List Symbol}
    (hn : NextStep pss pre s call.pushNow pl pl' seen')
    (harr : arriving pl.cfg call = some s) (hid : s.packetId ≠ 0)
    (htime : InTime pl.cfg (call :: calls))
    (hslots : ∀ i, i < pl.dil.maxActiveBlocks → (pl.dil.slots i).state ≠ .empty →
      Timely pl.cfg (call :: calls) (pl.dil.slots i)) :
    ∀ i, i < pl'.dil.maxActiveBlocks → (pl'.dil.slots i).state ≠ .empty →
      Timely pl'.cfg calls (pl'.dil.slots i) := by
  rw [hn.size, hn.config]
  intro i hi hne
  rcases hn.slots i hi hne with hsame | hnew
  · rw [hsame] at hne ⊢
    exact (hslots i hi hne).tail
  · exact hnew.timely harr hid htime (hslots i hi)

theorem InTime.tail {cfg : Config} (h : InTime cfg (call :: calls)) : InTime cfg calls :=
  ⟨fun c hc => h.ticks c (List.mem_cons_of_mem _ hc), (List.pairwise_cons.mp h.clock).2,
    (List.pairwise_cons.mp h.fast).2⟩

/-- **One symbol**, of a block or padding, arrives. -/
theorem InStep.arrival (h : InStep pre pl seen) (hl : LinkOk wh pl.cfg accepted sent pss)
    (hsplit : sent = pre ++ s :: post) (harr : arriving pl.cfg call = some s)
    (htime : InTime pl.cfg (call :: calls))
    (hslots : ∀ i, i < pl.dil.maxActiveBlocks → (pl.dil.slots i).state ≠ .empty →
      Timely pl.cfg (call :: calls) (pl.dil.slots i)) :
    let pl' := drainReadyBlocks wh
      (withDil pl (deinterleaverPushSymbol pl.dil s call.pushNow).2)
    ∃ seen', InStep (pre ++ [s]) pl' seen' ∧ pl'.cfg = pl.cfg ∧
      lanFrames pl' = lanFrames pl ++ framesOfLast pl.cfg pss [s] ∧
      ∀ i, i < pl'.dil.maxActiveBlocks → (pl'.dil.slots i).state ≠ .empty →
        Timely pl'.cfg calls (pl'.dil.slots i) := by
  intro pl'
  by_cases hid : s.packetId = 0
  · have hmem : s ∈ sent := by
      rw [hsplit]
      exact List.mem_append_right _ List.mem_cons_self
    have hlen := hl.blocks.padding hl.config hl.codec.toEncodes hmem hid
    obtain ⟨hstep, hcfg, hdrained, hkept, hsize⟩ := h.padding wh hid hlen call.pushNow
    refine ⟨seen, hstep, hcfg, ?_, ?_⟩
    · have hlast : framesOfLast pl.cfg pss [s] = [] := by
        rw [framesOfLast, List.filter_cons_of_neg]
        · rfl
        · rw [isLast, hid]
          exact Bool.false_ne_true
      rw [hlast, List.append_nil, lanFrames, hdrained]
      rfl
    · rw [hsize, hkept, hcfg]
      exact fun i hi hne => (hslots i hi hne).tail
  · have hn := h.symbol hl hsplit hid call.pushNow fun i hi hne hsid =>
      (hslots i hi hne).fast call List.mem_cons_self s harr hsid.symm
    exact ⟨_, hn.inStep, hn.config, hn.frames, hn.timely harr hid htime hslots⟩

/-- **A run without losses** sends the frames of the blocks, in order. -/
theorem lossless_run (hl : LinkOk wh pl.cfg accepted sent pss) (h : InStep pre pl seen)
    (hsplit : sent = pre ++ post)
    (hcalls : receivedFrames calls = post.map serializeSymbol)
    (htime : InTime pl.cfg calls)
    (hslots : ∀ i, i < pl.dil.maxActiveBlocks → (pl.dil.slots i).state ≠ .empty →
      Timely pl.cfg calls (pl.dil.slots i)) :
    lanFrames (rxRun wh calls pl) = lanFrames pl ++ framesOfLast pl.cfg pss post := by
  induction calls generalizing pl pre post seen with
  | nil =>
      have hnil : post = [] := List.map_eq_nil_iff.mp hcalls.symm
      rw [hnil]
      exact (List.append_nil _).symm
  | cons call calls ih =>
      obtain ⟨hsame, ht⟩ := h.tick hl hsplit hcalls htime hslots
      have hmax : (ticked pl call).dil.maxActiveBlocks = pl.dil.maxActiveBlocks :=
        (tick_slots pl.dil (-1) call.tickNow).1.maxActiveBlocks
      have hslots1 : ∀ i, i < (ticked pl call).dil.maxActiveBlocks →
          ((ticked pl call).dil.slots i).state ≠ .empty →
          Timely pl.cfg (call :: calls) ((ticked pl call).dil.slots i) := by
        rw [hmax, hsame]
        exact hslots
      have hrun : rxRun wh (call :: calls) pl
          = rxRun wh calls (rxPipelineRunOnce wh pl call) := rfl
      rw [hrun]
      cases hf : receivedFrame call with
      | none =>
          -- a poll, or an error: nothing arrives, and nothing is READY
          have hcalls' : receivedFrames calls = post.map serializeSymbol := by
            rw [← hcalls]
            exact (List.filterMap_cons_none hf).symm
          have hone : rxPipelineRunOnce wh pl call = ticked pl call := by
            cases he : call.event with
            | idle => rw [runOnce_idle he, drain_none wh ht.notReady]
            | error => exact runOnce_error he
            | frame wire =>
                rw [receivedFrame, he] at hf
                cases hf
          rw [hone]
          exact ih hl ht hsplit hcalls' htime.tail fun i hi hne => (hslots1 i hi hne).tail
      | some wire =>
          rw [receivedFrames, List.filterMap_cons_some hf] at hcalls
          cases post with
          | nil => cases hcalls
          | cons s post =>
              obtain ⟨hwire, hcalls'⟩ := List.cons.inj hcalls
              have hmem : s ∈ sent := by
                rw [hsplit]
                exact List.mem_append_right _ List.mem_cons_self
              have hparse : parseFrame pl.cfg (wire.take rxWireBufSize) = .symbol s := by
                rw [hwire]
                exact parseFrame_serialize hl.config.fits (hl.blocks.wireOk s hmem)
              rw [runOnce_symbol (receivedFrame_some hf) hparse]
              have hsplit' : sent = (pre ++ [s]) ++ post := by
                rw [hsplit, List.append_assoc]
                rfl
              have hcons : framesOfLast pl.cfg pss (s :: post)
                  = framesOfLast pl.cfg pss [s] ++ framesOfLast pl.cfg pss post :=
                framesOfLast_append pl.cfg pss [s] post
              rw [hcons, ← List.append_assoc]
              have harr : arriving pl.cfg call = some s := arriving_some hf hparse
              obtain ⟨seen', hstep, hcfg, hframes, hnext⟩ :=
                ht.arrival hl hsplit harr htime hslots1
              generalize drainReadyBlocks wh (withDil (ticked pl call)
                (deinterleaverPushSymbol (ticked pl call).dil s call.pushNow).2) = pl'
                at hstep hcfg hframes hnext ⊢
              have hcfg' : pl'.cfg = pl.cfg := hcfg
              rw [← hcfg'] at hl htime
              have hfin := ih hl hstep hsplit' hcalls' htime.tail hnext
              rw [hcfg', hframes] at hfin
              exact hfin

end Run

/-! ## The result -/

/-- The frames of the blocks, in the order of the blocks, are all the frames. -/
theorem frames_in_order {pss : List (List (List UInt8 × Nat))} (hlt : pss.length < 2 ^ 32) :
    ((List.range pss.length).map blockIdOf).flatMap (framesOf pss)
      = pss.flatten.map Prod.fst := by
  have hids : (List.range pss.length).map (fun j => framesOf pss (blockIdOf j))
      = pss.map (List.map Prod.fst) := by
    apply List.ext_getElem
    · rw [List.length_map, List.length_range, List.length_map]
    · intro j h1 h2
      rw [List.length_map] at h2
      rw [List.getElem_map, List.getElem_map, List.getElem_range, framesOf,
        blockIdOf_toNat (by omega), Nat.add_sub_cancel, List.getD_eq_getElem?_getD,
        List.getElem?_eq_getElem h2]
      rfl
  rw [List.flatMap_map, List.flatMap_def, hids, List.map_flatten]

/-- A pool without blocks is in step with a stream that has not begun: nothing is
    asked of what the slots hold. -/
theorem inStep_of_empty {pl : RxPipeline} {seen : UInt32 → List Symbol} (h : RxOk pl seen)
    (hempty : ∀ i, i < pl.dil.maxActiveBlocks → (pl.dil.slots i).state = .empty) :
    InStep [] pl fun _ => [] := by
  refine ⟨⟨h.shape, h.pool.params, h.pool.distinct, ?_⟩, ?_, ?_⟩
  · intro i hi hne
    exact absurd (hempty i hi) hne
  · intro i hi hne
    exact absurd (hempty i hi) hne
  · intro id _ hpos
    exact absurd hpos (Nat.lt_irrefl 0)

/-- What a flushed transmitter has sent, as the receiver needs to know it. -/
theorem flushed_linkOk {wh : Wirehair} {tx : TxPipeline} (hi : RunInv wh tx)
    (hwh : Systematic wh tx.cfg.k (tx.cfg.k + tx.cfg.m) tx.cfg.symbolSize)
    (hblocks : tx.blocksBuilt < 2 ^ 32) (hflushed : Flushed tx)
    (hfit : ∀ pkt ∈ tx.accepted,
      0 < pkt.length ∧ fragmentCount pkt.length tx.cfg.symbolSize ≤ tx.cfg.k) :
    ∃ pss, LinkOk wh tx.cfg tx.accepted tx.sent pss ∧
      pss.flatten.map Prod.fst = tx.accepted ∧
      framesOfLast tx.cfg pss tx.sent = tx.accepted := by
  obtain ⟨h, hr⟩ := hi.hist
  have hsent : SentBlocks wh tx.cfg tx.accepted tx.sent h.blocks := sentBlocks_run hi hr hblocks
  obtain ⟨pss, hpss, hpieces, hlast⟩ := flushed_run hi hr hblocks hflushed hfit
  rw [hpieces] at hsent
  have hlengths : ∀ ps ∈ pss, ∀ p ∈ ps, 0 < p.1.length ∧ p.1.length ≤ reassemBufSize := by
    intro ps hps p hp
    have hacc : p.1 ∈ tx.accepted := by
      rw [← hpss]
      exact List.mem_map_of_mem (List.mem_flatten.mpr ⟨ps, hps, hp⟩)
    exact ⟨(hfit p.1 hacc).1, hi.lengths p.1 hacc⟩
  refine ⟨pss, ⟨hi.cfg, hwh, stream_run hi hr hblocks, hsent, hlengths⟩, hpss, ?_⟩
  have hall : framesOfLast tx.cfg pss tx.sent
      = ((tx.sent.filter (isLast (tx.cfg.k + tx.cfg.m))).map Symbol.packetId).flatMap
          (framesOf pss) := (List.flatMap_map ..).symm
  have hbound := hsent.bound
  rw [List.length_map] at hbound
  rw [hall, hlast, frames_in_order hbound]
  exact hpss

/-- **Lossless delivery.**  When every frame fits in one block, everything that
    was sent arrives, in order and in time, and the transmitter has flushed its
    block and its window, the receiver has sent exactly the accepted frames, in
    order. -/
theorem lossless_delivery (wh : Wirehair) (clk : Nat → Nat) (mem : Nat → Nat → Symbol)
    (lanMac : List UInt8) (rxMem : Buffer) (cfg : Config) (tx0 : TxPipeline)
    (rx0 : RxPipeline) (htx : txPipelineCreate mem lanMac cfg = some tx0)
    (hrx : rxPipelineCreate rxMem cfg = some rx0)
    (hss : cfg.symbolSize ≤ maxSymbolDataSize)
    (hwh : Systematic wh cfg.k (cfg.k + cfg.m) cfg.symbolSize)
    (evs : List TxEvent) (calls : List RxCall) :
    let tx := (txRun wh clk evs tx0).2
    tx.blocksBuilt < 2 ^ 32 → Flushed tx →
    (∀ pkt ∈ tx.accepted,
      0 < pkt.length ∧ fragmentCount pkt.length cfg.symbolSize ≤ cfg.k) →
    receivedFrames calls = wireFrames tx → InTime cfg calls →
    lanFrames (rxRun wh calls rx0) = tx.accepted := by
  intro tx hblocks hflushed hfit hcalls htime
  have hrepair := (rxCreate_cfgOk hrx hss).repair
  obtain ⟨hinit, hcfg0, -⟩ := runInv_create htx (by omega) hss hwh.toEncodes
  obtain ⟨-, hi, htxcfg⟩ := runInv_run clk evs hinit
  obtain ⟨hok, hrxcfg, hdrained, -, -, hslots⟩ := rxOk_create hrx
  have hconf : tx.cfg = cfg := htxcfg.trans hcfg0
  rw [← hconf] at hwh hfit
  obtain ⟨pss, hl, -, hframes⟩ := flushed_linkOk hi hwh hblocks hflushed hfit
  rw [show (txRun wh clk evs tx0).2.cfg = rx0.cfg from hconf.trans hrxcfg.symm] at hl hframes
  rw [← hrxcfg] at htime
  have hempty : ∀ i, (rx0.dil.slots i).state = .empty := fun i =>
    congrArg Slot.state (hslots i)
  rw [lossless_run hl (inStep_of_empty hok fun i _ => hempty i) (List.nil_append _).symm hcalls
    htime fun i _ hne => absurd (hempty i) hne, lanFrames, hdrained]
  exact hframes

/-- A frame of one fragment and one of two, which do not fit in one block, on a
    link of two rows; the clock of the sender goes on 3 ms at each reading. -/
def flushedSender : TxPipeline :=
  (txRun parity (fun t => t * 3000000) [.frame [1, 2, 3] false, .frame [4, 5, 6, 7, 8] false,
    .idle, .idle, .idle] smallPipeline).2

/-- Everything arrives at once. -/
def promptCalls : List RxCall := (wireFrames flushedSender).map fun wire => ⟨.frame wire, 0, 0⟩

/-- Both frames come out, past the padding of two blocks and two windows. -/
theorem lossless_delivery_smallLink :
    lanFrames (rxRun parity promptCalls
        ((rxPipelineCreate (fun _ => 0) smallLink).get rfl))
      = flushedSender.accepted := by
  have hzero : ∀ c ∈ promptCalls, c.tickNow = 0 ∧ c.pushNow = 0 := by
    intro c hc
    obtain ⟨wire, -, rfl⟩ := List.mem_map.mp hc
    exact ⟨rfl, rfl⟩
  refine lossless_delivery parity (fun t => t * 3000000) (fun _ _ => symbolInit) []
    (fun _ => 0) smallLink smallPipeline _ (Option.some_get _).symm (Option.some_get _).symm
    (by decide) ((parity_recovers 4).systematic (by decide)) _ promptCalls
    (by decide +kernel) ⟨by decide +kernel, by decide +kernel⟩ (by decide +kernel) ?_
    (inTime_atOnce smallLink hzero)
  rw [receivedFrames, promptCalls, List.filterMap_map]
  exact List.filterMap_some

end FsoLink
