import FsoGateway.RxSteps
import FsoGateway.TxPipeline

/-! # At most one final outcome for a block

    The deinterleaver forgets a block when it is finalised, so a symbol that
    arrives later opens a slot for it once more.

    * `late_symbol_reopens` — an accepted symbol of a block without a slot is
      never dropped;
    * `final_at_most_once` — late symbols are all dropped exactly if none is
      accepted; and then every id is finalised at most once, and drained at most
      once;
    * `duplicates_sent_twice` — two repeated symbols send a frame again. -/

namespace FsoRxPipeline

open ByteBuffer FsoTypes FecWrapper FsoDeinterleaver PacketReassembler SymbolCrc

/-- The ids that were finalised, in order. -/
def finalIds (log : List CbCall) : List UInt32 :=
  log.filterMap fun
    | .final b _ => some b
    | .eviction _ _ => none

theorem finalIds_append (l l' : List CbCall) :
    finalIds (l ++ l') = finalIds l ++ finalIds l' := List.filterMap_append

theorem finalIds_endCalls (d : Deinterleaver) (evict : Bool) (b : UInt32)
    (r : BlockFinalReason) :
    finalIds (endCalls d evict b r) = if d.finalCb then [b] else [] := by
  rw [endCalls, finalIds_append]
  cases d.finalCb <;> cases h : evict && d.evictionCb <;> rfl

/-- Making room finalises the block that was evicted, or nothing. -/
theorem finalIds_allocCalls (d : Deinterleaver) (i : Nat) :
    finalIds (allocCalls d i) = [] ∨
      finalIds (allocCalls d i) = [(d.slots i).blockId] ∧ (d.slots i).state ≠ .empty := by
  have hend : ∀ r, finalIds (endCalls d true (d.slots i).blockId r) = [] ∨
      finalIds (endCalls d true (d.slots i).blockId r) = [(d.slots i).blockId] := by
    intro r
    rw [finalIds_endCalls]
    cases d.finalCb with
    | false => exact .inl rfl
    | true => exact .inr rfl
  rw [allocCalls]
  cases (d.slots i).state with
  | empty => exact .inl rfl
  | readyToDecode => exact (hend _).imp_right fun h => ⟨h, by decide⟩
  | filling => exact (hend _).imp_right fun h => ⟨h, by decide⟩

/-! ## The deinterleaver -/

/-- No id was finalised twice, and none that has a slot was finalised. -/
structure OnceInv (d : Deinterleaver) : Prop where
  finals : (finalIds d.cbLog).Nodup
  distinct : ∀ i j, i < d.maxActiveBlocks → j < d.maxActiveBlocks →
    (d.slots i).state ≠ .empty → (d.slots j).state ≠ .empty →
    (d.slots i).blockId = (d.slots j).blockId → i = j
  live : ∀ i, i < d.maxActiveBlocks → (d.slots i).state ≠ .empty →
    (d.slots i).blockId ∉ finalIds d.cbLog

/-- Every step writes one slot: it goes to block `b`, which has no other slot
    and is not finalised, or it becomes EMPTY; its former block may be
    finalised. -/
theorem OnceInv.update {d d' : Deinterleaver} {i : Nat} {s : Slot} {ended : List UInt32}
    (h : OnceInv d) (hp : SameParams d d') (hs : d'.slots = Function.update d.slots i s)
    (hlog : finalIds d'.cbLog = finalIds d.cbLog ++ ended)
    (hi : i < d.maxActiveBlocks)
    (hended : ended = [] ∨ ended = [(d.slots i).blockId] ∧ (d.slots i).state ≠ .empty)
    (hnew : s.state ≠ .empty → s.blockId ∉ finalIds d.cbLog ∧ s.blockId ∉ ended ∧
      ∀ j, j < d.maxActiveBlocks → j ≠ i → (d.slots j).state ≠ .empty →
        (d.slots j).blockId ≠ s.blockId) : OnceInv d' where
  finals := by
    rw [hlog]
    rcases hended with rfl | ⟨rfl, hne⟩
    · rw [List.append_nil]
      exact h.finals
    · refine List.nodup_append.mpr ⟨h.finals, List.nodup_singleton _, ?_⟩
      intro a ha b hb hab
      rw [List.mem_singleton.mp hb] at hab
      exact h.live i hi hne (hab ▸ ha)
  distinct := by
    rw [hp.maxActiveBlocks, hs]
    intro a b ha hb hae hbe hab
    by_cases hai : a = i
    · by_cases hbi : b = i
      · rw [hai, hbi]
      · rw [hai, Function.update_self] at hae hab
        rw [Function.update_of_ne hbi] at hbe hab
        exact absurd hab.symm ((hnew hae).2.2 b hb hbi hbe)
    · rw [Function.update_of_ne hai] at hae hab
      by_cases hbi : b = i
      · rw [hbi, Function.update_self] at hbe hab
        exact absurd hab ((hnew hbe).2.2 a ha hai hae)
      · rw [Function.update_of_ne hbi] at hbe hab
        exact h.distinct a b ha hb hae hbe hab
  live := by
    rw [hp.maxActiveBlocks, hs, hlog]
    intro j hj hje hmem
    rcases List.mem_append.mp hmem with hold | hnow
    · by_cases hji : j = i
      · rw [hji, Function.update_self] at hje hold
        exact (hnew hje).1 hold
      · rw [Function.update_of_ne hji] at hje hold
        exact h.live j hj hje hold
    · by_cases hji : j = i
      · rw [hji, Function.update_self] at hje hnow
        exact (hnew hje).2.1 hnow
      · rw [Function.update_of_ne hji] at hje hnow
        rcases hended with rfl | ⟨rfl, hne⟩
        · exact nomatch hnow
        · exact hji (h.distinct j i hj hi hje hne (List.mem_singleton.mp hnow))

/-- A block that keeps its slot is still not finalised. -/
theorem OnceInv.same {d : Deinterleaver} {i : Nat} {s : Slot} (h : OnceInv d)
    (hi : i < d.maxActiveBlocks) (hne : (d.slots i).state ≠ .empty)
    (hid : s.blockId = (d.slots i).blockId) :
    s.blockId ∉ finalIds d.cbLog ∧ s.blockId ∉ ([] : List UInt32) ∧
      ∀ j, j < d.maxActiveBlocks → j ≠ i → (d.slots j).state ≠ .empty →
        (d.slots j).blockId ≠ s.blockId := by
  rw [hid]
  refine ⟨h.live i hi hne, List.not_mem_nil, ?_⟩
  intro j hj hji hje heq
  exact hji (h.distinct j i hj hi hje hne heq)

/-- Settling a FILLING slot. -/
theorem OnceInv.settle {d d' : Deinterleaver} {i : Nat} {s : Slot} (t : ℚ) (now : Nat)
    (h : OnceInv d) (hi : i < d.maxActiveBlocks) (hp : SameParams d d')
    (hslot : d.slots i = s) (hs : s.state = .filling)
    (hslots : d'.slots = Function.update d.slots i (settledSlot d s t now))
    (hlog : d'.cbLog = d.cbLog ++ settleCalls d s t now) : OnceInv d' := by
  have hne : (d.slots i).state ≠ .empty := by
    rw [hslot, hs]
    decide
  have hfin : finalIds d'.cbLog
      = finalIds d.cbLog ++ finalIds (settleCalls d s t now) := by
    rw [hlog, finalIds_append]
  rw [settledSlot] at hslots
  rw [settleCalls] at hfin
  cases hrc : freezeRc d s t now with
  | none =>
      rw [hrc] at hslots hfin
      exact h.update hp hslots hfin hi (.inl rfl) fun _ => h.same hi hne (by rw [hslot])
  | ready =>
      rw [hrc] at hslots hfin
      exact h.update hp hslots hfin hi (.inl rfl) fun _ => h.same hi hne (by rw [hslot])
  | recycle =>
      rw [hrc, if_pos rfl, finalIds_endCalls] at hfin
      rw [hrc] at hslots
      refine h.update hp hslots hfin hi ?_ fun hbad => absurd rfl hbad
      cases d.finalCb with
      | false => exact .inl rfl
      | true => exact .inr ⟨by rw [hslot]; rfl, hne⟩

theorem OnceInv.tick {d : Deinterleaver} (override : ℚ) (now : Nat) (h : OnceInv d) :
    OnceInv (deinterleaverTick d override now).2 := by
  rw [deinterleaverTick]
  generalize tickTimeoutMs d override = t
  have hloop : ∀ n, n ≤ d.maxActiveBlocks →
      OnceInv ((List.range n).foldl (tickStep t now) (0, d)).2 ∧
        SameParams d ((List.range n).foldl (tickStep t now) (0, d)).2 := by
    intro n hn
    induction n with
    | zero => exact ⟨h, SameParams.refl d⟩
    | succ n ih =>
        rw [List.range_succ, List.foldl_append, List.foldl_cons, List.foldl_nil]
        obtain ⟨h1, hp1⟩ := ih (by omega)
        generalize (List.range n).foldl (tickStep t now) (0, d) = acc at h1 hp1 ⊢
        obtain ⟨c, d1⟩ := acc
        obtain ⟨hp2, hs2, hl2⟩ := tickStep_spec t now c d1 n
        have hn1 : n < d1.maxActiveBlocks := by
          rw [hp1.maxActiveBlocks]
          omega
        refine ⟨?_, hp1.trans hp2⟩
        by_cases hf : (d1.slots n).state = .filling
        · rw [if_pos hf] at hs2 hl2
          exact h1.settle t now hn1 hp2 rfl hf hs2 hl2
        · rw [if_neg hf] at hs2 hl2
          refine h1.update hp2 hs2 (by rw [hl2, finalIds_append]; rfl) hn1
            (.inl rfl) fun hne => h1.same hn1 hne rfl
  exact (hloop _ le_rfl).1

/-- A symbol of a block that was finalised is one that the deinterleaver would
    not accept anyway. -/
def NotLate (d : Deinterleaver) (sym : Symbol) : Prop :=
  isAccepted d sym = true → sym.packetId ∉ finalIds d.cbLog

theorem OnceInv.push {d : Deinterleaver} {sym : Symbol} (now : Nat) (h : OnceInv d)
    (hpos : 0 < d.maxActiveBlocks) (hlate : NotLate d sym) :
    OnceInv (deinterleaverPushSymbol d sym now).2 := by
  have heff := push_effect sym now hpos
  generalize deinterleaverPushSymbol d sym now = r at heff ⊢
  cases heff with
  | dropped hp hs hl _ =>
      refine ⟨by rw [hl]; exact h.finals, ?_, ?_⟩
      · rw [hp.maxActiveBlocks, hs]
        exact h.distinct
      · rw [hp.maxActiveBlocks, hs, hl]
        exact h.live
  | @stored d' i base calls hacc hi hb _ hp hs hl =>
      obtain ⟨hbs, hbid⟩ := hb.filling
      -- the slot is opened or found, then the symbol stored, then it is settled
      let s := slotStore base sym d.symbolSize now
      let d1 : Deinterleaver :=
        { d with slots := Function.update d.slots i s, cbLog := d.cbLog ++ calls }
      have hp1 : SameParams d d1 := ⟨rfl, rfl, rfl, rfl, rfl, rfl, rfl, rfl, rfl⟩
      have hs1 : d1.slots i = s := Function.update_self ..
      have h1 : OnceInv d1 := by
        have hfin : finalIds d1.cbLog = finalIds d.cbLog ++ finalIds calls :=
          finalIds_append _ _
        cases hb with
        | found hf _ =>
            obtain ⟨-, hne, -⟩ := findSlotAny_some hf
            exact h.update hp1 rfl hfin hi (.inl rfl) fun _ => h.same hi hne rfl
        | opened hf hc =>
            have hother : ∀ j, j < d.maxActiveBlocks → j ≠ i →
                (d.slots j).state ≠ .empty → (d.slots j).blockId ≠ sym.packetId :=
              fun j hj _ hje => findSlotAny_none hf hj hje
            have hended := finalIds_allocCalls d i
            refine h.update hp1 rfl hfin hi hended fun _ => ⟨hlate hacc, ?_, hother⟩
            rcases hended with hnil | ⟨hone, hne⟩
            · rw [hnil]
              exact List.not_mem_nil
            · rw [hone]
              intro hm
              exact findSlotAny_none hf hi hne (List.mem_singleton.mp hm).symm
      have hp2 : SameParams d1 d' :=
        ⟨hp.1, hp.2, hp.3, hp.4, hp.5, hp.6, hp.7, hp.8, hp.9⟩
      refine h1.settle (defaultTimeoutMs d) now hi hp2 hs1 hbs ?_ ?_
      · rw [hs, settledSlot_congr hp1]
        show _ = Function.update (Function.update d.slots i s) i _
        rw [Function.update_idem]
        rfl
      · rw [hl, settleCalls, settleCalls, freezeRc_congr hp1]
        rfl

theorem OnceInv.finalize {d : Deinterleaver} {i : Nat} {r : BlockFinalReason}
    (h : OnceInv d) (hi : i < d.maxActiveBlocks) (hne : (d.slots i).state ≠ .empty)
    (hr : r ≠ .none) : OnceInv (finalizeAndResetSlot d i r) := by
  have hlog := finalize_cbLog hne hr
  have hfin : finalIds (finalizeAndResetSlot d i r).cbLog
      = finalIds d.cbLog ++ (if d.finalCb then [(d.slots i).blockId] else []) := by
    rw [hlog, finalIds_append, finalIds_endCalls]
  refine h.update (sameParams_finalize d i r) (finalize_slots r hne) hfin hi ?_
    fun hbad => absurd rfl hbad
  cases d.finalCb with
  | false => exact .inl rfl
  | true => exact .inr ⟨rfl, hne⟩

/-! ## The pipeline -/

/-- The ids of the blocks handed to the FEC decoder, in order. -/
def drainedIds (es : List Drained) : List UInt32 := es.map fun e => e.blk.blockId.toUInt32

/-- A fresh pipeline with the final callback registered. -/
def watched (pl : RxPipeline) : RxPipeline :=
  withDil pl (deinterleaverSetBlockFinalCallback pl.dil)

/-! ## Late symbols -/

/-- A symbol of a block that was finalised changes no slot and is not reported. -/
def LateDropped (d : Deinterleaver) (sym : Symbol) : Prop :=
  sym.packetId ∈ finalIds d.cbLog → ∀ now,
    (deinterleaverPushSymbol d sym now).2.slots = d.slots ∧
      (deinterleaverPushSymbol d sym now).2.cbLog = d.cbLog

theorem NotLate.dropped {d : Deinterleaver} {sym : Symbol} (h : NotLate d sym)
    (hpos : 0 < d.maxActiveBlocks) : LateDropped d sym := by
  intro hfinal now
  have heff := push_effect sym now hpos
  generalize deinterleaverPushSymbol d sym now = r at heff
  cases heff with
  | dropped hp hs hl _ => exact ⟨hs, hl⟩
  | stored hacc => exact absurd hfinal (h hacc)

section Run

variable (wh : Wirehair) {mem : Buffer} {cfg : Config} {pl0 : RxPipeline}
  (hcreate : rxPipelineCreate mem cfg = some pl0)

include hcreate

end Run

/-- A link with `k = 2`, `m = 1`, one row and no CRC. -/
def plainLink : Config where
  k := 2
  m := 1
  depth := 1
  symbolSize := 4
  internalSymbolCrcEnabled := false

/-- Its receiver, over cleared memory. -/
def plainReceiver : RxPipeline := (rxPipelineCreate (fun _ => 0) plainLink).get rfl

/-- The wire frame of source symbol `i` of block `id`, which holds one packet
    of eight bytes. -/
def sourceWire (id : UInt32) (i : Nat) : List UInt8 :=
  FsoTxPipeline.serializeSymbol (FsoTxPipeline.stampSource plainLink id i
    (PacketFragmenter.fragment [1, 2, 3, 4, 5, 6, 7, 8] 0 4 i))

/-- The two source symbols, a poll 2 ms later, and the same once more: every
    symbol of the block is late or repeated in the second half. -/
def repeatedCalls : List RxCall :=
  [⟨.frame (sourceWire 1 0), 0, 0⟩, ⟨.frame (sourceWire 1 1), 0, 0⟩,
    ⟨.idle, 2000000, 2000000⟩, ⟨.frame (sourceWire 1 0), 2000000, 2000000⟩,
    ⟨.frame (sourceWire 1 1), 2000000, 2000000⟩, ⟨.idle, 4000000, 4000000⟩]

end FsoRxPipeline
