import FsoGateway.Deinterleaver
import FsoGateway.Lib.Scan

/-! # What one deinterleaver operation does to the pool

    Everything proved about the receiver rests on the four lemmas of this
    file that say which slot an operation writes and with what:

    * `allocSlot_spec` — a pool never runs out: a slot is always found, it is
      EMPTY if there is an EMPTY one, else an oldest READY one, else an
      oldest FILLING one, and it is opened clean;
    * `push_effect` — a push leaves the pool alone or stores into one slot;
    * `tick_slots` — a tick settles every FILLING slot and no other;
    * `markResult_effect`, `getReady_spec`. -/

namespace FsoDeinterleaver

open ByteBuffer FsoTypes

/-! ## Reading a written pool -/

@[simp] theorem setSlot_slots (d : Deinterleaver) (i : Nat) (s : Slot) :
    (setSlot d i s).slots = Function.update d.slots i s := rfl

@[simp] theorem setSlot_self (d : Deinterleaver) (i : Nat) (s : Slot) :
    (setSlot d i s).slots i = s := Function.update_self ..

@[simp] theorem setSlot_eta (d : Deinterleaver) (i : Nat) :
    setSlot d i (d.slots i) = d := by
  simp [setSlot]

/-- The parameters fixed by `deinterleaver_create` and by the registration of
    the callbacks. -/
structure SameParams (d d' : Deinterleaver) : Prop where
  maxActiveBlocks : d'.maxActiveBlocks = d.maxActiveBlocks
  symbolsPerBlock : d'.symbolsPerBlock = d.symbolsPerBlock
  k : d'.k = d.k
  m : d'.m = d.m
  symbolSize : d'.symbolSize = d.symbolSize
  stabilizationMs : d'.stabilizationMs = d.stabilizationMs
  blockMaxAgeMs : d'.blockMaxAgeMs = d.blockMaxAgeMs
  finalCb : d'.finalCb = d.finalCb
  evictionCb : d'.evictionCb = d.evictionCb

theorem SameParams.refl (d : Deinterleaver) : SameParams d d :=
  ⟨rfl, rfl, rfl, rfl, rfl, rfl, rfl, rfl, rfl⟩

theorem SameParams.trans {a b c : Deinterleaver} (h1 : SameParams a b)
    (h2 : SameParams b c) : SameParams a c :=
  ⟨h2.1.trans h1.1, h2.2.trans h1.2, h2.3.trans h1.3, h2.4.trans h1.4,
    h2.5.trans h1.5, h2.6.trans h1.6, h2.7.trans h1.7, h2.8.trans h1.8,
    h2.9.trans h1.9⟩

theorem sameParams_setSlot (d : Deinterleaver) (i : Nat) (s : Slot) :
    SameParams d (setSlot d i s) :=
  ⟨rfl, rfl, rfl, rfl, rfl, rfl, rfl, rfl, rfl⟩

theorem sameParams_emitFinal (d : Deinterleaver) (b : UInt32)
    (r : BlockFinalReason) : SameParams d (emitBlockFinalReason d b r) := by
  rw [emitBlockFinalReason]
  split
  · exact SameParams.refl d
  · split
    · exact ⟨rfl, rfl, rfl, rfl, rfl, rfl, rfl, rfl, rfl⟩
    · exact SameParams.refl d

@[simp] theorem emitFinal_slots (d : Deinterleaver) (b : UInt32)
    (r : BlockFinalReason) : (emitBlockFinalReason d b r).slots = d.slots := by
  rw [emitBlockFinalReason]
  split
  · rfl
  · split <;> rfl

@[simp] theorem emitFinal_stats (d : Deinterleaver) (b : UInt32)
    (r : BlockFinalReason) : (emitBlockFinalReason d b r).stats = d.stats := by
  rw [emitBlockFinalReason]
  split
  · rfl
  · split <;> rfl

theorem sameParams_emitEviction (d : Deinterleaver) (b : UInt32)
    (r : BlockFinalReason) : SameParams d (emitEviction d b r) := by
  rw [emitEviction]
  split
  · exact ⟨rfl, rfl, rfl, rfl, rfl, rfl, rfl, rfl, rfl⟩
  · exact SameParams.refl d

@[simp] theorem emitEviction_slots (d : Deinterleaver) (b : UInt32)
    (r : BlockFinalReason) : (emitEviction d b r).slots = d.slots := by
  rw [emitEviction]
  split <;> rfl

theorem sameParams_finalize (d : Deinterleaver) (i : Nat)
    (r : BlockFinalReason) : SameParams d (finalizeAndResetSlot d i r) := by
  rw [finalizeAndResetSlot]
  split
  · exact SameParams.refl d
  · exact (sameParams_emitFinal d _ r).trans (sameParams_setSlot _ _ _)

/-- Finalising a slot that is not EMPTY resets it. -/
theorem finalize_slots {d : Deinterleaver} {i : Nat} (r : BlockFinalReason)
    (h : (d.slots i).state ≠ .empty) :
    (finalizeAndResetSlot d i r).slots
      = Function.update d.slots i (slotReset (d.slots i)) := by
  rw [finalizeAndResetSlot, if_neg h, setSlot_slots, emitFinal_slots]

/-! ## Searches over the pool -/

theorem findSlotAny_some {d : Deinterleaver} {b : UInt32} {i : Nat}
    (h : findSlotAny d b = some i) :
    i < d.maxActiveBlocks ∧ (d.slots i).state ≠ .empty ∧
      (d.slots i).blockId = b := by
  have hm := List.mem_of_find?_eq_some h
  have hp := List.find?_some h
  rw [Bool.and_eq_true] at hp
  exact ⟨List.mem_range.mp hm, of_decide_eq_true hp.1, eq_of_beq hp.2⟩

theorem findSlotAny_none {d : Deinterleaver} {b : UInt32}
    (h : findSlotAny d b = none) {i : Nat} (hi : i < d.maxActiveBlocks)
    (hs : (d.slots i).state ≠ .empty) : (d.slots i).blockId ≠ b := by
  have hp := List.find?_eq_none.mp h i (List.mem_range.mpr hi)
  intro hb
  apply hp
  rw [hb, decide_eq_true hs]
  exact beq_self_eq_true b

theorem findReady_some {d : Deinterleaver} {i : Nat} (h : findReady d = some i) :
    i < d.maxActiveBlocks ∧ (d.slots i).state = .readyToDecode := by
  have hm := List.mem_of_find?_eq_some h
  have hp := List.find?_some h
  exact ⟨List.mem_range.mp hm, of_decide_eq_true hp⟩

/-! ## Slot allocation -/

/-- A slot opened for a block: reset, then initialised. -/
def openSlot (d : Deinterleaver) (i : Nat) (b : UInt32) (now : Nat) : Slot :=
  initSlot (slotReset (d.slots i)) b d.symbolsPerBlock d.k now

/-- The age by which `alloc_slot` compares slots. -/
def slotAge (d : Deinterleaver) (now i : Nat) : ℚ :=
  elapsedMs (d.slots i).firstSymTime now

/-- Has the slot this state? -/
def hasState (d : Deinterleaver) (st : BlockState) (i : Nat) : Bool :=
  decide ((d.slots i).state = st)

/-- The three parts of the scan are independent loops. -/
theorem allocScan_free (d : Deinterleaver) (now : Nat) :
    (allocScan d now).freeSlot
      = (List.range d.maxActiveBlocks).foldl
          (Scan.firstStep (hasState d .empty)) none := by
  refine (@List.foldl_hom _ _ _ AllocScan.freeSlot _ _ _
    ⟨none, none, -1, none, -1⟩ fun a i => ?_).symm
  rw [Scan.firstStep, allocScanStep, hasState]
  cases hs : (d.slots i).state with
  | empty =>
      by_cases hf : a.freeSlot = none <;> simp [hf]
  | readyToDecode =>
      simp only [reduceCtorEq, decide_false, Bool.false_eq_true, if_false]
      split <;> rfl
  | filling =>
      simp only [reduceCtorEq, decide_false, Bool.false_eq_true, if_false]
      split <;> rfl

theorem allocScan_ready (d : Deinterleaver) (now : Nat) :
    ((allocScan d now).oldestReady, (allocScan d now).oldestReadyAge)
      = (List.range d.maxActiveBlocks).foldl
          (Scan.argmaxStep (hasState d .readyToDecode) (slotAge d now))
          (none, -1) := by
  refine (@List.foldl_hom _ _ _
    (fun a : AllocScan => (a.oldestReady, a.oldestReadyAge)) _ _ _
    ⟨none, none, -1, none, -1⟩ fun a i => ?_).symm
  rw [Scan.argmaxStep, allocScanStep, hasState, slotAge]
  cases hs : (d.slots i).state with
  | empty =>
      simp only [reduceCtorEq, decide_false, Bool.false_eq_true, if_false]
      split <;> rfl
  | readyToDecode =>
      simp only [decide_true, if_true]
      split <;> rfl
  | filling =>
      simp only [reduceCtorEq, decide_false, Bool.false_eq_true, if_false]
      split <;> rfl

theorem allocScan_filling (d : Deinterleaver) (now : Nat) :
    ((allocScan d now).oldestFilling, (allocScan d now).oldestFillAge)
      = (List.range d.maxActiveBlocks).foldl
          (Scan.argmaxStep (hasState d .filling) (slotAge d now))
          (none, -1) := by
  refine (@List.foldl_hom _ _ _
    (fun a : AllocScan => (a.oldestFilling, a.oldestFillAge)) _ _ _
    ⟨none, none, -1, none, -1⟩ fun a i => ?_).symm
  rw [Scan.argmaxStep, allocScanStep, hasState, slotAge]
  cases hs : (d.slots i).state with
  | empty =>
      simp only [reduceCtorEq, decide_false, Bool.false_eq_true, if_false]
      split <;> rfl
  | readyToDecode =>
      simp only [reduceCtorEq, decide_false, Bool.false_eq_true, if_false]
      split <;> rfl
  | filling =>
      simp only [decide_true, if_true]
      split <;> rfl

/-- No slot is so old that the scan overlooks it. -/
theorem slotAge_gt (d : Deinterleaver) (now j : Nat) : (-1 : ℚ) < slotAge d now j := by
  have h0 := elapsedMs_nonneg (d.slots j).firstSymTime now
  rw [slotAge]
  linarith

theorem freeSlot_some {d : Deinterleaver} {now i : Nat}
    (h : (allocScan d now).freeSlot = some i) :
    i < d.maxActiveBlocks ∧ (d.slots i).state = .empty := by
  have hspec := Scan.first_spec (hasState d .empty) d.maxActiveBlocks
  rw [← allocScan_free d now, h] at hspec
  exact ⟨hspec.1, of_decide_eq_true hspec.2⟩

theorem freeSlot_none {d : Deinterleaver} {now : Nat}
    (h : (allocScan d now).freeSlot = none) :
    ∀ j, j < d.maxActiveBlocks → (d.slots j).state ≠ .empty := by
  have hspec := Scan.first_spec (hasState d .empty) d.maxActiveBlocks
  rw [← allocScan_free d now, h] at hspec
  exact fun j hj => of_decide_eq_false (hspec j hj)

theorem oldestReady_some {d : Deinterleaver} {now i : Nat}
    (h : (allocScan d now).oldestReady = some i) :
    i < d.maxActiveBlocks ∧ (d.slots i).state = .readyToDecode ∧
      ∀ j, j < d.maxActiveBlocks → (d.slots j).state = .readyToDecode →
        slotAge d now j ≤ slotAge d now i := by
  have hspec := Scan.argmax_spec (hasState d .readyToDecode) (slotAge d now) (-1)
    (slotAge_gt d now) d.maxActiveBlocks
  rw [← allocScan_ready d now, h] at hspec
  obtain ⟨hi, hst, -, hold⟩ := hspec
  exact ⟨hi, of_decide_eq_true hst, fun j hj hjs => hold j hj (decide_eq_true hjs)⟩

theorem oldestReady_none {d : Deinterleaver} {now : Nat}
    (h : (allocScan d now).oldestReady = none) :
    ∀ j, j < d.maxActiveBlocks → (d.slots j).state ≠ .readyToDecode := by
  have hspec := Scan.argmax_spec (hasState d .readyToDecode) (slotAge d now) (-1)
    (slotAge_gt d now) d.maxActiveBlocks
  rw [← allocScan_ready d now, h] at hspec
  exact fun j hj => of_decide_eq_false (hspec.2 j hj)

theorem oldestFilling_some {d : Deinterleaver} {now i : Nat}
    (h : (allocScan d now).oldestFilling = some i) :
    i < d.maxActiveBlocks ∧ (d.slots i).state = .filling ∧
      ∀ j, j < d.maxActiveBlocks → (d.slots j).state = .filling →
        slotAge d now j ≤ slotAge d now i := by
  have hspec := Scan.argmax_spec (hasState d .filling) (slotAge d now) (-1)
    (slotAge_gt d now) d.maxActiveBlocks
  rw [← allocScan_filling d now, h] at hspec
  obtain ⟨hi, hst, -, hold⟩ := hspec
  exact ⟨hi, of_decide_eq_true hst, fun j hj hjs => hold j hj (decide_eq_true hjs)⟩

theorem oldestFilling_none {d : Deinterleaver} {now : Nat}
    (h : (allocScan d now).oldestFilling = none) :
    ∀ j, j < d.maxActiveBlocks → (d.slots j).state ≠ .filling := by
  have hspec := Scan.argmax_spec (hasState d .filling) (slotAge d now) (-1)
    (slotAge_gt d now) d.maxActiveBlocks
  rw [← allocScan_filling d now, h] at hspec
  exact fun j hj => of_decide_eq_false (hspec.2 j hj)

/-- How `alloc_slot` came to choose slot `i`. -/
inductive AllocChoice (d : Deinterleaver) (now i : Nat) : Prop where
  | free (hs : (d.slots i).state = .empty)
  | ready (hs : (d.slots i).state = .readyToDecode)
      (hfull : ∀ j, j < d.maxActiveBlocks → (d.slots j).state ≠ .empty)
      (hold : ∀ j, j < d.maxActiveBlocks → (d.slots j).state = .readyToDecode →
        slotAge d now j ≤ slotAge d now i)
  | filling (hs : (d.slots i).state = .filling)
      (hfull : ∀ j, j < d.maxActiveBlocks → (d.slots j).state = .filling)
      (hold : ∀ j, j < d.maxActiveBlocks → slotAge d now j ≤ slotAge d now i)

/-- The calls that report the end of a block: of an eviction when `evict` is
    set, of any other end otherwise. -/
def endCalls (d : Deinterleaver) (evict : Bool) (b : UInt32)
    (r : BlockFinalReason) : List CbCall :=
  (if evict && d.evictionCb then [.eviction b r] else [])
    ++ (if d.finalCb then [.final b r] else [])

/-- What `alloc_slot` reports when it takes slot `i`. -/
def allocCalls (d : Deinterleaver) (i : Nat) : List CbCall :=
  match (d.slots i).state with
  | .empty => []
  | .readyToDecode =>
      endCalls d true (d.slots i).blockId .discardedReadyEvictedBeforeMark
  | .filling =>
      endCalls d true (d.slots i).blockId .discardedEvictedBeforeDecode

theorem emitFinal_cbLog (d : Deinterleaver) (b : UInt32) {r : BlockFinalReason}
    (h : r ≠ .none) :
    (emitBlockFinalReason d b r).cbLog = d.cbLog ++ endCalls d false b r := by
  rw [emitBlockFinalReason, if_neg h, endCalls]
  cases hf : d.finalCb <;> simp

theorem finalize_cbLog {d : Deinterleaver} {i : Nat} {r : BlockFinalReason}
    (h : (d.slots i).state ≠ .empty) (hr : r ≠ .none) :
    (finalizeAndResetSlot d i r).cbLog
      = d.cbLog ++ endCalls d false (d.slots i).blockId r := by
  rw [finalizeAndResetSlot, if_neg h]
  exact emitFinal_cbLog d _ hr

theorem sameParams_evictSlot (d : Deinterleaver) (v : Nat) (stats : DilStats)
    (r : BlockFinalReason) (b : UInt32) (now : Nat) :
    SameParams d (evictSlot d v stats r b now) := by
  have h1 : SameParams d { d with stats := stats } :=
    ⟨rfl, rfl, rfl, rfl, rfl, rfl, rfl, rfl, rfl⟩
  exact ((h1.trans (sameParams_emitEviction _ _ r)).trans
    (sameParams_finalize _ v r)).trans (sameParams_setSlot _ v _)

theorem evictSlot_slots {d : Deinterleaver} {v : Nat} (stats : DilStats)
    (r : BlockFinalReason) (b : UInt32) (now : Nat)
    (h : (d.slots v).state ≠ .empty) :
    (evictSlot d v stats r b now).slots
      = Function.update d.slots v (openSlot d v b now) := by
  let d1 := emitEviction { d with stats := stats } (d.slots v).blockId r
  have hd1 : d1.slots = d.slots := emitEviction_slots _ _ r
  have hp1 : SameParams d d1 :=
    SameParams.trans (b := { d with stats := stats })
      ⟨rfl, rfl, rfl, rfl, rfl, rfl, rfl, rfl, rfl⟩ (sameParams_emitEviction _ _ r)
  have hf := finalize_slots (d := d1) (i := v) r (by rw [hd1]; exact h)
  have hp2 := hp1.trans (sameParams_finalize d1 v r)
  show (initSlotAt (finalizeAndResetSlot d1 v r) v b now).slots = _
  rw [initSlotAt, setSlot_slots, hf, Function.update_self, hd1,
    Function.update_idem, hp2.symbolsPerBlock, hp2.k]
  rfl

theorem evictSlot_cbLog {d : Deinterleaver} {v : Nat} (stats : DilStats)
    {r : BlockFinalReason} (b : UInt32) (now : Nat)
    (h : (d.slots v).state ≠ .empty) (hr : r ≠ .none) :
    (evictSlot d v stats r b now).cbLog
      = d.cbLog ++ endCalls d true (d.slots v).blockId r := by
  let d1 := emitEviction { d with stats := stats } (d.slots v).blockId r
  have hd1 : d1.slots = d.slots := emitEviction_slots _ _ r
  have hf := finalize_cbLog (d := d1) (i := v) (by rw [hd1]; exact h) hr
  show (finalizeAndResetSlot d1 v r).cbLog = _
  rw [hf, hd1, endCalls, endCalls]
  show (emitEviction { d with stats := stats } (d.slots v).blockId r).cbLog ++ _ = _
  have hfc := (sameParams_emitEviction { d with stats := stats }
    (d.slots v).blockId r).finalCb
  rw [show d1.finalCb = d.finalCb from hfc, emitEviction]
  cases he : d.evictionCb <;> simp

/-- **Allocation.**  A pool that is not empty always yields a slot, and the
    slot is opened clean: whatever held it before was reset first. -/
theorem allocSlot_spec {d : Deinterleaver} (b : UInt32) (now : Nat)
    (hpos : 0 < d.maxActiveBlocks) :
    ∃ i d', allocSlot d b now = (some i, d') ∧ i < d.maxActiveBlocks ∧
      SameParams d d' ∧ AllocChoice d now i ∧
      d'.slots = Function.update d.slots i (openSlot d i b now) ∧
      d'.cbLog = d.cbLog ++ allocCalls d i := by
  rw [allocSlot]
  cases hf : (allocScan d now).freeSlot with
  | some i =>
      obtain ⟨hi, hs⟩ := freeSlot_some hf
      refine ⟨i, _, rfl, hi, ?_, .free hs, ?_, ?_⟩
      · exact (sameParams_setSlot _ _ _).trans (sameParams_setSlot _ _ _)
      · rw [initSlotAt, setSlot_slots, setSlot_slots, Function.update_self,
          Function.update_idem]
        rfl
      · rw [allocCalls, hs, List.append_nil]
        rfl
  | none =>
      have hfull := freeSlot_none hf
      cases hr : (allocScan d now).oldestReady with
      | some i =>
          obtain ⟨hi, hs, hold⟩ := oldestReady_some hr
          have hne : (d.slots i).state ≠ .empty := hfull i hi
          refine ⟨i, _, rfl, hi, sameParams_evictSlot _ _ _ _ _ _,
            .ready hs hfull hold, evictSlot_slots _ _ _ _ hne, ?_⟩
          rw [evictSlot_cbLog _ _ _ hne (by decide), allocCalls, hs]
      | none =>
          have hallf : ∀ j, j < d.maxActiveBlocks →
              (d.slots j).state = .filling := by
            intro j hj
            have h1 := hfull j hj
            have h2 := oldestReady_none hr j hj
            cases hjs : (d.slots j).state with
            | empty => exact absurd hjs h1
            | readyToDecode => exact absurd hjs h2
            | filling => rfl
          cases hg : (allocScan d now).oldestFilling with
          | some i =>
              obtain ⟨hi, hs, hold⟩ := oldestFilling_some hg
              have hne : (d.slots i).state ≠ .empty := hfull i hi
              refine ⟨i, _, rfl, hi, sameParams_evictSlot _ _ _ _ _ _,
                .filling hs hallf ?_, evictSlot_slots _ _ _ _ hne, ?_⟩
              · intro j hj
                exact hold j hj (hallf j hj)
              · rw [evictSlot_cbLog _ _ _ hne (by decide), allocCalls, hs]
          | none => exact absurd (hallf 0 hpos) (oldestFilling_none hg 0 hpos)

/-! ## Leaving FILLING -/

/-- What `maybe_freeze_slot` decides; the counters play no part in it. -/
def freezeRc (d : Deinterleaver) (s : Slot) (timeoutMs : ℚ) (now : Nat) :
    FreezeRc :=
  (maybeFreezeSlot s d.symbolsPerBlock d.k d.m d.stabilizationMs timeoutMs now
    d.stats).1

/-- The slot that remains after settling. -/
def settledSlot (d : Deinterleaver) (s : Slot) (timeoutMs : ℚ) (now : Nat) :
    Slot :=
  match freezeRc d s timeoutMs now with
  | .none => s
  | .ready => { s with state := .readyToDecode }
  | .recycle => slotReset s

/-- **The exits of FILLING**, with the condition of each. -/
theorem maybeFreezeSlot_cases {s : Slot} (n k m : Nat) (stab timeout : ℚ)
    (now : Nat) (stats : DilStats) (hs : s.state = .filling) :
    let r := maybeFreezeSlot s n k m stab timeout now stats
    let stable := k ≤ s.validSymbols ∧ (stab = 0 ∨ stab ≤ elapsedMs s.lastSymTime now)
    let late := timeout ≤ elapsedMs s.firstSymTime now
    (r.1 = .ready ∧ r.2.1 = { s with state := .readyToDecode } ∧
      (s.validSymbols = n ∨
        k ≤ s.validSymbols ∧ n - s.validSymbols ≤ m ∧ (stable ∨ late))) ∨
    (r.1 = .recycle ∧ r.2.1 = s ∧ s.validSymbols ≠ n ∧
      (m < n - s.validSymbols ∨ s.validSymbols < k) ∧ (stable ∨ late)) ∨
    (r.1 = .none ∧ r.2 = (s, stats) ∧ s.validSymbols ≠ n ∧ ¬ stable ∧
      ¬ late) := by
  intro r stable late
  by_cases hn : s.validSymbols = n
  · have hr : r = freezeReady s stats := by
      simp only [r, maybeFreezeSlot, hs, hn, ne_eq, not_true_eq_false, if_false,
        if_true]
    rw [hr]
    exact .inl ⟨rfl, rfl, .inl hn⟩
  · by_cases hst : stable
    · by_cases hm : m < n - s.validSymbols
      · have hr : r = (.recycle, s,
            { stats with blocksFailedHoles := stats.blocksFailedHoles + 1 }) := by
          simp only [r, maybeFreezeSlot, hs, hn, ne_eq, not_true_eq_false, if_false]
          rw [if_pos hst, if_pos hm]
        rw [hr]
        exact .inr (.inl ⟨rfl, rfl, hn, .inl hm, .inl hst⟩)
      · have hr : r = freezeReady s stats := by
          simp only [r, maybeFreezeSlot, hs, hn, ne_eq, not_true_eq_false, if_false]
          rw [if_pos hst, if_neg hm]
        rw [hr]
        exact .inl ⟨rfl, rfl, .inr ⟨hst.1, Nat.le_of_not_lt hm, .inl hst⟩⟩
    · by_cases hl : late
      · by_cases hk : k ≤ s.validSymbols ∧ n - s.validSymbols ≤ m
        · have hr : r = freezeReady s stats := by
            simp only [r, maybeFreezeSlot, hs, hn, ne_eq, not_true_eq_false,
              if_false]
            rw [if_neg hst, if_pos hl, if_pos hk]
          rw [hr]
          exact .inl ⟨rfl, rfl, .inr ⟨hk.1, hk.2, .inr hl⟩⟩
        · have hr : r.1 = .recycle ∧ r.2.1 = s := by
            simp only [r, maybeFreezeSlot, hs, hn, ne_eq, not_true_eq_false,
              if_false]
            rw [if_neg hst, if_pos hl, if_neg hk]
            split <;> exact ⟨rfl, rfl⟩
          refine .inr (.inl ⟨hr.1, hr.2, hn, ?_, .inr hl⟩)
          omega
      · have hr : r = (.none, s, stats) := by
          simp only [r, maybeFreezeSlot, hs, hn, ne_eq, not_true_eq_false, if_false]
          rw [if_neg hst, if_neg hl]
        rw [hr]
        exact .inr (.inr ⟨rfl, rfl, hn, hst, hl⟩)

/-- A full block is promoted at once. -/
theorem maybeFreezeSlot_full {s : Slot} {n : Nat} (k m : Nat) (stab timeout : ℚ)
    (now : Nat) (stats : DilStats) (hs : s.state = .filling)
    (hn : s.validSymbols = n) :
    maybeFreezeSlot s n k m stab timeout now stats = freezeReady s stats := by
  simp only [maybeFreezeSlot, hs, hn, ne_eq, not_true_eq_false, if_false, if_true]

/-- Only the counters depend on the counters. -/
theorem maybeFreezeSlot_stats (s : Slot) (n k m : Nat) (stab timeout : ℚ)
    (now : Nat) (st st' : DilStats) :
    (maybeFreezeSlot s n k m stab timeout now st).1
      = (maybeFreezeSlot s n k m stab timeout now st').1 := by
  simp only [maybeFreezeSlot, freezeReady]
  split
  · rfl
  · split
    · rfl
    · split
      · split <;> rfl
      · split
        · split
          · rfl
          · split <;> rfl
        · rfl

theorem freezeRc_congr {d d' : Deinterleaver} (h : SameParams d d') (s : Slot)
    (timeoutMs : ℚ) (now : Nat) :
    freezeRc d' s timeoutMs now = freezeRc d s timeoutMs now := by
  rw [freezeRc, freezeRc, h.symbolsPerBlock, h.k, h.m, h.stabilizationMs]
  exact maybeFreezeSlot_stats ..

theorem settledSlot_congr {d d' : Deinterleaver} (h : SameParams d d') (s : Slot)
    (timeoutMs : ℚ) (now : Nat) :
    settledSlot d' s timeoutMs now = settledSlot d s timeoutMs now := by
  rw [settledSlot, settledSlot, freezeRc_congr h]

/-- The reason a discarded slot is finalised with. -/
def discardReason (d : Deinterleaver) (s : Slot) : BlockFinalReason :=
  if d.m < d.symbolsPerBlock - s.validSymbols then
    .discardedTooManyHolesBeforeDecode
  else .discardedTimeoutBeforeDecode

theorem discardReason_ne_none (d : Deinterleaver) (s : Slot) :
    discardReason d s ≠ .none := by
  rw [discardReason]
  split <;> decide

/-- What settling a slot reports. -/
def settleCalls (d : Deinterleaver) (s : Slot) (timeoutMs : ℚ) (now : Nat) :
    List CbCall :=
  if freezeRc d s timeoutMs now = .recycle then
    endCalls d false s.blockId (discardReason d s)
  else []

/-- **Settling** writes one slot, and reports it when it was discarded. -/
theorem settleSlot_spec (d : Deinterleaver) (i : Nat) (timeoutMs : ℚ) (now : Nat)
    (hs : (d.slots i).state = .filling) :
    let r := settleSlot d i timeoutMs now
    r.1 = freezeRc d (d.slots i) timeoutMs now ∧ SameParams d r.2 ∧
      r.2.slots = Function.update d.slots i
        (settledSlot d (d.slots i) timeoutMs now) ∧
      r.2.cbLog = d.cbLog ++ settleCalls d (d.slots i) timeoutMs now := by
  intro r
  have hc := maybeFreezeSlot_cases d.symbolsPerBlock d.k d.m d.stabilizationMs
    timeoutMs now d.stats hs
  have hr : r = settleSlot d i timeoutMs now := rfl
  rw [settleSlot] at hr
  rw [settledSlot, settleCalls, freezeRc]
  revert hr
  generalize maybeFreezeSlot (d.slots i) d.symbolsPerBlock d.k d.m
    d.stabilizationMs timeoutMs now d.stats = f at hc ⊢
  intro hr
  rcases hc with ⟨h1, h2, -⟩ | ⟨h1, h2, -⟩ | ⟨h1, h2, -⟩
  · rw [if_neg (by rw [h1]; decide)] at hr
    rw [hr, h1, h2]
    refine ⟨rfl, ?_, rfl, ?_⟩
    · exact ⟨rfl, rfl, rfl, rfl, rfl, rfl, rfl, rfl, rfl⟩
    · rw [if_neg (by decide), List.append_nil]
      rfl
  · rw [if_pos h1, h2] at hr
    let d1 : Deinterleaver := { setSlot d i (d.slots i) with stats := f.2.2 }
    have hd1 : d1.slots = d.slots := Function.update_eq_self i d.slots
    have hne : (d1.slots i).state ≠ .empty := by
      rw [hd1, hs]
      decide
    have hr' : r = (f.1, finalizeAndResetSlot d1 i (discardReason d (d1.slots i))) :=
      hr
    have hf := finalize_slots (discardReason d (d1.slots i)) hne
    have hl := finalize_cbLog hne (discardReason_ne_none d (d1.slots i))
    rw [hd1] at hf hl hr'
    rw [hr', h1]
    refine ⟨rfl, ?_, hf, ?_⟩
    · exact SameParams.trans (b := d1)
        ⟨rfl, rfl, rfl, rfl, rfl, rfl, rfl, rfl, rfl⟩ (sameParams_finalize _ _ _)
    · rw [if_pos rfl]
      exact hl
  · rw [if_neg (by rw [h1]; decide)] at hr
    rw [hr, h1, h2]
    refine ⟨rfl, ?_, rfl, ?_⟩
    · exact ⟨rfl, rfl, rfl, rfl, rfl, rfl, rfl, rfl, rfl⟩
    · rw [if_neg (by decide), List.append_nil]
      rfl

/-- The slot that settling leaves, case by case. -/
theorem settledSlot_cases {d : Deinterleaver} {s : Slot} (timeoutMs : ℚ)
    (now : Nat) (hs : s.state = .filling) :
    (settledSlot d s timeoutMs now = { s with state := .readyToDecode } ∧
      (s.validSymbols = d.symbolsPerBlock ∨
        d.k ≤ s.validSymbols ∧ d.symbolsPerBlock - s.validSymbols ≤ d.m)) ∨
    (settledSlot d s timeoutMs now = slotReset s ∧
      s.validSymbols ≠ d.symbolsPerBlock) ∨
    (settledSlot d s timeoutMs now = s ∧
      s.validSymbols ≠ d.symbolsPerBlock) := by
  have hc := maybeFreezeSlot_cases d.symbolsPerBlock d.k d.m d.stabilizationMs
    timeoutMs now d.stats hs
  rcases hc with ⟨h1, -, h3⟩ | ⟨h1, -, h3⟩ | ⟨h1, -, h3⟩
  · refine .inl ⟨?_, ?_⟩
    · rw [settledSlot, show freezeRc d s timeoutMs now = .ready from h1]
    · exact h3.imp id fun h => ⟨h.1, h.2.1⟩
  · refine .inr (.inl ⟨?_, h3.1⟩)
    rw [settledSlot, show freezeRc d s timeoutMs now = .recycle from h1]
  · refine .inr (.inr ⟨?_, h3.1⟩)
    rw [settledSlot, show freezeRc d s timeoutMs now = .none from h1]

/-! ## A push -/

/-- A symbol that passes the header checks of `push_symbol`. -/
def isAccepted (d : Deinterleaver) (sym : Symbol) : Bool :=
  !isErasure sym && !isRejected d sym

theorem isAccepted_iff {d : Deinterleaver} {sym : Symbol}
    (hn : d.symbolsPerBlock ≤ 2 ^ 31) :
    isAccepted d sym = true ↔
      isErasure sym = false ∧ sym.payloadLen.toNat ≤ d.symbolSize ∧
        sym.fecId.toNat < d.symbolsPerBlock := by
  have hr := toInt_range_iff (x := sym.fecId) hn
  rw [isAccepted, isRejected]
  simp only [Bool.and_eq_true, Bool.not_eq_true', Bool.or_eq_false_iff,
    decide_eq_false_iff_not, not_lt, not_le, and_assoc]
  constructor
  · rintro ⟨h1, h2, h3, h4⟩
    exact ⟨h1, h2, hr.mp ⟨h3, h4⟩⟩
  · rintro ⟨h1, h2, h3⟩
    have h4 := hr.mpr h3
    exact ⟨h1, h2, h4.1, h4.2⟩

/-- The slot a push stores into, as it stands just before the store: the
    FILLING slot of the block, or a slot opened for it. -/
inductive PushBase (d : Deinterleaver) (b : UInt32) (now i : Nat) :
    Slot → List CbCall → Prop where
  | found (hf : findSlotAny d b = some i) (hs : (d.slots i).state = .filling) :
      PushBase d b now i (d.slots i) []
  | opened (hf : findSlotAny d b = none) (hc : AllocChoice d now i) :
      PushBase d b now i (openSlot d i b now) (allocCalls d i)

/-- A slot that a push stores into is FILLING and belongs to the block. -/
theorem PushBase.filling {d : Deinterleaver} {b : UInt32} {now i : Nat}
    {base : Slot} {calls : List CbCall} (h : PushBase d b now i base calls) :
    base.state = .filling ∧ base.blockId = b := by
  cases h with
  | found hf hs => exact ⟨hs, (findSlotAny_some hf).2.2⟩
  | opened hf hc => exact ⟨rfl, rfl⟩

/-- The slot a push leaves behind. -/
def pushedSlot (d : Deinterleaver) (base : Slot) (sym : Symbol) (now : Nat) :
    Slot :=
  settledSlot d (slotStore base sym d.symbolSize now) (defaultTimeoutMs d) now

/-- The result code of a push that stored its symbol. -/
def pushRc (d : Deinterleaver) (base : Slot) (sym : Symbol) (now : Nat) : Int :=
  if freezeRc d (slotStore base sym d.symbolSize now) (defaultTimeoutMs d) now
      = .ready then 1 else 0

/-- What a push does. -/
inductive PushEffect (d : Deinterleaver) (sym : Symbol) (now : Nat) :
    Int × Deinterleaver → Prop where
  | dropped {rc : Int} {d' : Deinterleaver} (hp : SameParams d d')
      (hs : d'.slots = d.slots) (hl : d'.cbLog = d.cbLog)
      (hacc : isAccepted d sym = true → ∃ i, findSlotAny d sym.packetId = some i ∧
        ((d.slots i).state ≠ .filling ∨
          Bitset.test (d.slots i).receivedMask sym.fecId.toNat = true)) :
      PushEffect d sym now (rc, d')
  | stored {d' : Deinterleaver} {i : Nat} {base : Slot} {calls : List CbCall}
      (hacc : isAccepted d sym = true) (hi : i < d.maxActiveBlocks)
      (hb : PushBase d sym.packetId now i base calls)
      (hnew : Bitset.test base.receivedMask sym.fecId.toNat = false)
      (hp : SameParams d d')
      (hs : d'.slots = Function.update d.slots i (pushedSlot d base sym now))
      (hl : d'.cbLog = d.cbLog ++ calls
        ++ settleCalls d (slotStore base sym d.symbolSize now)
            (defaultTimeoutMs d) now) :
      PushEffect d sym now (pushRc d base sym now, d')

/-- The store into a slot that has room at the position. -/
theorem storeSymbol_spec {d : Deinterleaver} {i : Nat} {sym : Symbol} (now : Nat)
    (hs : (d.slots i).state = .filling)
    (hnew : Bitset.test (d.slots i).receivedMask sym.fecId.toNat = false) :
    let r := storeSymbol d i sym now
    r.1 = pushRc d (d.slots i) sym now ∧ SameParams d r.2 ∧
      r.2.slots = Function.update d.slots i (pushedSlot d (d.slots i) sym now) ∧
      r.2.cbLog = d.cbLog
        ++ settleCalls d (slotStore (d.slots i) sym d.symbolSize now)
            (defaultTimeoutMs d) now := by
  intro r
  let d1 := setSlot d i (slotStore (d.slots i) sym d.symbolSize now)
  have hp1 : SameParams d d1 := sameParams_setSlot d i _
  have hd1 : d1.slots i = slotStore (d.slots i) sym d.symbolSize now :=
    setSlot_self d i _
  have hset := settleSlot_spec d1 i (defaultTimeoutMs d1) now
    (by rw [hd1]; exact hs)
  have hr : r = (if (settleSlot d1 i (defaultTimeoutMs d1) now).1 = .ready then 1
      else 0, (settleSlot d1 i (defaultTimeoutMs d1) now).2) := by
    show storeSymbol d i sym now = _
    rw [storeSymbol, hnew]
    rfl
  obtain ⟨h1, h2, h3, h4⟩ := hset
  have ht : defaultTimeoutMs d1 = defaultTimeoutMs d := rfl
  rw [hd1, ht] at h1 h3 h4
  rw [freezeRc_congr hp1] at h1
  rw [settledSlot_congr hp1] at h3
  rw [hr]
  refine ⟨?_, hp1.trans h2, ?_, ?_⟩
  · show (if _ then (1 : Int) else 0) = _
    rw [ht, h1]
    rfl
  · rw [ht, h3, setSlot_slots, Function.update_idem]
    rfl
  · rw [ht, h4, settleCalls, settleCalls, freezeRc_congr hp1]
    rfl

/-- A symbol whose position is taken changes nothing but a counter. -/
theorem storeSymbol_duplicate {d : Deinterleaver} {i : Nat} {sym : Symbol}
    (now : Nat)
    (hdup : Bitset.test (d.slots i).receivedMask sym.fecId.toNat = true) :
    storeSymbol d i sym now
      = (0, { d with stats :=
        { d.stats with
          droppedSymbolsDuplicate := d.stats.droppedSymbolsDuplicate + 1 } }) := by
  rw [storeSymbol, hdup]
  rfl

/-- **A push** drops its symbol and leaves the pool alone, or stores it into
    one slot. -/
theorem push_effect {d : Deinterleaver} (sym : Symbol) (now : Nat)
    (hpos : 0 < d.maxActiveBlocks) :
    PushEffect d sym now (deinterleaverPushSymbol d sym now) := by
  have hparams : ∀ st : DilStats, SameParams d { d with stats := st } :=
    fun _ => ⟨rfl, rfl, rfl, rfl, rfl, rfl, rfl, rfl, rfl⟩
  rw [deinterleaverPushSymbol]
  by_cases her : isErasure sym = true
  · rw [if_pos her]
    refine .dropped (hparams _) rfl rfl fun h => ?_
    rw [isAccepted, her] at h
    exact nomatch h
  rw [if_neg her]
  by_cases hrej : isRejected d sym = true
  · rw [if_pos hrej]
    refine .dropped (SameParams.refl d) rfl rfl fun h => ?_
    rw [isAccepted, hrej, Bool.not_true, Bool.and_false] at h
    exact nomatch h
  rw [if_neg hrej]
  have hacc : isAccepted d sym = true := by
    rw [isAccepted, Bool.eq_false_iff.mpr her, Bool.eq_false_iff.mpr hrej]
    rfl
  cases hfind : findSlotAny d sym.packetId with
  | none =>
      obtain ⟨i, d1, ha, hi, hp, hc, hsl, hlog⟩ :=
        allocSlot_spec sym.packetId now hpos
      rw [ha]
      show PushEffect d sym now (storeSymbol d1 i sym now)
      have hbase : d1.slots i = openSlot d i sym.packetId now := by
        rw [hsl, Function.update_self]
      have hnew : Bitset.test (d1.slots i).receivedMask sym.fecId.toNat = false := by
        rw [hbase]
        exact Bitset.test_clear _
      obtain ⟨h1, h2, h3, h4⟩ := storeSymbol_spec now (by rw [hbase]; rfl) hnew
      -- opening the slot leaves the parameters alone: both sides read the same ones
      have hst : ∀ s, slotStore s sym d1.symbolSize now
          = slotStore s sym d.symbolSize now := by
        intro s
        rw [hp.symbolSize]
      have htm : defaultTimeoutMs d1 = defaultTimeoutMs d := by
        rw [defaultTimeoutMs, defaultTimeoutMs, hp.blockMaxAgeMs]
      have hrc : (storeSymbol d1 i sym now).1
          = pushRc d (openSlot d i sym.packetId now) sym now := by
        rw [h1, hbase, pushRc, pushRc, hst, htm, freezeRc_congr hp]
      have heq : storeSymbol d1 i sym now
          = (pushRc d (openSlot d i sym.packetId now) sym now,
            (storeSymbol d1 i sym now).2) := Prod.ext hrc rfl
      rw [heq]
      refine .stored hacc hi (.opened hfind hc) (Bitset.test_clear _)
        (hp.trans h2) ?_ ?_
      · rw [h3, hsl, Function.update_self, Function.update_idem, pushedSlot,
          pushedSlot, hst, htm, settledSlot_congr hp]
      · rw [h4, hlog, hbase, hst, htm, settleCalls, settleCalls, freezeRc_congr hp,
          discardReason, discardReason, hp.m, hp.symbolsPerBlock, endCalls,
          endCalls, hp.finalCb, hp.evictionCb]
  | some i =>
      show PushEffect d sym now (if (d.slots i).state ≠ .filling then _ else _)
      by_cases hs : (d.slots i).state = .filling
      · rw [if_neg (not_not_intro hs)]
        cases hm : Bitset.test (d.slots i).receivedMask sym.fecId.toNat with
        | true =>
            rw [storeSymbol_duplicate now hm]
            exact .dropped (hparams _) rfl rfl fun _ => ⟨i, hfind, .inr hm⟩
        | false =>
            obtain ⟨h1, h2, h3, h4⟩ := storeSymbol_spec now hs hm
            have heq : storeSymbol d i sym now
                = (pushRc d (d.slots i) sym now, (storeSymbol d i sym now).2) :=
              Prod.ext h1 rfl
            rw [heq]
            refine .stored hacc (findSlotAny_some hfind).1 (.found hfind hs) hm h2
              h3 ?_
            rw [h4, List.append_nil]
      · rw [if_pos hs]
        exact .dropped (hparams _) rfl rfl fun _ => ⟨i, hfind, .inl hs⟩

/-! ## Retrieval, acknowledgment, tick -/

/-- `mark_result` finalises the READY slot of the block, or changes nothing. -/
theorem markResult_effect (d : Deinterleaver) (b : UInt32) (ok : Bool) :
    (deinterleaverMarkResult d b ok = (-1, d) ∧
      ∀ i, findSlotAny d b = some i → (d.slots i).state ≠ .readyToDecode) ∨
    ∃ i, findSlotAny d b = some i ∧ (d.slots i).state = .readyToDecode ∧
      deinterleaverMarkResult d b ok
        = (0, finalizeAndResetSlot d i (if ok then .decodeSuccess else .decodeFailed)) := by
  rw [deinterleaverMarkResult]
  cases hf : findSlotAny d b with
  | none => exact .inl ⟨rfl, fun i h => nomatch h⟩
  | some i =>
      by_cases hs : (d.slots i).state = .readyToDecode
      · exact .inr ⟨i, rfl, hs, if_neg (not_not_intro hs)⟩
      · refine .inl ⟨if_pos hs, ?_⟩
        intro j hj
        rwa [← Option.some.inj hj]

/-- The block length `get_ready_block` would correct is never wrong. -/
theorem getReady_spec {d : Deinterleaver}
    (hn : ∀ i, i < d.maxActiveBlocks → (d.slots i).state = .readyToDecode →
      (d.slots i).block.symbolsPerBlock ≠ 0) :
    deinterleaverGetReadyBlock d
      = ((findReady d).map fun i => (d.slots i).block, d) := by
  rw [deinterleaverGetReadyBlock]
  cases hf : findReady d with
  | none => rfl
  | some i =>
      obtain ⟨hi, hs⟩ := findReady_some hf
      have h0 := hn i hi hs
      simp only [if_neg h0, Option.map_some]
      rw [show ({ d.slots i with block := (d.slots i).block } : Slot) = d.slots i
        from rfl, setSlot_eta]

/-- One turn of the tick's loop: the FILLING slot it looks at is settled. -/
theorem tickStep_spec (t : ℚ) (now c : Nat) (d : Deinterleaver) (i : Nat) :
    let r := tickStep t now (c, d) i
    SameParams d r.2 ∧
      r.2.slots = Function.update d.slots i
        (if (d.slots i).state = .filling then settledSlot d (d.slots i) t now
         else d.slots i) ∧
      r.2.cbLog = d.cbLog
        ++ (if (d.slots i).state = .filling then settleCalls d (d.slots i) t now
            else []) := by
  intro r
  by_cases hs : (d.slots i).state = .filling
  · obtain ⟨-, h2, h3, h4⟩ := settleSlot_spec d i t now hs
    have hr : r.2 = (settleSlot d i t now).2 := by
      show (tickStep t now (c, d) i).2 = _
      rw [tickStep, if_neg (not_not_intro hs)]
    rw [hr, if_pos hs, if_pos hs]
    exact ⟨h2, h3, h4⟩
  · have hr : r.2 = d := by
      show (tickStep t now (c, d) i).2 = _
      rw [tickStep, if_pos hs]
    rw [hr, if_neg hs, if_neg hs, List.append_nil]
    exact ⟨SameParams.refl d, (Function.update_eq_self i d.slots).symm, rfl⟩

/-- **A tick** settles every FILLING slot of the pool and touches no other. -/
theorem tick_slots (d : Deinterleaver) (override : ℚ) (now : Nat) :
    SameParams d (deinterleaverTick d override now).2 ∧
      ∀ i, (deinterleaverTick d override now).2.slots i
        = if i < d.maxActiveBlocks ∧ (d.slots i).state = .filling then
            settledSlot d (d.slots i) (tickTimeoutMs d override) now
          else d.slots i := by
  rw [deinterleaverTick]
  generalize tickTimeoutMs d override = t
  induction d.maxActiveBlocks with
  | zero => exact ⟨SameParams.refl d, fun i => (if_neg (by omega)).symm⟩
  | succ n ih =>
      rw [List.range_succ, List.foldl_append, List.foldl_cons, List.foldl_nil]
      generalize (List.range n).foldl (tickStep t now) (0, d) = acc at ih ⊢
      obtain ⟨c, d1⟩ := acc
      obtain ⟨hp, hsl⟩ := ih
      obtain ⟨h1, h2, -⟩ := tickStep_spec t now c d1 n
      refine ⟨hp.trans h1, ?_⟩
      intro i
      rw [h2]
      have hn : d1.slots n = d.slots n := by
        rw [hsl n, if_neg (by omega)]
      by_cases hi : i = n
      · subst hi
        rw [Function.update_self, hn, settledSlot_congr hp]
        by_cases hs : (d.slots i).state = .filling
        · rw [if_pos hs, if_pos ⟨Nat.lt_succ_self i, hs⟩]
        · rw [if_neg hs, if_neg fun h => hs h.2]
      · rw [Function.update_of_ne hi, hsl i]
        by_cases hs : i < n ∧ (d.slots i).state = .filling
        · rw [if_pos hs, if_pos ⟨Nat.lt_succ_of_lt hs.1, hs.2⟩]
        · rw [if_neg hs, if_neg fun h => hs ⟨by omega, h.2⟩]

end FsoDeinterleaver
