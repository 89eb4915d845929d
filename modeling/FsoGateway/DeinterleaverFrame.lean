import FsoGateway.DeinterleaverInvariant

/-! # Nothing reads the counters

    Two deinterleavers that differ in their counters only differ in their
    counters only after any call (`sameButStats_step`), so what a run does to
    the slots does not depend on them (`sameButStats_run`).  In particular a
    push that only counts might as well not have happened. -/

namespace FsoDeinterleaver

open ByteBuffer FsoTypes

/-- `d'` is `d` with other counters. -/
def SameButStats (d d' : Deinterleaver) : Prop := ∃ s, d' = { d with stats := s }

theorem SameButStats.refl (d : Deinterleaver) : SameButStats d d := ⟨d.stats, rfl⟩

theorem SameButStats.trans {a b c : Deinterleaver} (h1 : SameButStats a b)
    (h2 : SameButStats b c) : SameButStats a c := by
  obtain ⟨s, rfl⟩ := h1
  obtain ⟨t, rfl⟩ := h2
  exact ⟨t, rfl⟩

theorem SameButStats.slots {d d' : Deinterleaver} (h : SameButStats d d') :
    d'.slots = d.slots := by
  obtain ⟨s, rfl⟩ := h
  rfl

section Frame

variable {d d' : Deinterleaver}

theorem sameButStats_setSlot (h : SameButStats d d') (i : Nat) (x : Slot) :
    SameButStats (setSlot d i x) (setSlot d' i x) := by
  obtain ⟨s, rfl⟩ := h
  exact ⟨s, rfl⟩

theorem sameButStats_emitFinal (h : SameButStats d d') (id : UInt32)
    (reason : BlockFinalReason) :
    SameButStats (emitBlockFinalReason d id reason) (emitBlockFinalReason d' id reason) := by
  obtain ⟨s, rfl⟩ := h
  rw [emitBlockFinalReason, emitBlockFinalReason]
  by_cases hr : reason = .none
  · rw [if_pos hr, if_pos hr]
    exact ⟨s, rfl⟩
  rw [if_neg hr, if_neg hr]
  by_cases hcb : d.finalCb = true
  · rw [if_pos hcb]
    exact ⟨s, if_pos hcb⟩
  · rw [if_neg hcb]
    exact ⟨s, if_neg hcb⟩

theorem sameButStats_emitEviction (h : SameButStats d d') (id : UInt32)
    (reason : BlockFinalReason) :
    SameButStats (emitEviction d id reason) (emitEviction d' id reason) := by
  obtain ⟨s, rfl⟩ := h
  rw [emitEviction, emitEviction]
  by_cases hcb : d.evictionCb = true
  · rw [if_pos hcb]
    exact ⟨s, if_pos hcb⟩
  · rw [if_neg hcb]
    exact ⟨s, if_neg hcb⟩

theorem sameButStats_finalize (h : SameButStats d d') (i : Nat)
    (reason : BlockFinalReason) :
    SameButStats (finalizeAndResetSlot d i reason) (finalizeAndResetSlot d' i reason) := by
  rw [finalizeAndResetSlot, finalizeAndResetSlot, h.slots]
  by_cases hst : (d.slots i).state = .empty
  · rw [if_pos hst, if_pos hst]
    exact h
  · rw [if_neg hst, if_neg hst]
    exact sameButStats_setSlot (sameButStats_emitFinal h _ reason) i _

theorem maybeFreezeSlot_slot (sl : Slot) (n k m : Nat) (stab timeout : ℚ) (now : Nat)
    (s t : DilStats) :
    (maybeFreezeSlot sl n k m stab timeout now s).2.1
      = (maybeFreezeSlot sl n k m stab timeout now t).2.1 := by
  simp only [maybeFreezeSlot, freezeReady]
  split
  · rfl
  · split
    · rfl
    · split
      · split <;> rfl
      · split
        · split
          · rfl
          · split <;> rfl
        · rfl

theorem sameButStats_settle (h : SameButStats d d') (i : Nat) (timeout : ℚ) (now : Nat) :
    (settleSlot d' i timeout now).1 = (settleSlot d i timeout now).1 ∧
      SameButStats (settleSlot d i timeout now).2 (settleSlot d' i timeout now).2 := by
  obtain ⟨s, rfl⟩ := h
  have h1 := maybeFreezeSlot_stats (d.slots i) d.symbolsPerBlock d.k d.m
    d.stabilizationMs timeout now s d.stats
  have h2 := maybeFreezeSlot_slot (d.slots i) d.symbolsPerBlock d.k d.m
    d.stabilizationMs timeout now s d.stats
  rw [settleSlot, settleSlot]
  dsimp only
  rw [h1, h2]
  generalize maybeFreezeSlot (d.slots i) d.symbolsPerBlock d.k d.m d.stabilizationMs timeout
    now d.stats = r
  generalize (maybeFreezeSlot (d.slots i) d.symbolsPerBlock d.k d.m d.stabilizationMs timeout
    now s).2.2 = t
  have hset : SameButStats { setSlot d i r.2.1 with stats := r.2.2 }
      { setSlot d i r.2.1 with stats := t } := ⟨t, rfl⟩
  by_cases hr : r.1 = .recycle
  · rw [if_pos hr, if_pos hr]
    exact ⟨rfl, sameButStats_finalize hset i _⟩
  · rw [if_neg hr, if_neg hr]
    exact ⟨rfl, _, rfl⟩

theorem sameButStats_store (h : SameButStats d d') (i : Nat) (sym : Symbol) (now : Nat) :
    SameButStats (storeSymbol d i sym now).2 (storeSymbol d' i sym now).2 := by
  obtain ⟨s, rfl⟩ := h
  rw [storeSymbol, storeSymbol]
  cases ht : Bitset.test (d.slots i).receivedMask sym.fecId.toNat with
  | true => exact ⟨_, rfl⟩
  | false =>
      rw [if_neg Bool.false_ne_true, if_neg Bool.false_ne_true]
      exact (sameButStats_settle (sameButStats_setSlot ⟨s, rfl⟩ i _) i _ now).2

/-- An eviction leaves the same slots behind whatever it counts. -/
theorem sameButStats_evict (h : SameButStats d d') (i : Nat) (s s' : DilStats)
    (reason : BlockFinalReason) (id : UInt32) (now : Nat) :
    SameButStats (evictSlot d i s reason id now) (evictSlot d' i s' reason id now) := by
  have hstats : SameButStats { d with stats := s } { d' with stats := s' } := by
    obtain ⟨t, rfl⟩ := h
    exact ⟨s', rfl⟩
  obtain ⟨u, hu⟩ := sameButStats_finalize
    (sameButStats_emitEviction hstats (d.slots i).blockId reason) i reason
  refine ⟨u, ?_⟩
  rw [evictSlot, evictSlot]
  dsimp only
  rw [show d'.slots i = d.slots i from congrFun h.slots i, hu]
  rfl

theorem sameButStats_alloc (h : SameButStats d d') (id : UInt32) (now : Nat) :
    (allocSlot d' id now).1 = (allocSlot d id now).1 ∧
      SameButStats (allocSlot d id now).2 (allocSlot d' id now).2 := by
  obtain ⟨s, rfl⟩ := h
  have hscan : allocScan { d with stats := s } now = allocScan d now := rfl
  rw [allocSlot, allocSlot, hscan]
  generalize allocScan d now = a
  obtain ⟨free, ready, readyAge, filling, fillAge⟩ := a
  cases free with
  | some i => exact ⟨rfl, s, rfl⟩
  | none =>
      cases ready with
      | some i => exact ⟨rfl, sameButStats_evict ⟨s, rfl⟩ i _ _ _ id now⟩
      | none =>
          cases filling with
          | some i => exact ⟨rfl, sameButStats_evict ⟨s, rfl⟩ i _ _ _ id now⟩
          | none => exact ⟨rfl, s, rfl⟩

theorem sameButStats_push (h : SameButStats d d') (sym : Symbol) (now : Nat) :
    SameButStats (deinterleaverPushSymbol d sym now).2
      (deinterleaverPushSymbol d' sym now).2 := by
  obtain ⟨s, rfl⟩ := h
  have hrej : isRejected { d with stats := s } sym = isRejected d sym := rfl
  have hfind : findSlotAny { d with stats := s } sym.packetId
      = findSlotAny d sym.packetId := rfl
  rw [deinterleaverPushSymbol, deinterleaverPushSymbol, hrej, hfind]
  cases her : isErasure sym with
  | true => exact ⟨_, rfl⟩
  | false =>
      rw [if_neg Bool.false_ne_true, if_neg Bool.false_ne_true]
      cases hr : isRejected d sym with
      | true => exact ⟨s, rfl⟩
      | false =>
          rw [if_neg Bool.false_ne_true, if_neg Bool.false_ne_true]
          cases hf : findSlotAny d sym.packetId with
          | none =>
              obtain ⟨h1, h2⟩ := sameButStats_alloc (d := d) ⟨s, rfl⟩ sym.packetId now
              dsimp only
              generalize allocSlot { d with stats := s } sym.packetId now = a' at h1 h2 ⊢
              generalize allocSlot d sym.packetId now = a at h1 h2 ⊢
              obtain ⟨i, e⟩ := a
              obtain ⟨i', e'⟩ := a'
              obtain rfl : i' = i := h1
              cases i' with
              | none => exact h2
              | some i => exact sameButStats_store h2 i sym now
          | some i =>
              dsimp only
              by_cases hst : (d.slots i).state ≠ .filling
              · rw [if_pos hst, if_pos hst]
                exact ⟨_, rfl⟩
              · rw [if_neg hst, if_neg hst]
                exact sameButStats_store ⟨s, rfl⟩ i sym now

theorem sameButStats_tick (h : SameButStats d d') (override : ℚ) (now : Nat) :
    SameButStats (deinterleaverTick d override now).2
      (deinterleaverTick d' override now).2 := by
  have hloop : ∀ (l : List Nat) (timeout : ℚ) {acc acc' : Nat × Deinterleaver},
      SameButStats acc.2 acc'.2 →
      SameButStats (l.foldl (tickStep timeout now) acc).2
        (l.foldl (tickStep timeout now) acc').2 := by
    intro l timeout
    induction l with
    | nil => exact fun h => h
    | cons i l ih =>
        intro acc acc' h
        apply ih
        rw [tickStep, tickStep, h.slots]
        by_cases hst : (acc.2.slots i).state ≠ .filling
        · rw [if_pos hst, if_pos hst]
          exact h
        · rw [if_neg hst, if_neg hst]
          exact (sameButStats_settle h i timeout now).2
  obtain ⟨s, rfl⟩ := h
  exact hloop _ _ ⟨s, rfl⟩

/-- **One call**: the counters do not matter. -/
theorem sameButStats_step (h : SameButStats d d') (op : Op) :
    SameButStats (step d op) (step d' op) := by
  cases op with
  | push sym now => exact sameButStats_push h sym now
  | tick override now => exact sameButStats_tick h override now
  | getReadyBlock =>
      obtain ⟨s, rfl⟩ := h
      have hf : findReady { d with stats := s } = findReady d := rfl
      show SameButStats (deinterleaverGetReadyBlock d).2 (deinterleaverGetReadyBlock _).2
      rw [deinterleaverGetReadyBlock, deinterleaverGetReadyBlock, hf]
      cases findReady d with
      | none => exact ⟨s, rfl⟩
      | some i => exact ⟨s, rfl⟩
  | markResult b ok =>
      obtain ⟨s, rfl⟩ := h
      have hf : findSlotAny { d with stats := s } b = findSlotAny d b := rfl
      show SameButStats (deinterleaverMarkResult d b ok).2 (deinterleaverMarkResult _ b ok).2
      rw [deinterleaverMarkResult, deinterleaverMarkResult, hf]
      cases findSlotAny d b with
      | none => exact ⟨s, rfl⟩
      | some i =>
          dsimp only
          by_cases hst : (d.slots i).state ≠ .readyToDecode
          · rw [if_pos hst, if_pos hst]
            exact ⟨s, rfl⟩
          · rw [if_neg hst, if_neg hst]
            exact sameButStats_finalize ⟨s, rfl⟩ i _
  | incCrcDrop =>
      obtain ⟨s, rfl⟩ := h
      exact ⟨_, rfl⟩
  | setBlockFinalCallback =>
      obtain ⟨s, rfl⟩ := h
      exact ⟨s, rfl⟩
  | setEvictionCallback =>
      obtain ⟨s, rfl⟩ := h
      exact ⟨s, rfl⟩

end Frame

/-- **A run**: the counters do not matter. -/
theorem sameButStats_run (ops : List Op) {d d' : Deinterleaver} (h : SameButStats d d') :
    SameButStats (run d ops) (run d' ops) := by
  induction ops generalizing d d' with
  | nil => exact h
  | cons op ops ih => exact ih (sameButStats_step h op)

/-! ## Pushes of padding -/

/-- The call pushes the erasure sentinel. -/
def isErasurePush : Op → Bool
  | .push sym _ => isErasure sym
  | _ => false

theorem push_erasure (d : Deinterleaver) {sym : Symbol} (h : isErasure sym = true)
    (now : Nat) : SameButStats d (deinterleaverPushSymbol d sym now).2 := by
  rw [deinterleaverPushSymbol, if_pos h]
  exact ⟨_, rfl⟩

/-- **The sentinel leaves no trace**: a run goes as it does without its pushes. -/
theorem run_without_erasures (ops : List Op) (d : Deinterleaver) :
    SameButStats (run d (ops.filter fun op => !isErasurePush op)) (run d ops) := by
  induction ops generalizing d with
  | nil => exact SameButStats.refl d
  | cons op ops ih =>
      cases her : isErasurePush op with
      | false =>
          rw [List.filter_cons_of_pos (by rw [her]; rfl)]
          exact ih (step d op)
      | true =>
          rw [List.filter_cons_of_neg (by rw [her]; exact nofun)]
          refine (ih d).trans (sameButStats_run ops ?_)
          cases op with
          | push sym now => exact push_erasure d her now
          | tick override now => exact nomatch her
          | getReadyBlock => exact nomatch her
          | markResult b ok => exact nomatch her
          | incCrcDrop => exact nomatch her
          | setBlockFinalCallback => exact nomatch her
          | setEvictionCallback => exact nomatch her

end FsoDeinterleaver
