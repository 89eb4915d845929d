import FsoGateway.DeinterleaverInvariant

/-! # The deinterleaver does not look at payloads

    `bareSlot` is a slot without the bytes and the CRC of its symbols.  Two
    pools with the same bare slots find, open, evict and settle the same
    slots, so they keep the same bare slots whatever bytes are pushed.

    * `push_slots` — the one slot that a push writes;
    * `Alike.push`, `Alike.tick` — two pools stay alike. -/

namespace FsoDeinterleaver

open ByteBuffer FsoTypes

/-- A symbol without its bytes. -/
def bareSymbol (s : Symbol) : Symbol := { s with crc32 := 0, data := fun _ => 0 }

/-- A slot without the bytes of its symbols. -/
def bareSlot (s : Slot) : Slot :=
  { s with block := { s.block with symbols := fun p => bareSymbol (s.block.symbols p) } }

theorem SameParams.symm {d d' : Deinterleaver} (h : SameParams d d') : SameParams d' d :=
  ⟨h.1.symm, h.2.symm, h.3.symm, h.4.symm, h.5.symm, h.6.symm, h.7.symm, h.8.symm, h.9.symm⟩

/-- Two pools that differ in bytes and in their counters only. -/
structure Alike (d d' : Deinterleaver) : Prop where
  params : SameParams d d'
  slots : ∀ i, bareSlot (d'.slots i) = bareSlot (d.slots i)

theorem Alike.refl (d : Deinterleaver) : Alike d d := ⟨SameParams.refl d, fun _ => rfl⟩

/-! ## One slot -/

section Slots

variable {s s' : Slot} {sym sym' : Symbol}

theorem bareSymbol_copySymbol (d s : Symbol) (ss : Nat) :
    bareSymbol (copySymbol d s ss) = bareSymbol s := rfl

/-- The fields that the deinterleaver decides by. -/
theorem fields_of_bareSlot (h : bareSlot s' = bareSlot s) :
    s'.state = s.state ∧ s'.blockId = s.blockId ∧ s'.validSymbols = s.validSymbols ∧
      s'.firstSymTime = s.firstSymTime ∧ s'.lastSymTime = s.lastSymTime ∧
      s'.receivedMask = s.receivedMask := by
  have h1 := congrArg Slot.state h
  have h2 := congrArg Slot.blockId h
  have h3 := congrArg Slot.validSymbols h
  have h4 := congrArg Slot.firstSymTime h
  have h5 := congrArg Slot.lastSymTime h
  have h6 := congrArg Slot.receivedMask h
  exact ⟨h1, h2, h3, h4, h5, h6⟩

theorem bareSlot_slotReset (s : Slot) : bareSlot (slotReset s) = slotReset (bareSlot s) := rfl

theorem bareSlot_initSlot (s : Slot) (b : UInt32) (n k now : Nat) :
    bareSlot (initSlot s b n k now) = initSlot (bareSlot s) b n k now := by
  have hsymbols : ∀ p, bareSymbol (if p < n then { s.block.symbols p with packetId := 0 }
        else s.block.symbols p)
      = if p < n then { bareSymbol (s.block.symbols p) with packetId := 0 }
        else bareSymbol (s.block.symbols p) := by
    intro p
    split <;> rfl
  rw [bareSlot, initSlot, initSlot]
  simp only [hsymbols]
  rfl

theorem bareSlot_slotStore (s : Slot) (sym : Symbol) (ss now : Nat) :
    bareSlot (slotStore s sym ss now) = slotStore (bareSlot s) (bareSymbol sym) ss now := by
  have hsymbols : ∀ p, bareSymbol (Function.update s.block.symbols sym.fecId.toNat
        (copySymbol (s.block.symbols sym.fecId.toNat) sym ss) p)
      = Function.update (fun p => bareSymbol (s.block.symbols p)) sym.fecId.toNat
        (copySymbol (bareSymbol (s.block.symbols sym.fecId.toNat)) (bareSymbol sym) ss) p := by
    intro p
    by_cases hp : p = sym.fecId.toNat
    · rw [hp, Function.update_self, Function.update_self, bareSymbol_copySymbol, copySymbol]
      refine Symbol.ext rfl rfl rfl rfl rfl rfl ?_
      funext o
      show (0 : UInt8) = memcpy (fun _ => 0) (fun _ => 0) ss o
      rw [memcpy, ite_self]
    · rw [Function.update_of_ne hp, Function.update_of_ne hp]
  rw [bareSlot, slotStore, slotStore]
  simp only [hsymbols]
  rfl

/-- The decision of `maybe_freeze_slot`. -/
theorem freezeRc_bareSlot (d : Deinterleaver) (s : Slot) (t : ℚ) (now : Nat) :
    freezeRc d (bareSlot s) t now = freezeRc d s t now := by
  rw [freezeRc, freezeRc, maybeFreezeSlot, maybeFreezeSlot]
  simp only [apply_ite Prod.fst, freezeReady]
  rfl

theorem bareSlot_settledSlot (d : Deinterleaver) (s : Slot) (t : ℚ) (now : Nat) :
    bareSlot (settledSlot d s t now) = settledSlot d (bareSlot s) t now := by
  rw [settledSlot, settledSlot, freezeRc_bareSlot]
  split <;> rfl

end Slots

/-! ## The slot that a push writes -/

/-- The slot of the pool and its contents before the store. -/
def pushBase (d : Deinterleaver) (sym : Symbol) (now : Nat) : Option (Nat × Slot) :=
  if isAccepted d sym then
    match findSlotAny d sym.packetId with
    | none =>
        (allocSlot d sym.packetId now).1.map fun i => (i, openSlot d i sym.packetId now)
    | some i =>
        if (d.slots i).state = .filling ∧
            Bitset.test (d.slots i).receivedMask sym.fecId.toNat = false then
          some (i, d.slots i)
        else none
  else none

/-- **A push** writes this slot and no other. -/
theorem push_slots {d : Deinterleaver} (sym : Symbol) (now : Nat)
    (hpos : 0 < d.maxActiveBlocks) :
    SameParams d (deinterleaverPushSymbol d sym now).2 ∧
      (deinterleaverPushSymbol d sym now).2.slots
        = match pushBase d sym now with
          | none => d.slots
          | some (i, base) => Function.update d.slots i (pushedSlot d base sym now) := by
  have hparams : ∀ st : DilStats, SameParams d { d with stats := st } :=
    fun _ => ⟨rfl, rfl, rfl, rfl, rfl, rfl, rfl, rfl, rfl⟩
  rw [deinterleaverPushSymbol, pushBase]
  by_cases her : isErasure sym = true
  · rw [if_pos her, isAccepted, her]
    exact ⟨hparams _, rfl⟩
  rw [if_neg her]
  by_cases hrej : isRejected d sym = true
  · rw [if_pos hrej, isAccepted, hrej, Bool.not_true, Bool.and_false]
    exact ⟨SameParams.refl d, rfl⟩
  rw [if_neg hrej]
  have hacc : isAccepted d sym = true := by
    rw [isAccepted, Bool.eq_false_iff.mpr her, Bool.eq_false_iff.mpr hrej]
    rfl
  rw [if_pos hacc]
  cases hfind : findSlotAny d sym.packetId with
  | none =>
      obtain ⟨i, d1, ha, -, hp, -, hsl, -⟩ := allocSlot_spec sym.packetId now hpos
      have hbase : d1.slots i = openSlot d i sym.packetId now := by
        rw [hsl, Function.update_self]
      have hfilling : (d1.slots i).state = .filling := by rw [hbase]; rfl
      have hnew : Bitset.test (d1.slots i).receivedMask sym.fecId.toNat = false := by
        rw [hbase]
        exact Bitset.test_clear _
      obtain ⟨-, h2, h3, -⟩ := storeSymbol_spec now hfilling hnew
      simp only [ha, Option.map_some]
      refine ⟨hp.trans h2, ?_⟩
      rw [h3, hsl, Function.update_self, Function.update_idem, pushedSlot, pushedSlot,
        hp.symbolSize, defaultTimeoutMs, defaultTimeoutMs, hp.blockMaxAgeMs, settledSlot_congr hp]
  | some i =>
      dsimp only
      by_cases hs : (d.slots i).state = .filling
      · rw [if_neg (not_not_intro hs)]
        cases hm : Bitset.test (d.slots i).receivedMask sym.fecId.toNat with
        | true =>
            rw [storeSymbol_duplicate now hm, if_neg fun h => Bool.noConfusion h.2]
            exact ⟨hparams _, rfl⟩
        | false =>
            obtain ⟨-, h2, h3, -⟩ := storeSymbol_spec now hs hm
            rw [if_pos ⟨hs, rfl⟩]
            exact ⟨h2, h3⟩
      · rw [if_pos hs, if_neg fun h => hs h.1]
        exact ⟨hparams _, rfl⟩

/-! ## Two pools -/

section Pools

variable {d d' : Deinterleaver}

theorem Alike.findSlotAny (h : Alike d d') (b : UInt32) :
    findSlotAny d' b = FsoDeinterleaver.findSlotAny d b := by
  rw [FsoDeinterleaver.findSlotAny, FsoDeinterleaver.findSlotAny, h.params.maxActiveBlocks]
  congr 1
  funext i
  obtain ⟨h1, h2, -⟩ := fields_of_bareSlot (h.slots i)
  rw [h1, h2]

theorem Alike.allocScan (h : Alike d d') (now : Nat) :
    allocScan d' now = FsoDeinterleaver.allocScan d now := by
  rw [FsoDeinterleaver.allocScan, FsoDeinterleaver.allocScan, h.params.maxActiveBlocks]
  congr 1
  funext a i
  obtain ⟨h1, -, -, h4, -⟩ := fields_of_bareSlot (h.slots i)
  rw [allocScanStep, allocScanStep, h1, h4]

theorem allocSlot_fst (d : Deinterleaver) (b : UInt32) (now : Nat) :
    (allocSlot d b now).1 = (allocScan d now).freeSlot.or
      ((allocScan d now).oldestReady.or (allocScan d now).oldestFilling) := by
  rw [allocSlot]
  cases (FsoDeinterleaver.allocScan d now).freeSlot <;>
    cases (FsoDeinterleaver.allocScan d now).oldestReady <;>
    cases (FsoDeinterleaver.allocScan d now).oldestFilling <;> rfl

variable {sym sym' : Symbol}

theorem Alike.isAccepted (h : Alike d d') (hsym : bareSymbol sym' = bareSymbol sym) :
    isAccepted d' sym' = FsoDeinterleaver.isAccepted d sym := by
  have h1 := congrArg Symbol.packetId hsym
  have h2 := congrArg Symbol.fecId hsym
  have h5 := congrArg Symbol.payloadLen hsym
  simp only [bareSymbol] at h1 h2 h5
  rw [FsoDeinterleaver.isAccepted, FsoDeinterleaver.isAccepted, isErasure, isErasure, isRejected,
    isRejected, h1, h2, h5, h.params.symbolSize, h.params.symbolsPerBlock]

theorem Alike.openSlot (h : Alike d d') (i : Nat) (b : UInt32) (now : Nat) :
    bareSlot (openSlot d' i b now) = bareSlot (FsoDeinterleaver.openSlot d i b now) := by
  rw [FsoDeinterleaver.openSlot, FsoDeinterleaver.openSlot, bareSlot_initSlot, bareSlot_initSlot,
    bareSlot_slotReset, bareSlot_slotReset, h.slots, h.params.symbolsPerBlock, h.params.k]

theorem Alike.pushedSlot (h : Alike d d') (hsym : bareSymbol sym' = bareSymbol sym) {s s' : Slot}
    (hs : bareSlot s' = bareSlot s) (now : Nat) :
    bareSlot (pushedSlot d' s' sym' now) = bareSlot (FsoDeinterleaver.pushedSlot d s sym now) := by
  rw [FsoDeinterleaver.pushedSlot, FsoDeinterleaver.pushedSlot, bareSlot_settledSlot,
    bareSlot_settledSlot, bareSlot_slotStore, bareSlot_slotStore, hs, hsym, h.params.symbolSize,
    defaultTimeoutMs, defaultTimeoutMs, h.params.blockMaxAgeMs, settledSlot_congr h.params]

/-- The same slot is written, over bases that are alike. -/
theorem Alike.pushBase (h : Alike d d') (hsym : bareSymbol sym' = bareSymbol sym) (now : Nat) :
    (pushBase d' sym' now).map (Prod.map id bareSlot)
      = (FsoDeinterleaver.pushBase d sym now).map (Prod.map id bareSlot) := by
  have h1 := congrArg Symbol.packetId hsym
  have h2 := congrArg Symbol.fecId hsym
  simp only [bareSymbol] at h1 h2
  rw [FsoDeinterleaver.pushBase, FsoDeinterleaver.pushBase, h.isAccepted hsym, h1,
    h.findSlotAny, h2, allocSlot_fst, allocSlot_fst, h.allocScan]
  split
  · split
    · cases (FsoDeinterleaver.allocScan d now).freeSlot.or _ with
      | none => rfl
      | some i =>
          show some (i, _) = some (i, _)
          rw [h.openSlot]
    · rename_i i _
      obtain ⟨hstate, -, -, -, -, hmask⟩ := fields_of_bareSlot (h.slots i)
      rw [hstate, hmask]
      split
      · show some (i, _) = some (i, _)
        rw [h.slots]
      · rfl
  · rfl

/-- **Two pushes** of symbols with one header. -/
theorem Alike.push (h : Alike d d') (hsym : bareSymbol sym' = bareSymbol sym) (now : Nat)
    (hpos : 0 < d.maxActiveBlocks) :
    Alike (deinterleaverPushSymbol d sym now).2 (deinterleaverPushSymbol d' sym' now).2 := by
  obtain ⟨hp, hs⟩ := push_slots sym now hpos
  obtain ⟨hp', hs'⟩ := push_slots sym' now (d := d') (by rw [h.params.maxActiveBlocks]; exact hpos)
  have hbase := h.pushBase hsym now
  refine ⟨(hp.symm.trans h.params).trans hp', fun j => ?_⟩
  rw [hs, hs']
  cases hb : FsoDeinterleaver.pushBase d sym now with
  | none =>
      rw [hb, Option.map_none, Option.map_eq_none_iff] at hbase
      rw [hbase]
      exact h.slots j
  | some base =>
      rw [hb, Option.map_some, Option.map_eq_some_iff] at hbase
      obtain ⟨base', hb', heq⟩ := hbase
      rw [hb']
      obtain ⟨i, s⟩ := base
      obtain ⟨i', s'⟩ := base'
      obtain ⟨rfl, hslot⟩ := Prod.mk.inj heq
      show bareSlot (Function.update d'.slots i' _ j) = bareSlot (Function.update d.slots i' _ j)
      by_cases hj : j = i'
      · rw [hj, Function.update_self, Function.update_self]
        exact h.pushedSlot hsym hslot now
      · rw [Function.update_of_ne hj, Function.update_of_ne hj]
        exact h.slots j

/-- **Two ticks** at one time. -/
theorem Alike.tick (h : Alike d d') (override : ℚ) (now : Nat) :
    Alike (deinterleaverTick d override now).2 (deinterleaverTick d' override now).2 := by
  obtain ⟨hp, hs⟩ := tick_slots d override now
  obtain ⟨hp', hs'⟩ := tick_slots d' override now
  have htimeout : tickTimeoutMs d' override = tickTimeoutMs d override := by
    rw [tickTimeoutMs, tickTimeoutMs, defaultTimeoutMs, defaultTimeoutMs, h.params.blockMaxAgeMs]
  refine ⟨(hp.symm.trans h.params).trans hp', fun i => ?_⟩
  rw [hs, hs', h.params.maxActiveBlocks, (fields_of_bareSlot (h.slots i)).1, htimeout]
  split
  · rw [bareSlot_settledSlot, bareSlot_settledSlot, h.slots, settledSlot_congr h.params]
  · exact h.slots i

end Pools

end FsoDeinterleaver
