import FsoGateway.DeinterleaverInvariant
import FsoGateway.FecProofs

/-! # The deinterleaver's mask and the decoder's sentinel

    The deinterleaver keeps a mask of the positions it filled; the decoder
    takes a position to be filled when its `packet_id` is not zero, and
    `packet_id` is the block id there.  The two agree on a READY block
    exactly when its block id is not zero (`ready_agreement`). -/

namespace FecAgreement

open ByteBuffer FsoTypes FsoDeinterleaver FecWrapper

/-- What the decoder has to find in a READY block with this mask. -/
structure Agrees (ctx : FecCtx) (mask : Bitset.Mask) (b : Block) : Prop where
  /-- the same positions -/
  positions : ∀ p, p < b.symbolsPerBlock →
    (isValid (b.symbols p) = true ↔ Bitset.test mask p = true)
  /-- the same number of them -/
  counts : fecCountValidSymbols b.symbols b.symbolsPerBlock = b.symbolCount
  /-- and no complaint about that number -/
  passes : fecCheckCounts ctx
    (fecCountValidSymbols b.symbols b.symbolsPerBlock) b.symbolsPerBlock = none

theorem toUInt64_ne_zero {b : UInt32} : b.toUInt64 ≠ 0 ↔ b ≠ 0 := by
  rw [ne_eq, ne_eq, ← UInt64.toNat_inj, ← UInt32.toNat_inj, UInt32.toNat_toUInt64]
  rfl

section Slot

variable {n k ss : Nat} {s : Slot} {seen : List Symbol}

/-- In a slot of a block other than block 0 the sentinel is the mask. -/
theorem valid_iff_test (h : Content n k ss s seen) (hb : s.blockId ≠ 0) {p : Nat}
    (hp : p < n) :
    isValid (s.block.symbols p) = true ↔ Bitset.test s.receivedMask p = true := by
  rw [isValid, bne_iff_ne]
  cases ht : Bitset.test s.receivedMask p with
  | false =>
      rw [h.hole p hp ht]
      simp
  | true =>
      obtain ⟨first, -, hid, -, hclip⟩ := h.stored p hp ht
      have heq : (s.block.symbols p).packetId = first.packetId :=
        (header_eq_of_clip ss hclip).1
      rw [heq, hid]
      exact iff_of_true hb rfl

/-- The decoder counts what the slot counts. -/
theorem count_valid (h : Content n k ss s seen) (hb : s.blockId ≠ 0) :
    fecCountValidSymbols s.block.symbols n = s.validSymbols := by
  rw [h.valid, fecCountValidSymbols, Bitset.count]
  apply List.countP_congr
  intro p hp
  exact valid_iff_test h hb (List.mem_range.mp hp)

/-- In a slot of block 0 every position is a hole to the decoder. -/
theorem not_valid_of_zero (h : Content n k ss s seen) (hb : s.blockId = 0) {p : Nat}
    (hp : p < n) : isValid (s.block.symbols p) = false := by
  have hz : (s.block.symbols p).packetId = 0 := by
    cases ht : Bitset.test s.receivedMask p with
    | false => exact h.hole p hp ht
    | true =>
        obtain ⟨first, -, hid, -, hclip⟩ := h.stored p hp ht
        have heq : (s.block.symbols p).packetId = first.packetId :=
          (header_eq_of_clip ss hclip).1
        rw [heq, hid, hb]
  rw [isValid, hz]
  rfl

theorem count_valid_of_zero (h : Content n k ss s seen) (hb : s.blockId = 0) :
    fecCountValidSymbols s.block.symbols n = 0 := by
  rw [fecCountValidSymbols, List.countP_eq_zero]
  intro p hp
  rw [not_valid_of_zero h hb (List.mem_range.mp hp)]
  exact Bool.false_ne_true

end Slot

/-- **Agreement.**  In every reachable state, for the block that
    `get_ready_block` returns: mask and sentinel agree, the counts agree and
    the decoder's count checks pass, if and only if the block id is not 0. -/
theorem ready_agreement {maxA n k ss : Nat} {stab age : ℚ} {d0 : Deinterleaver}
    (hd : deinterleaverCreate maxA n k ss stab age = some d0) (ops : List Op)
    {i : Nat} {b : Block} (hi : findReady (run d0 ops) = some i)
    (hb : (deinterleaverGetReadyBlock (run d0 ops)).1 = some b) :
    Agrees ⟨k, ss⟩ ((run d0 ops).slots i).receivedMask b ↔ b.blockId ≠ 0 := by
  have h0 := poolInv_create hd
  have h := poolInv_run ops h0
  obtain ⟨-, hn, hk, -⟩ := run_sameSize ops d0 h0
  obtain ⟨hlt, hs⟩ := findReady_some hi
  have hne : ((run d0 ops).slots i).state ≠ .empty := by
    rw [hs]
    decide
  have hsl := h.slot i hlt hne
  have hc := hsl.content
  have hready := hsl.ready hs
  have hsource := h.params.source
  have hparams : d0.symbolsPerBlock = n ∧ d0.k = k := by
    rw [deinterleaverCreate] at hd
    split at hd
    · cases hd
    · rw [← Option.some.inj hd]
      exact ⟨rfl, rfl⟩
  have hblk : b = ((run d0 ops).slots i).block := by
    rw [getReady_eq h, hi] at hb
    exact (Option.some.inj hb).symm
  rw [hn, hparams.1] at hc
  rw [hk, hparams.2] at hready hsource
  rw [hblk, hc.blockId, toUInt64_ne_zero]
  constructor
  · intro hagree hz
    have hpass := fecCheckCounts_none.mp hagree.passes
    rw [hc.symbolsPerBlock, count_valid_of_zero hc hz] at hpass
    have hk0 : k ≤ 0 := hpass
    omega
  · intro hnz
    refine ⟨?_, ?_, ?_⟩
    · intro p hp
      rw [hc.symbolsPerBlock] at hp
      exact valid_iff_test hc hnz hp
    · rw [hc.symbolsPerBlock, count_valid hc hnz, hc.symbolCount]
    · rw [hc.symbolsPerBlock, count_valid hc hnz]
      exact fecCheckCounts_none.mpr hready

/-- The pool after two symbols of block `b`, positions 0 and 2 of 3. -/
def pairPool (b : UInt32) : Deinterleaver :=
  run ((deinterleaverCreate 4 3 2 1 0 0).get rfl)
    [.push (byteSymbol b 0 5) 10, .push (byteSymbol b 2 6) 20]

theorem ready_agreement_block7 :
    findReady (pairPool 7) = some 0 ∧
      Agrees ⟨2, 1⟩ ((pairPool 7).slots 0).receivedMask ((pairPool 7).slots 0).block := by
  have hi : findReady (pairPool 7) = some 0 := by decide +kernel
  refine ⟨hi, ?_⟩
  have hb : (deinterleaverGetReadyBlock (pairPool 7)).1
      = some ((pairPool 7).slots 0).block := by
    have hinv : PoolInv (pairPool 7) _ := poolInv_run
      [.push (byteSymbol 7 0 5) 10, .push (byteSymbol 7 2 6) 20]
      (poolInv_create create_small)
    rw [getReady_eq hinv, hi]
    rfl
  exact (ready_agreement create_small
    [.push (byteSymbol 7 0 5) 10, .push (byteSymbol 7 2 6) 20] hi hb).mpr
    (by decide +kernel)

/-- Two symbols of block 0 with a payload: the slot is READY and counts two,
    the decoder counts none and refuses the block. -/
theorem block0_disagrees :
    findReady (pairPool 0) = some 0 ∧
      ((pairPool 0).slots 0).block.symbolCount = 2 ∧
      fecCountValidSymbols ((pairPool 0).slots 0).block.symbols 3 = 0 ∧
      fecCheckCounts ⟨2, 1⟩ 0 3 = some fecDecodeErr ∧
      ¬ Agrees ⟨2, 1⟩ ((pairPool 0).slots 0).receivedMask
        ((pairPool 0).slots 0).block := by
  refine ⟨by decide +kernel, by decide +kernel, by decide +kernel, rfl, ?_⟩
  intro h
  have hp := h.passes
  have hne : fecCheckCounts ⟨2, 1⟩
      (fecCountValidSymbols ((pairPool 0).slots 0).block.symbols
        ((pairPool 0).slots 0).block.symbolsPerBlock)
      ((pairPool 0).slots 0).block.symbolsPerBlock ≠ none := by decide +kernel
  exact hne hp

end FecAgreement
