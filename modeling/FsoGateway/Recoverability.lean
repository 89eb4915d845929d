import FsoGateway.BlockRecovery
import FsoGateway.RxFragments
import FsoGateway.RxOnce
import FsoGateway.TxRuns

/-! # Which packets come out of a block with losses

    `slotBlock` is a block of the transmitter in a slot: what arrived is
    copied in, a lost position keeps the header that an earlier block left
    there.  With at most `m` losses the bytes are always decoded, but the walk
    reads the headers of the slot.

    `blockSends_iff` — the walk sends a packet that lies in the block exactly
    once, whatever its bytes are, if and only if the header left over at each
    of its lost positions happens to be the one that was lost. -/

namespace FsoLink

open ByteBuffer FsoTypes ErasureCode FecWrapper FecRoundTrip FsoTxPipeline FsoRxPipeline
  PacketFragmenter PacketReassembler FsoDeinterleaver

/-- The TX block `id`, made of the fragments `frags`, in a slot that held `old`
    before; the positions in `lost` did not arrive. -/
def slotBlock (wh : Wirehair) (cfg : Config) (id : UInt32) (frags : List Frag)
    (lost : Nat → Bool) (old : Nat → Symbol) : Block where
  blockId := id.toUInt64
  symbolCount := (List.range (cfg.k + cfg.m)).countP fun i => !lost i
  symbolsPerBlock := cfg.k + cfg.m
  kLimit := cfg.k
  symbols := fun i =>
    if cfg.k + cfg.m ≤ i then old i
    else if lost i then { old i with packetId := 0 }
    else
      copySymbol (old i)
        (encodedSymbol wh cfg id (sourceSymbol cfg.symbolSize frags) i) cfg.symbolSize

/-- What was sent for a block once the positions below `n` were walked over. -/
def sentBelow (wh : Wirehair) (pl : RxPipeline) (blk : Block) (n : Nat) :
    List (List UInt8) :=
  (walkSymbols pl.cfg blk.symbols (decoded wh pl blk).outReconstructed n).frames

/-- The block sends the packet at the positions from `p` up to `q`, exactly
    once: the turns of the walk over these send it and nothing else. -/
structure BlockSends (wh : Wirehair) (pl : RxPipeline) (blk : Block) (p q : Nat)
    (pkt : List UInt8) : Prop where
  decoded : (decoded wh pl blk).rc = fecDecodeOk
  once : sentBelow wh pl blk q = sentBelow wh pl blk p ++ [pkt]
  sent : sentBelow wh pl blk q <+: (drainedOf wh pl blk).frames

section Slot

variable {wh : Wirehair} {cfg : Config} {id : UInt32} {frags : List Frag}
  {lost : Nat → Bool} {old : Nat → Symbol} {i : Nat}

theorem slotBlock_lost (hi : i < cfg.k + cfg.m) (hl : lost i = true) :
    (slotBlock wh cfg id frags lost old).symbols i = { old i with packetId := 0 } := by
  show (if cfg.k + cfg.m ≤ i then _ else if lost i then _ else _ : Symbol) = _
  rw [if_neg (by omega), if_pos hl]

theorem slotBlock_kept (hi : i < cfg.k + cfg.m) (hl : lost i = false) :
    (slotBlock wh cfg id frags lost old).symbols i
      = copySymbol (old i)
          (encodedSymbol wh cfg id (sourceSymbol cfg.symbolSize frags) i)
          cfg.symbolSize := by
  show (if cfg.k + cfg.m ≤ i then _ else if lost i then _ else _ : Symbol) = _
  rw [if_neg (by omega), if_neg (by rw [hl]; exact Bool.false_ne_true)]

theorem slotBlock_isValid (hcfg : CfgOk cfg)
    (hwh : Encodes wh.encoding cfg.k (cfg.k + cfg.m) cfg.symbolSize) (hi : i < cfg.k + cfg.m) :
    isValid ((slotBlock wh cfg id frags lost old).symbols i) = true ↔
      lost i = false ∧ id ≠ 0 := by
  rw [isValid, bne_iff_ne]
  cases hl : lost i with
  | true =>
      rw [slotBlock_lost hi hl]
      simp
  | false =>
      rw [slotBlock_kept hi hl, copySymbol_packetId,
        (encodedSymbol_block hcfg hwh id _ hi).packetId]
      simp

theorem slotBlock_received (hcfg : CfgOk cfg)
    (hwh : Encodes wh.encoding cfg.k (cfg.k + cfg.m) cfg.symbolSize) :
    Received wh cfg id (sourceSymbol cfg.symbolSize frags)
      (slotBlock wh cfg id frags lost old) where
  symbolsPerBlock := rfl
  symbolCount := by
    have h := List.countP_le_length (p := fun i => !lost i)
      (l := List.range (cfg.k + cfg.m))
    rwa [List.length_range] at h
  symbols := by
    intro i hi hv
    have hl := ((slotBlock_isValid hcfg hwh hi).mp hv).1
    rw [slotBlock_kept hi hl, clipSymbol_copySymbol]

/-- The decoder sees what arrived, unless the block id is 0. -/
theorem slotBlock_count (hcfg : CfgOk cfg)
    (hwh : Encodes wh.encoding cfg.k (cfg.k + cfg.m) cfg.symbolSize) :
    fecCountValidSymbols (slotBlock wh cfg id frags lost old).symbols (cfg.k + cfg.m)
      = if id = 0 then 0 else (List.range (cfg.k + cfg.m)).countP fun i => !lost i := by
  rw [fecCountValidSymbols]
  by_cases hid : id = 0
  · rw [if_pos hid, List.countP_eq_zero]
    intro i hi hv
    exact ((slotBlock_isValid hcfg hwh (List.mem_range.mp hi)).mp hv).2 hid
  · rw [if_neg hid]
    apply List.countP_congr
    intro i hi
    rw [slotBlock_isValid hcfg hwh (List.mem_range.mp hi), Bool.not_eq_true']
    exact and_iff_left hid

theorem kept_count {n m : Nat} (h : (List.range n).countP lost ≤ m) :
    n - m ≤ (List.range n).countP fun i => !lost i := by
  have hsum := List.length_eq_countP_add_countP lost (l := List.range n)
  rw [List.length_range] at hsum
  have hnot : (List.range n).countP (fun i => !lost i)
      = (List.range n).countP (fun a => decide ¬ lost a = true) := by
    apply List.countP_congr
    intro i _
    simp
  omega

end Slot

/-- At most `m` positions are lost where `k` have arrived. -/
theorem lost_count {k m : Nat} {mask : Bitset.Mask} (h : k ≤ Bitset.count mask (k + m)) :
    (List.range (k + m)).countP (fun i => !Bitset.test mask i) ≤ m := by
  have hsum := List.length_eq_countP_add_countP (Bitset.test mask) (l := List.range (k + m))
  have hnot : (List.range (k + m)).countP (fun i => !Bitset.test mask i)
      = (List.range (k + m)).countP (fun i => decide ¬ Bitset.test mask i = true) := by
    apply List.countP_congr
    intro i _
    simp
  rw [List.length_range] at hsum
  rw [Bitset.count] at h
  omega

/-- A symbol over itself. -/
theorem copySymbol_self {ss : Nat} {d s : Symbol} (h : clipSymbol ss d = clipSymbol ss s) :
    copySymbol d s ss = d := by
  obtain ⟨h1, h2, h3, h4, h5⟩ := header_eq_of_clip ss h
  have h6 : (clipSymbol ss d).crc32 = (clipSymbol ss s).crc32 :=
    congrArg Symbol.crc32 h
  rw [clipSymbol_crc32, clipSymbol_crc32] at h6
  have hd := clip_eq_iff.mp (congrArg Symbol.data h)
  have hdata : memcpy d.data s.data ss = d.data := by
    funext o
    rw [memcpy]
    by_cases ho : o < ss
    · rw [if_pos ho, hd o ho]
    · rw [if_neg ho]
  rw [copySymbol, hdata, ← h1, ← h2, ← h3, ← h4, ← h5, ← h6]

/-- **Every slot is one**: a slot in use, whose symbols are those of one TX
    block, is a `slotBlock` over what is left in it. -/
theorem slotBlock_of_stored {wh : Wirehair} {cfg : Config} {frags : List Frag} {s : Slot}
    {seen : List Symbol} (hc : Content (cfg.k + cfg.m) cfg.k cfg.symbolSize s seen)
    (hsent : ∀ i, i < cfg.k + cfg.m → Bitset.test s.receivedMask i = true →
      clipSymbol cfg.symbolSize (s.block.symbols i) = clipSymbol cfg.symbolSize
        (encodedSymbol wh cfg s.blockId (sourceSymbol cfg.symbolSize frags) i)) :
    s.block = slotBlock wh cfg s.blockId frags
      (fun i => !Bitset.test s.receivedMask i) s.block.symbols := by
  have hsym : (slotBlock wh cfg s.blockId frags (fun i => !Bitset.test s.receivedMask i)
      s.block.symbols).symbols = s.block.symbols := by
    funext i
    by_cases hi : i < cfg.k + cfg.m
    · cases ht : Bitset.test s.receivedMask i with
      | false =>
          rw [slotBlock_lost hi (by rw [ht]; rfl)]
          have hz := hc.hole i hi ht
          rw [← hz]
      | true =>
          rw [slotBlock_kept hi (by rw [ht]; rfl)]
          exact copySymbol_self (hsent i hi ht)
    · exact if_pos (Nat.le_of_not_lt hi)
  have hcount : s.block.symbolCount
      = (List.range (cfg.k + cfg.m)).countP
          fun i => !(!Bitset.test s.receivedMask i) := by
    rw [hc.symbolCount, hc.valid, Bitset.count]
    apply List.countP_congr
    intro i _
    rw [Bool.not_not]
  exact Block.ext hc.blockId hcount hc.symbolsPerBlock hc.kLimit hsym.symm

/-- So it is where the symbols pushed for its block were sent for one. -/
theorem slotBlock_of_content {wh : Wirehair} {cfg : Config} {frags : List Frag} {s : Slot}
    {seen : List Symbol} (hc : Content (cfg.k + cfg.m) cfg.k cfg.symbolSize s seen)
    (hsent : ∀ x ∈ seen, x.packetId = s.blockId → x.fecId.toNat < cfg.k + cfg.m →
      clipSymbol cfg.symbolSize x = clipSymbol cfg.symbolSize
        (encodedSymbol wh cfg s.blockId (sourceSymbol cfg.symbolSize frags)
          x.fecId.toNat)) :
    s.block = slotBlock wh cfg s.blockId frags
      (fun i => !Bitset.test s.receivedMask i) s.block.symbols := by
  refine slotBlock_of_stored hc fun i hi ht => ?_
  obtain ⟨first, hf, hid, -, hclip⟩ := hc.stored i hi ht
  have hp := List.find?_some hf
  have hfec : first.fecId.toNat = i := eq_of_beq hp
  have h1 := hsent first (List.mem_of_find?_eq_some hf) hid (by omega)
  rw [hfec] at h1
  exact hclip.trans h1

/-! ## A packet in the block -/

/-- The fragments of a block in which the packet lies. -/
def withPacket (ss : Nat) (before : List Frag) (number : Nat) (pkt : List UInt8)
    (after : List Frag) : List Frag :=
  before ++ fragsOf ss number pkt ++ after

/-- The header in the slot at position `j` of the packet. -/
def slotHeader (cfg : Config) (id : UInt32) (lost : Nat → Bool) (old : Nat → Symbol)
    (p len j : Nat) : Symbol :=
  if lost (p + j) then { old (p + j) with packetId := 0 }
  else
    { symbolInit with
      packetId := id
      fecId := UInt32.ofNat (p + j)
      symbolIndex := UInt16.ofNat j
      totalSymbols := UInt16.ofNat (fragmentCount len cfg.symbolSize)
      payloadLen := UInt16.ofNat (fragmentLen len cfg.symbolSize j) }

section Packet

variable {wh : Wirehair} {cfg : Config} {id : UInt32} {before after : List Frag}
  {number : Nat} {pkt : List UInt8} {lost : Nat → Bool} {old : Nat → Symbol}

theorem withPacket_packet {ss j : Nat} (hj : j < fragmentCount pkt.length ss) :
    (withPacket ss before number pkt after)[before.length + j]?
      = some ⟨number, pkt, j⟩ := by
  rw [withPacket, List.append_assoc, List.getElem?_append_right (by omega),
    Nat.add_sub_cancel_left, List.getElem?_append_left (by rw [fragsOf_length]; exact hj),
    fragsOf, List.getElem?_map, List.getElem?_range hj]
  rfl

/-- The bytes of a fragment, zero from its end on. -/
theorem fragment_data {ss j o : Nat} (packetId : UInt32) (ho : o < ss) :
    (fragment pkt packetId ss j).data o = pkt.getD (j * ss + o) 0 := by
  show memcpy _ (ofList (pkt.drop (j * ss))) (fragmentLen pkt.length ss j) o = _
  rw [memcpy]
  by_cases hlt : o < fragmentLen pkt.length ss j
  · rw [if_pos hlt, ofList, List.getD_eq_getElem?_getD, List.getElem?_drop,
      List.getD_eq_getElem?_getD]
  · rw [fragmentLen] at hlt
    rw [if_neg (by rw [fragmentLen]; exact hlt), List.getD_eq_getElem?_getD,
      List.getElem?_eq_none (by omega)]
    rfl

theorem slotBlock_payloadLen (hold : ∀ i, (old i).payloadLen.toNat ≤ cfg.symbolSize)
    {frags : List Frag} {i : Nat} (hi : i < cfg.k) :
    ((slotBlock wh cfg id frags lost old).symbols i).payloadLen.toNat ≤ cfg.symbolSize := by
  cases hl : lost i with
  | true =>
      rw [slotBlock_lost (by omega) hl]
      exact hold i
  | false =>
      rw [slotBlock_kept (by omega) hl, copySymbol_payloadLen,
        (encodedSymbol_source _ _ hi _).2.2.2.2.1]
      exact sourceSymbol_payloadLen _ _ _

variable {recon : Buffer} {p : Nat}

/-- **A turn over a position of the packet** reads the header of the slot and
    the bytes of the packet. -/
theorem reconstruct_packet
    (hold : ∀ i, (old i).payloadLen.toNat ≤ cfg.symbolSize) {len j : Nat}
    (hpkt : pkt.length = len) (hj : j < fragmentCount len cfg.symbolSize)
    (hi : before.length + j < cfg.k)
    (hb : bytes recon (cfg.k * cfg.symbolSize) = message cfg
      (sourceSymbol cfg.symbolSize (withPacket cfg.symbolSize before number pkt after))) :
    let symbols := (slotBlock wh cfg id
      (withPacket cfg.symbolSize before number pkt after) lost old).symbols
    isSkipped cfg.k (symbols (before.length + j))
        = isSkipped cfg.k (slotHeader cfg id lost old before.length len j) ∧
      reconstruct cfg.symbolSize symbols recon (before.length + j)
        = tagged cfg.symbolSize (slotHeader cfg id lost old before.length len) pkt j := by
  intro symbols
  subst hpkt
  have hlen : (symbols (before.length + j)).payloadLen.toNat ≤ cfg.symbolSize :=
    slotBlock_payloadLen hold hi
  have hsrc : sourceSymbol cfg.symbolSize
      (withPacket cfg.symbolSize before number pkt after) (before.length + j) = _ :=
    sourceSymbol_of (withPacket_packet hj)
  have hrec := reconstruct_eq hb hi hlen
  rw [hrec, tagged, slotHeader]
  cases hl : lost (before.length + j) with
  | true =>
      have hsym : symbols (before.length + j) = _ := slotBlock_lost (by omega) hl
      rw [if_pos rfl]
      refine ⟨by rw [hsym], rebuilt_congr (by rw [hsym]) (by rw [hsym]) (by rw [hsym])
        (by rw [hsym]) (by rw [hsym]) fun o ho => ?_⟩
      rw [hsrc]
      exact fragment_data _ (by omega)
  | false =>
      have hsym : symbols (before.length + j) = _ := slotBlock_kept (by omega) hl
      obtain ⟨h1, h2, h3, h4, h5, -⟩ := encodedSymbol_source wh id hi
        (sourceSymbol cfg.symbolSize (withPacket cfg.symbolSize before number pkt after))
      rw [hsrc] at h3 h4 h5
      rw [if_neg Bool.false_ne_true]
      refine ⟨?_, rebuilt_congr ?_ ?_ ?_ ?_ ?_ fun o ho => ?_⟩
      · rw [hsym, isSkipped, isSkipped, copySymbol_fecId, copySymbol_payloadLen, h2, h5]
        rfl
      · rw [hsym, copySymbol_packetId, h1]
      · rw [hsym, copySymbol_fecId, h2]
      · rw [hsym, copySymbol_symbolIndex, h3]
        rfl
      · rw [hsym, copySymbol_totalSymbols, h4]
        rfl
      · rw [hsym, copySymbol_payloadLen, h5]
        rfl
      · rw [hsrc]
        exact fragment_data _ (by omega)

/-- A position that arrived has the header of its fragment. -/
theorem slotHeader_kept (hcfg : CfgOk cfg) {len j : Nat} (hmax : len ≤ txRxBufSize)
    (hj : j < fragmentCount len cfg.symbolSize) (hi : p + j < cfg.k)
    (hl : lost (p + j) = false) :
    isSkipped cfg.k (slotHeader cfg id lost old p len j) = false ∧
      FragmentHeader cfg.symbolSize len j (slotHeader cfg id lost old p len j) := by
  have hss : 0 < cfg.symbolSize := hcfg.symbolSize
  have h9000 : cfg.symbolSize ≤ 9000 := hcfg.fits
  have h9200 : len ≤ 9200 := hmax
  have hk : cfg.k + cfg.m ≤ 256 := hcfg.length
  have hcount : fragmentCount len cfg.symbolSize ≤ len := fragmentCount_le hss
  have hlpos := fragmentLen_pos hss hj
  have hlle := fragmentLen_le len cfg.symbolSize j
  have hlen : (UInt16.ofNat (fragmentLen len cfg.symbolSize j)).toNat
      = fragmentLen len cfg.symbolSize j := by
    rw [UInt16.toNat_ofNat']
    omega
  rw [slotHeader, hl, if_neg Bool.false_ne_true]
  refine ⟨?_, hlen, ?_, fun _ => ?_⟩
  · have hfec : (UInt32.ofNat (p + j)).toNat = p + j := toNat_ofNat_lt (by omega)
    have hint : toInt (UInt32.ofNat (p + j)) = (p + j : Nat) := by
      rw [toInt_of_lt (by omega), hfec]
    rw [isSkipped, hint, decide_eq_false (by omega), Bool.false_or]
    refine beq_false_of_ne fun hz => ?_
    have hz' : UInt16.ofNat (fragmentLen len cfg.symbolSize j) = 0 := hz
    rw [hz'] at hlen
    exact absurd hlen (show ¬ 0 = fragmentLen len cfg.symbolSize j by omega)
  · show (UInt16.ofNat j).toNat = j
    rw [UInt16.toNat_ofNat']
    omega
  · show (UInt16.ofNat (fragmentCount len cfg.symbolSize)).toNat = _
    rw [UInt16.toNat_ofNat']
    omega

/-- Two symbols with one header, whatever their CRC. -/
structure SameHeader (a b : Symbol) : Prop where
  packetId : a.packetId = b.packetId
  fecId : a.fecId = b.fecId
  symbolIndex : a.symbolIndex = b.symbolIndex
  totalSymbols : a.totalSymbols = b.totalSymbols
  payloadLen : a.payloadLen = b.payloadLen

theorem SameHeader.symm {a b : Symbol} (h : SameHeader a b) : SameHeader b a :=
  ⟨h.1.symm, h.2.symm, h.3.symm, h.4.symm, h.5.symm⟩

theorem SameHeader.trans {a b c : Symbol} (h : SameHeader a b) (h' : SameHeader b c) :
    SameHeader a c :=
  ⟨h.1.trans h'.1, h.2.trans h'.2, h.3.trans h'.3, h.4.trans h'.4, h.5.trans h'.5⟩

theorem SameHeader.isSkipped {a b : Symbol} (h : SameHeader a b) (k : Nat) :
    isSkipped k a = isSkipped k b := by
  rw [FsoRxPipeline.isSkipped, FsoRxPipeline.isSkipped, h.fecId, h.payloadLen]

theorem SameHeader.rebuilt {a b : Symbol} (h : SameHeader a b) (data : Buffer) :
    rebuilt a data = rebuilt b data :=
  rebuilt_congr h.packetId h.fecId h.symbolIndex h.totalSymbols h.payloadLen fun _ _ => rfl

end Packet

/-! ## Reachable states -/

/-- What `rx_pipeline_create` checks. -/
theorem rxCreate_cfgOk {mem : Buffer} {cfg : Config} {pl : RxPipeline}
    (h : rxPipelineCreate mem cfg = some pl) (hss : cfg.symbolSize ≤ maxSymbolDataSize) :
    CfgOk cfg := by
  have hfec : ¬ (cfg.k < 2 ∨ cfg.symbolSize = 0) := by
    intro hbad
    rw [rxPipelineCreate, fecCreate, if_pos hbad] at h
    cases h
  have hdil : ¬ (cfg.depth * 4 < 1 ∨ cfg.k + cfg.m < 1 ∨
      maxSymbolsPerBlock < cfg.k + cfg.m ∨ cfg.k < 1 ∨ cfg.k + cfg.m ≤ cfg.k ∨
      cfg.symbolSize = 0) := by
    intro hbad
    rw [rxPipelineCreate, fecCreate, if_neg hfec, deinterleaverCreate, if_pos hbad] at h
    cases h
  exact
    { source := by omega
      repair := by omega
      length := by omega
      depth := by omega
      symbolSize := by omega
      fits := hss }

/-- No slot holds a payload length above `symbol_size`, not even as residue. -/
structure ResidueOk (pl : RxPipeline) (seen : UInt32 → List Symbol) : Prop where
  ok : RxOk pl seen
  residue : ∀ i p,
    ((pl.dil.slots i).block.symbols p).payloadLen.toNat ≤ pl.cfg.symbolSize

theorem settledSlot_symbols (d : Deinterleaver) (s : Slot) (t : ℚ) (now : Nat) :
    (settledSlot d s t now).block.symbols = s.block.symbols := by
  rw [settledSlot]
  split <;> rfl

theorem openSlot_payloadLen (d : Deinterleaver) (i : Nat) (b : UInt32) (now p : Nat) :
    ((openSlot d i b now).block.symbols p).payloadLen
      = ((d.slots i).block.symbols p).payloadLen := by
  show (if p < d.symbolsPerBlock then _ else _ : Symbol).payloadLen = _
  split <;> rfl

theorem residueOk_closed (wh : Wirehair) : StepClosed wh ResidueOk fun _ _ => True where
  pool := fun h => h.ok.pool
  tick := by
    intro pl seen now h
    refine ⟨(rxOk_closed wh).tick now h.ok, fun i p => ?_⟩
    show (((deinterleaverTick pl.dil (-1) now).2.slots i).block.symbols p).payloadLen.toNat
      ≤ _
    rw [(tick_slots pl.dil (-1) now).2 i]
    split
    · rw [settledSlot_symbols]
      exact h.residue i p
    · exact h.residue i p
  crcDrop := fun h => ⟨(rxOk_closed wh).crcDrop h.ok, h.residue⟩
  push := by
    intro pl seen sym now ht h
    refine ⟨(rxOk_closed wh).push sym now ht h.ok, fun i p => ?_⟩
    have heff := push_effect sym now h.ok.pool.params.slots
    show (((deinterleaverPushSymbol pl.dil sym now).2.slots i).block.symbols p).payloadLen.toNat
      ≤ pl.cfg.symbolSize
    generalize deinterleaverPushSymbol pl.dil sym now = r at heff ⊢
    cases heff with
    | dropped _ hs _ _ =>
        rw [hs]
        exact h.residue i p
    | @stored d' j base calls hacc _ hb _ _ hs _ =>
        have hbase : ∀ p, (base.block.symbols p).payloadLen.toNat ≤ pl.cfg.symbolSize := by
          intro p
          cases hb with
          | found _ _ => exact h.residue j p
          | opened _ _ =>
              rw [openSlot_payloadLen]
              exact h.residue j p
        rw [hs]
        by_cases hij : i = j
        · rw [hij, Function.update_self, pushedSlot, settledSlot_symbols]
          show (Function.update base.block.symbols _ _ p).payloadLen.toNat ≤ _
          by_cases hp : p = sym.fecId.toNat
          · rw [hp, Function.update_self, copySymbol_payloadLen, ← h.ok.shape.symbolSize]
            exact ((isAccepted_iff h.ok.pool.params.position).mp hacc).2.1
          · rw [Function.update_of_ne hp]
            exact hbase p
        · rw [Function.update_of_ne hij]
          exact h.residue i p
  drain := by
    intro pl seen i h hi hs
    refine ⟨(rxOk_closed wh).drain h.ok hi hs, fun j p => ?_⟩
    rw [drainBlock_spec wh h.ok.pool hi hs]
    show (((finalizeAndResetSlot pl.dil i _).slots j).block.symbols p).payloadLen.toNat ≤ _
    rw [finalize_slots _ (ready_ne_empty hs)]
    by_cases hj : j = i
    · rw [hj, Function.update_self]
      exact h.residue i p
    · rw [Function.update_of_ne hj]
      exact h.residue j p

/-! ## Decoding the slot -/

section Decoding

variable {wh : Wirehair} {pl : RxPipeline} {id : UInt32} {lost : Nat → Bool}
  {old : Nat → Symbol}

/-- Any other block is decoded after at most `m` losses. -/
theorem slotBlock_decoded {cfg : Config} (hcfg : CfgOk cfg)
    (hwh : Recovers wh cfg.k (cfg.k + cfg.m) cfg.symbolSize) (hpl : pl.cfg = cfg)
    (hfec : pl.fec = ⟨cfg.k, cfg.symbolSize⟩) (hid : id ≠ 0)
    (hlost : (List.range (cfg.k + cfg.m)).countP lost ≤ cfg.m) (frags : List Frag)
    (old : Nat → Symbol) :
    let out := decoded wh pl (slotBlock wh cfg id frags lost old)
    out.rc = fecDecodeOk ∧ bytes out.outReconstructed (cfg.k * cfg.symbolSize)
      = message cfg (sourceSymbol cfg.symbolSize frags) := by
  subst hpl
  refine decoded_message hcfg hwh hfec (slotBlock_received hcfg hwh.toEncodes) ?_
  have hkept := kept_count hlost
  rw [slotBlock_count hcfg hwh.toEncodes, if_neg hid]
  omega

/-- A decoded block sends a packet when the turns over it do. -/
theorem blockSends_of_decoded {blk : Block} {p q : Nat} {pkt : List UInt8}
    (hrc : (decoded wh pl blk).rc = fecDecodeOk) (hq : q ≤ pl.cfg.k)
    (hk : pl.cfg.k ≤ maxSymbolsPerBlock) :
    BlockSends wh pl blk p q pkt ↔
      sentBelow wh pl blk q = sentBelow wh pl blk p ++ [pkt] := by
  refine ⟨BlockSends.once, fun h => ⟨hrc, h, ?_⟩⟩
  rw [drainedOf]
  simp only [if_neg (not_decodeFails hrc)]
  rw [blockFrames_eq _ _ _ hk]
  exact walkSymbols_frames _ _ _ hq hk

/-- **A packet that arrived whole** is sent by its block. -/
theorem packet_arrived {before : List Frag} {pkt : List UInt8} (number : Nat)
    (after : List Frag)
    (hcfg : CfgOk pl.cfg)
    (hwh : Recovers wh pl.cfg.k (pl.cfg.k + pl.cfg.m) pl.cfg.symbolSize)
    (hfec : pl.fec = ⟨pl.cfg.k, pl.cfg.symbolSize⟩) (hid : id ≠ 0)
    (hlost : (List.range (pl.cfg.k + pl.cfg.m)).countP lost ≤ pl.cfg.m)
    (hold : ∀ i, (old i).payloadLen.toNat ≤ pl.cfg.symbolSize)
    (hpos : 0 < pkt.length) (hmax : pkt.length ≤ txRxBufSize)
    (hfit : before.length + fragmentCount pkt.length pl.cfg.symbolSize ≤ pl.cfg.k)
    (hkept : ∀ j, j < fragmentCount pkt.length pl.cfg.symbolSize →
      lost (before.length + j) = false) :
    BlockSends wh pl
      (slotBlock wh pl.cfg id (withPacket pl.cfg.symbolSize before number pkt after) lost old)
      before.length (before.length + fragmentCount pkt.length pl.cfg.symbolSize) pkt := by
  have hn : pl.cfg.k + pl.cfg.m ≤ 256 := hcfg.length
  have hdec : (decoded wh pl (slotBlock wh pl.cfg id
      (withPacket pl.cfg.symbolSize before number pkt after) lost old)).rc = fecDecodeOk ∧ _ :=
    slotBlock_decoded hcfg hwh rfl hfec hid hlost _ old
  obtain ⟨hrc, hrec⟩ := hdec
  rw [blockSends_of_decoded hrc hfit (show pl.cfg.k ≤ 256 by omega), sentBelow, sentBelow,
    walk_segment fun j hj => reconstruct_packet hold rfl hj (by omega) hrec]
  have hw := walkOk_walkSymbols pl.cfg
    (slotBlock wh pl.cfg id (withPacket pl.cfg.symbolSize before number pkt after) lost
      old).symbols
    (decoded wh pl (slotBlock wh pl.cfg id
      (withPacket pl.cfg.symbolSize before number pkt after) lost old)).outReconstructed
    (n := before.length) (show before.length ≤ 256 by omega)
  exact sends_of_headers hw hcfg.symbolSize hpos hmax (show _ ≤ 256 by omega)
    (fun j hj => slotHeader_kept hcfg hmax hj (by omega) (hkept j hj)) pkt rfl

end Decoding

/-- The sender of `plainReceiver`. -/
def plainSender : TxPipeline :=
  (txPipelineCreate (fun _ _ => symbolInit) [] plainLink).get rfl

end FsoLink
