import FsoGateway.PacketFragmenter

/-! # The packet reassembler

    `reassemble_packet` copies each symbol to `symbol_index * base`, where
    `base` is the payload length of the first symbol that is not the last of
    its packet.  The header checks of its first loop stop at that symbol.

    `reassemblePacket_fragments` — the fragments of a packet, in order, give
    the packet back. -/

namespace PacketReassembler

open ByteBuffer FsoTypes PacketFragmenter

/-- The first `len` bytes of `src` over those of `dst` from `off` on. -/
def memcpyAt (dst : Buffer) (off : Nat) (src : Buffer) (len : Nat) : Buffer :=
  fun i => if off ≤ i ∧ i < off + len then src (i - off) else dst i

/-- The loop that infers `base_symbol_size`: nothing when a check fails, else
    the payload length of the first symbol that is not the last of its packet,
    if there is one. -/
def inferBase (packetId : UInt32) (expected : UInt16) :
    List Symbol → Option (Option UInt16)
  | [] => some none
  | s :: rest =>
      if expected ≤ s.symbolIndex then none
      else if s.packetId ≠ packetId then none
      else if s.totalSymbols ≠ expected then none
      else if s.symbolIndex.toNat ≠ expected.toNat - 1 then some (some s.payloadLen)
      else inferBase packetId expected rest

/-- The copy loop: the running length and the output buffer. -/
def copySymbols (base maxPacketSize : Nat) : List Symbol → Nat → Buffer → Int × Buffer
  | [], len, out => (len, out)
  | s :: rest, len, out =>
      let offset := s.symbolIndex.toNat * base
      let endOffset := offset + s.payloadLen.toNat
      if maxPacketSize < endOffset then (-1, out)
      else
        copySymbols base maxPacketSize rest (max len endOffset)
          (memcpyAt out offset s.data s.payloadLen.toNat)

/-- `reassemble_packet`: the length or `-1`, and the output buffer. -/
def reassemblePacket (inSymbols : List Symbol) (out : Buffer) (maxPacketSize : Nat) :
    Int × Buffer :=
  match inSymbols with
  | [] => (-1, out)
  | first :: rest =>
      if first.totalSymbols = 0 then (-1, out)
      else if (first :: rest).length ≠ first.totalSymbols.toNat then (-1, out)
      else
        match inferBase first.packetId first.totalSymbols (first :: rest) with
        | none => (-1, out)
        | some none =>
            if maxPacketSize < first.payloadLen.toNat then (-1, out)
            else
              (first.payloadLen.toNat, memcpy out first.data first.payloadLen.toNat)
        | some (some base) =>
            if base = 0 then (-1, out)
            else
              copySymbols base.toNat maxPacketSize (first :: rest) 0
                (memzero out maxPacketSize)

/-! ## Fragments -/

/-- `s` has the index and the payload of fragment `i` of the packet; the two
    ids and `total_symbols` are left open. -/
structure FragmentOf (ss : Nat) (pkt : List UInt8) (i : Nat) (s : Symbol) : Prop where
  index : s.symbolIndex.toNat = i
  len : s.payloadLen.toNat = fragmentLen pkt.length ss i
  data : ∀ o, o < fragmentLen pkt.length ss i → s.data o = pkt.getD (i * ss + o) 0

/-- The end of fragment `i`. -/
theorem fragmentEnd {len ss i : Nat} (hss : 0 < ss) (hi : i < fragmentCount len ss) :
    i * ss + fragmentLen len ss i = min len ((i + 1) * ss) := by
  have h := (fragmentCount_lt_iff hss).mp hi
  rw [fragmentLen, Nat.add_mul, Nat.one_mul]
  omega

/-- The fragments cover the packet. -/
theorem fragmentCount_mul_ge {len ss : Nat} (hss : 0 < ss) :
    len ≤ fragmentCount len ss * ss := by
  by_contra hlt
  exact Nat.lt_irrefl _ ((fragmentCount_lt_iff hss).mpr (Nat.lt_of_not_le hlt))

/-- The copy loop over the fragments from `i` on. -/
theorem copySymbols_fragments {ss maxSize : Nat} {pkt : List UInt8} (hss : 0 < ss)
    (hmax : pkt.length ≤ maxSize) (l : List Symbol) {i : Nat} {out : Buffer}
    (hl : i + l.length = fragmentCount pkt.length ss)
    (hf : ∀ j (h : j < l.length), FragmentOf ss pkt (i + j) l[j])
    (hout : ∀ o, o < min pkt.length (i * ss) → out o = pkt.getD o 0) :
    ∃ out', copySymbols ss maxSize l (min pkt.length (i * ss)) out
        = ((pkt.length : Int), out') ∧
      ∀ o, o < pkt.length → out' o = pkt.getD o 0 := by
  induction l generalizing i out with
  | nil =>
      have hge : pkt.length ≤ fragmentCount pkt.length ss * ss := fragmentCount_mul_ge hss
      rw [← hl] at hge
      have hmin : min pkt.length (i * ss) = pkt.length := Nat.min_eq_left hge
      rw [hmin] at hout ⊢
      exact ⟨out, rfl, hout⟩
  | cons s l ih =>
      rw [List.length_cons] at hl
      have hs : FragmentOf ss pkt i s := hf 0 (Nat.succ_pos _)
      have hi : i < fragmentCount pkt.length ss := by omega
      have hend := fragmentEnd hss hi
      have hlt := (fragmentCount_lt_iff hss).mp hi
      rw [copySymbols]
      simp only [hs.index, hs.len, hend]
      rw [if_neg (by omega)]
      have hlen : max (min pkt.length (i * ss)) (min pkt.length ((i + 1) * ss))
          = min pkt.length ((i + 1) * ss) := by
        rw [Nat.add_mul, Nat.one_mul]
        omega
      rw [hlen]
      refine ih (by omega) ?_ ?_
      · intro j hj
        have h1 := hf (j + 1) (Nat.succ_lt_succ hj)
        rw [Nat.add_assoc, Nat.add_comm 1 j]
        exact h1
      · intro o ho
        rw [memcpyAt, hend]
        by_cases hlow : o < i * ss
        · rw [if_neg (by omega)]
          exact hout o (by omega)
        · rw [if_pos (by omega), hs.data (o - i * ss) (by omega)]
          rw [show i * ss + (o - i * ss) = o by omega]

/-- **Reassembly** of the fragments of a packet, in order; of their
    `total_symbols` only the first one's counts. -/
theorem reassemblePacket_fragments {ss maxSize : Nat} {pkt : List UInt8} (hss : 0 < ss)
    (hpos : 0 < pkt.length) (hmax : pkt.length ≤ maxSize) (l : List Symbol)
    (hl : l.length = fragmentCount pkt.length ss)
    (ht : ∀ s ∈ l.head?, s.totalSymbols.toNat = fragmentCount pkt.length ss)
    (hf : ∀ i (h : i < l.length), FragmentOf ss pkt i l[i]) (out : Buffer) :
    ∃ out', reassemblePacket l out maxSize = ((pkt.length : Int), out') ∧
      bytes out' pkt.length = pkt := by
  have hcount : 0 < fragmentCount pkt.length ss :=
    (fragmentCount_lt_iff hss).mpr (by rw [Nat.zero_mul]; exact hpos)
  have hread : ∀ {out' : Buffer}, (∀ o, o < pkt.length → out' o = pkt.getD o 0) →
      bytes out' pkt.length = pkt := by
    intro out' h
    have h1 : bytes out' pkt.length = bytes (ofList pkt) pkt.length := bytes_congr h
    rw [h1, bytes_ofList]
  cases l with
  | nil =>
      rw [List.length_nil] at hl
      omega
  | cons first rest =>
      have h0 : FragmentOf ss pkt 0 first := hf 0 (Nat.succ_pos _)
      have h0t := ht first rfl
      have htot : first.totalSymbols ≠ 0 := by
        intro hz
        rw [hz] at h0t
        exact absurd h0t (by show 0 ≠ _; omega)
      have hidx : ¬ first.totalSymbols ≤ first.symbolIndex := by
        rw [UInt16.le_iff_toNat_le, h0.index, h0t]
        omega
      rw [reassemblePacket, if_neg htot, if_neg (by rw [hl, h0t]; exact not_not_intro rfl),
        inferBase, if_neg hidx, if_neg (not_not_intro rfl), if_neg (not_not_intro rfl)]
      by_cases hone : fragmentCount pkt.length ss = 1
      · -- a single fragment: its payload is the packet
        have hrest : rest = [] := by
          rw [List.length_cons, hone] at hl
          exact List.length_eq_zero_iff.mp (by omega)
        have hlen : first.payloadLen.toNat = pkt.length := by
          have hge : pkt.length ≤ fragmentCount pkt.length ss * ss :=
            fragmentCount_mul_ge hss
          rw [hone, Nat.one_mul] at hge
          rw [h0.len, fragmentLen]
          omega
        rw [if_neg (by rw [h0.index, h0t, hone]; exact not_not_intro rfl), hrest,
          inferBase]
        simp only [hlen]
        rw [if_neg (by omega)]
        refine ⟨_, rfl, hread ?_⟩
        intro o ho
        have hd := h0.data o (by rw [← h0.len, hlen]; exact ho)
        rw [Nat.zero_mul, Nat.zero_add] at hd
        rw [memcpy, if_pos ho, hd]
      · -- several: the first one is full, and gives the stride
        have hbase : first.payloadLen.toNat = ss := by
          rw [h0.len]
          exact fragmentLen_full hss (by omega)
        rw [if_pos (by rw [h0.index, h0t]; omega)]
        have hb0 : first.payloadLen ≠ 0 := by
          intro hz
          rw [hz] at hbase
          exact absurd hbase (by show 0 ≠ ss; omega)
        simp only [if_neg hb0, hbase]
        obtain ⟨out', h1, h2⟩ := copySymbols_fragments hss hmax (first :: rest) (i := 0)
          (by rw [Nat.zero_add]; exact hl)
          (fun j hj => by rw [Nat.zero_add]; exact hf j hj)
          (fun o ho => absurd ho (by rw [Nat.zero_mul, Nat.min_zero]; exact Nat.not_lt_zero o))
        rw [Nat.zero_mul, Nat.min_zero] at h1
        exact ⟨out', h1, hread h2⟩

/-- A packet is only given back for as many symbols as the first one announces. -/
theorem reassemblePacket_count {l : List Symbol} {out : Buffer} {maxSize : Nat}
    (h : 0 < (reassemblePacket l out maxSize).1) :
    ∃ first rest, l = first :: rest ∧ l.length = first.totalSymbols.toNat := by
  cases l with
  | nil => exact absurd h (show ¬ (0 : Int) < -1 by decide)
  | cons first rest =>
      refine ⟨first, rest, rfl, ?_⟩
      by_contra hne
      rw [reassemblePacket, if_pos hne, ite_self] at h
      exact absurd h (show ¬ (0 : Int) < -1 by decide)

/-! ## What a reassembled packet depends on -/

end PacketReassembler
