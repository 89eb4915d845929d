import FsoGateway.PacketReassembler

/-! # Reassembly in any order

    The copy loop puts each payload at `symbol_index * base`, in whatever order
    the symbols come.

    * `copySymbols_fits`, `copySymbols_overflow`, `copySymbols_at` — what the
      copy loop returns, and each byte of what it writes;
    * `reassemblePacket_perm` — the fragments of a packet, in any order, give
      the packet back. -/

namespace Reassembly

open ByteBuffer FsoTypes PacketFragmenter PacketReassembler

/-! ## The two loops -/

/-- Where the copy loop puts a symbol: up to here. -/
def endOf (base : Nat) (s : Symbol) : Nat :=
  s.symbolIndex.toNat * base + s.payloadLen.toNat

theorem copySymbols_cons (base maxSize : Nat) (s : Symbol) (l : List Symbol) (len : Nat)
    (out : Buffer) :
    copySymbols base maxSize (s :: l) len out
      = if maxSize < endOf base s then (-1, out)
        else copySymbols base maxSize l (max len (endOf base s))
          (memcpyAt out (s.symbolIndex.toNat * base) s.data s.payloadLen.toNat) := rfl

/-- The check loop over symbols whose headers are in order. -/
theorem inferBase_ok {packetId : UInt32} {expected : UInt16} {l : List Symbol}
    (h : ∀ s ∈ l, s.symbolIndex < expected ∧ s.packetId = packetId ∧ s.totalSymbols = expected) :
    (inferBase packetId expected l = some none
        ∧ ∀ s ∈ l, s.symbolIndex.toNat = expected.toNat - 1)
      ∨ ∃ s ∈ l, s.symbolIndex.toNat ≠ expected.toNat - 1
          ∧ inferBase packetId expected l = some (some s.payloadLen) := by
  induction l with
  | nil => exact .inl ⟨rfl, fun s hs => nomatch hs⟩
  | cons s l ih =>
      obtain ⟨h1, h2, h3⟩ := h s List.mem_cons_self
      rw [inferBase, if_neg (UInt16.not_le.mpr h1), if_neg (not_not_intro h2),
        if_neg (not_not_intro h3)]
      by_cases hlast : s.symbolIndex.toNat = expected.toNat - 1
      · rw [if_neg (not_not_intro hlast)]
        rcases ih (fun x hx => h x (List.mem_cons_of_mem s hx)) with ⟨hn, hall⟩ | ⟨x, hx, hrest⟩
        · refine .inl ⟨hn, ?_⟩
          intro x hx
          rcases List.mem_cons.mp hx with rfl | hx
          · exact hlast
          · exact hall x hx
        · exact .inr ⟨x, List.mem_cons_of_mem s hx, hrest⟩
      · rw [if_pos hlast]
        exact .inr ⟨s, List.mem_cons_self, hlast, rfl⟩

/-- The copy loop when everything fits: the length is the furthest end. -/
theorem copySymbols_fits {base maxSize : Nat} (l : List Symbol) (len : Nat) (out : Buffer)
    (h : ∀ s ∈ l, endOf base s ≤ maxSize) :
    ∃ n : Nat, (copySymbols base maxSize l len out).1 = (n : Int) ∧ len ≤ n
      ∧ (∀ s ∈ l, endOf base s ≤ n) ∧ (n = len ∨ ∃ s ∈ l, n = endOf base s) := by
  induction l generalizing len out with
  | nil => exact ⟨len, rfl, Nat.le_refl len, fun s hs => (nomatch hs), .inl rfl⟩
  | cons s l ih =>
      have hs : endOf base s ≤ maxSize := h s List.mem_cons_self
      rw [copySymbols_cons, if_neg (Nat.not_lt.mpr hs)]
      obtain ⟨n, h1, h2, h3, h4⟩ := ih (max len (endOf base s))
        (memcpyAt out (s.symbolIndex.toNat * base) s.data s.payloadLen.toNat)
        (fun x hx => h x (List.mem_cons_of_mem s hx))
      refine ⟨n, h1, by omega, ?_, ?_⟩
      · intro x hx
        rcases List.mem_cons.mp hx with rfl | hx
        · omega
        · exact h3 x hx
      · rcases h4 with h4 | ⟨x, hx, h4⟩
        · rcases Nat.le_total len (endOf base s) with hle | hle
          · exact .inr ⟨s, List.mem_cons_self, by omega⟩
          · exact .inl (by omega)
        · exact .inr ⟨x, List.mem_cons_of_mem s hx, h4⟩

theorem copySymbols_overflow {base maxSize : Nat} (l : List Symbol) (len : Nat) (out : Buffer)
    (h : ∃ s ∈ l, maxSize < endOf base s) : (copySymbols base maxSize l len out).1 = -1 := by
  induction l generalizing len out with
  | nil =>
      obtain ⟨s, hs, _⟩ := h
      cases hs
  | cons s l ih =>
      rw [copySymbols_cons]
      by_cases hbig : maxSize < endOf base s
      · rw [if_pos hbig]
      · rw [if_neg hbig]
        obtain ⟨x, hx, hxbig⟩ := h
        rcases List.mem_cons.mp hx with rfl | hx
        · exact absurd hxbig hbig
        · exact ih _ _ ⟨x, hx, hxbig⟩

/-- The copy loop never reports more than the buffer holds. -/
theorem copySymbols_le {base maxSize : Nat} (l : List Symbol) {len : Nat} (out : Buffer)
    (h : len ≤ maxSize) : (copySymbols base maxSize l len out).1 ≤ maxSize := by
  induction l generalizing len out with
  | nil =>
      show (len : Int) ≤ maxSize
      omega
  | cons s l ih =>
      rw [copySymbols_cons]
      by_cases hbig : maxSize < endOf base s
      · rw [if_pos hbig]
        show (-1 : Int) ≤ maxSize
        omega
      · rw [if_neg hbig]
        exact ih _ (by omega)

theorem reassemblePacket_le (l : List Symbol) (out : Buffer) (maxSize : Nat) :
    (reassemblePacket l out maxSize).1 ≤ maxSize := by
  have herr : (-1 : Int) ≤ maxSize := by omega
  cases l with
  | nil => exact herr
  | cons first rest =>
      rw [reassemblePacket]
      split
      · exact herr
      split
      · exact herr
      cases inferBase first.packetId first.totalSymbols (first :: rest) with
      | none => exact herr
      | some b =>
          cases b with
          | none =>
              show (if _ then _ else _ : Int × Buffer).1 ≤ _
              split
              · exact herr
              · show (first.payloadLen.toNat : Int) ≤ maxSize
                omega
          | some base =>
              show (if _ then _ else _ : Int × Buffer).1 ≤ _
              split
              · exact herr
              · exact copySymbols_le _ _ (Nat.zero_le _)

/-- **One byte of the output**: if every payload that reaches it has the value
    `v` there, and either there is one or the buffer has that value already,
    the output has it. -/
theorem copySymbols_at {base maxSize o : Nat} {v : UInt8} (l : List Symbol) (len : Nat)
    (out : Buffer) (hfit : ∀ s ∈ l, endOf base s ≤ maxSize)
    (hv : ∀ s ∈ l, s.symbolIndex.toNat * base ≤ o → o < endOf base s →
      s.data (o - s.symbolIndex.toNat * base) = v)
    (h : out o = v ∨ ∃ s ∈ l, s.symbolIndex.toNat * base ≤ o ∧ o < endOf base s) :
    (copySymbols base maxSize l len out).2 o = v := by
  induction l generalizing len out with
  | nil =>
      rcases h with h | ⟨s, hs, _⟩
      · exact h
      · cases hs
  | cons s l ih =>
      rw [copySymbols_cons, if_neg (Nat.not_lt.mpr (hfit s List.mem_cons_self))]
      refine ih _ _ (fun x hx => hfit x (List.mem_cons_of_mem s hx))
        (fun x hx => hv x (List.mem_cons_of_mem s hx)) ?_
      rw [memcpyAt]
      by_cases hin : s.symbolIndex.toNat * base ≤ o ∧ o < endOf base s
      · exact .inl ((if_pos hin).trans (hv s List.mem_cons_self hin.1 hin.2))
      · rcases h with h | ⟨x, hx, hcover⟩
        · exact .inl ((if_neg hin).trans h)
        · rcases List.mem_cons.mp hx with rfl | hx
          · exact absurd hcover hin
          · exact .inr ⟨x, hx, hcover⟩

/-! ## Fragments in any order -/

theorem fragment_of {pkt : List UInt8} {packetId : UInt32} {ss i : Nat}
    (hmax : ss ≤ maxSymbolDataSize) (hn : fragmentCount pkt.length ss ≤ 65535)
    (hi : i < fragmentCount pkt.length ss) :
    FragmentOf ss pkt i (fragment pkt packetId ss i)
      ∧ (fragment pkt packetId ss i).totalSymbols.toNat = fragmentCount pkt.length ss := by
  have hle := fragmentLen_le pkt.length ss i
  have h9000 : maxSymbolDataSize = 9000 := rfl
  refine ⟨⟨?_, ?_, ?_⟩, ?_⟩
  · show (UInt16.ofNat i).toNat = i
    rw [UInt16.toNat_ofNat']
    omega
  · show (UInt16.ofNat (fragmentLen pkt.length ss i)).toNat = _
    rw [UInt16.toNat_ofNat']
    omega
  · intro o ho
    show memcpy _ (ofList (pkt.drop (i * ss))) _ o = _
    rw [memcpy, if_pos ho, ofList_drop]
    rfl
  · show (UInt16.ofNat (fragmentCount pkt.length ss)).toNat = _
    rw [UInt16.toNat_ofNat']
    omega

/-- What a successful `fragment_packet` gives. -/
theorem fragmentPacket_ok {pkt : List UInt8} {packetId : UInt32}
    {symbolSize maxSymbols : UInt16} {outSymbols : Nat → Symbol}
    (hok : (fragmentPacket pkt packetId symbolSize outSymbols maxSymbols).1 ≠ -1) :
    0 < symbolSize.toNat ∧ symbolSize.toNat ≤ maxSymbolDataSize
      ∧ fragmentCount pkt.length symbolSize.toNat ≤ 65535
      ∧ (fragmentPacket pkt packetId symbolSize outSymbols maxSymbols).1
          = fragmentCount pkt.length symbolSize.toNat
      ∧ ∀ i < fragmentCount pkt.length symbolSize.toNat,
          (fragmentPacket pkt packetId symbolSize outSymbols maxSymbols).2 i
            = fragment pkt packetId symbolSize.toNat i := by
  have hss : 0 < symbolSize.toNat := by
    rw [Nat.pos_iff_ne_zero]
    intro hz
    have h0 : symbolSize = 0 := UInt16.toNat_inj.mp hz
    rw [fragmentPacket, if_pos h0] at hok
    exact hok rfl
  have hmax : symbolSize.toNat ≤ maxSymbolDataSize := by
    rw [← Nat.not_lt]
    intro hbig
    rw [fragmentPacket, if_pos hbig, ite_self] at hok
    exact hok rfl
  rcases fragmentPacket_spec pkt packetId hss hmax outSymbols maxSymbols with
    ⟨_, hr⟩ | ⟨hn, hr, hfrag⟩
  · rw [hr] at hok
    exact absurd rfl hok
  · have h16 := maxSymbols.toNat_lt
    exact ⟨hss, hmax, by omega, hr, hfrag⟩

/-- The fragments of a packet, in some order. -/
structure Shuffled (ss : Nat) (pkt : List UInt8) (packetId : UInt32) (l : List Symbol) :
    Prop where
  length : l.length = fragmentCount pkt.length ss
  frag : ∀ s ∈ l, ∃ i < fragmentCount pkt.length ss, FragmentOf ss pkt i s
    ∧ s.packetId = packetId ∧ s.totalSymbols.toNat = fragmentCount pkt.length ss
  all : ∀ i < fragmentCount pkt.length ss, ∃ s ∈ l, FragmentOf ss pkt i s

theorem shuffled_of_perm {pkt : List UInt8} {packetId : UInt32} {ss : Nat}
    (hmax : ss ≤ maxSymbolDataSize) (hn : fragmentCount pkt.length ss ≤ 65535)
    {l : List Symbol} {frags : Nat → Symbol}
    (hfrags : ∀ i < fragmentCount pkt.length ss, frags i = fragment pkt packetId ss i)
    (hl : l.Perm ((List.range (fragmentCount pkt.length ss)).map frags)) :
    Shuffled ss pkt packetId l where
  length := by
    rw [hl.length_eq, List.length_map, List.length_range]
  frag := by
    intro s hs
    obtain ⟨i, hi, rfl⟩ := List.mem_map.mp (hl.mem_iff.mp hs)
    rw [List.mem_range] at hi
    have hof : FragmentOf ss pkt i (fragment pkt packetId ss i)
        ∧ (fragment pkt packetId ss i).totalSymbols.toNat = fragmentCount pkt.length ss :=
      fragment_of hmax hn hi
    obtain ⟨hf, ht⟩ := hof
    refine ⟨i, hi, ?_⟩
    rw [hfrags i hi]
    exact ⟨hf, rfl, ht⟩
  all := by
    intro i hi
    refine ⟨frags i, hl.mem_iff.mpr (List.mem_map.mpr ⟨i, List.mem_range.mpr hi, rfl⟩), ?_⟩
    rw [hfrags i hi]
    exact (fragment_of hmax hn hi).1

/-- The copy loop over the fragments of a packet. -/
theorem copySymbols_shuffled {ss maxSize : Nat} {pkt : List UInt8} {packetId : UInt32}
    (hss : 0 < ss) (hpos : 0 < pkt.length) (hmax : pkt.length ≤ maxSize) {l : List Symbol}
    (h : Shuffled ss pkt packetId l) (out : Buffer) :
    (copySymbols ss maxSize l 0 out).1 = (pkt.length : Int)
      ∧ bytes (copySymbols ss maxSize l 0 out).2 pkt.length = pkt := by
  have hend : ∀ s ∈ l, endOf ss s ≤ pkt.length := by
    intro s hs
    obtain ⟨i, hi, hf, _⟩ := h.frag s hs
    rw [endOf, hf.index, hf.len, fragmentEnd hss hi]
    exact Nat.min_le_left _ _
  -- the fragment with byte `o` of the packet in it
  have hcover : ∀ o < pkt.length, ∃ s ∈ l, s.symbolIndex.toNat * ss ≤ o ∧ o < endOf ss s := by
    intro o ho
    have hdiv := Nat.div_add_mod o ss
    have hmod := Nat.mod_lt o hss
    rw [Nat.mul_comm] at hdiv
    have hi : o / ss < fragmentCount pkt.length ss :=
      (fragmentCount_lt_iff hss).mpr (by omega)
    obtain ⟨s, hs, hf⟩ := h.all _ hi
    refine ⟨s, hs, ?_, ?_⟩
    · rw [hf.index]
      omega
    · rw [endOf, hf.index, hf.len, fragmentEnd hss hi, Nat.add_mul]
      omega
  have hfit : ∀ s ∈ l, endOf ss s ≤ maxSize := fun s hs => Nat.le_trans (hend s hs) hmax
  constructor
  · obtain ⟨n, hn, _, hle, hlast⟩ := copySymbols_fits l 0 out hfit
    obtain ⟨s, hs, hs1, hs2⟩ := hcover (pkt.length - 1) (by omega)
    have hge := hle s hs
    rw [hn, Int.ofNat_inj]
    rcases hlast with hz | ⟨x, hx, hxe⟩
    · omega
    · have := hend x hx
      omega
  · have hbytes : bytes (copySymbols ss maxSize l 0 out).2 pkt.length
        = bytes (ofList pkt) pkt.length := by
      refine bytes_congr ?_
      intro o ho
      refine copySymbols_at l 0 out hfit ?_ (.inr (hcover o ho))
      intro s hs h1 h2
      obtain ⟨i, _, hf, _⟩ := h.frag s hs
      rw [endOf, hf.index, hf.len] at h2
      rw [hf.index] at h1 ⊢
      rw [hf.data (o - i * ss) (by omega), show i * ss + (o - i * ss) = o by omega]
      rfl
    rw [hbytes, bytes_ofList]

theorem reassemblePacket_shuffled {ss maxSize : Nat} {pkt : List UInt8} {packetId : UInt32}
    (hss : 0 < ss) (hn : fragmentCount pkt.length ss ≤ 65535) (hpos : 0 < pkt.length)
    (hmax : pkt.length ≤ maxSize) {l : List Symbol} (h : Shuffled ss pkt packetId l)
    (out : Buffer) :
    (reassemblePacket l out maxSize).1 = (pkt.length : Int)
      ∧ bytes (reassemblePacket l out maxSize).2 pkt.length = pkt := by
  have hcount : 0 < fragmentCount pkt.length ss :=
    (fragmentCount_lt_iff hss).mpr (by rw [Nat.zero_mul]; exact hpos)
  cases l with
  | nil =>
      have := h.length
      rw [List.length_nil] at this
      omega
  | cons first rest =>
      obtain ⟨i0, hi0, hf0, hid0, ht0⟩ := h.frag first List.mem_cons_self
      -- the checks of the header loop pass wherever the loop stops
      have hhdr : ∀ s ∈ first :: rest, s.symbolIndex < first.totalSymbols
          ∧ s.packetId = first.packetId ∧ s.totalSymbols = first.totalSymbols := by
        intro s hs
        obtain ⟨i, hi, hf, hid, ht⟩ := h.frag s hs
        refine ⟨?_, hid.trans hid0.symm, UInt16.toNat_inj.mp (ht.trans ht0.symm)⟩
        rw [UInt16.lt_iff_toNat_lt, hf.index, ht0]
        exact hi
      have htot : first.totalSymbols ≠ 0 := by
        intro hz
        rw [hz] at ht0
        exact absurd ht0 (Nat.ne_of_lt hcount)
      rw [reassemblePacket, if_neg htot, if_neg (by rw [h.length, ht0]; exact not_not_intro rfl)]
      rcases inferBase_ok hhdr with ⟨hbase, hall⟩ | ⟨s, hs, hne, hbase⟩
      · -- every symbol is the last of its packet: there is only one
        rw [hbase]
        obtain ⟨s, hs, hf⟩ := h.all 0 hcount
        have hone : fragmentCount pkt.length ss = 1 := by
          have := hall s hs
          rw [hf.index, ht0] at this
          omega
        have hzero : i0 = 0 := by omega
        rw [hzero] at hf0
        have hlen : first.payloadLen.toNat = pkt.length := by
          have := fragmentEnd hss hi0
          have hge : pkt.length ≤ fragmentCount pkt.length ss * ss := fragmentCount_mul_ge hss
          rw [hone, Nat.one_mul] at hge
          rw [hf0.len, fragmentLen]
          omega
        simp only [hlen]
        rw [if_neg (Nat.not_lt.mpr hmax)]
        refine ⟨rfl, ?_⟩
        have hbytes : bytes (memcpy out first.data pkt.length) pkt.length
            = bytes (ofList pkt) pkt.length := by
          refine bytes_congr ?_
          intro o ho
          have hd := hf0.data o (by rw [← hf0.len, hlen]; exact ho)
          rw [Nat.zero_mul, Nat.zero_add] at hd
          rw [memcpy, if_pos ho, hd]
          rfl
        rw [hbytes, bytes_ofList]
      · -- the stride is the length of a full fragment
        obtain ⟨i, hi, hf, _, _⟩ := h.frag s hs
        have hstride : s.payloadLen.toNat = ss := by
          rw [hf.index, ht0] at hne
          rw [hf.len]
          exact fragmentLen_full hss (by omega)
        have hb0 : s.payloadLen ≠ 0 := by
          intro hz
          rw [hz] at hstride
          exact absurd hstride (Nat.ne_of_lt hss)
        rw [hbase]
        simp only [if_neg hb0, hstride]
        exact copySymbols_shuffled hss hpos hmax h _

/-- **Fragment, then reassemble**: if `fragment_packet` succeeds on a non-empty
    packet, its symbols give the packet back, in any order and in any buffer it
    fits in. -/
theorem reassemblePacket_perm (pkt : List UInt8) (packetId : UInt32)
    (symbolSize maxSymbols : UInt16) (outSymbols : Nat → Symbol) (hne : pkt ≠ [])
    (hok : (fragmentPacket pkt packetId symbolSize outSymbols maxSymbols).1 ≠ -1)
    (l : List Symbol)
    (hl : l.Perm ((List.range
        (fragmentPacket pkt packetId symbolSize outSymbols maxSymbols).1.toNat).map
      (fragmentPacket pkt packetId symbolSize outSymbols maxSymbols).2))
    (out : Buffer) (maxPacketSize : Nat) (hmax : pkt.length ≤ maxPacketSize) :
    (reassemblePacket l out maxPacketSize).1 = (pkt.length : Int)
      ∧ bytes (reassemblePacket l out maxPacketSize).2 pkt.length = pkt := by
  obtain ⟨hss, h9000, hn, hr, hfrag⟩ := fragmentPacket_ok hok
  rw [hr, Int.toNat_natCast] at hl
  exact reassemblePacket_shuffled hss hn (List.length_pos_iff.mpr hne) hmax
    (shuffled_of_perm h9000 hn hfrag hl) out

/-- Three bytes in two fragments, the last one first. -/
theorem reassemblePacket_perm_reversed :
    (reassemblePacket ((List.range 2).map
        (fragmentPacket [1, 2, 3] 7 2 (fun _ => symbolInit) 8).2).reverse
        (fun _ => 0) 3).1 = 3
      ∧ bytes (reassemblePacket ((List.range 2).map
        (fragmentPacket [1, 2, 3] 7 2 (fun _ => symbolInit) 8).2).reverse
        (fun _ => 0) 3).2 3 = [1, 2, 3] :=
  reassemblePacket_perm [1, 2, 3] 7 2 8 (fun _ => symbolInit) (by decide) (by decide) _
    (List.reverse_perm _) (fun _ => 0) 3 (by decide)

end Reassembly
