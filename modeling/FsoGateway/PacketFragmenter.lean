import FsoGateway.Types

/-! # The packet fragmenter

    `fragment_packet` cuts a packet into `⌈len / symbol_size⌉` symbols, all
    full but the last.  `fragment` gives the symbols in closed form, and
    `fragmentPacket_spec` says that the loop produces them. -/

namespace PacketFragmenter

open ByteBuffer FsoTypes

/-- One turn of the fragmentation loop: the running offset and the output
    array. -/
def fragmentStep (packetData : List UInt8) (packetId : UInt32) (symbolSize : UInt16)
    (totalSymbols : UInt16) (acc : Nat × (Nat → Symbol)) (i : Nat) :
    Nat × (Nat → Symbol) :=
  let remaining := packetData.length - acc.1
  let payloadLen : UInt16 :=
    if symbolSize.toNat < remaining then symbolSize else UInt16.ofNat remaining
  (acc.1 + payloadLen.toNat,
    Function.update acc.2 i
      { symbolInit with
        packetId := packetId
        fecId := UInt32.ofNat i
        symbolIndex := UInt16.ofNat i
        totalSymbols := totalSymbols
        payloadLen := payloadLen
        data := memcpy symbolInit.data (ofList (packetData.drop acc.1))
          payloadLen.toNat })

/-- `fragment_packet`: the number of symbols or `-1`, and the output array. -/
def fragmentPacket (packetData : List UInt8) (packetId : UInt32) (symbolSize : UInt16)
    (outSymbols : Nat → Symbol) (maxSymbols : UInt16) : Int × (Nat → Symbol) :=
  if symbolSize = 0 then (-1, outSymbols)
  else if maxSymbolDataSize < symbolSize.toNat then (-1, outSymbols)
  else
    let totalSymbols :=
      (packetData.length + symbolSize.toNat - 1) / symbolSize.toNat
    if 65535 < totalSymbols then (-1, outSymbols)
    else if maxSymbols.toNat < totalSymbols then (-1, outSymbols)
    else if packetData.length = 0 then (0, outSymbols)
    else
      (totalSymbols,
        ((List.range totalSymbols).foldl
          (fragmentStep packetData packetId symbolSize (UInt16.ofNat totalSymbols))
          (0, outSymbols)).2)

/-! ## Closed form -/

/-- The number of symbols of a packet of `len` bytes. -/
def fragmentCount (len ss : Nat) : Nat := (len + ss - 1) / ss

/-- The payload length of symbol `i`. -/
def fragmentLen (len ss i : Nat) : Nat := min ss (len - i * ss)

/-- Symbol `i` of a packet. -/
def fragment (packetData : List UInt8) (packetId : UInt32) (ss i : Nat) : Symbol :=
  { symbolInit with
    packetId := packetId
    fecId := UInt32.ofNat i
    symbolIndex := UInt16.ofNat i
    totalSymbols := UInt16.ofNat (fragmentCount packetData.length ss)
    payloadLen := UInt16.ofNat (fragmentLen packetData.length ss i)
    data := memcpy symbolInit.data (ofList (packetData.drop (i * ss)))
      (fragmentLen packetData.length ss i) }

/-- Every symbol before the last is full: `(i + 1) * ss` bytes are there. -/
theorem fragmentCount_lt_iff {len ss i : Nat} (hss : 0 < ss) :
    i < fragmentCount len ss ↔ i * ss < len := by
  rw [fragmentCount, Nat.lt_div_iff_mul_lt hss]
  omega

theorem fragmentCount_le {len ss : Nat} (hss : 0 < ss) : fragmentCount len ss ≤ len := by
  refine Nat.le_of_not_lt fun hlt => ?_
  have h1 := (fragmentCount_lt_iff hss).mp hlt
  exact absurd (Nat.le_mul_of_pos_right len hss) (Nat.not_le.mpr h1)

theorem fragmentLen_pos {len ss i : Nat} (hss : 0 < ss)
    (hi : i < fragmentCount len ss) : 0 < fragmentLen len ss i := by
  have h := (fragmentCount_lt_iff hss).mp hi
  rw [fragmentLen]
  omega

theorem fragmentLen_le (len ss i : Nat) : fragmentLen len ss i ≤ ss :=
  Nat.min_le_left ..

theorem fragmentLen_full {len ss i : Nat} (hss : 0 < ss)
    (hi : i + 1 < fragmentCount len ss) : fragmentLen len ss i = ss := by
  have h := (fragmentCount_lt_iff hss).mp hi
  rw [Nat.add_mul, Nat.one_mul] at h
  rw [fragmentLen]
  omega

/-- The loop after `j` turns. -/
private theorem fragment_loop {packetData : List UInt8} (packetId : UInt32)
    {symbolSize : UInt16} (hss : 0 < symbolSize.toNat) (out : Nat → Symbol) {j : Nat}
    (hj : j ≤ fragmentCount packetData.length symbolSize.toNat) :
    let r := (List.range j).foldl
      (fragmentStep packetData packetId symbolSize
        (UInt16.ofNat (fragmentCount packetData.length symbolSize.toNat))) (0, out)
    (j < fragmentCount packetData.length symbolSize.toNat →
      r.1 = j * symbolSize.toNat) ∧
    (∀ i, i < j → r.2 i = fragment packetData packetId symbolSize.toNat i) ∧
    ∀ i, j ≤ i → r.2 i = out i := by
  induction j with
  | zero => exact ⟨fun _ => by simp, fun i hi => by omega, fun i _ => rfl⟩
  | succ j ih =>
      obtain ⟨h1, h2, h3⟩ := ih (by omega)
      have hoff := h1 (by omega)
      have hlt := (fragmentCount_lt_iff hss).mp (Nat.lt_of_succ_le hj)
      rw [List.range_succ, List.foldl_append, List.foldl_cons, List.foldl_nil]
      generalize (List.range j).foldl _ _ = acc at h1 h2 h3 hoff ⊢
      have hlen : (if symbolSize.toNat < packetData.length - acc.1 then symbolSize
          else UInt16.ofNat (packetData.length - acc.1))
          = UInt16.ofNat (fragmentLen packetData.length symbolSize.toNat j) := by
        rw [hoff, fragmentLen]
        by_cases h : symbolSize.toNat < packetData.length - j * symbolSize.toNat
        · rw [if_pos h, Nat.min_eq_left (Nat.le_of_lt h), UInt16.ofNat_toNat]
        · rw [if_neg h, Nat.min_eq_right (by omega)]
      have hlenNat : (UInt16.ofNat
          (fragmentLen packetData.length symbolSize.toNat j)).toNat
          = fragmentLen packetData.length symbolSize.toNat j := by
        have := fragmentLen_le packetData.length symbolSize.toNat j
        have := symbolSize.toNat_lt
        rw [UInt16.toNat_ofNat']
        omega
      have hstep : fragmentStep packetData packetId symbolSize
          (UInt16.ofNat (fragmentCount packetData.length symbolSize.toNat)) acc j
          = (j * symbolSize.toNat
              + fragmentLen packetData.length symbolSize.toNat j,
            Function.update acc.2 j
              (fragment packetData packetId symbolSize.toNat j)) := by
        rw [fragmentStep]
        simp only [hlen, hlenNat]
        rw [hoff, fragment]
      rw [hstep]
      refine ⟨?_, ?_, ?_⟩
      · intro hlast
        have hfull := fragmentLen_full (i := j) hss hlast
        show j * _ + fragmentLen _ _ j = _
        rw [hfull, Nat.add_mul, Nat.one_mul]
      · intro i hi
        by_cases hij : i = j
        · rw [hij]
          exact Function.update_self ..
        · show Function.update acc.2 j _ i = _
          rw [Function.update_of_ne hij]
          exact h2 i (by omega)
      · intro i hi
        show Function.update acc.2 j _ i = _
        rw [Function.update_of_ne (by omega)]
        exact h3 i (by omega)

/-- A symbol size that is refused. -/
theorem fragmentPacket_refused {symbolSize : UInt16}
    (h : ¬ (0 < symbolSize.toNat ∧ symbolSize.toNat ≤ maxSymbolDataSize))
    (packetData : List UInt8) (packetId : UInt32) (out : Nat → Symbol)
    (maxSymbols : UInt16) :
    fragmentPacket packetData packetId symbolSize out maxSymbols = (-1, out) := by
  rw [fragmentPacket]
  by_cases hz : symbolSize = 0
  · rw [if_pos hz]
  · rw [if_neg hz, if_pos]
    by_contra hle
    refine h ⟨Nat.pos_of_ne_zero fun h0 => ?_, Nat.le_of_not_lt hle⟩
    exact hz (UInt16.toNat_inj.mp h0)

/-- **Fragmentation**: rejected when there would be too many symbols, else the
    symbols of the closed form. -/
theorem fragmentPacket_spec (packetData : List UInt8) (packetId : UInt32)
    {symbolSize : UInt16} (hss : 0 < symbolSize.toNat)
    (hmax : symbolSize.toNat ≤ maxSymbolDataSize) (out : Nat → Symbol)
    (maxSymbols : UInt16) :
    let n := fragmentCount packetData.length symbolSize.toNat
    let r := fragmentPacket packetData packetId symbolSize out maxSymbols
    (maxSymbols.toNat < n ∧ r = (-1, out)) ∨
    (n ≤ maxSymbols.toNat ∧ r.1 = n ∧
      ∀ i, i < n → r.2 i = fragment packetData packetId symbolSize.toNat i) := by
  intro n r
  have hne : symbolSize ≠ 0 := by
    intro h
    rw [h] at hss
    exact Nat.lt_irrefl 0 hss
  have hmax16 := maxSymbols.toNat_lt
  by_cases hbig : maxSymbols.toNat < n
  · refine .inl ⟨hbig, ?_⟩
    show fragmentPacket packetData packetId symbolSize out maxSymbols = _
    rw [fragmentPacket, if_neg hne, if_neg (by omega)]
    show (if 65535 < n then _ else if maxSymbols.toNat < n then _ else _) = _
    by_cases h : 65535 < n
    · rw [if_pos h]
    · rw [if_neg h, if_pos hbig]
  · refine .inr ⟨by omega, ?_⟩
    have hr : r = if packetData.length = 0 then (0, out) else
        ((n : Int), ((List.range n).foldl
          (fragmentStep packetData packetId symbolSize (UInt16.ofNat n))
          (0, out)).2) := by
      show fragmentPacket packetData packetId symbolSize out maxSymbols = _
      rw [fragmentPacket, if_neg hne, if_neg (by omega)]
      show (if 65535 < n then _ else if maxSymbols.toNat < n then _ else _) = _
      rw [if_neg (by omega), if_neg hbig]
      rfl
    by_cases hz : packetData.length = 0
    · have hn : n = 0 := by
        show fragmentCount packetData.length symbolSize.toNat = 0
        rw [fragmentCount, hz]
        exact Nat.div_eq_of_lt (by omega)
      rw [if_pos hz] at hr
      rw [hr, hn]
      exact ⟨rfl, fun i hi => by omega⟩
    · rw [if_neg hz] at hr
      rw [hr]
      have hloop := fragment_loop packetId hss out
        (Nat.le_refl n)
      exact ⟨rfl, hloop.2.1⟩

end PacketFragmenter
