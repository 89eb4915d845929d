import FsoGateway.Lib.Layout
import FsoGateway.Reassembly

/-! # When reassembly is sound

    The check loop of `reassemble_packet` stops at the first symbol that is not
    the last of its packet; what follows is copied unchecked.  So an array is
    accepted that is no packet: indices may repeat, ids may differ, and
    payloads may overlap or leave gaps.

    * `reassemblePacket_cases` — which arrays are accepted, in terms of their
      headers, and what is returned for them;
    * `sound_iff` — reassembly is sound for the arrays with given headers
      exactly when these are rejected, or are the headers of one packet whose
      payloads are laid end to end;
    * `reassemblePacket_duplicate` — a fragment that is there twice. -/

namespace ReassemblySound

open ByteBuffer FsoTypes PacketReassembler Reassembly

/-! ## Headers -/

/-- What `reassemble_packet` looks at in a symbol, apart from its payload. -/
structure Header where
  packetId : UInt32
  symbolIndex : UInt16
  totalSymbols : UInt16
  payloadLen : UInt16
  deriving DecidableEq

def headerOf (s : Symbol) : Header :=
  ⟨s.packetId, s.symbolIndex, s.totalSymbols, s.payloadLen⟩

/-- The headers of one packet, each fragment once. -/
structure Consistent (hs : List Header) : Prop where
  packetId : ∀ a ∈ hs, ∀ b ∈ hs, a.packetId = b.packetId
  total : ∀ a ∈ hs, a.totalSymbols.toNat = hs.length
  indices : (hs.map fun h => h.symbolIndex.toNat).Perm (List.range hs.length)

/-- The payload with index `i`. -/
def payloadAt (l : List Symbol) (i : Nat) : List UInt8 :=
  match l.find? fun s => s.symbolIndex.toNat == i with
  | some s => bytes s.data s.payloadLen.toNat
  | none => []

/-- The payloads in index order. -/
def inIndexOrder (l : List Symbol) : List UInt8 := Layout.concat (payloadAt l) l.length

/-- **The property**: a success means that the symbols are one packet, each
    fragment once, and gives their payloads in index order. -/
def Sound (l : List Symbol) (maxPacketSize : Nat) : Prop :=
  ∀ out : Buffer, (reassemblePacket l out maxPacketSize).1 ≠ -1 →
    Consistent (l.map headerOf)
      ∧ (reassemblePacket l out maxPacketSize).1 = ((inIndexOrder l).length : Int)
      ∧ bytes (reassemblePacket l out maxPacketSize).2 (inIndexOrder l).length
          = inIndexOrder l

/-! ## Which arrays are accepted -/

/-- The symbols up to the first one whose index is not the last of `n`. -/
def examined (n : Nat) : List Header → List Header
  | [] => []
  | h :: hs => if h.symbolIndex.toNat + 1 = n then h :: examined n hs else [h]

/-- The payload length of that one. -/
def stride (n : Nat) : List Header → Option UInt16
  | [] => none
  | h :: hs => if h.symbolIndex.toNat + 1 = n then stride n hs else some h.payloadLen

/-- The number of symbols is the announced one, the examined headers are in
    order, and the payloads fit into the buffer. -/
def Accepted (hs : List Header) (maxPacketSize : Nat) : Prop :=
  ∃ first ∈ hs.head?, first.totalSymbols.toNat = hs.length
    ∧ (∀ h ∈ examined hs.length hs, h.symbolIndex.toNat < hs.length
        ∧ h.packetId = first.packetId ∧ h.totalSymbols = first.totalSymbols)
    ∧ match stride hs.length hs with
      | none => first.payloadLen.toNat ≤ maxPacketSize
      | some base => base ≠ 0
          ∧ ∀ h ∈ hs, h.symbolIndex.toNat * base.toNat + h.payloadLen.toNat ≤ maxPacketSize

/-- The payload length with index `i`. -/
def lenAt (hs : List Header) (i : Nat) : Nat :=
  match hs.find? fun h => h.symbolIndex.toNat == i with
  | some h => h.payloadLen.toNat
  | none => 0

/-- The payload lengths below index `i`. -/
def lengthBelow (hs : List Header) (i : Nat) : Nat := ((List.range i).map (lenAt hs)).sum

/-- The places that the copy loop gives to the payloads are those of their
    concatenation; an empty payload has only to stay inside of it. -/
def LaidOut (hs : List Header) : Prop :=
  match stride hs.length hs with
  | none => True
  | some base => ∀ h ∈ hs,
      if h.payloadLen = 0 then h.symbolIndex.toNat * base.toNat ≤ lengthBelow hs hs.length
      else h.symbolIndex.toNat * base.toNat = lengthBelow hs h.symbolIndex.toNat

/-- The head of an array is always examined. -/
theorem head_examined (n : Nat) (h : Header) (hs : List Header) : h ∈ examined n (h :: hs) := by
  rw [examined]
  split
  · exact List.mem_cons_self
  · exact List.mem_singleton.mpr rfl

/-- The check loop of `reassemble_packet`. -/
theorem inferBase_iff {packetId : UInt32} {expected : UInt16} {n : Nat}
    (hn : expected.toNat = n) (hpos : 0 < n) (l : List Symbol) (r : Option UInt16) :
    inferBase packetId expected l = some r
      ↔ (∀ h ∈ examined n (l.map headerOf), h.symbolIndex.toNat < n ∧ h.packetId = packetId
          ∧ h.totalSymbols = expected) ∧ r = stride n (l.map headerOf) := by
  induction l with
  | nil =>
      rw [inferBase, Option.some.injEq]
      constructor
      · rintro rfl
        exact ⟨fun h hh => absurd hh List.not_mem_nil, rfl⟩
      · rintro ⟨_, rfl⟩
        rfl
  | cons s l ih =>
      rw [inferBase, List.map_cons]
      by_cases hok : s.symbolIndex.toNat < n ∧ s.packetId = packetId
          ∧ s.totalSymbols = expected
      · obtain ⟨h1, h2, h3⟩ := hok
        have hidx : ¬ expected ≤ s.symbolIndex := by
          rw [UInt16.le_iff_toNat_le, hn]
          exact Nat.not_le.mpr h1
        rw [if_neg hidx, if_neg (not_not_intro h2), if_neg (not_not_intro h3), examined, stride]
        -- the loop only goes on behind a last symbol
        by_cases hl : (headerOf s).symbolIndex.toNat + 1 = n
        · have hlast : ¬ s.symbolIndex.toNat ≠ expected.toNat - 1 := by
            have : s.symbolIndex.toNat + 1 = n := hl
            omega
          rw [if_neg hlast, if_pos hl, if_pos hl, ih, List.forall_mem_cons]
          constructor
          · rintro ⟨hall, hr⟩
            exact ⟨⟨⟨h1, h2, h3⟩, hall⟩, hr⟩
          · rintro ⟨⟨_, hall⟩, hr⟩
            exact ⟨hall, hr⟩
        · have hlast : s.symbolIndex.toNat ≠ expected.toNat - 1 := by
            have : ¬ s.symbolIndex.toNat + 1 = n := hl
            omega
          rw [if_pos hlast, if_neg hl, if_neg hl, Option.some.injEq, List.forall_mem_singleton]
          constructor
          · rintro rfl
            exact ⟨⟨h1, h2, h3⟩, rfl⟩
          · rintro ⟨_, rfl⟩
            rfl
      · constructor
        · intro h
          exfalso
          apply hok
          split at h
          · cases h
          · rename_i h1
            split at h
            · cases h
            · rename_i h2
              split at h
              · cases h
              · rename_i h3
                rw [UInt16.le_iff_toNat_le, hn] at h1
                exact ⟨Nat.lt_of_not_le h1, not_not.mp h2, not_not.mp h3⟩
        · rintro ⟨hall, _⟩
          exact absurd (hall (headerOf s) (head_examined n _ _)) hok

/-- The condition, for an array with a first symbol. -/
theorem accepted_cons (first : Symbol) (rest : List Symbol) (maxSize : Nat) :
    Accepted ((first :: rest).map headerOf) maxSize
      ↔ (first :: rest).length = first.totalSymbols.toNat
        ∧ ∃ r, inferBase first.packetId first.totalSymbols (first :: rest) = some r
          ∧ match r with
            | none => first.payloadLen.toNat ≤ maxSize
            | some base => base ≠ 0 ∧ ∀ s ∈ first :: rest, endOf base.toNat s ≤ maxSize := by
  constructor
  · rintro ⟨x, hx, htot, hex, hfit⟩
    rw [List.map_cons, List.head?_cons, Option.mem_some_iff] at hx
    subst hx
    rw [List.length_map] at htot hex hfit
    refine ⟨htot.symm, stride (first :: rest).length ((first :: rest).map headerOf), ?_, ?_⟩
    · exact (inferBase_iff htot (Nat.succ_pos _) _ _).mpr ⟨hex, rfl⟩
    · cases hs : stride (first :: rest).length ((first :: rest).map headerOf) with
      | none =>
          rw [hs] at hfit
          exact hfit
      | some base =>
          rw [hs] at hfit
          refine ⟨hfit.1, ?_⟩
          intro s hmem
          exact hfit.2 (headerOf s) (List.mem_map_of_mem hmem)
  · rintro ⟨hlen, r, hbase, hfit⟩
    obtain ⟨hex, rfl⟩ := (inferBase_iff hlen.symm (Nat.succ_pos _) _ _).mp hbase
    refine ⟨headerOf first, rfl, ?_, ?_, ?_⟩
    · rw [List.length_map]
      exact hlen.symm
    · rw [List.length_map]
      exact hex
    · rw [List.length_map]
      cases hs : stride (first :: rest).length ((first :: rest).map headerOf) with
      | none =>
          rw [hs] at hfit
          exact hfit
      | some base =>
          rw [hs] at hfit
          refine ⟨hfit.1, ?_⟩
          intro h hmem
          obtain ⟨s, hs, rfl⟩ := List.mem_map.mp hmem
          exact hfit.2 s hs

/-- **Which arrays are accepted**, and what is returned for them. -/
theorem reassemblePacket_cases (l : List Symbol) (out : Buffer) (maxSize : Nat) :
    (¬ Accepted (l.map headerOf) maxSize ∧ (reassemblePacket l out maxSize).1 = -1)
      ∨ (Accepted (l.map headerOf) maxSize ∧ stride l.length (l.map headerOf) = none
          ∧ ∃ first ∈ l.head?, reassemblePacket l out maxSize
              = ((first.payloadLen.toNat : Int), memcpy out first.data first.payloadLen.toNat))
      ∨ (Accepted (l.map headerOf) maxSize
          ∧ ∃ base, stride l.length (l.map headerOf) = some base ∧ base ≠ 0
            ∧ (∀ s ∈ l, endOf base.toNat s ≤ maxSize)
            ∧ reassemblePacket l out maxSize
                = copySymbols base.toNat maxSize l 0 (memzero out maxSize)) := by
  cases l with
  | nil =>
      refine .inl ⟨?_, rfl⟩
      rintro ⟨first, hfirst, _⟩
      cases hfirst
  | cons first rest =>
      by_cases hacc : Accepted ((first :: rest).map headerOf) maxSize
      · obtain ⟨hlen, r, hbase, hfit⟩ := (accepted_cons first rest maxSize).mp hacc
        have h0 : first.totalSymbols ≠ 0 := by
          intro hz
          rw [hz] at hlen
          exact absurd hlen (Nat.succ_ne_zero _)
        -- the checks of the loop passed; the copies decide the rest
        obtain ⟨_, rfl⟩ := (inferBase_iff hlen.symm (Nat.succ_pos _) _ _).mp hbase
        rw [reassemblePacket, if_neg h0, if_neg (not_not_intro hlen), hbase]
        cases hs : stride (first :: rest).length ((first :: rest).map headerOf) with
        | none =>
            rw [hs] at hfit
            exact .inr (.inl ⟨hacc, rfl, first, rfl, if_neg (Nat.not_lt.mpr hfit)⟩)
        | some base =>
            rw [hs] at hfit
            exact .inr (.inr ⟨hacc, base, rfl, hfit.1, hfit.2, if_neg hfit.1⟩)
      · refine .inl ⟨hacc, ?_⟩
        rw [accepted_cons] at hacc
        rw [reassemblePacket]
        by_cases h0 : first.totalSymbols = 0
        · rw [if_pos h0]
        rw [if_neg h0]
        by_cases hlen : (first :: rest).length = first.totalSymbols.toNat
        · rw [if_neg (not_not_intro hlen)]
          cases hbase : inferBase first.packetId first.totalSymbols (first :: rest) with
          | none => rfl
          | some r =>
              cases r with
              | none =>
                  have hbig : maxSize < first.payloadLen.toNat := by
                    rw [← Nat.not_le]
                    intro hle
                    exact hacc ⟨hlen, none, hbase, hle⟩
                  simp only [if_pos hbig]
              | some base =>
                  by_cases hz : base = 0
                  · simp only [if_pos hz]
                  · simp only [if_neg hz]
                    apply copySymbols_overflow
                    by_contra hno
                    refine hacc ⟨hlen, some base, hbase, hz, ?_⟩
                    intro s hs
                    rw [← Nat.not_lt]
                    intro hbig
                    exact hno ⟨s, hs, hbig⟩
        · rw [if_pos hlen]

/-! ## Payloads by index -/

theorem find_of_nodup {α : Type} {f : α → Nat} {l : List α} (hn : (l.map f).Nodup) {a : α}
    (ha : a ∈ l) : l.find? (fun x => f x == f a) = some a := by
  induction l with
  | nil => cases ha
  | cons x l ih =>
      rw [List.map_cons, List.nodup_cons] at hn
      rcases List.mem_cons.mp ha with rfl | ha
      · exact List.find?_cons_of_pos (by rw [beq_iff_eq])
      · rw [List.find?_cons_of_neg]
        · exact ih hn.2 ha
        · rw [beq_iff_eq]
          intro he
          exact hn.1 (he ▸ List.mem_map_of_mem ha)

theorem lenAt_eq (l : List Symbol) (i : Nat) :
    (payloadAt l i).length = lenAt (l.map headerOf) i := by
  have hfind : (l.map headerOf).find? (fun h => h.symbolIndex.toNat == i)
      = (l.find? fun s => s.symbolIndex.toNat == i).map headerOf := List.find?_map ..
  rw [payloadAt, lenAt, hfind]
  cases l.find? fun s => s.symbolIndex.toNat == i with
  | none => rfl
  | some s => exact bytes_length _ _

theorem lengthBelow_eq (l : List Symbol) (i : Nat) :
    Layout.startOf (payloadAt l) i = lengthBelow (l.map headerOf) i := by
  induction i with
  | zero => rfl
  | succ i ih =>
      rw [Layout.startOf_succ, ih, lenAt_eq, lengthBelow, lengthBelow, List.range_succ,
        List.map_append, List.sum_append, List.map_singleton, List.sum_singleton]

section Consistent

variable {l : List Symbol} (h : Consistent (l.map headerOf))
include h

theorem Consistent.perm : (l.map fun s => s.symbolIndex.toNat).Perm (List.range l.length) := by
  have hp := h.indices
  rw [List.map_map, List.length_map] at hp
  exact hp

theorem Consistent.nodup : (l.map fun s => s.symbolIndex.toNat).Nodup :=
  h.perm.nodup_iff.mpr List.nodup_range

theorem Consistent.lt {s : Symbol} (hs : s ∈ l) : s.symbolIndex.toNat < l.length := by
  have hmem : s.symbolIndex.toNat ∈ l.map fun s => s.symbolIndex.toNat := List.mem_map_of_mem hs
  exact List.mem_range.mp (h.perm.mem_iff.mp hmem)

theorem Consistent.exists_index {i : Nat} (hi : i < l.length) :
    ∃ s ∈ l, s.symbolIndex.toNat = i :=
  List.mem_map.mp (h.perm.mem_iff.mpr (List.mem_range.mpr hi))

theorem Consistent.payload {s : Symbol} (hs : s ∈ l) :
    payloadAt l s.symbolIndex.toNat = bytes s.data s.payloadLen.toNat := by
  rw [payloadAt, find_of_nodup h.nodup hs]

/-- A payload in the concatenation. -/
theorem Consistent.piece {s : Symbol} (hs : s ∈ l) {j : Nat}
    (hj : j < s.payloadLen.toNat) :
    (inIndexOrder l)[Layout.startOf (payloadAt l) s.symbolIndex.toNat + j]?
      = some (s.data j) := by
  have hlen : j < (payloadAt l s.symbolIndex.toNat).length := by
    rw [h.payload hs, bytes_length]
    exact hj
  rw [inIndexOrder, Layout.concat_piece _ (h.lt hs) hlen, h.payload hs,
    bytes_getElem? _ hj]

end Consistent

/-! ## Arrays laid end to end -/

theorem stride_none {n : Nat} {hs : List Header} (h : stride n hs = none) :
    ∀ x ∈ hs, x.symbolIndex.toNat + 1 = n := by
  induction hs with
  | nil => exact fun x hx => nomatch hx
  | cons a hs ih =>
      rw [stride] at h
      split at h
      · rename_i hl
        exact List.forall_mem_cons.mpr ⟨hl, ih h⟩
      · cases h

theorem stride_some {n : Nat} {hs : List Header} {base : UInt16} (h : stride n hs = some base) :
    ∃ x ∈ hs, x.payloadLen = base := by
  induction hs with
  | nil => cases h
  | cons a hs ih =>
      rw [stride] at h
      split at h
      · obtain ⟨x, hx, he⟩ := ih h
        exact ⟨x, List.mem_cons_of_mem a hx, he⟩
      · exact ⟨a, List.mem_cons_self, Option.some.inj h⟩

/-- A single symbol. -/
theorem sound_single {l : List Symbol} (hc : Consistent (l.map headerOf)) {first : Symbol}
    (hfirst : first ∈ l.head?) (hs : stride l.length (l.map headerOf) = none) (out : Buffer) :
    (first.payloadLen.toNat : Int) = ((inIndexOrder l).length : Int)
      ∧ bytes (memcpy out first.data first.payloadLen.toNat) (inIndexOrder l).length
          = inIndexOrder l := by
  cases l with
  | nil => cases hfirst
  | cons x rest =>
      rw [List.head?_cons, Option.mem_some_iff] at hfirst
      subst hfirst
      obtain ⟨s, hmem, hidx⟩ := hc.exists_index (i := 0) (Nat.succ_pos _)
      have hlast : s.symbolIndex.toNat + 1 = (x :: rest).length :=
        stride_none hs (headerOf s) (List.mem_map_of_mem hmem)
      have hone : (x :: rest).length = 1 := by omega
      have hx0 : x.symbolIndex.toNat = 0 := by
        have := hc.lt (List.mem_cons_self (a := x) (l := rest))
        omega
      have hall : inIndexOrder (x :: rest) = bytes x.data x.payloadLen.toNat := by
        have hp := hc.payload (List.mem_cons_self (a := x) (l := rest))
        rw [hx0] at hp
        rw [inIndexOrder, hone, Layout.concat, List.range_one, List.flatMap_singleton, hp]
      rw [hall, bytes_length]
      refine ⟨rfl, bytes_congr ?_⟩
      intro o ho
      exact if_pos ho

section LaidOut

variable {l : List Symbol} {base : UInt16} (hc : Consistent (l.map headerOf))
  (hs : stride l.length (l.map headerOf) = some base) (hl : LaidOut (l.map headerOf))
include hs hl

/-- Where the copy loop puts the payloads of such an array. -/
theorem place_of_laidOut {s : Symbol} (hmem : s ∈ l) :
    (s.payloadLen.toNat = 0 → s.symbolIndex.toNat * base.toNat ≤ (inIndexOrder l).length)
      ∧ (0 < s.payloadLen.toNat → s.symbolIndex.toNat * base.toNat
          = Layout.startOf (payloadAt l) s.symbolIndex.toNat) := by
  rw [LaidOut, List.length_map, hs] at hl
  have hplace := hl (headerOf s) (List.mem_map_of_mem hmem)
  have hzero : (headerOf s).payloadLen = 0 ↔ s.payloadLen.toNat = 0 :=
    ⟨fun h => congrArg UInt16.toNat h, fun h => UInt16.toNat_inj.mp h⟩
  constructor
  · intro h0
    rw [if_pos (hzero.mpr h0), ← lengthBelow_eq] at hplace
    exact hplace
  · intro hpos
    rw [if_neg (fun h => Nat.ne_of_gt hpos (hzero.mp h)), ← lengthBelow_eq] at hplace
    exact hplace

include hc

theorem end_of_laidOut {s : Symbol} (hmem : s ∈ l) :
    endOf base.toNat s ≤ (inIndexOrder l).length := by
  obtain ⟨hempty, hfull⟩ := place_of_laidOut hs hl hmem
  rw [endOf]
  rcases Nat.eq_zero_or_pos s.payloadLen.toNat with h0 | hpos
  · rw [h0]
    exact hempty h0
  · have hle := Layout.startOf_add_le (payloadAt l) (hc.lt hmem)
    rw [hc.payload hmem, bytes_length] at hle
    rw [hfull hpos]
    exact hle

/-- Every byte of the concatenation is copied. -/
theorem covered_of_laidOut {o : Nat} (ho : o < (inIndexOrder l).length) :
    ∃ s ∈ l, s.symbolIndex.toNat * base.toNat ≤ o ∧ o < endOf base.toNat s := by
  obtain ⟨i, hi, h1, h2⟩ := Layout.concat_covered (payloadAt l) ho
  obtain ⟨s, hmem, rfl⟩ := hc.exists_index hi
  rw [hc.payload hmem, bytes_length] at h2
  have hplace := (place_of_laidOut hs hl hmem).2 (by omega)
  refine ⟨s, hmem, ?_, ?_⟩
  · rw [hplace]
    exact h1
  · rw [endOf, hplace]
    exact h2

theorem sound_laidOut {maxSize : Nat} (hb : base ≠ 0)
    (hfit : ∀ s ∈ l, endOf base.toNat s ≤ maxSize) (out : Buffer) :
    (copySymbols base.toNat maxSize l 0 out).1 = ((inIndexOrder l).length : Int)
      ∧ bytes (copySymbols base.toNat maxSize l 0 out).2 (inIndexOrder l).length
          = inIndexOrder l := by
  have hpos : 0 < (inIndexOrder l).length := by
    obtain ⟨x, hx, hxb⟩ := stride_some hs
    obtain ⟨s, hmem, rfl⟩ := List.mem_map.mp hx
    have hlen : s.payloadLen.toNat ≠ 0 := by
      intro h0
      have h0' : s.payloadLen = 0 := UInt16.toNat_inj.mp h0
      exact hb (hxb.symm.trans h0')
    have hend := end_of_laidOut hc hs hl hmem
    rw [endOf] at hend
    omega
  constructor
  · obtain ⟨n, hn, _, hle, hlast⟩ := copySymbols_fits l 0 out hfit
    obtain ⟨s, hmem, _, h2⟩ :=
      covered_of_laidOut hc hs hl (o := (inIndexOrder l).length - 1) (by omega)
    have hge := hle s hmem
    rw [hn, Int.ofNat_inj]
    rcases hlast with hz | ⟨x, hx, hxe⟩
    · omega
    · have := end_of_laidOut hc hs hl hx
      omega
  · have hbytes : bytes (copySymbols base.toNat maxSize l 0 out).2 (inIndexOrder l).length
        = bytes (ofList (inIndexOrder l)) (inIndexOrder l).length := by
      refine bytes_congr ?_
      intro o ho
      refine copySymbols_at l 0 out hfit ?_ (.inr (covered_of_laidOut hc hs hl ho))
      intro s hmem h1 h2
      rw [endOf] at h2
      have hplace := (place_of_laidOut hs hl hmem).2 (by omega)
      have hpiece := hc.piece hmem (j := o - s.symbolIndex.toNat * base.toNat) (by omega)
      rw [← hplace, Nat.add_sub_cancel' h1] at hpiece
      rw [ofList, List.getD_eq_getElem?_getD, hpiece]
      rfl
    rw [hbytes, bytes_ofList]

end LaidOut

theorem sound_of_laidOut {l : List Symbol} {maxSize : Nat} (hc : Consistent (l.map headerOf))
    (hl : LaidOut (l.map headerOf)) : Sound l maxSize := by
  intro out hok
  refine ⟨hc, ?_⟩
  rcases reassemblePacket_cases l out maxSize with
    ⟨_, hneg⟩ | ⟨_, hs, first, hfirst, hr⟩ | ⟨_, base, hs, hb, hfit, hr⟩
  · exact absurd hneg hok
  · rw [hr]
    exact sound_single hc hfirst hs out
  · rw [hr]
    exact sound_laidOut hc hs hl hb hfit _

/-! ## Arrays that are not -/

/-- Symbols with given headers; the payload with index `i` is all ones, the
    others are all zeroes. -/
def marked (i : Nat) (hs : List Header) : List Symbol :=
  hs.map fun h =>
    { symbolInit with
      packetId := h.packetId
      symbolIndex := h.symbolIndex
      totalSymbols := h.totalSymbols
      payloadLen := h.payloadLen
      data := fun _ => if h.symbolIndex.toNat = i then 1 else 0 }

theorem marked_headers (i : Nat) (hs : List Header) : (marked i hs).map headerOf = hs := by
  rw [marked, List.map_map]
  exact List.map_id hs

theorem marked_data {i : Nat} {hs : List Header} {s : Symbol} (h : s ∈ marked i hs) (o : Nat) :
    s.data o = if s.symbolIndex.toNat = i then 1 else 0 := by
  obtain ⟨x, _, rfl⟩ := List.mem_map.mp h
  rfl

/-- In a sound array of marked symbols, the marked payload is copied to its
    place in the concatenation. -/
theorem marked_place {hs : List Header} {maxSize : Nat} {base : UInt16} {i : Nat} {s : Symbol}
    (hs' : stride hs.length hs = some base) (hacc : Accepted hs maxSize)
    (hsound : Sound (marked i hs) maxSize) (hmem : s ∈ marked i hs)
    (hi : s.symbolIndex.toNat = i) :
    endOf base.toNat s ≤ (inIndexOrder (marked i hs)).length
      ∧ ∀ j < s.payloadLen.toNat,
          i * base.toNat ≤ Layout.startOf (payloadAt (marked i hs)) i + j
            ∧ Layout.startOf (payloadAt (marked i hs)) i + j < endOf base.toNat s := by
  have hlen : (marked i hs).length = hs.length := List.length_map _
  rcases reassemblePacket_cases (marked i hs) (fun _ => 0) maxSize with
    ⟨hno, _⟩ | ⟨_, hnone, _⟩ | ⟨_, b, hb, hb0, hfit, hr⟩
  · rw [marked_headers] at hno
    exact absurd hacc hno
  · rw [marked_headers, hlen, hs'] at hnone
    cases hnone
  · rw [marked_headers, hlen, hs', Option.some.injEq] at hb
    subst hb
    obtain ⟨n, hn, _, hle, hlast⟩ :=
      copySymbols_fits (marked i hs) 0 (memzero (fun _ => 0) maxSize) hfit
    have hok : (reassemblePacket (marked i hs) (fun _ => 0) maxSize).1 ≠ -1 := by
      rw [hr, hn]
      omega
    obtain ⟨hc, hrlen, hbytes⟩ := hsound (fun _ => 0) hok
    rw [hr, hn, Int.ofNat_inj] at hrlen
    rw [← hrlen]
    refine ⟨hle s hmem, ?_⟩
    intro j hj
    have hpiece := hc.piece hmem hj
    rw [marked_data hmem, if_pos hi, hi] at hpiece
    generalize Layout.startOf (payloadAt (marked i hs)) i + j = o at hpiece ⊢
    -- the byte is a one, and only the marked payload puts ones anywhere
    have hone : (copySymbols base.toNat maxSize (marked i hs) 0
        (memzero (fun _ => 0) maxSize)).2 o = 1 := by
      have ho : o < (inIndexOrder (marked i hs)).length :=
        (List.getElem?_eq_some_iff.mp hpiece).choose
      rw [← hbytes, hr, bytes_getElem? _ ho] at hpiece
      exact Option.some.inj hpiece
    by_contra hout
    have hzero : (copySymbols base.toNat maxSize (marked i hs) 0
        (memzero (fun _ => 0) maxSize)).2 o = 0 := by
      refine copySymbols_at _ 0 _ hfit ?_ (.inl ?_)
      · intro x hx h1 h2
        rw [marked_data hx, if_neg]
        intro hxi
        have hsame : x = s := by
          have h1 := find_of_nodup hc.nodup hx
          have h2 := find_of_nodup hc.nodup hmem
          rw [hxi.trans hi.symm, h2] at h1
          exact (Option.some.inj h1).symm
        subst hsame
        rw [hxi] at h1
        exact hout ⟨h1, h2⟩
      · rw [memzero]
        split <;> rfl
    rw [hzero] at hone
    cases hone

theorem laidOut_of_sound {hs : List Header} {maxSize : Nat} (hacc : Accepted hs maxSize)
    (hsound : ∀ l, l.map headerOf = hs → Sound l maxSize) : LaidOut hs := by
  rw [LaidOut]
  cases hs' : stride hs.length hs with
  | none => trivial
  | some base =>
      intro h hmem
      have hm := hsound (marked h.symbolIndex.toNat hs) (marked_headers _ hs)
      have hin : ∃ s ∈ marked h.symbolIndex.toNat hs, headerOf s = h := by
        rw [← List.mem_map, marked_headers]
        exact hmem
      obtain ⟨s, hs1, rfl⟩ := hin
      obtain ⟨hend, hplace⟩ := marked_place hs' hacc hm hs1 rfl
      have htotal : (inIndexOrder (marked (headerOf s).symbolIndex.toNat hs)).length
          = lengthBelow hs hs.length := by
        have hlen : (marked (headerOf s).symbolIndex.toNat hs).length = hs.length :=
          List.length_map _
        rw [inIndexOrder, hlen]
        have hbelow := lengthBelow_eq (marked (headerOf s).symbolIndex.toNat hs) hs.length
        rw [marked_headers] at hbelow
        exact hbelow
      have hstart := lengthBelow_eq (marked (headerOf s).symbolIndex.toNat hs)
        (headerOf s).symbolIndex.toNat
      rw [marked_headers] at hstart
      rw [htotal, endOf] at hend
      rw [hstart, endOf] at hplace
      have hzero : (headerOf s).payloadLen = 0 ↔ s.payloadLen.toNat = 0 :=
        ⟨fun h => congrArg UInt16.toNat h, fun h => UInt16.toNat_inj.mp h⟩
      split
      · exact Nat.le_trans (Nat.le_add_right _ _) hend
      · rename_i hpos
        rw [hzero] at hpos
        have hfirst := hplace 0 (Nat.pos_of_ne_zero hpos)
        have hlast := hplace (s.payloadLen.toNat - 1) (by omega)
        have hidx : (headerOf s).symbolIndex.toNat = s.symbolIndex.toNat := rfl
        rw [hidx] at hfirst hlast ⊢
        omega

/-- **When reassembly is sound**: for the arrays with given headers it is sound
    exactly when, if these are accepted at all, they are the headers of one
    packet with its payloads laid end to end. -/
theorem sound_iff (hs : List Header) (maxPacketSize : Nat) :
    (∀ l : List Symbol, l.map headerOf = hs → Sound l maxPacketSize)
      ↔ (Accepted hs maxPacketSize → Consistent hs ∧ LaidOut hs) := by
  constructor
  · intro h hacc
    refine ⟨?_, laidOut_of_sound hacc h⟩
    have hm := h (marked 0 hs) (marked_headers 0 hs) (fun _ => 0)
    have hok : (reassemblePacket (marked 0 hs) (fun _ => 0) maxPacketSize).1 ≠ -1 := by
      rcases reassemblePacket_cases (marked 0 hs) (fun _ => 0) maxPacketSize with
        ⟨hno, _⟩ | ⟨_, _, first, _, hr⟩ | ⟨_, base, _, _, hfit, hr⟩
      · rw [marked_headers] at hno
        exact absurd hacc hno
      · rw [hr]
        show (first.payloadLen.toNat : Int) ≠ -1
        omega
      · obtain ⟨n, hn, _⟩ := copySymbols_fits (marked 0 hs) 0 (memzero (fun _ => 0) maxPacketSize)
          hfit
        rw [hr, hn]
        omega
    have hc := (hm hok).1
    rw [marked_headers] at hc
    exact hc
  · rintro h l rfl out hok
    rcases reassemblePacket_cases l out maxPacketSize with ⟨_, hneg⟩ | ⟨hacc, _⟩ | ⟨hacc, _⟩
    · exact absurd hneg hok
    · exact sound_of_laidOut (h hacc).1 (h hacc).2 out hok
    · exact sound_of_laidOut (h hacc).1 (h hacc).2 out hok

/-! ## A fragment twice -/

/-- Fragment 0 of a packet of two. -/
def firstOfTwo : Symbol :=
  { symbolInit with packetId := 7, totalSymbols := 2, payloadLen := 4 }

/-- Fragment 0 twice and fragment 1 not at all: accepted. -/
theorem reassemblePacket_duplicate :
    ¬ ∀ (l : List Symbol) (maxPacketSize : Nat), l ≠ [] → Sound l maxPacketSize := by
  intro h
  have hok : (reassemblePacket [firstOfTwo, firstOfTwo] (fun _ => 0) 16).1 ≠ -1 := by decide
  have hc := (h [firstOfTwo, firstOfTwo] 16 (by decide) (fun _ => 0) hok).1
  exact absurd hc.indices (by decide)

end ReassemblySound
