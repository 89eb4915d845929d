import FsoGateway.RxPipeline

/-! # The walk over a decoded block

    `drain_ready_blocks` walks over the source positions of a block and
    collects fragments until as many are there as the first one announces; a
    fragment with index 0 drops an unfinished group.  So a frame is only ever
    sent when its group is complete (`addToGroup_eq`), and the positions fall
    into runs that can be looked at one by one:

    * `fold_group` — what one run contributes;
    * `fold_packets` — the fragments of whole packets give these packets;
    * `Grouped`, `fold_grouped` — the runs of any block, whatever its headers. -/

namespace FsoRxPipeline

open ByteBuffer FsoTypes PacketFragmenter PacketReassembler

/-! ## One turn -/

/-- The symbol that a turn rebuilds: the header of `s` over other bytes. -/
def rebuilt (s : Symbol) (data : Buffer) : Symbol :=
  { s with crc32 := 0, data := memcpy (fun _ => 0) data s.payloadLen.toNat }

theorem reconstruct_rebuilt (ss : Nat) (symbols : Nat → Symbol) (recon : Buffer) (i : Nat) :
    reconstruct ss symbols recon i = rebuilt (symbols i) fun o => recon (i * ss + o) := rfl

/-- Neither the CRC nor a byte past the payload counts. -/
theorem rebuilt_congr {s s' : Symbol} {d d' : Buffer} (h1 : s.packetId = s'.packetId)
    (h2 : s.fecId = s'.fecId) (h3 : s.symbolIndex = s'.symbolIndex)
    (h4 : s.totalSymbols = s'.totalSymbols) (h5 : s.payloadLen = s'.payloadLen)
    (hd : ∀ o, o < s.payloadLen.toNat → d o = d' o) : rebuilt s d = rebuilt s' d' := by
  have hdata : memcpy (fun _ => 0) d s.payloadLen.toNat
      = memcpy (fun _ => 0) d' s.payloadLen.toNat := by
    funext o
    rw [memcpy, memcpy]
    by_cases ho : o < s.payloadLen.toNat
    · rw [if_pos ho, if_pos ho, hd o ho]
    · rw [if_neg ho, if_neg ho]
  rw [rebuilt, rebuilt, hdata, h1, h2, h3, h4, h5]

/-- What holds between two turns, `n` of them made: the group is not complete. -/
structure WalkOk (w : Walk) (n : Nat) : Prop where
  pending : isComplete w.group = false
  room : w.group.length ≤ n

theorem isComplete_cons (s : Symbol) (l : List Symbol) :
    isComplete (s :: l) = decide (s.totalSymbols.toNat ≤ (s :: l).length) := rfl

/-- An unfinished group gives nothing. -/
theorem reassembled_pending {l : List Symbol} (h : isComplete l = false) :
    reassembled l = [] := by
  rw [reassembled]
  refine if_neg fun hpos => ?_
  obtain ⟨first, rest, rfl, hlen⟩ := reassemblePacket_count hpos
  rw [isComplete_cons, hlen, decide_eq_true le_rfl] at h
  exact nomatch h

/-- The group that a symbol ends up in. -/
def joined (w : Walk) (s : Symbol) : List Symbol :=
  if s.symbolIndex = 0 then [s] else w.group ++ [s]

/-- **One turn**: the symbol joins the group, or starts one when its index is
    0; a group that is complete is reassembled at once. -/
theorem addToGroup_eq {w : Walk} {n : Nat} (hw : WalkOk w n)
    (hn : n < maxSymbolsPerBlock) (s : Symbol) :
    addToGroup w s =
      if isComplete (joined w s) then ⟨[], w.frames ++ reassembled (joined w s)⟩
      else ⟨joined w s, w.frames⟩ := by
  have hflush : flushBefore w s =
      if s.symbolIndex = 0 then ⟨[], w.frames⟩ else w := by
    rw [flushBefore]
    by_cases h0 : s.symbolIndex = 0
    · rw [if_pos h0]
      by_cases hnil : w.group = []
      · rw [if_neg fun h => h.1 hnil]
        rw [← hnil]
      · rw [if_pos ⟨hnil, .inr h0⟩, flushGroup, reassembled_pending hw.pending,
          List.append_nil]
    · rw [if_neg h0, hw.pending]
      refine if_neg fun h => ?_
      rcases h.2 with h2 | h2
      · exact nomatch h2
      · exact h0 h2
  have hroom := hw.room
  have hadd : (if (flushBefore w s).group.length < maxSymbolsPerBlock then
      { flushBefore w s with group := (flushBefore w s).group ++ [s] }
      else flushBefore w s) = ⟨joined w s, w.frames⟩ := by
    rw [hflush, joined]
    by_cases h0 : s.symbolIndex = 0
    · rw [if_pos h0, if_pos h0]
      rfl
    · rw [if_neg h0, if_neg h0, if_pos (by omega)]
  rw [addToGroup]
  simp only [hadd]
  rfl

theorem walkOk_addToGroup {w : Walk} {n : Nat} (hw : WalkOk w n)
    (hn : n < maxSymbolsPerBlock) (s : Symbol) : WalkOk (addToGroup w s) (n + 1) := by
  rw [addToGroup_eq hw hn]
  cases hc : isComplete (joined w s) with
  | true =>
      rw [if_pos rfl]
      exact ⟨rfl, Nat.zero_le _⟩
  | false =>
      rw [if_neg Bool.false_ne_true]
      refine ⟨hc, ?_⟩
      have hroom := hw.room
      show (joined w s).length ≤ n + 1
      rw [joined]
      split
      · simp
      · rw [List.length_append, List.length_singleton]
        omega

theorem walkOk_fold {w : Walk} {n : Nat} (hw : WalkOk w n) (l : List Symbol)
    (hn : n + l.length ≤ maxSymbolsPerBlock) :
    WalkOk (l.foldl addToGroup w) (n + l.length) := by
  induction l generalizing w n with
  | nil => exact hw
  | cons s l ih =>
      rw [List.length_cons] at hn
      have h := ih (walkOk_addToGroup hw (by omega) s) (by omega)
      rw [List.length_cons, List.foldl_cons, Nat.add_comm l.length 1, ← Nat.add_assoc]
      exact h

/-! ## One run -/

/-- The fragments that follow the first one of a run. -/
theorem fold_inner {w : Walk} {n : Nat} {s : Symbol} {g : List Symbol}
    (hw : WalkOk w n) (hg : w.group = s :: g) (l : List Symbol)
    (hn : n + l.length ≤ maxSymbolsPerBlock) (hinner : ∀ x ∈ l, x.symbolIndex ≠ 0)
    (hle : (s :: g ++ l).length ≤ s.totalSymbols.toNat) :
    l.foldl addToGroup w =
      if s.totalSymbols.toNat ≤ (s :: g ++ l).length then
        ⟨[], w.frames ++ reassembled (s :: g ++ l)⟩
      else ⟨s :: g ++ l, w.frames⟩ := by
  induction l generalizing w n g with
  | nil =>
      have hp := hw.pending
      rw [hg, isComplete_cons, decide_eq_false_iff_not] at hp
      rw [List.append_nil, if_neg hp, ← hg]
      rfl
  | cons x l ih =>
      rw [List.length_cons] at hn
      have hjoin : joined w x = s :: (g ++ [x]) := by
        rw [joined, if_neg (hinner x List.mem_cons_self), hg]
        rfl
      have hassoc : s :: g ++ x :: l = s :: (g ++ [x]) ++ l := by simp
      have hstep := addToGroup_eq hw (by omega) x
      have hok := walkOk_addToGroup hw (by omega) x
      rw [hjoin, isComplete_cons] at hstep
      rw [hassoc] at hle ⊢
      rw [List.foldl_cons]
      by_cases hc : s.totalSymbols.toNat ≤ (s :: (g ++ [x])).length
      · have hnil : l = [] := by
          rw [List.length_append] at hle
          exact List.length_eq_zero_iff.mp (by omega)
        subst hnil
        rw [List.append_nil, if_pos hc, hstep, decide_eq_true hc]
        rfl
      · rw [decide_eq_false hc, if_neg Bool.false_ne_true] at hstep
        have h := ih (g := g ++ [x]) hok (by rw [hstep]) (by omega)
          (fun y hy => hinner y (List.mem_cons_of_mem _ hy)) hle
        rw [h, hstep]

/-- **One run**: a first symbol, at the start or with index 0, and symbols
    with other indices, not more than the first one announces. -/
theorem fold_group {w : Walk} {n : Nat} (hw : WalkOk w n) (s : Symbol) (l : List Symbol)
    (hn : n + (s :: l).length ≤ maxSymbolsPerBlock)
    (hstart : w.group = [] ∨ s.symbolIndex = 0) (hinner : ∀ x ∈ l, x.symbolIndex ≠ 0)
    (hle : (s :: l).length ≤ max 1 s.totalSymbols.toNat) :
    (s :: l).foldl addToGroup w =
      if s.totalSymbols.toNat ≤ (s :: l).length then
        ⟨[], w.frames ++ reassembled (s :: l)⟩
      else ⟨s :: l, w.frames⟩ := by
  rw [List.length_cons] at hn
  have hjoin : joined w s = [s] := by
    rw [joined]
    by_cases h0 : s.symbolIndex = 0
    · rw [if_pos h0]
    · rw [if_neg h0, hstart.resolve_right h0]
      rfl
  have hstep := addToGroup_eq hw (by omega) s
  have hok := walkOk_addToGroup hw (by omega) s
  rw [hjoin, isComplete_cons] at hstep
  rw [List.foldl_cons]
  by_cases hc : s.totalSymbols.toNat ≤ [s].length
  · have hnil : l = [] := by
      rw [List.length_cons] at hle
      rw [List.length_singleton] at hc
      exact List.length_eq_zero_iff.mp (by omega)
    subst hnil
    rw [if_pos hc, hstep, decide_eq_true hc]
    rfl
  · rw [decide_eq_false hc, if_neg Bool.false_ne_true] at hstep
    rw [List.length_singleton] at hc
    have h := fold_inner (g := []) hok (by rw [hstep]) l (by omega) hinner
      (by rw [Nat.max_eq_right (by omega)] at hle; exact hle)
    rw [h, hstep]
    rfl

/-! ## Whole packets -/

/-- The fragments of a packet, in order. -/
structure PacketGroup (ss : Nat) (pkt : List UInt8) (l : List Symbol) : Prop where
  pos : 0 < pkt.length
  fits : pkt.length ≤ reassemBufSize
  length : l.length = fragmentCount pkt.length ss
  total : ∀ s ∈ l.head?, s.totalSymbols.toNat = fragmentCount pkt.length ss
  frag : ∀ i (h : i < l.length), FragmentOf ss pkt i l[i]

section Packets

variable {ss : Nat} {pkt : List UInt8} {l : List Symbol}

theorem PacketGroup.reassembled (h : PacketGroup ss pkt l) (hss : 0 < ss) :
    reassembled l = [pkt] := by
  obtain ⟨out, hr, hb⟩ :=
    reassemblePacket_fragments hss h.pos h.fits l h.length h.total h.frag fun _ => 0
  have hpos := h.pos
  rw [FsoRxPipeline.reassembled, hr]
  show (if (0 : Int) < pkt.length then [bytes out pkt.length] else []) = _
  rw [if_pos (by omega), hb]

/-- **A whole packet** in the walk. -/
theorem PacketGroup.fold (h : PacketGroup ss pkt l) (hss : 0 < ss) {w : Walk} {n : Nat}
    (hw : WalkOk w n) (hn : n + l.length ≤ maxSymbolsPerBlock) :
    l.foldl addToGroup w = ⟨[], w.frames ++ [pkt]⟩ := by
  have hcount : 0 < fragmentCount pkt.length ss :=
    (fragmentCount_lt_iff hss).mpr (by rw [Nat.zero_mul]; exact h.pos)
  have hr := h.reassembled hss
  have hlen := h.length
  have hfrag := h.frag
  have htotal := h.total
  cases l with
  | nil =>
      rw [List.length_nil] at hlen
      omega
  | cons s l =>
      have h0 : FragmentOf ss pkt 0 s := hfrag 0 (Nat.succ_pos _)
      have htot := htotal s rfl
      rw [fold_group hw s l hn (.inr ?_) ?_ (by omega), if_pos (by omega), hr]
      · exact UInt16.toNat_inj.mp h0.index
      · intro x hx
        obtain ⟨i, hi, rfl⟩ := List.mem_iff_getElem.mp hx
        have h1 := (hfrag (i + 1) (Nat.succ_lt_succ hi)).index
        intro hz
        rw [List.getElem_cons_succ, hz] at h1
        exact absurd h1 (show ¬ 0 = i + 1 by omega)

end Packets

/-- **Whole packets**, one after the other. -/
theorem fold_packets {ss : Nat} (hss : 0 < ss)
    {gs : List (List Symbol)} {pkts : List (List UInt8)}
    (h : List.Forall₂ (fun l pkt => PacketGroup ss pkt l) gs pkts) {w : Walk} {n : Nat}
    (hw : WalkOk w n) (hn : n + gs.flatten.length ≤ maxSymbolsPerBlock) :
    (gs.flatten.foldl addToGroup w).frames = w.frames ++ pkts := by
  induction h generalizing w n with
  | nil => exact (List.append_nil _).symm
  | @cons l pkt gs pkts hg _ ih =>
      rw [List.flatten_cons, List.length_append] at hn
      have hok := walkOk_fold hw l (by omega)
      rw [List.flatten_cons, List.foldl_append]
      rw [ih hok (by omega), hg.fold hss hw (by omega)]
      simp

/-! ## Any block -/

/-- The positions below `n` that are walked over. -/
def walkedPositions (k : Nat) (symbols : Nat → Symbol) (n : Nat) : List Nat :=
  (List.range n).filter fun i => !isSkipped k (symbols i)

theorem walkedPositions_length (k : Nat) (symbols : Nat → Symbol) (n : Nat) :
    (walkedPositions k symbols n).length ≤ n :=
  (List.length_filter_le _ _).trans (Nat.le_of_eq List.length_range)

/-- The walk is a walk over these. -/
theorem walkSymbols_eq (cfg : Config) (symbols : Nat → Symbol) (recon : Buffer) (n : Nat) :
    walkSymbols cfg symbols recon n
      = ((walkedPositions cfg.k symbols n).map
          (reconstruct cfg.symbolSize symbols recon)).foldl addToGroup ⟨[], []⟩ := by
  rw [walkSymbols, walkedPositions, List.foldl_map, List.foldl_filter]
  refine congrArg (fun f => List.foldl f _ _) ?_
  funext w i
  rw [walkStep]
  cases isSkipped cfg.k (symbols i) <;> rfl

theorem walkSymbols_succ (cfg : Config) (symbols : Nat → Symbol) (recon : Buffer)
    (n : Nat) :
    walkSymbols cfg symbols recon (n + 1)
      = if isSkipped cfg.k (symbols n) then walkSymbols cfg symbols recon n
        else addToGroup (walkSymbols cfg symbols recon n)
          (reconstruct cfg.symbolSize symbols recon n) := by
  rw [walkSymbols, List.range_succ, List.foldl_append]
  rfl

theorem walkOk_start : WalkOk ⟨[], []⟩ 0 := ⟨rfl, Nat.le_refl 0⟩

theorem walkOk_walkSymbols (cfg : Config) (symbols : Nat → Symbol) (recon : Buffer)
    {n : Nat} (hn : n ≤ maxSymbolsPerBlock) :
    WalkOk (walkSymbols cfg symbols recon n) n := by
  have hlen := walkedPositions_length cfg.k symbols n
  have h := walkOk_fold walkOk_start ((walkedPositions cfg.k symbols n).map
    (reconstruct cfg.symbolSize symbols recon)) (by rw [List.length_map]; omega)
  rw [List.length_map] at h
  rw [walkSymbols_eq]
  exact ⟨h.pending, by have := h.room; omega⟩

/-- What was sent stays sent. -/
theorem walkSymbols_frames (cfg : Config) (symbols : Nat → Symbol) (recon : Buffer)
    {n n' : Nat} (hle : n ≤ n') (hn : n' ≤ maxSymbolsPerBlock) :
    (walkSymbols cfg symbols recon n).frames
      <+: (walkSymbols cfg symbols recon n').frames := by
  induction n', hle using Nat.le_induction with
  | base => exact List.prefix_refl _
  | succ i hi ih =>
      refine (ih (by omega)).trans ?_
      rw [walkSymbols_succ]
      split
      · exact List.prefix_refl _
      · rw [addToGroup_eq (walkOk_walkSymbols cfg symbols recon (by omega)) (by omega)]
        split
        · exact List.prefix_append _ _
        · exact List.prefix_refl _

/-- The flush at the end of a block sends nothing. -/
theorem blockFrames_eq (cfg : Config) (symbols : Nat → Symbol) (recon : Buffer)
    (hk : cfg.k ≤ maxSymbolsPerBlock) :
    blockFrames cfg symbols recon = (walkSymbols cfg symbols recon cfg.k).frames := by
  have hw := walkOk_walkSymbols cfg symbols recon hk
  rw [blockFrames]
  by_cases hnil : (walkSymbols cfg symbols recon cfg.k).group = []
  · exact if_pos hnil
  · refine (if_neg hnil).trans ?_
    rw [flushGroup, reassembled_pending hw.pending, List.append_nil]

/-- A list of positions falls into runs.  A run starts behind a complete one
    or with index 0, goes on with other indices, and is complete when it is
    as long as its first symbol announces; `ok` holds of every complete run. -/
inductive Grouped (symbols : Nat → Symbol) (ok : List Nat → Prop) :
    Bool → List Nat → Prop
  | nil {unfinished : Bool} : Grouped symbols ok unfinished []
  | run {unfinished : Bool} (p : Nat) (l : List Nat) {rest : List Nat}
      (hstart : unfinished = false ∨ (symbols p).symbolIndex = 0)
      (hinner : ∀ q ∈ l, (symbols q).symbolIndex ≠ 0)
      (hle : (p :: l).length ≤ max 1 (symbols p).totalSymbols.toNat)
      (hok : (symbols p).totalSymbols.toNat ≤ (p :: l).length → ok (p :: l))
      (hrest : Grouped symbols ok
        (decide ((p :: l).length < (symbols p).totalSymbols.toNat)) rest) :
      Grouped symbols ok unfinished (p :: l ++ rest)

/-- **The frames of a block** come from its complete runs. -/
theorem fold_grouped {symbols : Nat → Symbol} {ok : List Nat → Prop} {sym : Nat → Symbol}
    (hidx : ∀ i, (sym i).symbolIndex = (symbols i).symbolIndex)
    (htot : ∀ i, (sym i).totalSymbols = (symbols i).totalSymbols)
    {unfinished : Bool} {ps : List Nat} (h : Grouped symbols ok unfinished ps) {w : Walk}
    {n : Nat} (hw : WalkOk w n) (hstart : unfinished = false → w.group = [])
    (hn : n + ps.length ≤ maxSymbolsPerBlock) {f : List UInt8}
    (hf : f ∈ ((ps.map sym).foldl addToGroup w).frames) :
    f ∈ w.frames ∨
      ∃ run, ok run ∧ (∀ q ∈ run, q ∈ ps) ∧ f ∈ reassembled (run.map sym) := by
  induction h generalizing w n with
  | nil => exact .inl hf
  | @run unfinished p l rest hs hinner hle hok hrest ih =>
      rw [List.length_append] at hn
      rw [List.map_append, List.foldl_append] at hf
      have hlen : ((p :: l).map sym).length = (p :: l).length := List.length_map _
      have hrun := fold_group hw (sym p) (l.map sym)
        (by rw [List.map_cons] at hlen; omega)
        (by
          rw [hidx]
          exact hs.imp hstart id)
        (by
          intro x hx
          obtain ⟨q, hq, rfl⟩ := List.mem_map.mp hx
          rw [hidx]
          exact hinner q hq)
        (by
          rw [List.map_cons] at hlen
          rw [htot, hlen]
          exact hle)
      rw [← List.map_cons (f := sym), hlen, htot] at hrun
      have hok' := walkOk_fold hw ((p :: l).map sym) (by rw [hlen]; omega)
      rw [hlen] at hok'
      rw [hrun] at hf hok'
      by_cases hc : (symbols p).totalSymbols.toNat ≤ (p :: l).length
      · rw [if_pos hc] at hf hok'
        rcases ih hok' (fun _ => rfl) (by omega) hf with hin | ⟨run, h1, h2, h3⟩
        · rcases List.mem_append.mp hin with h1 | h1
          · exact .inl h1
          · exact .inr ⟨_, hok hc, fun q hq => List.mem_append_left _ hq, h1⟩
        · exact .inr ⟨run, h1, fun q hq => List.mem_append_right _ (h2 q hq), h3⟩
      · rw [if_neg hc] at hf hok'
        have hlt := Nat.lt_of_not_le hc
        rcases ih (w := ⟨(p :: l).map sym, w.frames⟩) hok'
            (fun hd => absurd (of_decide_eq_false hd) (not_not_intro hlt)) (by omega) hf
          with hin | ⟨run, h1, h2, h3⟩
        · exact .inl hin
        · exact .inr ⟨run, h1, fun q hq => List.mem_append_right _ (h2 q hq), h3⟩

end FsoRxPipeline
