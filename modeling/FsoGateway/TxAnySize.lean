import FsoGateway.TxRuns

/-! # Any symbol size

    `fragment_packet` is given `(uint16_t)symbol_size`; every other stage works
    with `symbol_size` itself.  The two differ from `2 ^ 16` on, where a symbol
    carries fewer bytes than are copied along with it.

    The invariant of the TX pipeline speaks of one size.  It covers both all the
    same: the fragments of a frame, cut to the 16-bit size, are those of a longer
    frame, cut to `symbol_size` (`spread`, `fragment_spread`).

    * `SizedInv`, `sized_run` — the invariant between two calls, for every
      configuration that `tx_pipeline_create` accepts;
    * `acceptedSymbols` — what `fragment_packet` made of the accepted frames. -/

namespace FsoTxPipeline

open ByteBuffer FsoTypes ErasureCode FecWrapper FsoBlockBuilder FsoInterleaver
  PacketFragmenter SymbolCrc

/-- The symbol size that `fragment_packet` is given. -/
def fragSize (cfg : Config) : Nat := (UInt16.ofNat cfg.symbolSize).toNat

theorem fragSize_eq (cfg : Config) : fragSize cfg = cfg.symbolSize % 2 ^ 16 :=
  UInt16.toNat_ofNat'

/-! ## One frame -/

/-- A frame whose fragments of `ss` bytes are those of `pkt` of `fs` bytes. -/
def spread (ss fs : Nat) (pkt : List UInt8) : List UInt8 :=
  (List.range ((fragmentCount pkt.length fs - 1) * ss
      + (pkt.length - (fragmentCount pkt.length fs - 1) * fs))).map
    fun p => if p % ss < fs then pkt.getD (p / ss * fs + p % ss) 0 else 0

section Spread

variable {ss fs : Nat} {pkt : List UInt8}

theorem spread_length (ss fs : Nat) (pkt : List UInt8) : (spread ss fs pkt).length
    = (fragmentCount pkt.length fs - 1) * ss
      + (pkt.length - (fragmentCount pkt.length fs - 1) * fs) := by
  rw [spread, List.length_map, List.length_range]

/-- The last fragment. -/
theorem last_fragment (hfs : 0 < fs) {n : Nat} (hn : fragmentCount pkt.length fs = n + 1) :
    n * fs < pkt.length ∧ pkt.length ≤ n * fs + fs := by
  constructor
  · exact (fragmentCount_lt_iff hfs).mp (by omega)
  · have hnot : ¬ (n + 1) * fs < pkt.length := by
      rw [← fragmentCount_lt_iff hfs]
      omega
    rw [Nat.succ_mul] at hnot
    omega

theorem spread_count (hfs : 0 < fs) (hle : fs ≤ ss) :
    fragmentCount (spread ss fs pkt).length ss = fragmentCount pkt.length fs := by
  have hlt : ∀ i, i < fragmentCount (spread ss fs pkt).length ss
      ↔ i < fragmentCount pkt.length fs := by
    intro i
    rw [fragmentCount_lt_iff (by omega), spread_length]
    cases hn : fragmentCount pkt.length fs with
    | zero =>
        have hlen : pkt.length = 0 := by
          have hnot : ¬ 0 < fragmentCount pkt.length fs := by omega
          rw [fragmentCount_lt_iff hfs] at hnot
          omega
        rw [hlen, Nat.zero_sub, Nat.zero_sub, Nat.zero_mul]
        exact ⟨fun h => absurd h (Nat.not_lt_zero _), fun h => absurd h (Nat.not_lt_zero _)⟩
    | succ n =>
        obtain ⟨h1, h2⟩ := last_fragment hfs hn
        rw [Nat.add_sub_cancel]
        constructor
        · intro h
          by_contra hge
          have hmul : (n + 1) * ss ≤ i * ss := Nat.mul_le_mul_right _ (by omega)
          rw [Nat.succ_mul] at hmul
          omega
        · intro h
          have hmul : i * ss ≤ n * ss := Nat.mul_le_mul_right _ (by omega)
          omega
  have h1 := hlt (fragmentCount pkt.length fs)
  have h2 := hlt (fragmentCount (spread ss fs pkt).length ss)
  omega

theorem spread_getD {p : Nat} (hp : p < (spread ss fs pkt).length) :
    (spread ss fs pkt).getD p 0
      = if p % ss < fs then pkt.getD (p / ss * fs + p % ss) 0 else 0 := by
  rw [spread_length] at hp
  rw [spread, List.getD_eq_getElem?_getD, List.getElem?_map, List.getElem?_range hp]
  rfl

/-- The two lengths of fragment `i`: equal for the last one, the two sizes for
    any other. -/
theorem spread_fragmentLen (hfs : 0 < fs) (hle : fs ≤ ss) {i : Nat}
    (hi : i < fragmentCount pkt.length fs) :
    (fragmentLen (spread ss fs pkt).length ss i = ss ∧ fragmentLen pkt.length fs i = fs) ∨
      (fragmentLen (spread ss fs pkt).length ss i = fragmentLen pkt.length fs i ∧
        fragmentLen pkt.length fs i ≤ fs) := by
  have hcount := @spread_count ss fs pkt hfs hle
  by_cases hlast : i + 1 < fragmentCount pkt.length fs
  · exact .inl ⟨fragmentLen_full (by omega) (by omega), fragmentLen_full hfs hlast⟩
  · refine .inr ⟨?_, fragmentLen_le _ _ _⟩
    have hn : fragmentCount pkt.length fs = i + 1 := by omega
    obtain ⟨h1, h2⟩ := last_fragment hfs hn
    rw [fragmentLen, fragmentLen, spread_length, hn, Nat.add_sub_cancel]
    omega

/-- **The same fragments**, when the two sizes agree modulo `2 ^ 16`. -/
theorem fragment_spread (hfs : 0 < fs) (hle : fs ≤ ss)
    (h16 : UInt16.ofNat ss = UInt16.ofNat fs) (id : UInt32) {i : Nat}
    (hi : i < fragmentCount pkt.length fs) :
    fragment (spread ss fs pkt) id ss i = fragment pkt id fs i := by
  have hcount := @spread_count ss fs pkt hfs hle
  have hcases := @spread_fragmentLen ss fs pkt hfs hle i hi
  have hlen : UInt16.ofNat (fragmentLen (spread ss fs pkt).length ss i)
      = UInt16.ofNat (fragmentLen pkt.length fs i) := by
    rcases hcases with ⟨h1, h2⟩ | ⟨h1, -⟩
    · rw [h1, h2, h16]
    · rw [h1]
  have hdata : memcpy symbolInit.data (ofList ((spread ss fs pkt).drop (i * ss)))
        (fragmentLen (spread ss fs pkt).length ss i)
      = memcpy symbolInit.data (ofList (pkt.drop (i * fs))) (fragmentLen pkt.length fs i) := by
    funext o
    -- byte `o` of piece `i`: the packet's while it lasts, then padding
    have hin : o < fragmentLen (spread ss fs pkt).length ss i →
        ofList ((spread ss fs pkt).drop (i * ss)) o
          = if o < fs then pkt.getD (i * fs + o) 0 else 0 := by
      intro ho
      have hss : o < ss := Nat.lt_of_lt_of_le ho (fragmentLen_le _ _ _)
      have hmod : (i * ss + o) % ss = o := by
        rw [Nat.mul_comm, Nat.mul_add_mod, Nat.mod_eq_of_lt hss]
      have hdiv : (i * ss + o) / ss = i := by
        rw [Nat.mul_comm, Nat.mul_add_div (by omega), Nat.div_eq_of_lt hss, Nat.add_zero]
      rw [fragmentLen] at ho
      rw [ofList_drop]
      show (spread ss fs pkt).getD (i * ss + o) 0 = _
      rw [spread_getD (by omega), hmod, hdiv]
    have hout : ofList (pkt.drop (i * fs)) o = pkt.getD (i * fs + o) 0 := by
      rw [ofList_drop]
      rfl
    rw [memcpy, memcpy, hout]
    rcases hcases with ⟨h1, h2⟩ | ⟨h1, h2⟩
    · rw [h1] at hin ⊢
      rw [h2]
      by_cases ho : o < ss
      · rw [if_pos ho, hin ho]
        rfl
      · rw [if_neg ho, if_neg (by omega)]
    · rw [h1] at hin ⊢
      by_cases ho : o < fragmentLen pkt.length fs i
      · rw [if_pos ho, if_pos ho, hin ho, if_pos (by omega)]
      · rw [if_neg ho, if_neg ho]
  rw [fragment, fragment, hcount, hlen, hdata]

end Spread

/-! ## The frames of a run -/

/-- The symbols that `fragment_packet` made of the accepted frames, in order. -/
def acceptedSymbols (fs : Nat) (accepted : List (List UInt8)) : List Symbol :=
  accepted.zipIdx.flatMap fun p =>
    (List.range (fragmentCount p.1.length fs)).map (fragment p.1 (UInt32.ofNat p.2) fs)

/-- The frames that the invariant is told of. -/
def spreadAll (cfg : Config) (accepted : List (List UInt8)) : List (List UInt8) :=
  accepted.map (spread cfg.symbolSize (fragSize cfg))

/-- The size that `fragment_packet` is given is one it takes. -/
structure FragSizeOk (cfg : Config) : Prop where
  pos : 0 < fragSize cfg
  fits : fragSize cfg ≤ maxSymbolDataSize

theorem fragSize_le (cfg : Config) : fragSize cfg ≤ cfg.symbolSize := by
  rw [fragSize_eq]
  exact Nat.mod_le _ _

theorem fragSize_ofNat (cfg : Config) :
    UInt16.ofNat cfg.symbolSize = UInt16.ofNat (fragSize cfg) :=
  (UInt16.ofNat_toNat ..).symm

/-- The fragments of one spread frame. -/
theorem fragsOf_spread {cfg : Config} (h : FragSizeOk cfg) (number : Nat) (pkt : List UInt8) :
    (fragsOf cfg.symbolSize number (spread cfg.symbolSize (fragSize cfg) pkt)).map
        (Frag.symbol cfg.symbolSize)
      = (List.range (fragmentCount pkt.length (fragSize cfg))).map
        (fragment pkt (UInt32.ofNat number) (fragSize cfg)) := by
  rw [fragsOf, List.map_map, spread_count h.pos (fragSize_le cfg)]
  refine List.map_congr_left fun i hi => ?_
  exact fragment_spread h.pos (fragSize_le cfg) (fragSize_ofNat cfg) _ (List.mem_range.mp hi)

/-- **The fragments of the spread frames** are the symbols of the frames. -/
theorem allFrags_spread {cfg : Config} {accepted : List (List UInt8)}
    (h : accepted ≠ [] → FragSizeOk cfg) :
    (allFrags cfg.symbolSize (spreadAll cfg accepted)).map (Frag.symbol cfg.symbolSize)
      = acceptedSymbols (fragSize cfg) accepted := by
  rw [allFrags, acceptedSymbols, spreadAll, List.zipIdx_map, List.flatMap_map,
    List.map_flatMap]
  refine List.flatMap_congr fun p hp => ?_
  have hne : accepted ≠ [] := by
    rintro rfl
    cases hp
  exact fragsOf_spread (h hne) p.2 p.1

/-! ## The invariant -/

/-- What holds between two calls, whatever the symbol size. -/
structure SizedInv (wh : Wirehair) (pl : TxPipeline) : Prop where
  cfg : CodeOk pl.cfg
  recovers : Encodes wh.encoding pl.cfg.k (pl.cfg.k + pl.cfg.m) pl.cfg.symbolSize
  counter : pl.packetIdCounter = UInt32.ofNat pl.accepted.length
  size : pl.accepted ≠ [] → FragSizeOk pl.cfg
  hist : ∃ h, Rel wh pl h (allFrags pl.cfg.symbolSize (spreadAll pl.cfg pl.accepted))

theorem sizedInv_create {wh : Wirehair} {mem : Nat → Nat → Symbol} {lanMac : List UInt8}
    {cfg : Config} {pl : TxPipeline} (hc : txPipelineCreate mem lanMac cfg = some pl)
    (hm : 1 ≤ cfg.m) (hwh : Encodes wh.encoding cfg.k (cfg.k + cfg.m) cfg.symbolSize) :
    SizedInv wh pl ∧ pl.cfg = cfg := by
  obtain ⟨hcfg, hacc, hcnt, -, -, hrel⟩ := @rel_create wh mem lanMac cfg pl hc
  refine ⟨⟨?_, ?_, ?_, ?_, ⟨[], [], [], []⟩, ?_⟩, hcfg⟩
  · rw [hcfg]
    exact create_codeOk hc hm
  · rw [hcfg]
    exact hwh
  · rw [hcnt, hacc]
    rfl
  · exact fun hne => absurd hacc hne
  · rw [hacc]
    exact hrel

/-- **A received frame** is ignored, or it is cut and its fragments are added. -/
theorem runOnce_frame_cases (wh : Wirehair) (clk : Nat → Nat) (pl : TxPipeline)
    (pkt : List UInt8) (answered : Bool) :
    txPipelineRunOnce wh clk pl (.frame pkt answered) = (0, pl) ∨
      ∃ out, FragSizeOk pl.cfg ∧
        (∀ i < fragmentCount (pkt.take txRxBufSize).length (fragSize pl.cfg),
          out i = fragment (pkt.take txRxBufSize) pl.packetIdCounter (fragSize pl.cfg) i) ∧
        txPipelineRunOnce wh clk pl (.frame pkt answered)
          = addPacket wh clk (fragmentCount (pkt.take txRxBufSize).length (fragSize pl.cfg))
            (accepting pl (pkt.take txRxBufSize) out) := by
  rw [runOnce_frame]
  by_cases hsize : FragSizeOk pl.cfg
  · have hspec := fragmentPacket_spec (pkt.take txRxBufSize) pl.packetIdCounter hsize.pos
      hsize.fits pl.fragSyms (UInt16.ofNat pl.maxFragsPerPacket)
    cases frameWay pl pkt answered with
    | ignored way => exact .inl (way ..)
    | refused r cut neg way =>
        rw [cut] at hspec
        rcases hspec with ⟨-, hrej⟩ | ⟨-, hcnt, -⟩
        · exact .inl (by rw [way, hrej])
        · omega
    | taken r cut nonneg way =>
        rw [cut] at hspec
        rcases hspec with ⟨-, hrej⟩ | ⟨-, hcnt, hsyms⟩
        · rw [hrej] at nonneg
          exact absurd (show (-1 : Int) < 0 by decide) nonneg
        · refine .inr ⟨r.2, hsize, hsyms, ?_⟩
          rw [way, hcnt, Int.toNat_natCast]
          rfl
  · cases frameWay pl pkt answered with
    | ignored way => exact .inl (way ..)
    | refused r cut neg way =>
        rw [fragmentPacket_refused fun h => hsize ⟨h.1, h.2⟩] at cut
        exact .inl (by rw [way, ← cut])
    | taken r cut nonneg way =>
        rw [← cut, fragmentPacket_refused fun h => hsize ⟨h.1, h.2⟩] at nonneg
        exact absurd (show (-1 : Int) < 0 by decide) nonneg

/-- **A frame that is taken** is added, and the invariant holds again. -/
theorem sized_accept {wh : Wirehair} (clk : Nat → Nat) {pl : TxPipeline}
    {pkt : List UInt8} {out : Nat → Symbol} (hi : SizedInv wh pl) (hsize : FragSizeOk pl.cfg)
    (hout : ∀ i < fragmentCount pkt.length (fragSize pl.cfg),
      out i = fragment pkt pl.packetIdCounter (fragSize pl.cfg) i) :
    let r := addPacket wh clk (fragmentCount pkt.length (fragSize pl.cfg))
      (accepting pl pkt out)
    r.1 = 0 ∧ SizedInv wh r.2 ∧ r.2.cfg = pl.cfg := by
  intro r
  obtain ⟨h, hr⟩ := hi.hist
  have hcfg1 : CodeOk (accepting pl pkt out).cfg := hi.cfg
  have hspread := fragsOf_spread hsize pl.accepted.length pkt
  have hcount : fragmentCount (spread pl.cfg.symbolSize (fragSize pl.cfg) pkt).length
      pl.cfg.symbolSize = fragmentCount pkt.length (fragSize pl.cfg) :=
    spread_count hsize.pos (fragSize_le pl.cfg)
  rw [hi.counter] at hout
  obtain ⟨h0, hs, h', hr', -⟩ := addPacket_spec clk hcfg1 hi.recovers (hr.accepting pkt out)
    ((fragsOf_length pl.cfg.symbolSize pl.accepted.length _).trans hcount)
    (by
      rw [show (accepting pl pkt out).cfg = pl.cfg from rfl, hspread]
      exact List.map_congr_left fun i hi => hout i (List.mem_range.mp hi))
    (fun f hf => (fragsOf_total hf).trans hcount) (fun f hf => fragsOf_last hf)
  replace hs : SameTx (accepting pl pkt out) r.2 := hs
  have hacc : r.2.accepted = pl.accepted ++ [pkt] := hs.accepted
  have hcfg : r.2.cfg = pl.cfg := hs.cfg
  refine ⟨h0, ⟨?_, ?_, ?_, ?_, h', ?_⟩, hcfg⟩
  · rw [hcfg]
    exact hi.cfg
  · rw [hcfg]
    exact hi.recovers
  · rw [hs.packetIdCounter, hacc, List.length_append, List.length_singleton, UInt32.ofNat_add]
    show pl.packetIdCounter + 1 = _
    rw [hi.counter]
    rfl
  · rw [hcfg]
    exact fun _ => hsize
  · rw [hcfg, hacc, spreadAll, List.map_append, List.map_singleton, allFrags_append,
      List.length_map]
    exact hr'

theorem sizedInv_of_same {wh : Wirehair} {pl pl' : TxPipeline} {h : TxHist}
    (hi : SizedInv wh pl) (hs : SameTx pl pl')
    (hr : Rel wh pl' h (allFrags pl.cfg.symbolSize (spreadAll pl.cfg pl.accepted))) :
    SizedInv wh pl' where
  cfg := by rw [hs.cfg]; exact hi.cfg
  recovers := by rw [hs.cfg]; exact hi.recovers
  counter := by rw [hs.packetIdCounter, hs.accepted]; exact hi.counter
  size := by rw [hs.cfg, hs.accepted]; exact hi.size
  hist := by rw [hs.cfg, hs.accepted]; exact ⟨h, hr⟩

/-- **One call** succeeds and keeps the invariant. -/
theorem sized_runOnce {wh : Wirehair} (clk : Nat → Nat) {pl : TxPipeline}
    (hi : SizedInv wh pl) (ev : TxEvent) :
    let r := txPipelineRunOnce wh clk pl ev
    r.1 = 0 ∧ SizedInv wh r.2 ∧ r.2.cfg = pl.cfg := by
  cases ev with
  | idle =>
      obtain ⟨h, hr⟩ := hi.hist
      obtain ⟨h0, hs, h', hr', -⟩ := checkTimeoutAndTick_spec clk hi.cfg hi.recovers hr
      exact ⟨h0, sizedInv_of_same hi hs hr', hs.cfg⟩
  | error => exact ⟨rfl, hi, rfl⟩
  | frame pkt answered =>
      intro r
      rcases runOnce_frame_cases wh clk pl pkt answered with hr | ⟨out, hsize, hout, hr⟩
      · rw [show r = (0, pl) from hr]
        exact ⟨rfl, hi, rfl⟩
      · rw [show r = _ from hr]
        exact sized_accept clk hi hsize hout

/-- **A whole run** succeeds and keeps the invariant. -/
theorem sized_run {wh : Wirehair} (clk : Nat → Nat) (evs : List TxEvent)
    {pl : TxPipeline} (hi : SizedInv wh pl) :
    let r := txRun wh clk evs pl
    r.1 = 0 ∧ SizedInv wh r.2 ∧ r.2.cfg = pl.cfg := by
  refine txRun_succeeds (P := fun p => SizedInv wh p ∧ p.cfg = pl.cfg) ?_ evs ⟨hi, rfl⟩
  rintro p ⟨hp, hpcfg⟩ ev
  obtain ⟨h0, h1, hcfg⟩ := sized_runOnce clk hp ev
  exact ⟨h0, h1, hcfg.trans hpcfg⟩

end FsoTxPipeline
