import FsoGateway.TxInvariant

/-! # Runs of the TX pipeline

    `RunInv` is what holds between two calls of `tx_pipeline_run_once`, and
    `runInv_run` carries it along a run.

    * `tx_invariant` — the builder is never full between two calls, the window
      is not ready and holds only complete rows, no add or push was refused
      and no call failed. -/

namespace FsoTxPipeline

open ByteBuffer FsoTypes ErasureCode FecWrapper FsoBlockBuilder FsoInterleaver
  PacketFragmenter SymbolCrc

/-! ## The invariant between two calls -/

/-- What holds between two calls. -/
structure RunInv (wh : Wirehair) (pl : TxPipeline) : Prop where
  cfg : CfgOk pl.cfg
  recovers : Encodes wh.encoding pl.cfg.k (pl.cfg.k + pl.cfg.m) pl.cfg.symbolSize
  counter : pl.packetIdCounter = UInt32.ofNat pl.accepted.length
  lengths : ∀ pkt ∈ pl.accepted, pkt.length ≤ txRxBufSize
  hist : ∃ h, Rel wh pl h (allFrags pl.cfg.symbolSize pl.accepted)

/-- What `tx_pipeline_create` accepts and what it gives. -/
theorem txPipelineCreate_some {mem : Nat → Nat → Symbol} {lanMac : List UInt8}
    {cfg : Config} {pl : TxPipeline} (hc : txPipelineCreate mem lanMac cfg = some pl) :
    2 ≤ cfg.k ∧ 0 < cfg.symbolSize ∧ 1 ≤ cfg.depth ∧ cfg.k + cfg.m ≤ maxSymbolsPerBlock ∧
      ∃ builder fec il, blockBuilderInit cfg.k cfg.symbolSize = some builder ∧
        fecCreate cfg.k cfg.symbolSize = some fec ∧
        interleaverCreate mem cfg.depth (cfg.k + cfg.m) cfg.symbolSize
          txInterleaverFlushTimeoutMs = some il ∧
        pl =
          { cfg, builder, fec, interleaver := il, packetIdCounter := 0
            fragSyms := mem 0
            maxFragsPerPacket :=
              max ((txMaxPacketLen + cfg.symbolSize - 1) / cfg.symbolSize) cfg.k
            repairSyms := mem 1
            lanMac, clock := 0, sent := [], accepted := [], blocksBuilt := 0
            refusedAdds := 0 } := by
  rw [txPipelineCreate] at hc
  cases hb : blockBuilderInit cfg.k cfg.symbolSize with
  | none =>
      rw [hb] at hc
      exact nomatch hc
  | some builder =>
      cases hf : fecCreate cfg.k cfg.symbolSize with
      | none =>
          rw [hb, hf] at hc
          exact nomatch hc
      | some fec =>
          cases hi : interleaverCreate mem cfg.depth (cfg.k + cfg.m) cfg.symbolSize
              txInterleaverFlushTimeoutMs with
          | none =>
              rw [hb, hf, hi] at hc
              exact nomatch hc
          | some il =>
              rw [hb, hf, hi] at hc
              have hfec : ¬ (cfg.k < 2 ∨ cfg.symbolSize = 0) := by
                intro hbad
                rw [fecCreate, if_pos hbad] at hf
                exact nomatch hf
              have hil : ¬ (cfg.depth < 1 ∨ cfg.k + cfg.m < 1 ∨
                  maxSymbolsPerBlock < cfg.k + cfg.m ∨ cfg.symbolSize = 0) := by
                intro hbad
                rw [interleaverCreate, if_pos hbad] at hi
                exact nomatch hi
              exact ⟨by omega, by omega, by omega, by omega, builder, fec, il, rfl, rfl, rfl,
                (Option.some.inj hc).symm⟩

theorem create_codeOk {mem : Nat → Nat → Symbol} {lanMac : List UInt8} {cfg : Config}
    {pl : TxPipeline} (hc : txPipelineCreate mem lanMac cfg = some pl) (hm : 1 ≤ cfg.m) :
    CodeOk cfg := by
  obtain ⟨hk, hsize, hdepth, hlen, -⟩ := txPipelineCreate_some hc
  exact
    { source := hk
      repair := hm
      length := hlen
      depth := hdepth
      symbolSize := hsize }

theorem create_cfgOk {mem : Nat → Nat → Symbol} {lanMac : List UInt8} {cfg : Config}
    {pl : TxPipeline} (hc : txPipelineCreate mem lanMac cfg = some pl) (hm : 1 ≤ cfg.m)
    (hss : cfg.symbolSize ≤ maxSymbolDataSize) : CfgOk cfg where
  toCodeOk := create_codeOk hc hm
  fits := hss

theorem create_blocksBuilt {mem : Nat → Nat → Symbol} {lanMac : List UInt8}
    {cfg : Config} {pl : TxPipeline}
    (hc : txPipelineCreate mem lanMac cfg = some pl) : pl.blocksBuilt = 0 := by
  obtain ⟨-, -, -, -, builder, fec, il, -, -, -, rfl⟩ := txPipelineCreate_some hc
  rfl

/-- Nothing happened yet. -/
theorem rel_create {wh : Wirehair} {mem : Nat → Nat → Symbol} {lanMac : List UInt8}
    {cfg : Config} {pl : TxPipeline} (hc : txPipelineCreate mem lanMac cfg = some pl) :
    pl.cfg = cfg ∧ pl.accepted = [] ∧ pl.packetIdCounter = 0 ∧ pl.clock = 0 ∧
      pl.maxFragsPerPacket
        = max ((txMaxPacketLen + cfg.symbolSize - 1) / cfg.symbolSize) cfg.k ∧
      Rel wh pl ⟨[], [], [], []⟩ [] := by
  obtain ⟨hk, hsize, hdepth, hlen, builder, fec, il, hb, hf, hi, rfl⟩ :=
    txPipelineCreate_some hc
  rw [blockBuilderInit, if_neg (by omega)] at hb
  rw [fecCreate, if_neg (by omega)] at hf
  rw [interleaverCreate, if_neg (by omega)] at hi
  rw [← Option.some.inj hb, ← Option.some.inj hf, ← Option.some.inj hi]
  refine ⟨rfl, rfl, rfl, rfl, rfl, ?_⟩
  exact
    { core :=
        { shape := ⟨rfl, rfl, rfl, rfl, rfl, rfl⟩
          blockId := rfl
          built := rfl
          holds := holds_reset hdepth
          sent := rfl
          rows := rfl
          windows := fun w hw => absurd hw List.not_mem_nil
          frags := rfl
          blocks := fun b hb => absurd hb List.not_mem_nil
          refused := rfl }
      builder := ⟨rfl, fun i hi => absurd hi (Nat.not_lt_zero i)⟩
      room := show 0 < cfg.k by omega
      endsWell := endsWell_nil cfg }

theorem runInv_create {wh : Wirehair} {mem : Nat → Nat → Symbol} {lanMac : List UInt8}
    {cfg : Config} {pl : TxPipeline} (hc : txPipelineCreate mem lanMac cfg = some pl)
    (hm : 1 ≤ cfg.m) (hss : cfg.symbolSize ≤ maxSymbolDataSize)
    (hwh : Encodes wh.encoding cfg.k (cfg.k + cfg.m) cfg.symbolSize) :
    RunInv wh pl ∧ pl.cfg = cfg ∧ pl.accepted = [] ∧
      pl.maxFragsPerPacket
        = max ((txMaxPacketLen + cfg.symbolSize - 1) / cfg.symbolSize) cfg.k := by
  have hcfgOk := create_cfgOk hc hm hss
  obtain ⟨hcfg, hacc, hcnt, -, hmax, hrel⟩ := @rel_create wh mem lanMac cfg pl hc
  refine ⟨⟨?_, ?_, ?_, ?_, ⟨[], [], [], []⟩, ?_⟩, hcfg, hacc, hmax⟩
  · rw [hcfg]
    exact hcfgOk
  · rw [hcfg]
    exact hwh
  · rw [hcnt, hacc]
    rfl
  · rw [hacc]
    exact fun _ h => absurd h List.not_mem_nil
  · rw [hacc]
    exact hrel

theorem runInv_of_same {wh : Wirehair} {pl pl' : TxPipeline} {h : TxHist}
    (hi : RunInv wh pl) (hs : SameTx pl pl')
    (hr : Rel wh pl' h (allFrags pl.cfg.symbolSize pl.accepted)) : RunInv wh pl' where
  cfg := by rw [hs.cfg]; exact hi.cfg
  recovers := by rw [hs.cfg]; exact hi.recovers
  counter := by rw [hs.packetIdCounter, hs.accepted]; exact hi.counter
  lengths := by rw [hs.accepted]; exact hi.lengths
  hist := by rw [hs.cfg, hs.accepted]; exact ⟨h, hr⟩

/-! ## One call -/

theorem fragsOf_length (ss number : Nat) (pkt : List UInt8) :
    (fragsOf ss number pkt).length = fragmentCount pkt.length ss := by
  rw [fragsOf, List.length_map, List.length_range]

theorem fragsOf_total {ss number : Nat} {pkt : List UInt8} {f : Frag}
    (hf : f ∈ fragsOf ss number pkt) : f.total ss = fragmentCount pkt.length ss := by
  obtain ⟨i, -, rfl⟩ := List.mem_map.mp hf
  rfl

theorem fragsOf_last {ss number : Nat} {pkt : List UInt8} {f : Frag}
    (hf : f ∈ (fragsOf ss number pkt).getLast?) : f.idx + 1 = f.total ss := by
  rw [fragsOf_total (List.mem_of_getLast? hf)]
  rw [fragsOf, List.getLast?_map, List.getLast?_range] at hf
  by_cases hz : fragmentCount pkt.length ss = 0
  · rw [if_pos hz] at hf
    exact nomatch hf
  · rw [if_neg hz] at hf
    rw [← Option.some.inj hf]
    exact Nat.sub_add_cancel (Nat.pos_of_ne_zero hz)

/-- **An accepted frame**: flush the builder when the frame does not fit behind
    what it holds, add the fragments, look at the timeouts. -/
theorem addPacket_spec {wh : Wirehair} (clk : Nat → Nat) {pl : TxPipeline}
    {h : TxHist} {frags fs : List Frag} {n : Nat} (hcfg : CodeOk pl.cfg)
    (hwh : Encodes wh.encoding pl.cfg.k (pl.cfg.k + pl.cfg.m) pl.cfg.symbolSize)
    (hr : Rel wh pl h frags) (hn : fs.length = n)
    (hsyms : (List.range n).map pl.fragSyms = fs.map (Frag.symbol pl.cfg.symbolSize))
    (htotal : ∀ f ∈ fs, f.total pl.cfg.symbolSize = n)
    (hlast : ∀ f ∈ fs.getLast?, f.idx + 1 = f.total pl.cfg.symbolSize) :
    let r := addPacket wh clk n pl
    r.1 = 0 ∧ SameTx pl r.2 ∧ ∃ h', Rel wh r.2 h' (frags ++ fs) ∧
      Logs wh pl.cfg h h' (callsPacket wh clk n pl) := by
  intro r
  -- once the builder has room for the frame, or is empty, the rest follows
  have hrest : ∀ {pl1 : TxPipeline} {h1 : TxHist} {first : List TxPipeline},
      SameTx pl pl1 → Rel wh pl1 h1 frags → Logs wh pl.cfg h h1 first →
      (h1.cur.length + n ≤ pl.cfg.k ∨ pl.cfg.k < n) →
      r = (let a := addFragments wh clk ((List.range n).map pl1.fragSyms) pl1
        if a.1 ≠ 0 then (-1, a.2) else checkTimeoutAndTick wh clk a.2) →
      callsPacket wh clk n pl
        = (let a := addFragments wh clk ((List.range n).map pl1.fragSyms) pl1
          first ++ (callsAdd wh clk ((List.range n).map pl1.fragSyms) pl1
            ++ if a.1 ≠ 0 then [] else callsTimeout clk a.2)) →
      r.1 = 0 ∧ SameTx pl r.2 ∧ ∃ h', Rel wh r.2 h' (frags ++ fs) ∧
        Logs wh pl.cfg h h' (callsPacket wh clk n pl) := by
    intro pl1 h1 first hs1 hr1 hfirst hfit hres hcalls
    rw [← hs1.cfg] at hcfg hwh hsyms htotal hlast hfit hfirst
    obtain ⟨ha0, has, h2, hr2, hadd⟩ := addFragments_spec clk fs hcfg hwh hr1.core hr1.builder
      hr1.room (fun _ => hr1.endsWell) hlast (by
        rw [hn]
        rcases hfit with hle | hbig
        · exact .inl hle
        · exact .inr fun f hf => by rw [htotal f hf]; exact hbig)
    rw [hs1.fragSyms, hsyms] at hres hcalls
    rw [← has.cfg] at hcfg hwh
    obtain ⟨hc0, hcs, h3, hr3, hend⟩ := checkTimeoutAndTick_spec clk hcfg hwh hr2
    have hres' : r = checkTimeoutAndTick wh clk
        (addFragments wh clk (fs.map (Frag.symbol pl1.cfg.symbolSize)) pl1).2 := by
      rw [hres]
      exact if_neg (not_not_intro ha0)
    have hcalls' : callsPacket wh clk n pl
        = first ++ (callsAdd wh clk (fs.map (Frag.symbol pl1.cfg.symbolSize)) pl1
          ++ callsTimeout clk
            (addFragments wh clk (fs.map (Frag.symbol pl1.cfg.symbolSize)) pl1).2) := by
      rw [hcalls]
      simp only [if_neg (not_not_intro ha0)]
    have hlogs : Logs wh pl.cfg h h3 (callsPacket wh clk n pl) := by
      rw [has.cfg] at hend
      rw [hcalls', ← hs1.cfg]
      exact hfirst.trans (hadd.trans hend)
    rw [hres']
    exact ⟨hc0, (hs1.trans has).trans hcs, h3, hr3, hlogs⟩
  have hcount := hr.builder.count
  by_cases hflush : 0 < n ∧ 0 < pl.builder.symbolCount ∧
      pl.builder.kLimit < pl.builder.symbolCount + n
  · have hne : h.cur ≠ [] := by
      intro hnil
      rw [hnil, List.length_nil] at hcount
      omega
    obtain ⟨hf0, hfs, hfr, hflog⟩ := flushBuilder_spec clk hcfg hwh hr hne
    have hcfg2 : CodeOk (flushBuilder wh clk pl).2.cfg := by
      rw [hfs.cfg]
      exact hcfg
    obtain ⟨hts, h2, hr2, hcur, hblocks⟩ := tick_rel clk hcfg2 hfr
    refine hrest (hfs.trans hts) hr2 (hflog.trans (.of_blocks hblocks)) ?_ ?_ ?_
    · rw [hcur]
      show 0 + n ≤ pl.cfg.k ∨ _
      omega
    · show addPacket wh clk n pl = _
      rw [addPacket]
      simp only [if_pos hflush]
      exact if_neg (not_not_intro hf0)
    · rw [callsPacket]
      simp only [if_pos hflush]
      exact congrArg ([finalized pl] ++ ·) (if_neg (not_not_intro hf0))
  · refine hrest (SameTx.refl pl) hr (.of_blocks rfl) ?_ ?_ ?_
    · have hk := hr.core.shape.kLimit
      have hroom := hr.room
      omega
    · show addPacket wh clk n pl = _
      rw [addPacket]
      simp only [if_neg hflush]
      exact if_neg (not_not_intro rfl)
    · rw [callsPacket]
      simp only [if_neg hflush]
      exact congrArg ([] ++ ·) (if_neg (not_not_intro rfl))

/-- The symbols that `fragment_packet` leaves in the fragment array. -/
theorem fragsOf_symbols {ss number n : Nat} {pkt : List UInt8} {out : Nat → Symbol}
    (hn : fragmentCount pkt.length ss = n)
    (h : ∀ i, i < n → out i = fragment pkt (UInt32.ofNat number) ss i) :
    (List.range n).map out = (fragsOf ss number pkt).map (Frag.symbol ss) := by
  rw [fragsOf, List.map_map, hn]
  exact List.map_congr_left fun i hi => h i (List.mem_range.mp hi)

/-- The fragments are not in the builder yet. -/
theorem Rel.accepting {wh : Wirehair} {pl : TxPipeline} {h : TxHist} {frags : List Frag}
    (hr : Rel wh pl h frags) (pkt : List UInt8) (out : Nat → Symbol) :
    Rel wh (accepting pl pkt out) h frags := by
  have hc := hr.core
  exact
    { core :=
        { shape := ⟨hc.shape.fec, hc.shape.kLimit, hc.shape.builderSize, hc.shape.depth,
            hc.shape.n, hc.shape.symbolSize⟩
          blockId := hc.blockId
          built := hc.built
          holds := hc.holds
          sent := hc.sent
          rows := hc.rows
          windows := hc.windows
          frags := hc.frags
          blocks := hc.blocks
          refused := hc.refused }
      builder := hr.builder
      room := hr.room
      endsWell := hr.endsWell }

theorem runInv_accepted {wh : Wirehair} {pl pl' : TxPipeline} {h : TxHist}
    {pkt : List UInt8} {out : Nat → Symbol} (hi : RunInv wh pl)
    (hlen : pkt.length ≤ txRxBufSize) (hs : SameTx (accepting pl pkt out) pl')
    (hr : Rel wh pl' h (allFrags pl'.cfg.symbolSize pl'.accepted)) : RunInv wh pl' where
  cfg := by rw [hs.cfg]; exact hi.cfg
  recovers := by rw [hs.cfg]; exact hi.recovers
  counter := by
    rw [hs.packetIdCounter, hs.accepted]
    show pl.packetIdCounter + 1 = UInt32.ofNat (pl.accepted ++ [pkt]).length
    rw [hi.counter, List.length_append, List.length_singleton, UInt32.ofNat_add]
    rfl
  lengths := by
    rw [hs.accepted]
    intro x hx
    rcases List.mem_append.mp hx with hx | hx
    · exact hi.lengths x hx
    · rw [List.mem_singleton.mp hx]
      exact hlen
  hist := ⟨h, hr⟩

/-- **A frame that is taken** is added, and the invariant holds again. -/
theorem rel_accept {wh : Wirehair} (clk : Nat → Nat) {pl : TxPipeline} {h : TxHist}
    {pkt : List UInt8} {out : Nat → Symbol}
    (hi : RunInv wh pl) (hr : Rel wh pl h (allFrags pl.cfg.symbolSize pl.accepted))
    (hlen : pkt.length ≤ txRxBufSize)
    (hout : ∀ i, i < fragmentCount pkt.length pl.cfg.symbolSize →
      out i = fragment pkt pl.packetIdCounter pl.cfg.symbolSize i) :
    let n := fragmentCount pkt.length pl.cfg.symbolSize
    let r := addPacket wh clk n (accepting pl pkt out)
    r.1 = 0 ∧ RunInv wh r.2 ∧ r.2.cfg = pl.cfg ∧
      ∃ h', Rel wh r.2 h' (allFrags r.2.cfg.symbolSize r.2.accepted) ∧
        Logs wh pl.cfg h h' (callsPacket wh clk n (accepting pl pkt out)) := by
  intro n r
  have hcfg1 : CodeOk (accepting pl pkt out).cfg := hi.cfg.toCodeOk
  have hr1 := hr.accepting pkt out
  rw [hi.counter] at hout
  obtain ⟨h0, hs, h', hr', hlogs⟩ := addPacket_spec clk hcfg1 hi.recovers hr1
    (fragsOf_length _ _ _) (fragsOf_symbols rfl hout)
    (fun f hf => fragsOf_total hf) (fun f hf => fragsOf_last hf)
  replace hs : SameTx (accepting pl pkt out) r.2 := hs
  have hr2 : Rel wh r.2 h' (allFrags r.2.cfg.symbolSize r.2.accepted) := by
    rw [hs.cfg, hs.accepted]
    show Rel wh r.2 h' (allFrags pl.cfg.symbolSize (pl.accepted ++ [pkt]))
    rw [allFrags_append]
    exact hr'
  exact ⟨h0, runInv_accepted hi hlen hs hr2, hs.cfg, h', hr2, hlogs⟩

/-- **One call** succeeds, keeps the invariant, and logs the blocks it builds. -/
theorem rel_runOnce {wh : Wirehair} (clk : Nat → Nat) {pl : TxPipeline} {h : TxHist}
    (hi : RunInv wh pl) (hr : Rel wh pl h (allFrags pl.cfg.symbolSize pl.accepted))
    (ev : TxEvent) :
    let r := txPipelineRunOnce wh clk pl ev
    r.1 = 0 ∧ RunInv wh r.2 ∧ r.2.cfg = pl.cfg ∧
      ∃ h', Rel wh r.2 h' (allFrags r.2.cfg.symbolSize r.2.accepted) ∧
        Logs wh pl.cfg h h' (callsOnce wh clk pl ev) := by
  have hsilent : pl.cfg = pl.cfg ∧
      ∃ h', Rel wh pl h' (allFrags pl.cfg.symbolSize pl.accepted) ∧
        Logs wh pl.cfg h h' [] := ⟨rfl, h, hr, .of_blocks rfl⟩
  cases ev with
  | idle =>
      obtain ⟨h0, hs, h', hr', hlogs⟩ :=
        checkTimeoutAndTick_spec clk hi.cfg.toCodeOk hi.recovers hr
      refine ⟨h0, runInv_of_same hi hs hr', hs.cfg, h', ?_, hlogs⟩
      show Rel wh (checkTimeoutAndTick wh clk pl).2 h' (allFrags
        (checkTimeoutAndTick wh clk pl).2.cfg.symbolSize
        (checkTimeoutAndTick wh clk pl).2.accepted)
      rw [hs.cfg, hs.accepted]
      exact hr'
  | error => exact ⟨rfl, hi, hsilent⟩
  | frame pkt answered =>
      intro r
      have hss16 : (UInt16.ofNat pl.cfg.symbolSize).toNat = pl.cfg.symbolSize := by
        have h9000 : pl.cfg.symbolSize ≤ 9000 := hi.cfg.fits
        rw [UInt16.toNat_ofNat']
        omega
      have hspec := fragmentPacket_spec (pkt.take txRxBufSize) pl.packetIdCounter
        (show 0 < (UInt16.ofNat pl.cfg.symbolSize).toNat by rw [hss16]; exact hi.cfg.symbolSize)
        (by rw [hss16]; exact hi.cfg.fits)
        pl.fragSyms (UInt16.ofNat pl.maxFragsPerPacket)
      rw [hss16] at hspec
      have hlen : (pkt.take txRxBufSize).length ≤ txRxBufSize := List.length_take_le ..
      have hr0 : r = _ := runOnce_frame wh clk pl pkt answered
      rw [callsOnce_frame]
      cases frameWay pl pkt answered with
      | ignored way =>
          rw [way] at hr0
          rw [way, hr0]
          exact ⟨rfl, hi, hsilent⟩
      | refused fp cut neg way =>
          rw [way] at hr0
          rw [cut] at hspec
          rcases hspec with ⟨-, hrej⟩ | ⟨-, hcnt, -⟩
          · rw [way, hr0, hrej]
            exact ⟨rfl, hi, hsilent⟩
          · omega
      | taken fp cut nonneg way =>
          rw [way] at hr0
          rw [cut] at hspec
          rcases hspec with ⟨-, hrej⟩ | ⟨-, hcnt, hsyms⟩
          · rw [hrej] at nonneg
            exact absurd (show (-1 : Int) < 0 by decide) nonneg
          · rw [hcnt, Int.toNat_natCast] at hr0
            rw [way, hr0, hcnt, Int.toNat_natCast]
            exact rel_accept clk hi hr hlen hsyms

/-- **One call** succeeds and keeps the invariant. -/
theorem runInv_runOnce {wh : Wirehair} (clk : Nat → Nat) {pl : TxPipeline}
    (hi : RunInv wh pl) (ev : TxEvent) :
    let r := txPipelineRunOnce wh clk pl ev
    r.1 = 0 ∧ RunInv wh r.2 ∧ r.2.cfg = pl.cfg := by
  obtain ⟨h, hr⟩ := hi.hist
  obtain ⟨h0, h1, hcfg, -⟩ := rel_runOnce clk hi hr ev
  exact ⟨h0, h1, hcfg⟩

/-! ## Runs -/

/-- A run goes on after a call that succeeds. -/
theorem txRun_cons {wh : Wirehair} {clk : Nat → Nat} {ev : TxEvent} (evs : List TxEvent)
    {pl : TxPipeline} (h0 : (txPipelineRunOnce wh clk pl ev).1 = 0) :
    txRun wh clk (ev :: evs) pl = txRun wh clk evs (txPipelineRunOnce wh clk pl ev).2 := by
  rw [txRun]
  refine if_neg ?_
  rw [h0]
  decide

/-- What makes every call succeed and is kept by it makes a run succeed. -/
theorem txRun_succeeds {wh : Wirehair} {clk : Nat → Nat} {P : TxPipeline → Prop}
    (hstep : ∀ {pl}, P pl → ∀ ev,
      (txPipelineRunOnce wh clk pl ev).1 = 0 ∧ P (txPipelineRunOnce wh clk pl ev).2)
    (evs : List TxEvent) {pl : TxPipeline} (hp : P pl) :
    (txRun wh clk evs pl).1 = 0 ∧ P (txRun wh clk evs pl).2 := by
  induction evs generalizing pl with
  | nil => exact ⟨rfl, hp⟩
  | cons ev evs ih =>
      obtain ⟨h0, h1⟩ := hstep hp ev
      rw [txRun_cons evs h0]
      exact ih h1

/-- **A whole run** succeeds and keeps the invariant. -/
theorem runInv_run {wh : Wirehair} (clk : Nat → Nat) (evs : List TxEvent)
    {pl : TxPipeline} (hi : RunInv wh pl) :
    let r := txRun wh clk evs pl
    r.1 = 0 ∧ RunInv wh r.2 ∧ r.2.cfg = pl.cfg := by
  refine txRun_succeeds (P := fun p => RunInv wh p ∧ p.cfg = pl.cfg) ?_ evs ⟨hi, rfl⟩
  rintro p ⟨hp, hpcfg⟩ ev
  obtain ⟨h0, h1, hcfg⟩ := runInv_runOnce clk hp ev
  exact ⟨h0, h1, hcfg.trans hpcfg⟩

/-- **The calls of a whole run** are those for the blocks it builds. -/
theorem logs_run {wh : Wirehair} (clk : Nat → Nat) (evs : List TxEvent)
    {pl : TxPipeline} {h : TxHist} (hi : RunInv wh pl)
    (hr : Rel wh pl h (allFrags pl.cfg.symbolSize pl.accepted)) :
    let r := txRun wh clk evs pl
    ∃ h', Rel wh r.2 h' (allFrags r.2.cfg.symbolSize r.2.accepted) ∧
      Logs wh pl.cfg h h' (callsRun wh clk evs pl) := by
  induction evs generalizing pl h with
  | nil => exact ⟨h, hr, .of_blocks rfl⟩
  | cons ev evs ih =>
      obtain ⟨h0, h1, hcfg, h', hr', hlogs⟩ := rel_runOnce clk hi hr ev
      have hne : (txPipelineRunOnce wh clk pl ev).1 ≠ -1 := by
        rw [h0]
        decide
      have hcalls : callsRun wh clk (ev :: evs) pl
          = callsOnce wh clk pl ev
            ++ callsRun wh clk evs (txPipelineRunOnce wh clk pl ev).2 := by
        rw [callsRun]
        simp only [if_neg hne]
      rw [txRun_cons evs h0, hcalls]
      obtain ⟨h2, hr2, hrest⟩ := ih h1 hr'
      rw [hcfg] at hrest
      exact ⟨h2, hr2, hlogs.trans hrest⟩

/-- Row `r` of the window holds all the symbols of one block. -/
structure CompleteRow (cfg : Config) (il : Interleaver) (r : Nat) : Prop where
  count : (il.slots r).symbolCount = cfg.k + cfg.m
  packetId : ∀ c, c < cfg.k + cfg.m → (il.matrix r c).packetId = il.rowBlockKey r
  fecId : ∀ c, c < cfg.k + cfg.m → (il.matrix r c).fecId.toNat = c

/-- Every symbol of a block carries its id and its own position. -/
theorem blockRow_header (wh : Wirehair) (cfg : Config) (j : Nat) (frags : List Frag)
    (c : Nat) :
    ((blockRow wh cfg j frags).cells c).packetId = blockIdOf j ∧
      ((blockRow wh cfg j frags).cells c).fecId = UInt32.ofNat c := by
  show (encodedSymbol wh cfg (blockIdOf j) _ c).packetId = _ ∧
    (encodedSymbol wh cfg (blockIdOf j) _ c).fecId = _
  rw [encodedSymbol]
  by_cases hlt : c < cfg.k
  · rw [if_pos hlt]
    exact ⟨(stampCrc_header _ _).1, (stampCrc_header _ _).2.1⟩
  · rw [if_neg hlt]
    refine ⟨(stampCrc_header _ _).1, ?_⟩
    rw [show c = cfg.k + (c - cfg.k) by omega]
    simp only [Nat.add_sub_cancel_left]
    exact (stampCrc_header _ _).2.1

theorem Core.completeRow {wh : Wirehair} {pl : TxPipeline} {h : TxHist}
    {frags : List Frag} (hc : Core wh pl h frags) (hcfg : CfgOk pl.cfg) {r : Nat}
    (hr : r < pl.cfg.depth) (ha : pl.interleaver.rowAssigned r = true) :
    CompleteRow pl.cfg pl.interleaver r := by
  have hn := hc.shape.n
  by_cases hlt : r < h.rows.length
  · have hrow := hc.holds.done r hlt
    have hmem : h.rows[r] ∈ h.allRows wh pl.cfg := by
      rw [← hc.rows]
      exact List.mem_append_right _ (List.getElem_mem hlt)
    obtain ⟨p, -, hp⟩ := List.mem_map.mp hmem
    have hhead : ∀ c, c < pl.cfg.k + pl.cfg.m →
        (h.rows[r].cells c).packetId = h.rows[r].key ∧
          (h.rows[r].cells c).fecId = UInt32.ofNat c := by
      intro c hcc
      rw [← hp]
      exact blockRow_header wh pl.cfg _ _ c
    have hlen : pl.cfg.k + pl.cfg.m ≤ 256 := hcfg.length
    refine ⟨by rw [hrow.count, hn], ?_, ?_⟩
    · intro c hcc
      have h1 := (header_eq_of_clip _ (hrow.cells c (by rw [hn]; exact hcc))).1
      rw [h1, (hhead c hcc).1, hrow.key]
    · intro c hcc
      have h1 := (header_eq_of_clip _ (hrow.cells c (by rw [hn]; exact hcc))).2.1
      rw [h1, (hhead c hcc).2]
      exact toNat_ofNat_lt (by omega)
  · have hfree := hc.holds.free r (Nat.le_of_not_lt hlt) (by rw [hc.shape.depth]; exact hr)
    rw [hfree.assigned] at ha
    exact nomatch ha

/-- **The TX pipeline between two calls**: no call failed, so no symbol was
    refused by the interleaver, and none was refused by the builder; the
    builder has room; the window is not ready, has a free row, and every
    assigned row is complete.

    No bound on the number of blocks is needed: a window has fewer than
    `2 ^ 31` rows, so that ids that wrapped never meet in one. -/
theorem tx_invariant (wh : Wirehair) (clk : Nat → Nat) (mem : Nat → Nat → Symbol)
    (lanMac : List UInt8) (cfg : Config) (pl0 : TxPipeline)
    (hcreate : txPipelineCreate mem lanMac cfg = some pl0) (hm : 1 ≤ cfg.m)
    (hss : cfg.symbolSize ≤ maxSymbolDataSize)
    (hwh : Encodes wh.encoding cfg.k (cfg.k + cfg.m) cfg.symbolSize) (evs : List TxEvent) :
    let r := txRun wh clk evs pl0
    r.1 = 0 ∧ r.2.refusedAdds = 0 ∧
      r.2.builder.kLimit = cfg.k ∧ r.2.builder.symbolCount < cfg.k ∧
      r.2.interleaver.ready = false ∧ r.2.interleaver.windowBlockCount < cfg.depth ∧
      ∀ row, row < cfg.depth → r.2.interleaver.rowAssigned row = true →
        CompleteRow cfg r.2.interleaver row := by
  obtain ⟨hinit, hcfg0, -⟩ := runInv_create hcreate hm hss hwh
  obtain ⟨h0, hi, hcfg⟩ := runInv_run clk evs hinit
  intro r
  have hrcfg : r.2.cfg = cfg := hcfg.trans hcfg0
  obtain ⟨h, hr⟩ := hi.hist
  have hroom := hr.core.holds.room
  rw [← hrcfg]
  refine ⟨h0, hr.core.refused, hr.core.shape.kLimit, ?_, hr.core.holds.notReady, ?_, ?_⟩
  · rw [hr.builder.count]
    exact hr.room
  · rw [hr.core.holds.windowCount, ← hr.core.shape.depth]
    exact hroom
  · intro row hrow ha
    exact hr.core.completeRow hi.cfg hrow ha

/-- The smallest link: `k = 2`, `m = 1`, two rows, four bytes a symbol. -/
def smallLink : Config where
  k := 2
  m := 1
  depth := 2
  symbolSize := 4
  internalSymbolCrcEnabled := true

/-- Its pipeline, over cleared memory. -/
def smallPipeline : TxPipeline :=
  (txPipelineCreate (fun _ _ => symbolInit) [] smallLink).get rfl

/-- `tx_invariant` there, after a frame of three fragments. -/
theorem tx_invariant_smallLink :
    (txRun parity (fun t => t) [.frame [1, 2, 3, 4, 5, 6, 7, 8, 9] false]
      smallPipeline).1 = 0 :=
  (tx_invariant parity (fun t => t) (fun _ _ => symbolInit) [] smallLink smallPipeline
    rfl (by decide) (by decide) (parity_recovers 4).toEncodes _).1

end FsoTxPipeline
