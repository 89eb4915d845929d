import FsoGateway.SentBlocks

/-! # The order of what was sent

    * `Stream` — the symbols of a block are sent in the order of their
      positions, and at any time at most `depth` blocks are under way;
    * `windows_last` — the last symbols of the blocks are sent in the order of
      the blocks;
    * `whole_frames` — blocks that end at the end of a frame are made of whole
      frames, which is so for every block when each frame fits in one
      (`flushed_run`). -/

namespace FsoLink

open ByteBuffer FsoTypes ErasureCode FecWrapper FsoTxPipeline FsoRxPipeline FsoInterleaver
  PacketFragmenter SymbolCrc

/-- The symbols of block `id`, in order. -/
def ofBlock (id : UInt32) (l : List Symbol) : List Symbol :=
  l.filter fun s => s.packetId == id

/-- The last symbol of a block of `n`. -/
def isLast (n : Nat) (s : Symbol) : Bool := s.packetId != 0 && s.fecId.toNat + 1 == n

theorem ofBlock_append (id : UInt32) (l l' : List Symbol) :
    ofBlock id (l ++ l') = ofBlock id l ++ ofBlock id l' := List.filter_append ..

theorem mem_ofBlock {id : UInt32} {l : List Symbol} {s : Symbol} :
    s ∈ ofBlock id l ↔ s ∈ l ∧ s.packetId = id := by
  rw [ofBlock, List.mem_filter, beq_iff_eq]

/-- **The stream**, as far as the order of its symbols goes. -/
structure Stream (cfg : Config) (sent : List Symbol) : Prop where
  inOrder : ∀ id, id ≠ 0 → ofBlock id sent = [] ∨
    (ofBlock id sent).map (fun s => s.fecId.toNat) = List.range (cfg.k + cfg.m)
  underWay : ∀ pre post, sent = pre ++ post → ∃ ids : List UInt32,
    ids.length ≤ cfg.depth ∧ ∀ id, id ≠ 0 → 0 < (ofBlock id pre).length →
      (ofBlock id pre).length < cfg.k + cfg.m → id ∈ ids

/-! ## Windows -/

section Windows

variable {cfg : Config} {ws : List (List Row)}

/-- The symbols of a block in the windows sent so far. -/
theorem windows_ofBlock (h : Windows cfg ws) (hn : cfg.k + cfg.m ≤ 256) {id : UInt32}
    (hid : id ≠ 0) : ofBlock id (ws.flatMap (windowSymbols cfg)) = [] ∨
      (ofBlock id (ws.flatMap (windowSymbols cfg))).map (fun s => s.fecId.toNat)
        = List.range (cfg.k + cfg.m) := by
  by_cases hmem : id ∈ ws.flatten.map Row.key
  · obtain ⟨row, hrow, rfl⟩ := List.mem_map.mp hmem
    right
    rw [ofBlock, sent_filter h hrow hid, List.map_map]
    conv_rhs => rw [← List.map_id (List.range (cfg.k + cfg.m))]
    refine List.map_congr_left fun c hc => ?_
    have hcn := List.mem_range.mp hc
    show (row.cells c).fecId.toNat = c
    rw [(h.uniform row hrow).fecId c hcn]
    exact toNat_ofNat_lt (by omega)
  · left
    refine List.filter_eq_nil_iff.mpr fun s hs => ?_
    rw [sent_none h hid hmem s hs]
    exact Bool.false_ne_true

/-- **At most one window is under way.** -/
theorem windows_underWay (h : Windows cfg ws) {pre post : List Symbol}
    (hsplit : ws.flatMap (windowSymbols cfg) = pre ++ post) : ∃ ids : List UInt32,
      ids.length ≤ cfg.depth ∧ ∀ id, id ≠ 0 → 0 < (ofBlock id pre).length →
        (ofBlock id pre).length < cfg.k + cfg.m → id ∈ ids := by
  induction ws generalizing pre with
  | nil =>
      have hpre : pre = [] := (List.append_eq_nil_iff.mp hsplit.symm).1
      subst hpre
      exact ⟨[], Nat.zero_le _, fun id _ hpos => absurd hpos (Nat.lt_irrefl 0)⟩
  | cons w ws ih =>
      obtain ⟨hle, hu, hnd, hdis⟩ := h.split
      rw [List.flatMap_cons, List.append_eq_append_iff] at hsplit
      rcases hsplit with ⟨pre', rfl, hrest⟩ | ⟨rest, hw, -⟩
      · -- the first window is over: its blocks are complete
        obtain ⟨ids, hlen, hids⟩ := ih h.tail hrest
        refine ⟨ids, hlen, fun id hid hpos hlt => ?_⟩
        rw [ofBlock_append, List.length_append] at hpos hlt
        have hnot : id ∉ w.map Row.key := by
          intro hmem
          obtain ⟨row, hrow, rfl⟩ := List.mem_map.mp hmem
          obtain ⟨r, hr, rfl⟩ := List.mem_iff_getElem.mp hrow
          have hall := congrArg List.length (windowSymbols_filter hle hu hnd hr hid)
          rw [List.length_map, List.length_range] at hall
          rw [ofBlock, hall] at hlt
          omega
        have hnil : ofBlock id (windowSymbols cfg w) = [] := by
          refine List.filter_eq_nil_iff.mpr fun s hs => ?_
          rw [windowSymbols_none hle hu hid hnot s hs]
          exact Bool.false_ne_true
        rw [hnil, List.length_nil, Nat.zero_add] at hpos hlt
        exact hids id hid hpos hlt
      · refine ⟨w.map Row.key, by rw [List.length_map]; exact hle, ?_⟩
        intro id hid hpos _
        by_contra hnot
        obtain ⟨s, hs⟩ := List.exists_mem_of_length_pos hpos
        obtain ⟨hin, hsid⟩ := mem_ofBlock.mp hs
        have hnone := windowSymbols_none hle hu hid hnot s
          (by rw [hw]; exact List.mem_append_left _ hin)
        rw [hsid, beq_self_eq_true] at hnone
        exact nomatch hnone

/-- The last column of a window. -/
theorem window_last {rows : List Row} (hle : rows.length ≤ cfg.depth)
    (hu : ∀ row ∈ rows, Uniform (cfg.k + cfg.m) row) (hkey : ∀ row ∈ rows, row.key ≠ 0)
    (hpos : 0 < cfg.k + cfg.m) (hn : cfg.k + cfg.m ≤ 256) :
    ((windowSymbols cfg rows).filter (isLast (cfg.k + cfg.m))).map Symbol.packetId
      = rows.map Row.key := by
  let sym := windowSymbol cfg.depth cfg.symbolSize
    (padded cfg.depth (cfg.k + cfg.m) cfg.symbolSize rows)
  obtain ⟨n, hsucc⟩ : ∃ n, cfg.k + cfg.m = n + 1 := ⟨cfg.k + cfg.m - 1, by omega⟩
  have hin : ∀ p, (h : p % cfg.depth < rows.length) → p / cfg.depth < cfg.k + cfg.m →
      (sym p).packetId = rows[p % cfg.depth].key ∧
        (sym p).fecId.toNat = p / cfg.depth := by
    intro p h hcol
    have hsym : sym p = clipSymbol cfg.symbolSize
        (rows[p % cfg.depth].cells (p / cfg.depth)) := by
      show windowSymbol _ _ _ p = _
      rw [windowSymbol_eq hle (by omega), dif_pos h]
    rw [hsym, clipSymbol_packetId, clipSymbol_fecId,
      (hu _ (List.getElem_mem h)).packetId _ hcol,
      (hu _ (List.getElem_mem h)).fecId _ hcol]
    exact ⟨rfl, toNat_ofNat_lt (by omega)⟩
  have hout : ∀ p, 0 < cfg.depth → ¬ p % cfg.depth < rows.length →
      (sym p).packetId = 0 := by
    intro p hd h
    have hsym : sym p = clipSymbol cfg.symbolSize
        ((padRow (cfg.k + cfg.m) cfg.symbolSize).cells (p / cfg.depth)) := by
      show windowSymbol _ _ _ p = _
      rw [windowSymbol_eq hle hd, dif_neg h]
    rw [hsym]
    exact (padCell cfg _).1
  -- the columns before the last one have no last symbol
  have hbefore : ((List.range (cfg.depth * n)).map sym).filter (isLast (cfg.k + cfg.m))
      = [] := by
    refine List.filter_eq_nil_iff.mpr fun s hs => ?_
    obtain ⟨p, hp, rfl⟩ := List.mem_map.mp hs
    have hcol : p / cfg.depth < n := Nat.div_lt_of_lt_mul (List.mem_range.mp hp)
    have hd : 0 < cfg.depth := by
      rcases Nat.eq_zero_or_pos cfg.depth with hz | hd
      · rw [hz, Nat.zero_mul] at hp
        exact absurd (List.mem_range.mp hp) (Nat.not_lt_zero p)
      · exact hd
    rw [isLast, Bool.and_eq_true, bne_iff_ne, beq_iff_eq]
    rintro ⟨hid, hfec⟩
    by_cases h : p % cfg.depth < rows.length
    · rw [(hin p h (by omega)).2] at hfec
      omega
    · exact hid (hout p hd h)
  have hlast : ∀ r, r < cfg.depth → isLast (cfg.k + cfg.m) (sym (cfg.depth * n + r))
      = decide (r < rows.length) := by
    intro r hr
    have hmod : (cfg.depth * n + r) % cfg.depth = r := by
      rw [Nat.mul_add_mod, Nat.mod_eq_of_lt hr]
    have hdiv : (cfg.depth * n + r) / cfg.depth = n := by
      rw [Nat.mul_add_div (by omega), Nat.div_eq_of_lt hr, Nat.add_zero]
    by_cases h : r < rows.length
    · obtain ⟨h1, h2⟩ := hin (cfg.depth * n + r) (by rw [hmod]; exact h) (by omega)
      simp only [hmod] at h1
      rw [decide_eq_true h, isLast, h1, h2, hdiv, hsucc, beq_self_eq_true, Bool.and_true,
        bne_iff_ne]
      exact hkey _ (List.getElem_mem h)
    · rw [decide_eq_false h, isLast, hout _ (by omega) (by rw [hmod]; exact h)]
      rfl
  have hsplit : windowSymbols cfg rows = (List.range (cfg.depth * n)).map sym
      ++ (List.range cfg.depth).map fun r => sym (cfg.depth * n + r) := by
    have hsize : cfg.depth * (cfg.k + cfg.m) = cfg.depth * n + cfg.depth := by
      rw [hsucc, Nat.mul_succ]
    rw [windowSymbols, hsize, List.range_add, List.map_append, List.map_map]
    rfl
  have hfilter : (List.range cfg.depth).filter
        (isLast (cfg.k + cfg.m) ∘ fun r => sym (cfg.depth * n + r))
      = List.range rows.length := by
    rw [← Burst.filter_range_lt hle]
    exact List.filter_congr fun r hr => hlast r (List.mem_range.mp hr)
  rw [hsplit, List.filter_append, hbefore, List.nil_append, List.filter_map, hfilter,
    List.map_map]
  apply List.ext_getElem
  · rw [List.length_map, List.length_range, List.length_map]
  · intro r h1 h2
    rw [List.length_map] at h2
    have hmod : (cfg.depth * n + r) % cfg.depth = r := by
      rw [Nat.mul_add_mod, Nat.mod_eq_of_lt (by omega)]
    have hdiv : (cfg.depth * n + r) / cfg.depth = n := by
      rw [Nat.mul_add_div (by omega), Nat.div_eq_of_lt (by omega), Nat.add_zero]
    have hcell := (hin (cfg.depth * n + r) (by rw [hmod]; exact h2) (by omega)).1
    simp only [hmod] at hcell
    rw [List.getElem_map, List.getElem_map, List.getElem_range]
    exact hcell

/-- **The last symbols** of the blocks, in the order of the blocks. -/
theorem windows_last (h : Windows cfg ws) (hkey : ∀ row ∈ ws.flatten, row.key ≠ 0)
    (hpos : 0 < cfg.k + cfg.m) (hn : cfg.k + cfg.m ≤ 256) :
    ((ws.flatMap (windowSymbols cfg)).filter (isLast (cfg.k + cfg.m))).map Symbol.packetId
      = ws.flatten.map Row.key := by
  induction ws with
  | nil => rfl
  | cons w ws ih =>
      obtain ⟨hle, hu, -⟩ := h.split
      rw [List.flatMap_cons, List.filter_append, List.map_append, List.flatten_cons,
        List.map_append, ih h.tail fun row hrow => hkey row (List.mem_append_right _ hrow),
        window_last hle hu (fun row hrow => hkey row (List.mem_append_left _ hrow)) hpos hn]

end Windows

/-! ## Whole frames -/

/-- The fragments of numbered frames, in order. -/
def framesFrags (ss : Nat) (ps : List (List UInt8 × Nat)) : List Frag :=
  ps.flatMap fun p => fragsOf ss p.2 p.1

/-- The block ends at the end of a frame. -/
def EndsAtFrame (ss : Nat) (b : List Frag) : Prop :=
  ∀ f ∈ b.getLast?, f.idx + 1 = f.total ss

/-- A part of a frame that is not all of it does not end at the end. -/
theorem fragsOf_prefix {ss number : Nat} {pkt : List UInt8} {b rest : List Frag}
    (h : fragsOf ss number pkt = b ++ rest) (hb : b ≠ []) (hend : EndsAtFrame ss b) :
    rest = [] := by
  obtain ⟨f, hf⟩ := Option.isSome_iff_exists.mp
    (Option.isSome_iff_ne_none.mpr fun hn => hb (List.getLast?_eq_none_iff.mp hn))
  have hlast := hend f hf
  have hlen := congrArg List.length h
  rw [fragsOf_length, List.length_append] at hlen
  have hpos := List.length_pos_of_ne_nil hb
  have hget : (fragsOf ss number pkt)[b.length - 1]? = some f := by
    rw [h, List.getElem?_append_left (by omega), ← List.getLast?_eq_getElem?]
    exact hf
  rw [fragsOf, List.getElem?_map, List.getElem?_range (by omega)] at hget
  rw [← Option.some.inj hget] at hlast
  have htot : b.length - 1 + 1 = fragmentCount pkt.length ss := hlast
  exact List.length_eq_zero_iff.mp (by omega)

/-- A part of the frames that ends at the end of one. -/
theorem framesFrags_split {ss : Nat} {ps : List (List UInt8 × Nat)} {b rest : List Frag}
    (h : framesFrags ss ps = b ++ rest) (hend : EndsAtFrame ss b) :
    ∃ qs rs, ps = qs ++ rs ∧ b = framesFrags ss qs ∧ rest = framesFrags ss rs := by
  induction ps generalizing b with
  | nil =>
      obtain ⟨rfl, rfl⟩ := List.append_eq_nil_iff.mp h.symm
      exact ⟨[], [], rfl, rfl, rfl⟩
  | cons p ps ih =>
      by_cases hb : b = []
      · subst hb
        exact ⟨[], p :: ps, rfl, rfl, h.symm⟩
      have h' : fragsOf ss p.2 p.1 ++ framesFrags ss ps = b ++ rest := h
      rw [List.append_eq_append_iff] at h'
      rcases h' with ⟨b', rfl, hrest⟩ | ⟨rest', hfr, hrest⟩
      · have hend' : EndsAtFrame ss b' := by
          intro f hf
          refine hend f ?_
          rw [List.getLast?_append, hf]
          rfl
        obtain ⟨qs, rs, rfl, rfl, rfl⟩ := ih hrest hend'
        exact ⟨p :: qs, rs, rfl, rfl, rfl⟩
      · have hnil := fragsOf_prefix hfr hb hend
        subst hnil
        rw [List.append_nil] at hfr
        refine ⟨[p], ps, rfl, ?_, hrest⟩
        rw [← hfr]
        exact (List.append_nil _).symm

/-- **Blocks of whole frames**: no frame is without fragments, so that all are
    in some block. -/
theorem whole_frames {ss : Nat} {ps : List (List UInt8 × Nat)} {blocks : List (List Frag)}
    (h : framesFrags ss ps = blocks.flatten)
    (hne : ∀ p ∈ ps, 0 < fragmentCount p.1.length ss)
    (hend : ∀ b ∈ blocks, EndsAtFrame ss b) :
    ∃ pss : List (List (List UInt8 × Nat)), pss.flatten = ps ∧
      blocks = pss.map (framesFrags ss) := by
  induction blocks generalizing ps with
  | nil =>
      cases ps with
      | nil => exact ⟨[], rfl, rfl⟩
      | cons p ps =>
          have hnil := (List.append_eq_nil_iff.mp h).1
          have hlen := congrArg List.length hnil
          rw [fragsOf_length, List.length_nil] at hlen
          have hpos := hne p List.mem_cons_self
          omega
  | cons b blocks ih =>
      obtain ⟨qs, rs, rfl, rfl, hrest⟩ := framesFrags_split h (hend b List.mem_cons_self)
      obtain ⟨pss, rfl, rfl⟩ := ih hrest.symm
        (fun p hp => hne p (List.mem_append_right _ hp))
        fun b hb => hend b (List.mem_cons_of_mem _ hb)
      exact ⟨qs :: pss, rfl, rfl⟩

/-! ## A run that was flushed -/

/-- **The stream of a run.** -/
theorem stream_run {wh : Wirehair} {pl : TxPipeline} {h : TxHist} (hi : RunInv wh pl)
    (hr : Rel wh pl h (allFrags pl.cfg.symbolSize pl.accepted))
    (hlt : pl.blocksBuilt < 2 ^ 32) : Stream pl.cfg pl.sent := by
  obtain ⟨hw, -⟩ := hr.core.windows_ok hlt
  rw [hr.core.sent]
  exact
    { inOrder := fun id hid => windows_ofBlock hw hi.cfg.length hid
      underWay := fun pre post hsplit => windows_underWay hw hsplit }

/-- Nothing is left in the builder nor in the interleaver. -/
structure Flushed (pl : TxPipeline) : Prop where
  builder : pl.builder.symbolCount = 0
  window : pl.interleaver.windowBlockCount = 0

/-- **A flushed run**, of frames that fit in one block each: every block is made
    of whole frames, and their last symbols come in order. -/
theorem flushed_run {wh : Wirehair} {pl : TxPipeline} {h : TxHist} (hi : RunInv wh pl)
    (hr : Rel wh pl h (allFrags pl.cfg.symbolSize pl.accepted))
    (hlt : pl.blocksBuilt < 2 ^ 32) (hf : Flushed pl)
    (hfit : ∀ pkt ∈ pl.accepted, 0 < pkt.length ∧
      fragmentCount pkt.length pl.cfg.symbolSize ≤ pl.cfg.k) :
    ∃ pss : List (List (List UInt8 × Nat)),
      pss.flatten.map Prod.fst = pl.accepted ∧
      h.blocks = pss.map (framesFrags pl.cfg.symbolSize) ∧
      (pl.sent.filter (isLast (pl.cfg.k + pl.cfg.m))).map Symbol.packetId
        = (List.range pss.length).map blockIdOf := by
  have hc := hr.core
  have hcur : h.cur = [] :=
    List.length_eq_zero_iff.mp (hr.builder.count.symm.trans hf.builder)
  have hrows : h.rows = [] :=
    List.length_eq_zero_iff.mp (hc.holds.windowCount.symm.trans hf.window)
  have hflat : framesFrags pl.cfg.symbolSize pl.accepted.zipIdx = h.blocks.flatten := by
    have h1 := hc.frags
    rw [hcur, List.append_nil] at h1
    exact h1.symm
  have hss : 0 < pl.cfg.symbolSize := hi.cfg.symbolSize
  obtain ⟨pss, hpss, hblocks⟩ := whole_frames hflat
    (by
      intro p hp
      rw [fragmentCount_lt_iff hss, Nat.zero_mul]
      exact (hfit p.1 (List.fst_mem_of_mem_zipIdx hp)).1)
    (by
      intro b hb f hfl
      refine ((hc.blocks b hb).2.2 f hfl).resolve_right (Nat.not_lt.mpr ?_)
      have hmem : f ∈ allFrags pl.cfg.symbolSize pl.accepted := by
        rw [← hc.frags]
        exact List.mem_append_left _
          (List.mem_flatten.mpr ⟨b, hb, List.mem_of_getLast? hfl⟩)
      exact (hfit f.pkt (allFrags_mem hmem).1).2)
  refine ⟨pss, ?_, hblocks, ?_⟩
  · rw [hpss, List.zipIdx_map_fst]
  · obtain ⟨hw, hkey⟩ := hc.windows_ok hlt
    have hlen : h.blocks.length = pss.length := by rw [hblocks, List.length_map]
    have hall := hc.rows
    rw [hrows, List.append_nil] at hall
    have hsource := hi.cfg.source
    rw [hc.sent, windows_last hw hkey (by omega) hi.cfg.length, hall, allRows_keys, hlen]

end FsoLink
