import FsoGateway.Lib.Burst
import FsoGateway.TxRuns

/-! # Burst spreading

    A block is one row of one window, and a window is sent column by column,
    so the symbols of a block are `depth` positions apart in the emitted
    stream.

    * `sent_onResidue`, `sent_filter` — where the symbols of a block are, and
      which they are;
    * `burst_spread` — no burst of `L` symbols takes more than `⌈L / depth⌉` of
      a block, and one of `m * depth` leaves `k` of them. -/

namespace FsoTxPipeline

open ByteBuffer FsoTypes ErasureCode FecWrapper FsoBlockBuilder FsoInterleaver
  PacketFragmenter SymbolCrc Burst

/-! ## One window -/

/-- A row whose symbols carry its key and their own column. -/
structure Uniform (n : Nat) (row : Row) : Prop where
  packetId : ∀ c, c < n → (row.cells c).packetId = row.key
  fecId : ∀ c, c < n → (row.cells c).fecId = UInt32.ofNat c

theorem blockRow_uniform (wh : Wirehair) (cfg : Config) (j : Nat) (frags : List Frag) :
    Uniform (cfg.k + cfg.m) (blockRow wh cfg j frags) :=
  ⟨fun c _ => (blockRow_header wh cfg j frags c).1,
    fun c _ => (blockRow_header wh cfg j frags c).2⟩

section Window

variable {cfg : Config} {rows : List Row} {b : UInt32}

theorem windowSymbols_length (cfg : Config) (rows : List Row) :
    (windowSymbols cfg rows).length = cfg.depth * (cfg.k + cfg.m) := by
  rw [windowSymbols, List.length_map, List.length_range]

theorem windowSymbols_getElem {p : Nat} {x : Symbol}
    (h : (windowSymbols cfg rows)[p]? = some x) :
    p < cfg.depth * (cfg.k + cfg.m) ∧
      x = windowSymbol cfg.depth cfg.symbolSize
        (padded cfg.depth (cfg.k + cfg.m) cfg.symbolSize rows) p := by
  have hp := (List.getElem?_eq_some_iff.mp h).1
  rw [windowSymbols_length] at hp
  rw [windowSymbols, List.getElem?_map, List.getElem?_range hp] at h
  exact ⟨hp, (Option.some.inj h).symm⟩

/-- Symbol `p` of a window is the one in row `p % depth`, column `p / depth`. -/
theorem windowSymbol_eq (hle : rows.length ≤ cfg.depth) {p : Nat}
    (hd : 0 < cfg.depth) :
    windowSymbol cfg.depth cfg.symbolSize
        (padded cfg.depth (cfg.k + cfg.m) cfg.symbolSize rows) p
      = clipSymbol cfg.symbolSize
          ((if h : p % cfg.depth < rows.length then rows[p % cfg.depth]
            else padRow (cfg.k + cfg.m) cfg.symbolSize).cells (p / cfg.depth)) := by
  have hlt : p % cfg.depth
      < (padded cfg.depth (cfg.k + cfg.m) cfg.symbolSize rows).length := by
    rw [padded_length hle]
    exact Nat.mod_lt p hd
  rw [windowSymbol, List.getD_eq_getElem?_getD, List.getElem?_eq_getElem hlt,
    getElem_padded hlt]
  rfl

/-- The symbols of the block `b` in a window are those of its row. -/
theorem windowSymbol_packetId (hle : rows.length ≤ cfg.depth)
    (hu : ∀ row ∈ rows, Uniform (cfg.k + cfg.m) row) (hb : b ≠ 0) {p : Nat}
    (hp : p < cfg.depth * (cfg.k + cfg.m)) :
    (windowSymbol cfg.depth cfg.symbolSize
        (padded cfg.depth (cfg.k + cfg.m) cfg.symbolSize rows) p).packetId = b
      ↔ ∃ h : p % cfg.depth < rows.length, rows[p % cfg.depth].key = b := by
  have hd : 0 < cfg.depth := Nat.pos_of_lt_mul_right hp
  have hcol : p / cfg.depth < cfg.k + cfg.m := Nat.div_lt_of_lt_mul hp
  rw [windowSymbol_eq hle hd, clipSymbol_packetId]
  by_cases h : p % cfg.depth < rows.length
  · rw [dif_pos h, (hu _ (List.getElem_mem h)).packetId _ hcol]
    exact ⟨fun hk => ⟨h, hk⟩, fun ⟨_, hk⟩ => hk⟩
  · rw [dif_neg h]
    exact ⟨fun hk => absurd hk.symm hb, fun ⟨h', _⟩ => absurd h' h⟩

/-- A window without the block has none of its symbols. -/
theorem windowSymbols_none (hle : rows.length ≤ cfg.depth)
    (hu : ∀ row ∈ rows, Uniform (cfg.k + cfg.m) row) (hb : b ≠ 0)
    (hnot : b ∉ rows.map Row.key) :
    ∀ s ∈ windowSymbols cfg rows, (s.packetId == b) = false := by
  intro s hs
  obtain ⟨p, hget⟩ := List.mem_iff_getElem?.mp hs
  obtain ⟨hp, rfl⟩ := windowSymbols_getElem hget
  refine beq_false_of_ne fun heq => ?_
  obtain ⟨h, hk⟩ := (windowSymbol_packetId hle hu hb hp).mp heq
  exact hnot (List.mem_map.mpr ⟨_, List.getElem_mem h, hk⟩)

/-- With distinct keys, the place of a block in the window is unique. -/
theorem key_getElem_inj {r r' : Nat} (hnd : (rows.map Row.key).Nodup)
    (hr : r < rows.length) (hr' : r' < rows.length) (h : rows[r].key = rows[r'].key) :
    r = r' := by
  have h1 : r < (rows.map Row.key).length := by rw [List.length_map]; exact hr
  have h2 : r' < (rows.map Row.key).length := by rw [List.length_map]; exact hr'
  have hkeys : (rows.map Row.key)[r] = (rows.map Row.key)[r'] := by
    rw [List.getElem_map, List.getElem_map]
    exact h
  exact hnd.getElem_inj_iff.mp hkeys

theorem windowSymbols_onResidue (hle : rows.length ≤ cfg.depth)
    (hu : ∀ row ∈ rows, Uniform (cfg.k + cfg.m) row)
    (hnd : (rows.map Row.key).Nodup) {r : Nat} (hr : r < rows.length)
    (hb : rows[r].key ≠ 0) :
    OnResidue (fun s : Symbol => s.packetId == rows[r].key) cfg.depth r
      (windowSymbols cfg rows) := by
  intro p x hget hx
  obtain ⟨hp, rfl⟩ := windowSymbols_getElem hget
  obtain ⟨h, hk⟩ := (windowSymbol_packetId hle hu hb hp).mp (eq_of_beq hx)
  exact key_getElem_inj hnd h hr hk

theorem windowSymbols_filter (hle : rows.length ≤ cfg.depth)
    (hu : ∀ row ∈ rows, Uniform (cfg.k + cfg.m) row)
    (hnd : (rows.map Row.key).Nodup) {r : Nat} (hr : r < rows.length)
    (hb : rows[r].key ≠ 0) :
    (windowSymbols cfg rows).filter (fun s => s.packetId == rows[r].key)
      = (List.range (cfg.k + cfg.m)).map fun c =>
          clipSymbol cfg.symbolSize (rows[r].cells c) := by
  have hrd : r < cfg.depth := Nat.lt_of_lt_of_le hr hle
  have hd : 0 < cfg.depth := by omega
  rw [windowSymbols, List.filter_map]
  have hcongr : ∀ p ∈ List.range (cfg.depth * (cfg.k + cfg.m)),
      ((fun s : Symbol => s.packetId == rows[r].key) ∘
        windowSymbol cfg.depth cfg.symbolSize
          (padded cfg.depth (cfg.k + cfg.m) cfg.symbolSize rows)) p
        = decide (p % cfg.depth = r) := by
    intro p hp
    have hiff := windowSymbol_packetId hle hu hb (List.mem_range.mp hp)
    by_cases h : p % cfg.depth = r
    · rw [decide_eq_true h]
      exact beq_iff_eq.mpr (hiff.mpr ⟨by rw [h]; exact hr, by simp only [h]⟩)
    · rw [decide_eq_false h]
      refine beq_false_of_ne fun heq => ?_
      obtain ⟨h1, hk⟩ := hiff.mp heq
      exact h (key_getElem_inj hnd h1 hr hk)
  rw [List.filter_congr hcongr, filter_range_residue hrd, List.map_map]
  refine List.map_congr_left fun c _ => ?_
  show windowSymbol _ _ _ (cfg.depth * c + r) = _
  have hmod : (cfg.depth * c + r) % cfg.depth = r := by
    rw [Nat.mul_add_mod, Nat.mod_eq_of_lt hrd]
  have hdiv : (cfg.depth * c + r) / cfg.depth = c := by
    rw [Nat.mul_add_div hd, Nat.div_eq_of_lt hrd, Nat.add_zero]
  rw [windowSymbol_eq hle hd]
  simp only [hmod, hdiv, dif_pos hr]

end Window

/-! ## The emitted stream -/

/-- Windows of rows that carry their keys, all different. -/
structure Windows (cfg : Config) (ws : List (List Row)) : Prop where
  short : ∀ w ∈ ws, w.length ≤ cfg.depth
  uniform : ∀ row ∈ ws.flatten, Uniform (cfg.k + cfg.m) row
  nodup : (ws.flatten.map Row.key).Nodup

section Stream

variable {cfg : Config} {b : UInt32}

theorem Windows.tail {w : List Row} {ws : List (List Row)} (h : Windows cfg (w :: ws)) :
    Windows cfg ws where
  short := fun w' hw' => h.short w' (List.mem_cons_of_mem _ hw')
  uniform := fun row hrow => h.uniform row (List.mem_append_right _ hrow)
  nodup := by
    have hnd := h.nodup
    rw [List.flatten_cons, List.map_append] at hnd
    exact (List.nodup_append.mp hnd).2.1

theorem sent_none {ws : List (List Row)} (h : Windows cfg ws) (hb : b ≠ 0)
    (hnot : b ∉ ws.flatten.map Row.key) :
    ∀ s ∈ ws.flatMap (windowSymbols cfg), (s.packetId == b) = false := by
  intro s hs
  obtain ⟨w, hw, hsw⟩ := List.mem_flatMap.mp hs
  have hsub : ∀ row ∈ w, row ∈ ws.flatten := fun row hrow =>
    List.mem_flatten.mpr ⟨w, hw, hrow⟩
  refine windowSymbols_none (h.short w hw) (fun row hrow => h.uniform row (hsub row hrow))
    hb ?_ s hsw
  intro hmem
  obtain ⟨row, hrow, hk⟩ := List.mem_map.mp hmem
  exact hnot (List.mem_map.mpr ⟨row, hsub row hrow, hk⟩)

/-- The head window against the others: a key is in at most one of them. -/
theorem Windows.split {w : List Row} {ws : List (List Row)} (h : Windows cfg (w :: ws)) :
    w.length ≤ cfg.depth ∧ (∀ row ∈ w, Uniform (cfg.k + cfg.m) row) ∧
      (w.map Row.key).Nodup ∧
      ∀ key, key ∈ w.map Row.key → key ∉ ws.flatten.map Row.key := by
  have hnd := h.nodup
  rw [List.flatten_cons, List.map_append] at hnd
  obtain ⟨h1, -, h2⟩ := List.nodup_append.mp hnd
  exact ⟨h.short w List.mem_cons_self,
    fun row hrow => h.uniform row (List.mem_append_left _ hrow), h1,
    fun key h3 h4 => h2 key h3 key h4 rfl⟩

/-- **The place of a block** in the stream: one residue modulo the depth. -/
theorem sent_onResidue {ws : List (List Row)} (h : Windows cfg ws) (hb : b ≠ 0) :
    ∃ r, OnResidue (fun s : Symbol => s.packetId == b) cfg.depth r
      (ws.flatMap (windowSymbols cfg)) := by
  induction ws with
  | nil => exact ⟨0, onResidue_of_none _ _ fun s hs => absurd hs List.not_mem_nil⟩
  | cons w ws ih =>
      obtain ⟨hle, hu, hnd, hdis⟩ := h.split
      have hdvd : cfg.depth ∣ (windowSymbols cfg w).length := by
        rw [windowSymbols_length]
        exact Nat.dvd_mul_right _ _
      rw [List.flatMap_cons]
      by_cases hmem : b ∈ w.map Row.key
      · obtain ⟨row, hrow, rfl⟩ := List.mem_map.mp hmem
        obtain ⟨r, hr, rfl⟩ := List.mem_iff_getElem.mp hrow
        exact ⟨r, (windowSymbols_onResidue hle hu hnd hr hb).append
          (onResidue_of_none _ _ (sent_none h.tail hb (hdis _ hmem))) hdvd⟩
      · obtain ⟨r, hr⟩ := ih h.tail
        exact ⟨r, (onResidue_of_none _ _ (windowSymbols_none hle hu hb hmem)).append hr
          hdvd⟩

/-- **The symbols of a block** in the stream: those of its row, once each. -/
theorem sent_filter {ws : List (List Row)} (h : Windows cfg ws) {row : Row}
    (hrow : row ∈ ws.flatten) (hb : row.key ≠ 0) :
    (ws.flatMap (windowSymbols cfg)).filter (fun s => s.packetId == row.key)
      = (List.range (cfg.k + cfg.m)).map fun c =>
          clipSymbol cfg.symbolSize (row.cells c) := by
  induction ws with
  | nil => exact absurd hrow List.not_mem_nil
  | cons w ws ih =>
      obtain ⟨hle, hu, hnd, hdis⟩ := h.split
      rw [List.flatMap_cons, List.filter_append]
      rcases List.mem_append.mp hrow with hw | hws
      · have hrest := sent_none h.tail hb (hdis row.key (List.mem_map_of_mem hw))
        obtain ⟨r, hr, rfl⟩ := List.mem_iff_getElem.mp hw
        rw [windowSymbols_filter hle hu hnd hr hb,
          List.filter_eq_nil_iff.mpr fun s hs => by rw [hrest s hs]; exact Bool.false_ne_true,
          List.append_nil]
      · have hnot : row.key ∉ w.map Row.key := fun hw =>
          hdis row.key hw (List.mem_map_of_mem hws)
        have hnone := windowSymbols_none hle hu hb hnot
        rw [ih h.tail hws,
          List.filter_eq_nil_iff.mpr fun s hs => by rw [hnone s hs]; exact Bool.false_ne_true,
          List.nil_append]

end Stream

/-! ## Runs -/

theorem blockIdOf_toNat {j : Nat} (hj : j + 1 < 2 ^ 32) : (blockIdOf j).toNat = j + 1 := by
  rw [blockIdOf, UInt32.toNat_ofNat', Nat.mod_eq_of_lt hj]

/-- The ids of the blocks built. -/
theorem allRows_keys (wh : Wirehair) (cfg : Config) (h : TxHist) :
    (h.allRows wh cfg).map Row.key = (List.range h.blocks.length).map blockIdOf := by
  rw [List.range_eq_range', ← List.zipIdx_map_snd 0 h.blocks, List.map_map, TxHist.allRows,
    List.map_map]
  rfl

/-- The first `2 ^ 32 - 1` blocks have different ids. -/
theorem allRows_nodup (wh : Wirehair) (cfg : Config) {h : TxHist}
    (hlt : h.blocks.length < 2 ^ 32) : ((h.allRows wh cfg).map Row.key).Nodup := by
  rw [allRows_keys]
  refine List.Nodup.map_on ?_ List.nodup_range
  intro i hi j hj hij
  have h1 := congrArg UInt32.toNat hij
  rw [List.mem_range] at hi hj
  rw [blockIdOf_toNat (by omega), blockIdOf_toNat (by omega)] at h1
  omega

theorem allRows_uniform {wh : Wirehair} {cfg : Config} {h : TxHist} {row : Row}
    (hrow : row ∈ h.allRows wh cfg) : Uniform (cfg.k + cfg.m) row := by
  obtain ⟨p, -, rfl⟩ := List.mem_map.mp hrow
  exact blockRow_uniform wh cfg p.2 p.1

/-- The rows sent so far. -/
theorem Core.windows_ok {wh : Wirehair} {pl : TxPipeline} {h : TxHist} {frags : List Frag}
    (hc : Core wh pl h frags) (hlt : pl.blocksBuilt < 2 ^ 32) :
    Windows pl.cfg h.windows ∧ ∀ row ∈ h.windows.flatten, row.key ≠ 0 := by
  have hmem : ∀ row ∈ h.windows.flatten, row ∈ h.allRows wh pl.cfg := by
    intro row hrow
    rw [← hc.rows]
    exact List.mem_append_left _ hrow
  rw [hc.built] at hlt
  refine ⟨⟨fun w hw => (hc.windows w hw).2, fun row hrow => allRows_uniform (hmem row hrow), ?_⟩,
    ?_⟩
  · have hnd := allRows_nodup wh pl.cfg hlt
    rw [← hc.rows, List.map_append] at hnd
    exact (List.nodup_append.mp hnd).1
  · intro row hrow hz
    obtain ⟨⟨frags, j⟩, hp, rfl⟩ := List.mem_map.mp (hmem row hrow)
    have hj := (List.mem_zipIdx hp).2.1
    have h1 := blockIdOf_toNat (j := j) (by omega)
    rw [show blockIdOf j = 0 from hz] at h1
    exact absurd h1 (Nat.succ_ne_zero j).symm

/-- **Burst spreading**: of any burst of consecutive symbols of the emitted
    stream, at most `⌈length / depth⌉` belong to one block `b`; what a burst of
    at most `m * depth` leaves of a block is at least `k` symbols, all
    different.  The rows that pad a window have the id 0, which no block has. -/
theorem burst_spread (wh : Wirehair) (clk : Nat → Nat) (mem : Nat → Nat → Symbol)
    (lanMac : List UInt8) (cfg : Config) (pl0 : TxPipeline)
    (hcreate : txPipelineCreate mem lanMac cfg = some pl0) (hm : 1 ≤ cfg.m)
    (hss : cfg.symbolSize ≤ maxSymbolDataSize)
    (hwh : Encodes wh.encoding cfg.k (cfg.k + cfg.m) cfg.symbolSize) (evs : List TxEvent)
    (hblocks : (txRun wh clk evs pl0).2.blocksBuilt < 2 ^ 32)
    (pre burst post : List Symbol)
    (hsent : (txRun wh clk evs pl0).2.sent = pre ++ burst ++ post) (b : UInt32)
    (hb : b ≠ 0) :
    let left := (pre ++ post).filter fun s => s.packetId == b
    burst.countP (fun s => s.packetId == b)
        ≤ (burst.length + cfg.depth - 1) / cfg.depth ∧
      (burst.length ≤ cfg.m * cfg.depth →
        (∃ s ∈ (txRun wh clk evs pl0).2.sent, s.packetId = b) →
        cfg.k ≤ left.length ∧ (left.map Symbol.fecId).Nodup ∧
          ∀ s ∈ left, s.fecId.toNat < cfg.k + cfg.m) := by
  intro left
  obtain ⟨hinit, hcfg0, -⟩ := runInv_create hcreate hm hss hwh
  obtain ⟨-, hi, hcfg⟩ := runInv_run clk evs hinit
  generalize (txRun wh clk evs pl0).2 = pl at hblocks hsent hi hcfg
  obtain ⟨h, hr⟩ := hi.hist
  obtain ⟨hw, hkey⟩ := hr.core.windows_ok hblocks
  have hsent' := hr.core.sent
  rw [hcfg.trans hcfg0] at hw hsent'
  have hcfgOk := create_cfgOk hcreate hm hss
  have hd : 0 < cfg.depth := hcfgOk.depth
  -- the bound for one block
  obtain ⟨r, hres⟩ := sent_onResidue hw hb
  rw [← hsent', hsent] at hres
  have hbound := countP_infix_le hd hres ⟨pre, post, rfl⟩
  refine ⟨hbound, ?_⟩
  intro hlen hex
  have hin : b ∈ h.windows.flatten.map Row.key := by
    by_contra hnot
    obtain ⟨s, hs, hsb⟩ := hex
    rw [hsent'] at hs
    have hf := sent_none hw hb hnot s hs
    rw [hsb, beq_self_eq_true] at hf
    exact nomatch hf
  obtain ⟨row, hrow, rfl⟩ := List.mem_map.mp hin
  have hfilter := sent_filter hw hrow hb
  rw [← hsent', hsent, List.append_assoc, List.filter_append, List.filter_append]
    at hfilter
  have hperm : List.Perm (burst.filter (fun s => s.packetId == row.key) ++ left)
      ((List.range (cfg.k + cfg.m)).map fun c =>
        clipSymbol cfg.symbolSize (row.cells c)) := by
    rw [← hfilter]
    show List.Perm (_ ++ (pre ++ post).filter _) _
    rw [List.filter_append, ← List.append_assoc, ← List.append_assoc]
    exact (List.perm_append_comm).append_right _
  -- the burst takes at most `m` symbols of the block
  have htake : (burst.filter fun s => s.packetId == row.key).length ≤ cfg.m := by
    rw [← List.countP_eq_length_filter]
    refine le_trans hbound (Nat.le_of_lt_succ ?_)
    rw [Nat.div_lt_iff_lt_mul hd, Nat.succ_mul]
    omega
  have hcount := hperm.length_eq
  rw [List.length_append, List.length_map, List.length_range] at hcount
  have hlen256 : cfg.k + cfg.m ≤ 256 := hcfgOk.length
  have huni := hw.uniform row hrow
  refine ⟨by omega, ?_, ?_⟩
  · have hfec : ((List.range (cfg.k + cfg.m)).map fun c =>
        (clipSymbol cfg.symbolSize (row.cells c)).fecId).Nodup := by
      refine List.Nodup.map_on ?_ List.nodup_range
      intro i hi' j hj' hij
      rw [List.mem_range] at hi' hj'
      rw [clipSymbol_fecId, clipSymbol_fecId, huni.fecId i hi', huni.fecId j hj'] at hij
      have h1 := congrArg UInt32.toNat hij
      rw [toNat_ofNat_lt (by omega), toNat_ofNat_lt (by omega)] at h1
      exact h1
    have hall := (hperm.map Symbol.fecId).nodup_iff.mpr (by rw [List.map_map]; exact hfec)
    rw [List.map_append] at hall
    exact (List.nodup_append.mp hall).2.1
  · intro s hs
    obtain ⟨c, hc, rfl⟩ := List.mem_map.mp (hperm.subset (List.mem_append_right _ hs))
    rw [List.mem_range] at hc
    rw [clipSymbol_fecId, huni.fecId c hc, toNat_ofNat_lt (by omega)]
    exact hc

/-- `burst_spread` on the smallest link: a frame of three fragments makes two
    blocks, and two symbols in a row are never both of the first. -/
theorem burst_spread_smallLink :
    let sent := (txRun parity (fun t => t * 10000000)
      [.frame [1, 2, 3, 4, 5, 6, 7, 8, 9] false] smallPipeline).2.sent
    sent.length = 12 ∧
      ((sent.drop 3).take 2).countP (fun s => s.packetId == 1) ≤ 1 := by
  intro sent
  refine ⟨by decide +kernel, ?_⟩
  have h := (burst_spread parity (fun t => t * 10000000) (fun _ _ => symbolInit) []
    smallLink smallPipeline rfl (by decide) (by decide) (parity_recovers 4).toEncodes
    [.frame [1, 2, 3, 4, 5, 6, 7, 8, 9] false] (by decide +kernel) (sent.take 3)
    ((sent.drop 3).take 2) ((sent.drop 3).drop 2)
    (by rw [List.append_assoc, List.take_append_drop, List.take_append_drop]) 1
    (by decide)).1
  have hlen := List.length_take_le 2 (sent.drop 3)
  refine le_trans h ?_
  show _ / 2 ≤ 1
  rw [show smallLink.depth = 2 from rfl]
  omega

end FsoTxPipeline
