import FsoGateway.BurstSpread
import FsoGateway.TxTimers

/-! # Nothing stays in the transmitter

    A fragment is in the builder, or in a row of the window, or it was sent;
    and never in two of these at once.

    * `conserved` — what was sent and what waits are together the fragments of
      the accepted frames, each once;
    * `idle_empties_builder`, `tick_empties_window` — an idle call after the
      builder's timeout, and a tick after the window's;
    * `idle_calls_flush` — so two idle calls leave nothing behind. -/

namespace FsoTxPipeline

open ByteBuffer FsoTypes ErasureCode FecWrapper FsoBlockBuilder FsoInterleaver
  PacketFragmenter SymbolCrc

/-! ## What a symbol carries -/

/-- A piece of a frame: all of a fragment but the two ids and the CRC, which
    `encode_and_drain` overwrites. -/
@[ext] structure Cargo where
  symbolIndex : UInt16
  totalSymbols : UInt16
  payload : List UInt8
  deriving DecidableEq

def cargo (s : Symbol) : Cargo where
  symbolIndex := s.symbolIndex
  totalSymbols := s.totalSymbols
  payload := bytes s.data s.payloadLen.toNat

/-- A source symbol that is not padding. -/
def isFragment (k : Nat) (s : Symbol) : Bool :=
  decide (s.fecId.toNat < k) && s.payloadLen != 0

/-- The pieces in a list of symbols. -/
def cargoOf (k : Nat) (l : List Symbol) : List Cargo := (l.filter (isFragment k)).map cargo

/-- **The pieces put on the wire.** -/
def emitted (pl : TxPipeline) : List Cargo := cargoOf pl.cfg.k pl.sent

theorem cargoOf_append (k : Nat) (l l' : List Symbol) :
    cargoOf k (l ++ l') = cargoOf k l ++ cargoOf k l' := by
  rw [cargoOf, List.filter_append, List.map_append]
  rfl

theorem cargoOf_flatMap {α : Type} (k : Nat) (l : List α) (f : α → List Symbol) :
    cargoOf k (l.flatMap f) = l.flatMap fun x => cargoOf k (f x) := by
  rw [cargoOf, List.filter_flatMap, List.map_flatMap]
  rfl

theorem cargoOf_nil {k : Nat} {l : List Symbol} (h : ∀ s ∈ l, isFragment k s = false) :
    cargoOf k l = [] := by
  rw [cargoOf, List.filter_eq_nil_iff.mpr]
  · rfl
  · intro s hs hf
    rw [h s hs] at hf
    exact nomatch hf

/-- An array whose first `a` symbols carry something, and the others not. -/
theorem cargoOf_range {k a n : Nat} {f : Nat → Symbol} (ha : a ≤ n)
    (hin : ∀ i < a, isFragment k (f i) = true)
    (hout : ∀ i, a ≤ i → i < n → isFragment k (f i) = false) :
    cargoOf k ((List.range n).map f) = (List.range a).map fun i => cargo (f i) := by
  obtain ⟨d, rfl⟩ := Nat.exists_eq_add_of_le ha
  rw [List.range_add, List.map_append, cargoOf_append]
  have hright : cargoOf k (((List.range d).map (a + ·)).map f) = [] := by
    refine cargoOf_nil fun s hs => ?_
    rw [List.map_map] at hs
    obtain ⟨j, hj, rfl⟩ := List.mem_map.mp hs
    rw [List.mem_range] at hj
    exact hout (a + j) (by omega) (by omega)
  have hleft : ((List.range a).map f).filter (isFragment k) = (List.range a).map f := by
    refine List.filter_eq_self.mpr fun s hs => ?_
    obtain ⟨j, hj, rfl⟩ := List.mem_map.mp hs
    exact hin j (List.mem_range.mp hj)
  rw [hright, List.append_nil, cargoOf, hleft, List.map_map]
  rfl

/-! ## The pieces of a row -/

/-- The pieces of a row of `n` symbols. -/
def rowCargo (k n : Nat) (row : Row) : List Cargo :=
  cargoOf k ((List.range n).map row.cells)

/-- Every fragment of the block has bytes in it. -/
def Loaded (ss : Nat) (b : List Frag) : Prop := ∀ f ∈ b, (f.symbol ss).payloadLen ≠ 0

section Rows

variable {wh : Wirehair} {cfg : Config}

theorem cargo_clip {ss : Nat} {s : Symbol} (h : s.payloadLen.toNat ≤ ss) :
    cargo (clipSymbol ss s) = cargo s := by
  refine Cargo.ext rfl rfl ?_
  show bytes (clip ss s.data) s.payloadLen.toNat = bytes s.data s.payloadLen.toNat
  refine bytes_congr fun i hi => ?_
  rw [clip, if_pos (Nat.lt_of_lt_of_le hi h)]

/-- A source symbol keeps its piece when it is stamped. -/
theorem cell_source (hlen : cfg.k + cfg.m ≤ 256) (j : Nat) (b : List Frag) {c : Nat}
    (hc : c < cfg.k) :
    let s := (blockRow wh cfg j b).cells c
    cargo s = cargo (sourceSymbol cfg.symbolSize b c) ∧
      s.payloadLen = (sourceSymbol cfg.symbolSize b c).payloadLen ∧ s.fecId.toNat = c := by
  intro s
  have hs : s = stampSource cfg (blockIdOf j) c (sourceSymbol cfg.symbolSize b c) := if_pos hc
  obtain ⟨-, hfec, hidx, htot, hpay, hdata⟩ := stampCrc_header cfg
    { sourceSymbol cfg.symbolSize b c with
      packetId := blockIdOf j
      fecId := UInt32.ofNat c }
  refine ⟨?_, ?_, ?_⟩
  · rw [hs, cargo, cargo, stampSource, hidx, htot, hpay, hdata]
  · rw [hs, stampSource, hpay]
  · rw [hs, stampSource, hfec]
    exact toNat_ofNat_lt (by omega)

/-- **The pieces of a block** are its fragments. -/
theorem rowCargo_block (hlen : cfg.k + cfg.m ≤ 256) (j : Nat) {b : List Frag}
    (hb : b.length ≤ cfg.k) (hload : Loaded cfg.symbolSize b) :
    rowCargo cfg.k (cfg.k + cfg.m) (blockRow wh cfg j b)
      = b.map fun f => cargo (f.symbol cfg.symbolSize) := by
  have hget : ∀ i (hi : i < b.length),
      sourceSymbol cfg.symbolSize b i = (b[i]).symbol cfg.symbolSize := by
    intro i hi
    rw [sourceSymbol, List.getElem?_eq_getElem hi]
  rw [rowCargo, @cargoOf_range cfg.k b.length _ _ (by omega)]
  · refine List.ext_getElem ?_ ?_
    · rw [List.length_map, List.length_range, List.length_map]
    · intro i h1 h2
      rw [List.length_map] at h2
      rw [List.getElem_map, List.getElem_range, List.getElem_map,
        (cell_source hlen j b (by omega)).1, hget i h2]
  · intro i hi
    obtain ⟨-, hpay, hfec⟩ := @cell_source wh cfg hlen j b i (show i < cfg.k by omega)
    rw [isFragment, hfec, hpay, hget i hi, decide_eq_true (by omega), Bool.true_and,
      bne_iff_ne]
    exact hload _ (List.getElem_mem hi)
  · intro i hle hlt
    by_cases hik : i < cfg.k
    · obtain ⟨-, hpay, -⟩ := @cell_source wh cfg hlen j b i hik
      have hpad : sourceSymbol cfg.symbolSize b i = symbolInit := by
        rw [sourceSymbol, List.getElem?_eq_none hle]
      rw [isFragment, hpay, hpad]
      exact Bool.and_false _
    · have hfec := (blockRow_header wh cfg j b i).2
      rw [isFragment, hfec, toNat_ofNat_lt (by omega), decide_eq_false hik]
      rfl

/-- Symbols whose payload fits are copied whole. -/
theorem rowCargo_clip {k n ss : Nat} {row : Row}
    (h : ∀ c < n, (row.cells c).payloadLen.toNat ≤ ss) :
    cargoOf k ((List.range n).map fun c => clipSymbol ss (row.cells c)) = rowCargo k n row := by
  have hfil : ∀ s : Symbol, isFragment k (clipSymbol ss s) = isFragment k s := fun _ => rfl
  rw [rowCargo, cargoOf, cargoOf, List.filter_map, List.filter_map, List.map_map, List.map_map]
  refine List.map_congr_left fun c hc => ?_
  exact cargo_clip (h c (List.mem_range.mp (List.mem_filter.mp hc).1))

/-- The rows below `d` of an array that goes on with nothing. -/
theorem flatMap_range_rows {α β : Type} {l : List α} {d : Nat} (hle : l.length ≤ d)
    {g : Nat → List β} {h : α → List β} (hin : ∀ i (hi : i < l.length), g i = h l[i])
    (hout : ∀ i, l.length ≤ i → i < d → g i = []) : (List.range d).flatMap g = l.flatMap h := by
  obtain ⟨e, rfl⟩ := Nat.exists_eq_add_of_le hle
  have hright : ((List.range e).map (l.length + ·)).flatMap g = [] := by
    refine List.flatMap_eq_nil_iff.mpr fun i hi => ?_
    obtain ⟨j, hj, rfl⟩ := List.mem_map.mp hi
    rw [List.mem_range] at hj
    exact hout _ (by omega) (by omega)
  have hleft : (List.range l.length).map g = l.map h := by
    refine List.ext_getElem ?_ ?_
    · rw [List.length_map, List.length_range, List.length_map]
    · intro i h1 h2
      rw [List.length_map] at h2
      rw [List.getElem_map, List.getElem_range, List.getElem_map]
      exact hin i h2
  rw [List.range_add, List.flatMap_append, hright, List.append_nil, List.flatMap_def,
    List.flatMap_def, hleft]

/-- **The pieces of a window**, read out by columns, are those of its rows. -/
theorem windowSymbols_cargo {rows : List Row} (hd : 0 < cfg.depth)
    (hle : rows.length ≤ cfg.depth)
    (hpay : ∀ row ∈ rows, ∀ c < cfg.k + cfg.m,
      (row.cells c).payloadLen.toNat ≤ cfg.symbolSize) :
    (cargoOf cfg.k (windowSymbols cfg rows)).Perm
      (rows.flatMap (rowCargo cfg.k (cfg.k + cfg.m))) := by
  have hsym : ∀ r c, r < cfg.depth → windowSymbol cfg.depth cfg.symbolSize
      (padded cfg.depth (cfg.k + cfg.m) cfg.symbolSize rows) (cfg.depth * c + r)
      = clipSymbol cfg.symbolSize ((if h : r < rows.length then rows[r]
          else padRow (cfg.k + cfg.m) cfg.symbolSize).cells c) := by
    intro r c hr
    rw [windowSymbol_eq hle hd]
    simp only [Nat.mul_add_mod, Nat.mod_eq_of_lt hr]
    rw [Nat.mul_add_div hd, Nat.div_eq_of_lt hr, Nat.add_zero]
  have hperm := (((Burst.range_mul_perm cfg.depth (cfg.k + cfg.m)).map
    (windowSymbol cfg.depth cfg.symbolSize
      (padded cfg.depth (cfg.k + cfg.m) cfg.symbolSize rows))).filter
        (isFragment cfg.k)).map cargo
  refine hperm.trans (List.Perm.of_eq ?_)
  rw [List.map_flatMap]
  refine (cargoOf_flatMap cfg.k (List.range cfg.depth) _).trans (flatMap_range_rows hle ?_ ?_)
  · intro r hr
    have hrow : (List.range (cfg.k + cfg.m)).map (fun c => windowSymbol cfg.depth
        cfg.symbolSize (padded cfg.depth (cfg.k + cfg.m) cfg.symbolSize rows)
        (cfg.depth * c + r))
        = (List.range (cfg.k + cfg.m)).map fun c =>
          clipSymbol cfg.symbolSize (rows[r].cells c) := by
      refine List.map_congr_left fun c _ => ?_
      rw [hsym r c (by omega), dif_pos hr]
    rw [List.map_map]
    exact (congrArg (cargoOf cfg.k) hrow).trans
      (rowCargo_clip (hpay _ (List.getElem_mem hr)))
  · intro r hge hr
    refine cargoOf_nil fun s hs => ?_
    rw [List.map_map] at hs
    obtain ⟨c, -, rfl⟩ := List.mem_map.mp hs
    show isFragment cfg.k (windowSymbol _ _ _ (cfg.depth * c + r)) = false
    rw [hsym r c hr, dif_neg (by omega)]
    exact Bool.and_false _

/-! ## Conservation -/

/-- No cell of a block holds more than a symbol. -/
theorem cell_payloadLen (wh : Wirehair) (hlen : cfg.k + cfg.m ≤ 256) (j : Nat)
    (b : List Frag) (c : Nat) :
    ((blockRow wh cfg j b).cells c).payloadLen.toNat ≤ cfg.symbolSize := by
  by_cases hc : c < cfg.k
  · rw [(@cell_source wh cfg hlen j b c hc).2.1]
    exact sourceSymbol_payloadLen _ _ _
  · have hs : (blockRow wh cfg j b).cells c = stampRepair cfg (blockIdOf j) (c - cfg.k)
        { symbolInit with
          data := ofList (symbolOf wh.encoding cfg.k cfg.symbolSize
            (message cfg (sourceSymbol cfg.symbolSize b)) c) } := if_neg hc
    rw [hs, stampRepair, (stampCrc_header _ _).2.2.2.2.1]
    show (UInt16.ofNat cfg.symbolSize).toNat ≤ cfg.symbolSize
    rw [UInt16.toNat_ofNat']
    exact Nat.mod_le _ _

/-- The pieces of all the windows. -/
theorem windows_cargo (hd : 0 < cfg.depth) {windows : List (List Row)}
    (hle : ∀ w ∈ windows, w.length ≤ cfg.depth)
    (hpay : ∀ row ∈ windows.flatten, ∀ c < cfg.k + cfg.m,
      (row.cells c).payloadLen.toNat ≤ cfg.symbolSize) :
    (cargoOf cfg.k (windows.flatMap (windowSymbols cfg))).Perm
      (windows.flatten.flatMap (rowCargo cfg.k (cfg.k + cfg.m))) := by
  induction windows with
  | nil => exact List.Perm.refl _
  | cons w windows ih =>
      rw [List.flatMap_cons, cargoOf_append, List.flatten_cons, List.flatMap_append]
      refine List.Perm.append ?_ (ih ?_ ?_)
      · refine windowSymbols_cargo hd (hle w List.mem_cons_self) fun row hrow => ?_
        exact hpay row (by
          rw [List.flatten_cons]
          exact List.mem_append_left _ hrow)
      · intro w' hw'
        exact hle w' (List.mem_cons_of_mem _ hw')
      · intro row hrow
        exact hpay row (by
          rw [List.flatten_cons]
          exact List.mem_append_right _ hrow)

/-- The pieces of all the rows. -/
theorem allRows_cargo (hlen : cfg.k + cfg.m ≤ 256) {h : TxHist}
    (hblocks : ∀ b ∈ h.blocks, b.length ≤ cfg.k)
    (hload : ∀ b ∈ h.blocks, Loaded cfg.symbolSize b) :
    (h.allRows wh cfg).flatMap (rowCargo cfg.k (cfg.k + cfg.m))
      = h.blocks.flatten.map fun f => cargo (f.symbol cfg.symbolSize) := by
  have hzip : h.blocks.zipIdx.flatMap (fun p => p.1.map fun f => cargo (f.symbol cfg.symbolSize))
      = h.blocks.flatMap fun b => b.map fun f => cargo (f.symbol cfg.symbolSize) := by
    conv_rhs => rw [← List.zipIdx_map_fst 0 h.blocks]
    rw [List.flatMap_map]
  rw [TxHist.allRows, List.flatMap_map, List.map_flatten, ← List.flatMap_def, ← hzip]
  refine List.flatMap_congr fun p hp => ?_
  have hmem := List.fst_mem_of_mem_zipIdx hp
  exact rowCargo_block hlen p.2 (hblocks _ hmem) (hload _ hmem)

end Rows

section Conserved

variable {wh : Wirehair} {pl : TxPipeline}

/-- No fragment of an accepted frame is empty. -/
theorem accepted_loaded {fs : Nat} (hpos : 0 < fs) (hfits : fs ≤ maxSymbolDataSize)
    {accepted : List (List UInt8)} {s : Symbol} (hs : s ∈ acceptedSymbols fs accepted) :
    s.payloadLen ≠ 0 := by
  obtain ⟨p, -, hs⟩ := List.mem_flatMap.mp hs
  obtain ⟨i, hi, rfl⟩ := List.mem_map.mp hs
  have hlen := fragmentLen_pos hpos (List.mem_range.mp hi)
  have hle := fragmentLen_le p.1.length fs i
  have hmax : maxSymbolDataSize = 9000 := rfl
  intro hz
  have hzero := congrArg UInt16.toNat hz
  replace hzero : (UInt16.ofNat (fragmentLen p.1.length fs i)).toNat = 0 := hzero
  rw [UInt16.toNat_ofNat'] at hzero
  omega

/-- **Conservation**: the pieces sent, in the window and in the builder are those
    of the accepted frames. -/
theorem conserved (hi : SizedInv wh pl) {h : TxHist}
    (hr : Rel wh pl h (allFrags pl.cfg.symbolSize (spreadAll pl.cfg pl.accepted))) :
    (emitted pl ++ h.rows.flatMap (rowCargo pl.cfg.k (pl.cfg.k + pl.cfg.m))
        ++ h.cur.map fun f => cargo (f.symbol pl.cfg.symbolSize)).Perm
      ((acceptedSymbols (fragSize pl.cfg) pl.accepted).map cargo) := by
  have hc := hr.core
  have hlen : pl.cfg.k + pl.cfg.m ≤ 256 := hi.cfg.length
  have hfrags := congrArg (List.map (Frag.symbol pl.cfg.symbolSize)) hc.frags
  rw [allFrags_spread hi.size] at hfrags
  have hload : ∀ b ∈ h.blocks, Loaded pl.cfg.symbolSize b := by
    intro b hb f hf
    have hmem : f.symbol pl.cfg.symbolSize
        ∈ acceptedSymbols (fragSize pl.cfg) pl.accepted := by
      rw [← hfrags]
      exact List.mem_map_of_mem (List.mem_append_left _ (List.mem_flatten_of_mem hb hf))
    have hne : pl.accepted ≠ [] := by
      intro hnil
      rw [hnil] at hmem
      exact nomatch hmem
    exact accepted_loaded (hi.size hne).pos (hi.size hne).fits hmem
  have hpay : ∀ row ∈ h.windows.flatten, ∀ c < pl.cfg.k + pl.cfg.m,
      (row.cells c).payloadLen.toNat ≤ pl.cfg.symbolSize := by
    intro row hrow c _
    have hmem : row ∈ h.allRows wh pl.cfg := by
      rw [← hc.rows]
      exact List.mem_append_left _ hrow
    obtain ⟨p, -, rfl⟩ := List.mem_map.mp hmem
    exact cell_payloadLen wh hlen p.2 p.1 c
  -- a window is sent by columns: of its rows only the order is lost
  have hsent : (emitted pl).Perm
      (h.windows.flatten.flatMap (rowCargo pl.cfg.k (pl.cfg.k + pl.cfg.m))) := by
    rw [emitted, hc.sent]
    exact windows_cargo hi.cfg.depth (fun w hw => (hc.windows w hw).2) hpay
  -- the repair symbols of a row carry no piece, its source symbols carry the block
  have hrows : h.windows.flatten.flatMap (rowCargo pl.cfg.k (pl.cfg.k + pl.cfg.m))
        ++ h.rows.flatMap (rowCargo pl.cfg.k (pl.cfg.k + pl.cfg.m))
      = h.blocks.flatten.map fun f => cargo (f.symbol pl.cfg.symbolSize) := by
    rw [← List.flatMap_append, hc.rows]
    exact allRows_cargo hlen (fun b hb => (hc.blocks b hb).2.1) hload
  refine ((hsent.append_right _).append_right _).trans (List.Perm.of_eq ?_)
  rw [hrows, ← List.map_append, ← hfrags, List.map_map]
  rfl

end Conserved

/-! ## An idle call after the builder's timeout -/

section Idle

variable {wh : Wirehair} {clk : Nat → Nat} {pl : TxPipeline} {h : TxHist}
  {frags : List Frag}

theorem Rel.toAt (hr : Rel wh pl h frags) :
    At pl.cfg.k (pl.cfg.k * pl.blocksBuilt + pl.builder.symbolCount) pl where
  kLimit := hr.core.shape.kLimit
  room := by
    rw [hr.builder.count]
    exact hr.room
  number := rfl

/-- **The builder is empty** after an idle call that finds its timer expired, or
    nothing in it. -/
theorem idle_empties_builder (hr : Rel wh pl h frags)
    (h0 : (checkTimeoutAndTick wh clk pl).1 = 0)
    (hlate : 0 < pl.builder.symbolCount →
      txBlockTimeoutMs ≤ elapsedMs pl.builder.firstActivity (clk pl.clock)) :
    (checkTimeoutAndTick wh clk pl).2.builder.symbolCount = 0 := by
  obtain ⟨hkeep, hempty⟩ := checkTimeoutAndTick_builder hr.toAt h0
  have hpos : 0 < txBlockTimeoutMs := by
    rw [txBlockTimeoutMs]
    norm_num
  have hnonneg : ¬ txBlockTimeoutMs < 0 := not_lt.mpr hpos.le
  by_cases hz : pl.builder.symbolCount = 0
  · rw [hkeep, hz]
    rw [blockBuilderCheckTimeout, if_neg hnonneg, if_pos hz]
    exact show ¬ (0 : Int) = 1 by decide
  · apply hempty
    rw [blockBuilderCheckTimeout, if_neg hnonneg, if_neg hz, blockBuilderElapsedMs,
      if_pos ((le_elapsedMs hpos _ _).mp (hlate (Nat.pos_of_ne_zero hz)))]

/-- A builder that holds nothing is left alone. -/
theorem idle_empty_builder (hz : pl.builder.symbolCount = 0) :
    checkTimeoutAndTick wh clk pl
      = (0, tickAndDrainInterleaver clk { pl with clock := pl.clock + 1 }) := by
  have hrc : blockBuilderCheckTimeout pl.builder txBlockTimeoutMs (clk pl.clock) = 0 := by
    rw [blockBuilderCheckTimeout, if_neg, if_pos hz]
    rw [txBlockTimeoutMs]
    norm_num
  rw [checkTimeoutAndTick, hrc, if_neg (show ¬ (0 : Int) = -1 by decide)]
  exact if_neg fun hdue => absurd hdue.1 (show ¬ (0 : Int) = 1 by decide)

end Idle

/-! ## A tick after the window's timeout -/

/-- Nothing is in the window, and no row is taken. -/
structure Empty (il : Interleaver) : Prop where
  notReady : il.ready = false
  windowCount : il.windowBlockCount = 0
  complete : il.completeSlots = 0
  free : ∀ row < il.depth, il.rowAssigned row = false ∧ (il.slots row).symbolCount = 0

theorem empty_of_holds {il : Interleaver} (h : Holds il []) : Empty il where
  notReady := h.notReady
  windowCount := h.windowCount
  complete := h.complete
  free := by
    intro row hrow
    have hfree := h.free row (Nat.zero_le row) hrow
    exact ⟨hfree.assigned, hfree.count⟩

section Tick

variable {clk : Nat → Nat} {t : Nat} {pl : TxPipeline} {rows : List Row}

/-- **The tick fires** on a window with a row in it whose timer expired. -/
theorem tick_due {il : Interleaver} {now : Nat} (h : Holds il rows) (hne : rows ≠ [])
    (ha : Armed clk t il)
    (hlate : ∀ j < t, (txInterleaverFlushTimeoutMs : ℚ) ≤ elapsedMs (clk j) now) :
    (interleaverTick il now).1 = 1 := by
  have hpos : 0 < il.completeSlots := by
    rw [h.complete]
    exact List.length_pos_iff.mpr hne
  have hd := ha.hasData hpos
  obtain ⟨j, hj, hstart⟩ := ha.start hd
  rw [interleaverTick, if_neg, if_neg, if_neg]
  · rw [hstart, ha.timeout]
    exact not_lt.mpr (hlate j hj)
  · rintro (hready | hno | hnone)
    · rw [h.notReady] at hready
      cases hready
    · exact hno hd
    · omega
  · rw [ha.timeout]
    decide

/-- **The window is empty** after a tick that finds its timer expired, or no row in
    it. -/
theorem tick_empties_window (h : Holds pl.interleaver rows) (hn : 0 < pl.interleaver.n)
    (ha : Armed clk t pl.interleaver)
    (hlate : ∀ j < t,
      (txInterleaverFlushTimeoutMs : ℚ) ≤ elapsedMs (clk j) (clk pl.clock)) :
    Holds (tickAndDrainInterleaver clk pl).interleaver [] := by
  rcases tick_holds (clk pl.clock) h hn with hsame | ⟨hfired, -, -, hd⟩
  · -- only a window without rows is left as it is
    cases rows with
    | nil =>
        rw [tickAndDrainInterleaver, hsame]
        exact h
    | cons row rows =>
        have hdue := tick_due h (List.cons_ne_nil row rows) ha hlate
        rw [hsame] at hdue
        exact absurd hdue (show ¬ (0 : Int) = 1 by decide)
  · let pl1 : TxPipeline :=
      { pl with
        interleaver := (interleaverTick pl.interleaver (clk pl.clock)).2
        clock := pl.clock + 1 }
    obtain ⟨il, hdrain, -, hholds⟩ := @drainInterleaver_draining pl1 _ hd
    have hr : tickAndDrainInterleaver clk pl = drainInterleaver pl1 := by
      rw [tickAndDrainInterleaver]
      exact if_pos hfired
    rw [hr, hdrain]
    exact hholds

end Tick

/-! ## Two idle calls -/

section Run

variable {wh : Wirehair} {clk : Nat → Nat}

/-- The window's timer after one more idle call. -/
theorem armed_idle {pl : TxPipeline} (ha : WindowArmed clk pl)
    (h0 : (txPipelineRunOnce wh clk pl .idle).1 = 0) :
    WindowArmed clk (txPipelineRunOnce wh clk pl .idle).2 := by
  refine (@TxClosed.once wh clk _ _ pl [] (armed_closed wh clk) .idle ha).ok ?_
  rw [h0]
  decide

/-- An idle call accepts no frame. -/
theorem idle_accepted (clk : Nat → Nat) {pl : TxPipeline} (hi : SizedInv wh pl) :
    (txPipelineRunOnce wh clk pl .idle).2.accepted = pl.accepted := by
  obtain ⟨h, hr⟩ := hi.hist
  obtain ⟨-, hs, -⟩ := checkTimeoutAndTick_spec clk hi.cfg hi.recovers hr
  exact hs.accepted

/-- **The second idle call**: nothing is in the builder, and the window has waited
    for its timeout since the last clock reading. -/
theorem second_idle {pl : TxPipeline} (hclk : Monotone clk) (hi : SizedInv wh pl)
    (ha : WindowArmed clk pl) (hz : pl.builder.symbolCount = 0)
    (hlate : (txInterleaverFlushTimeoutMs : ℚ)
      ≤ elapsedMs (clk (pl.clock - 1)) (clk pl.clock)) :
    let r := txPipelineRunOnce wh clk pl .idle
    r.2.builder.symbolCount = 0 ∧ Holds r.2.interleaver [] := by
  intro r
  obtain ⟨h, hr⟩ := hi.hist
  have hn : 0 < pl.interleaver.n := by
    rw [hr.core.shape.n]
    have := hi.cfg.source
    omega
  let pl1 : TxPipeline := { pl with clock := pl.clock + 1 }
  have heq : r = (0, tickAndDrainInterleaver clk pl1) := idle_empty_builder hz
  have hholds : Holds pl1.interleaver h.rows := hr.core.holds
  rw [heq]
  constructor
  · rw [(tick_sameBlock clk pl1).builder]
    exact hz
  · refine tick_empties_window hholds hn ha fun j hj => ?_
    have hstart : clk j ≤ clk (pl.clock - 1) := hclk (by omega)
    have hstop : clk pl.clock ≤ clk (pl.clock + 1) := hclk (Nat.le_succ _)
    exact WholeMs.widen ⟨5, by norm_num, by norm_num, rfl⟩ hstart hstop hlate

/-- **Nothing stays in the transmitter**: an idle call 2 ms after the builder's
    first symbol and an idle call 5 ms after that leave the builder and the window
    empty, and every fragment of the accepted frames has been sent once. -/
theorem idle_calls_flush (wh : Wirehair) (clk : Nat → Nat) (mem : Nat → Nat → Symbol)
    (lanMac : List UInt8) (cfg : Config) (pl0 : TxPipeline)
    (hcreate : txPipelineCreate mem lanMac cfg = some pl0) (hm : 1 ≤ cfg.m)
    (hwh : Encodes wh.encoding cfg.k (cfg.k + cfg.m) cfg.symbolSize)
    (hclk : Monotone clk) (evs : List TxEvent) :
    let pl := (txRun wh clk evs pl0).2
    let r1 := txPipelineRunOnce wh clk pl .idle
    let r2 := txPipelineRunOnce wh clk r1.2 .idle
    (∀ t, firstReading wh clk evs pl0 = some t → 2 ≤ elapsedMs t (clk pl.clock)) →
    5 ≤ elapsedMs (clk (r1.2.clock - 1)) (clk r1.2.clock) →
    r1.1 = 0 ∧ r2.1 = 0 ∧ r2.2.builder.symbolCount = 0 ∧ Empty r2.2.interleaver ∧
      r2.2.accepted = pl.accepted ∧
      (emitted r2.2).Perm ((acceptedSymbols (fragSize cfg) pl.accepted).map cargo) := by
  intro pl r1 r2 hfirst hsecond
  obtain ⟨hinit, hcfg0⟩ := @sizedInv_create wh _ _ _ _ hcreate hm hwh
  obtain ⟨h0, hi, hcfg⟩ := sized_run clk evs hinit
  obtain ⟨h1, hi1, hcfg1⟩ := sized_runOnce clk hi .idle
  obtain ⟨h2, hi2, hcfg2⟩ := sized_runOnce clk hi1 .idle
  have hrcfg : r2.2.cfg = cfg := hcfg2.trans (hcfg1.trans (hcfg.trans hcfg0))
  have ha : WindowArmed clk pl := by
    refine armed_run hcreate evs ?_
    rw [h0]
    decide
  -- the first call empties the builder, the second the window
  have hbuilder : r1.2.builder.symbolCount = 0 := by
    obtain ⟨h, hr⟩ := hi.hist
    refine idle_empties_builder hr h1 fun hpos => ?_
    exact hfirst _ (since_run hcreate evs h0 hpos)
  obtain ⟨hempty, hholds⟩ := second_idle hclk hi1 (armed_idle ha h1) hbuilder hsecond
  have hacc : r2.2.accepted = pl.accepted :=
    (idle_accepted clk hi1).trans (idle_accepted clk hi)
  refine ⟨h1, h2, hempty, empty_of_holds hholds, hacc, ?_⟩
  obtain ⟨h, hr⟩ := hi2.hist
  have hrows : h.rows = [] := by
    rw [← List.length_eq_zero_iff, ← hr.core.holds.windowCount]
    exact hholds.windowCount
  have hcur : h.cur = [] := by
    rw [← List.length_eq_zero_iff, ← hr.builder.count]
    exact hempty
  have hall := conserved hi2 hr
  rw [hrows, hcur, List.flatMap_nil, List.map_nil, List.append_nil, List.append_nil] at hall
  replace hall : (emitted r2.2).Perm
      ((acceptedSymbols (fragSize r2.2.cfg) r2.2.accepted).map cargo) := hall
  rw [hrcfg, hacc] at hall
  exact hall

/-- A clock that shows the same time for five readings, then 5 ms more. -/
def slowClock (t : Nat) : Nat := (t + 2) / 5 * 5000000

theorem slowClock_mono : Monotone slowClock := by
  intro a b hab
  exact Nat.mul_le_mul_right _ (Nat.div_le_div_right (Nat.add_le_add_right hab 2))

/-- `idle_calls_flush` after a frame of one fragment: the first idle call moves it
    to the window, the second sends it. -/
theorem idle_calls_flush_smallLink :
    let pl := (txRun parity slowClock [.frame [1, 2, 3] false] smallPipeline).2
    let r1 := txPipelineRunOnce parity slowClock pl .idle
    let r2 := txPipelineRunOnce parity slowClock r1.2 .idle
    pl.builder.symbolCount = 1 ∧ r1.2.interleaver.completeSlots = 1 ∧
      emitted r1.2 = [] ∧ (emitted r2.2).Perm [⟨0, 1, [1, 2, 3]⟩] := by
  intro pl r1 r2
  have hflush := idle_calls_flush parity slowClock (fun _ _ => symbolInit) [] smallLink
    smallPipeline rfl (by decide) (parity_recovers 4).toEncodes slowClock_mono
    [.frame [1, 2, 3] false]
    (by
      have hread : firstReading parity slowClock [.frame [1, 2, 3] false] smallPipeline
          = some 0 := by decide +kernel
      have hnow : slowClock (txRun parity slowClock [.frame [1, 2, 3] false]
          smallPipeline).2.clock = 5000000 := by decide +kernel
      intro t ht
      rw [hread] at ht
      rw [← Option.some.inj ht, hnow]
      decide +kernel)
    (by
      have hlast : slowClock ((txPipelineRunOnce parity slowClock (txRun parity slowClock
          [.frame [1, 2, 3] false] smallPipeline).2 .idle).2.clock - 1) = 5000000 := by
        decide +kernel
      have hnow : slowClock (txPipelineRunOnce parity slowClock (txRun parity slowClock
          [.frame [1, 2, 3] false] smallPipeline).2 .idle).2.clock = 10000000 := by
        decide +kernel
      rw [hlast, hnow]
      decide +kernel)
  refine ⟨by decide +kernel, by decide +kernel, by decide +kernel, ?_⟩
  have haccepted : (acceptedSymbols (fragSize smallLink) pl.accepted).map cargo
      = [⟨0, 1, [1, 2, 3]⟩] := by decide +kernel
  rw [← haccepted]
  exact hflush.2.2.2.2.2

end Run

end FsoTxPipeline
