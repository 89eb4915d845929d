import FsoGateway.FecProofs
import FsoGateway.InterleaverSteps
import FsoGateway.TxPipeline

/-! # Encoding one block

    * `stampedBlock` — `k` stamped source symbols, then `m` stamped repair
      symbols, pushed one after the other (`encodeAndDrain_stamped`);
    * `encodeAndDrain_spec` — a full builder becomes one complete row of the
      window, and when that row fills the window, the window is sent, column by
      column. -/

namespace FsoTxPipeline

open ByteBuffer FsoTypes ErasureCode FecWrapper FsoBlockBuilder FsoInterleaver
  PacketFragmenter SymbolCrc

/-- The configurations with at least one repair symbol that
    `tx_pipeline_create` accepts. -/
structure CodeOk (cfg : Config) : Prop where
  source : 2 ≤ cfg.k
  repair : 1 ≤ cfg.m
  length : cfg.k + cfg.m ≤ maxSymbolsPerBlock
  depth : 1 ≤ cfg.depth
  symbolSize : 1 ≤ cfg.symbolSize

/-- Those with `symbol_size` within a symbol's buffer. -/
structure CfgOk (cfg : Config) : Prop extends CodeOk cfg where
  fits : cfg.symbolSize ≤ maxSymbolDataSize

/-- The fields that encoding and sending leave alone. -/
structure SameTx (pl pl' : TxPipeline) : Prop where
  cfg : pl'.cfg = pl.cfg
  fec : pl'.fec = pl.fec
  packetIdCounter : pl'.packetIdCounter = pl.packetIdCounter
  fragSyms : pl'.fragSyms = pl.fragSyms
  maxFragsPerPacket : pl'.maxFragsPerPacket = pl.maxFragsPerPacket
  lanMac : pl'.lanMac = pl.lanMac
  accepted : pl'.accepted = pl.accepted
  refusedAdds : pl'.refusedAdds = pl.refusedAdds

theorem SameTx.refl (pl : TxPipeline) : SameTx pl pl :=
  ⟨rfl, rfl, rfl, rfl, rfl, rfl, rfl, rfl⟩

theorem SameTx.trans {a b c : TxPipeline} (h1 : SameTx a b) (h2 : SameTx b c) :
    SameTx a c :=
  ⟨h2.1.trans h1.1, h2.2.trans h1.2, h2.3.trans h1.3, h2.4.trans h1.4,
    h2.5.trans h1.5, h2.6.trans h1.6, h2.7.trans h1.7, h2.8.trans h1.8⟩

/-! ## Draining the window -/

/-- The symbols of a window in the order in which they are sent. -/
def windowSymbols (cfg : Config) (rows : List Row) : List Symbol :=
  (List.range (cfg.depth * (cfg.k + cfg.m))).map
    (windowSymbol cfg.depth cfg.symbolSize
      (padded cfg.depth (cfg.k + cfg.m) cfg.symbolSize rows))

/-- The drain loop sends what is left of the window, and resets it. -/
theorem drainLoop_draining {rows : List Row} (fuel : Nat) {pl : TxPipeline} {p : Nat}
    (h : Draining pl.interleaver rows p)
    (hfuel : fuel = pl.interleaver.depth * pl.interleaver.n - p) :
    ∃ il, drainLoop fuel pl
        = { pl with
            interleaver := il
            sent := pl.sent ++ (List.range' p fuel).map
              (windowSymbol pl.interleaver.depth pl.interleaver.symbolSize rows) } ∧
      SameShape pl.interleaver il ∧ Holds il [] := by
  induction fuel generalizing pl p with
  | zero =>
      have hl := h.left
      omega
  | succ fuel ih =>
      obtain ⟨last, il, hpop, hs, hcase⟩ := pop_draining h
      rw [drainLoop, hpop]
      rcases hcase with ⟨hlt, hl, hd⟩ | ⟨heq, hl, hd⟩
      · obtain ⟨il2, h1, h2, h3⟩ := @ih
          (txSerializeAndSend { pl with interleaver := il }
            (windowSymbol pl.interleaver.depth pl.interleaver.symbolSize rows p)) (p + 1)
          hd (by
            show fuel = il.depth * il.n - (p + 1)
            rw [hs.depth, hs.n]
            omega)
        refine ⟨il2, ?_, hs.trans h2, h3⟩
        subst hl
        show drainLoop fuel _ = _
        rw [h1]
        show ({ pl with interleaver := il2, sent := (pl.sent ++ [_]) ++ _ } : TxPipeline)
          = _
        rw [List.append_assoc, List.range'_succ, List.map_cons]
        show ({ pl with interleaver := il2, sent := pl.sent ++ (_ :: (List.range' (p + 1)
          fuel).map (windowSymbol il.depth il.symbolSize rows)) } : TxPipeline) = _
        rw [hs.depth, hs.symbolSize]
      · have hf : fuel = 0 := by omega
        refine ⟨il, ?_, hs, hd⟩
        subst hl
        rw [hf]
        rfl

/-- A window that is not ready is not drained. -/
theorem drainInterleaver_holds {pl : TxPipeline} {rows : List Row}
    (h : Holds pl.interleaver rows) : drainInterleaver pl = pl := by
  rw [drainInterleaver, interleaverIsReady, h.notReady]
  rfl

/-- A ready window is sent whole. -/
theorem drainInterleaver_draining {pl : TxPipeline} {rows : List Row}
    (h : Draining pl.interleaver rows 0) :
    ∃ il, drainInterleaver pl
        = { pl with
            interleaver := il
            sent := pl.sent
              ++ (List.range (pl.interleaver.depth * pl.interleaver.n)).map
                (windowSymbol pl.interleaver.depth pl.interleaver.symbolSize rows) } ∧
      SameShape pl.interleaver il ∧ Holds il [] := by
  have hpend : interleaverSymbolsPending pl.interleaver
      = pl.interleaver.depth * pl.interleaver.n := by
    rw [interleaverSymbolsPending, if_pos h.ready, h.row, h.col, Nat.zero_mod,
      Nat.zero_div, Nat.zero_mul]
    rfl
  rw [drainInterleaver, interleaverIsReady, if_pos h.ready, hpend,
    List.range_eq_range']
  exact drainLoop_draining _ h rfl

/-- Sending only touches the interleaver and what was sent. -/
theorem drainLoop_frame (fuel : Nat) (pl : TxPipeline) :
    ∃ il sent, drainLoop fuel pl = { pl with interleaver := il, sent := sent } := by
  induction fuel generalizing pl with
  | zero => exact ⟨pl.interleaver, pl.sent, rfl⟩
  | succ fuel ih =>
      rw [drainLoop]
      cases interleaverPopReadySymbol pl.interleaver with
      | none => exact ⟨pl.interleaver, pl.sent, rfl⟩
      | some r =>
          obtain ⟨outSym, last, il⟩ := r
          cases last with
          | true => exact ⟨il, pl.sent ++ [outSym], rfl⟩
          | false =>
              obtain ⟨il', sent, h⟩ :=
                ih (txSerializeAndSend { pl with interleaver := il } outSym)
              exact ⟨il', sent, h⟩

theorem drainInterleaver_frame (pl : TxPipeline) :
    ∃ il sent, drainInterleaver pl = { pl with interleaver := il, sent := sent } := by
  rw [drainInterleaver]
  split
  · exact drainLoop_frame _ pl
  · exact ⟨pl.interleaver, pl.sent, rfl⟩

/-! ## Pushing a block -/

/-- The symbols of a block from column `j` on, ready to be pushed. -/
structure Columns (ss : Nat) (key : UInt32) (cells : Nat → Symbol) (j : Nat)
    (l : List Symbol) : Prop where
  key : ∀ i (h : i < l.length), l[i].packetId = key
  fecId : ∀ i (h : i < l.length), l[i].fecId.toNat = j + i
  cells : ∀ i (h : i < l.length), clipSymbol ss l[i] = clipSymbol ss (cells (j + i))

theorem Columns.tail {ss : Nat} {key : UInt32} {cells : Nat → Symbol} {j : Nat}
    {s : Symbol} {l : List Symbol} (h : Columns ss key cells j (s :: l)) :
    Columns ss key cells (j + 1) l where
  key := by
    intro i hi
    exact h.key (i + 1) (Nat.succ_lt_succ hi)
  fecId := by
    intro i hi
    have h1 := h.fecId (i + 1) (Nat.succ_lt_succ hi)
    rw [List.getElem_cons_succ] at h1
    omega
  cells := by
    intro i hi
    have h1 := h.cells (i + 1) (Nat.succ_lt_succ hi)
    rw [List.getElem_cons_succ] at h1
    rw [h1, Nat.add_right_comm, Nat.add_assoc]

/-- The push loop only touches the interleaver and the clock. -/
theorem pushSymbols_frame (clk : Nat → Nat) (l : List Symbol) (pl : TxPipeline) :
    ∃ il t, (pushSymbols clk l pl).2 = { pl with interleaver := il, clock := t } := by
  induction l generalizing pl with
  | nil => exact ⟨pl.interleaver, pl.clock, rfl⟩
  | cons s l ih =>
      rw [pushSymbols]
      by_cases hr : (interleaverPushSymbol pl.interleaver s (clk pl.clock)).1 = -1
      · simp only [if_pos hr]
        exact ⟨_, _, rfl⟩
      · simp only [if_neg hr]
        obtain ⟨il, t, h⟩ := ih
          { pl with
            interleaver := (interleaverPushSymbol pl.interleaver s (clk pl.clock)).2
            clock := pl.clock + 1 }
        exact ⟨il, t, h⟩

/-- The loop over a list that is pushed in two parts. -/
theorem pushSymbols_append (clk : Nat → Nat) (l l' : List Symbol) (pl : TxPipeline) :
    pushSymbols clk (l ++ l') pl
      = if (pushSymbols clk l pl).1 = -1 then pushSymbols clk l pl
        else pushSymbols clk l' (pushSymbols clk l pl).2 := by
  induction l generalizing pl with
  | nil => exact (if_neg (show ¬ (0 : Int) = -1 by decide)).symm
  | cons s l ih =>
      rw [List.cons_append, pushSymbols, pushSymbols]
      split
      · exact (if_pos rfl).symm
      · exact ih _

/-- **The push loop** extends the row; with the last symbol of the block it is
    complete. -/
theorem pushSymbols_filling {rows : List Row} {key : UInt32} {cells : Nat → Symbol}
    (clk : Nat → Nat) (hkey : ∀ row ∈ rows, row.key ≠ key) (l : List Symbol)
    {pl : TxPipeline} {j : Nat} (h : Filling pl.interleaver rows key cells j)
    (hn : pl.interleaver.n ≤ 2 ^ 31)
    (hl : Columns pl.interleaver.symbolSize key cells j l)
    (hle : j + l.length ≤ pl.interleaver.n) :
    let r := pushSymbols clk l pl
    r.1 = 0 ∧ SameShape pl.interleaver r.2.interleaver ∧
      (j + l.length < pl.interleaver.n →
        Filling r.2.interleaver rows key cells (j + l.length)) ∧
      (j + l.length = pl.interleaver.n → l ≠ [] →
        ∃ rc, RowDone r.2.interleaver rows ⟨key, cells⟩ rc) := by
  induction l generalizing pl j with
  | nil =>
      exact ⟨rfl, SameShape.refl _, fun _ => h, fun _ hne => absurd rfl hne⟩
  | cons s l ih =>
      rw [List.length_cons] at hle ⊢
      have hid : s.packetId = key := hl.key 0 (Nat.succ_pos _)
      have hfec : s.fecId.toNat = j := hl.fecId 0 (Nat.succ_pos _)
      have hsym : clipSymbol pl.interleaver.symbolSize s
          = clipSymbol pl.interleaver.symbolSize (cells j) := hl.cells 0 (Nat.succ_pos _)
      obtain ⟨hs, hcase⟩ := push_filling (clk pl.clock) h hkey (by omega) hn hid hfec hsym
      have hrc : (interleaverPushSymbol pl.interleaver s (clk pl.clock)).1 ≠ -1 := by
        rcases hcase with ⟨-, h0, -⟩ | ⟨-, hd⟩
        · rw [h0]
          decide
        · intro hm
          rw [hm] at hd
          exact nomatch hd
      intro r
      have hr : r = pushSymbols clk l
          { pl with
            interleaver := (interleaverPushSymbol pl.interleaver s (clk pl.clock)).2
            clock := pl.clock + 1 } := by
        show pushSymbols clk (s :: l) pl = _
        rw [pushSymbols]
        exact if_neg hrc
      rw [hr]
      -- the row goes on, or this symbol completed it and none is left
      rcases hcase with ⟨hlt, -, hfill⟩ | ⟨heq, hd⟩
      · have htail := hl.tail
        rw [← hs.symbolSize] at htail
        obtain ⟨h1, h2, h3, h4⟩ := @ih
          { pl with
            interleaver := (interleaverPushSymbol pl.interleaver s (clk pl.clock)).2
            clock := pl.clock + 1 } (j + 1)
          hfill (by rw [← hs.n] at hn; exact hn) htail
          (by show j + 1 + l.length ≤ _; rw [hs.n]; omega)
        refine ⟨h1, hs.trans h2, ?_, ?_⟩
        · intro hlast
          have h5 := h3 (by show j + 1 + l.length < _; rw [hs.n]; omega)
          rw [show j + (l.length + 1) = j + 1 + l.length by omega]
          exact h5
        · intro hlast _
          refine h4 (by show j + 1 + l.length = _; rw [hs.n]; omega) ?_
          intro hnil
          rw [hnil, List.length_nil] at hlast
          omega
      · have hnil : l = [] := List.length_eq_zero_iff.mp (by omega)
        subst hnil
        exact ⟨rfl, hs, fun hlt => by rw [List.length_nil] at hlt; omega,
          fun _ _ => ⟨_, hd⟩⟩

/-! ## What is stamped and pushed -/

/-- The pipeline when the symbols of the block are stamped. -/
def stamped (wh : Wirehair) (pl : TxPipeline) : TxPipeline :=
  let r := fecEncodeBlock wh pl.fec (sourceBuf pl) pl.repairSyms pl.cfg.m
  let blockId := pl.builder.blockId.toUInt32
  { pl with
    builder :=
      { pl.builder with
        symbols := stampAll pl.cfg.k (stampSource pl.cfg blockId) pl.builder.symbols }
    repairSyms := stampAll pl.cfg.m (stampRepair pl.cfg blockId) r.2
    blocksBuilt := pl.blocksBuilt + 1 }

/-- The symbols that `encode_and_drain` stamps and hands to the interleaver;
    none when `fec_encode_block` fails. -/
def stampedBlock (wh : Wirehair) (pl : TxPipeline) : Option (List Symbol) :=
  if (fecEncodeBlock wh pl.fec (sourceBuf pl) pl.repairSyms pl.cfg.m).1 ≠ fecDecodeOk then
    none
  else
    some ((List.range pl.cfg.k).map (stamped wh pl).builder.symbols
      ++ (List.range pl.cfg.m).map (stamped wh pl).repairSyms)

/-- Without a stamped block, `encode_and_drain` fails before it sends anything. -/
theorem encodeAndDrain_unstamped {wh : Wirehair} {pl : TxPipeline} (clk : Nat → Nat)
    (h : stampedBlock wh pl = none) :
    ∃ repairSyms, encodeAndDrain wh clk pl = (-1, { pl with repairSyms := repairSyms }) := by
  by_cases hfec : (fecEncodeBlock wh pl.fec (sourceBuf pl) pl.repairSyms
      pl.cfg.m).1 ≠ fecDecodeOk
  · rw [encodeAndDrain]
    exact ⟨_, if_pos hfec⟩
  · rw [stampedBlock, if_neg hfec] at h
    exact nomatch h

/-- The two push loops are one loop over the block. -/
theorem pushSymbols_twice (clk : Nat → Nat) (l l' : List Symbol) (pl : TxPipeline) :
    (let p := pushSymbols clk l pl
      if p.1 = -1 then (-1, p.2)
      else
        let q := pushSymbols clk l' p.2
        if q.1 = -1 then (-1, q.2) else (0, drainInterleaver q.2))
      = (let q := pushSymbols clk (l ++ l') pl
        if q.1 = -1 then ((-1 : Int), q.2) else (0, drainInterleaver q.2)) := by
  rw [pushSymbols_append]
  dsimp only
  by_cases hbad : (pushSymbols clk l pl).1 = -1
  · rw [if_pos hbad, if_pos hbad, if_pos hbad]
  · rw [if_neg hbad, if_neg hbad]

/-- With one, it sends what was pending, pushes the block and sends again. -/
theorem encodeAndDrain_stamped {wh : Wirehair} {pl : TxPipeline} {b : List Symbol}
    (clk : Nat → Nat) (h : stampedBlock wh pl = some b) :
    encodeAndDrain wh clk pl
      = (let q := pushSymbols clk b (drainInterleaver (stamped wh pl))
        if q.1 = -1 then (-1, q.2) else (0, drainInterleaver q.2)) := by
  by_cases hfec : (fecEncodeBlock wh pl.fec (sourceBuf pl) pl.repairSyms
      pl.cfg.m).1 ≠ fecDecodeOk
  · rw [stampedBlock, if_pos hfec] at h
    exact nomatch h
  rw [stampedBlock, if_neg hfec] at h
  obtain rfl := Option.some.inj h
  obtain ⟨il, sent, hdrain⟩ := drainInterleaver_frame (stamped wh pl)
  have hpush : encodeAndDrain wh clk pl
      = (let p := pushSymbols clk
          ((List.range (drainInterleaver (stamped wh pl)).cfg.k).map
            (drainInterleaver (stamped wh pl)).builder.symbols)
          (drainInterleaver (stamped wh pl))
        if p.1 = -1 then (-1, p.2)
        else
          let q := pushSymbols clk
            ((List.range (drainInterleaver (stamped wh pl)).cfg.m).map
              (drainInterleaver (stamped wh pl)).repairSyms) p.2
          if q.1 = -1 then (-1, q.2) else (0, drainInterleaver q.2)) := by
    rw [encodeAndDrain]
    exact if_neg hfec
  rw [hpush, ← pushSymbols_twice, hdrain]
  rfl

/-! ## The symbols of a block -/

/-- Stamping a CRC looks only at what a copy carries over. -/
theorem clip_stampCrc {cfg : Config} {ss : Nat} {a b : Symbol}
    (h : clipSymbol ss a = clipSymbol ss b) (hlen : a.payloadLen.toNat ≤ ss) :
    clipSymbol ss (stampCrc cfg a) = clipSymbol ss (stampCrc cfg b) := by
  rw [stampCrc, stampCrc]
  split
  · obtain ⟨h1, h2, h3, h4, h5⟩ := header_eq_of_clip ss h
    have hd := clip_eq_iff.mp (congrArg Symbol.data h)
    have hcrc : symbolComputeCrcValue a = symbolComputeCrcValue b := by
      refine symbolComputeCrcValue_congr h1 h2 h3 h4 h5 ?_
      rw [← h5]
      exact bytes_congr fun i hi => hd i (Nat.lt_of_lt_of_le hi hlen)
    have hsame : clipSymbol ss (symbolComputeCrc a)
        = { clipSymbol ss a with crc32 := symbolComputeCrcValue a } := rfl
    rw [hsame, h, hcrc]
    rfl
  · exact h

/-- What the receiver of a copy can read of a source symbol. -/
theorem clip_stampSource {cfg : Config} {ss : Nat} {a b : Symbol} (id : UInt32)
    (i : Nat) (h : clipSymbol ss a = clipSymbol ss b) (hlen : a.payloadLen.toNat ≤ ss) :
    clipSymbol ss (stampSource cfg id i a) = clipSymbol ss (stampSource cfg id i b) := by
  refine clip_stampCrc ?_ hlen
  have hsame : ∀ s : Symbol,
      clipSymbol ss { s with packetId := id, fecId := UInt32.ofNat i }
        = { clipSymbol ss s with packetId := id, fecId := UInt32.ofNat i } := fun _ => rfl
  rw [hsame, hsame, h]

/-- The bytes that are encoded: the payloads of the source symbols. -/
def message (cfg : Config) (src : Nat → Symbol) : List UInt8 :=
  join (fun i => bytes (src i).data cfg.symbolSize) cfg.k

theorem message_length (cfg : Config) (src : Nat → Symbol) :
    (message cfg src).length = cfg.k * cfg.symbolSize :=
  join_length fun _ _ => bytes_length _ _

/-- What is encoded of a full builder. -/
theorem sourceBuf_eq_message {pl : TxPipeline} {src : Nat → Symbol}
    (hsrc : ∀ i, i < pl.cfg.k → clipSymbol pl.cfg.symbolSize (pl.builder.symbols i)
      = clipSymbol pl.cfg.symbolSize (src i)) :
    sourceBuf pl = message pl.cfg src := by
  have hjoin : ∀ j, j ≤ pl.cfg.k →
      join (fun i => bytes (pl.builder.symbols i).data pl.cfg.symbolSize) j
        = join (fun i => bytes (src i).data pl.cfg.symbolSize) j := by
    intro j hj
    induction j with
    | zero => rfl
    | succ j ih =>
        have hd := congrArg Symbol.data (hsrc j (by omega))
        rw [join_succ, join_succ, ih (by omega),
          bytes_eq_iff.mpr (clip_eq_iff.mp hd)]
  exact hjoin pl.cfg.k le_rfl

/-- Symbol `col` of the block `id` made from the source symbols `src`. -/
def encodedSymbol (wh : Wirehair) (cfg : Config) (id : UInt32) (src : Nat → Symbol)
    (col : Nat) : Symbol :=
  if col < cfg.k then stampSource cfg id col (src col)
  else
    stampRepair cfg id (col - cfg.k)
      { symbolInit with
        data := ofList (symbolOf wh.encoding cfg.k cfg.symbolSize (message cfg src) col) }

theorem stampCrc_header (cfg : Config) (s : Symbol) :
    (stampCrc cfg s).packetId = s.packetId ∧ (stampCrc cfg s).fecId = s.fecId ∧
      (stampCrc cfg s).symbolIndex = s.symbolIndex ∧
      (stampCrc cfg s).totalSymbols = s.totalSymbols ∧
      (stampCrc cfg s).payloadLen = s.payloadLen ∧
      (stampCrc cfg s).data = s.data := by
  rw [stampCrc]
  split
  · exact ⟨rfl, rfl, rfl, rfl, rfl, rfl⟩
  · exact ⟨rfl, rfl, rfl, rfl, rfl, rfl⟩

/-- A list of stamped symbols as columns of the row. -/
theorem columns_of_map {ss j n : Nat} {key : UInt32} {cells symbols : Nat → Symbol}
    (hid : ∀ i, i < n → (symbols i).packetId = key)
    (hfec : ∀ i, i < n → (symbols i).fecId.toNat = j + i)
    (hclip : ∀ i, i < n → clipSymbol ss (symbols i) = clipSymbol ss (cells (j + i))) :
    Columns ss key cells j ((List.range n).map symbols) := by
  have hget : ∀ i (h : i < ((List.range n).map symbols).length),
      i < n ∧ ((List.range n).map symbols)[i] = symbols i := by
    intro i h
    rw [List.length_map, List.length_range] at h
    rw [List.getElem_map, List.getElem_range]
    exact ⟨h, rfl⟩
  refine ⟨?_, ?_, ?_⟩
  · intro i h
    rw [(hget i h).2]
    exact hid i (hget i h).1
  · intro i h
    rw [(hget i h).2]
    exact hfec i (hget i h).1
  · intro i h
    rw [(hget i h).2]
    exact hclip i (hget i h).1

/-- What the pipeline holds between two operations, the builder's symbols
    apart. -/
structure TxShape (pl : TxPipeline) : Prop where
  fec : pl.fec = ⟨pl.cfg.k, pl.cfg.symbolSize⟩
  kLimit : pl.builder.kLimit = pl.cfg.k
  builderSize : pl.builder.symbolSize = pl.cfg.symbolSize
  depth : pl.interleaver.depth = pl.cfg.depth
  n : pl.interleaver.n = pl.cfg.k + pl.cfg.m
  symbolSize : pl.interleaver.symbolSize = pl.cfg.symbolSize

theorem toNat_ofNat_lt {x : Nat} (h : x ≤ 256) : (UInt32.ofNat x).toNat = x := by
  rw [UInt32.toNat_ofNat']
  omega

theorem Columns.append {ss j : Nat} {key : UInt32} {cells : Nat → Symbol}
    {l l' : List Symbol} (h : Columns ss key cells j l)
    (h' : Columns ss key cells (j + l.length) l') : Columns ss key cells j (l ++ l') := by
  -- the place of an entry within the second part
  have hright : ∀ i, ¬ i < l.length → i < (l ++ l').length →
      i - l.length < l'.length ∧ j + i = j + l.length + (i - l.length) := by
    intro i hlt hi
    rw [List.length_append] at hi
    omega
  refine ⟨?_, ?_, ?_⟩
  · intro i hi
    by_cases hlt : i < l.length
    · rw [List.getElem_append_left hlt]
      exact h.key i hlt
    · rw [List.getElem_append_right (Nat.le_of_not_lt hlt)]
      exact h'.key _ (hright i hlt hi).1
  · intro i hi
    by_cases hlt : i < l.length
    · rw [List.getElem_append_left hlt]
      exact h.fecId i hlt
    · rw [List.getElem_append_right (Nat.le_of_not_lt hlt), (hright i hlt hi).2]
      exact h'.fecId _ (hright i hlt hi).1
  · intro i hi
    by_cases hlt : i < l.length
    · rw [List.getElem_append_left hlt]
      exact h.cells i hlt
    · rw [List.getElem_append_right (Nat.le_of_not_lt hlt), (hright i hlt hi).2]
      exact h'.cells _ (hright i hlt hi).1

/-- The stamped source symbols are the first columns of the row. -/
theorem source_columns {cfg : Config} (hcfg : CodeOk cfg) (wh : Wirehair) (id : UInt32)
    {symbols src : Nat → Symbol}
    (hsrc : ∀ i, i < cfg.k → clipSymbol cfg.symbolSize (symbols i)
      = clipSymbol cfg.symbolSize (src i))
    (hlen : ∀ i, i < cfg.k → (src i).payloadLen.toNat ≤ cfg.symbolSize) :
    Columns cfg.symbolSize id (encodedSymbol wh cfg id src) 0
      ((List.range cfg.k).map (stampAll cfg.k (stampSource cfg id) symbols)) := by
  have hn256 : cfg.k + cfg.m ≤ 256 := hcfg.length
  have hat : ∀ i, i < cfg.k → stampAll cfg.k (stampSource cfg id) symbols i
      = stampSource cfg id i (symbols i) := fun i hi => if_pos hi
  refine columns_of_map ?_ ?_ ?_
  · intro i hi
    rw [hat i hi]
    exact (stampCrc_header _ _).1
  · intro i hi
    rw [hat i hi, Nat.zero_add, show (stampSource cfg id i (symbols i)).fecId
      = UInt32.ofNat i from (stampCrc_header _ _).2.1]
    exact toNat_ofNat_lt (by omega)
  · intro i hi
    rw [hat i hi, Nat.zero_add, encodedSymbol, if_pos hi]
    refine clip_stampSource id i (hsrc i hi) ?_
    rw [(header_eq_of_clip _ (hsrc i hi)).2.2.2.2]
    exact hlen i hi

/-- The stamped repair symbols are the columns that follow. -/
theorem repair_columns {cfg : Config} (hcfg : CodeOk cfg) (wh : Wirehair) (id : UInt32)
    (src : Nat → Symbol) {reps : Nat → Symbol}
    (hrep : ∀ i, i < cfg.m →
      RepairSymbol wh ⟨cfg.k, cfg.symbolSize⟩ (message cfg src) i (reps i)) :
    Columns cfg.symbolSize id (encodedSymbol wh cfg id src) cfg.k
      ((List.range cfg.m).map (stampAll cfg.m (stampRepair cfg id) reps)) := by
  have hn256 : cfg.k + cfg.m ≤ 256 := hcfg.length
  have hat : ∀ i, i < cfg.m → stampAll cfg.m (stampRepair cfg id) reps i
      = stampRepair cfg id i (reps i) := fun i hi => if_pos hi
  refine columns_of_map ?_ ?_ ?_
  · intro i hi
    rw [hat i hi]
    exact (stampCrc_header _ _).1
  · intro i hi
    rw [hat i hi, show (stampRepair cfg id i (reps i)).fecId
      = UInt32.ofNat (cfg.k + i) from (stampCrc_header _ _).2.1]
    exact toNat_ofNat_lt (by omega)
  · intro i hi
    rw [hat i hi, encodedSymbol, if_neg (by omega), Nat.add_sub_cancel_left]
    have hlen16 : (UInt16.ofNat cfg.symbolSize).toNat ≤ cfg.symbolSize := by
      rw [UInt16.toNat_ofNat']
      exact Nat.mod_le _ _
    refine clip_stampCrc ?_ hlen16
    have hdata : clip cfg.symbolSize (reps i).data
        = clip cfg.symbolSize (ofList (symbolOf wh.encoding cfg.k cfg.symbolSize
          (message cfg src) (cfg.k + i))) := by
      have hb : bytes (reps i).data cfg.symbolSize = _ := (hrep i hi).data
      rw [← hb, ofList_bytes, clip_clip]
    simp only [clipSymbol, hdata, (hrep i hi).crc32, symbolInit]

/-- **The block of a full builder**: the columns of its row. -/
theorem stampedBlock_columns {wh : Wirehair} {pl : TxPipeline} {src : Nat → Symbol}
    (hcfg : CodeOk pl.cfg)
    (hwh : Encodes wh.encoding pl.cfg.k (pl.cfg.k + pl.cfg.m) pl.cfg.symbolSize)
    (hshape : TxShape pl)
    (hsrc : ∀ i, i < pl.cfg.k → clipSymbol pl.cfg.symbolSize (pl.builder.symbols i)
      = clipSymbol pl.cfg.symbolSize (src i))
    (hlen : ∀ i, i < pl.cfg.k → (src i).payloadLen.toNat ≤ pl.cfg.symbolSize) :
    ∃ b, stampedBlock wh pl = some b ∧ b.length = pl.cfg.k + pl.cfg.m ∧
      Columns pl.cfg.symbolSize pl.builder.blockId.toUInt32
        (encodedSymbol wh pl.cfg pl.builder.blockId.toUInt32 src) 0 b := by
  have hmsg := sourceBuf_eq_message hsrc
  have hwh' : Encodes wh.encoding pl.fec.k (pl.cfg.k + pl.cfg.m) pl.fec.symbolSize := by
    rw [hshape.fec]
    exact hwh
  have hml : (message pl.cfg src).length = pl.fec.k * pl.fec.symbolSize := by
    rw [hshape.fec]
    exact message_length pl.cfg src
  obtain ⟨reps, henc, hrep, -⟩ := fecEncodeBlock_spec hwh' hml pl.repairSyms hcfg.repair
    (by rw [hshape.fec])
  rw [hshape.fec] at hrep
  have hreps : (stamped wh pl).repairSyms
      = stampAll pl.cfg.m (stampRepair pl.cfg pl.builder.blockId.toUInt32) reps := by
    rw [stamped, hmsg, henc]
  have hk : ((List.range pl.cfg.k).map (stamped wh pl).builder.symbols).length
      = pl.cfg.k := by
    rw [List.length_map, List.length_range]
  refine ⟨_, if_neg ?_, ?_, ?_⟩
  · rw [hmsg, henc]
    exact not_not_intro rfl
  · rw [List.length_append, hk, List.length_map, List.length_range]
  · refine (source_columns hcfg wh _ hsrc hlen).append ?_
    rw [List.length_map, List.length_range, Nat.zero_add, hreps]
    exact repair_columns hcfg wh _ src hrep

/-- What becomes of a complete row: the window waits, or it is sent. -/
theorem rowDone_drained {q : TxPipeline} {rows : List Row} {row : Row} {rc : Int}
    (h : RowDone q.interleaver rows row rc) :
    ∃ il sent, drainInterleaver q = { q with interleaver := il, sent := sent } ∧
      SameShape q.interleaver il ∧
      ((rows.length + 1 < q.interleaver.depth ∧ sent = q.sent ∧ Holds il (rows ++ [row])) ∨
        (rows.length + 1 = q.interleaver.depth ∧
          sent = q.sent ++ (List.range (q.interleaver.depth * q.interleaver.n)).map
            (windowSymbol q.interleaver.depth q.interleaver.symbolSize (rows ++ [row])) ∧
          Holds il [])) := by
  cases h with
  | room hh =>
      have hroom := hh.room
      rw [List.length_append, List.length_singleton] at hroom
      exact ⟨q.interleaver, q.sent, drainInterleaver_holds hh, SameShape.refl _,
        .inl ⟨hroom, rfl, hh⟩⟩
  | full hh =>
      obtain ⟨il, hd, hs, hempty⟩ := drainInterleaver_draining hh
      have hfull := hh.full
      rw [List.length_append, List.length_singleton] at hfull
      exact ⟨il, _, hd, hs, .inr ⟨hfull, rfl, hempty⟩⟩

/-- **Encoding** a full builder: one more complete row in the window, and the
    window is sent when that was the last one it had room for. -/
theorem encodeAndDrain_spec {wh : Wirehair} (clk : Nat → Nat) {pl : TxPipeline}
    {rows : List Row} {src : Nat → Symbol} (hcfg : CodeOk pl.cfg)
    (hwh : Encodes wh.encoding pl.cfg.k (pl.cfg.k + pl.cfg.m) pl.cfg.symbolSize)
    (hshape : TxShape pl) (hholds : Holds pl.interleaver rows)
    (hkey : ∀ row ∈ rows, row.key ≠ pl.builder.blockId.toUInt32)
    (hsrc : ∀ i, i < pl.cfg.k → clipSymbol pl.cfg.symbolSize (pl.builder.symbols i)
      = clipSymbol pl.cfg.symbolSize (src i))
    (hlen : ∀ i, i < pl.cfg.k → (src i).payloadLen.toNat ≤ pl.cfg.symbolSize) :
    let id := pl.builder.blockId.toUInt32
    let row : Row := ⟨id, encodedSymbol wh pl.cfg id src⟩
    let r := encodeAndDrain wh clk pl
    r.1 = 0 ∧ SameTx pl r.2 ∧ SameShape pl.interleaver r.2.interleaver ∧
      r.2.blocksBuilt = pl.blocksBuilt + 1 ∧
      (∃ symbols, r.2.builder = { pl.builder with symbols := symbols }) ∧
      ((rows.length + 1 < pl.cfg.depth ∧ r.2.sent = pl.sent ∧
          Holds r.2.interleaver (rows ++ [row])) ∨
        (rows.length + 1 = pl.cfg.depth ∧
          r.2.sent = pl.sent ++ windowSymbols pl.cfg (rows ++ [row]) ∧
          Holds r.2.interleaver [])) := by
  intro id row r
  obtain ⟨b, hb, hbl, hcols⟩ := stampedBlock_columns hcfg hwh hshape hsrc hlen
  have hn256 : pl.cfg.k + pl.cfg.m ≤ 256 := hcfg.length
  have hk := hcfg.source
  have hwait : drainInterleaver (stamped wh pl) = stamped wh pl :=
    @drainInterleaver_holds (stamped wh pl) rows hholds
  have hfill : Filling (stamped wh pl).interleaver rows id
      (encodedSymbol wh pl.cfg id src) 0 := filling_zero hholds id _
  have hn : (stamped wh pl).interleaver.n = pl.cfg.k + pl.cfg.m := hshape.n
  have hss : (stamped wh pl).interleaver.symbolSize = pl.cfg.symbolSize := hshape.symbolSize
  rw [← hss] at hcols
  -- one loop over the whole block
  obtain ⟨hq0, hqs, -, hqd⟩ := pushSymbols_filling clk hkey b hfill (by rw [hn]; omega)
    hcols (by rw [hn, hbl]; omega)
  obtain ⟨rc, hdone⟩ := hqd (by rw [hn, hbl]; omega) (by
    intro hnil
    rw [hnil, List.length_nil] at hbl
    omega)
  obtain ⟨il1, t1, hframe⟩ := pushSymbols_frame clk b (stamped wh pl)
  have hr : r = (0, drainInterleaver (pushSymbols clk b (stamped wh pl)).2) := by
    show encodeAndDrain wh clk pl = _
    rw [encodeAndDrain_stamped clk hb, hwait]
    dsimp only
    rw [hq0]
    rfl
  generalize (pushSymbols clk b (stamped wh pl)).2 = q at hqs hdone hframe hr
  have hshape2 : SameShape pl.interleaver q.interleaver := hqs
  obtain ⟨il2, sent, hd, hs2, hcase⟩ := rowDone_drained hdone
  rw [hr, hd]
  have hsame : q = { stamped wh pl with interleaver := q.interleaver, clock := t1 } := by
    rw [hframe]
  have hsent : q.sent = pl.sent := by
    rw [hsame]
    rfl
  rw [hsent, hshape2.depth, hshape2.n, hshape2.symbolSize, hshape.depth, hshape.n,
    hshape.symbolSize] at hcase
  refine ⟨rfl, ?_, hshape2.trans hs2, ?_, ?_, ?_⟩
  · rw [hsame]
    exact ⟨rfl, rfl, rfl, rfl, rfl, rfl, rfl, rfl⟩
  · rw [hsame]
    rfl
  · rw [hsame]
    exact ⟨_, rfl⟩
  · refine hcase.imp_right fun ⟨hfull, hsentw, hempty⟩ => ⟨hfull, ?_, hempty⟩
    rw [windowSymbols, padded_full
      (by rw [List.length_append, List.length_singleton]; exact hfull)]
    exact hsentw

end FsoTxPipeline
