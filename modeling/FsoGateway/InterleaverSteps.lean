import FsoGateway.Interleaver

/-! # What the interleaver holds

    A window is a list of rows, each the symbols of one block.  Between two
    calls of the TX pipeline every row is complete and there is a free one
    (`Holds`); while a block is pushed, one more row is partly written
    (`Filling`); once the window is full it is read out by columns
    (`Draining`).

    * `push_filling` — a symbol of the block extends its row;
    * `tick_holds` — a flush pads the window, nothing else changes;
    * `pop_draining` — the next symbol in column order. -/

namespace FsoInterleaver

open ByteBuffer FsoTypes

/-- A row of the window: the block it belongs to and its symbols. -/
structure Row where
  key : UInt32
  cells : Nat → Symbol

/-- The dimensions fixed at creation. -/
structure SameShape (il il' : Interleaver) : Prop where
  depth : il'.depth = il.depth
  n : il'.n = il.n
  symbolSize : il'.symbolSize = il.symbolSize

theorem SameShape.refl (il : Interleaver) : SameShape il il := ⟨rfl, rfl, rfl⟩

theorem SameShape.trans {a b c : Interleaver} (h1 : SameShape a b)
    (h2 : SameShape b c) : SameShape a c :=
  ⟨h2.1.trans h1.1, h2.2.trans h1.2, h2.3.trans h1.3⟩

/-- A complete row in place `r`. -/
structure RowAt (il : Interleaver) (r : Nat) (row : Row) : Prop where
  assigned : il.rowAssigned r = true
  key : il.rowBlockKey r = row.key
  count : (il.slots r).symbolCount = il.n
  cells : ∀ c, c < il.n →
    clipSymbol il.symbolSize (il.matrix r c) = clipSymbol il.symbolSize (row.cells c)

/-- A free row in place `r`. -/
structure FreeAt (il : Interleaver) (r : Nat) : Prop where
  assigned : il.rowAssigned r = false
  count : (il.slots r).symbolCount = 0
  mask : ∀ c, Bitset.test (il.slots r).receivedMask c = false

/-- The window while the block `key` with symbols `cells` is pushed: `j` of
    its symbols are in. -/
structure Filling (il : Interleaver) (rows : List Row) (key : UInt32)
    (cells : Nat → Symbol) (j : Nat) : Prop where
  notReady : il.ready = false
  room : rows.length < il.depth
  windowCount : il.windowBlockCount = rows.length + (if j = 0 then 0 else 1)
  complete : il.completeSlots = rows.length
  done : ∀ r (h : r < rows.length), RowAt il r rows[r]
  free : ∀ r, rows.length < r → r < il.depth → FreeAt il r
  assigned : il.rowAssigned rows.length = decide (0 < j)
  rowKey : 0 < j → il.rowBlockKey rows.length = key
  count : (il.slots rows.length).symbolCount = j
  mask : ∀ c, Bitset.test (il.slots rows.length).receivedMask c = decide (c < j)
  stored : ∀ c, c < j → clipSymbol il.symbolSize (il.matrix rows.length c)
    = clipSymbol il.symbolSize (cells c)

/-- The window between two blocks. -/
structure Holds (il : Interleaver) (rows : List Row) : Prop where
  notReady : il.ready = false
  room : rows.length < il.depth
  windowCount : il.windowBlockCount = rows.length
  complete : il.completeSlots = rows.length
  done : ∀ r (h : r < rows.length), RowAt il r rows[r]
  free : ∀ r, rows.length ≤ r → r < il.depth → FreeAt il r

/-- A full window of which `p` symbols have been read out. -/
structure Draining (il : Interleaver) (rows : List Row) (p : Nat) : Prop where
  ready : il.ready = true
  full : rows.length = il.depth
  row : il.popRow = p % il.depth
  col : il.popCol = p / il.depth
  left : p < il.depth * il.n
  cells : ∀ r (h : r < rows.length) c, c < il.n →
    clipSymbol il.symbolSize (il.matrix r c)
      = clipSymbol il.symbolSize (rows[r].cells c)

/-- A window with no block in it: what `reset_window` leaves. -/
theorem holds_reset {il : Interleaver} (h : 0 < il.depth) :
    Holds (resetWindow il) [] where
  notReady := rfl
  room := h
  windowCount := rfl
  complete := rfl
  done := fun r hr => absurd hr (Nat.not_lt_zero r)
  free := fun _ _ _ => ⟨rfl, rfl, fun _ => Bitset.test_clear _⟩

/-- Before the first symbol of a block. -/
theorem filling_zero {il : Interleaver} {rows : List Row} (h : Holds il rows)
    (key : UInt32) (cells : Nat → Symbol) : Filling il rows key cells 0 := by
  have hfree := h.free rows.length le_rfl h.room
  exact
    { notReady := h.notReady, room := h.room, windowCount := h.windowCount
      complete := h.complete, done := h.done
      free := fun r hr => h.free r (Nat.le_of_lt hr)
      assigned := hfree.assigned
      rowKey := fun hj => absurd hj (Nat.lt_irrefl 0)
      count := hfree.count
      mask := hfree.mask
      stored := fun c hc => absurd hc (Nat.not_lt_zero c) }

/-! ## Resolving the row -/

theorem findRow_some {il : Interleaver} {key : UInt32} {r : Nat}
    (h : findRowForBlockKey il key = some r) :
    r < il.depth ∧ il.rowAssigned r = true ∧ il.rowBlockKey r = key := by
  have hm := List.mem_of_find?_eq_some h
  have hp := List.find?_some h
  rw [Bool.and_eq_true] at hp
  exact ⟨List.mem_range.mp hm, hp.1, eq_of_beq hp.2⟩

theorem findRow_none {il : Interleaver} {key : UInt32}
    (h : findRowForBlockKey il key = none) {r : Nat} (hr : r < il.depth)
    (ha : il.rowAssigned r = true) : il.rowBlockKey r ≠ key := by
  intro hk
  have hp := List.find?_eq_none.mp h r (List.mem_range.mpr hr)
  apply hp
  rw [ha, hk]
  exact beq_self_eq_true key

/-- What `resolve_row` changes for a new block. -/
def openRow (il : Interleaver) (r : Nat) (key : UInt32) : Interleaver :=
  { il with
    rowBlockKey := Function.update il.rowBlockKey r key
    rowAssigned := Function.update il.rowAssigned r true
    windowBlockCount := il.windowBlockCount + 1 }

/-- A row that is found leaves the interleaver as it is. -/
theorem resolveRow_cases {il il' : Interleaver} {key : UInt32} {row : Nat}
    (h : resolveRow il key = some (row, il')) : il' = il ∨ il' = openRow il row key := by
  rw [resolveRow] at h
  cases hf : findRowForBlockKey il key with
  | some r =>
      rw [hf] at h
      cases h
      exact .inl rfl
  | none =>
      rw [hf] at h
      dsimp only at h
      rw [assignRowForBlockKey] at h
      split at h
      · exact nomatch h
      · cases h
        exact .inr rfl

/-- The row of a block that is being pushed: the next free one for its first
    symbol, its own row afterwards. -/
theorem resolveRow_filling {il : Interleaver} {rows : List Row} {key : UInt32}
    {cells : Nat → Symbol} {j : Nat} (h : Filling il rows key cells j)
    (hkey : ∀ row ∈ rows, row.key ≠ key) :
    resolveRow il key
      = some (rows.length, if j = 0 then openRow il rows.length key else il) := by
  -- a row found for the key can only be the one being filled
  have hfound : ∀ r, findRowForBlockKey il key = some r → r = rows.length ∧ 0 < j := by
    intro r hr
    obtain ⟨hlt, ha, hk⟩ := findRow_some hr
    rcases Nat.lt_trichotomy r rows.length with hlow | heq | hhigh
    · have hrow := h.done r hlow
      exact absurd (hrow.key.symm.trans hk) (hkey _ (List.getElem_mem hlow))
    · subst heq
      rw [h.assigned] at ha
      exact ⟨rfl, of_decide_eq_true ha⟩
    · rw [(h.free r hhigh hlt).assigned] at ha
      exact nomatch ha
  rw [resolveRow]
  cases hf : findRowForBlockKey il key with
  | some r =>
      obtain ⟨hr, hj⟩ := hfound r hf
      rw [hr, if_neg (Nat.ne_of_gt hj)]
  | none =>
      have hj : j = 0 := by
        rcases Nat.eq_zero_or_pos j with hz | hp
        · exact hz
        · have ha : il.rowAssigned rows.length = true := by
            rw [h.assigned]
            exact decide_eq_true hp
          exact absurd (h.rowKey hp) (findRow_none hf h.room ha)
      have hw := h.windowCount
      rw [if_pos hj, Nat.add_zero] at hw
      rw [if_pos hj]
      show assignRowForBlockKey il key = _
      have hroom := h.room
      rw [assignRowForBlockKey, if_neg (by omega), hw, Nat.mod_eq_of_lt hroom]
      rw [openRow, hw]

/-! ## Pushing the symbols of one block -/

/-- The window after the last symbol of a block. -/
inductive RowDone (il' : Interleaver) (rows : List Row) (row : Row) : Int → Prop where
  | room (h : Holds il' (rows ++ [row])) : RowDone il' rows row 0
  | full (h : Draining il' (rows ++ [row]) 0) : RowDone il' rows row 1

/-- The interleaver with the symbol stored, before the counters are looked
    at. -/
def pushed (il : Interleaver) (r col : Nat) (sym : Symbol) (now : Nat) :
    Interleaver :=
  storeCell
    (if il.windowHasData then il
     else { il with windowStart := now, windowHasData := true }) r col sym

theorem pushed_spec (il : Interleaver) (r col : Nat) (sym : Symbol)
    (now : Nat) :
    let il' := pushed il r col sym now
    SameShape il il' ∧ il'.ready = il.ready ∧ il'.rowAssigned = il.rowAssigned ∧
      il'.rowBlockKey = il.rowBlockKey ∧
      il'.windowBlockCount = il.windowBlockCount ∧
      il'.completeSlots = il.completeSlots ∧
      il'.matrix = Function.update il.matrix r (Function.update (il.matrix r) col
        (copySymbol (il.matrix r col) sym il.symbolSize)) ∧
      il'.slots = Function.update il.slots r
        { symbolCount := (il.slots r).symbolCount + 1
          occupied := true
          receivedMask := Bitset.set (il.slots r).receivedMask col } := by
  intro il'
  cases hd : il.windowHasData with
  | true =>
      have he : il' = storeCell il r col sym := by
        show pushed il r col sym now = _
        rw [pushed, if_pos hd]
      rw [he]
      exact ⟨⟨rfl, rfl, rfl⟩, rfl, rfl, rfl, rfl, rfl, rfl, rfl⟩
  | false =>
      have he : il' = storeCell { il with windowStart := now, windowHasData := true }
          r col sym := by
        show pushed il r col sym now = _
        rw [pushed, if_neg (by rw [hd]; exact Bool.false_ne_true)]
      rw [he]
      exact ⟨⟨rfl, rfl, rfl⟩, rfl, rfl, rfl, rfl, rfl, rfl, rfl⟩

/-- The counters after a store: a row that is now complete, a window that is
    now full. -/
def rowStored (il : Interleaver) (row : Nat) : Int × Interleaver :=
  if (il.slots row).symbolCount = il.n then
    if il.completeSlots + 1 = il.depth then
      (1, { il with
        completeSlots := il.completeSlots + 1, ready := true, popCol := 0, popRow := 0 })
    else (0, { il with completeSlots := il.completeSlots + 1 })
  else (0, il)

/-- A push of a symbol that has no column. -/
theorem push_outside {il : Interleaver} (hready : il.ready = false) (sym : Symbol)
    (now : Nat) (hn : il.n ≤ 2 ^ 31) (hcol : ¬ sym.fecId.toNat < il.n) :
    interleaverPushSymbol il sym now = (-1, il) := by
  rw [← toInt_range_iff hn] at hcol
  rw [interleaverPushSymbol, if_neg (by rw [hready]; exact Bool.false_ne_true),
    if_pos (by omega)]

/-- A push of a symbol whose block gets no row. -/
theorem push_noRow {il : Interleaver} (hready : il.ready = false) (sym : Symbol)
    (now : Nat) (hn : il.n ≤ 2 ^ 31) (hcol : sym.fecId.toNat < il.n)
    (hres : resolveRow il sym.packetId = none) :
    interleaverPushSymbol il sym now = (-1, il) := by
  have hrange := (toInt_range_iff (x := sym.fecId) hn).mpr hcol
  rw [interleaverPushSymbol, if_neg (by rw [hready]; exact Bool.false_ne_true),
    if_neg (by omega), hres]

/-- A push of a symbol whose cell is taken. -/
theorem push_taken {il : Interleaver} {sym : Symbol} {row : Nat}
    (hready : il.ready = false) (now : Nat) (hn : il.n ≤ 2 ^ 31)
    (hcol : sym.fecId.toNat < il.n) (hres : resolveRow il sym.packetId = some (row, il))
    (hrow : row < il.depth) (hdata : il.windowHasData = true)
    (htaken : Bitset.test (il.slots row).receivedMask sym.fecId.toNat = true) :
    interleaverPushSymbol il sym now = (0, il) := by
  have hrange := (toInt_range_iff (x := sym.fecId) hn).mpr hcol
  rw [interleaverPushSymbol, if_neg (by rw [hready]; exact Bool.false_ne_true),
    if_neg (by omega), hres]
  dsimp only
  rw [if_neg (Nat.not_le.mpr hrow), hdata, if_pos rfl, htaken, if_pos rfl]

/-- A push of a symbol whose cell is free stores it. -/
theorem push_stores {il il0 : Interleaver} {sym : Symbol} {row : Nat} (now : Nat)
    (hready : il.ready = false) (hn : il.n ≤ 2 ^ 31) (hcol : sym.fecId.toNat < il.n)
    (hres : resolveRow il sym.packetId = some (row, il0)) (hrow : row < il0.depth)
    (hnew : Bitset.test (il0.slots row).receivedMask sym.fecId.toNat = false) :
    interleaverPushSymbol il sym now
      = rowStored (pushed il0 row sym.fecId.toNat sym now) row := by
  have hrange := (toInt_range_iff (x := sym.fecId) hn).mpr hcol
  have hnew' : Bitset.test
      ((if il0.windowHasData then il0
        else { il0 with windowStart := now, windowHasData := true }).slots
          row).receivedMask sym.fecId.toNat = false := by
    split
    · exact hnew
    · exact hnew
  rw [interleaverPushSymbol, if_neg (by rw [hready]; exact Bool.false_ne_true),
    if_neg (by omega), hres]
  dsimp only
  rw [if_neg (Nat.not_le.mpr hrow), hnew']
  rfl

/-- Before symbol `j` of a block is stored, its row is assigned. -/
private theorem assigned_filling {il : Interleaver} {rows : List Row} {key : UInt32}
    {cells : Nat → Symbol} {j : Nat} (h : Filling il rows key cells j) :
    let il0 := if j = 0 then openRow il rows.length key else il
    SameShape il il0 ∧ il0.ready = false ∧ il0.windowBlockCount = rows.length + 1 ∧
      il0.completeSlots = rows.length ∧ il0.matrix = il.matrix ∧ il0.slots = il.slots ∧
      il0.rowAssigned rows.length = true ∧ il0.rowBlockKey rows.length = key ∧
      (∀ r, r ≠ rows.length → il0.rowAssigned r = il.rowAssigned r) ∧
      ∀ r, r ≠ rows.length → il0.rowBlockKey r = il.rowBlockKey r := by
  intro il0
  have hw := h.windowCount
  by_cases hj : j = 0
  · rw [if_pos hj] at hw
    have he : il0 = openRow il rows.length key := if_pos hj
    rw [he]
    refine ⟨⟨rfl, rfl, rfl⟩, h.notReady, ?_, h.complete, rfl, rfl,
      Function.update_self .., Function.update_self ..,
      fun r hr => Function.update_of_ne hr .., fun r hr => Function.update_of_ne hr ..⟩
    show il.windowBlockCount + 1 = _
    rw [hw]
  · rw [if_neg hj] at hw
    have he : il0 = il := if_neg hj
    have hp : 0 < j := Nat.pos_of_ne_zero hj
    rw [he]
    refine ⟨SameShape.refl il, h.notReady, hw, h.complete, rfl, rfl, ?_, h.rowKey hp,
      fun _ _ => rfl, fun _ _ => rfl⟩
    rw [h.assigned]
    exact decide_eq_true hp

/-- Storing the next symbol of a block whose row is assigned. -/
private theorem pushed_filling {il : Interleaver} {rows : List Row} {key : UInt32}
    {cells : Nat → Symbol} {j : Nat} {sym : Symbol} (now : Nat)
    (h : Filling il rows key cells j)
    (hsym : clipSymbol il.symbolSize sym = clipSymbol il.symbolSize (cells j)) :
    let il0 := if j = 0 then openRow il rows.length key else il
    Filling (pushed il0 rows.length j sym now) rows key cells (j + 1) ∧
      SameShape il (pushed il0 rows.length j sym now) := by
  intro il0
  obtain ⟨hs0, hr0, hw0, hc0, hm0, hsl0, ha0, hk0, hao, hko⟩ := assigned_filling h
  obtain ⟨hs1, hr1, ha1, hk1, hw1, hc1, hm1, hsl1⟩ :=
    pushed_spec il0 rows.length j sym now
  generalize pushed il0 rows.length j sym now = il1 at hs1 hr1 ha1 hk1 hw1 hc1 hm1 hsl1 ⊢
  have hs := hs0.trans hs1
  rw [hm0, hs0.symbolSize] at hm1
  rw [hsl0] at hsl1
  have hmo : ∀ r, r ≠ rows.length → il1.matrix r = il.matrix r := by
    intro r hr
    rw [hm1, Function.update_of_ne hr]
  have hslo : ∀ r, r ≠ rows.length → il1.slots r = il.slots r := by
    intro r hr
    rw [hsl1, Function.update_of_ne hr]
  refine ⟨?_, hs⟩
  exact
    { notReady := hr1.trans hr0
      room := by rw [hs.depth]; exact h.room
      windowCount := by rw [hw1, hw0, if_neg (by omega)]
      complete := hc1.trans hc0
      done := by
        intro r hr
        have hne : r ≠ rows.length := Nat.ne_of_lt hr
        have hd := h.done r hr
        refine ⟨?_, ?_, ?_, ?_⟩
        · rw [ha1, hao r hne, hd.assigned]
        · rw [hk1, hko r hne, hd.key]
        · rw [hslo r hne, hs.n, hd.count]
        · intro c hc
          rw [hs.n] at hc
          rw [hmo r hne, hs.symbolSize]
          exact hd.cells c hc
      free := by
        intro r hr hlt
        rw [hs.depth] at hlt
        have hne : r ≠ rows.length := Nat.ne_of_gt hr
        have hf := h.free r hr hlt
        refine ⟨?_, ?_, ?_⟩
        · rw [ha1, hao r hne, hf.assigned]
        · rw [hslo r hne, hf.count]
        · intro c
          rw [hslo r hne]
          exact hf.mask c
      assigned := by
        rw [ha1, ha0]
        exact (decide_eq_true (Nat.succ_pos j)).symm
      rowKey := fun _ => by rw [hk1, hk0]
      count := by
        rw [hsl1, Function.update_self]
        show (il.slots rows.length).symbolCount + 1 = _
        rw [h.count]
      mask := by
        intro c
        rw [hsl1, Function.update_self]
        show Bitset.test (Bitset.set _ _) c = _
        rw [Bitset.test_set, h.mask, ← Bool.decide_or]
        exact decide_eq_decide.mpr (by omega)
      stored := by
        intro c hc
        rw [hm1, Function.update_self, hs.symbolSize]
        by_cases hcj : c = j
        · rw [hcj, Function.update_self, clipSymbol_copySymbol, hsym]
        · rw [Function.update_of_ne hcj]
          exact h.stored c (by omega) }

/-- A finished row joins the window. -/
private theorem filling_row {il : Interleaver} {rows : List Row} {key : UInt32}
    {cells : Nat → Symbol} (h : Filling il rows key cells il.n) (hn : 0 < il.n) :
    ∀ r (hr : r < (rows ++ [(⟨key, cells⟩ : Row)]).length),
      RowAt il r (rows ++ [(⟨key, cells⟩ : Row)])[r] := by
  intro r hr
  rw [List.length_append, List.length_singleton] at hr
  by_cases hlt : r < rows.length
  · rw [List.getElem_append_left hlt]
    exact h.done r hlt
  · have heq : r = rows.length := by omega
    subst heq
    rw [List.getElem_append_right le_rfl]
    simp only [Nat.sub_self, List.getElem_cons_zero]
    refine ⟨?_, h.rowKey hn, h.count, h.stored⟩
    rw [h.assigned]
    exact decide_eq_true hn

/-- The last row of a window is complete: it can be read out. -/
private theorem draining_row {il : Interleaver} {rows : List Row} {key : UInt32}
    {cells : Nat → Symbol} (h : Filling il rows key cells il.n) (hn : 0 < il.n)
    (hdep : il.completeSlots + 1 = il.depth) :
    Draining
      { il with
        completeSlots := il.completeSlots + 1, ready := true, popCol := 0, popRow := 0 }
      (rows ++ [⟨key, cells⟩]) 0 where
  ready := rfl
  full := by
    rw [List.length_append, List.length_singleton, ← h.complete]
    exact hdep
  row := (Nat.zero_mod _).symm
  col := (Nat.zero_div _).symm
  left := Nat.mul_pos (Nat.lt_of_le_of_lt (Nat.zero_le _) h.room) hn
  cells := fun r hr => (filling_row h hn r hr).cells

/-- Another row of the window is complete. -/
private theorem holds_row {il : Interleaver} {rows : List Row} {key : UInt32}
    {cells : Nat → Symbol} (h : Filling il rows key cells il.n) (hn : 0 < il.n)
    (hdep : il.completeSlots + 1 ≠ il.depth) :
    Holds { il with completeSlots := il.completeSlots + 1 }
      (rows ++ [⟨key, cells⟩]) where
  notReady := h.notReady
  room := by
    have hroom := h.room
    have hcomp := h.complete
    show _ < il.depth
    rw [List.length_append, List.length_singleton]
    omega
  windowCount := by
    have hw := h.windowCount
    rw [if_neg (by omega)] at hw
    show il.windowBlockCount = _
    rw [hw, List.length_append, List.length_singleton]
  complete := by
    show il.completeSlots + 1 = _
    rw [h.complete, List.length_append, List.length_singleton]
  done := by
    intro r hr
    have hrow := filling_row h hn r hr
    exact ⟨hrow.assigned, hrow.key, hrow.count, hrow.cells⟩
  free := by
    intro r hr hlt
    rw [List.length_append, List.length_singleton] at hr
    have hf := h.free r (by omega) hlt
    exact ⟨hf.assigned, hf.count, hf.mask⟩

/-- The counters after the store of symbol `j` of a block. -/
private theorem rowStored_filling {il : Interleaver} {rows : List Row} {key : UInt32}
    {cells : Nat → Symbol} {j : Nat} (h : Filling il rows key cells (j + 1))
    (hj : j < il.n) :
    let r := rowStored il rows.length
    SameShape il r.2 ∧
      ((j + 1 < il.n ∧ r.1 = 0 ∧ Filling r.2 rows key cells (j + 1)) ∨
        (j + 1 = il.n ∧ RowDone r.2 rows ⟨key, cells⟩ r.1)) := by
  intro r
  have hr : r = rowStored il rows.length := rfl
  rw [rowStored, h.count] at hr
  by_cases hlast : j + 1 = il.n
  · rw [if_pos hlast] at hr
    rw [hlast] at h
    have hn : 0 < il.n := Nat.lt_of_le_of_lt (Nat.zero_le j) hj
    by_cases hdep : il.completeSlots + 1 = il.depth
    · rw [if_pos hdep] at hr
      rw [hr]
      exact ⟨⟨rfl, rfl, rfl⟩, .inr ⟨hlast, .full (draining_row h hn hdep)⟩⟩
    · rw [if_neg hdep] at hr
      rw [hr]
      exact ⟨⟨rfl, rfl, rfl⟩, .inr ⟨hlast, .room (holds_row h hn hdep)⟩⟩
  · rw [if_neg hlast] at hr
    rw [hr]
    exact ⟨SameShape.refl il, .inl ⟨by omega, rfl, h⟩⟩

/-- **One push** of the next symbol of a block: the row grows by it, and with
    the last symbol the row is complete. -/
theorem push_filling {il : Interleaver} {rows : List Row} {key : UInt32}
    {cells : Nat → Symbol} {j : Nat} {sym : Symbol} (now : Nat)
    (h : Filling il rows key cells j) (hkey : ∀ row ∈ rows, row.key ≠ key)
    (hj : j < il.n) (hn : il.n ≤ 2 ^ 31) (hid : sym.packetId = key)
    (hfec : sym.fecId.toNat = j)
    (hsym : clipSymbol il.symbolSize sym = clipSymbol il.symbolSize (cells j)) :
    let r := interleaverPushSymbol il sym now
    SameShape il r.2 ∧
      ((j + 1 < il.n ∧ r.1 = 0 ∧ Filling r.2 rows key cells (j + 1)) ∨
        (j + 1 = il.n ∧ RowDone r.2 rows ⟨key, cells⟩ r.1)) := by
  intro r
  obtain ⟨hfill, hs⟩ := pushed_filling now h hsym
  let il0 := if j = 0 then openRow il rows.length key else il
  have hres : resolveRow il sym.packetId = some (rows.length, il0) := by
    rw [hid]
    exact resolveRow_filling h hkey
  obtain ⟨hs0, -, -, -, -, hsl0, -⟩ := assigned_filling h
  have hnew : Bitset.test (il0.slots rows.length).receivedMask sym.fecId.toNat = false := by
    rw [hsl0, h.mask, hfec]
    exact decide_eq_false (Nat.lt_irrefl j)
  have hr : r = rowStored (pushed il0 rows.length j sym now) rows.length := by
    rw [← hfec]
    exact push_stores now h.notReady hn (by omega) hres (by rw [hs0.depth]; exact h.room)
      hnew
  rw [hr]
  obtain ⟨hs', hcase⟩ := rowStored_filling hfill (by rw [hs.n]; exact hj)
  rw [← hs.n]
  exact ⟨hs.trans hs', hcase⟩

/-! ## The flush -/

/-- A padding row: nobody's block. -/
def padRow (n symbolSize : Nat) : Row where
  key := 0
  cells := fillSymbol symbolInit 0 n symbolSize

/-- The window, padded to its depth. -/
def padded (depth n symbolSize : Nat) (rows : List Row) : List Row :=
  rows ++ List.replicate (depth - rows.length) (padRow n symbolSize)

theorem padded_length {depth n symbolSize : Nat} {rows : List Row}
    (h : rows.length ≤ depth) : (padded depth n symbolSize rows).length = depth := by
  rw [padded, List.length_append, List.length_replicate]
  omega

theorem padded_full {depth n symbolSize : Nat} {rows : List Row}
    (h : rows.length = depth) : padded depth n symbolSize rows = rows := by
  rw [padded, h, Nat.sub_self, List.replicate_zero, List.append_nil]

theorem getElem_padded {depth n symbolSize : Nat} {rows : List Row} {r : Nat}
    (hr : r < (padded depth n symbolSize rows).length) :
    (padded depth n symbolSize rows)[r]
      = if h : r < rows.length then rows[r] else padRow n symbolSize := by
  by_cases h : r < rows.length
  · rw [dif_pos h]
    exact List.getElem_append_left h
  · rw [dif_neg h]
    simp only [padded]
    rw [List.getElem_append_right (by omega), List.getElem_replicate]

theorem clip_fillSymbol (d : Symbol) (key : UInt32) (n ss c : Nat) :
    clipSymbol ss (fillSymbol d key n ss c)
      = clipSymbol ss (fillSymbol symbolInit key n ss c) := by
  simp [clipSymbol, fillSymbol]

/-- The fill loop after `j` columns: what was received stays, the rest is
    padding. -/
theorem fill_loop (key : UInt32) (n ss : Nat) (cells : Nat → Symbol)
    (mask : Bitset.Mask) (j : Nat) :
    let r := (List.range j).foldl (forceFillCol key n ss) (cells, mask)
    (∀ c, Bitset.test r.2 c = (decide (c < j) || Bitset.test mask c)) ∧
      (∀ c, (j ≤ c ∨ Bitset.test mask c = true) → r.1 c = cells c) ∧
      ∀ c, c < j → Bitset.test mask c = false → clipSymbol ss (r.1 c)
        = clipSymbol ss (fillSymbol symbolInit key n ss c) := by
  induction j with
  | zero => exact ⟨fun _ => rfl, fun _ _ => rfl, fun c hc => absurd hc (Nat.not_lt_zero c)⟩
  | succ j ih =>
      rw [List.range_succ, List.foldl_append, List.foldl_cons, List.foldl_nil]
      generalize (List.range j).foldl (forceFillCol key n ss) (cells, mask) = acc
        at ih ⊢
      obtain ⟨h1, h2, h3⟩ := ih
      have hj : Bitset.test acc.2 j = Bitset.test mask j := by
        rw [h1, decide_eq_false (Nat.lt_irrefl j), Bool.false_or]
      rw [forceFillCol, hj]
      cases hm : Bitset.test mask j with
      | true =>
          rw [if_pos rfl]
          refine ⟨?_, fun c hc => h2 c (hc.imp_left Nat.le_of_succ_le), ?_⟩
          · intro c
            rw [h1]
            by_cases hcj : c = j
            · rw [hcj, hm, Bool.or_true, Bool.or_true]
            · congr 1
              exact decide_eq_decide.mpr (by omega)
          · intro c hc hmc
            refine h3 c (Nat.lt_of_le_of_ne (Nat.le_of_lt_succ hc) ?_) hmc
            rintro rfl
            rw [hm] at hmc
            exact nomatch hmc
      | false =>
          rw [if_neg Bool.false_ne_true]
          refine ⟨?_, ?_, ?_⟩
          · intro c
            show Bitset.test (Bitset.set acc.2 j) c = _
            rw [Bitset.test_set, h1, ← Bool.or_assoc, ← Bool.decide_or]
            congr 1
            exact decide_eq_decide.mpr (by omega)
          · intro c hc
            have hcj : c ≠ j := by
              rintro rfl
              rw [hm] at hc
              rcases hc with hc | hc
              · omega
              · exact nomatch hc
            show Function.update acc.1 j _ c = _
            rw [Function.update_of_ne hcj]
            exact h2 c (hc.imp_left Nat.le_of_succ_le)
          · intro c hc hmc
            show clipSymbol ss (Function.update acc.1 j _ c) = _
            by_cases hcj : c = j
            · rw [hcj, Function.update_self, clip_fillSymbol]
            · rw [Function.update_of_ne hcj]
              exact h3 c (by omega) hmc

/-- The block key that `force_fill_row` pads a row with. -/
def fillKey (il : Interleaver) (r : Nat) : UInt32 :=
  if il.rowAssigned r then il.rowBlockKey r else 0

/-- `force_fill_row` writes one row: its padding. -/
theorem forceFillRow_spec (il : Interleaver) (r : Nat) :
    let il' := forceFillRow il r
    SameShape il il' ∧ (∀ r', r' ≠ r → il'.matrix r' = il.matrix r') ∧
      (∀ r', r' ≠ r → il'.slots r' = il.slots r') ∧
      (∀ r', r' ≠ r → fillKey il' r' = fillKey il r') ∧
      (∀ c, Bitset.test (il.slots r).receivedMask c = true →
        il'.matrix r c = il.matrix r c) ∧
      ∀ c, c < il.n → Bitset.test (il.slots r).receivedMask c = false →
        clipSymbol il.symbolSize (il'.matrix r c)
          = clipSymbol il.symbolSize (fillSymbol symbolInit (fillKey il r) il.n il.symbolSize c) := by
  intro il'
  obtain ⟨-, hkeep, hpad⟩ := fill_loop (fillKey il r) il.n il.symbolSize (il.matrix r)
    (il.slots r).receivedMask il.n
  have hm : il'.matrix r
      = ((List.range il.n).foldl (forceFillCol (fillKey il r) il.n il.symbolSize)
        (il.matrix r, (il.slots r).receivedMask)).1 := Function.update_self ..
  refine ⟨⟨rfl, rfl, rfl⟩, fun r' hr => Function.update_of_ne hr ..,
    fun r' hr => Function.update_of_ne hr .., ?_, ?_, ?_⟩
  · intro r' hr
    show (if Function.update il.rowAssigned r true r' then
      Function.update il.rowBlockKey r _ r' else 0) = _
    rw [Function.update_of_ne hr, Function.update_of_ne hr, fillKey]
  · intro c hc
    rw [hm]
    exact hkeep c (.inr hc)
  · intro c hc hmc
    rw [hm]
    exact hpad c hc hmc

/-- **The padding loop of the tick**, after `i` rows: a short row was padded,
    what was received stays. -/
theorem fill_rows (il : Interleaver) (i : Nat) :
    let r := (List.range i).foldl fillShortRow il
    SameShape il r ∧
      (∀ j, i ≤ j → r.matrix j = il.matrix j ∧ r.slots j = il.slots j ∧
        fillKey r j = fillKey il j) ∧
      (∀ j c, (¬ (il.slots j).symbolCount < il.n ∨
        Bitset.test (il.slots j).receivedMask c = true) → r.matrix j c = il.matrix j c) ∧
      ∀ j c, j < i → (il.slots j).symbolCount < il.n → c < il.n →
        Bitset.test (il.slots j).receivedMask c = false →
        clipSymbol il.symbolSize (r.matrix j c) = clipSymbol il.symbolSize
          (fillSymbol symbolInit (fillKey il j) il.n il.symbolSize c) := by
  induction i with
  | zero =>
      exact ⟨SameShape.refl il, fun _ _ => ⟨rfl, rfl, rfl⟩, fun _ _ _ => rfl,
        fun j _ hj => absurd hj (Nat.not_lt_zero j)⟩
  | succ i ih =>
      rw [List.range_succ, List.foldl_append, List.foldl_cons, List.foldl_nil]
      obtain ⟨hs, hsame, hkeep, hpad⟩ := ih
      generalize (List.range i).foldl fillShortRow il = il1 at hs hsame hkeep hpad ⊢
      obtain ⟨hmi, hsi, hki⟩ := hsame i le_rfl
      by_cases hshort : (il.slots i).symbolCount < il.n
      · have hfill : fillShortRow il1 i = forceFillRow il1 i := by
          rw [fillShortRow, if_pos]
          rwa [hsi, hs.n]
        obtain ⟨hs2, hm2, hsl2, hk2, hkeep2, hpad2⟩ := forceFillRow_spec il1 i
        rw [hfill]
        refine ⟨hs.trans hs2, ?_, ?_, ?_⟩
        · intro j hj
          have hne : j ≠ i := by omega
          obtain ⟨h1, h2, h3⟩ := hsame j (by omega)
          exact ⟨(hm2 j hne).trans h1, (hsl2 j hne).trans h2, (hk2 j hne).trans h3⟩
        · intro j c hj
          by_cases hji : j = i
          · subst hji
            rw [hkeep2 c (by rw [hsi]; exact hj.resolve_left (not_not_intro hshort)), hmi]
          · rw [hm2 j hji]
            exact hkeep j c hj
        · intro j c hj hjs hc hmc
          by_cases hji : j = i
          · subst hji
            have h1 := hpad2 c (by rw [hs.n]; exact hc) (by rw [hsi]; exact hmc)
            rwa [hs.symbolSize, hs.n, hki] at h1
          · rw [hm2 j hji]
            exact hpad j c (by omega) hjs hc hmc
      · have hfull : fillShortRow il1 i = il1 := by
          rw [fillShortRow, if_neg]
          rwa [hsi, hs.n]
        rw [hfull]
        refine ⟨hs, fun j hj => hsame j (by omega), hkeep, ?_⟩
        intro j c hj hjs hc hmc
        refine hpad j c (Nat.lt_of_le_of_ne (Nat.le_of_lt_succ hj) ?_) hjs hc hmc
        rintro rfl
        exact hshort hjs

/-- The window that a tick closes. -/
def closedWindow (il : Interleaver) : Interleaver :=
  let il := (List.range il.depth).foldl fillShortRow il
  { il with completeSlots := il.depth, ready := true, popCol := 0, popRow := 0 }

/-- A tick changes nothing, or closes a window that has a complete row. -/
theorem tick_cases (il : Interleaver) (now : Nat) :
    interleaverTick il now = (0, il) ∨
      il.ready = false ∧ il.windowHasData = true ∧ 1 ≤ il.completeSlots ∧
        interleaverTick il now = (1, closedWindow il) := by
  rw [interleaverTick]
  by_cases h0 : il.flushTimeoutMs = 0
  · rw [if_pos h0]
    exact .inl rfl
  rw [if_neg h0]
  by_cases h1 : il.ready ∨ ¬ il.windowHasData ∨ il.completeSlots < 1
  · rw [if_pos h1]
    exact .inl rfl
  rw [if_neg h1]
  by_cases h2 : elapsedMs il.windowStart now < il.flushTimeoutMs
  · rw [if_pos h2]
    exact .inl rfl
  rw [if_neg h2]
  rw [not_or, not_or, not_not, Bool.not_eq_true, not_lt] at h1
  exact .inr ⟨h1.1, h1.2.1, h1.2.2, rfl⟩

/-- **A tick** changes nothing, or pads the window and makes it ready. -/
theorem tick_holds {il : Interleaver} {rows : List Row} (now : Nat)
    (h : Holds il rows) (hn : 0 < il.n) :
    interleaverTick il now = (0, il) ∨
      (interleaverTick il now).1 = 1 ∧ rows ≠ [] ∧
        SameShape il (interleaverTick il now).2 ∧
        Draining (interleaverTick il now).2
          (padded il.depth il.n il.symbolSize rows) 0 := by
  rcases tick_cases il now with hsame | ⟨-, -, hcomplete, heq⟩
  · exact .inl hsame
  rw [heq]
  obtain ⟨hs, -, hkeep, hpad⟩ := fill_rows il il.depth
  have hroom := h.room
  refine .inr ⟨rfl, ?_, ⟨hs.depth, hs.n, hs.symbolSize⟩, ?_⟩
  · intro hnil
    have hc := h.complete
    rw [hnil] at hc
    have hz : il.completeSlots = 0 := hc
    omega
  · have hlen : (padded il.depth il.n il.symbolSize rows).length = il.depth :=
      padded_length (Nat.le_of_lt hroom)
    exact
      { ready := rfl
        full := hlen.trans hs.depth.symm
        row := (Nat.zero_mod _).symm
        col := (Nat.zero_div _).symm
        left := by
          show 0 < ((List.range il.depth).foldl fillShortRow il).depth
            * ((List.range il.depth).foldl fillShortRow il).n
          rw [hs.depth, hs.n]
          exact Nat.mul_pos (by omega) hn
        cells := by
          intro r hr c hc
          rw [hlen] at hr
          show clipSymbol ((List.range il.depth).foldl fillShortRow il).symbolSize
            (((List.range il.depth).foldl fillShortRow il).matrix r c)
            = clipSymbol ((List.range il.depth).foldl fillShortRow il).symbolSize _
          have hc' : c < il.n := by
            rw [← hs.n]
            exact hc
          rw [hs.symbolSize]
          rw [getElem_padded (by rw [hlen]; exact hr)]
          by_cases hlow : r < rows.length
          · rw [hkeep r c (.inl (by rw [(h.done r hlow).count]; exact Nat.lt_irrefl _)),
              dif_pos hlow]
            exact (h.done r hlow).cells c hc'
          · have hfree := h.free r (by omega) hr
            have hp := hpad r c hr (by rw [hfree.count]; exact hn) hc' (hfree.mask c)
            rw [fillKey, hfree.assigned] at hp
            rw [dif_neg hlow]
            exact hp }

/-! ## Reading the window out -/

/-- Symbol number `p` of a window, in column order. -/
def windowSymbol (depth symbolSize : Nat) (rows : List Row) (p : Nat) : Symbol :=
  clipSymbol symbolSize ((rows.getD (p % depth) ⟨0, fun _ => symbolInit⟩).cells (p / depth))

/-- A pop moves on, and the last one of a window resets it. -/
theorem pop_cases {il il' : Interleaver} {sym : Symbol} {last : Bool}
    (h : interleaverPopReadySymbol il = some (sym, last, il')) :
    ∃ row col, il' = if last then resetWindow { il with popRow := row, popCol := col }
      else { il with popRow := row, popCol := col } := by
  rw [interleaverPopReadySymbol] at h
  by_cases hready : il.ready = true
  · rw [if_pos hready] at h
    by_cases hlast : (if il.popRow + 1 = il.depth then il.popCol + 1 else il.popCol) = il.n
    · cases (if_pos hlast).symm.trans h
      exact ⟨_, _, rfl⟩
    · cases (if_neg hlast).symm.trans h
      exact ⟨_, _, rfl⟩
  · rw [if_neg hready] at h
    exact nomatch h

/-- **One pop** returns the next symbol in column order, and the last one
    resets the window. -/
theorem pop_draining {il : Interleaver} {rows : List Row} {p : Nat}
    (h : Draining il rows p) :
    ∃ last il', interleaverPopReadySymbol il
        = some (windowSymbol il.depth il.symbolSize rows p, last, il') ∧
      SameShape il il' ∧
      ((p + 1 < il.depth * il.n ∧ last = false ∧ Draining il' rows (p + 1)) ∨
        (p + 1 = il.depth * il.n ∧ last = true ∧ Holds il' [])) := by
  have hd : 0 < il.depth := by
    rcases Nat.eq_zero_or_pos il.depth with hz | hpos
    · have hl := h.left
      rw [hz, Nat.zero_mul] at hl
      exact absurd hl (Nat.not_lt_zero p)
    · exact hpos
  have hrow : p % il.depth < rows.length := by
    rw [h.full]
    exact Nat.mod_lt p hd
  have hcol : p / il.depth < il.n := Nat.div_lt_of_lt_mul h.left
  have hsym : copySymbol symbolInit (il.matrix il.popRow il.popCol) il.symbolSize
      = windowSymbol il.depth il.symbolSize rows p := by
    have hc := h.cells (p % il.depth) hrow (p / il.depth) hcol
    rw [h.row, h.col, windowSymbol, List.getD_eq_getElem?_getD,
      List.getElem?_eq_getElem hrow]
    exact hc
  -- the position after this one
  have hnext : (if il.popRow + 1 = il.depth then 0 else il.popRow + 1)
        = (p + 1) % il.depth ∧
      (if il.popRow + 1 = il.depth then il.popCol + 1 else il.popCol)
        = (p + 1) / il.depth := by
    rw [h.row, h.col]
    have hdm := Nat.div_add_mod p il.depth
    have hmod := Nat.mod_lt p hd
    by_cases hw : p % il.depth + 1 = il.depth
    · rw [if_pos hw, if_pos hw]
      have hp1 : p + 1 = il.depth * (p / il.depth + 1) := by
        rw [Nat.mul_add, Nat.mul_one]
        omega
      rw [hp1, Nat.mul_mod_right, Nat.mul_div_cancel_left _ hd]
      exact ⟨rfl, rfl⟩
    · rw [if_neg hw, if_neg hw]
      have hlt : p % il.depth + 1 < il.depth := Nat.lt_of_le_of_ne hmod hw
      have hp1 : p + 1 = (p % il.depth + 1) + il.depth * (p / il.depth) := by
        rw [Nat.add_right_comm, Nat.mod_add_div]
      have hm : (p + 1) % il.depth = p % il.depth + 1 := by
        rw [hp1, Nat.add_mul_mod_self_left, Nat.mod_eq_of_lt hlt]
      have hq : (p + 1) / il.depth = p / il.depth := by
        rw [hp1, Nat.add_mul_div_left _ _ hd, Nat.div_eq_of_lt hlt, Nat.zero_add]
      exact ⟨hm.symm, hq.symm⟩
  have hle : p + 1 ≤ il.depth * il.n := h.left
  have hend : (p + 1) / il.depth = il.n ↔ p + 1 = il.depth * il.n := by
    constructor
    · intro he
      have h1 := Nat.div_mul_le_self (p + 1) il.depth
      rw [he, Nat.mul_comm] at h1
      omega
    · intro he
      rw [he]
      exact Nat.mul_div_cancel_left _ hd
  rw [interleaverPopReadySymbol, if_pos h.ready]
  simp only [hsym, hnext.1, hnext.2, hend]
  by_cases hlast : p + 1 = il.depth * il.n
  · rw [if_pos hlast]
    exact ⟨true, _, rfl, ⟨rfl, rfl, rfl⟩, .inr ⟨hlast, rfl, holds_reset hd⟩⟩
  · rw [if_neg hlast]
    refine ⟨false, _, rfl, ⟨rfl, rfl, rfl⟩, .inl ⟨by omega, rfl, ?_⟩⟩
    exact
      { ready := h.ready
        full := h.full
        row := rfl
        col := rfl
        left := show p + 1 < il.depth * il.n by omega
        cells := h.cells }

end FsoInterleaver
