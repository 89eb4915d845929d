import FsoGateway.InterleaverSteps
import FsoGateway.Lib.KeyedWindow
import FsoGateway.Lib.Scan

/-! # The interleaver is a column-major window

    The symbols accepted since the last reset are the items of a window keyed
    by block; `fec_id` is the column.  Pushes, ticks and pops come in any
    order, and blocks may stay incomplete until a flush pads them.

    * `RowsHold` — the matrix and the row tables hold the accepted symbols;
    * `Collects` — and the window is not closed yet;
    * `push_collects`, `tick_collects`, `pop_draining` — one call;
    * `column_major_windows` — what every window of a run gives back. -/

namespace FsoInterleaver

open ByteBuffer FsoTypes KeyedWindow

/-! ## The abstract window -/

/-- The column of a symbol. -/
def column (s : Symbol) : Nat := s.fecId.toNat

/-- The blocks of a window, in the order of their first symbol. -/
abbrev blockKeys (acc : List Symbol) : List UInt32 := rowKeys Symbol.packetId acc

/-- The symbol accepted for row `r` and column `c`. -/
abbrev symbolAt (acc : List Symbol) (r c : Nat) : Option Symbol :=
  itemAt Symbol.packetId column acc r c

/-- What a cell that nothing was accepted for is padded with; a row of no
    block has key 0. -/
def paddingSymbol (n symbolSize : Nat) (key : Option UInt32) (c : Nat) : Symbol :=
  fillSymbol symbolInit (key.getD 0) n symbolSize c

/-- The window, column by column. -/
def windowOut (depth n symbolSize : Nat) (acc : List Symbol) : List Symbol :=
  readOut Symbol.packetId column (clipSymbol symbolSize) (paddingSymbol n symbolSize) depth n
    acc

/-- The accepted symbols fit the window, each in a cell of its own. -/
structure Fits (depth n : Nat) (acc : List Symbol) : Prop where
  distinct : Distinct Symbol.packetId column acc
  rows : (blockKeys acc).length ≤ depth
  cols : ∀ s ∈ acc, column s < n

/-- The symbol is for a cell that is taken. -/
def isDuplicate (acc : List Symbol) (sym : Symbol) : Bool :=
  acc.any fun s => s.packetId == sym.packetId && s.fecId == sym.fecId

theorem isDuplicate_iff {acc : List Symbol} {sym : Symbol} :
    isDuplicate acc sym = true
      ↔ (cellAt Symbol.packetId column acc sym.packetId (column sym)).isSome = true := by
  rw [cellAt_isSome_iff, isDuplicate, List.any_eq_true]
  refine exists_congr fun s => and_congr_right fun _ => ?_
  rw [Bool.and_eq_true, beq_iff_eq, beq_iff_eq, column, column]
  exact and_congr_right fun _ => UInt32.toNat_inj.symm

/-- The rows of the window as the read-out meets them. -/
def windowRows (depth n symbolSize : Nat) (acc : List Symbol) : List Row :=
  (List.range depth).map fun r =>
    ⟨(blockKeys acc).getD r 0,
      fun c => (symbolAt acc r c).getD (paddingSymbol n symbolSize (blockKeys acc)[r]? c)⟩

theorem windowRows_length (depth n symbolSize : Nat) (acc : List Symbol) :
    (windowRows depth n symbolSize acc).length = depth := by
  rw [windowRows, List.length_map, List.length_range]

theorem clip_paddingSymbol (n ss : Nat) (key : Option UInt32) (c : Nat) :
    clipSymbol ss (paddingSymbol n ss key c) = paddingSymbol n ss key c := by
  rw [paddingSymbol, fillSymbol, clipSymbol]
  congr 1
  funext i
  show (if i < ss then memzero symbolInit.data ss i else 0) = memzero symbolInit.data ss i
  have hz : memzero symbolInit.data ss i = 0 := by
    rw [memzero]
    split <;> rfl
  rw [hz, ite_self]

/-- The cell of a row, clipped, is what is read from it. -/
theorem clip_windowCell (n ss : Nat) (acc : List Symbol) (r c : Nat) :
    clipSymbol ss ((symbolAt acc r c).getD (paddingSymbol n ss (blockKeys acc)[r]? c))
      = readCell Symbol.packetId column (clipSymbol ss) (paddingSymbol n ss) acc r c := by
  show _ = ((symbolAt acc r c).map (clipSymbol ss)).getD _
  cases symbolAt acc r c with
  | none => exact clip_paddingSymbol ..
  | some s => rfl

/-- Symbol number `p` of the rows is symbol number `p` of the window. -/
theorem windowSymbol_rows {depth n : Nat} (ss : Nat) (acc : List Symbol) {p : Nat}
    (hp : p < depth * n) :
    (windowOut depth n ss acc)[p]?
      = some (windowSymbol depth ss (windowRows depth n ss acc) p) := by
  have hd : 0 < depth := by
    rcases Nat.eq_zero_or_pos depth with rfl | h
    · omega
    · exact h
  have hr : p % depth < depth := Nat.mod_lt p hd
  rw [windowOut, readOut, List.getElem?_map, List.getElem?_range hp, windowSymbol,
    windowRows, List.getD_eq_getElem?_getD, List.getElem?_map, List.getElem?_range hr]
  exact congrArg some (clip_windowCell n ss acc _ _).symm

/-! ## What the matrix holds -/

/-- The rows hold the accepted symbols. -/
structure RowsHold (il : Interleaver) (acc : List Symbol) : Prop where
  fits : Fits il.depth il.n acc
  windowCount : il.windowBlockCount = (blockKeys acc).length
  assigned : ∀ r, r < il.depth → il.rowAssigned r = decide (r < (blockKeys acc).length)
  rowKey : ∀ r k, (blockKeys acc)[r]? = some k → il.rowBlockKey r = k
  mask : ∀ r c, r < il.depth →
    Bitset.test (il.slots r).receivedMask c = (symbolAt acc r c).isSome
  count : ∀ r, r < il.depth →
    (il.slots r).symbolCount = Bitset.count (il.slots r).receivedMask il.n
  cells : ∀ r c s, symbolAt acc r c = some s →
    clipSymbol il.symbolSize (il.matrix r c) = clipSymbol il.symbolSize s
  hasData : acc ≠ [] → il.windowHasData = true

/-- The number of complete rows. -/
def fullRows (il : Interleaver) : Nat :=
  (List.range il.depth).countP fun r => decide ((il.slots r).symbolCount = il.n)

/-- The window is being filled. -/
structure Collects (il : Interleaver) (acc : List Symbol) : Prop where
  rows : RowsHold il acc
  notReady : il.ready = false
  complete : il.completeSlots = fullRows il
  room : il.completeSlots < il.depth

theorem fits_nil (depth n : Nat) : Fits depth n [] :=
  ⟨List.Pairwise.nil, Nat.zero_le _, fun _ h => nomatch h⟩

/-- An empty window collects nothing yet. -/
theorem collects_nil {il : Interleaver} (h : Holds il []) (hn : 0 < il.n) :
    Collects il [] where
  rows :=
    { fits := fits_nil il.depth il.n
      windowCount := h.windowCount
      assigned := fun r hr => (h.free r (Nat.zero_le r) hr).assigned
      rowKey := by
        intro r k hk
        cases hk
      mask := fun r c hr => (h.free r (Nat.zero_le r) hr).mask c
      count := by
        intro r hr
        have hf := h.free r (Nat.zero_le r) hr
        rw [hf.count, Bitset.count]
        exact (List.countP_eq_zero.mpr fun c _ => by rw [hf.mask c]; exact Bool.false_ne_true).symm
      cells := by
        intro r c s hs
        cases hs
      hasData := fun h0 => absurd rfl h0 }
  notReady := h.notReady
  complete := by
    rw [h.complete, fullRows]
    refine (List.countP_eq_zero.mpr fun r hr => ?_).symm
    rw [(h.free r (Nat.zero_le r) (List.mem_range.mp hr)).count]
    exact fun hz => absurd (of_decide_eq_true hz) (Nat.ne_of_lt hn)
  room := by
    rw [h.complete]
    exact h.room

/-! ## Resolving the row -/

/-- The row of a block that has one, or the next free row. -/
theorem resolveRow_rows {il : Interleaver} {acc : List Symbol} (h : RowsHold il acc)
    (sym : Symbol) :
    resolveRow il sym.packetId
      = if sym.packetId ∈ blockKeys acc then some (rowOf Symbol.packetId acc sym, il)
        else if (blockKeys acc).length < il.depth then
          some ((blockKeys acc).length, openRow il (blockKeys acc).length sym.packetId)
        else none := by
  have hrows := h.fits.rows
  -- a row found for the key is the row of the key
  have hfound : ∀ r, findRowForBlockKey il sym.packetId = some r →
      (blockKeys acc)[r]? = some sym.packetId := by
    intro r hr
    obtain ⟨hlt, ha, hk⟩ := findRow_some hr
    rw [h.assigned r hlt] at ha
    have hr' := of_decide_eq_true ha
    have hk' := h.rowKey r _ (List.getElem?_eq_getElem hr')
    rw [List.getElem?_eq_getElem hr', ← hk', hk]
  rw [resolveRow]
  cases hf : findRowForBlockKey il sym.packetId with
  | some r =>
      have hk := hfound r hf
      have hlt := (List.getElem?_eq_some_iff.mp hk).1
      have hmem : sym.packetId ∈ blockKeys acc := List.mem_of_getElem? hk
      rw [if_pos hmem, (rowOf_eq_iff hlt).mpr hk]
  | none =>
      have hmem : sym.packetId ∉ blockKeys acc := by
        intro hm
        have hlt : rowOf Symbol.packetId acc sym < (blockKeys acc).length :=
          List.idxOf_lt_length_of_mem hm
        have hk := h.rowKey _ _ ((rowOf_eq_iff hlt).mp rfl)
        have ha := h.assigned _ (Nat.lt_of_lt_of_le hlt hrows)
        rw [decide_eq_true hlt] at ha
        exact findRow_none hf (Nat.lt_of_lt_of_le hlt hrows) ha hk
      rw [if_neg hmem]
      show assignRowForBlockKey il sym.packetId = _
      rw [assignRowForBlockKey, h.windowCount]
      by_cases hroom : (blockKeys acc).length < il.depth
      · rw [if_neg (Nat.not_le.mpr hroom), if_pos hroom, Nat.mod_eq_of_lt hroom, openRow,
          h.windowCount]
      · rw [if_pos (Nat.le_of_not_lt hroom), if_neg hroom]

/-! ## A push -/

/-- The row of a symbol is below the depth, and assigned. -/
theorem rowOf_lt_depth {il : Interleaver} {acc : List Symbol} (h : RowsHold il acc)
    {sym : Symbol}
    (hroom : sym.packetId ∈ blockKeys acc ∨ (blockKeys acc).length < il.depth) :
    rowOf Symbol.packetId acc sym < il.depth := by
  rcases hroom with hm | hlt
  · exact Nat.lt_of_lt_of_le (List.idxOf_lt_length_of_mem hm) h.fits.rows
  · exact Nat.lt_of_le_of_lt List.idxOf_le_length hlt

/-- The interleaver with the row of the symbol open. -/
def withRow (il : Interleaver) (acc : List Symbol) (sym : Symbol) : Interleaver :=
  if sym.packetId ∈ blockKeys acc then il
  else openRow il (blockKeys acc).length sym.packetId

theorem withRow_spec {il : Interleaver} {acc : List Symbol} (h : RowsHold il acc)
    (sym : Symbol)
    (hroom : sym.packetId ∈ blockKeys acc ∨ (blockKeys acc).length < il.depth) :
    let il0 := withRow il acc sym
    let keys := blockKeys (acc ++ [sym])
    SameShape il il0 ∧ il0.ready = il.ready ∧ il0.completeSlots = il.completeSlots ∧
      il0.matrix = il.matrix ∧ il0.slots = il.slots ∧ keys.length ≤ il.depth ∧
      il0.windowBlockCount = keys.length ∧
      (∀ r, r < il.depth → il0.rowAssigned r = decide (r < keys.length)) ∧
      ∀ r k, keys[r]? = some k → il0.rowBlockKey r = k := by
  intro il0 keys
  have hkeys : keys = _ := rowKeys_append acc sym
  by_cases hm : sym.packetId ∈ blockKeys acc
  · have he : il0 = il := if_pos hm
    rw [if_pos hm] at hkeys
    rw [he, hkeys]
    exact ⟨SameShape.refl il, rfl, rfl, rfl, rfl, h.fits.rows, h.windowCount, h.assigned,
      h.rowKey⟩
  · have he : il0 = openRow il (blockKeys acc).length sym.packetId := if_neg hm
    have hlt := hroom.resolve_left hm
    rw [if_neg hm] at hkeys
    have hlen : keys.length = (blockKeys acc).length + 1 := by
      rw [hkeys, List.length_append, List.length_singleton]
    rw [he, hlen]
    refine ⟨⟨rfl, rfl, rfl⟩, rfl, rfl, rfl, rfl, hlt, ?_, ?_, ?_⟩
    · show il.windowBlockCount + 1 = _
      rw [h.windowCount]
    · intro r hr
      show Function.update il.rowAssigned _ true r = _
      by_cases hre : r = (blockKeys acc).length
      · rw [hre, Function.update_self]
        exact (decide_eq_true (Nat.lt_succ_self _)).symm
      · rw [Function.update_of_ne hre, h.assigned r hr]
        exact decide_eq_decide.mpr (by omega)
    · intro r k hk
      show Function.update il.rowBlockKey _ sym.packetId r = _
      rw [hkeys] at hk
      by_cases hre : r = (blockKeys acc).length
      · rw [hre, Function.update_self]
        rw [hre, List.getElem?_append_right (Nat.le_refl _), Nat.sub_self] at hk
        exact Option.some.inj hk
      · have hlt' := (List.getElem?_eq_some_iff.mp hk).1
        rw [← hkeys, hlen] at hlt'
        have hltr : r < (blockKeys acc).length := by omega
        rw [List.getElem?_append_left hltr] at hk
        rw [Function.update_of_ne hre]
        exact h.rowKey r k hk

/-- The cell of a symbol that is no duplicate. -/
theorem cellAt_fresh {acc : List Symbol} {sym : Symbol} (hnew : isDuplicate acc sym = false) :
    cellAt Symbol.packetId column acc sym.packetId (column sym) = none := by
  cases hc : cellAt Symbol.packetId column acc sym.packetId (column sym) with
  | none => rfl
  | some s =>
      have hd := isDuplicate_iff.mpr (show Option.isSome _ = true by rw [hc]; rfl)
      rw [hnew] at hd
      exact nomatch hd

theorem symbolAt_fresh {acc : List Symbol} {sym : Symbol}
    (hnew : isDuplicate acc sym = false) :
    symbolAt acc (rowOf Symbol.packetId acc sym) (column sym) = none := by
  cases hc : symbolAt acc (rowOf Symbol.packetId acc sym) (column sym) with
  | none => rfl
  | some s =>
      obtain ⟨hs, hsr, hsc⟩ := itemAt_some hc
      have hlt : rowOf Symbol.packetId acc sym < (blockKeys acc).length :=
        hsr ▸ rowOf_lt Symbol.packetId hs
      have h1 := (rowOf_eq_iff hlt).mp hsr
      have h2 := (rowOf_eq_iff (s := sym) hlt).mp rfl
      have hkey : s.packetId = sym.packetId := Option.some.inj (h1.symm.trans h2)
      exact absurd ⟨hkey, hsc⟩ (cellAt_none (cellAt_fresh hnew) hs)

/-- The cell the symbol goes to, and the others. -/
theorem symbolAt_append {acc : List Symbol} {sym : Symbol}
    (hnew : isDuplicate acc sym = false) (r c : Nat) :
    symbolAt (acc ++ [sym]) r c
      = if r = rowOf Symbol.packetId acc sym ∧ c = column sym then some sym
        else symbolAt acc r c := by
  rw [symbolAt, itemAt_append]
  by_cases hrc : r = rowOf Symbol.packetId acc sym ∧ c = column sym
  · rw [if_pos hrc, if_pos hrc, hrc.2, cellAt_fresh hnew]
    rfl
  · rw [if_neg hrc, if_neg hrc]

theorem pushed_hasData (il : Interleaver) (r col : Nat) (sym : Symbol) (now : Nat) :
    (pushed il r col sym now).windowHasData = true := by
  rw [pushed]
  cases hd : il.windowHasData with
  | true =>
      rw [if_pos rfl]
      exact hd
  | false => rfl

theorem fits_append {depth n : Nat} {acc : List Symbol} {sym : Symbol}
    (h : Fits depth n acc) (hcol : column sym < n) (hnew : isDuplicate acc sym = false)
    (hrows : (blockKeys (acc ++ [sym])).length ≤ depth) : Fits depth n (acc ++ [sym]) where
  distinct := by
    exact distinct_append h.distinct fun x hx hxs => cellAt_none (cellAt_fresh hnew) hx hxs
  rows := hrows
  cols := by
    intro s hs
    rcases List.mem_append.mp hs with hs | hs
    · exact h.cols s hs
    · rw [List.mem_singleton.mp hs]
      exact hcol

/-- **The store** of a symbol whose cell is free. -/
theorem rowsHold_pushed {il : Interleaver} {acc : List Symbol} (h : RowsHold il acc)
    {sym : Symbol} (now : Nat) (hcol : column sym < il.n)
    (hnew : isDuplicate acc sym = false)
    (hroom : sym.packetId ∈ blockKeys acc ∨ (blockKeys acc).length < il.depth) :
    let row := rowOf Symbol.packetId acc sym
    let il' := pushed (withRow il acc sym) row (column sym) sym now
    SameShape il il' ∧ il'.ready = il.ready ∧ il'.completeSlots = il.completeSlots ∧
      il'.slots = Function.update il.slots row
        { symbolCount := (il.slots row).symbolCount + 1
          occupied := true
          receivedMask := Bitset.set (il.slots row).receivedMask (column sym) } ∧
      Bitset.test (il.slots row).receivedMask (column sym) = false ∧
      RowsHold il' (acc ++ [sym]) := by
  intro row il'
  have hrow : row < il.depth := rowOf_lt_depth h hroom
  obtain ⟨hs0, hr0, hc0, hm0, hsl0, hlen, hw0, ha0, hk0⟩ := withRow_spec h sym hroom
  obtain ⟨hs1, hr1, ha1, hk1, hw1, hc1, hm1, hsl1⟩ :=
    pushed_spec (withRow il acc sym) row (column sym) sym now
  rw [hm0, hs0.symbolSize] at hm1
  rw [hsl0] at hsl1
  have hs : SameShape il il' := hs0.trans hs1
  have hitem : ∀ r c, symbolAt (acc ++ [sym]) r c = _ := symbolAt_append hnew
  have htest : Bitset.test (il.slots row).receivedMask (column sym) = false := by
    rw [h.mask row _ hrow, symbolAt_fresh hnew]
    rfl
  refine ⟨hs, hr1.trans hr0, hc1.trans hc0, hsl1, htest, ?_⟩
  exact
    { fits := by
        rw [hs.depth, hs.n]
        exact fits_append h.fits hcol hnew hlen
      windowCount := hw1.trans hw0
      assigned := by
        intro r hr
        rw [hs.depth] at hr
        rw [ha1]
        exact ha0 r hr
      rowKey := by
        intro r k hk
        rw [hk1]
        exact hk0 r k hk
      mask := by
        intro r c hr
        rw [hs.depth] at hr
        rw [hsl1, hitem]
        -- the bit that is set is that of the new symbol; all others are old
        by_cases hre : r = row
        · rw [hre, Function.update_self]
          show Bitset.test (Bitset.set _ _) c = _
          rw [Bitset.test_set, h.mask row c hrow]
          by_cases hce : c = column sym
          · rw [if_pos ⟨rfl, hce⟩, decide_eq_true hce]
            rfl
          · rw [if_neg fun hh => hce hh.2, decide_eq_false hce, Bool.false_or]
        · rw [Function.update_of_ne hre, if_neg fun hh => hre hh.1]
          exact h.mask r c hr
      count := by
        intro r hr
        rw [hs.depth] at hr
        rw [hsl1, hs.n]
        by_cases hre : r = row
        · rw [hre, Function.update_self]
          show (il.slots row).symbolCount + 1 = Bitset.count (Bitset.set _ _) _
          rw [Bitset.count_set hcol htest, h.count row hrow]
        · rw [Function.update_of_ne hre]
          exact h.count r hr
      cells := by
        intro r c s hsome
        rw [hitem] at hsome
        rw [hs.symbolSize, hm1]
        by_cases hre : r = row
        · rw [hre, Function.update_self]
          by_cases hce : c = column sym
          · rw [if_pos ⟨hre, hce⟩] at hsome
            rw [hce, Function.update_self, clipSymbol_copySymbol, Option.some.inj hsome]
          · rw [if_neg fun hh => hce hh.2] at hsome
            rw [Function.update_of_ne hce, ← hre]
            exact h.cells r c s hsome
        · rw [if_neg fun hh => hre hh.1] at hsome
          rw [Function.update_of_ne hre]
          exact h.cells r c s hsome
      hasData := fun _ => pushed_hasData _ _ _ _ _ }

/-- A window all of whose cells are as the read-out wants them is drained. -/
theorem draining_of_cells {il : Interleaver} {acc : List Symbol} (hready : il.ready = true)
    (hrow : il.popRow = 0) (hcol : il.popCol = 0) (hd : 0 < il.depth) (hn : 0 < il.n)
    (hcells : ∀ r c, r < il.depth → c < il.n →
      clipSymbol il.symbolSize (il.matrix r c)
        = readCell Symbol.packetId column (clipSymbol il.symbolSize)
            (paddingSymbol il.n il.symbolSize) acc r c) :
    Draining il (windowRows il.depth il.n il.symbolSize acc) 0 where
  ready := hready
  full := windowRows_length ..
  row := by rw [hrow, Nat.zero_mod]
  col := by rw [hcol, Nat.zero_div]
  left := Nat.mul_pos hd hn
  cells := by
    intro r hr c hc
    rw [windowRows_length] at hr
    rw [hcells r c hr hc, ← clip_windowCell]
    simp only [windowRows, List.getElem_map, List.getElem_range]

/-- A row that is complete has a symbol in every column. -/
theorem symbolAt_complete {il : Interleaver} {acc : List Symbol} (h : RowsHold il acc)
    {r c : Nat} (hr : r < il.depth) (hc : c < il.n)
    (hfull : (il.slots r).symbolCount = il.n) : ∃ s, symbolAt acc r c = some s := by
  rw [h.count r hr, Bitset.count_eq_iff] at hfull
  have ht := hfull c hc
  rw [h.mask r c hr] at ht
  exact Option.isSome_iff_exists.mp ht

/-- What a cell holds once a symbol was accepted for it. -/
theorem clip_cell {il : Interleaver} {acc : List Symbol} (h : RowsHold il acc)
    {r c : Nat} {s : Symbol} (hs : symbolAt acc r c = some s) :
    clipSymbol il.symbolSize (il.matrix r c)
      = readCell Symbol.packetId column (clipSymbol il.symbolSize)
          (paddingSymbol il.n il.symbolSize) acc r c := by
  rw [← clip_windowCell, hs]
  exact h.cells r c s hs

/-- The outcomes of a push into a window that is being filled. -/
inductive PushResult (il : Interleaver) (acc : List Symbol) (sym : Symbol) :
    Int × Interleaver → Prop where
  | rejected : PushResult il acc sym (-1, il)
  | duplicate (hd : isDuplicate acc sym = true) : PushResult il acc sym (0, il)
  | stored {il' : Interleaver} (hd : isDuplicate acc sym = false) (hs : SameShape il il')
      (h : Collects il' (acc ++ [sym])) : PushResult il acc sym (0, il')
  | closed {il' : Interleaver} (hd : isDuplicate acc sym = false) (hs : SameShape il il')
      (hfits : Fits il'.depth il'.n (acc ++ [sym]))
      (h : Draining il' (windowRows il'.depth il'.n il'.symbolSize (acc ++ [sym])) 0) :
      PushResult il acc sym (1, il')

/-- The counters after the store: a row that is now complete, a window that is
    now full. -/
theorem pushed_result {il il1 : Interleaver} {acc : List Symbol} {sym : Symbol} {row : Nat}
    (h : Collects il acc) (hd : isDuplicate acc sym = false) (hrow : row < il.depth)
    (hcol : column sym < il.n) (hs : SameShape il il1) (hr : il1.ready = il.ready)
    (hc : il1.completeSlots = il.completeSlots)
    (hsl : il1.slots = Function.update il.slots row
      { symbolCount := (il.slots row).symbolCount + 1
        occupied := true
        receivedMask := Bitset.set (il.slots row).receivedMask (column sym) })
    (htest : Bitset.test (il.slots row).receivedMask (column sym) = false)
    (hrows : RowsHold il1 (acc ++ [sym])) :
    PushResult il acc sym (rowStored il1 row) := by
  -- the row was not complete before
  have hcount := h.rows.count row hrow
  have hold : (il.slots row).symbolCount ≠ il.n := by
    rw [hcount]
    intro hfull
    have hbit := Bitset.count_eq_iff.mp hfull _ hcol
    rw [htest] at hbit
    exact nomatch hbit
  have hfull : fullRows il1 = fullRows il
      + (decide ((il1.slots row).symbolCount = il1.n)).toNat := by
    have hup := Scan.countP_update (fun sl : SlotMeta => decide (sl.symbolCount = il.n))
      il.slots hrow (il1.slots row)
    have hslots : Function.update il.slots row (il1.slots row) = il1.slots := by
      rw [hsl, Function.update_self]
    rw [hslots, decide_eq_false hold] at hup
    rw [fullRows, fullRows, hs.depth, hs.n]
    exact hup
  rw [rowStored]
  by_cases hn : (il1.slots row).symbolCount = il1.n
  · rw [decide_eq_true hn] at hfull
    rw [if_pos hn]
    have hcomp : il1.completeSlots + 1 = fullRows il1 := by
      rw [hc, h.complete, hfull]
      rfl
    by_cases hdep : il1.completeSlots + 1 = il1.depth
    · rw [if_pos hdep]
      refine .closed hd ⟨hs.depth, hs.n, hs.symbolSize⟩ hrows.fits ?_
      refine draining_of_cells rfl rfl rfl ?_ ?_ ?_
      · show 0 < il1.depth
        omega
      · show 0 < il1.n
        rw [hs.n]
        exact Nat.lt_of_le_of_lt (Nat.zero_le _) hcol
      · intro r c hrl hcl
        -- every row is complete, since as many are as there are rows
        have hall := List.countP_eq_length.mp
          (show (List.range il1.depth).countP
              (fun r => decide ((il1.slots r).symbolCount = il1.n))
            = (List.range il1.depth).length by
              rw [List.length_range]
              exact hcomp.symm.trans hdep)
        have hrf := of_decide_eq_true (hall r (List.mem_range.mpr hrl))
        obtain ⟨s, hsome⟩ := symbolAt_complete hrows hrl hcl hrf
        exact clip_cell hrows hsome
    · rw [if_neg hdep]
      refine .stored hd ⟨hs.depth, hs.n, hs.symbolSize⟩ ⟨?_, hr.trans h.notReady, hcomp, ?_⟩
      · exact ⟨hrows.fits, hrows.windowCount, hrows.assigned, hrows.rowKey, hrows.mask,
          hrows.count, hrows.cells, hrows.hasData⟩
      · have hroom := h.room
        show il1.completeSlots + 1 < il1.depth
        rw [hc, hs.depth] at hdep ⊢
        omega
  · rw [decide_eq_false hn] at hfull
    rw [if_neg hn]
    refine .stored hd hs ⟨hrows, hr.trans h.notReady, ?_, ?_⟩
    · rw [hc, h.complete, hfull]
      rfl
    · rw [hc, hs.depth]
      exact h.room

/-- **A push** into a window that is being filled. -/
theorem push_collects {il : Interleaver} {acc : List Symbol} (h : Collects il acc)
    (sym : Symbol) (now : Nat) (hn : il.n ≤ 2 ^ 31) :
    PushResult il acc sym (interleaverPushSymbol il sym now) := by
  have hres := resolveRow_rows h.rows sym
  by_cases hcol : column sym < il.n
  case neg =>
    rw [push_outside h.notReady sym now hn hcol]
    exact .rejected
  by_cases hroom : sym.packetId ∈ blockKeys acc ∨ (blockKeys acc).length < il.depth
  case neg =>
    rw [if_neg fun hm => hroom (.inl hm), if_neg fun hlt => hroom (.inr hlt)] at hres
    rw [push_noRow h.notReady sym now hn hcol hres]
    exact .rejected
  let row := rowOf Symbol.packetId acc sym
  have hrow : row < il.depth := rowOf_lt_depth h.rows hroom
  have hres' : resolveRow il sym.packetId = some (row, withRow il acc sym) := by
    rw [hres, withRow]
    by_cases hm : sym.packetId ∈ blockKeys acc
    · rw [if_pos hm, if_pos hm]
    · rw [if_neg hm, if_neg hm, if_pos (hroom.resolve_left hm)]
      have hlen : row = (blockKeys acc).length := List.idxOf_eq_length hm
      rw [hlen]
  obtain ⟨hs0, -, -, -, hsl0, -⟩ := withRow_spec h.rows sym hroom
  have hrow0 : row < (withRow il acc sym).depth := by
    rw [hs0.depth]
    exact hrow
  cases hd : isDuplicate acc sym with
  | true =>
      -- the block has a row, so nothing was opened, and the clock is running
      obtain ⟨s, hs⟩ := Option.isSome_iff_exists.mp (isDuplicate_iff.mp hd)
      obtain ⟨hmem, hk, -⟩ := cellAt_some hs
      have hm : sym.packetId ∈ blockKeys acc := mem_rowKeys.mpr ⟨s, hmem, hk⟩
      have hil : withRow il acc sym = il := if_pos hm
      have hdata := h.rows.hasData (List.ne_nil_of_mem hmem)
      have htest : Bitset.test (il.slots row).receivedMask (column sym) = true := by
        have hlt : row < (blockKeys acc).length := List.idxOf_lt_length_of_mem hm
        rw [h.rows.mask row _ hrow, symbolAt, itemAt, (rowOf_eq_iff hlt).mp rfl]
        exact isDuplicate_iff.mp hd
      rw [hil] at hres'
      rw [push_taken h.notReady now hn hcol hres' hrow hdata htest]
      exact .duplicate hd
  | false =>
      obtain ⟨hs, hr, hc, hsl, htest, hrows⟩ := rowsHold_pushed h.rows now hcol hd hroom
      rw [push_stores now h.notReady hn hcol hres' hrow0 (by rw [hsl0]; exact htest)]
      exact pushed_result h hd hrow hcol hs hr hc hsl htest hrows

/-! ## A tick -/

/-- **A tick** changes nothing, or closes the window: what was accepted stays,
    every other cell is padded. -/
theorem tick_collects {il : Interleaver} {acc : List Symbol} (now : Nat)
    (h : Collects il acc) (hn : 0 < il.n) :
    interleaverTick il now = (0, il) ∨
      SameShape il (interleaverTick il now).2 ∧
        Draining (interleaverTick il now).2
          (windowRows il.depth il.n il.symbolSize acc) 0 := by
  rcases tick_cases il now with hsame | ⟨-, -, -, heq⟩
  · exact .inl hsame
  rw [heq, closedWindow]
  obtain ⟨hs, -, hkeep, hpad⟩ := fill_rows il il.depth
  refine .inr ⟨⟨hs.depth, hs.n, hs.symbolSize⟩, ?_⟩
  have hd : 0 < il.depth := Nat.lt_of_le_of_lt (Nat.zero_le _) h.room
  have hcells : ∀ r c, r < il.depth → c < il.n →
      clipSymbol il.symbolSize (((List.range il.depth).foldl fillShortRow il).matrix r c)
        = readCell Symbol.packetId column (clipSymbol il.symbolSize)
            (paddingSymbol il.n il.symbolSize) acc r c := by
    intro r c hr hc
    have hmask := h.rows.mask r c hr
    cases hat : symbolAt acc r c with
    | some s =>
        rw [hat] at hmask
        rw [hkeep r c (.inr hmask)]
        exact clip_cell h.rows hat
    | none =>
        rw [hat] at hmask
        have hshort : (il.slots r).symbolCount < il.n := by
          rw [h.rows.count r hr]
          refine Nat.lt_of_le_of_ne (Bitset.count_le _ _) fun hfull => ?_
          rw [Bitset.count_eq_iff.mp hfull c hc] at hmask
          exact nomatch hmask
        rw [hpad r c hr hshort hc hmask, ← clip_windowCell, hat]
        have hkey : fillKey il r = (blockKeys acc)[r]?.getD 0 := by
          rw [fillKey, h.rows.assigned r hr]
          cases hk : (blockKeys acc)[r]? with
          | none =>
              rw [decide_eq_false (Nat.not_lt.mpr (List.getElem?_eq_none_iff.mp hk))]
              rfl
          | some k =>
              rw [decide_eq_true (List.getElem?_eq_some_iff.mp hk).1, if_pos rfl]
              exact h.rows.rowKey r k hk
        rw [hkey]
        rfl
  clear hkeep hpad
  generalize (List.range il.depth).foldl fillShortRow il = il1 at hs hcells ⊢
  show Draining { il1 with completeSlots := il1.depth, ready := true, popCol := 0, popRow := 0 }
    (windowRows il.depth il.n il.symbolSize acc) 0
  rw [← hs.depth, ← hs.n, ← hs.symbolSize] at hcells ⊢
  rw [← hs.depth] at hd
  rw [← hs.n] at hn
  exact draining_of_cells rfl rfl rfl hd hn hcells

/-! ## Runs -/

/-- The public calls that may change an interleaver. -/
inductive WindowOp where
  | push (sym : Symbol) (now : Nat)
  | tick (now : Nat)
  | pop

/-- What went through: the symbols accepted into the window that is open and
    those popped from it so far, and the same for every window before it. -/
structure History where
  accepted : List Symbol := []
  popped : List Symbol := []
  closed : List (List Symbol × List Symbol) := []

/-- One call, and the history after it.  A push is accepted when it does not
    return `-1` and is no duplicate. -/
def windowStep (st : Interleaver × History) : WindowOp → Interleaver × History
  | .push sym now =>
      let r := interleaverPushSymbol st.1 sym now
      (r.2,
        if r.1 = -1 ∨ isDuplicate st.2.accepted sym then st.2
        else { st.2 with accepted := st.2.accepted ++ [sym] })
  | .tick now => ((interleaverTick st.1 now).2, st.2)
  | .pop =>
      match interleaverPopReadySymbol st.1 with
      | none => st
      | some (s, false, il) => (il, { st.2 with popped := st.2.popped ++ [s] })
      | some (s, true, il) =>
          (il,
            { accepted := [], popped := []
              closed := st.2.closed ++ [(st.2.accepted, st.2.popped ++ [s])] })

/-- A run, with its history. -/
def windowRun (il : Interleaver) (ops : List WindowOp) : Interleaver × History :=
  ops.foldl windowStep (il, {})

/-- Where the window that is open stands. -/
inductive Current (il : Interleaver) (acc popped : List Symbol) : Prop where
  | collecting (h : Collects il acc) (hp : popped = [])
  | draining (p : Nat) (hfits : Fits il.depth il.n acc)
      (h : Draining il (windowRows il.depth il.n il.symbolSize acc) p)
      (hp : popped = (windowOut il.depth il.n il.symbolSize acc).take p)

/-- The invariant of a run. -/
structure WindowInv (depth n ss : Nat) (st : Interleaver × History) : Prop where
  depthEq : st.1.depth = depth
  nEq : st.1.n = n
  sizeEq : st.1.symbolSize = ss
  current : Current st.1 st.2.accepted st.2.popped
  closed : ∀ w ∈ st.2.closed, Fits depth n w.1 ∧ w.2 = windowOut depth n ss w.1

/-- A window that is read out is closed to pushes and ticks. -/
theorem push_draining {il : Interleaver} (hready : il.ready = true) (sym : Symbol)
    (now : Nat) : interleaverPushSymbol il sym now = (-1, il) := by
  rw [interleaverPushSymbol, if_pos hready]

theorem tick_draining {il : Interleaver} (hready : il.ready = true) (now : Nat) :
    interleaverTick il now = (0, il) := by
  rcases tick_cases il now with hsame | ⟨hno, -⟩
  · exact hsame
  · rw [hready] at hno
    exact nomatch hno

theorem pop_collects {il : Interleaver} (hready : il.ready = false) :
    interleaverPopReadySymbol il = none := by
  rw [interleaverPopReadySymbol, hready]
  rfl

section Step

variable {depth n ss : Nat} {il : Interleaver} {hist : History}

theorem windowInv_push (sym : Symbol) (now : Nat) (hn : n ≤ 2 ^ 31)
    (h : WindowInv depth n ss (il, hist)) :
    WindowInv depth n ss (windowStep (il, hist) (.push sym now)) := by
  obtain ⟨acc, popped, closed⟩ := hist
  obtain ⟨hdepth, hnn, hss, hcur, hclosed⟩ := h
  dsimp only at hdepth hnn hss hcur hclosed
  rw [windowStep]
  cases hcur with
  | draining p hfits hdr hp =>
      rw [push_draining hdr.ready]
      exact ⟨hdepth, hnn, hss, .draining p hfits hdr hp, hclosed⟩
  | collecting hc hp =>
      have hres := push_collects hc sym now (by rw [hnn]; exact hn)
      dsimp only
      generalize interleaverPushSymbol il sym now = r at hres ⊢
      cases hres with
      | rejected =>
          rw [if_pos (.inl rfl)]
          exact ⟨hdepth, hnn, hss, .collecting hc hp, hclosed⟩
      | duplicate hd =>
          rw [if_pos (.inr hd)]
          exact ⟨hdepth, hnn, hss, .collecting hc hp, hclosed⟩
      | @stored il' hd hs hc' =>
          rw [if_neg (by rw [hd]; rintro (h | h) <;> exact nomatch h)]
          exact ⟨hs.depth.trans hdepth, hs.n.trans hnn, hs.symbolSize.trans hss,
            .collecting hc' hp, hclosed⟩
      | @closed il' hd hs hfits hdr =>
          rw [if_neg (by rw [hd]; rintro (h | h) <;> exact nomatch h)]
          exact ⟨hs.depth.trans hdepth, hs.n.trans hnn, hs.symbolSize.trans hss,
            .draining 0 hfits hdr (by rw [hp]; rfl), hclosed⟩

theorem windowInv_tick (now : Nat) (hn : 0 < n) (h : WindowInv depth n ss (il, hist)) :
    WindowInv depth n ss (windowStep (il, hist) (.tick now)) := by
  obtain ⟨acc, popped, closed⟩ := hist
  obtain ⟨hdepth, hnn, hss, hcur, hclosed⟩ := h
  dsimp only at hdepth hnn hss hcur hclosed
  rw [windowStep]
  cases hcur with
  | draining p hfits hdr hp =>
      rw [tick_draining hdr.ready]
      exact ⟨hdepth, hnn, hss, .draining p hfits hdr hp, hclosed⟩
  | collecting hc hp =>
      dsimp only
      rcases tick_collects now hc (by rw [hnn]; exact hn) with he | ⟨hs, hdr⟩
      · rw [he]
        exact ⟨hdepth, hnn, hss, .collecting hc hp, hclosed⟩
      · refine ⟨hs.depth.trans hdepth, hs.n.trans hnn, hs.symbolSize.trans hss, ?_, hclosed⟩
        rw [← hs.depth, ← hs.n, ← hs.symbolSize] at hdr
        have hfits := hc.rows.fits
        rw [← hs.depth, ← hs.n] at hfits
        exact .draining 0 hfits hdr (by rw [hp]; rfl)

theorem windowInv_pop (hn : 0 < n) (h : WindowInv depth n ss (il, hist)) :
    WindowInv depth n ss (windowStep (il, hist) .pop) := by
  obtain ⟨acc, popped, closed⟩ := hist
  obtain ⟨hdepth, hnn, hss, hcur, hclosed⟩ := h
  dsimp only at hdepth hnn hss hcur hclosed
  rw [windowStep]
  cases hcur with
  | collecting hc hp =>
      rw [pop_collects hc.notReady]
      exact ⟨hdepth, hnn, hss, .collecting hc hp, hclosed⟩
  | draining p hfits hdr hp =>
      obtain ⟨last, il', hpop, hs, hnext⟩ := pop_draining hdr
      have hsym := windowSymbol_rows il.symbolSize acc hdr.left
      have htake : popped ++ [windowSymbol il.depth il.symbolSize
          (windowRows il.depth il.n il.symbolSize acc) p]
          = (windowOut il.depth il.n il.symbolSize acc).take (p + 1) := by
        rw [List.take_add_one, hsym, ← hp]
        rfl
      dsimp only
      rw [hpop]
      rcases hnext with ⟨-, rfl, hdr'⟩ | ⟨hlast, rfl, hholds⟩
      · dsimp only
        rw [htake]
        refine ⟨hs.depth.trans hdepth, hs.n.trans hnn, hs.symbolSize.trans hss, ?_, hclosed⟩
        rw [← hs.depth, ← hs.n] at hfits
        rw [← hs.depth, ← hs.n, ← hs.symbolSize] at hdr' ⊢
        exact .draining (p + 1) hfits hdr' rfl
      · dsimp only
        rw [htake]
        have hn' : 0 < il'.n := by
          rw [hs.n, hnn]
          exact hn
        refine ⟨hs.depth.trans hdepth, hs.n.trans hnn, hs.symbolSize.trans hss,
          .collecting (collects_nil hholds hn') rfl, ?_⟩
        intro w hw
        rcases List.mem_append.mp hw with hw | hw
        · exact hclosed w hw
        · rw [List.mem_singleton.mp hw]
          have hlen : (windowOut il.depth il.n il.symbolSize acc).length = p + 1 := by
            rw [windowOut, readOut_length, hlast]
          dsimp only
          rw [List.take_of_length_le (Nat.le_of_eq hlen), hdepth, hnn, hss]
          rw [hdepth, hnn] at hfits
          exact ⟨hfits, rfl⟩

end Step

/-- **One call** keeps the invariant. -/
theorem windowInv_step {depth n ss : Nat} {st : Interleaver × History} (op : WindowOp)
    (hn : 0 < n) (hn31 : n ≤ 2 ^ 31) (h : WindowInv depth n ss st) :
    WindowInv depth n ss (windowStep st op) := by
  cases op with
  | push sym now => exact windowInv_push sym now hn31 h
  | tick now => exact windowInv_tick now hn h
  | pop => exact windowInv_pop hn h

theorem windowInv_run (ops : List WindowOp) {depth n ss : Nat} {st : Interleaver × History}
    (hn : 0 < n) (hn31 : n ≤ 2 ^ 31) (h : WindowInv depth n ss st) :
    WindowInv depth n ss (ops.foldl windowStep st) := by
  induction ops generalizing st with
  | nil => exact h
  | cons op ops ih => exact ih (windowInv_step op hn hn31 h)

/-- The invariant holds at first. -/
theorem windowInv_create {mem : Nat → Nat → Symbol} {depth n ss flush : Nat}
    {il : Interleaver} (hil : interleaverCreate mem depth n ss flush = some il) :
    0 < n ∧ n ≤ 256 ∧ WindowInv depth n ss (il, ({} : History)) := by
  rw [interleaverCreate] at hil
  split at hil
  · exact nomatch hil
  rename_i hbad
  have hmax : maxSymbolsPerBlock = 256 := rfl
  have hn : 0 < n := by omega
  have hd : 0 < depth := by omega
  obtain rfl := Option.some.inj hil
  refine ⟨hn, by omega, rfl, rfl, rfl, ?_, fun w hw => nomatch hw⟩
  exact .collecting (collects_nil (holds_reset hd) hn) rfl

/-! ## The windows of a run -/

/-- `out` is the window of the symbols `acc`: `depth * n` symbols, in column
    order; every accepted symbol at its own place, row of its block in arrival
    order and column `fec_id`, and padding at every other place. -/
structure ColumnMajor (depth n ss : Nat) (acc out : List Symbol) : Prop where
  length : out.length = depth * n
  once : acc.Pairwise fun x y => placeOf Symbol.packetId column depth acc x
    ≠ placeOf Symbol.packetId column depth acc y
  inside : ∀ s ∈ acc, rowOf Symbol.packetId acc s < depth ∧ column s < n
  symbol : ∀ s ∈ acc, out[column s * depth + rowOf Symbol.packetId acc s]?
    = some (clipSymbol ss s)
  padding : ∀ r c, r < depth → c < n →
    (∀ s ∈ acc, ¬ (rowOf Symbol.packetId acc s = r ∧ column s = c)) →
    out[c * depth + r]? = some (paddingSymbol n ss (blockKeys acc)[r]? c)

theorem columnMajor_windowOut {depth n : Nat} (ss : Nat) {acc : List Symbol}
    (h : Fits depth n acc) : ColumnMajor depth n ss acc (windowOut depth n ss acc) where
  length := readOut_length acc
  once := by
    refine List.Pairwise.imp_of_mem ?_ h.distinct
    intro x y hx hy hne heq
    exact hne (placeOf_inj hx hy h.rows heq)
  inside := fun s hs =>
    ⟨Nat.lt_of_lt_of_le (rowOf_lt Symbol.packetId hs) h.rows, h.cols s hs⟩
  symbol := fun s hs => readOut_item h.distinct hs h.rows (h.cols s hs)
  padding := fun r c hr hc hfree => readOut_pad hr hc hfree

/-- **Column-major windows.**  In every run of an interleaver, whatever the
    matrix held at first: a window that was popped to its end gave back the
    symbols accepted into it, each once and at its cell, with padding in every
    other cell; the window that is being popped gives back an initial part of
    that; and a push that returns `-1` or is a duplicate changes nothing. -/
theorem column_major_windows {mem : Nat → Nat → Symbol} {depth n ss flush : Nat}
    {il : Interleaver} (hil : interleaverCreate mem depth n ss flush = some il)
    (ops : List WindowOp) :
    let st := windowRun il ops
    (∀ w ∈ st.2.closed, ColumnMajor depth n ss w.1 w.2) ∧
    (∃ out, ColumnMajor depth n ss st.2.accepted out ∧ st.2.popped <+: out ∧
      (st.1.ready = false → st.2.popped = [])) ∧
    ∀ sym now, (interleaverPushSymbol st.1 sym now).1 = -1 ∨
        isDuplicate st.2.accepted sym = true →
      (interleaverPushSymbol st.1 sym now).2 = st.1 := by
  intro st
  obtain ⟨hn, hn256, h0⟩ := windowInv_create hil
  have hn31 : n ≤ 2 ^ 31 := by omega
  have h : WindowInv depth n ss st := windowInv_run ops hn hn31 h0
  obtain ⟨hdepth, hnn, hss, hcur, hclosed⟩ := h
  refine ⟨?_, ?_, ?_⟩
  · intro w hw
    obtain ⟨hfits, hout⟩ := hclosed w hw
    rw [hout]
    exact columnMajor_windowOut ss hfits
  · cases hcur with
    | collecting hc hp =>
        have hfits := hc.rows.fits
        rw [hdepth, hnn] at hfits
        exact ⟨_, columnMajor_windowOut ss hfits, by rw [hp]; exact List.nil_prefix,
          fun _ => hp⟩
    | draining p hfits hdr hp =>
        rw [hdepth, hnn] at hfits
        rw [hdepth, hnn, hss] at hp
        refine ⟨_, columnMajor_windowOut ss hfits, ?_, ?_⟩
        · rw [hp]
          exact List.take_prefix p _
        · intro hr
          rw [hdr.ready] at hr
          exact nomatch hr
  · intro sym now hpush
    cases hcur with
    | draining p hfits hdr hp => rw [push_draining hdr.ready]
    | collecting hc hp =>
        have hres := push_collects hc sym now (by rw [hnn]; exact hn31)
        generalize interleaverPushSymbol st.1 sym now = r at hres hpush ⊢
        cases hres with
        | rejected => rfl
        | duplicate hdup => rfl
        | stored hdup hs hc' =>
            rw [hdup] at hpush
            rcases hpush with hpush | hpush <;> exact nomatch hpush
        | closed hdup hs hfits hdr =>
            rw [hdup] at hpush
            rcases hpush with hpush | hpush <;> exact nomatch hpush

/-- Symbol `f` of block `b`, one byte. -/
def cellSymbol (b f : UInt32) (x : UInt8) : Symbol :=
  { symbolInit with packetId := b, fecId := f, payloadLen := 1, data := fun _ => x }

/-- Two blocks of two symbols, out of order and with a duplicate, are popped;
    a block of the next window is pushed and rejected while they are. -/
def twoByTwoRun : List WindowOp :=
  [.push (cellSymbol 8 1 4) 0, .push (cellSymbol 7 0 5) 1, .push (cellSymbol 8 1 9) 2,
    .push (cellSymbol 8 0 3) 3, .push (cellSymbol 7 1 6) 4, .pop, .push (cellSymbol 9 0 1) 5,
    .pop, .pop, .pop, .push (cellSymbol 9 0 1) 6]

theorem column_major_two_by_two :
    let il := (interleaverCreate (fun _ _ => cellSymbol 5 5 5) 2 2 1 0).get rfl
    let st := windowRun il twoByTwoRun
    (∀ w ∈ st.2.closed, ColumnMajor 2 2 1 w.1 w.2) ∧
      st.2.closed.map (fun w => (w.1.map (·.packetId), w.2.map (·.packetId)))
        = [([8, 7, 8, 7], [8, 7, 8, 7])] ∧
      st.2.closed.map (fun w => (w.1.map (·.fecId), w.2.map (·.fecId)))
        = [([1, 0, 0, 1], [0, 0, 1, 1])] := by
  intro il st
  have hil : interleaverCreate (fun _ _ => cellSymbol 5 5 5) 2 2 1 0 = some il :=
    (Option.some_get _).symm
  have h := column_major_windows hil twoByTwoRun
  exact ⟨h.1, by decide +kernel, by decide +kernel⟩

end FsoInterleaver
