import FsoGateway.Types

/-! # The interleaver

    A matrix of `depth` rows and `n` columns.  A block is written into one
    row, symbol `fec_id` into column `fec_id`; when all rows are complete, or
    the flush timeout has padded the others, the window is read out column by
    column and reset.  `reset_window` leaves the matrix as it is. -/

namespace FsoInterleaver

open ByteBuffer FsoTypes

/-- `slot_meta_t`. -/
structure SlotMeta where
  symbolCount : Nat
  occupied : Bool
  receivedMask : Bitset.Mask

/-- `struct interleaver`; `matrix row col` is `cell(il, row, col)`. -/
structure Interleaver where
  depth : Nat
  n : Nat
  symbolSize : Nat
  matrix : Nat → Nat → Symbol
  slots : Nat → SlotMeta
  rowBlockKey : Nat → UInt32
  rowAssigned : Nat → Bool
  windowBlockCount : Nat
  flushTimeoutMs : Nat
  windowStart : Nat
  windowHasData : Bool
  completeSlots : Nat
  popCol : Nat
  popRow : Nat
  ready : Bool

/-- A row's metadata after `memset`. -/
def slotMetaZero : SlotMeta := ⟨0, false, Bitset.clear⟩

/-- `reset_window`. -/
def resetWindow (il : Interleaver) : Interleaver :=
  { il with
    slots := fun _ => slotMetaZero
    rowBlockKey := fun _ => 0
    rowAssigned := fun _ => false
    windowBlockCount := 0
    windowStart := 0
    windowHasData := false
    completeSlots := 0
    popCol := 0
    popRow := 0
    ready := false }

/-- `interleaver_create`; allocation succeeds and hands out `mem`, whose
    contents are arbitrary, as the matrix. -/
def interleaverCreate (mem : Nat → Nat → Symbol) (depth kPlusM symbolSize
    flushTimeoutMs : Nat) : Option Interleaver :=
  if depth < 1 ∨ kPlusM < 1 ∨ maxSymbolsPerBlock < kPlusM ∨ symbolSize = 0 then none
  else
    some (resetWindow
      { depth, n := kPlusM, symbolSize, matrix := mem, slots := fun _ => slotMetaZero,
        rowBlockKey := fun _ => 0, rowAssigned := fun _ => false,
        windowBlockCount := 0, flushTimeoutMs, windowStart := 0,
        windowHasData := false, completeSlots := 0, popCol := 0, popRow := 0,
        ready := false })

/-- `find_row_for_block_key`. -/
def findRowForBlockKey (il : Interleaver) (blockKey : UInt32) : Option Nat :=
  (List.range il.depth).find? fun row =>
    il.rowAssigned row && il.rowBlockKey row == blockKey

/-- `assign_row_for_block_key`. -/
def assignRowForBlockKey (il : Interleaver) (blockKey : UInt32) :
    Option (Nat × Interleaver) :=
  if il.depth ≤ il.windowBlockCount then none
  else
    let row := il.windowBlockCount % il.depth
    some (row,
      { il with
        rowBlockKey := Function.update il.rowBlockKey row blockKey
        rowAssigned := Function.update il.rowAssigned row true
        windowBlockCount := il.windowBlockCount + 1 })

/-- `resolve_row`. -/
def resolveRow (il : Interleaver) (blockKey : UInt32) : Option (Nat × Interleaver) :=
  match findRowForBlockKey il blockKey with
  | some row => some (row, il)
  | none => assignRowForBlockKey il blockKey

/-- The padding that `force_fill_row` writes into a cell. -/
def fillSymbol (d : Symbol) (blockKey : UInt32) (n symbolSize col : Nat) : Symbol where
  packetId := blockKey
  fecId := UInt32.ofNat col
  symbolIndex := UInt16.ofNat col
  totalSymbols := UInt16.ofNat n
  payloadLen := 0
  crc32 := 0
  data := memzero d.data symbolSize

/-- One turn of the loop of `force_fill_row`: the cells of the row, its mask. -/
def forceFillCol (blockKey : UInt32) (n symbolSize : Nat)
    (acc : (Nat → Symbol) × Bitset.Mask) (col : Nat) :
    (Nat → Symbol) × Bitset.Mask :=
  if Bitset.test acc.2 col then acc
  else
    (Function.update acc.1 col (fillSymbol (acc.1 col) blockKey n symbolSize col),
      Bitset.set acc.2 col)

/-- `force_fill_row`. -/
def forceFillRow (il : Interleaver) (row : Nat) : Interleaver :=
  let blockKey := if il.rowAssigned row then il.rowBlockKey row else 0
  let filled := (List.range il.n).foldl (forceFillCol blockKey il.n il.symbolSize)
    (il.matrix row, (il.slots row).receivedMask)
  { il with
    matrix := Function.update il.matrix row filled.1
    slots := Function.update il.slots row ⟨il.n, true, filled.2⟩
    rowAssigned := Function.update il.rowAssigned row true
    rowBlockKey := Function.update il.rowBlockKey row blockKey }

/-- The store of `interleaver_push_symbol` into a free cell. -/
def storeCell (il : Interleaver) (row col : Nat) (sym : Symbol) : Interleaver :=
  { il with
    matrix := Function.update il.matrix row
      (Function.update (il.matrix row) col
        (copySymbol (il.matrix row col) sym il.symbolSize))
    slots := Function.update il.slots row
      { symbolCount := (il.slots row).symbolCount + 1
        occupied := true
        receivedMask := Bitset.set (il.slots row).receivedMask col } }

/-- `interleaver_push_symbol`. -/
def interleaverPushSymbol (il : Interleaver) (sym : Symbol) (now : Nat) :
    Int × Interleaver :=
  if il.ready then (-1, il)
  else if toInt sym.fecId < 0 ∨ (il.n : Int) ≤ toInt sym.fecId then (-1, il)
  else
    match resolveRow il sym.packetId with
    | none => (-1, il)
    | some (row, il) =>
        if il.depth ≤ row then (-1, il)
        else
          let col := sym.fecId.toNat
          let il :=
            if il.windowHasData then il
            else { il with windowStart := now, windowHasData := true }
          if Bitset.test (il.slots row).receivedMask col then (0, il)
          else
            let il := storeCell il row col sym
            if (il.slots row).symbolCount = il.n then
              let il := { il with completeSlots := il.completeSlots + 1 }
              if il.completeSlots = il.depth then
                (1, { il with ready := true, popCol := 0, popRow := 0 })
              else (0, il)
            else (0, il)

/-- One turn of the padding loop of `interleaver_tick`. -/
def fillShortRow (il : Interleaver) (row : Nat) : Interleaver :=
  if (il.slots row).symbolCount < il.n then forceFillRow il row else il

/-- `interleaver_tick`. -/
def interleaverTick (il : Interleaver) (now : Nat) : Int × Interleaver :=
  if il.flushTimeoutMs = 0 then (0, il)
  else if il.ready ∨ ¬ il.windowHasData ∨ il.completeSlots < 1 then (0, il)
  else if elapsedMs il.windowStart now < il.flushTimeoutMs then (0, il)
  else
    let il := (List.range il.depth).foldl fillShortRow il
    (1, { il with completeSlots := il.depth, ready := true, popCol := 0, popRow := 0 })

/-- `interleaver_pop_ready_symbol`: the symbol, whether it was the last of
    the window, and the interleaver after it; nothing when not ready. -/
def interleaverPopReadySymbol (il : Interleaver) :
    Option (Symbol × Bool × Interleaver) :=
  if il.ready then
    let outSym := copySymbol symbolInit (il.matrix il.popRow il.popCol) il.symbolSize
    let wrap := il.popRow + 1 = il.depth
    let il :=
      { il with
        popRow := if wrap then 0 else il.popRow + 1
        popCol := if wrap then il.popCol + 1 else il.popCol }
    if il.popCol = il.n then some (outSym, true, resetWindow il)
    else some (outSym, false, il)
  else none

/-- `interleaver_is_ready`. -/
def interleaverIsReady (il : Interleaver) : Bool := il.ready

/-- `interleaver_symbols_pending`. -/
def interleaverSymbolsPending (il : Interleaver) : Nat :=
  if il.ready then il.depth * il.n - (il.popCol * il.depth + il.popRow) else 0

end FsoInterleaver
