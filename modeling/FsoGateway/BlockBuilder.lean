import FsoGateway.Types

/-! # The block builder

    Accumulates source symbols until there are `k`; a partial block is
    completed with zero symbols.  Clock readings are arguments. -/

namespace FsoBlockBuilder

open ByteBuffer FsoTypes

/-- `block_builder_t`. -/
structure BlockBuilder where
  blockId : UInt64
  symbolCount : Nat
  kLimit : Nat
  symbolSize : Nat
  symbols : Nat → Symbol
  firstActivity : Nat

/-- `block_builder_init`; allocation succeeds. -/
def blockBuilderInit (k symbolSize : Nat) : Option BlockBuilder :=
  if k = 0 ∨ symbolSize = 0 then none
  else
    some
      { blockId := 1, symbolCount := 0, kLimit := k, symbolSize,
        symbols := fun _ => symbolInit, firstActivity := 0 }

/-- `block_builder_add_symbol`. -/
def blockBuilderAddSymbol (bb : BlockBuilder) (sym : Symbol) (now : Nat) :
    Int × BlockBuilder :=
  if bb.kLimit = 0 then (-1, bb)
  else if bb.kLimit ≤ bb.symbolCount then (-1, bb)
  else
    let bb :=
      { bb with
        symbols := Function.update bb.symbols bb.symbolCount
          (copySymbol (bb.symbols bb.symbolCount) sym bb.symbolSize)
        symbolCount := bb.symbolCount + 1
        -- only the first symbol starts the clock
        firstActivity := if bb.symbolCount = 0 then now else bb.firstActivity }
    (if bb.symbolCount = bb.kLimit then 1 else 0, bb)

/-- `block_builder_elapsed_ms`: it can be negative. -/
def blockBuilderElapsedMs (start stop : Nat) : ℚ := diffMs start stop

/-- `block_builder_check_timeout`. -/
def blockBuilderCheckTimeout (bb : BlockBuilder) (timeoutMs : ℚ) (now : Nat) : Int :=
  if timeoutMs < 0 then -1
  else if bb.symbolCount = 0 then 0
  else if timeoutMs ≤ blockBuilderElapsedMs bb.firstActivity now then 1
  else 0

/-- A padding symbol: the header and `symbolSize` bytes cleared. -/
def paddingSymbol (d : Symbol) (symbolSize : Nat) : Symbol :=
  { symbolInit with data := memzero d.data symbolSize }

/-- `block_builder_finalize_with_padding`. -/
def blockBuilderFinalizeWithPadding (bb : BlockBuilder) : BlockBuilder :=
  if bb.kLimit = 0 then bb
  else if bb.kLimit < bb.symbolCount then bb
  else
    { bb with
      symbols := fun i =>
        if bb.symbolCount ≤ i ∧ i < bb.kLimit then
          paddingSymbol (bb.symbols i) bb.symbolSize
        else bb.symbols i
      symbolCount := bb.kLimit }

/-- `block_builder_reset`. -/
def blockBuilderReset (bb : BlockBuilder) : BlockBuilder :=
  { bb with
    symbolCount := 0
    blockId := if bb.blockId ≠ 0 then bb.blockId + 1 else 1
    firstActivity := 0 }

end FsoBlockBuilder
