import FsoGateway.Types

/-! # The deinterleaver

    The receiver's block collector.  Each slot of a fixed pool is EMPTY,
    FILLING or READY_TO_DECODE; symbols are stored at their `fec_id`, and a
    byte-packed mask remembers which positions were filled.  `slot_reset` and
    `init_slot` clear the mask and the `packet_id` of the `N` positions but
    no other field of `symbols[]`: that residue is read again by
    `drain_ready_blocks`.

    Clock readings are arguments.  The two callbacks are recorded in
    `cbLog`, in the order in which they are called. -/

namespace FsoDeinterleaver

open ByteBuffer FsoTypes

/-- `block_state_t`. -/
inductive BlockState where
  | empty
  | filling
  | readyToDecode
  deriving DecidableEq, Repr

/-- `deinterleaver_block_final_reason_t`. -/
inductive BlockFinalReason where
  | none
  | decodeSuccess
  | decodeFailed
  | discardedTimeoutBeforeDecode
  | discardedTooManyHolesBeforeDecode
  | discardedEvictedBeforeDecode
  | discardedReadyEvictedBeforeMark
  deriving DecidableEq, Repr

/-- One call of a registered callback. -/
inductive CbCall where
  | final (blockId : UInt32) (reason : BlockFinalReason)
  | eviction (blockId : UInt32) (reason : BlockFinalReason)
  deriving DecidableEq, Repr

/-- `dil_stats_t`. -/
structure DilStats where
  droppedSymbolsDuplicate : Nat := 0
  droppedSymbolsFrozen : Nat := 0
  droppedSymbolsErasure : Nat := 0
  droppedSymbolsCrcFail : Nat := 0
  evictedFillingBlocks : Nat := 0
  evictedDoneBlocks : Nat := 0
  blocksReady : Nat := 0
  blocksFailedTimeout : Nat := 0
  blocksFailedHoles : Nat := 0
  deriving DecidableEq, Repr

/-- `slot_t`, with the `block_t` it points to. -/
structure Slot where
  state : BlockState
  blockId : UInt32
  validSymbols : Nat
  firstSymTime : Nat
  lastSymTime : Nat
  receivedMask : Bitset.Mask
  block : Block

/-- `struct deinterleaver`. -/
structure Deinterleaver where
  maxActiveBlocks : Nat
  symbolsPerBlock : Nat
  k : Nat
  m : Nat
  symbolSize : Nat
  stabilizationMs : ℚ
  blockMaxAgeMs : ℚ
  slots : Nat → Slot
  stats : DilStats
  finalCb : Bool
  evictionCb : Bool
  cbLog : List CbCall

/-- The bits of `received_mask`, `8 * MASK_BYTES`. -/
def maskBits : Nat := 8 * (maxSymbolsPerBlock / 8 + 1)

/-! ## Slots -/

/-- A slot as `calloc` leaves it. -/
def slotZero : Slot where
  state := .empty
  blockId := 0
  validSymbols := 0
  firstSymTime := 0
  lastSymTime := 0
  receivedMask := Bitset.clear
  block := ⟨0, 0, 0, 0, fun _ => symbolInit⟩

/-- `slot_reset`: the metadata only, `symbols[]` is left as it is. -/
def slotReset (s : Slot) : Slot where
  state := .empty
  blockId := 0
  validSymbols := 0
  firstSymTime := 0
  lastSymTime := 0
  receivedMask := Bitset.clear
  block :=
    { s.block with blockId := 0, symbolCount := 0, symbolsPerBlock := 0, kLimit := 0 }

/-- `init_slot`: the mask is not touched, and of `symbols[]` only the
    `packet_id` of the first `n` positions is cleared. -/
def initSlot (s : Slot) (blockId : UInt32) (n k : Nat) (now : Nat) : Slot :=
  { s with
    state := .filling
    blockId := blockId
    validSymbols := 0
    firstSymTime := now
    lastSymTime := now
    block :=
      { blockId := blockId.toUInt64
        symbolCount := 0
        symbolsPerBlock := n
        kLimit := k
        symbols := fun i =>
          if i < n then { s.block.symbols i with packetId := 0 }
          else s.block.symbols i } }

/-- Write one slot of the pool. -/
def setSlot (self : Deinterleaver) (i : Nat) (s : Slot) : Deinterleaver :=
  { self with slots := Function.update self.slots i s }

/-- `emit_block_final_reason`. -/
def emitBlockFinalReason (self : Deinterleaver) (blockId : UInt32)
    (reason : BlockFinalReason) : Deinterleaver :=
  if reason = .none then self
  else if self.finalCb then
    { self with cbLog := self.cbLog ++ [.final blockId reason] }
  else self

/-- `finalize_and_reset_slot`. -/
def finalizeAndResetSlot (self : Deinterleaver) (i : Nat)
    (reason : BlockFinalReason) : Deinterleaver :=
  if (self.slots i).state = .empty then self
  else
    setSlot (emitBlockFinalReason self (self.slots i).blockId reason) i
      (slotReset (self.slots i))

/-- `find_slot_any`: the first non-EMPTY slot with this block id. -/
def findSlotAny (self : Deinterleaver) (blockId : UInt32) : Option Nat :=
  (List.range self.maxActiveBlocks).find? fun i =>
    decide ((self.slots i).state ≠ .empty) && (self.slots i).blockId == blockId

/-! ## Slot allocation -/

/-- The candidates `alloc_slot` collects in its scan. -/
structure AllocScan where
  freeSlot : Option Nat
  oldestReady : Option Nat
  oldestReadyAge : ℚ
  oldestFilling : Option Nat
  oldestFillAge : ℚ

/-- One turn of the scan. -/
def allocScanStep (self : Deinterleaver) (now : Nat) (a : AllocScan) (i : Nat) :
    AllocScan :=
  let age := elapsedMs (self.slots i).firstSymTime now
  match (self.slots i).state with
  | .empty => if a.freeSlot = none then { a with freeSlot := some i } else a
  | .readyToDecode =>
      if a.oldestReadyAge < age then
        { a with oldestReady := some i, oldestReadyAge := age }
      else a
  | .filling =>
      if a.oldestFillAge < age then
        { a with oldestFilling := some i, oldestFillAge := age }
      else a

def allocScan (self : Deinterleaver) (now : Nat) : AllocScan :=
  (List.range self.maxActiveBlocks).foldl (allocScanStep self now)
    ⟨none, none, -1, none, -1⟩

/-- The call of the eviction callback, when one is registered. -/
def emitEviction (self : Deinterleaver) (blockId : UInt32)
    (reason : BlockFinalReason) : Deinterleaver :=
  if self.evictionCb then
    { self with cbLog := self.cbLog ++ [.eviction blockId reason] }
  else self

/-- `init_slot` on one slot of the pool. -/
def initSlotAt (self : Deinterleaver) (i : Nat) (blockId : UInt32) (now : Nat) :
    Deinterleaver :=
  setSlot self i (initSlot (self.slots i) blockId self.symbolsPerBlock self.k now)

/-- The body the two eviction branches of `alloc_slot` share: count, call
    back, finalise, open the slot again for the incoming block. -/
def evictSlot (self : Deinterleaver) (victim : Nat) (stats : DilStats)
    (reason : BlockFinalReason) (blockId : UInt32) (now : Nat) : Deinterleaver :=
  let self := { self with stats := stats }
  let self := emitEviction self (self.slots victim).blockId reason
  let self := finalizeAndResetSlot self victim reason
  initSlotAt self victim blockId now

/-- `alloc_slot`: an EMPTY slot, else the oldest READY_TO_DECODE one, else
    the oldest FILLING one. -/
def allocSlot (self : Deinterleaver) (blockId : UInt32) (now : Nat) :
    Option Nat × Deinterleaver :=
  let a := allocScan self now
  match a.freeSlot, a.oldestReady, a.oldestFilling with
  | some i, _, _ =>
      (some i, initSlotAt (setSlot self i (slotReset (self.slots i))) i blockId now)
  | none, some i, _ =>
      (some i, evictSlot self i
        { self.stats with evictedDoneBlocks := self.stats.evictedDoneBlocks + 1 }
        .discardedReadyEvictedBeforeMark blockId now)
  | none, none, some i =>
      (some i, evictSlot self i
        { self.stats with evictedFillingBlocks := self.stats.evictedFillingBlocks + 1 }
        .discardedEvictedBeforeDecode blockId now)
  | none, none, none => (none, self)

/-! ## Leaving FILLING -/

/-- `FREEZE_NONE`, `FREEZE_READY`, `FREEZE_RECYCLE`. -/
inductive FreezeRc where
  | none
  | ready
  | recycle
  deriving DecidableEq, Repr

/-- The exit READY_TO_DECODE. -/
def freezeReady (s : Slot) (stats : DilStats) : FreezeRc × Slot × DilStats :=
  (.ready, { s with state := .readyToDecode },
    { stats with blocksReady := stats.blocksReady + 1 })

/-- `maybe_freeze_slot`: (a) full, (b) stabilised or promoted at once,
    (c) hard timeout. -/
def maybeFreezeSlot (s : Slot) (n k m : Nat) (stabMs timeoutMs : ℚ) (now : Nat)
    (stats : DilStats) : FreezeRc × Slot × DilStats :=
  let holes := n - s.validSymbols
  let failedHoles := { stats with blocksFailedHoles := stats.blocksFailedHoles + 1 }
  let failedTimeout :=
    { stats with blocksFailedTimeout := stats.blocksFailedTimeout + 1 }
  if s.state ≠ .filling then (.none, s, stats)
  else if s.validSymbols = n then freezeReady s stats
  else if k ≤ s.validSymbols ∧
      (stabMs = 0 ∨ stabMs ≤ elapsedMs s.lastSymTime now) then
    if m < holes then (.recycle, s, failedHoles) else freezeReady s stats
  else if timeoutMs ≤ elapsedMs s.firstSymTime now then
    if k ≤ s.validSymbols ∧ holes ≤ m then freezeReady s stats
    else if m < holes then (.recycle, s, failedHoles)
    else (.recycle, s, failedTimeout)
  else (.none, s, stats)

/-- `maybe_freeze_slot` on one slot of the pool and, when it says RECYCLE,
    the discard that both callers make. -/
def settleSlot (self : Deinterleaver) (i : Nat) (timeoutMs : ℚ) (now : Nat) :
    FreezeRc × Deinterleaver :=
  let r := maybeFreezeSlot (self.slots i) self.symbolsPerBlock self.k self.m
    self.stabilizationMs timeoutMs now self.stats
  let self := { setSlot self i r.2.1 with stats := r.2.2 }
  if r.1 = .recycle then
    let holes := self.symbolsPerBlock - (self.slots i).validSymbols
    (r.1, finalizeAndResetSlot self i
      (if self.m < holes then .discardedTooManyHolesBeforeDecode
       else .discardedTimeoutBeforeDecode))
  else (r.1, self)

/-! ## Lifecycle -/

/-- `deinterleaver_create`; allocation succeeds. -/
def deinterleaverCreate (maxActiveBlocks symbolsPerBlock k symbolSize : Nat)
    (stabilizationMs blockMaxAgeMs : ℚ) : Option Deinterleaver :=
  if maxActiveBlocks < 1 ∨ symbolsPerBlock < 1 ∨
      maxSymbolsPerBlock < symbolsPerBlock ∨ k < 1 ∨ symbolsPerBlock ≤ k ∨
      symbolSize = 0 then none
  else
    some
      { maxActiveBlocks, symbolsPerBlock, k, m := symbolsPerBlock - k, symbolSize,
        stabilizationMs, blockMaxAgeMs, slots := fun _ => slotZero, stats := {},
        finalCb := false, evictionCb := false, cbLog := [] }

/-- `deinterleaver_set_block_final_callback` with a callback. -/
def deinterleaverSetBlockFinalCallback (self : Deinterleaver) : Deinterleaver :=
  { self with finalCb := true }

/-- `deinterleaver_set_eviction_callback` with a callback. -/
def deinterleaverSetEvictionCallback (self : Deinterleaver) : Deinterleaver :=
  { self with evictionCb := true }

/-! ## Introspection -/

/-- `deinterleaver_active_blocks`. -/
def deinterleaverActiveBlocks (self : Deinterleaver) : Nat :=
  (List.range self.maxActiveBlocks).countP fun i =>
    decide ((self.slots i).state ≠ .empty)

/-- `deinterleaver_ready_count`. -/
def deinterleaverReadyCount (self : Deinterleaver) : Nat :=
  (List.range self.maxActiveBlocks).countP fun i =>
    decide ((self.slots i).state = .readyToDecode)

/-- `deinterleaver_inc_crc_drop`. -/
def deinterleaverIncCrcDrop (self : Deinterleaver) : Deinterleaver :=
  { self with stats :=
    { self.stats with droppedSymbolsCrcFail := self.stats.droppedSymbolsCrcFail + 1 } }

/-! ## Ingestion -/

/-- The hard timeout in force when the caller does not override it. -/
def defaultTimeoutMs (self : Deinterleaver) : ℚ :=
  if 0 < self.blockMaxAgeMs then self.blockMaxAgeMs else 1000000000000000

/-- The slot after a symbol went into position `fec_id`. -/
def slotStore (s : Slot) (sym : Symbol) (symbolSize now : Nat) : Slot :=
  { s with
    receivedMask := Bitset.set s.receivedMask sym.fecId.toNat
    validSymbols := s.validSymbols + 1
    lastSymTime := now
    block :=
      { s.block with
        symbolCount := s.validSymbols + 1
        symbols := Function.update s.block.symbols sym.fecId.toNat
          (copySymbol (s.block.symbols sym.fecId.toNat) sym symbolSize) } }

/-- The tail of `push_symbol`: duplicate check, store, evaluate the exits. -/
def storeSymbol (self : Deinterleaver) (i : Nat) (sym : Symbol) (now : Nat) :
    Int × Deinterleaver :=
  if Bitset.test (self.slots i).receivedMask sym.fecId.toNat then
    (0, { self with stats :=
      { self.stats with
        droppedSymbolsDuplicate := self.stats.droppedSymbolsDuplicate + 1 } })
  else
    let self := setSlot self i (slotStore (self.slots i) sym self.symbolSize now)
    let r := settleSlot self i (defaultTimeoutMs self) now
    (if r.1 = .ready then 1 else 0, r.2)

/-- The erasure sentinel of the interleaver's padding. -/
def isErasure (sym : Symbol) : Bool :=
  sym.packetId == 0 && sym.payloadLen == 0

/-- The two header checks of `push_symbol` that return `-1`. -/
def isRejected (self : Deinterleaver) (sym : Symbol) : Bool :=
  decide (self.symbolSize < sym.payloadLen.toNat) ||
    decide (toInt sym.fecId < 0) ||
    decide ((self.symbolsPerBlock : Int) ≤ toInt sym.fecId)

/-- `deinterleaver_push_symbol`. -/
def deinterleaverPushSymbol (self : Deinterleaver) (sym : Symbol) (now : Nat) :
    Int × Deinterleaver :=
  if isErasure sym then
    (0, { self with stats :=
      { self.stats with
        droppedSymbolsErasure := self.stats.droppedSymbolsErasure + 1 } })
  else if isRejected self sym then (-1, self)
  else
    match findSlotAny self sym.packetId with
    | none =>
        match allocSlot self sym.packetId now with
        | (none, self) => (if 0 < deinterleaverReadyCount self then 1 else -1, self)
        | (some i, self) => storeSymbol self i sym now
    | some i =>
        if (self.slots i).state ≠ .filling then
          (0, { self with stats :=
            { self.stats with
              droppedSymbolsFrozen := self.stats.droppedSymbolsFrozen + 1 } })
        else storeSymbol self i sym now

/-! ## Retrieval and acknowledgment -/

/-- The first READY_TO_DECODE slot. -/
def findReady (self : Deinterleaver) : Option Nat :=
  (List.range self.maxActiveBlocks).find? fun i =>
    decide ((self.slots i).state = .readyToDecode)

/-- `deinterleaver_get_ready_block`: a pointer into the pool; only a
    `symbols_per_block` of zero would be corrected on the way. -/
def deinterleaverGetReadyBlock (self : Deinterleaver) :
    Option Block × Deinterleaver :=
  match findReady self with
  | none => (none, self)
  | some i =>
      let s := self.slots i
      let b :=
        if s.block.symbolsPerBlock = 0 then
          { s.block with symbolsPerBlock := self.symbolsPerBlock }
        else s.block
      (some b, setSlot self i { s with block := b })

/-- `deinterleaver_mark_result`. -/
def deinterleaverMarkResult (self : Deinterleaver) (blockId : UInt32)
    (success : Bool) : Int × Deinterleaver :=
  match findSlotAny self blockId with
  | none => (-1, self)
  | some i =>
      if (self.slots i).state ≠ .readyToDecode then (-1, self)
      else
        (0, finalizeAndResetSlot self i
          (if success then .decodeSuccess else .decodeFailed))

/-! ## Tick -/

/-- The hard timeout of a tick. -/
def tickTimeoutMs (self : Deinterleaver) (overrideTimeoutMs : ℚ) : ℚ :=
  if 0 < overrideTimeoutMs then overrideTimeoutMs
  else if overrideTimeoutMs = 0 then 0
  else defaultTimeoutMs self

/-- One turn of the loop over the pool. -/
def tickStep (timeoutMs : ℚ) (now : Nat) (acc : Nat × Deinterleaver) (i : Nat) :
    Nat × Deinterleaver :=
  if (acc.2.slots i).state ≠ .filling then acc
  else
    let r := settleSlot acc.2 i timeoutMs now
    (if r.1 = .none then acc.1 else acc.1 + 1, r.2)

/-- `deinterleaver_tick`, with the number of transitions it returns. -/
def deinterleaverTick (self : Deinterleaver) (overrideTimeoutMs : ℚ) (now : Nat) :
    Nat × Deinterleaver :=
  (List.range self.maxActiveBlocks).foldl
    (tickStep (tickTimeoutMs self overrideTimeoutMs) now) (0, self)

end FsoDeinterleaver
