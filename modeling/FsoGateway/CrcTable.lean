import FsoGateway.SymbolCrc
import Mathlib.Data.List.FinRange
import Mathlib.Logic.Function.Basic

/-! # The table of the CRC

    `src/symbol.c` keeps the table of 256 words in a global array, which the
    first call that computes a CRC fills.

    * `crc32c_spec` — what any sequence of calls returns, and what any sequence
      of updates comes to, is CRC-32C as it is defined bit by bit. -/

namespace CrcTable

open FsoTypes SymbolCrc

/-! ## The globals -/

/-- `g_crc32c_table` and `g_crc32c_table_ready`. -/
structure Globals where
  table : Fin 256 → UInt32
  ready : Bool

/-- At program start. -/
def globals : Globals := ⟨fun _ => 0, false⟩

/-- `crc32c_build_table`. -/
def crc32cBuildTable (g : Globals) : Globals where
  table := (List.finRange 256).foldl
    (fun table i => Function.update table i (crc32cTable (UInt32.ofNat i))) g.table
  ready := true

/-- `(crc ^ (uint32_t)buf[i]) & 0xFFU`. -/
def tableIndex (crc : UInt32) (b : UInt8) : Fin 256 :=
  ⟨((crc ^^^ b.toUInt32) &&& 0xFF).toNat, by
    rw [UInt32.toNat_and]
    exact Nat.and_lt_two_pow _ (n := 8) (by decide)⟩

/-- `crc32c_sw_update`. -/
def crc32cSwUpdate (table : Fin 256 → UInt32) (crc : UInt32) (buf : List UInt8) : UInt32 :=
  buf.foldl (fun crc b => table (tableIndex crc b) ^^^ (crc >>> 8)) crc

/-- The check that the table is there, with which each call begins. -/
def ensureTable (g : Globals) : Globals := if g.ready then g else crc32cBuildTable g

/-- `symbol_crc32c`. -/
def symbolCrc32c (g : Globals) (data : List UInt8) : UInt32 × Globals :=
  let g := ensureTable g
  (crc32cSwUpdate g.table 0xFFFFFFFF data ^^^ 0xFFFFFFFF, g)

/-- `symbol_compute_crc_value`. -/
def symbolComputeCrcValue (g : Globals) (sym : Symbol) : UInt32 × Globals :=
  let g := ensureTable g
  let crc := crc32cSwUpdate g.table 0xFFFFFFFF (symbolSerialiseHeader sym)
  let pl := sym.payloadLen.toNat
  let crc :=
    if 0 < pl ∧ pl ≤ maxSymbolDataSize then
      crc32cSwUpdate g.table crc (ByteBuffer.bytes sym.data pl)
    else crc
  (crc ^^^ 0xFFFFFFFF, g)

/-- A call that computes a CRC. -/
inductive Call where
  | crc32c (data : List UInt8)
  | compute (sym : Symbol)

def step (g : Globals) : Call → UInt32 × Globals
  | .crc32c data => symbolCrc32c g data
  | .compute sym => symbolComputeCrcValue g sym

/-- The globals after a list of calls. -/
def after (g : Globals) (calls : List Call) : Globals := calls.foldl (fun g c => (step g c).2) g

/-- What the calls return. -/
def results (g : Globals) : List Call → List UInt32
  | [] => []
  | c :: calls => (step g c).1 :: results (step g c).2 calls

/-! ## CRC-32C -/

/-- CRC-32C: the bits of the message, the lowest of each byte first, go through
    a register that starts with ones, and all bits of it are inverted at the
    end. -/
def crc32c (data : List UInt8) : BitVec 32 :=
  Crc.serial castagnoli (BitVec.allOnes 32) ((data.map UInt8.toBitVec).flatMap Crc.byteBits)
    ^^^ BitVec.allOnes 32

/-- The bytes that a call is about. -/
def Call.input : Call → List UInt8
  | .crc32c data => data
  | .compute sym =>
    symbolSerialiseHeader sym ++
      if 0 < sym.payloadLen.toNat ∧ sym.payloadLen.toNat ≤ maxSymbolDataSize then
        ByteBuffer.bytes sym.data sym.payloadLen.toNat
      else []

/-! ## The table is built once -/

/-- The table is built, or will be. -/
def Built (g : Globals) : Prop := g.ready = true → ∀ i, g.table i = crc32cTable (UInt32.ofNat i)

/-- A loop that assigns each entry once. -/
theorem foldl_update_notMem {n : Nat} {β : Type} (f : Fin n → β) (l : List (Fin n))
    (table : Fin n → β) {i : Fin n} (hi : i ∉ l) :
    l.foldl (fun table j => Function.update table j (f j)) table i = table i := by
  induction l generalizing table with
  | nil => rfl
  | cons j l ih =>
      rw [List.mem_cons, not_or] at hi
      rw [List.foldl_cons, ih _ hi.2, Function.update_of_ne hi.1]

theorem foldl_update_mem {n : Nat} {β : Type} (f : Fin n → β) {l : List (Fin n)}
    (hl : l.Nodup) (table : Fin n → β) {i : Fin n} (hi : i ∈ l) :
    l.foldl (fun table j => Function.update table j (f j)) table i = f i := by
  induction l generalizing table with
  | nil => cases hi
  | cons j l ih =>
      obtain ⟨hj, hl⟩ := List.nodup_cons.mp hl
      rw [List.foldl_cons]
      rcases List.mem_cons.mp hi with rfl | hmem
      · rw [foldl_update_notMem f l _ hj, Function.update_self]
      · exact ih hl _ hmem

theorem built_buildTable (g : Globals) (i : Fin 256) :
    (crc32cBuildTable g).table i = crc32cTable (UInt32.ofNat i) := by
  rw [crc32cBuildTable]
  generalize hl : List.finRange 256 = l
  have hnodup : l.Nodup := hl ▸ List.nodup_finRange 256
  have hmem : i ∈ l := hl ▸ List.mem_finRange i
  exact foldl_update_mem (fun i => crc32cTable (UInt32.ofNat i)) hnodup g.table hmem

theorem ensureTable_table {g : Globals} (h : Built g) (i : Fin 256) :
    (ensureTable g).table i = crc32cTable (UInt32.ofNat i) := by
  rw [ensureTable]
  split
  · rename_i hready
    exact h hready i
  · exact built_buildTable g i

theorem built_step {g : Globals} (h : Built g) (c : Call) : Built (step g c).2 := by
  have hensure : Built (ensureTable g) := fun _ => ensureTable_table h
  cases c with
  | crc32c data => exact hensure
  | compute sym => exact hensure

theorem built_globals : Built globals := fun h => nomatch h

/-- **Every state of the program.** -/
theorem built_after {g : Globals} (h : Built g) (calls : List Call) : Built (after g calls) := by
  induction calls generalizing g with
  | nil => exact h
  | cons c calls ih => exact ih (built_step h c)

/-! ## The loop and the register -/

theorem crc32cSwUpdate_table {table : Fin 256 → UInt32}
    (h : ∀ i, table i = crc32cTable (UInt32.ofNat i)) (crc : UInt32) (buf : List UInt8) :
    crc32cSwUpdate table crc buf = SymbolCrc.crc32cSwUpdate crc buf := by
  have hentry : ∀ (crc : UInt32) (b : UInt8),
      table (tableIndex crc b) = crc32cTable ((crc ^^^ b.toUInt32) &&& 0xFF) := by
    intro crc b
    rw [h, tableIndex]
    simp only
    rw [UInt32.ofNat_toNat]
  induction buf generalizing crc with
  | nil => rfl
  | cons b buf ih =>
      rw [crc32cSwUpdate, List.foldl_cons, hentry]
      exact ih _

theorem crc32cSwUpdate_append (table : Fin 256 → UInt32) (crc : UInt32) (a b : List UInt8) :
    crc32cSwUpdate table crc (a ++ b) = crc32cSwUpdate table (crc32cSwUpdate table crc a) b :=
  List.foldl_append

/-- **The software path** is CRC-32C. -/
theorem crc32cSwUpdate_spec {table : Fin 256 → UInt32}
    (h : ∀ i, table i = crc32cTable (UInt32.ofNat i)) (data : List UInt8) :
    (crc32cSwUpdate table 0xFFFFFFFF data ^^^ 0xFFFFFFFF).toBitVec = crc32c data := by
  rw [crc32cSwUpdate_table h, UInt32.toBitVec_xor, crc32cSwUpdate_toBitVec,
    Crc.update_eq_serial castagnoli (by decide)]
  rfl

/-- **Split in any way**: successive updates are one. -/
theorem crc32cSwUpdate_flatten (table : Fin 256 → UInt32) (crc : UInt32)
    (chunks : List (List UInt8)) :
    chunks.foldl (crc32cSwUpdate table) crc = crc32cSwUpdate table crc chunks.flatten := by
  induction chunks generalizing crc with
  | nil => rfl
  | cons chunk chunks ih =>
      rw [List.foldl_cons, ih, List.flatten_cons, crc32cSwUpdate_append]

/-- What one call returns. -/
theorem step_spec {g : Globals} (h : Built g) (c : Call) :
    (step g c).1.toBitVec = crc32c c.input := by
  cases c with
  | crc32c data => exact crc32cSwUpdate_spec (ensureTable_table h) data
  | compute sym =>
      rw [← crc32cSwUpdate_spec (ensureTable_table h), Call.input, crc32cSwUpdate_append, step,
        symbolComputeCrcValue]
      simp only
      split
      · rfl
      · rfl

theorem results_spec {g : Globals} (h : Built g) (calls : List Call) :
    (results g calls).map UInt32.toBitVec = calls.map fun c => crc32c c.input := by
  induction calls generalizing g with
  | nil => rfl
  | cons c calls ih =>
      rw [results, List.map_cons, List.map_cons, step_spec h, ih (built_step h c)]

/-- **CRC-32C.**  In any sequence of calls, the first one that builds the table
    included, each returns the CRC-32C of its bytes: of the data, or of header
    and payload of the symbol.  In every state of the program the same holds of
    the updates over the pieces of a message, however it is split. -/
theorem crc32c_spec (calls : List Call) :
    (results globals calls).map UInt32.toBitVec = (calls.map fun c => crc32c c.input)
      ∧ ∀ chunks : List (List UInt8),
          (chunks.foldl (crc32cSwUpdate (ensureTable (after globals calls)).table) 0xFFFFFFFF
              ^^^ 0xFFFFFFFF).toBitVec
            = crc32c chunks.flatten := by
  refine ⟨results_spec built_globals calls, ?_⟩
  intro chunks
  rw [crc32cSwUpdate_flatten]
  exact crc32cSwUpdate_spec (ensureTable_table (built_after built_globals calls)) chunks.flatten

/-- The check value of CRC-32C, of the digits from 1 to 9. -/
example : crc32c [0x31, 0x32, 0x33, 0x34, 0x35, 0x36, 0x37, 0x38, 0x39] = 0xE3069283#32 := by
  decide +kernel

end CrcTable
