import FsoGateway.Lib.Crc
import FsoGateway.Types

/-! # The per-symbol CRC

    CRC-32C over the 14 header bytes in network order and the first
    `payload_len` bytes of `data[]`; the stored `crc32` is not part of it.

    * two symbols that agree there have the same CRC
      (`symbolComputeCrcValue_congr`), and a stamped symbol verifies
      (`symbolVerifyCrc_compute`);
    * the table-driven loop is the bit-serial register of the library
      (`crc32cSwUpdate_toBitVec`);
    * a burst of at most four bytes anywhere in header and payload is caught
      (`symbolVerifyCrc_burst`). -/

namespace SymbolCrc

open ByteBuffer FsoTypes

/-- One bit of `crc32c_build_table`. -/
def crc32cTableBit (crc : UInt32) : UInt32 :=
  if crc &&& 1 = 1 then (crc >>> 1) ^^^ 0x82F63B78 else crc >>> 1

/-- `g_crc32c_table[i]`. -/
def crc32cTable (i : UInt32) : UInt32 := Nat.iterate crc32cTableBit 8 i

/-- `crc32c_sw_update`. -/
def crc32cSwUpdate (crc : UInt32) (buf : List UInt8) : UInt32 :=
  buf.foldl (fun crc b => crc32cTable ((crc ^^^ b.toUInt32) &&& 0xFF) ^^^ (crc >>> 8)) crc

/-- `symbol_crc32c`. -/
def symbolCrc32c (data : List UInt8) : UInt32 :=
  crc32cSwUpdate 0xFFFFFFFF data ^^^ 0xFFFFFFFF

/-- `symbol_serialise_header`. -/
def symbolSerialiseHeader (sym : Symbol) : List UInt8 :=
  be32 sym.packetId ++ be32 sym.fecId ++ be16 sym.symbolIndex
    ++ be16 sym.totalSymbols ++ be16 sym.payloadLen

/-- `symbol_compute_crc_value`. -/
def symbolComputeCrcValue (sym : Symbol) : UInt32 :=
  let crc := crc32cSwUpdate 0xFFFFFFFF (symbolSerialiseHeader sym)
  let pl := sym.payloadLen.toNat
  let crc :=
    if 0 < pl ∧ pl ≤ maxSymbolDataSize then crc32cSwUpdate crc (bytes sym.data pl)
    else crc
  crc ^^^ 0xFFFFFFFF

/-- `symbol_compute_crc`. -/
def symbolComputeCrc (sym : Symbol) : Symbol :=
  { sym with crc32 := symbolComputeCrcValue sym }

/-- `symbol_verify_crc`. -/
def symbolVerifyCrc (sym : Symbol) : Bool := sym.crc32 == symbolComputeCrcValue sym

/-- The CRC is a function of the header and the payload. -/
theorem symbolComputeCrcValue_congr {a b : Symbol} (h1 : a.packetId = b.packetId)
    (h2 : a.fecId = b.fecId) (h3 : a.symbolIndex = b.symbolIndex)
    (h4 : a.totalSymbols = b.totalSymbols) (h5 : a.payloadLen = b.payloadLen)
    (hd : bytes a.data a.payloadLen.toNat = bytes b.data b.payloadLen.toNat) :
    symbolComputeCrcValue a = symbolComputeCrcValue b := by
  rw [symbolComputeCrcValue, symbolComputeCrcValue, symbolSerialiseHeader,
    symbolSerialiseHeader, h1, h2, h3, h4, hd, h5]

theorem symbolVerifyCrc_compute (sym : Symbol) :
    symbolVerifyCrc (symbolComputeCrc sym) = true := by
  rw [symbolVerifyCrc, beq_iff_eq]
  exact symbolComputeCrcValue_congr rfl rfl rfl rfl rfl rfl

/-! ## The table and the register -/

/-- The Castagnoli polynomial, reflected. -/
def castagnoli : BitVec 32 := 0x82F63B78#32

theorem and_one_iff (c : UInt32) : c &&& 1 = 1 ↔ c.toBitVec.getLsbD 0 = true := by
  rw [← UInt32.toNat_inj, UInt32.toNat_and]
  simp [BitVec.getLsbD, Nat.testBit_zero, Nat.and_one_is_mod]

theorem crc32cTableBit_toBitVec (c : UInt32) :
    (crc32cTableBit c).toBitVec = Crc.bitStep castagnoli c.toBitVec := by
  rw [crc32cTableBit, Crc.bitStep]
  simp only [and_one_iff]
  split
  · rfl
  · rfl

theorem crc32cTable_toBitVec (i : UInt32) :
    (crc32cTable i).toBitVec = Crc.bitSteps castagnoli 8 i.toBitVec := by
  have steps : ∀ (n : Nat) (c : UInt32),
      (Nat.iterate crc32cTableBit n c).toBitVec = Crc.bitSteps castagnoli n c.toBitVec := by
    intro n
    induction n with
    | zero => exact fun _ => rfl
    | succ n ih =>
        intro c
        rw [Function.iterate_succ_apply, ih, crc32cTableBit_toBitVec, Crc.bitSteps]
  exact steps 8 i

/-- The loop of `crc32c_sw_update` runs the bit-serial register. -/
theorem crc32cSwUpdate_toBitVec (crc : UInt32) (buf : List UInt8) :
    (crc32cSwUpdate crc buf).toBitVec
      = Crc.update castagnoli crc.toBitVec (buf.map UInt8.toBitVec) := by
  induction buf generalizing crc with
  | nil => rfl
  | cons b buf ih =>
      have hb : (b.toBitVec.setWidth 32) >>> 8 = 0#32 := by
        apply BitVec.eq_of_getLsbD_eq
        intro i _
        simp [BitVec.getLsbD_ushiftRight]
      have hstep : (crc32cTable ((crc ^^^ b.toUInt32) &&& 0xFF) ^^^ (crc >>> 8)).toBitVec
          = Crc.byteStep castagnoli crc.toBitVec b.toBitVec := by
        rw [Crc.byteStep, Crc.byteStep_table, BitVec.ushiftRight_xor_distrib, hb,
          BitVec.xor_zero, UInt32.toBitVec_xor, crc32cTable_toBitVec]
        rfl
      rw [List.map_cons, Crc.update, List.foldl_cons, ← hstep]
      exact ih _

/-! ## Bursts -/

/-- The bytes that the CRC is computed over. -/
def crcInput (sym : Symbol) : List UInt8 :=
  symbolSerialiseHeader sym ++ bytes sym.data sym.payloadLen.toNat

theorem crcInput_length (sym : Symbol) :
    (crcInput sym).length = 14 + sym.payloadLen.toNat := by
  simp only [crcInput, symbolSerialiseHeader, be32, be16, bytes_length, List.length_append,
    List.length_cons, List.length_nil]

theorem symbolComputeCrcValue_eq (sym : Symbol)
    (h : sym.payloadLen.toNat ≤ maxSymbolDataSize) :
    symbolComputeCrcValue sym = crc32cSwUpdate 0xFFFFFFFF (crcInput sym) ^^^ 0xFFFFFFFF := by
  have happ : crc32cSwUpdate 0xFFFFFFFF (crcInput sym)
      = crc32cSwUpdate (crc32cSwUpdate 0xFFFFFFFF (symbolSerialiseHeader sym))
          (bytes sym.data sym.payloadLen.toNat) := List.foldl_append
  rw [symbolComputeCrcValue, happ]
  by_cases hp : 0 < sym.payloadLen.toNat
  · simp only [hp, h, and_self, if_true]
  · have h0 : sym.payloadLen.toNat = 0 := by omega
    simp [h0, bytes, crc32cSwUpdate]

/-- **Every short burst is caught.**  A stamped symbol verifies; a symbol with
    its length and its stored CRC that differs from it somewhere in header or
    payload, but only within four consecutive bytes, does not. -/
theorem symbolVerifyCrc_burst (sym : Symbol) (h : sym.payloadLen.toNat ≤ maxSymbolDataSize) :
    symbolVerifyCrc (symbolComputeCrc sym) = true
      ∧ ∀ (bad : Symbol) (p : Nat),
          bad.payloadLen = sym.payloadLen →
          bad.crc32 = (symbolComputeCrc sym).crc32 →
          (∀ i, i < p ∨ p + 4 ≤ i →
            (crcInput bad)[i]? = (crcInput (symbolComputeCrc sym))[i]?) →
          crcInput bad ≠ crcInput (symbolComputeCrc sym) →
          symbolVerifyCrc bad = false := by
  refine ⟨symbolVerifyCrc_compute sym, ?_⟩
  intro bad p hlen hcrc hburst hne
  rw [← Bool.not_eq_true, symbolVerifyCrc, beq_iff_eq]
  intro hver
  apply hne
  have hstamped : crcInput (symbolComputeCrc sym) = crcInput sym := rfl
  rw [hstamped] at hburst ⊢
  -- equal CRCs are equal registers
  have hval : symbolComputeCrcValue bad = symbolComputeCrcValue sym := by
    rw [← hver, hcrc]
    rfl
  rw [symbolComputeCrcValue_eq bad (hlen ▸ h), symbolComputeCrcValue_eq sym h] at hval
  have hreg := congrArg UInt32.toBitVec hval
  rw [UInt32.toBitVec_xor, UInt32.toBitVec_xor, BitVec.xor_left_inj, crc32cSwUpdate_toBitVec,
    crc32cSwUpdate_toBitVec] at hreg
  have hmap : (crcInput bad).map UInt8.toBitVec = (crcInput sym).map UInt8.toBitVec := by
    refine Crc.update_window castagnoli (by decide) (by decide) _ _ _ p 4 ?_ (by decide) ?_ hreg
    · rw [List.length_map, List.length_map, crcInput_length, crcInput_length, hlen]
    · intro i hi
      rw [List.getElem?_map, List.getElem?_map, hburst i hi]
  exact List.map_injective_iff.mpr (fun _ _ => UInt8.toBitVec_inj.mp) hmap

/-- A symbol with one payload byte. -/
def oneByte : Symbol := { symbolInit with payloadLen := 1 }

theorem symbolVerifyCrc_burst_oneByte :
    symbolVerifyCrc (symbolComputeCrc oneByte) = true
      ∧ symbolVerifyCrc { symbolComputeCrc oneByte with data := fun _ => 1 } = false := by
  obtain ⟨hok, hbad⟩ := symbolVerifyCrc_burst oneByte (by decide)
  refine ⟨hok, hbad _ 14 rfl rfl ?_ (by decide)⟩
  have hlen : ∀ sym : Symbol, sym.payloadLen = 1 → (crcInput sym).length = 15 := by
    intro sym h
    rw [crcInput_length, h]
    rfl
  rintro i (hi | hi)
  · have hhead : ∀ i < 14, (crcInput { symbolComputeCrc oneByte with data := fun _ => 1 })[i]?
        = (crcInput (symbolComputeCrc oneByte))[i]? := by decide
    exact hhead i hi
  · rw [List.getElem?_eq_none, List.getElem?_eq_none]
    · rw [hlen _ rfl]
      omega
    · rw [hlen _ rfl]
      omega

end SymbolCrc
