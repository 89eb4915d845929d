import FsoGateway.Types

/-! # Accesses to the data of a symbol

    The `data` array of a symbol has `MAX_SYMBOL_DATA_SIZE` bytes.  A copy, a
    fill or a read that starts at its beginning is within the array when it is
    no longer than that.

    Two sites go by the payload length of a symbol, which they check first; all
    others by `symbol_size` (`Sized`). -/

namespace SymbolAccess

open FsoTypes

/-- The places in the source that touch the `data` array of a symbol. -/
inductive Site where
  /-- `fragment_packet` copies a piece of the frame. -/
  | fragmentPacket
  /-- `block_builder_add_symbol` copies a symbol. -/
  | addSymbol
  /-- `block_builder_finalize_with_padding` clears one. -/
  | finalizeWithPadding
  /-- `encode_and_drain` copies one into `source_buf`. -/
  | sourceBuf
  /-- `fec_encode_block` writes a repair symbol. -/
  | repairSyms
  /-- `interleaver_push_symbol` copies one into a cell. -/
  | pushSymbol
  /-- `force_fill_row` clears a cell. -/
  | forceFillRow
  /-- `interleaver_pop_ready_symbol` copies one from a cell. -/
  | popReadySymbol
  /-- `rx_pipeline_run_once` copies the payload of a wire frame. -/
  | receive
  /-- `deinterleaver_push_symbol` copies one into its slot. -/
  | storeSymbol
  /-- `fec_decode_block` hands one to Wirehair. -/
  | feedSymbol
  deriving DecidableEq

/-- An access to the bytes below `len` of a `data` array. -/
structure DataAccess where
  site : Site
  len : Nat
  deriving DecidableEq

/-- It stays within the array. -/
def DataAccess.InBounds (a : DataAccess) : Prop := a.len ≤ maxSymbolDataSize

instance (a : DataAccess) : Decidable a.InBounds :=
  inferInstanceAs (Decidable (a.len ≤ maxSymbolDataSize))

/-- The sites that copy as many bytes as the payload of a symbol has. -/
def Site.byPayload : Site → Bool
  | .fragmentPacket => true
  | .receive => true
  | _ => false

/-- The length of an access, in a pipeline for symbols of `ss` bytes. -/
def Sized (ss : Nat) (a : DataAccess) : Prop :=
  if a.site.byPayload then a.InBounds else a.len = ss

def AllSized (ss : Nat) (l : List DataAccess) : Prop := ∀ a ∈ l, Sized ss a

section Sized

variable {ss : Nat} {a : DataAccess} {l l' : List DataAccess}

theorem allSized_nil : AllSized ss [] := fun _ h => nomatch h

theorem allSized_cons (ha : Sized ss a) (hl : AllSized ss l) : AllSized ss (a :: l) :=
  List.forall_mem_cons.mpr ⟨ha, hl⟩

theorem allSized_append (hl : AllSized ss l) (hl' : AllSized ss l') :
    AllSized ss (l ++ l') :=
  List.forall_mem_append.mpr ⟨hl, hl'⟩

theorem allSized_replicate (ha : Sized ss a) (n : Nat) :
    AllSized ss (List.replicate n a) := by
  intro x hx
  rw [List.eq_of_mem_replicate hx]
  exact ha

/-- **Symbols that fit** are accessed within the array. -/
theorem inBounds_of_sized (h : Sized ss a) (hss : ss ≤ maxSymbolDataSize) : a.InBounds := by
  rw [Sized] at h
  split at h
  · exact h
  · rw [DataAccess.InBounds, h]
    exact hss

end Sized

end SymbolAccess
