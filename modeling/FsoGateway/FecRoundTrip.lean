import FsoGateway.FecProofs

/-! # Decoding undoes encoding

    The `k` source symbols of a block and the `m` repair symbols that
    `fec_encode_block` makes of them are placed in an array, all under one
    `packet_id`: at their `fec_id`, with up to `m` slots erased
    (`payload_len` 0), or packed in any order.

    `decode_undoes_encode` says exactly when `fec_decode_block` gives the
    source payloads back whatever the decoder is, as long as any `k` symbols
    are enough for it.  What an erasure is to the code is its `packet_id`,
    not its `payload_len`. -/

namespace FecRoundTrip

open ByteBuffer FsoTypes ErasureCode FecWrapper

/-- The header fields of the source symbols. -/
structure SourceSymbols (k ss : Nat) (packetId : UInt32) (src : Nat → Symbol) :
    Prop where
  packetId : ∀ i, i < k → (src i).packetId = packetId
  fecId : ∀ i, i < k → (src i).fecId = UInt32.ofNat i
  payloadLen : ∀ i, i < k → (src i).payloadLen = UInt16.ofNat ss

/-- The source payloads, one after the other. -/
def payloads (k ss : Nat) (src : Nat → Symbol) : List UInt8 :=
  join (fun i => bytes (src i).data ss) k

theorem payloads_length (k ss : Nat) (src : Nat → Symbol) :
    (payloads k ss src).length = k * ss :=
  join_length fun _ _ => bytes_length _ _

/-- Symbol `i` of the block. -/
def placed (k : Nat) (packetId : UInt32) (src repairs : Nat → Symbol) (i : Nat) :
    Symbol :=
  if i < k then src i else { repairs (i - k) with packetId := packetId }

/-- How the symbols are handed to the decoder. -/
inductive FecInput where
  | sparse (lost : Nat → Bool) (erased : Nat → Symbol)
  | compact (order : List Nat)

/-- The inputs the interface admits: at most `m` erasures, marked by a
    `payload_len` of 0; or `k` or more different symbols. -/
def FecInput.Legal (k m : Nat) : FecInput → Prop
  | .sparse lost erased =>
      (List.range (k + m)).countP lost ≤ m ∧ ∀ i, (erased i).payloadLen = 0
  | .compact order => order.Nodup ∧ k ≤ order.length ∧ ∀ i ∈ order, i < k + m

def FecInput.array (block : Nat → Symbol) : FecInput → Nat → Symbol
  | .sparse lost erased => fun i => if lost i then erased i else block i
  | .compact order => fun i => block (order.getD i 0)

def FecInput.symbolCount (k m : Nat) : FecInput → Nat
  | .sparse lost _ => (List.range (k + m)).countP fun i => !lost i
  | .compact order => order.length

def FecInput.scanCapacity (k m : Nat) : FecInput → Nat
  | .sparse _ _ => k + m
  | .compact order => order.length

/-- `fec_decode_block` succeeds and its output is `msg`, for every decoder
    that recovers from `k` symbols what this encoder encoded. -/
def DecodesBack (E : Encoding UInt8) (k m ss : Nat) (msg : List UInt8)
    (block : Nat → Symbol) (input : FecInput) : Prop :=
  ∀ D, Recovers ⟨E, D⟩ k (k + m) ss → ∀ out,
    let r := fecDecodeBlock ⟨E, D⟩ ⟨k, ss⟩ (input.array block)
      (input.symbolCount k m) (input.scanCapacity k m) out
    r.rc = fecDecodeOk ∧ bytes r.outReconstructed (k * ss) = msg

/-- Of the slots with a non-zero `packet_id`, source before repair, the first
    `k` exist, have different numbers, and hold the bytes of their number. -/
def FirstFedTrue (E : Encoding UInt8) (k m ss : Nat) (msg : List UInt8)
    (symbols : Nat → Symbol) (n : Nat) : Prop :=
  let slots := (feedSlots symbols n k).take k
  slots.length = k ∧ (slots.map fun i => (symbols i).fecId.toNat).Nodup ∧
    ∀ i ∈ slots, (symbols i).fecId.toNat < k + m ∧
      bytes (symbols i).data ss = symbolOf E k ss msg (symbols i).fecId.toNat

theorem firstFedTrue_iff {E : Encoding UInt8} {k m ss n : Nat} {msg : List UInt8}
    {symbols : Nat → Symbol} :
    FirstFedTrue E k m ss msg symbols n ↔
      k ≤ fecCountValidSymbols symbols n ∧
        Genuine E k (k + m) ss msg
          ((feedPairs symbols ss (feedSlots symbols n k)).take k) := by
  have hlen : ((feedSlots symbols n k).take k).length = k ↔
      k ≤ fecCountValidSymbols symbols n := by
    rw [List.length_take, feedSlots_length]
    omega
  have hfst : ((feedPairs symbols ss (feedSlots symbols n k)).take k).map Prod.fst
      = ((feedSlots symbols n k).take k).map fun i => (symbols i).fecId.toNat := by
    rw [feedPairs, ← List.map_take, List.map_map]
    rfl
  rw [FirstFedTrue, hlen, Genuine, hfst]
  refine and_congr_right fun _ => and_congr_right fun _ => ?_
  rw [feedPairs, ← List.map_take, List.forall_mem_map]

/-- **Decoding an array back**, exactly. -/
theorem decodesBack_iff {wh : Wirehair} {k m ss : Nat} (hk : 0 < k)
    (hwh : Recovers wh k (k + m) ss) {msg : List UInt8}
    (hlen : msg.length = k * ss) (block : Nat → Symbol) (input : FecInput)
    (hcount : input.symbolCount k m ≤ input.scanCapacity k m) :
    DecodesBack wh.encoding k m ss msg block input ↔
      FirstFedTrue wh.encoding k m ss msg (input.array block)
        (input.scanCapacity k m) := by
  rw [firstFedTrue_iff]
  constructor
  · intro hall
    obtain ⟨hrc, hout⟩ := hall _ (ideal_recovers hwh hk) fun _ => 0
    obtain ⟨hv, d, d', r, hd, hf, hr, ho⟩ := fecDecodeBlock_ok_inv hcount hrc
    have hd0 : d = ([] : List (Nat × List UInt8)) := (Option.some.inj hd).symm
    subst hd0
    obtain ⟨hrl, -, hg⟩ := genuine_of_ideal hk hf hr
    rw [ho] at hout
    have hrm : r = msg := by
      rw [← hout]
      exact (bytes_memcpy_ofList _ hrl).symm
    rw [hrm] at hg
    exact ⟨hv, hg⟩
  · rintro ⟨hv, hg⟩ D hD out
    exact @fecDecodeBlock_ok ⟨wh.encoding, D⟩ ⟨k, ss⟩ _ _ _ _ _ hD hlen hcount
      out hv hg

/-! ## The block -/

/-- What every symbol of the block carries. -/
structure BlockSymbol (E : Encoding UInt8) (k ss : Nat) (msg : List UInt8)
    (packetId : UInt32) (i : Nat) (s : Symbol) : Prop where
  packetId : s.packetId = packetId
  fecId : s.fecId.toNat = i
  data : bytes s.data ss = symbolOf E k ss msg i

theorem placed_spec {wh : Wirehair} {k m ss : Nat} {packetId : UInt32}
    {src repairs : Nat → Symbol} (hn : k + m ≤ 256)
    (hsrc : SourceSymbols k ss packetId src)
    (hrep : ∀ i, i < m →
      RepairSymbol wh ⟨k, ss⟩ (payloads k ss src) i (repairs i)) {i : Nat}
    (hi : i < k + m) :
    BlockSymbol wh.encoding k ss (payloads k ss src) packetId i
      (placed k packetId src repairs i) := by
  have hof : (UInt32.ofNat i).toNat = i := by
    rw [UInt32.toNat_ofNat']
    omega
  rw [placed]
  by_cases hik : i < k
  · rw [if_pos hik]
    refine ⟨hsrc.packetId i hik, by rw [hsrc.fecId i hik, hof], ?_⟩
    rw [symbolOf, if_pos hik, payloads, chunk_join (fun j _ => bytes_length _ _) hik]
  · rw [if_neg hik]
    have hr := hrep (i - k) (by omega)
    have hsum : k + (i - k) = i := by omega
    refine ⟨rfl, ?_, ?_⟩
    · show (repairs (i - k)).fecId.toNat = i
      rw [hr.fecId]
      show (UInt32.ofNat (k + (i - k))).toNat = i
      rw [hsum, hof]
    · have hd := hr.data
      rw [show (⟨k, ss⟩ : FecCtx).k + (i - k) = i from hsum] at hd
      exact hd

section Array

variable {E : Encoding UInt8} {k m ss n : Nat} {msg : List UInt8}
  {symbols : Nat → Symbol}

/-- An array whose valid slots hold different symbols of the block, `k` of
    them or more. -/
theorem firstFedTrue_of_block (packetId : UInt32) (pos : Nat → Nat)
    (hvalid : ∀ i, i < n → isValid (symbols i) = true → pos i < k + m ∧
      BlockSymbol E k ss msg packetId (pos i) (symbols i))
    (hinj : ∀ i j, i < n → j < n → isValid (symbols i) = true →
      isValid (symbols j) = true → pos i = pos j → i = j)
    (hk : k ≤ fecCountValidSymbols symbols n) :
    FirstFedTrue E k m ss msg symbols n := by
  have hmem : ∀ i ∈ (feedSlots symbols n k).take k,
      i < n ∧ isValid (symbols i) = true :=
    fun i hi => mem_feedSlots.mp (List.mem_of_mem_take hi)
  refine ⟨?_, ?_, ?_⟩
  · rw [List.length_take, feedSlots_length]
    omega
  · apply List.Nodup.map_on _ ((feedSlots_nodup symbols n k).sublist
      (List.take_sublist k _))
    intro i hi j hj heq
    obtain ⟨hin, hiv⟩ := hmem i hi
    obtain ⟨hjn, hjv⟩ := hmem j hj
    rw [(hvalid i hin hiv).2.fecId, (hvalid j hjn hjv).2.fecId] at heq
    exact hinj i j hin hjn hiv hjv heq
  · intro i hi
    obtain ⟨hin, hiv⟩ := hmem i hi
    obtain ⟨hlt, hb⟩ := hvalid i hin hiv
    rw [hb.fecId]
    exact ⟨hlt, hb.data⟩

/-- An array without a valid slot. -/
theorem not_firstFedTrue (hk : 0 < k)
    (hnone : ∀ i, i < n → isValid (symbols i) = false) :
    ¬ FirstFedTrue E k m ss msg symbols n := by
  intro h
  have hcount : fecCountValidSymbols symbols n = 0 := by
    rw [fecCountValidSymbols, List.countP_eq_zero]
    intro i hi
    rw [hnone i (List.mem_range.mp hi)]
    exact Bool.false_ne_true
  have hv := (firstFedTrue_iff.mp h).1
  omega

end Array

/-! ## Both scan modes -/

section Modes

variable {E : Encoding UInt8} {k m ss : Nat} {msg : List UInt8}
  {packetId : UInt32} {block : Nat → Symbol}

/-- Sparse mode, the erased slots cleared. -/
theorem firstFedTrue_sparse (hk : 0 < k)
    (hblock : ∀ i, i < k + m → BlockSymbol E k ss msg packetId i (block i))
    {lost : Nat → Bool} {erased : Nat → Symbol}
    (hlegal : (FecInput.sparse lost erased).Legal k m)
    (hclear : ∀ i, lost i = true → (erased i).packetId = 0) :
    FirstFedTrue E k m ss msg ((FecInput.sparse lost erased).array block) (k + m) ↔
      packetId ≠ 0 := by
  have hat : ∀ i, i < k + m →
      (isValid ((FecInput.sparse lost erased).array block i) = true ↔
        lost i = false ∧ packetId ≠ 0) := by
    intro i hi
    show isValid (if lost i = true then erased i else block i) = true ↔ _
    rw [isValid, bne_iff_ne]
    cases hl : lost i with
    | true =>
        rw [if_pos rfl, hclear i hl]
        simp
    | false =>
        rw [if_neg Bool.false_ne_true, (hblock i hi).packetId]
        simp
  constructor
  · intro h hz
    refine not_firstFedTrue hk ?_ h
    intro i hi
    rw [Bool.eq_false_iff]
    intro hv
    exact ((hat i hi).mp hv).2 hz
  · intro hnz
    refine firstFedTrue_of_block packetId id ?_ ?_ ?_
    · intro i hi hv
      have hl := ((hat i hi).mp hv).1
      refine ⟨hi, ?_⟩
      show BlockSymbol E k ss msg packetId i (if lost i = true then _ else block i)
      rw [if_neg (by rw [hl]; exact Bool.false_ne_true)]
      exact hblock i hi
    · exact fun i j _ _ _ _ h => h
    · have hcount : fecCountValidSymbols
          ((FecInput.sparse lost erased).array block) (k + m)
          = (List.range (k + m)).countP fun i => !lost i := by
        apply List.countP_congr
        intro i hi
        rw [hat i (List.mem_range.mp hi), Bool.not_eq_true']
        exact and_iff_left hnz
      have hsum := List.length_eq_countP_add_countP lost (l := List.range (k + m))
      rw [List.length_range] at hsum
      have hle := hlegal.1
      rw [hcount]
      have hnot : (List.range (k + m)).countP (fun i => !lost i)
          = (List.range (k + m)).countP (fun a => decide ¬ lost a = true) := by
        apply List.countP_congr
        intro i _
        simp
      omega

/-- Compact mode. -/
theorem firstFedTrue_compact (hk : 0 < k)
    (hblock : ∀ i, i < k + m → BlockSymbol E k ss msg packetId i (block i))
    {order : List Nat} (hlegal : (FecInput.compact order).Legal k m) :
    FirstFedTrue E k m ss msg ((FecInput.compact order).array block) order.length ↔
      packetId ≠ 0 := by
  obtain ⟨hnd, hlen, hin⟩ := hlegal
  have hget : ∀ i (hi : i < order.length), order.getD i 0 = order[i] := by
    intro i hi
    rw [List.getD_eq_getElem?_getD, List.getElem?_eq_getElem hi]
    rfl
  have hpos : ∀ i, i < order.length → order.getD i 0 < k + m := by
    intro i hi
    rw [hget i hi]
    exact hin _ (List.getElem_mem hi)
  have hid : ∀ i, i < order.length →
      ((FecInput.compact order).array block i).packetId = packetId :=
    fun i hi => (hblock _ (hpos i hi)).packetId
  constructor
  · intro h hz
    refine not_firstFedTrue hk ?_ h
    intro i hi
    rw [isValid, hid i hi, hz]
    rfl
  · intro hnz
    refine firstFedTrue_of_block packetId (fun i => order.getD i 0)
      ?_ ?_ ?_
    · exact fun i hi _ => ⟨hpos i hi, hblock _ (hpos i hi)⟩
    · intro i j hi hj _ _ heq
      rw [hget i hi, hget j hj] at heq
      exact (hnd.getElem_inj_iff).mp heq
    · have hall : fecCountValidSymbols ((FecInput.compact order).array block)
          order.length = order.length := by
        have h := List.countP_eq_length
          (p := fun i => isValid ((FecInput.compact order).array block i))
          (l := List.range order.length)
        rw [List.length_range] at h
        refine h.mpr fun i hi => ?_
        rw [isValid, hid i (List.mem_range.mp hi), bne_iff_ne]
        exact hnz
      rw [hall]
      exact hlen

end Modes

/-- **Decode undoes encode, exactly.**  Encoding succeeds; in sparse mode the
    source payloads come back if and only if the first `k` slots fed are true,
    which for cleared erasures means a non-zero `packet_id`; in compact mode
    they come back if and only if the `packet_id` is not zero. -/
theorem decode_undoes_encode {k m ss : Nat} (hk : 2 ≤ k) (hm : 1 ≤ m)
    (hn : k + m ≤ 256) {wh : Wirehair} (hwh : Recovers wh k (k + m) ss)
    {packetId : UInt32} {src : Nat → Symbol}
    (hsrc : SourceSymbols k ss packetId src) (out : Nat → Symbol) :
    ∃ repairs,
      fecEncodeBlock wh ⟨k, ss⟩ (payloads k ss src) out m = (fecDecodeOk, repairs) ∧
      (∀ lost erased, (FecInput.sparse lost erased).Legal k m →
        (DecodesBack wh.encoding k m ss (payloads k ss src)
            (placed k packetId src repairs) (.sparse lost erased) ↔
          FirstFedTrue wh.encoding k m ss (payloads k ss src)
            ((FecInput.sparse lost erased).array (placed k packetId src repairs))
            (k + m)) ∧
        ((∀ i, lost i = true → (erased i).packetId = 0) →
          (DecodesBack wh.encoding k m ss (payloads k ss src)
              (placed k packetId src repairs) (.sparse lost erased) ↔
            packetId ≠ 0))) ∧
      ∀ order, (FecInput.compact order).Legal k m →
        (DecodesBack wh.encoding k m ss (payloads k ss src)
            (placed k packetId src repairs) (.compact order) ↔
          packetId ≠ 0) := by
  have hk0 : 0 < k := by omega
  have hlen := payloads_length k ss src
  obtain ⟨repairs, henc, hrep, -⟩ :=
    @fecEncodeBlock_spec wh ⟨k, ss⟩ _ _ hwh.toEncodes hlen out m hm le_rfl
  have hblock : ∀ i, i < k + m →
      BlockSymbol wh.encoding k ss (payloads k ss src) packetId i
        (placed k packetId src repairs i) :=
    fun i hi => placed_spec hn hsrc hrep hi
  refine ⟨repairs, henc, ?_, ?_⟩
  · intro lost erased hlegal
    have hcount : (FecInput.sparse lost erased).symbolCount k m
        ≤ (FecInput.sparse lost erased).scanCapacity k m := by
      have h := List.countP_le_length (p := fun i => !lost i)
        (l := List.range (k + m))
      rwa [List.length_range] at h
    have hiff := decodesBack_iff hk0 hwh hlen (placed k packetId src repairs) _ hcount
    refine ⟨hiff, ?_⟩
    intro hclear
    exact hiff.trans (firstFedTrue_sparse hk0 hblock hlegal hclear)
  · intro order hlegal
    have hiff := decodesBack_iff hk0 hwh hlen (placed k packetId src repairs)
      (.compact order) le_rfl
    exact hiff.trans (firstFedTrue_compact hk0 hblock hlegal)

/-- Two source symbols of one zero byte, under one `packet_id`. -/
def zeroSource (packetId : UInt32) (i : Nat) : Symbol :=
  { symbolInit with packetId := packetId, fecId := UInt32.ofNat i, payloadLen := 1 }

theorem zeroSource_spec (packetId : UInt32) :
    SourceSymbols 2 1 packetId (zeroSource packetId) :=
  ⟨fun _ _ => rfl, fun _ _ => rfl, fun _ _ => rfl⟩

/-- A repair symbol and one source symbol of block 7, packed. -/
theorem decode_undoes_encode_packed :
    ∃ repairs,
      fecEncodeBlock parity ⟨2, 1⟩ (payloads 2 1 (zeroSource 7))
        (fun _ => symbolInit) 1 = (fecDecodeOk, repairs) ∧
      DecodesBack parity.encoding 2 1 1 (payloads 2 1 (zeroSource 7))
        (placed 2 7 (zeroSource 7) repairs) (.compact [2, 0]) := by
  obtain ⟨repairs, henc, -, hcompact⟩ := decode_undoes_encode (m := 1) (by decide)
    (by decide) (by decide) (parity_recovers 1) (zeroSource_spec 7)
    fun _ => symbolInit
  exact ⟨repairs, henc, (hcompact [2, 0] ⟨by decide, by decide, by decide⟩).mpr
    (by decide)⟩

/-- Nothing erased, `packet_id` 0: every symbol of the block is taken for a
    hole and the decode fails. -/
theorem decode_packetId_zero :
    let repairs := (fecEncodeBlock parity ⟨2, 1⟩ (payloads 2 1 (zeroSource 0))
      (fun _ => symbolInit) 1).2
    let input := FecInput.sparse (fun _ => false) fun _ => symbolInit
    SourceSymbols 2 1 0 (zeroSource 0) ∧ Recovers parity 2 3 1 ∧
      input.Legal 2 1 ∧
      (fecDecodeBlock parity ⟨2, 1⟩
        (input.array (placed 2 0 (zeroSource 0) repairs)) 3 3 fun _ => 0).rc
        = fecDecodeErr ∧
      ¬ DecodesBack parity.encoding 2 1 1 (payloads 2 1 (zeroSource 0))
        (placed 2 0 (zeroSource 0) repairs) input := by
  intro repairs input
  have hrc : (fecDecodeBlock parity ⟨2, 1⟩
      (input.array (placed 2 0 (zeroSource 0) repairs)) 3 3 fun _ => 0).rc
      = fecDecodeErr := by decide +kernel
  refine ⟨zeroSource_spec 0, parity_recovers 1, ⟨by decide, fun _ => rfl⟩, hrc, ?_⟩
  intro h
  have hok := (h parity.decoding (parity_recovers 1) fun _ => 0).1
  have hrc' : (fecDecodeBlock ⟨parity.encoding, parity.decoding⟩ ⟨2, 1⟩
      (input.array (placed 2 0 (zeroSource 0) repairs)) (input.symbolCount 2 1)
      (input.scanCapacity 2 1) fun _ => 0).rc = fecDecodeErr := hrc
  rw [hrc'] at hok
  exact absurd hok (by decide)

/-! ## The start-up self-test -/

/-- Whatever `fec_encode_block` completes has a `packet_id` of 0. -/
theorem fecEncodeLoop_packetId {wh : Wirehair} {ctx : FecCtx}
    {encoder : wh.encoding.Encoder} (todo : List Nat) (out : Nat → Symbol)
    (hok : (fecEncodeLoop wh ctx encoder todo out).1 = fecDecodeOk) {i : Nat}
    (hi : i ∈ todo ∨ (out i).packetId = 0) :
    ((fecEncodeLoop wh ctx encoder todo out).2 i).packetId = 0 := by
  induction todo generalizing out with
  | nil => exact hi.resolve_left (by simp)
  | cons j rest ih =>
      rw [fecEncodeLoop] at hok ⊢
      by_cases hbad : (wh.encoding.encode encoder (ctx.k + j)).1 ≠ .success ∨
          (wh.encoding.encode encoder (ctx.k + j)).2.length ≠ ctx.symbolSize
      · simp only [if_pos hbad] at hok
        exact absurd hok (by decide)
      · simp only [if_neg hbad] at hok ⊢
        refine ih _ hok ?_
        by_cases hij : i = j
        · subst hij
          rw [Function.update_self]
          exact .inr rfl
        · rw [Function.update_of_ne hij]
          exact hi.imp (fun h => (List.mem_cons.mp h).resolve_left hij) id

/-- **The self-test never passes**: the symbols it builds all have a
    `packet_id` of 0, so with every codec the decode finds no symbol. -/
theorem fecRunSelfTest_fails (wh : Wirehair) (repairs : Nat → Symbol) :
    fecRunSelfTest wh repairs = -1 := by
  rw [fecRunSelfTest, show fecCreate 8 128 = some ⟨8, 128⟩ from rfl]
  let e := fecEncodeBlock wh ⟨8, 128⟩ selfTestSource repairs 2
  show (if e.1 ≠ fecDecodeOk then (-1 : Int) else _) = -1
  by_cases hok : e.1 = fecDecodeOk
  · have hrep : ∀ i, i < 2 → (e.2 i).packetId = 0 := by
      intro i hi
      have hdef : e = fecEncodeBlock wh ⟨8, 128⟩ selfTestSource repairs 2 := rfl
      rw [fecEncodeBlock, if_neg (by decide)] at hdef
      cases hc : wh.encoding.create selfTestSource 128 with
      | none =>
          rw [show (⟨8, 128⟩ : FecCtx).symbolSize = 128 from rfl, hc] at hdef
          rw [hdef] at hok
          have herr : fecDecodeErr = fecDecodeOk := hok
          exact absurd herr (by decide)
      | some encoder =>
          rw [show (⟨8, 128⟩ : FecCtx).symbolSize = 128 from rfl, hc] at hdef
          rw [hdef] at hok ⊢
          exact fecEncodeLoop_packetId _ _ hok (.inl (List.mem_range.mpr hi))
    have hzero : fecCountValidSymbols (selfTestReceived e.2) 10 = 0 := by
      rw [fecCountValidSymbols, List.countP_eq_zero]
      intro i hi
      have hlt := List.mem_range.mp hi
      have hp : (selfTestReceived e.2 i).packetId = 0 := by
        rw [selfTestReceived]
        by_cases h3 : i = 3
        · rw [if_pos h3]
          rfl
        · by_cases h8 : i < 8
          · rw [if_neg h3, if_pos h8]
            rfl
          · rw [if_neg h3, if_neg h8, if_pos hlt]
            exact hrep (i - 8) (by omega)
      rw [isValid, hp]
      decide
    rw [if_neg (not_not_intro hok)]
    have hrc := @fecDecodeBlock_insufficient ⟨8, 128⟩ (selfTestReceived e.2) 9 10 wh
      (by decide) (fun _ => 0) (by rw [hzero]; decide)
    show (if (fecDecodeBlock wh ⟨8, 128⟩ (selfTestReceived e.2) 9 10 fun _ => 0).rc
      ≠ fecDecodeOk then (-1 : Int) else _) = -1
    rw [hrc]
    rfl
  · exact if_pos hok

end FecRoundTrip
