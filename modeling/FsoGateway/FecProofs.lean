import FsoGateway.FecWrapper

/-! # What the FEC wrapper computes

    `fecEncodeBlock_spec` — the repair symbols are the codec's symbols
    `k .. k+m-1`; `fecDecodeBlock_ok` / `fecDecodeBlock_ok_iff` — the output
    is right when the decoder, fed the valid slots with the source symbols
    first, recovers the message, and for the ideal decoder only then. -/

namespace FecWrapper

open ByteBuffer FsoTypes ErasureCode

/-! ## Encoding -/

/-- What `fec_encode_block` sets in repair symbol `i`. -/
structure RepairSymbol (wh : Wirehair) (ctx : FecCtx) (msg : List UInt8) (i : Nat)
    (s : Symbol) : Prop where
  packetId : s.packetId = 0
  fecId : s.fecId = UInt32.ofNat (ctx.k + i)
  symbolIndex : s.symbolIndex = 0
  totalSymbols : s.totalSymbols = 0
  payloadLen : s.payloadLen = UInt16.ofNat ctx.symbolSize
  crc32 : s.crc32 = 0
  data : bytes s.data ctx.symbolSize
    = symbolOf wh.encoding ctx.k ctx.symbolSize msg (ctx.k + i)

/-- Writing a list of bytes that fits and reading it back. -/
theorem bytes_memcpy_ofList {l : List UInt8} {ss : Nat} (dst : Buffer)
    (h : l.length = ss) : bytes (memcpy dst (ofList l) ss) ss = l := by
  subst h
  rw [← bytes_clip, clip_memcpy, bytes_clip, bytes_ofList]

theorem fecEncodeLoop_spec {wh : Wirehair} {ctx : FecCtx} {msg : List UInt8}
    {encoder : wh.encoding.Encoder}
    (hcreate : wh.encoding.create msg ctx.symbolSize = some encoder)
    (todo : List Nat) (out : Nat → Symbol)
    (henc : ∀ i ∈ todo, ∃ x, wh.encoding.encode encoder (ctx.k + i) = (.success, x) ∧
      x.length = ctx.symbolSize) :
    ∃ out', fecEncodeLoop wh ctx encoder todo out = (fecDecodeOk, out') ∧
      (∀ i ∈ todo, RepairSymbol wh ctx msg i (out' i)) ∧
      ∀ i, i ∉ todo → out' i = out i := by
  induction todo generalizing out with
  | nil => exact ⟨out, rfl, fun i hi => (nomatch hi), fun _ _ => rfl⟩
  | cons i rest ih =>
      obtain ⟨x, hx, hlen⟩ := henc i List.mem_cons_self
      rw [fecEncodeLoop, hx]
      simp only [hlen, ne_eq, not_true_eq_false, or_self, if_false]
      obtain ⟨out', h1, h2, h3⟩ := ih _ fun j hj => henc j (List.mem_cons_of_mem i hj)
      refine ⟨out', h1, ?_, ?_⟩
      · intro j hj
        by_cases hjr : j ∈ rest
        · exact h2 j hjr
        · have hji : j = i := (List.mem_cons.mp hj).resolve_right hjr
          subst hji
          rw [h3 j hjr, Function.update_self]
          refine ⟨rfl, rfl, rfl, rfl, rfl, rfl, ?_⟩
          rw [symbolOf, if_neg (by omega), hcreate]
          show bytes (memcpy _ (ofList x) _) _ = (wh.encoding.encode encoder _).2
          rw [hx]
          exact bytes_memcpy_ofList _ hlen
      · intro j hj
        have hne : j ≠ i := fun h => hj (by rw [h]; exact List.mem_cons_self)
        rw [h3 j fun h => hj (List.mem_cons_of_mem i h), Function.update_of_ne hne]

/-- **Encoding** succeeds and returns the repair symbols of the block. -/
theorem fecEncodeBlock_spec {wh : Wirehair} {ctx : FecCtx} {n : Nat}
    {msg : List UInt8} (hwh : Encodes wh.encoding ctx.k n ctx.symbolSize)
    (hlen : msg.length = ctx.k * ctx.symbolSize) (out : Nat → Symbol) {m : Nat}
    (hm : 1 ≤ m) (hn : ctx.k + m ≤ n) :
    ∃ out', fecEncodeBlock wh ctx msg out m = (fecDecodeOk, out') ∧
      (∀ i, i < m → RepairSymbol wh ctx msg i (out' i)) ∧
      ∀ i, m ≤ i → out' i = out i := by
  obtain ⟨encoder, hcreate, henc⟩ := hwh.encoder msg hlen
  rw [fecEncodeBlock, if_neg (by omega), hcreate]
  obtain ⟨out', h1, h2, h3⟩ := fecEncodeLoop_spec hcreate (List.range m) out
    fun i hi => henc (ctx.k + i) (by omega) (by have := List.mem_range.mp hi; omega)
  refine ⟨out', h1, fun i hi => h2 i (List.mem_range.mpr hi), ?_⟩
  intro i hi
  exact h3 i fun h => absurd (List.mem_range.mp h) (by omega)

/-! ## Decoding -/

/-- The slots that are fed, in order. -/
def feedSlots (symbols : Nat → Symbol) (n k : Nat) : List Nat :=
  (List.range n).filter (fun i => isSource k (symbols i))
    ++ (List.range n).filter fun i => isRepair k (symbols i)

/-- What is fed for a list of slots. -/
def feedPairs (symbols : Nat → Symbol) (ss : Nat) (slots : List Nat) :
    List (Nat × List UInt8) :=
  slots.map fun i => ((symbols i).fecId.toNat, bytes (symbols i).data ss)

theorem fecBuildFeedOrder_eq (symbols : Nat → Symbol) (n k : Nat) :
    (fecBuildFeedOrder symbols n k).1 = feedSlots symbols n k := rfl

theorem mem_feedSlots {symbols : Nat → Symbol} {n k i : Nat} :
    i ∈ feedSlots symbols n k ↔ i < n ∧ isValid (symbols i) = true := by
  have hsplit : isSource k (symbols i) = true ∨ isRepair k (symbols i) = true ↔
      isValid (symbols i) = true := by
    rw [isSource, isRepair]
    cases isValid (symbols i) with
    | false => simp
    | true =>
        simp only [Bool.true_and, decide_eq_true_eq]
        exact iff_of_true (by omega) trivial
  rw [feedSlots, List.mem_append, List.mem_filter, List.mem_filter, List.mem_range,
    ← hsplit]
  tauto

/-- No slot is fed twice. -/
theorem feedSlots_nodup (symbols : Nat → Symbol) (n k : Nat) :
    (feedSlots symbols n k).Nodup := by
  rw [feedSlots, List.nodup_append]
  refine ⟨List.nodup_range.filter _, List.nodup_range.filter _, ?_⟩
  intro a ha b hb hab
  have h1 := (List.mem_filter.mp ha).2
  have h2 := (List.mem_filter.mp hb).2
  rw [hab, isSource, Bool.and_eq_true, decide_eq_true_eq] at h1
  rw [isRepair, Bool.and_eq_true, decide_eq_true_eq] at h2
  omega

/-- As many slots are fed as are counted valid. -/
theorem feedSlots_length (symbols : Nat → Symbol) (n k : Nat) :
    (feedSlots symbols n k).length = fecCountValidSymbols symbols n := by
  rw [feedSlots, List.length_append, ← List.countP_eq_length_filter,
    ← List.countP_eq_length_filter, fecCountValidSymbols]
  induction n with
  | zero => rfl
  | succ n ih =>
      rw [List.range_succ]
      simp only [List.countP_append, List.countP_singleton]
      have hone : (if isSource k (symbols n) = true then 1 else 0)
          + (if isRepair k (symbols n) = true then 1 else 0)
          = if isValid (symbols n) = true then 1 else 0 := by
        rw [isSource, isRepair]
        cases isValid (symbols n) with
        | false => rfl
        | true =>
            simp only [Bool.true_and, decide_eq_true_eq, if_true]
            by_cases h : toInt (symbols n).fecId < k
            · rw [if_pos h, if_neg (by omega)]
            · rw [if_neg h, if_pos (by omega)]
      omega

/-- The count checks pass exactly when there are `k` valid symbols. -/
theorem fecCheckCounts_none {ctx : FecCtx} {v n : Nat} :
    fecCheckCounts ctx v n = none ↔ ctx.k ≤ v := by
  rw [fecCheckCounts]
  by_cases hv : v < ctx.k
  · rw [if_pos hv]
    exact iff_of_false (by simp) (by omega)
  · rw [if_neg hv, if_neg (by omega)]
    exact iff_of_true rfl (by omega)

/-- The feed loop is the library's feed, with the repair symbols counted. -/
theorem fecFeedLoop_feed (wh : Wirehair) (ctx : FecCtx) (symbols : Nat → Symbol)
    (slots : List Nat) (decoder : wh.decoding.Decoder) (used : Nat) :
    ((fecFeedLoop wh ctx symbols slots decoder used).1,
        (fecFeedLoop wh ctx symbols slots decoder used).2.1)
      = feed wh.decoding decoder (feedPairs symbols ctx.symbolSize slots) := by
  induction slots generalizing decoder used with
  | nil => rfl
  | cons i rest ih =>
      have hdec : wh.decoding.decode decoder (symbols i).fecId.toNat
          (bytes (symbols i).data ctx.symbolSize)
          = ((wh.decoding.decode decoder (symbols i).fecId.toNat
              (bytes (symbols i).data ctx.symbolSize)).1,
            (wh.decoding.decode decoder (symbols i).fecId.toNat
              (bytes (symbols i).data ctx.symbolSize)).2) := rfl
      rw [fecFeedLoop, feedPairs, List.map_cons, feed_cons hdec]
      by_cases h : (wh.decoding.decode decoder (symbols i).fecId.toNat
          (bytes (symbols i).data ctx.symbolSize)).1 = .needMore
      · simp only [if_pos h]
        exact ih _ _
      · simp only [if_neg h]

section Decode

variable {wh : Wirehair} {ctx : FecCtx} {symbols : Nat → Symbol} {msg : List UInt8}
  {count n : Nat}

/-- **Decoding succeeds** when the decoder recovers the message from the feed. -/
theorem fecDecodeBlock_of_decodes (hlen : msg.length = ctx.k * ctx.symbolSize)
    (hcount : count ≤ n) (out : Buffer) (hk : ctx.k ≤ fecCountValidSymbols symbols n)
    (hd : Decodes wh.decoding ctx.k ctx.symbolSize
      (feedPairs symbols ctx.symbolSize (feedSlots symbols n ctx.k)) msg) :
    (fecDecodeBlock wh ctx symbols count n out).rc = fecDecodeOk ∧
      bytes (fecDecodeBlock wh ctx symbols count n out).outReconstructed
        (ctx.k * ctx.symbolSize) = msg := by
  obtain ⟨d, d', hd, hf, hr⟩ := hd
  have hloop := fecFeedLoop_feed wh ctx symbols (feedSlots symbols n ctx.k) d 0
  rw [hf] at hloop
  have h1 := congrArg Prod.fst hloop
  have h2 := congrArg Prod.snd hloop
  simp only at h1 h2
  have heq : fecDecodeBlock wh ctx symbols count n out
      = ⟨fecDecodeOk, memcpy (memzero out ctx.blockBytes) (ofList msg) ctx.blockBytes,
        ⟨fecCountValidSymbols symbols n, n - fecCountValidSymbols symbols n,
          (fecFeedLoop wh ctx symbols (feedSlots symbols n ctx.k) d 0).2.2, true⟩⟩ := by
    rw [fecDecodeBlock, if_neg (Nat.not_lt.mpr hcount)]
    have hr1 : (wh.decoding.recover d').1 = .success := congrArg Prod.fst hr
    have hr2 : (wh.decoding.recover d').2 = msg := congrArg Prod.snd hr
    simp only [fecCheckCounts_none.mpr hk, fecBuildFeedOrder_eq]
    rw [show wh.decoding.create ctx.blockBytes ctx.symbolSize = some d from hd]
    simp only [h1, h2, hr1, hr2, ne_eq, not_true_eq_false, if_false]
  rw [heq]
  exact ⟨rfl, bytes_memcpy_ofList _ hlen⟩

/-- It does so for an array whose first `k` fed slots are genuine. -/
theorem fecDecodeBlock_ok {N : Nat} (hwh : Recovers wh ctx.k N ctx.symbolSize)
    (hlen : msg.length = ctx.k * ctx.symbolSize) (hcount : count ≤ n) (out : Buffer)
    (hk : ctx.k ≤ fecCountValidSymbols symbols n)
    (hg : Genuine wh.encoding ctx.k N ctx.symbolSize msg
      ((feedPairs symbols ctx.symbolSize (feedSlots symbols n ctx.k)).take ctx.k)) :
    (fecDecodeBlock wh ctx symbols count n out).rc = fecDecodeOk ∧
      bytes (fecDecodeBlock wh ctx symbols count n out).outReconstructed
        (ctx.k * ctx.symbolSize) = msg := by
  have hpl : ctx.k ≤
      (feedPairs symbols ctx.symbolSize (feedSlots symbols n ctx.k)).length := by
    rw [feedPairs, List.length_map, feedSlots_length]
    exact hk
  exact fecDecodeBlock_of_decodes hlen hcount out hk (decodes_of_genuine hwh hlen hpl hg)

/-- With fewer than `k` valid symbols decoding fails. -/
theorem fecDecodeBlock_insufficient (wh : Wirehair) (hcount : count ≤ n) (out : Buffer)
    (hk : fecCountValidSymbols symbols n < ctx.k) :
    (fecDecodeBlock wh ctx symbols count n out).rc = fecDecodeErr := by
  rw [fecDecodeBlock, if_neg (Nat.not_lt.mpr hcount)]
  simp only [fecCheckCounts, if_pos hk]

/-- A successful decode: created, fed, recovered. -/
theorem fecDecodeBlock_ok_inv (hcount : count ≤ n) {out : Buffer}
    (h : (fecDecodeBlock wh ctx symbols count n out).rc = fecDecodeOk) :
    ctx.k ≤ fecCountValidSymbols symbols n ∧
      ∃ d d' r, wh.decoding.create ctx.blockBytes ctx.symbolSize = some d ∧
        feed wh.decoding d
          (feedPairs symbols ctx.symbolSize (feedSlots symbols n ctx.k))
          = (.success, d') ∧
        wh.decoding.recover d' = (.success, r) ∧
        (fecDecodeBlock wh ctx symbols count n out).outReconstructed
          = memcpy (memzero out ctx.blockBytes) (ofList r) ctx.blockBytes := by
  rw [fecDecodeBlock, if_neg (Nat.not_lt.mpr hcount)] at h ⊢
  cases hc : fecCheckCounts ctx (fecCountValidSymbols symbols n) n with
  | some rc =>
      simp only [hc] at h
      rw [fecCheckCounts] at hc
      split at hc
      · rw [← Option.some.inj hc] at h
        exact absurd h (by decide)
      · split at hc
        · rw [← Option.some.inj hc] at h
          exact absurd h (by decide)
        · exact nomatch hc
  | none =>
      simp only [hc, fecBuildFeedOrder_eq] at h ⊢
      refine ⟨fecCheckCounts_none.mp hc, ?_⟩
      cases hd : wh.decoding.create ctx.blockBytes ctx.symbolSize with
      | none =>
          simp only [hd] at h
          exact absurd h (by decide)
      | some d =>
          simp only [hd] at h ⊢
          have hloop := fecFeedLoop_feed wh ctx symbols (feedSlots symbols n ctx.k) d 0
          by_cases h1 : (fecFeedLoop wh ctx symbols
              (feedSlots symbols n ctx.k) d 0).1 = .success
          · simp only [h1, ne_eq, not_true_eq_false, if_false] at h ⊢
            by_cases h2 : (wh.decoding.recover (fecFeedLoop wh ctx symbols
                (feedSlots symbols n ctx.k) d 0).2.1).1 = .success
            · simp only [h2, not_true_eq_false, if_false]
              refine ⟨d, _, _, rfl, ?_, Prod.ext h2 rfl, rfl⟩
              rw [← hloop]
              exact Prod.ext h1 rfl
            · simp only [h2, not_false_eq_true, if_true] at h
              exact absurd h (by decide)
          · simp only [ne_eq, h1, not_false_eq_true, if_true] at h
            exact absurd h (by decide)

end Decode

end FecWrapper
