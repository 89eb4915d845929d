import FsoGateway.DeinterleaverFrame
import FsoGateway.InterleaverWindow

/-! # Padding across the link

    A flush pads the missing cells of a partial window, and the receiver is to
    drop that padding.  Sender and receiver do not agree on the sentinel: a row
    of no block is padded with packet id 0, which is the erasure, but a row
    that belongs to a block is padded under the id of that block.

    * `flushed_eq` — what a flush emits, cell by cell;
    * `padding_ignored_iff` — the receiver drops all of it exactly when every
      row of a block other than 0 is complete;
    * `padding_taken_for_data` — a block that is decoded from padding. -/

namespace FsoLink

open ByteBuffer FsoTypes FsoInterleaver FsoDeinterleaver KeyedWindow

/-! ## What a flush emits -/

/-- The pops until the window is drained. -/
def popWindow : Nat → Interleaver → List Symbol
  | 0, _ => []
  | fuel + 1, il =>
      match interleaverPopReadySymbol il with
      | none => []
      | some (s, last, il) => s :: if last then [] else popWindow fuel il

/-- The window that a tick at `now` flushes, in the order of the pops. -/
def flushed (il : Interleaver) (now : Nat) : List Symbol :=
  let il := (interleaverTick il now).2
  popWindow (interleaverSymbolsPending il) il

theorem popWindow_draining {rows : List Row} (fuel : Nat) {il : Interleaver} {p : Nat}
    (h : Draining il rows p) (hfuel : fuel = il.depth * il.n - p) :
    popWindow fuel il
      = (List.range' p fuel).map (windowSymbol il.depth il.symbolSize rows) := by
  induction fuel generalizing il p with
  | zero => rfl
  | succ fuel ih =>
      obtain ⟨last, il', hpop, hs, ⟨hlt, rfl, hd⟩ | ⟨heq, rfl, -⟩⟩ := pop_draining h
      · have hrest := ih hd (by rw [hs.depth, hs.n]; omega)
        rw [hs.depth, hs.symbolSize] at hrest
        rw [popWindow, hpop, List.range'_succ, List.map_cons]
        exact congrArg _ hrest
      · have hz : fuel = 0 := by omega
        subst hz
        rw [popWindow, hpop]
        rfl

/-- **What a flush emits**: the symbols accepted, and padding. -/
theorem flushed_eq {il : Interleaver} {acc : List Symbol} (h : Collects il acc)
    (hn : 0 < il.n) {now : Nat} (htick : (interleaverTick il now).1 = 1) :
    flushed il now = windowOut il.depth il.n il.symbolSize acc := by
  rcases tick_collects now h hn with he | ⟨hs, hd⟩
  · rw [he] at htick
    exact nomatch htick
  · have hpend : interleaverSymbolsPending (interleaverTick il now).2
        = il.depth * il.n := by
      rw [interleaverSymbolsPending, if_pos hd.ready, hd.row, hd.col, Nat.zero_mod,
        Nat.zero_div, Nat.zero_mul, hs.depth, hs.n]
      rfl
    rw [flushed, hpend, popWindow_draining _ hd (by rw [hs.depth, hs.n]; rfl), hs.depth,
      hs.symbolSize]
    refine List.ext_getElem? fun p => ?_
    by_cases hp : p < il.depth * il.n
    · rw [windowSymbol_rows il.symbolSize acc hp, List.getElem?_map,
        List.getElem?_range' hp]
      simp
    · rw [List.getElem?_eq_none (by rw [List.length_map, List.length_range']; omega),
        List.getElem?_eq_none (by rw [windowOut, readOut_length]; omega)]

/-! ## Holes -/

/-- Nothing was in the cell that symbol `p` of the window is read from. -/
def isHole (il : Interleaver) (p : Nat) : Bool :=
  !Bitset.test (il.slots (p % il.depth)).receivedMask (p / il.depth)

/-- Every row that belongs to a block other than 0 is complete. -/
def RowsComplete (il : Interleaver) : Prop :=
  ∀ r, r < il.depth → il.rowAssigned r = true → il.rowBlockKey r ≠ 0 →
    (il.slots r).symbolCount = il.n

/-- The padding of a hole carries the id of the row, and no payload. -/
theorem hole_symbol {il : Interleaver} {acc : List Symbol} (h : Collects il acc)
    {p : Nat} (hp : p < il.depth * il.n) (hole : isHole il p = true) :
    (windowOut il.depth il.n il.symbolSize acc)[p]?
        = some (paddingSymbol il.n il.symbolSize (blockKeys acc)[p % il.depth]?
            (p / il.depth)) ∧
      ((blockKeys acc)[p % il.depth]?.getD 0 = 0 ∨
        il.rowAssigned (p % il.depth) = true ∧
          il.rowBlockKey (p % il.depth) = (blockKeys acc)[p % il.depth]?.getD 0 ∧
          (il.slots (p % il.depth)).symbolCount ≠ il.n) := by
  have hd : 0 < il.depth := Nat.lt_of_le_of_lt (Nat.zero_le _) h.room
  have hr : p % il.depth < il.depth := Nat.mod_lt p hd
  have hc : p / il.depth < il.n := Nat.div_lt_of_lt_mul hp
  have hmask : Bitset.test (il.slots (p % il.depth)).receivedMask (p / il.depth) = false := by
    rw [isHole, Bool.not_eq_true'] at hole
    exact hole
  have hnone : symbolAt acc (p % il.depth) (p / il.depth) = none := by
    have hm := h.rows.mask _ (p / il.depth) hr
    rw [hmask] at hm
    exact Option.not_isSome_iff_eq_none.mp (by rw [← hm]; exact Bool.false_ne_true)
  constructor
  · rw [windowOut, readOut, List.getElem?_map, List.getElem?_range hp, Option.map_some]
    rw [readCell, show itemAt Symbol.packetId column acc _ _ = none from hnone]
    rfl
  · cases hk : (blockKeys acc)[p % il.depth]? with
    | none => exact .inl rfl
    | some k =>
        have hlt := (List.getElem?_eq_some_iff.mp hk).1
        refine .inr ⟨?_, h.rows.rowKey _ k hk, ?_⟩
        · rw [h.rows.assigned _ hr]
          exact decide_eq_true hlt
        · rw [h.rows.count _ hr]
          intro hfull
          rw [Bitset.count_eq_iff.mp hfull _ hc] at hmask
          cases hmask

/-! ## The receiver -/

/-- The pushes of numbered symbols, each at its time. -/
def receive (times : Nat → Nat) (l : List (Symbol × Nat)) : List Op :=
  l.map fun x => .push x.1 (times x.2)

/-- **The padding contract** for the window `out` of `il` and the receiver `d`:
    no push of padding changes a slot, and the slots depend on the other
    symbols only. -/
structure PaddingIgnored (il : Interleaver) (out : List Symbol) (d : Deinterleaver) :
    Prop where
  each : ∀ p sym, out[p]? = some sym → isHole il p = true → ∀ now,
    (deinterleaverPushSymbol d sym now).2.slots = d.slots
  window : ∀ times, (run d (receive times out.zipIdx)).slots
    = (run d (receive times (out.zipIdx.filter fun x => !isHole il x.2))).slots

/-- Padding that is all erasures is ignored. -/
theorem paddingIgnored_of_erasures {il : Interleaver} {out : List Symbol}
    (h : ∀ p sym, out[p]? = some sym → isHole il p = true → isErasure sym = true)
    (d : Deinterleaver) : PaddingIgnored il out d where
  each := fun p sym hp hole now => (push_erasure d (h p sym hp hole) now).slots
  window := by
    intro times
    rw [(run_without_erasures (receive times out.zipIdx) d).slots,
      (run_without_erasures (receive times _) d).slots, receive, receive,
      List.filter_map, List.filter_map, List.filter_filter]
    -- what is no erasure is no hole
    have hsame : out.zipIdx.filter
          ((fun op => !isErasurePush op) ∘ fun x => Op.push x.1 (times x.2))
        = out.zipIdx.filter fun x =>
            ((fun op => !isErasurePush op) ∘ fun x => Op.push x.1 (times x.2)) x
              && !isHole il x.2 := by
      refine List.filter_congr fun x hx => ?_
      have hget := List.mem_zipIdx_iff_getElem?.mp hx
      show (!isErasure x.1) = (!isErasure x.1 && !isHole il x.2)
      cases hole : isHole il x.2 with
      | false => rw [Bool.not_false, Bool.and_true]
      | true =>
          rw [h x.2 x.1 hget hole]
          rfl
    rw [hsame]

/-- What `deinterleaver_create` leaves behind. -/
structure Fresh (n k : Nat) (d : Deinterleaver) : Prop where
  nEq : d.symbolsPerBlock = n
  kEq : d.k = k
  mEq : d.m = n - k
  slotCount : 0 < d.maxActiveBlocks
  kPos : 1 ≤ k
  kLt : k < n
  timeout : 0 < defaultTimeoutMs d
  empty : ∀ i, (d.slots i).state = .empty

theorem fresh_create {maxA n k ss : Nat} {stab age : ℚ} {d : Deinterleaver}
    (hd : deinterleaverCreate maxA n k ss stab age = some d) : Fresh n k d := by
  rw [deinterleaverCreate] at hd
  split at hd
  · cases hd
  · cases hd
    refine ⟨rfl, rfl, rfl, show 0 < maxA by omega, by omega, by omega, ?_, fun _ => rfl⟩
    rw [defaultTimeoutMs]
    split
    · assumption
    · norm_num

/-- **A fresh receiver takes any other symbol in range** for data. -/
theorem fresh_push_slots {n k : Nat} {d : Deinterleaver} (hd : Fresh n k d)
    {sym : Symbol} (hacc : isAccepted d sym = true) (now : Nat) :
    (deinterleaverPushSymbol d sym now).2.slots ≠ d.slots := by
  have hempty := hd.empty
  have hk : 1 ≤ d.k := by
    rw [hd.kEq]
    exact hd.kPos
  have hkn : d.k < d.symbolsPerBlock := by
    rw [hd.kEq, hd.nEq]
    exact hd.kLt
  have hm : d.m = d.symbolsPerBlock - d.k := by
    rw [hd.mEq, hd.nEq, hd.kEq]
  have htime := hd.timeout
  have hmax := hd.slotCount
  have heff := push_effect sym now hmax
  generalize deinterleaverPushSymbol d sym now = r at heff ⊢
  cases heff with
  | dropped hp hs hl hdrop =>
      obtain ⟨i, hf, -⟩ := hdrop hacc
      exact absurd (hempty i) (findSlotAny_some hf).2.1
  | @stored d' i base calls hacc' hi hb hnew hp hs hl =>
      rw [hs]
      intro heq
      have hslot := congrFun heq i
      rw [Function.update_self] at hslot
      have hstate := congrArg Slot.state hslot
      rw [hempty i] at hstate
      cases hb with
      | found hf hfill =>
          rw [hempty i] at hfill
          cases hfill
      | opened hf hc =>
          -- one symbol, just stored: neither late nor beyond repair
          have hcases := maybeFreezeSlot_cases d.symbolsPerBlock d.k d.m d.stabilizationMs
            (defaultTimeoutMs d) now d.stats
            (show (slotStore (openSlot d i sym.packetId now) sym d.symbolSize now).state
              = .filling from rfl)
          rw [pushedSlot, settledSlot] at hstate
          rcases hcases with ⟨h1, -, -⟩ | ⟨-, -, -, hbad, hwhen⟩ | ⟨h1, -, -⟩
          · rw [show freezeRc d _ _ now = .ready from h1] at hstate
            cases hstate
          · have hvalid : (slotStore (openSlot d i sym.packetId now) sym d.symbolSize
                now).validSymbols = 1 := rfl
            rw [hvalid] at hbad hwhen
            rcases hwhen with ⟨hk1, -⟩ | hlate
            · omega
            · have hzero : elapsedMs (slotStore (openSlot d i sym.packetId now) sym
                  d.symbolSize now).firstSymTime now = 0 := elapsedMs_self now
              rw [hzero] at hlate
              exact absurd htime (not_lt.mpr hlate)
          · rw [show freezeRc d _ _ now = .none from h1] at hstate
            cases hstate

/-! ## The contract -/

/-- A state of a run that can still be flushed is collecting. -/
theorem collects_of_flush {mem : Nat → Nat → Symbol} {depth n ss flush : Nat}
    {il0 : Interleaver} (hil : interleaverCreate mem depth n ss flush = some il0)
    (ops : List WindowOp) {now : Nat}
    (htick : (interleaverTick (windowRun il0 ops).1 now).1 = 1) :
    0 < n ∧ n ≤ 256 ∧ (windowRun il0 ops).1.depth = depth ∧
      (windowRun il0 ops).1.n = n ∧
      Collects (windowRun il0 ops).1 (windowRun il0 ops).2.accepted := by
  obtain ⟨hn, hn256, h0⟩ := windowInv_create hil
  obtain ⟨hdepth, hnn, -, hcur, -⟩ := windowInv_run ops hn (by omega) h0
  refine ⟨hn, hn256, hdepth, hnn, ?_⟩
  cases hcur with
  | collecting hc hp => exact hc
  | draining p hfits hdr hp =>
      have hzero := tick_draining hdr.ready now
      rw [windowRun] at htick
      rw [hzero] at htick
      exact nomatch htick

/-- **The padding contract holds** for a window that is flushed, whatever the
    receiver did before, if and only if every row of a block other than 0 is
    complete. -/
theorem padding_ignored_iff {mem : Nat → Nat → Symbol} {depth n ss flush : Nat}
    {il0 : Interleaver} (hil : interleaverCreate mem depth n ss flush = some il0)
    (ops : List WindowOp) (now : Nat) {maxA k : Nat} {stab age : ℚ} {d0 : Deinterleaver}
    (hd : deinterleaverCreate maxA n k ss stab age = some d0)
    (htick : (interleaverTick (windowRun il0 ops).1 now).1 = 1) :
    (∀ dops, PaddingIgnored (windowRun il0 ops).1 (flushed (windowRun il0 ops).1 now)
      (run d0 dops)) ↔ RowsComplete (windowRun il0 ops).1 := by
  obtain ⟨hn, hn256, hdepth, hnn, hc⟩ := collects_of_flush hil ops htick
  generalize windowRun il0 ops = st at htick hdepth hnn hc ⊢
  obtain ⟨il, hist⟩ := st
  dsimp only at htick hdepth hnn hc ⊢
  rw [flushed_eq hc (by rw [hnn]; exact hn) htick]
  have hout : ∀ p sym, (windowOut il.depth il.n il.symbolSize hist.accepted)[p]? = some sym →
      p < il.depth * il.n := by
    intro p sym hp
    have hlt := (List.getElem?_eq_some_iff.mp hp).1
    rw [windowOut, readOut_length] at hlt
    exact hlt
  constructor
  · intro hign r hr ha hk
    by_contra hshort
    -- a missing cell of the row, and the padding emitted for it
    obtain ⟨c, hcn, hbit⟩ : ∃ c, c < il.n ∧
        Bitset.test (il.slots r).receivedMask c = false := by
      by_contra hall
      refine hshort ?_
      rw [hc.rows.count r hr]
      refine Bitset.count_eq_iff.mpr fun c hcn => ?_
      cases hb : Bitset.test (il.slots r).receivedMask c with
      | true => rfl
      | false => exact absurd ⟨c, hcn, hb⟩ hall
    have hmod : (c * il.depth + r) % il.depth = r := by
      rw [Nat.mul_comm, Nat.mul_add_mod, Nat.mod_eq_of_lt hr]
    have hdiv : (c * il.depth + r) / il.depth = c := by
      rw [Nat.mul_comm, Nat.mul_add_div (by omega), Nat.div_eq_of_lt hr, Nat.add_zero]
    have hp : c * il.depth + r < il.depth * il.n := by
      have h1 : (c + 1) * il.depth ≤ il.n * il.depth := Nat.mul_le_mul_right _ hcn
      rw [Nat.add_mul, Nat.one_mul] at h1
      rw [Nat.mul_comm il.depth]
      omega
    have hole : isHole il (c * il.depth + r) = true := by
      rw [isHole, hmod, hdiv, hbit]
      rfl
    obtain ⟨hget, -⟩ := hole_symbol hc hp hole
    rw [hmod, hdiv] at hget
    have hsame := (hign []).each _ _ hget hole 0
    have hfresh := fresh_create hd
    refine fresh_push_slots hfresh ?_ 0 hsame
    -- the padding passes the checks of the receiver
    have hkey : (blockKeys hist.accepted)[r]?.getD 0 = il.rowBlockKey r := by
      have hlt := hc.rows.assigned r hr
      rw [ha] at hlt
      rw [List.getElem?_eq_getElem (of_decide_eq_true hlt.symm), Option.getD_some]
      exact (hc.rows.rowKey r _ (List.getElem?_eq_getElem _)).symm
    have hdn := hfresh.nEq
    rw [isAccepted_iff (by rw [hdn]; omega)]
    refine ⟨?_, Nat.zero_le _, ?_⟩
    · rw [isErasure, Bool.and_eq_false_iff]
      left
      rw [beq_eq_false_iff_ne]
      show (blockKeys hist.accepted)[r]?.getD 0 ≠ 0
      rw [hkey]
      exact hk
    · show (UInt32.ofNat c).toNat < d0.symbolsPerBlock
      rw [hdn, UInt32.toNat_ofNat']
      omega
  · intro hfull dops
    refine paddingIgnored_of_erasures (fun p sym hp hole => ?_) _
    obtain ⟨hget, hzero | ⟨ha, hk, hshort⟩⟩ := hole_symbol hc (hout p sym hp) hole
    · rw [Option.some.inj (hp.symm.trans hget), isErasure, Bool.and_eq_true, beq_iff_eq]
      exact ⟨hzero, rfl⟩
    · have hd : p % il.depth < il.depth :=
        Nat.mod_lt p (Nat.lt_of_le_of_lt (Nat.zero_le _) hc.room)
      have hzero : (blockKeys hist.accepted)[p % il.depth]?.getD 0 = 0 := by
        by_contra hne
        rw [← hk] at hne
        exact hshort (hfull _ hd ha hne)
      rw [Option.some.inj (hp.symm.trans hget), isErasure, Bool.and_eq_true, beq_iff_eq]
      exact ⟨hzero, rfl⟩

/-- Two rows of three symbols of one byte, and a flush after 5 ms. -/
def smallWindow : Interleaver :=
  (interleaverCreate (fun _ _ => symbolInit) 2 3 1 5).get rfl

/-- A receiver for blocks of three symbols, of which two are enough. -/
def smallReceiver : Deinterleaver := (deinterleaverCreate 8 3 2 1 2 50).get rfl

/-- The three symbols of block 7. -/
def blockSeven : List WindowOp :=
  [.push (cellSymbol 7 0 1) 0, .push (cellSymbol 7 1 2) 0, .push (cellSymbol 7 2 3) 0]

/-- With block 7 alone the other row belongs to no block, and its padding is
    dropped; with one symbol of block 8 in it, it is not. -/
theorem padding_ignored_blockSeven :
    (interleaverTick (windowRun smallWindow blockSeven).1 5000000).1 = 1 ∧
    (∀ dops, PaddingIgnored (windowRun smallWindow blockSeven).1
      (flushed (windowRun smallWindow blockSeven).1 5000000) (run smallReceiver dops)) ∧
    ¬ ∀ dops, PaddingIgnored
      (windowRun smallWindow (blockSeven ++ [.push (cellSymbol 8 0 4) 0])).1
      (flushed (windowRun smallWindow (blockSeven ++ [.push (cellSymbol 8 0 4) 0])).1 5000000)
      (run smallReceiver dops) := by
  have hil : interleaverCreate (fun _ _ => symbolInit) 2 3 1 5 = some smallWindow :=
    (Option.some_get _).symm
  have hd : deinterleaverCreate 8 3 2 1 2 50 = some smallReceiver :=
    (Option.some_get _).symm
  refine ⟨by decide +kernel, ?_, ?_⟩
  · have hiff := padding_ignored_iff hil blockSeven 5000000 hd (by decide +kernel)
    refine hiff.mpr ?_
    show ∀ r, r < 2 → _
    decide +kernel
  · have hiff := padding_ignored_iff hil (blockSeven ++ [.push (cellSymbol 8 0 4) 0]) 5000000
      hd (by decide +kernel)
    intro hall
    have hshort : ((windowRun smallWindow
        (blockSeven ++ [.push (cellSymbol 8 0 4) 0])).1.slots 1).symbolCount = 3 :=
      hiff.mp hall 1 (by decide) (by decide +kernel) (by decide +kernel)
    exact absurd hshort (by decide +kernel)

/-- **Padding taken for data**: of block 8 one symbol was accepted.  The flush
    pads its other two cells under its id; the receiver stores both and counts
    block 8 as complete. -/
theorem padding_taken_for_data :
    let il := (windowRun smallWindow (blockSeven ++ [.push (cellSymbol 8 0 4) 0])).1
    let out := flushed il 5000000
    let d := run smallReceiver (receive (fun _ => 0) out.zipIdx)
    out.map (fun s => (s.packetId, s.fecId, s.payloadLen))
        = [(7, 0, 1), (8, 0, 1), (7, 1, 1), (8, 1, 0), (7, 2, 1), (8, 2, 0)] ∧
      ¬ PaddingIgnored il out smallReceiver ∧
      (d.slots 1).blockId = 8 ∧ (d.slots 1).state = .readyToDecode ∧
      (d.slots 1).validSymbols = 3 := by
  refine ⟨by decide +kernel, ?_, by decide +kernel, by decide +kernel, by decide +kernel⟩
  intro hign
  have hslots := hign.window fun _ => 0
  have hvalid := congrArg (fun slots : Nat → Slot => (slots 1).validSymbols) hslots
  exact absurd hvalid (by decide +kernel)

end FsoLink
