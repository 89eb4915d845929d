import FsoGateway.DeinterleaverInvariant

/-! # How slots are left

    A FILLING slot is looked at after a symbol went into it and on every tick.

    * `exits_settled` — what `maybe_freeze_slot` and its callers make of it;
    * `slot_exits` — so for every push and every tick of a reachable pool;
    * `push_evicts` — a push into a full pool takes the slot of an oldest READY
      block, or else of an oldest FILLING one, and of no other. -/

namespace FsoDeinterleaver

open ByteBuffer FsoTypes

/-! ## The exits of FILLING -/

/-- The `k` symbols of a decodable block are there, and it is complete, or
    quiet, or as old as `timeoutMs`. -/
def Promotes (d : Deinterleaver) (s : Slot) (timeoutMs : ℚ) (now : Nat) : Prop :=
  d.k ≤ s.validSymbols ∧ (s.validSymbols = d.k + d.m
    ∨ d.stabilizationMs ≤ elapsedMs s.lastSymTime now
    ∨ timeoutMs ≤ elapsedMs s.firstSymTime now)

/-- The block is as old as `timeoutMs` and not decodable. -/
def Discards (d : Deinterleaver) (s : Slot) (timeoutMs : ℚ) (now : Nat) : Prop :=
  s.validSymbols < d.k ∧ timeoutMs ≤ elapsedMs s.firstSymTime now

/-- **The specified exits** of a FILLING slot `s` that ends as `s'`. -/
structure Exits (d : Deinterleaver) (s s' : Slot) (timeoutMs : ℚ) (now : Nat) : Prop where
  ready : s'.state = .readyToDecode ↔ Promotes d s timeoutMs now
  empty : s'.state = .empty ↔ Discards d s timeoutMs now
  filling : s'.state = .filling ↔ ¬ Promotes d s timeoutMs now ∧ ¬ Discards d s timeoutMs now
  promoted : s'.state = .readyToDecode → s' = { s with state := .readyToDecode }
  discarded : s'.state = .empty → s' = slotReset s
  kept : s'.state = .filling → s' = s

/-- Three cases that exclude each other. -/
theorem exits_of {d : Deinterleaver} {s : Slot} {timeoutMs : ℚ} {now : Nat} (s' : Slot)
    (h : (s' = { s with state := .readyToDecode } ∧ Promotes d s timeoutMs now)
      ∨ (s' = slotReset s ∧ Discards d s timeoutMs now)
      ∨ (s' = s ∧ s.state = .filling ∧ ¬ Promotes d s timeoutMs now
          ∧ ¬ Discards d s timeoutMs now)) :
    Exits d s s' timeoutMs now := by
  rcases h with ⟨rfl, hp⟩ | ⟨rfl, hd⟩ | ⟨rfl, hs, hp, hd⟩
  · have hnd : ¬ Discards d s timeoutMs now := by
      rintro ⟨hlt, _⟩
      exact absurd hp.1 (Nat.not_le.mpr hlt)
    constructor
    · exact ⟨fun _ => hp, fun _ => rfl⟩
    · exact ⟨fun h => (nomatch h), fun h => absurd h hnd⟩
    · exact ⟨fun h => (nomatch h), fun h => absurd hp h.1⟩
    · exact fun _ => rfl
    · exact fun h => nomatch h
    · exact fun h => nomatch h
  · have hnp : ¬ Promotes d s timeoutMs now := by
      rintro ⟨hle, _⟩
      exact absurd hle (Nat.not_le.mpr hd.1)
    constructor
    · exact ⟨fun h => (nomatch h), fun h => absurd h hnp⟩
    · exact ⟨fun _ => hd, fun _ => rfl⟩
    · exact ⟨fun h => (nomatch h), fun h => absurd hd h.2⟩
    · exact fun h => nomatch h
    · exact fun _ => rfl
    · exact fun h => nomatch h
  · constructor
    · rw [hs]
      exact ⟨fun h => (nomatch h), fun h => absurd h hp⟩
    · rw [hs]
      exact ⟨fun h => (nomatch h), fun h => absurd h hd⟩
    · exact ⟨fun _ => ⟨hp, hd⟩, fun _ => hs⟩
    · rw [hs]
      exact fun h => nomatch h
    · rw [hs]
      exact fun h => nomatch h
    · exact fun _ => rfl

/-- **Settling** a FILLING slot: a decodable block is never discarded. -/
theorem exits_settled {d : Deinterleaver} (hpar : ParamsOk d) {s : Slot}
    (hs : s.state = .filling) (hle : s.validSymbols ≤ d.symbolsPerBlock) (timeoutMs : ℚ)
    (now : Nat) : Exits d s (settledSlot d s timeoutMs now) timeoutMs now := by
  have hn : d.symbolsPerBlock = d.k + d.m := by
    have := hpar.repair
    have := hpar.holes
    omega
  have hstab : d.stabilizationMs = 0 → d.stabilizationMs ≤ elapsedMs s.lastSymTime now := by
    intro h0
    rw [h0]
    exact elapsedMs_nonneg _ _
  have hc := maybeFreezeSlot_cases d.symbolsPerBlock d.k d.m d.stabilizationMs timeoutMs now
    d.stats hs
  apply exits_of
  rcases hc with ⟨h1, -, h3⟩ | ⟨h1, -, h3, h4, h5⟩ | ⟨h1, -, h3, h4, h5⟩
  · have hrc : freezeRc d s timeoutMs now = .ready := h1
    refine .inl ⟨by rw [settledSlot, hrc], ?_⟩
    rcases h3 with hfull | ⟨hk, _, hstable | hlate⟩
    · exact ⟨by omega, .inl (by omega)⟩
    · exact ⟨hk, .inr (.inl (hstable.2.elim hstab id))⟩
    · exact ⟨hk, .inr (.inr hlate)⟩
  · have hrc : freezeRc d s timeoutMs now = .recycle := h1
    -- with `k` symbols there are at most `m` holes
    have hlt : s.validSymbols < d.k := by omega
    refine .inr (.inl ⟨by rw [settledSlot, hrc], hlt, ?_⟩)
    rcases h5 with hstable | hlate
    · exact absurd hstable.1 (Nat.not_le.mpr hlt)
    · exact hlate
  · have hrc : freezeRc d s timeoutMs now = .none := h1
    refine .inr (.inr ⟨by rw [settledSlot, hrc], hs, ?_, fun h => h5 h.2⟩)
    rintro ⟨hk, hfull | hquiet | hlate⟩
    · omega
    · exact h4 ⟨hk, .inr hquiet⟩
    · exact h5 hlate

/-! ## Push and tick -/

/-- The slot that a push stores into, with the symbol in it. -/
def storedSlot (d : Deinterleaver) (base : Slot) (sym : Symbol) (now : Nat) : Slot :=
  slotStore base sym d.symbolSize now

/-- The room a push needs: the symbol is dropped, and nothing is stored, when
    its block is frozen or has the position already. -/
def AlreadyThere (d : Deinterleaver) (sym : Symbol) : Prop :=
  ∃ i, findSlotAny d sym.packetId = some i ∧
    ((d.slots i).state ≠ .filling
      ∨ Bitset.test (d.slots i).receivedMask sym.fecId.toNat = true)

/-- What a push does to the slots: nothing, or it stores into the FILLING slot
    of the block or into one opened for it, which ends as specified. -/
def PushExits (d : Deinterleaver) (sym : Symbol) (now : Nat) (d' : Deinterleaver) : Prop :=
  (d'.slots = d.slots ∧ (isAccepted d sym = true → AlreadyThere d sym))
    ∨ ∃ (i : Nat) (base : Slot) (calls : List CbCall), i < d.maxActiveBlocks
        ∧ PushBase d sym.packetId now i base calls
        ∧ Exits d (storedSlot d base sym now) (d'.slots i) (defaultTimeoutMs d) now
        ∧ ∀ j, j ≠ i → d'.slots j = d.slots j

/-- What a tick does to the slots: the FILLING ones end as specified. -/
def TickExits (d : Deinterleaver) (override : ℚ) (now : Nat) (d' : Deinterleaver) : Prop :=
  ∀ i, (i < d.maxActiveBlocks → (d.slots i).state = .filling →
      Exits d (d.slots i) (d'.slots i) (tickTimeoutMs d override) now)
    ∧ (¬ (i < d.maxActiveBlocks ∧ (d.slots i).state = .filling) → d'.slots i = d.slots i)

theorem push_exits {d : Deinterleaver} {seen : UInt32 → List Symbol} (h : PoolInv d seen)
    (sym : Symbol) (now : Nat) : PushExits d sym now (deinterleaverPushSymbol d sym now).2 := by
  have heff := push_effect sym now (d := d) h.params.slots
  generalize deinterleaverPushSymbol d sym now = r at heff ⊢
  cases heff with
  | dropped hp hs hl hacc => exact .inl ⟨hs, hacc⟩
  | @stored d' i base calls hacc hi hb hnew hp hs hl =>
      refine .inr ⟨i, base, calls, hi, hb, ?_, ?_⟩
      · show Exits d _ (d'.slots i) _ _
        rw [hs, Function.update_self]
        refine exits_settled (s := storedSlot d base sym now) h.params hb.filling.1 ?_ _ _
        show base.validSymbols + 1 ≤ d.symbolsPerBlock
        have hrep := h.params.repair
        cases hb with
        | found hf hsf =>
            obtain ⟨hif, hne, _⟩ := findSlotAny_some hf
            exact (h.slot i hif hne).filling hsf
        | opened hf hc =>
            show 0 + 1 ≤ d.symbolsPerBlock
            omega
      · intro j hj
        show d'.slots j = _
        rw [hs, Function.update_of_ne hj]

theorem tick_exits {d : Deinterleaver} {seen : UInt32 → List Symbol} (h : PoolInv d seen)
    (override : ℚ) (now : Nat) :
    TickExits d override now (deinterleaverTick d override now).2 := by
  intro i
  have hsl := (tick_slots d override now).2 i
  constructor
  · intro hi hs
    rw [hsl, if_pos ⟨hi, hs⟩]
    have hne : (d.slots i).state ≠ .empty := by
      rw [hs]
      exact fun h => nomatch h
    exact exits_settled h.params hs (Nat.le_of_lt ((h.slot i hi hne).filling hs)) _ _
  · intro hno
    rw [hsl, if_neg hno]

/-- A tick with override 0 leaves no FILLING slot. -/
theorem tick_flush {d : Deinterleaver} {seen : UInt32 → List Symbol} (h : PoolInv d seen)
    (now : Nat) {i : Nat} (hi : i < d.maxActiveBlocks) :
    ((deinterleaverTick d 0 now).2.slots i).state ≠ .filling := by
  obtain ⟨hfill, hother⟩ := tick_exits h 0 now i
  intro hs'
  by_cases hs : (d.slots i).state = .filling
  · have hex := hfill hi hs
    obtain ⟨hnp, hnd⟩ := hex.filling.mp hs'
    have hzero : tickTimeoutMs d 0 ≤ elapsedMs (d.slots i).firstSymTime now := by
      rw [tickTimeoutMs, if_neg (lt_irrefl _), if_pos rfl]
      exact elapsedMs_nonneg _ _
    rcases Nat.lt_or_ge (d.slots i).validSymbols d.k with hlt | hge
    · exact hnd ⟨hlt, hzero⟩
    · exact hnp ⟨hge, .inr (.inr hzero)⟩
  · rw [hother (fun h => hs h.2)] at hs'
    exact hs hs'

/-- The slot is given to another block to make room. -/
def Evicts (d : Deinterleaver) (sym : Symbol) (now i : Nat) : Prop :=
  findSlotAny d sym.packetId = none ∧ AllocChoice d now i ∧ (d.slots i).state ≠ .empty

/-- **Exits are exactly the specified ones**, in every reachable state and for
    every clock reading: after a push, after a tick, with a tick that flushes;
    so a slot with `k` symbols is emptied by eviction only.  Times are those
    that `elapsed_ms` measures, which for a limit of whole milliseconds decides
    as the nanosecond clock does. -/
theorem slot_exits {maxA n k ss : Nat} {stab age : ℚ} {d0 : Deinterleaver}
    (hd : deinterleaverCreate maxA n k ss stab age = some d0) (ops : List Op) (now : Nat) :
    let d := run d0 ops
    (∀ sym, PushExits d sym now (deinterleaverPushSymbol d sym now).2)
      ∧ (∀ override, TickExits d override now (deinterleaverTick d override now).2)
      ∧ (∀ i < d.maxActiveBlocks, ((deinterleaverTick d 0 now).2.slots i).state ≠ .filling)
      ∧ (∀ i < d.maxActiveBlocks, (d.slots i).state ≠ .empty → d.k ≤ (d.slots i).validSymbols →
          (∀ override, ((deinterleaverTick d override now).2.slots i).state ≠ .empty)
          ∧ ∀ sym, ¬ Evicts d sym now i →
              ((deinterleaverPushSymbol d sym now).2.slots i).state ≠ .empty
                ∧ ((deinterleaverPushSymbol d sym now).2.slots i).blockId
                    = (d.slots i).blockId)
      ∧ ∀ t : Nat, 0 < t → t ≤ 2 ^ 32 → ∀ start,
          (t : ℚ) ≤ elapsedMs start now ↔ start + t * 1000000 ≤ now := by
  intro d
  have h : PoolInv d (seenRun d0 (fun _ => []) ops) := poolInv_run ops (poolInv_create hd)
  refine ⟨fun sym => push_exits h sym now, fun o => tick_exits h o now,
    fun i hi => tick_flush h now hi, ?_, fun t hpos ht start => le_elapsedMs_iff hpos ht start now⟩
  intro i hi hne hk
  constructor
  · intro override hempty
    obtain ⟨hfill, hother⟩ := tick_exits h override now i
    by_cases hs : (d.slots i).state = .filling
    · have hdisc := (hfill hi hs).empty.mp hempty
      exact absurd hk (Nat.not_le.mpr hdisc.1)
    · rw [hother (fun h => hs h.2)] at hempty
      exact hne hempty
  · intro sym hno
    rcases push_exits h sym now with ⟨hs, _⟩ | ⟨j, base, calls, hj, hb, hex, hother⟩
    · rw [hs]
      exact ⟨hne, rfl⟩
    · by_cases hij : i = j
      · subst hij
        cases hb with
        | opened hf hc => exact absurd ⟨hf, hc, hne⟩ hno
        -- the slot had `k` symbols before this one: it is not discarded
        | found hf hsf =>
            have hnd : ((deinterleaverPushSymbol d sym now).2.slots i).state ≠ .empty := by
              intro hempty
              have hdisc := (hex.empty.mp hempty).1
              have hone : (storedSlot d (d.slots i) sym now).validSymbols
                  = (d.slots i).validSymbols + 1 := rfl
              omega
            refine ⟨hnd, ?_⟩
            cases hst : ((deinterleaverPushSymbol d sym now).2.slots i).state with
            | empty => exact absurd hst hnd
            | filling => rw [hex.kept hst]; rfl
            | readyToDecode => rw [hex.promoted hst]; rfl
      · rw [hother i hij]
        exact ⟨hne, rfl⟩

/-- One symbol of two: flushed, the block is not FILLING any more. -/
theorem slot_exits_flushed :
    ((deinterleaverTick (run ((deinterleaverCreate 4 3 2 1 0 0).get rfl)
      [.push (byteSymbol 7 2 5) 10]) 0 20).2.slots 0).state ≠ .filling :=
  (slot_exits create_small [.push (byteSymbol 7 2 5) 10] 20).2.2.1 0
    (by decide +kernel)

/-! ## First symbol times -/

/-- The clock reading that a call takes. -/
def Op.time : Op → Option Nat
  | .push _ now => some now
  | .tick _ now => some now
  | _ => none

/-- The clock does not run backwards over a run and up to `now`. -/
def ClockMonotone (ops : List Op) (now : Nat) : Prop :=
  (ops.filterMap Op.time ++ [now]).Pairwise (· ≤ ·)

/-- No block in the pool began after `now`. -/
def BegunBy (d : Deinterleaver) (now : Nat) : Prop :=
  ∀ i, (d.slots i).state ≠ .empty → (d.slots i).firstSymTime ≤ now

theorem settled_firstSymTime {d : Deinterleaver} {s : Slot} (hs : s.state = .filling)
    (timeoutMs : ℚ) (now : Nat) (hne : (settledSlot d s timeoutMs now).state ≠ .empty) :
    (settledSlot d s timeoutMs now).firstSymTime = s.firstSymTime := by
  rcases settledSlot_cases timeoutMs now hs with ⟨he, _⟩ | ⟨he, _⟩ | ⟨he, _⟩
  · rw [he]
  · rw [he] at hne
    exact absurd rfl hne
  · rw [he]

theorem begunBy_create {maxA n k ss : Nat} {stab age : ℚ} {d : Deinterleaver}
    (hd : deinterleaverCreate maxA n k ss stab age = some d) (now : Nat) : BegunBy d now := by
  intro i hne
  rw [deinterleaverCreate] at hd
  split at hd
  · cases hd
  · rw [← Option.some.inj hd] at hne
    exact absurd rfl hne

/-- **One call**, at a time that is not before any other. -/
theorem begunBy_step {d : Deinterleaver} {seen : UInt32 → List Symbol} (h : PoolInv d seen)
    (op : Op) {now : Nat} (hop : ∀ t ∈ op.time, t ≤ now) (hb : BegunBy d now) :
    BegunBy (step d op) now := by
  cases op with
  | push sym t =>
      have ht : t ≤ now := hop t rfl
      have heff := push_effect sym t (d := d) h.params.slots
      show BegunBy (deinterleaverPushSymbol d sym t).2 now
      generalize deinterleaverPushSymbol d sym t = r at heff ⊢
      cases heff with
      | dropped hp hs hl hacc =>
          intro i hne
          rw [hs] at hne ⊢
          exact hb i hne
      | @stored d' i base calls hacc hi hbase hnew hp hs hl =>
          intro j hne
          rw [hs] at hne ⊢
          by_cases hji : j = i
          · subst hji
            rw [Function.update_self] at hne ⊢
            have hfirst := settled_firstSymTime (s := slotStore base sym d.symbolSize t)
              hbase.filling.1 _ _ hne
            rw [pushedSlot, hfirst]
            show base.firstSymTime ≤ now
            cases hbase with
            | found hf hsf => exact hb j (findSlotAny_some hf).2.1
            | opened hf hc => exact ht
          · rw [Function.update_of_ne hji] at hne ⊢
            exact hb j hne
  | tick override t =>
      intro i hne
      have hsl := (tick_slots d override t).2 i
      have hstep : (step d (.tick override t)).slots i
          = (deinterleaverTick d override t).2.slots i := rfl
      rw [hstep, hsl] at hne ⊢
      split at hne
      · rename_i hf
        rw [if_pos hf, settled_firstSymTime hf.2 _ _ hne]
        refine hb i ?_
        rw [hf.2]
        intro h
        cases h
      · rename_i hf
        rw [if_neg hf]
        exact hb i hne
  | getReadyBlock =>
      show BegunBy (deinterleaverGetReadyBlock d).2 now
      rw [getReady_eq h]
      exact hb
  | markResult b ok =>
      show BegunBy (deinterleaverMarkResult d b ok).2 now
      rcases markResult_effect d b ok with ⟨he, -⟩ | ⟨i, -, hs, he⟩
      · rw [he]
        exact hb
      · rw [he]
        intro j hne
        have hnei : (d.slots i).state ≠ .empty := by
          rw [hs]
          intro h
          cases h
        rw [finalize_slots _ hnei] at hne ⊢
        by_cases hji : j = i
        · subst hji
          rw [Function.update_self] at hne
          exact absurd rfl hne
        · rw [Function.update_of_ne hji] at hne ⊢
          exact hb j hne
  | incCrcDrop => exact hb
  | setBlockFinalCallback => exact hb
  | setEvictionCallback => exact hb

/-- **A run** whose calls are all made by `now`. -/
theorem begunBy_run (ops : List Op) {d : Deinterleaver} {seen : UInt32 → List Symbol}
    (h : PoolInv d seen) {now : Nat} (hops : ∀ t ∈ ops.filterMap Op.time, t ≤ now)
    (hb : BegunBy d now) : BegunBy (run d ops) now := by
  induction ops generalizing d seen with
  | nil => exact hb
  | cons op ops ih =>
      have hsplit : ∀ t, t ∈ (op :: ops).filterMap Op.time ↔
          t ∈ op.time ∨ t ∈ ops.filterMap Op.time := by
        intro t
        cases ht : op.time with
        | none =>
            rw [List.filterMap_cons_none ht]
            simp
        | some x =>
            rw [List.filterMap_cons_some ht, List.mem_cons]
            simp [eq_comm]
      refine ih (poolInv_step op h) ?_ (begunBy_step h op ?_ hb)
      · intro t ht
        exact hops t ((hsplit t).mpr (.inr ht))
      · intro t ht
        exact hops t ((hsplit t).mpr (.inl ht))

/-! ## Eviction -/

/-- An oldest READY slot, or an oldest FILLING one when there is none. -/
def Victim (d : Deinterleaver) (v : Nat) : Prop :=
  ((d.slots v).state = .readyToDecode
      ∧ ∀ j < d.maxActiveBlocks, (d.slots j).state = .readyToDecode →
        (d.slots v).firstSymTime ≤ (d.slots j).firstSymTime)
    ∨ (d.slots v).state = .filling
      ∧ ∀ j < d.maxActiveBlocks, (d.slots j).state = .filling
        ∧ (d.slots v).firstSymTime ≤ (d.slots j).firstSymTime

/-- The same by the age that `alloc_slot` compares. -/
def VictimByAge (d : Deinterleaver) (now v : Nat) : Prop :=
  ((d.slots v).state = .readyToDecode
      ∧ ∀ j < d.maxActiveBlocks, (d.slots j).state = .readyToDecode →
        slotAge d now j ≤ slotAge d now v)
    ∨ (d.slots v).state = .filling
      ∧ ∀ j < d.maxActiveBlocks, (d.slots j).state = .filling
        ∧ slotAge d now j ≤ slotAge d now v

/-- No slot is older than a `double` of milliseconds resolves nanoseconds:
    `2 ^ 33` ms are 99 days. -/
def AgesResolved (d : Deinterleaver) (now : Nat) : Prop :=
  ∀ i < d.maxActiveBlocks, now < (d.slots i).firstSymTime + 2 ^ 33 * 1000000

/-- A slot that was opened with this symbol, and holds nothing else. -/
structure OnlySymbol (d : Deinterleaver) (s : Slot) (sym : Symbol) (now : Nat) : Prop where
  state : s.state = .filling ∨ s.state = .readyToDecode
  blockId : s.blockId = sym.packetId
  validSymbols : s.validSymbols = 1
  symbolCount : s.block.symbolCount = 1
  mask : ∀ p, Bitset.test s.receivedMask p = true ↔ p = sym.fecId.toNat
  symbol : clipSymbol d.symbolSize (s.block.symbols sym.fecId.toNat)
    = clipSymbol d.symbolSize sym
  hole : ∀ p < d.symbolsPerBlock, p ≠ sym.fecId.toNat → (s.block.symbols p).packetId = 0
  times : s.firstSymTime = now ∧ s.lastSymTime = now

/-- The older slot has the greater age. -/
theorem firstSymTime_le_of_age {d : Deinterleaver} {now i j : Nat}
    (hi : (d.slots i).firstSymTime ≤ now)
    (hres : now < (d.slots j).firstSymTime + 2 ^ 33 * 1000000)
    (h : slotAge d now j ≤ slotAge d now i) :
    (d.slots i).firstSymTime ≤ (d.slots j).firstSymTime := by
  by_contra hlt
  exact absurd h (not_le.mpr (elapsedMs_lt (not_le.mp hlt) hi hres))

theorem victimByAge_of_choice {d : Deinterleaver} {now v : Nat}
    (hfull : ∀ i < d.maxActiveBlocks, (d.slots i).state ≠ .empty)
    (hv : v < d.maxActiveBlocks) (hc : AllocChoice d now v) : VictimByAge d now v := by
  cases hc with
  | free hs => exact absurd hs (hfull v hv)
  | ready hs _ hold => exact .inl ⟨hs, hold⟩
  | filling hs hall hold => exact .inr ⟨hs, fun j hj => ⟨hall j hj, hold j hj⟩⟩

theorem victim_of_byAge {d : Deinterleaver} {now v : Nat}
    (hbv : (d.slots v).firstSymTime ≤ now) (hres : AgesResolved d now)
    (h : VictimByAge d now v) : Victim d v := by
  rcases h with ⟨hs, hold⟩ | ⟨hs, hold⟩
  · refine .inl ⟨hs, ?_⟩
    intro j hj hjs
    exact firstSymTime_le_of_age hbv (hres j hj) (hold j hj hjs)
  · refine .inr ⟨hs, ?_⟩
    intro j hj
    exact ⟨(hold j hj).1, firstSymTime_le_of_age hbv (hres j hj) (hold j hj).2⟩

/-- The slot opened for a symbol: promoted at once or FILLING, never discarded. -/
theorem onlySymbol_opened {d : Deinterleaver} (hpar : ParamsOk d) (v : Nat) (sym : Symbol)
    (now : Nat) :
    OnlySymbol d (pushedSlot d (openSlot d v sym.packetId now) sym now) sym now := by
  have hpos : 0 < defaultTimeoutMs d := by
    rw [defaultTimeoutMs]
    split
    · assumption
    · norm_num
  have hage : elapsedMs now now = 0 := elapsedMs_self now
  have hex := exits_settled (s := slotStore (openSlot d v sym.packetId now) sym d.symbolSize now)
    hpar rfl (by show 0 + 1 ≤ _; have := hpar.repair; omega) (defaultTimeoutMs d) now
  have hstate : (pushedSlot d (openSlot d v sym.packetId now) sym now).state ≠ .empty := by
    intro hempty
    have hlate : defaultTimeoutMs d ≤ elapsedMs now now := (hex.empty.mp hempty).2
    rw [hage] at hlate
    exact absurd hlate (not_le.mpr hpos)
  -- apart from the state it is the slot that was stored into
  have hsame : pushedSlot d (openSlot d v sym.packetId now) sym now
      = { slotStore (openSlot d v sym.packetId now) sym d.symbolSize now with
          state := (pushedSlot d (openSlot d v sym.packetId now) sym now).state } := by
    cases hst : (pushedSlot d (openSlot d v sym.packetId now) sym now).state with
    | empty => exact absurd hst hstate
    | filling => exact hex.kept hst
    | readyToDecode => exact hex.promoted hst
  have hcases : (pushedSlot d (openSlot d v sym.packetId now) sym now).state = .filling
      ∨ (pushedSlot d (openSlot d v sym.packetId now) sym now).state = .readyToDecode := by
    cases hst : (pushedSlot d (openSlot d v sym.packetId now) sym now).state with
    | empty => exact absurd hst hstate
    | filling => exact .inl rfl
    | readyToDecode => exact .inr rfl
  have hmask : (slotStore (openSlot d v sym.packetId now) sym d.symbolSize now).receivedMask
      = Bitset.set Bitset.clear sym.fecId.toNat := rfl
  have hsymbols : (slotStore (openSlot d v sym.packetId now) sym d.symbolSize now).block.symbols
      = Function.update (openSlot d v sym.packetId now).block.symbols sym.fecId.toNat
          (copySymbol ((openSlot d v sym.packetId now).block.symbols sym.fecId.toNat) sym
            d.symbolSize) := rfl
  rw [hsame]
  constructor
  · exact hcases
  · rfl
  · rfl
  · rfl
  · intro p
    simp only [hmask, Bitset.test_set, Bitset.test_clear]
    simp [eq_comm]
  · simp only [hsymbols, Function.update_self, clipSymbol_copySymbol]
  · intro p hp hne
    simp only [hsymbols, Function.update_of_ne hne]
    show (if p < d.symbolsPerBlock then _ else _ : Symbol).packetId = 0
    rw [if_pos hp]
  · exact ⟨rfl, rfl⟩

theorem storeSymbol_rc (d : Deinterleaver) (i : Nat) (sym : Symbol) (now : Nat) :
    (storeSymbol d i sym now).1 ≠ -1 := by
  rw [storeSymbol]
  split
  · intro h
    cases h
  · show (if _ then (1 : Int) else 0) ≠ -1
    split
    · intro h
      cases h
    · intro h
      cases h

/-- A push that returns `-1` was refused before it touched anything. -/
theorem push_refused {d : Deinterleaver} {sym : Symbol} {now : Nat}
    (hpos : 0 < d.maxActiveBlocks) (h : (deinterleaverPushSymbol d sym now).1 = -1) :
    isRejected d sym = true ∧ (deinterleaverPushSymbol d sym now).2 = d := by
  rw [deinterleaverPushSymbol] at h ⊢
  split at h
  · cases h
  · rename_i hne
    rw [if_neg hne]
    split at h
    · rename_i hrej
      rw [if_pos hrej]
      exact ⟨hrej, rfl⟩
    · exfalso
      cases hf : findSlotAny d sym.packetId with
      | none =>
          rw [hf] at h
          obtain ⟨i, d', ha, _⟩ := allocSlot_spec sym.packetId now hpos
          rw [ha] at h
          exact storeSymbol_rc d' i sym now h
      | some i =>
          rw [hf] at h
          simp only at h
          split at h
          · cases h
          · exact storeSymbol_rc d i sym now h

/-- **Eviction.**  A push that returns `-1` changes nothing.  If every slot is
    in use and the symbol is a valid one of a block that has none, a victim is
    emptied and holds the new symbol only; no other slot changes.  The victim
    is the oldest by its age in a `double`, hence by its first symbol as long
    as no slot is 99 days old. -/
theorem push_evicts {maxA n k ss : Nat} {stab age : ℚ} {d0 : Deinterleaver}
    (hd : deinterleaverCreate maxA n k ss stab age = some d0) (ops : List Op) (sym : Symbol)
    (now : Nat) :
    let d := run d0 ops
    let r := deinterleaverPushSymbol d sym now
    (r.1 = -1 → r.2 = d)
      ∧ (ClockMonotone ops now →
          (∀ i < maxA, (d.slots i).state ≠ .empty ∧ (d.slots i).blockId ≠ sym.packetId) →
          isAccepted d sym = true →
          r.1 ≠ -1 ∧ ∃ v < maxA, VictimByAge d now v ∧ (AgesResolved d now → Victim d v)
            ∧ OnlySymbol d (r.2.slots v) sym now ∧ ∀ j, j ≠ v → r.2.slots j = d.slots j) := by
  intro d r
  have h0 := poolInv_create hd
  have h : PoolInv d (seenRun d0 (fun _ => []) ops) := poolInv_run ops h0
  refine ⟨fun hrc => (push_refused h.params.slots hrc).2, ?_⟩
  intro hclock hfull hacc
  have hslots : d.maxActiveBlocks = maxA := by
    rw [deinterleaverCreate] at hd
    split at hd
    · cases hd
    · rw [(run_sameSize ops d0 h0).1, ← Option.some.inj hd]
  rw [← hslots] at hfull ⊢
  have hbegun : BegunBy d now := by
    refine begunBy_run ops h0 ?_ (begunBy_create hd now)
    intro t ht
    exact (List.pairwise_append.mp hclock).2.2 t ht now List.mem_cons_self
  have heff := push_effect sym now (d := d) h.params.slots
  -- no slot has the block: the push must open one
  have hnew : findSlotAny d sym.packetId = none := by
    cases hf : findSlotAny d sym.packetId with
    | none => rfl
    | some i =>
        obtain ⟨hi, _, hid⟩ := findSlotAny_some hf
        exact absurd hid (hfull i hi).2
  constructor
  · intro hrc
    have hrej := (push_refused h.params.slots hrc).1
    rw [isAccepted, hrej, Bool.not_true, Bool.and_false] at hacc
    cases hacc
  · have hr : r = deinterleaverPushSymbol d sym now := rfl
    rw [← hr] at heff
    generalize r = r' at heff ⊢
    cases heff with
    | dropped hp hs hl hdrop =>
        obtain ⟨i, hf, _⟩ := hdrop hacc
        rw [hnew] at hf
        cases hf
    | @stored d' v base calls _ hv hb hbit hp hs hl =>
        cases hb with
        | found hf _ =>
            rw [hnew] at hf
            cases hf
        | opened _ hc =>
            have hage : VictimByAge d now v :=
              victimByAge_of_choice (fun i hi => (hfull i hi).1) hv hc
            refine ⟨v, hv, hage,
              fun hres => victim_of_byAge (hbegun v (hfull v hv).1) hres hage, ?_, ?_⟩
            · show OnlySymbol d (d'.slots v) sym now
              rw [hs, Function.update_self]
              exact onlySymbol_opened h.params v sym now
            · intro j hj
              show d'.slots j = _
              rw [hs, Function.update_of_ne hj]

/-- A pool of one slot. -/
theorem create_single :
    deinterleaverCreate 1 3 2 1 0 0
      = some ((deinterleaverCreate 1 3 2 1 0 0).get rfl) := (Option.some_get rfl).symm

/-- Block 8 takes the slot of block 7. -/
theorem push_evicts_single :
    ∃ v < 1, Victim (run ((deinterleaverCreate 1 3 2 1 0 0).get rfl)
        [.push (byteSymbol 7 2 5) 10]) v
      ∧ OnlySymbol (run ((deinterleaverCreate 1 3 2 1 0 0).get rfl)
        [.push (byteSymbol 7 2 5) 10])
      ((deinterleaverPushSymbol (run ((deinterleaverCreate 1 3 2 1 0 0).get rfl)
        [.push (byteSymbol 7 2 5) 10]) (byteSymbol 8 0 6) 20).2.slots v)
      (byteSymbol 8 0 6) 20 := by
  obtain ⟨_, v, hv, _, hvictim, honly, _⟩ := (push_evicts create_single
    [.push (byteSymbol 7 2 5) 10] (byteSymbol 8 0 6) 20).2 (by simp [ClockMonotone, Op.time])
    (by decide +kernel) (by decide +kernel)
  refine ⟨v, hv, hvictim ?_, honly⟩
  rw [AgesResolved]
  decide +kernel

/-- Slot 0 is given up and opened again a nanosecond after slot 1, then
    nothing comes for half a year. -/
def tiedOps : List Op :=
  [.push (byteSymbol 1 2 5) 0, .push (byteSymbol 2 2 5) 999999, .tick 1 1000000,
    .push (byteSymbol 3 2 5) 1000000]

/-- The clock half a year later. -/
def tiedNow : Nat := (2 ^ 34 + 1) * 1000000

/-- The two ages are one `double`: the younger slot is evicted. -/
theorem push_evicts_younger :
    deinterleaverCreate 2 3 2 1 0 0 = some ((deinterleaverCreate 2 3 2 1 0 0).get rfl)
      ∧ ClockMonotone tiedOps tiedNow
      ∧ (∀ i < 2, ((run ((deinterleaverCreate 2 3 2 1 0 0).get rfl) tiedOps).slots i).state
            ≠ .empty
          ∧ ((run ((deinterleaverCreate 2 3 2 1 0 0).get rfl) tiedOps).slots i).blockId ≠ 4)
      ∧ isAccepted (run ((deinterleaverCreate 2 3 2 1 0 0).get rfl) tiedOps)
          (byteSymbol 4 0 6) = true
      ∧ ¬ ∃ v < 2, Victim (run ((deinterleaverCreate 2 3 2 1 0 0).get rfl) tiedOps) v
          ∧ OnlySymbol (run ((deinterleaverCreate 2 3 2 1 0 0).get rfl) tiedOps)
            ((deinterleaverPushSymbol (run ((deinterleaverCreate 2 3 2 1 0 0).get rfl) tiedOps)
              (byteSymbol 4 0 6) tiedNow).2.slots v) (byteSymbol 4 0 6) tiedNow := by
  refine ⟨(Option.some_get rfl).symm, ?_, by decide +kernel, by decide +kernel, ?_⟩
  · simp [ClockMonotone, Op.time, tiedOps, tiedNow]
  · rintro ⟨v, hv, hvictim, honly⟩
    -- the new block is in slot 0, whose first symbol came later
    have hslot : v = 0 := by
      by_contra hne
      have h1 : v = 1 := by omega
      subst h1
      exact absurd honly.blockId (by decide +kernel)
    subst hslot
    rcases hvictim with ⟨hs, _⟩ | ⟨_, hold⟩
    · exact absurd hs (by decide +kernel)
    · exact absurd (hold 1 (by decide +kernel)).2 (by decide +kernel)

end FsoDeinterleaver
