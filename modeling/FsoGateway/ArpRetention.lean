import FsoGateway.ArpCache
import Mathlib.Data.Finset.Card
import Mathlib.Data.List.Nodup

/-! # What the proxy-ARP cache keeps

    A learn call takes the slot of its address, or the first valid slot that
    has expired, or a slot not used before.  A slot that a lookup has
    invalidated is none of these: it still counts as used, and no learn call
    looks at it again.

    * `arpCacheLearn_cases` — all that a learn call can do;
    * `arpCache_keeps_iff` — every lookup within 300 seconds of the last learn
      of its address succeeds, in every state of a run, just when every learn
      call of the run finds a slot; where one does not, although the addresses
      would fit, a slot has been invalidated;
    * `Deaf.run` — a full table without a valid slot stays so for good;
    * `arpCache_forgets` — 256 hosts looked up after they expired make it one. -/

namespace FsoArpCache

/-- The reading of the clock a call takes. -/
def Call.now : Call → Int
  | .learn now _ _ => now
  | .lookup now _ => now
  | .dump now _ => now

/-- The clock does not go back. -/
def ClockForward (calls : List Call) : Prop := calls.Pairwise fun a b => a.now ≤ b.now

/-- A time that is not before any of the calls. -/
def After (calls : List Call) (now : Int) : Prop := ∀ call ∈ calls, call.now ≤ now

/-- The most recent learn call for an address is not older than 300 seconds. -/
def FreshAt (calls : List Call) (now : Int) (ipNbo : UInt32) : Prop :=
  ∃ mac t, lastLearn calls ipNbo = some (mac, t) ∧ now - t ≤ arpCacheTtlSecs

/-- At each moment of the run at most 256 addresses are fresh. -/
def Fits (calls : List Call) : Prop :=
  ∀ pre, pre <+: calls → ∀ now, After pre now → ∀ ips : Finset UInt32,
    (∀ ipNbo ∈ ips, FreshAt pre now ipNbo) → ips.card ≤ arpCacheMaxEntries

/-- After these calls a lookup of a fresh address succeeds. -/
def Keeps (calls : List Call) : Prop :=
  ∀ now ipNbo, After calls now → FreshAt calls now ipNbo →
    (arpCacheLookup (runCalls calls) now ipNbo).2.isSome = true

/-- A learn call finds a slot: the valid one of its address, a valid one that
    has expired, or one that is not in use yet. -/
def FindsSlot (c : ArpCache) : Call → Prop
  | .learn now ipNbo _ =>
      (∃ e ∈ c.entries, e.valid = true ∧ (e.ipNbo = ipNbo ∨ expired now e = true))
        ∨ c.entries.length < arpCacheMaxEntries
  | _ => True

theorem runCalls_append (calls : List Call) (call : Call) :
    runCalls (calls ++ [call]) = step (runCalls calls) call := by
  rw [runCalls, List.foldl_append]
  rfl

theorem learns_append (calls : List Call) (call : Call) :
    learns (calls ++ [call]) = learns calls ++ learns [call] := List.filterMap_append

/-! ## The calls -/

/-- All that a learn call can do. -/
theorem arpCacheLearn_cases (c : ArpCache) (now : Int) (ipNbo : UInt32) (mac : Mac) :
    (∃ e i, c.entries[i]? = some e ∧ e.valid = true
        ∧ (e.ipNbo = ipNbo ∨ expired now e = true)
        ∧ arpCacheLearn c now ipNbo mac = c.store i ⟨ipNbo, mac, true, now⟩)
      ∨ (c.entries.length < arpCacheMaxEntries
        ∧ (arpCacheLearn c now ipNbo mac).entries = c.entries ++ [⟨ipNbo, mac, true, now⟩])
      ∨ (¬ FindsSlot c (.learn now ipNbo mac) ∧ arpCacheLearn c now ipNbo mac = c) := by
  rw [arpCacheLearn]
  cases hknown : c.scan fun e => e.valid && e.ipNbo == ipNbo with
  | some s =>
      obtain ⟨⟨ip, oldMac, v, seen⟩, i⟩ := s
      obtain ⟨he, hp⟩ := scan_some hknown
      rw [Bool.and_eq_true, beq_iff_eq] at hp
      obtain ⟨rfl, rfl⟩ := hp
      exact .inl ⟨_, i, he, rfl, .inl rfl, rfl⟩
  | none =>
      cases hold : c.scan fun e => e.valid && expired now e with
      | some s =>
          obtain ⟨⟨ip, oldMac, v, seen⟩, i⟩ := s
          obtain ⟨he, hp⟩ := scan_some hold
          rw [Bool.and_eq_true] at hp
          obtain ⟨rfl, hexp⟩ := hp
          exact .inl ⟨_, i, he, rfl, .inr hexp, rfl⟩
      | none =>
          simp only
          split
          · rename_i hlt
            exact .inr (.inl ⟨hlt, rfl⟩)
          · rename_i hfull
            refine .inr (.inr ⟨?_, rfl⟩)
            rintro (⟨e, he, hv, hip | hexp⟩ | hlt)
            · exact scan_unknown hknown e he hv hip
            · have := scan_none hold e he
              rw [hv, hexp] at this
              cases this
            · exact hfull hlt

/-- All that a lookup can do to the table. -/
theorem arpCacheLookup_cases (c : ArpCache) (now : Int) (ipNbo : UInt32) :
    (∃ e i, c.entries[i]? = some e ∧ e.valid = true ∧ e.ipNbo = ipNbo ∧ expired now e = true
        ∧ (arpCacheLookup c now ipNbo).1 = c.store i { e with valid := false })
      ∨ (arpCacheLookup c now ipNbo).1 = c := by
  rw [arpCacheLookup]
  cases hs : c.scan fun e => e.valid && e.ipNbo == ipNbo with
  | none => exact .inr rfl
  | some s =>
      obtain ⟨e, i⟩ := s
      obtain ⟨he, hp⟩ := scan_some hs
      rw [Bool.and_eq_true, beq_iff_eq] at hp
      simp only
      split
      · rename_i hexp
        exact .inl ⟨e, i, he, hp.1, hp.2, hexp, rfl⟩
      · exact .inr rfl

/-- A valid slot that has not expired is found, being the only one. -/
theorem lookup_fresh {c : ArpCache} {ws : List (UInt32 × (Mac × Int))} (h : CacheSound ws c)
    {e : ArpCacheSlot} (he : e ∈ c.entries) (hv : e.valid = true) {now : Int}
    (hnow : expired now e = false) : (arpCacheLookup c now e.ipNbo).2 = some e.mac := by
  rw [arpCacheLookup]
  cases hs : c.scan fun a => a.valid && a.ipNbo == e.ipNbo with
  | none => exact absurd rfl (scan_unknown hs e he hv)
  | some s =>
      obtain ⟨a, i⟩ := s
      obtain ⟨ha, hp⟩ := scan_some hs
      rw [Bool.and_eq_true, beq_iff_eq] at hp
      obtain ⟨j, hj⟩ := List.mem_iff_getElem?.mp he
      have hij : i = j := h.unique i j a e ha hj hp.1 hv hp.2
      rw [hij, hj, Option.some.injEq] at ha
      subst ha
      simp [hnow]

/-! ## What every learn call that finds a slot keeps -/

/-- Every fresh address has its slot. -/
def AllHeld (calls : List Call) : Prop :=
  ∀ now ipNbo mac t, After calls now → lastLearn calls ipNbo = some (mac, t) →
    now - t ≤ arpCacheTtlSecs →
    ∃ e ∈ (runCalls calls).entries, e.valid = true ∧ e.ipNbo = ipNbo ∧ e.lastSeen = t

theorem mem_store_of_ne {c : ArpCache} {i : Nat} {a b e : ArpCacheSlot} (ha : a ∈ c.entries)
    (hb : c.entries[i]? = some b) (hne : a ≠ b) : a ∈ (c.store i e).entries := by
  obtain ⟨j, hj⟩ := List.mem_iff_getElem?.mp ha
  have hij : i ≠ j := by
    rintro rfl
    rw [hj] at hb
    exact hne (Option.some.inj hb)
  have hset : (c.store i e).entries[j]? = some a := by
    rw [ArpCache.store, List.getElem?_set_ne hij]
    exact hj
  exact List.mem_of_getElem? hset

theorem mem_store_self {c : ArpCache} {i : Nat} {b e : ArpCacheSlot}
    (hb : c.entries[i]? = some b) : e ∈ (c.store i e).entries := by
  obtain ⟨hi, -⟩ := List.getElem?_eq_some_iff.mp hb
  exact List.mem_of_getElem? (List.getElem?_set_self hi)

/-- A slot last seen within 300 seconds of a later time has not expired. -/
theorem not_expired {e : ArpCacheSlot} {now later : Int} (hle : now ≤ later)
    (hage : later - e.lastSeen ≤ arpCacheTtlSecs) : expired now e = false := by
  rw [expired, decide_eq_false_iff_not]
  omega

theorem After.of_append {calls : List Call} {call : Call} {now : Int}
    (h : After (calls ++ [call]) now) : After calls now ∧ call.now ≤ now := by
  constructor
  · intro a ha
    exact h a (List.mem_append_left [call] ha)
  · exact h call (List.mem_append_right calls List.mem_cons_self)

theorem allHeld_learn {calls : List Call} {time : Int} {ipNbo : UInt32} {mac : Mac}
    (h : AllHeld calls) (hslot : FindsSlot (runCalls calls) (.learn time ipNbo mac)) :
    AllHeld (calls ++ [.learn time ipNbo mac]) := by
  intro now ip m t hafter hlast hage
  obtain ⟨hbefore, htime⟩ := hafter.of_append
  rw [runCalls_append]
  have hlearns : lastLearn (calls ++ [.learn time ipNbo mac]) ip
      = KeyedTable.lastWrite (learns calls ++ [(ipNbo, (mac, time))]) ip := by
    rw [lastLearn, learns_append]
    rfl
  rw [hlearns] at hlast
  by_cases hip : ipNbo = ip
  · -- the address of the call
    subst hip
    rw [KeyedTable.lastWrite_append_self] at hlast
    obtain ⟨rfl, rfl⟩ := Prod.mk.inj (Option.some.inj hlast)
    refine ⟨⟨ipNbo, mac, true, time⟩, ?_, rfl, rfl, rfl⟩
    rcases arpCacheLearn_cases (runCalls calls) time ipNbo mac with
      ⟨e, i, he, -, -, heq⟩ | ⟨-, heq⟩ | ⟨hfull, -⟩
    · rw [step, heq]
      exact mem_store_self he
    · rw [step, heq]
      exact List.mem_append_right _ List.mem_cons_self
    · exact absurd hslot hfull
  · -- another one: its slot is neither of the address nor expired
    rw [KeyedTable.lastWrite_append_of_ne _ _ hip] at hlast
    obtain ⟨e, he, hv, heip, rfl⟩ := h now ip m t hbefore hlast hage
    refine ⟨e, ?_, hv, heip, rfl⟩
    rcases arpCacheLearn_cases (runCalls calls) time ipNbo mac with
      ⟨b, i, hb, -, hwhy, heq⟩ | ⟨-, heq⟩ | ⟨-, heq⟩
    · rw [step, heq]
      refine mem_store_of_ne he hb ?_
      rintro rfl
      rcases hwhy with hk | hexp
      · exact hip (hk.symm.trans heip)
      · rw [not_expired (show time ≤ now from htime) hage] at hexp
        cases hexp
    · rw [step, heq]
      exact List.mem_append_left _ he
    · rw [step, heq]
      exact he

theorem allHeld_lookup {calls : List Call} {time : Int} {ipNbo : UInt32} (h : AllHeld calls) :
    AllHeld (calls ++ [.lookup time ipNbo]) := by
  intro now ip m t hafter hlast hage
  obtain ⟨hbefore, htime⟩ := hafter.of_append
  have hlearns : lastLearn (calls ++ [.lookup time ipNbo]) ip = lastLearn calls ip := by
    rw [lastLearn, learns_append, show learns [.lookup time ipNbo] = [] from rfl,
      List.append_nil]
    rfl
  rw [hlearns] at hlast
  obtain ⟨e, he, hv, heip, rfl⟩ := h now ip m t hbefore hlast hage
  refine ⟨e, ?_, hv, heip, rfl⟩
  rw [runCalls_append, step]
  rcases arpCacheLookup_cases (runCalls calls) time ipNbo with ⟨b, i, hb, -, -, hexp, heq⟩ | heq
  · rw [heq]
    refine mem_store_of_ne he hb ?_
    rintro rfl
    rw [not_expired (show time ≤ now from htime) hage] at hexp
    cases hexp
  · rw [heq]
    exact he

theorem allHeld_step {calls : List Call} {call : Call} (h : AllHeld calls)
    (hslot : FindsSlot (runCalls calls) call) : AllHeld (calls ++ [call]) := by
  cases call with
  | learn time ipNbo mac => exact allHeld_learn h hslot
  | lookup time ipNbo => exact allHeld_lookup h
  | dump time max =>
      intro now ip m t hafter hlast hage
      have hlearns : lastLearn (calls ++ [.dump time max]) ip = lastLearn calls ip := by
        rw [lastLearn, learns_append, show learns [.dump time max] = [] from rfl,
          List.append_nil]
        rfl
      rw [hlearns] at hlast
      rw [runCalls_append]
      exact h now ip m t hafter.of_append.1 hlast hage

theorem allHeld_of_finds {calls : List Call}
    (h : ∀ pre call, pre ++ [call] <+: calls → FindsSlot (runCalls pre) call) :
    AllHeld calls := by
  induction calls using List.reverseRecOn with
  | nil =>
      intro now ip m t _ hlast
      cases hlast
  | append_singleton calls call ih =>
      refine allHeld_step (ih ?_) (h calls call List.prefix_rfl)
      intro pre a hpre
      exact h pre a (hpre.trans (List.prefix_append calls [call]))

theorem AllHeld.keeps {calls : List Call} (h : AllHeld calls) : Keeps calls := by
  rintro now ip hafter ⟨m, t, hlast, hage⟩
  obtain ⟨e, he, hv, rfl, rfl⟩ := h now ip m t hafter hlast hage
  rw [lookup_fresh (runCalls_sound calls) he hv (not_expired (Int.le_refl now) hage)]
  rfl

/-! ## Where a learn call finds no slot -/

/-- A learn call that finds no slot is lost, and with it the next lookup. -/
theorem not_keeps {calls : List Call} {call : Call} (hclock : After calls call.now)
    (hslot : ¬ FindsSlot (runCalls calls) call) : ¬ Keeps (calls ++ [call]) := by
  intro hkeeps
  cases call with
  | lookup time ipNbo => exact hslot trivial
  | dump time max => exact hslot trivial
  | learn time ipNbo mac =>
      have hafter : After (calls ++ [.learn time ipNbo mac]) time := by
        intro a ha
        rcases List.mem_append.mp ha with ha | ha
        · exact hclock a ha
        · rw [List.mem_singleton.mp ha]
          exact Int.le_refl time
      have hfresh : FreshAt (calls ++ [.learn time ipNbo mac]) time ipNbo := by
        refine ⟨mac, time, ?_, ?_⟩
        · rw [lastLearn, learns_append]
          exact KeyedTable.lastWrite_append_self (learns calls) ipNbo (mac, time)
        · rw [Int.sub_self]
          decide
      have hfound := hkeeps time ipNbo hafter hfresh
      obtain ⟨m, hm⟩ := Option.isSome_iff_exists.mp hfound
      obtain ⟨e, he, hv, hip, -⟩ := lookup_found hm
      rw [runCalls_append, step] at he
      rcases arpCacheLearn_cases (runCalls calls) time ipNbo mac with
        ⟨b, i, hb, hbv, hwhy, -⟩ | ⟨hlt, -⟩ | ⟨-, heq⟩
      · exact hslot (.inl ⟨b, List.mem_of_getElem? hb, hbv, hwhy⟩)
      · exact hslot (.inr hlt)
      · rw [heq] at he
        exact hslot (.inl ⟨e, he, hv, .inl hip⟩)

/-- Distinct valid slots have distinct addresses. -/
theorem nodup_ips {c : ArpCache} {ws : List (UInt32 × (Mac × Int))} (h : CacheSound ws c)
    (hvalid : ∀ e ∈ c.entries, e.valid = true) : (c.entries.map ArpCacheSlot.ipNbo).Nodup := by
  rw [List.nodup_iff_injective_getElem]
  intro i j hij
  have hi : i.val < c.entries.length := by simpa using i.isLt
  have hj : j.val < c.entries.length := by simpa using j.isLt
  simp only [List.getElem_map] at hij
  refine Fin.ext (h.unique i j c.entries[i.val] c.entries[j.val] ?_ ?_ ?_ ?_ hij)
  · exact List.getElem?_eq_getElem hi
  · exact List.getElem?_eq_getElem hj
  · exact hvalid _ (List.getElem_mem hi)
  · exact hvalid _ (List.getElem_mem hj)

/-- If the addresses fit and a learn call finds no slot, a slot is invalid. -/
theorem invalid_of_full {calls : List Call} {call : Call} (hclock : After calls call.now)
    (hfits : Fits (calls ++ [call])) (hslot : ¬ FindsSlot (runCalls calls) call) :
    ∃ e ∈ (runCalls calls).entries, e.valid = false := by
  cases call with
  | lookup time ipNbo => exact absurd trivial hslot
  | dump time max => exact absurd trivial hslot
  | learn time ipNbo mac =>
      by_contra hnone
      have hvalid : ∀ e ∈ (runCalls calls).entries, e.valid = true := by
        intro e he
        cases hv : e.valid with
        | true => rfl
        | false => exact absurd ⟨e, he, hv⟩ hnone
      have hsound := runCalls_sound calls
      rw [FindsSlot, not_or] at hslot
      obtain ⟨hslots, hfull⟩ := hslot
      -- all 256 slots are fresh, and the address of the call is one more
      let ips := ((runCalls calls).entries.map ArpCacheSlot.ipNbo).toFinset
      have hnew : ipNbo ∉ ips := by
        intro hmem
        obtain ⟨e, he, hip⟩ := List.mem_map.mp (List.mem_toFinset.mp hmem)
        exact hslots ⟨e, he, hvalid e he, .inl hip⟩
      have hcard : ips.card = (runCalls calls).entries.length := by
        rw [List.toFinset_card_of_nodup (nodup_ips hsound hvalid), List.length_map]
      have hle := hfits _ List.prefix_rfl time ?_ (insert ipNbo ips) ?_
      · rw [Finset.card_insert_of_notMem hnew, hcard] at hle
        omega
      · intro a ha
        rcases List.mem_append.mp ha with ha | ha
        · exact hclock a ha
        · rw [List.mem_singleton.mp ha]
          exact Int.le_refl time
      · intro ip hip
        rw [FreshAt, lastLearn, learns_append]
        rcases Finset.mem_insert.mp hip with rfl | hip
        · refine ⟨mac, time, KeyedTable.lastWrite_append_self _ _ _, ?_⟩
          rw [Int.sub_self]
          decide
        · obtain ⟨e, he, rfl⟩ := List.mem_map.mp (List.mem_toFinset.mp hip)
          have hne : ipNbo ≠ e.ipNbo := by
            intro heq
            exact hnew (heq ▸ hip)
          refine ⟨e.mac, e.lastSeen, ?_, ?_⟩
          · exact hsound.reflects.other he (hvalid e he) hne
          · by_contra hold
            refine hslots ⟨e, he, hvalid e he, .inr ?_⟩
            rw [expired, decide_eq_true_eq]
            omega

/-- If all that is ever learned is one of 256 addresses, they fit. -/
theorem fits_of_subset {calls : List Call} {ips : List UInt32}
    (hlen : ips.length ≤ arpCacheMaxEntries) (h : ∀ w ∈ learns calls, w.1 ∈ ips) :
    Fits calls := by
  rintro pre ⟨rest, rfl⟩ now _ fresh hfresh
  have hsub : fresh ⊆ ips.toFinset := by
    intro ip hip
    obtain ⟨mac, t, hlast, -⟩ := hfresh ip hip
    have hmem := KeyedTable.mem_of_lastWrite hlast
    rw [List.mem_toFinset]
    refine h (ip, (mac, t)) ?_
    rw [learns, List.filterMap_append]
    exact List.mem_append_left _ hmem
  calc fresh.card ≤ ips.toFinset.card := Finset.card_le_card hsub
    _ ≤ ips.length := List.toFinset_card_le ips
    _ ≤ arpCacheMaxEntries := hlen

theorem ClockForward.after {calls : List Call} {call : Call}
    (h : ClockForward (calls ++ [call])) : After calls call.now := by
  intro a ha
  exact (List.pairwise_append.mp h).2.2 a ha call List.mem_cons_self

theorem ClockForward.of_prefix {pre calls : List Call} (h : ClockForward calls)
    (hpre : pre <+: calls) : ClockForward pre := List.Pairwise.sublist hpre.sublist h

/-- Distinct addresses learned at one time take one slot each. -/
theorem learn_all {ips : List UInt32} (hnodup : ips.Nodup)
    (hle : ips.length ≤ arpCacheMaxEntries) (now : Int) (mac : Mac) :
    (runCalls (ips.map fun ip => .learn now ip mac)).entries
      = ips.map fun ip => ⟨ip, mac, true, now⟩ := by
  induction ips using List.reverseRecOn with
  | nil => rfl
  | append_singleton ips ip ih =>
      rw [List.length_append] at hle
      have hlt : ips.length < arpCacheMaxEntries := hle
      obtain ⟨hips, -, hdisj⟩ := List.nodup_append.mp hnodup
      have hentries := ih hips (Nat.le_of_lt hlt)
      rw [List.map_append, List.map_append, ← hentries]
      rw [List.map_singleton, List.map_singleton, runCalls_append, FsoArpCache.step]
      -- no slot has the address, none has expired, and there is one left
      have hslots : ∀ e ∈ (runCalls (ips.map fun a => .learn now a mac)).entries,
          e.ipNbo ≠ ip ∧ expired now e = false := by
        intro e he
        rw [hentries] at he
        obtain ⟨a, ha, rfl⟩ := List.mem_map.mp he
        refine ⟨hdisj a ha ip List.mem_cons_self, not_expired (Int.le_refl now) ?_⟩
        rw [Int.sub_self]
        decide
      rcases arpCacheLearn_cases (runCalls (ips.map fun a => .learn now a mac)) now ip mac with
        ⟨e, i, he, -, hip | hexp, -⟩ | ⟨-, heq⟩ | ⟨hfull, -⟩
      · exact absurd hip (hslots e (List.mem_of_getElem? he)).1
      · rw [(hslots e (List.mem_of_getElem? he)).2] at hexp
        cases hexp
      · exact heq
      · refine absurd (.inr ?_) hfull
        rw [hentries, List.length_map]
        exact hlt

/-- 256 addresses. -/
def hosts : List UInt32 := (List.range arpCacheMaxEntries).map UInt32.ofNat

theorem hosts_nodup : hosts.Nodup := by
  refine List.Nodup.map_on ?_ List.nodup_range
  intro a ha b hb hab
  rw [List.mem_range, arpCacheMaxEntries] at ha hb
  have := congrArg UInt32.toNat hab
  simpa [Nat.mod_eq_of_lt, show a < 4294967296 by omega, show b < 4294967296 by omega]
    using this

theorem hosts_length : hosts.length = arpCacheMaxEntries := by
  rw [hosts, List.length_map, List.length_range]

/-- **What the cache keeps.**  For a clock that does not go back: in every
    state of a run every lookup within 300 seconds of the last learn of its
    address succeeds, if and only if every learn call of the run finds a slot.
    If at each moment at most 256 addresses are fresh, then a learn call that
    finds none meets a table with a slot that a lookup has invalidated. -/
theorem arpCache_keeps_iff (calls : List Call) (hclock : ClockForward calls) :
    ((∀ pre, pre <+: calls → Keeps pre) ↔
        ∀ pre call, pre ++ [call] <+: calls → FindsSlot (runCalls pre) call)
      ∧ (Fits calls → ∀ pre call, pre ++ [call] <+: calls →
          ¬ FindsSlot (runCalls pre) call →
          ∃ e ∈ (runCalls pre).entries, e.valid = false) := by
  constructor
  · constructor
    · intro hkeeps pre call hpre
      by_contra hslot
      exact not_keeps (hclock.of_prefix hpre).after hslot (hkeeps _ hpre)
    · intro hfinds pre hpre
      apply AllHeld.keeps
      apply allHeld_of_finds
      intro p call hp
      exact hfinds p call (hp.trans hpre)
  · intro hfits pre call hpre hslot
    refine invalid_of_full (hclock.of_prefix hpre).after ?_ hslot
    intro p hp
    exact hfits p (hp.trans hpre)

/-- 256 hosts are learned at time 0; another one, at time 301, takes the slot of
    one that has expired, and is looked up 300 seconds later. -/
def reuseRun : List Call :=
  (hosts.map fun ip => .learn 0 ip (Vector.replicate 6 2))
    ++ [.learn 301 256 (Vector.replicate 6 3), .lookup 601 256]

theorem arpCache_keeps_full :
    ClockForward reuseRun ∧ ∀ pre, pre <+: reuseRun → Keeps pre := by
  have hclock : ClockForward reuseRun := by
    refine List.pairwise_append.mpr ⟨?_, by simp [Call.now], ?_⟩
    · exact List.pairwise_map.mpr (List.pairwise_of_forall fun _ _ => Int.le_refl 0)
    · intro a ha b hb
      obtain ⟨ip, -, rfl⟩ := List.mem_map.mp ha
      rcases List.mem_pair.mp hb with rfl | rfl <;> exact Int.natCast_nonneg _
  refine ⟨hclock, (arpCache_keeps_iff reuseRun hclock).1.mpr ?_⟩
  rintro pre call ⟨rest, heq⟩
  rw [reuseRun, List.append_assoc] at heq
  have hfull := learn_all hosts_nodup (Nat.le_of_eq hosts_length) 0 (Vector.replicate 6 2)
  -- the slot of the first host has expired
  have hreuse : FindsSlot (runCalls (hosts.map fun ip => .learn 0 ip (Vector.replicate 6 2)))
      (.learn 301 256 (Vector.replicate 6 3)) := by
    refine .inl ⟨⟨0, Vector.replicate 6 2, true, 0⟩, ?_, rfl, .inr (by decide)⟩
    rw [hfull]
    exact List.mem_map.mpr ⟨0, by decide, rfl⟩
  rcases List.append_eq_append_iff.mp heq with ⟨more, hhosts, hcall⟩ | ⟨more, hpre, hcalls⟩
  · obtain ⟨before, after, hsplit, rfl, rfl⟩ := List.map_eq_append_iff.mp hhosts
    cases after with
    | nil =>
        obtain ⟨rfl, -⟩ := List.cons_eq_cons.mp hcall
        rw [List.append_nil] at hsplit
        rw [← hsplit]
        exact hreuse
    | cons ip after =>
        obtain ⟨rfl, -⟩ := List.cons_eq_cons.mp hcall
        have hlen := congrArg List.length hsplit
        rw [hosts_length, List.length_append, List.length_cons] at hlen
        have hnodup : before.Nodup := by
          have h := hosts_nodup
          rw [hsplit] at h
          exact h.of_append_left
        refine .inr ?_
        rw [learn_all hnodup (by omega) 0 (Vector.replicate 6 2), List.length_map]
        omega
  · cases more with
    | nil =>
        obtain ⟨rfl, -⟩ := List.cons_eq_cons.mp hcalls
        rw [hpre, List.append_nil]
        exact hreuse
    | cons first more =>
        obtain ⟨-, hlast⟩ := List.cons_eq_cons.mp hcalls
        cases more with
        | nil =>
            obtain ⟨rfl, -⟩ := List.cons_eq_cons.mp hlast
            trivial
        | cons second more =>
            have hlen := congrArg List.length hcalls
            simp only [List.length_cons, List.length_append, List.length_nil] at hlen
            omega

/-! ## A cache that has gone deaf -/

/-- Every slot is in use and none is valid. -/
def Deaf (c : ArpCache) : Prop :=
  c.entries.length = arpCacheMaxEntries ∧ ∀ e ∈ c.entries, e.valid = false

theorem Deaf.step {c : ArpCache} (h : Deaf c) (call : Call) : step c call = c := by
  have hnot : ∀ e ∈ c.entries, e.valid ≠ true := by
    intro e he hv
    rw [h.2 e he] at hv
    cases hv
  cases call with
  | dump now max => rfl
  | learn now ipNbo mac =>
      rcases arpCacheLearn_cases c now ipNbo mac with ⟨e, i, he, hv, -, -⟩ | ⟨hlt, -⟩ | ⟨-, heq⟩
      · exact absurd hv (hnot e (List.mem_of_getElem? he))
      · rw [h.1] at hlt
        exact absurd hlt (Nat.lt_irrefl _)
      · exact heq
  | lookup now ipNbo =>
      rcases arpCacheLookup_cases c now ipNbo with ⟨e, i, he, hv, -⟩ | heq
      · exact absurd hv (hnot e (List.mem_of_getElem? he))
      · exact heq

/-- Nothing is learned any more, whatever the calls and their times. -/
theorem Deaf.run {c : ArpCache} (h : Deaf c) (calls : List Call) :
    calls.foldl FsoArpCache.step c = c := by
  induction calls with
  | nil => rfl
  | cons call calls ih =>
      rw [List.foldl_cons, h.step call]
      exact ih

theorem Deaf.lookup {c : ArpCache} (h : Deaf c) (now : Int) (ipNbo : UInt32) :
    (arpCacheLookup c now ipNbo).2 = none := by
  cases hl : (arpCacheLookup c now ipNbo).2 with
  | none => rfl
  | some mac =>
      obtain ⟨e, he, hv, -⟩ := lookup_found hl
      rw [h.2 e he] at hv
      cases hv

/-- A lookup of an address leaves no valid slot of it, if all have expired. -/
theorem lookup_expired {c : ArpCache} {ws : List (UInt32 × (Mac × Int))} (h : CacheSound ws c)
    {now : Int} (hexp : ∀ e ∈ c.entries, e.valid = true → expired now e = true)
    (ipNbo : UInt32) :
    (arpCacheLookup c now ipNbo).1.entries.length = c.entries.length
      ∧ ∀ e ∈ (arpCacheLookup c now ipNbo).1.entries, e.valid = true →
        e ∈ c.entries ∧ e.ipNbo ≠ ipNbo := by
  rw [arpCacheLookup]
  cases hs : c.scan fun e => e.valid && e.ipNbo == ipNbo with
  | none => exact ⟨rfl, fun e he hv => ⟨he, scan_unknown hs e he hv⟩⟩
  | some s =>
      obtain ⟨b, i⟩ := s
      obtain ⟨hb, hp⟩ := scan_some hs
      rw [Bool.and_eq_true, beq_iff_eq] at hp
      have hbexp := hexp b (List.mem_of_getElem? hb) hp.1
      simp only [hbexp, if_true]
      refine ⟨List.length_set, ?_⟩
      intro e he hv
      obtain ⟨j, hj⟩ := List.mem_iff_getElem?.mp he
      rw [ArpCache.store, List.getElem?_set] at hj
      split at hj
      · -- the slot that was invalidated
        split at hj
        · rw [← Option.some.inj hj] at hv
          cases hv
        · cases hj
      · rename_i hij
        refine ⟨List.mem_of_getElem? hj, ?_⟩
        intro hip
        exact hij (h.unique i j b e hb hj hp.1 hv (hp.2.trans hip.symm))

/-- Looking up every address of a table that has expired invalidates it all. -/
theorem lookup_all {c : ArpCache} {ws : List (UInt32 × (Mac × Int))} (h : CacheSound ws c)
    {now : Int} (hexp : ∀ e ∈ c.entries, e.valid = true → expired now e = true)
    (ips : List UInt32) :
    ((ips.map fun ip => Call.lookup now ip).foldl step c).entries.length = c.entries.length
      ∧ ∀ e ∈ ((ips.map fun ip => Call.lookup now ip).foldl step c).entries,
        e.valid = true → e ∈ c.entries ∧ e.ipNbo ∉ ips := by
  induction ips generalizing c with
  | nil => exact ⟨rfl, fun e he _ => ⟨he, List.not_mem_nil⟩⟩
  | cons ip ips ih =>
      obtain ⟨hlen, hleft⟩ := lookup_expired h hexp ip
      have hexp' : ∀ e ∈ (arpCacheLookup c now ip).1.entries, e.valid = true →
          expired now e = true := by
        intro e he hv
        exact hexp e (hleft e he hv).1 hv
      obtain ⟨hlen', hleft'⟩ := ih (arpCacheLookup_sound h now ip) hexp'
      refine ⟨hlen'.trans hlen, ?_⟩
      intro e he hv
      obtain ⟨hmem, hnot⟩ := hleft' e he hv
      obtain ⟨hold, hne⟩ := hleft e hmem hv
      refine ⟨hold, ?_⟩
      rw [List.mem_cons, not_or]
      exact ⟨hne, hnot⟩

/-- A full table, all learned at one time and all looked up after it expired. -/
theorem deaf_of_lookups {ips : List UInt32} (hnodup : ips.Nodup)
    (hlen : ips.length = arpCacheMaxEntries) {start now : Int}
    (hlate : now - start > arpCacheTtlSecs) (mac : Mac) :
    Deaf (runCalls ((ips.map fun ip => .learn start ip mac)
      ++ ips.map fun ip => .lookup now ip)) := by
  have hentries := learn_all hnodup (Nat.le_of_eq hlen) start mac
  have hexp : ∀ e ∈ (runCalls (ips.map fun ip => .learn start ip mac)).entries,
      e.valid = true → expired now e = true := by
    intro e he _
    rw [hentries] at he
    obtain ⟨ip, -, rfl⟩ := List.mem_map.mp he
    exact decide_eq_true hlate
  obtain ⟨hsame, hleft⟩ := lookup_all (runCalls_sound _) hexp ips
  rw [runCalls, List.foldl_append]
  constructor
  · rw [hentries, List.length_map] at hsame
    exact hsame.trans hlen
  · intro e he
    cases hv : e.valid with
    | false => rfl
    | true =>
        obtain ⟨hmem, hnot⟩ := hleft e he hv
        rw [hentries] at hmem
        obtain ⟨ip, hip, rfl⟩ := List.mem_map.mp hmem
        exact absurd hip hnot

/-- 256 hosts are learned at time 0 and looked up at time 301; then the first
    of them is learned again. -/
def forgottenRun : List Call :=
  ((hosts.map fun ip => .learn 0 ip (Vector.replicate 6 2))
    ++ hosts.map fun ip => .lookup 301 ip) ++ [.learn 301 0 (Vector.replicate 6 2)]

theorem forgottenRun_deaf : Deaf (runCalls forgottenRun) := by
  have hdeaf := deaf_of_lookups hosts_nodup hosts_length
    (show (301 : Int) - 0 > arpCacheTtlSecs by decide) (Vector.replicate 6 2)
  rw [forgottenRun, runCalls_append, hdeaf.step]
  exact hdeaf

theorem forgottenRun_clock (ipNbo : UInt32) :
    ClockForward (forgottenRun ++ [.lookup 301 ipNbo]) := by
  have hbefore : ∀ call ∈ forgottenRun, call.now = 0 ∨ call.now = 301 := by
    intro call hcall
    simp only [forgottenRun, List.mem_append, List.mem_map, List.mem_singleton] at hcall
    rcases hcall with (⟨ip, -, rfl⟩ | ⟨ip, -, rfl⟩) | rfl
    · exact .inl rfl
    · exact .inr rfl
    · exact .inr rfl
  have hlast : ∀ (calls : List Call) (call : Call), ClockForward calls → call.now = 301 →
      (∀ a ∈ calls, a.now = 0 ∨ a.now = 301) → ClockForward (calls ++ [call]) := by
    intro calls call hcalls hnow hall
    refine List.pairwise_append.mpr ⟨hcalls, List.pairwise_singleton _ _, ?_⟩
    intro a ha b hb
    rw [List.mem_singleton.mp hb, hnow]
    rcases hall a ha with h | h
    · rw [h]
      decide
    · rw [h]
  have hall : ClockForward ((hosts.map fun ip => Call.learn 0 ip (Vector.replicate 6 2))
      ++ hosts.map fun ip => .lookup 301 ip) := by
    refine List.pairwise_append.mpr ⟨?_, ?_, ?_⟩
    · exact List.pairwise_map.mpr (List.pairwise_of_forall fun _ _ => Int.le_refl 0)
    · exact List.pairwise_map.mpr (List.pairwise_of_forall fun _ _ => Int.le_refl 301)
    · intro a ha b hb
      obtain ⟨ip, -, rfl⟩ := List.mem_map.mp ha
      obtain ⟨ip', -, rfl⟩ := List.mem_map.mp hb
      exact (by decide : (0 : Int) ≤ 301)
  refine hlast _ _ (hlast _ _ hall rfl ?_) rfl hbefore
  intro a ha
  exact hbefore a (List.mem_append_left _ ha)

theorem forgottenRun_fits (ipNbo : UInt32) :
    Fits (forgottenRun ++ [.lookup 301 ipNbo]) := by
  refine fits_of_subset (Nat.le_of_eq hosts_length) ?_
  intro w hw
  simp only [learns, forgottenRun, List.mem_filterMap, List.mem_append, List.mem_map,
    List.mem_singleton] at hw
  obtain ⟨call, (((⟨ip, hip, rfl⟩ | ⟨ip, -, rfl⟩) | rfl) | rfl), hw⟩ := hw
  · rw [← Option.some.inj hw]
    exact hip
  · cases hw
  · rw [← Option.some.inj hw]
    exact List.mem_map.mpr ⟨0, by decide, rfl⟩
  · cases hw

/-- The first host, learned again at time 301, is not found at time 301. -/
theorem arpCache_forgets :
    ¬ ∀ calls : List Call, ClockForward calls → Fits calls → ∀ pre now ipNbo,
        pre ++ [.lookup now ipNbo] <+: calls → FreshAt pre now ipNbo →
        (arpCacheLookup (runCalls pre) now ipNbo).2.isSome = true := by
  intro hkeeps
  have hfresh : FreshAt forgottenRun 301 0 := by
    refine ⟨Vector.replicate 6 2, 301, ?_, by decide⟩
    rw [forgottenRun, lastLearn, learns_append]
    exact KeyedTable.lastWrite_append_self _ 0 _
  have hfound := hkeeps _ (forgottenRun_clock 0) (forgottenRun_fits 0) forgottenRun 301 0
    List.prefix_rfl hfresh
  rw [forgottenRun_deaf.lookup 301 0] at hfound
  cases hfound

end FsoArpCache
