import FsoGateway.Lib.KeyedTable

/-! # The proxy-ARP cache

    `src/arp_cache.c`: a linear-scan table of at most 256 slots, of which the
    first `count` are in use.  A learn updates the slot of its address, or
    else takes over the first expired slot, or else appends, or else is
    dropped; a lookup invalidates an expired slot on its way.  Every call
    holds the lock from its first look at the table to its last, so calls of
    several threads come one after the other.

    * `arpCacheLearn_sound`, `arpCacheLookup_sound` — the calls keep the
      invariant of the table;
    * `arpCache_sound` — after any calls at any times, whatever the cache
      gives out for an address is what was learned last for it, at most 300
      seconds ago. -/

namespace FsoArpCache

/-- `ARP_CACHE_MAX_ENTRIES`. -/
def arpCacheMaxEntries : Nat := 256

/-- `ARP_CACHE_TTL_SECS`. -/
def arpCacheTtlSecs : Int := 300

/-- `uint8_t mac[6]`. -/
abbrev Mac := Vector UInt8 6

/-- `struct arp_cache_slot`. -/
structure ArpCacheSlot where
  ipNbo : UInt32
  mac : Mac
  valid : Bool
  lastSeen : Int
  deriving DecidableEq

/-- `struct arp_cache`: the slots below `count`. -/
structure ArpCache where
  entries : List ArpCacheSlot
  count_le : entries.length ≤ arpCacheMaxEntries

/-- `struct arp_entry`. -/
structure ArpEntry where
  ipNbo : UInt32
  mac : Mac
  lastSeenMs : Int
  deriving DecidableEq

/-- `arp_cache_create`. -/
def arpCacheCreate : ArpCache := ⟨[], Nat.zero_le _⟩

/-- The first slot with a property, and its index. -/
def ArpCache.scan (c : ArpCache) (p : ArpCacheSlot → Bool) : Option (ArpCacheSlot × Nat) :=
  c.entries.zipIdx.find? fun s => p s.1

/-- `entries[i] = e`. -/
def ArpCache.store (c : ArpCache) (i : Nat) (e : ArpCacheSlot) : ArpCache :=
  ⟨c.entries.set i e, by
    rw [List.length_set]
    exact c.count_le⟩

def expired (now : Int) (e : ArpCacheSlot) : Bool := now - e.lastSeen > arpCacheTtlSecs

/-- `arp_cache_learn`. -/
def arpCacheLearn (c : ArpCache) (now : Int) (ipNbo : UInt32) (mac : Mac) : ArpCache :=
  match c.scan fun e => e.valid && e.ipNbo == ipNbo with
  | some (e, i) => c.store i { e with mac := mac, lastSeen := now }
  | none =>
    match c.scan fun e => e.valid && expired now e with
    | some (e, i) => c.store i { e with ipNbo := ipNbo, mac := mac, lastSeen := now }
    | none =>
      if h : c.entries.length < arpCacheMaxEntries then
        ⟨c.entries ++ [⟨ipNbo, mac, true, now⟩], by
          rw [List.length_append]
          exact h⟩
      else c

/-- `arp_cache_lookup`. -/
def arpCacheLookup (c : ArpCache) (now : Int) (ipNbo : UInt32) : ArpCache × Option Mac :=
  match c.scan fun e => e.valid && e.ipNbo == ipNbo with
  | some (e, i) =>
    if expired now e then (c.store i { e with valid := false }, none)
    else (c, some e.mac)
  | none => (c, none)

/-- The loop of `arp_cache_dump`, with room for `room` more entries. -/
def dumpLoop (now : Int) : List ArpCacheSlot → Nat → List ArpEntry
  | [], _ => []
  | _ :: _, 0 => []
  | e :: es, room + 1 =>
    if !e.valid then dumpLoop now es (room + 1)
    else if expired now e then dumpLoop now es (room + 1)
    else ⟨e.ipNbo, e.mac, e.lastSeen * 1000⟩ :: dumpLoop now es room

/-- `arp_cache_dump`. -/
def arpCacheDump (c : ArpCache) (now max : Int) : List ArpEntry :=
  if max ≤ 0 then [] else dumpLoop now c.entries max.toNat

/-! ## Runs -/

/-- A call and the reading of the clock it takes. -/
inductive Call where
  | learn (now : Int) (ipNbo : UInt32) (mac : Mac)
  | lookup (now : Int) (ipNbo : UInt32)
  | dump (now max : Int)

/-- What a call leaves in the cache. -/
def step (c : ArpCache) : Call → ArpCache
  | .learn now ipNbo mac => arpCacheLearn c now ipNbo mac
  | .lookup now ipNbo => (arpCacheLookup c now ipNbo).1
  | .dump _ _ => c

def runCalls (calls : List Call) : ArpCache := calls.foldl step arpCacheCreate

/-- The learn calls: addresses, each with the MAC and the time. -/
def learns (calls : List Call) : List (UInt32 × (Mac × Int)) :=
  calls.filterMap fun call =>
    match call with
    | .learn now ipNbo mac => some (ipNbo, (mac, now))
    | _ => none

/-- The most recent learn call for an address. -/
def lastLearn (calls : List Call) (ipNbo : UInt32) : Option (Mac × Int) :=
  KeyedTable.lastWrite (learns calls) ipNbo

/-- The cache reflects the learn calls. -/
def CacheSound (ws : List (UInt32 × (Mac × Int))) (c : ArpCache) : Prop :=
  KeyedTable.Sound ArpCacheSlot.valid ArpCacheSlot.ipNbo (fun e => (e.mac, e.lastSeen))
    ws c.entries

/-! ## The scan -/

theorem scan_some {c : ArpCache} {p : ArpCacheSlot → Bool} {e : ArpCacheSlot} {i : Nat}
    (h : c.scan p = some (e, i)) : c.entries[i]? = some e ∧ p e = true := by
  constructor
  · exact List.mem_zipIdx_iff_getElem?.mp (List.mem_of_find?_eq_some h)
  · exact List.find?_some (p := fun s : ArpCacheSlot × Nat => p s.1) h

theorem scan_none {c : ArpCache} {p : ArpCacheSlot → Bool} (h : c.scan p = none) :
    ∀ e ∈ c.entries, p e = false := by
  intro e he
  obtain ⟨i, hi⟩ := List.mem_iff_getElem?.mp he
  have := List.find?_eq_none.mp h (e, i) (List.mem_zipIdx_iff_getElem?.mpr hi)
  simpa using this

/-- No valid slot has an address that the scan for it did not find. -/
theorem scan_unknown {c : ArpCache} {ipNbo : UInt32}
    (h : c.scan (fun e => e.valid && e.ipNbo == ipNbo) = none) :
    ∀ e ∈ c.entries, e.valid = true → e.ipNbo ≠ ipNbo := by
  intro e he hv hip
  have := scan_none h e he
  simp [hv, hip] at this

/-! ## The calls keep the invariant -/

theorem arpCacheLearn_sound {c : ArpCache} {ws : List (UInt32 × (Mac × Int))}
    (h : CacheSound ws c) (now : Int) (ipNbo : UInt32) (mac : Mac) :
    CacheSound (ws ++ [(ipNbo, (mac, now))]) (arpCacheLearn c now ipNbo mac) := by
  rw [arpCacheLearn]
  cases hknown : c.scan fun e => e.valid && e.ipNbo == ipNbo with
  | some s =>
      obtain ⟨e, i⟩ := s
      obtain ⟨he, hp⟩ := scan_some hknown
      rw [Bool.and_eq_true, beq_iff_eq] at hp
      obtain ⟨hv, hip⟩ := hp
      subst hip
      -- the slot of the address, of which there is only one
      refine KeyedTable.Sound.set (e := { e with mac := mac, lastSeen := now }) h ?_
      intro j a ha hva hka
      exact h.unique j i a e ha he hva hv hka
  | none =>
      have hnew := scan_unknown hknown
      -- no slot of the address: an expired one, a new one, or the call is lost
      cases hold : c.scan fun e => e.valid && expired now e with
      | some s =>
          obtain ⟨e, i⟩ := s
          refine KeyedTable.Sound.set
            (e := { e with ipNbo := ipNbo, mac := mac, lastSeen := now }) h ?_
          intro j a ha hva hka
          exact absurd hka (hnew a (List.mem_of_getElem? ha) hva)
      | none =>
          simp only
          split
          · exact KeyedTable.Sound.push (e := ⟨ipNbo, mac, true, now⟩) h hnew
          · exact KeyedTable.Sound.skip h hnew

theorem arpCacheLookup_sound {c : ArpCache} {ws : List (UInt32 × (Mac × Int))}
    (h : CacheSound ws c) (now : Int) (ipNbo : UInt32) :
    CacheSound ws (arpCacheLookup c now ipNbo).1 := by
  rw [arpCacheLookup]
  cases c.scan fun e => e.valid && e.ipNbo == ipNbo with
  | some s =>
      obtain ⟨e, i⟩ := s
      simp only
      split
      · exact KeyedTable.Sound.kill h rfl
      · exact h
  | none => exact h

theorem step_sound {c : ArpCache} {ws : List (UInt32 × (Mac × Int))} (h : CacheSound ws c)
    (call : Call) : CacheSound (ws ++ learns [call]) (step c call) := by
  cases call with
  | learn now ipNbo mac => exact arpCacheLearn_sound h now ipNbo mac
  | lookup now ipNbo =>
      rw [show learns [.lookup now ipNbo] = [] from rfl, List.append_nil]
      exact arpCacheLookup_sound h now ipNbo
  | dump now max =>
      rw [show learns [.dump now max] = [] from rfl, List.append_nil]
      exact h

theorem foldl_step_sound {c : ArpCache} {ws : List (UInt32 × (Mac × Int))}
    (h : CacheSound ws c) (calls : List Call) :
    CacheSound (ws ++ learns calls) (calls.foldl step c) := by
  induction calls generalizing c ws with
  | nil =>
      rw [learns, List.filterMap_nil, List.append_nil]
      exact h
  | cons call calls ih =>
      have happ : learns (call :: calls) = learns [call] ++ learns calls :=
        List.filterMap_append (l := [call])
      rw [happ, ← List.append_assoc]
      exact ih (step_sound h call)

theorem runCalls_sound (calls : List Call) : CacheSound (learns calls) (runCalls calls) := by
  have hempty : CacheSound [] arpCacheCreate := KeyedTable.Sound.empty
  exact foldl_step_sound hempty calls

/-! ## What the cache gives out -/

theorem lookup_found {c : ArpCache} {now : Int} {ipNbo : UInt32} {mac : Mac}
    (h : (arpCacheLookup c now ipNbo).2 = some mac) :
    ∃ e ∈ c.entries, e.valid = true ∧ e.ipNbo = ipNbo ∧ e.mac = mac
      ∧ now - e.lastSeen ≤ arpCacheTtlSecs := by
  rw [arpCacheLookup] at h
  cases hs : c.scan fun e => e.valid && e.ipNbo == ipNbo with
  | none =>
      rw [hs] at h
      cases h
  | some s =>
      obtain ⟨e, i⟩ := s
      obtain ⟨he, hp⟩ := scan_some hs
      rw [Bool.and_eq_true, beq_iff_eq] at hp
      rw [hs] at h
      simp only at h
      split at h
      · cases h
      · rename_i hfresh
        refine ⟨e, List.mem_of_getElem? he, hp.1, hp.2, Option.some.inj h, ?_⟩
        simpa [expired] using hfresh

theorem dumpLoop_length_le (now : Int) (es : List ArpCacheSlot) (room : Nat) :
    (dumpLoop now es room).length ≤ room := by
  induction es generalizing room with
  | nil => exact Nat.zero_le _
  | cons e es ih =>
      cases room with
      | zero => exact Nat.le_refl _
      | succ room =>
          rw [dumpLoop]
          split
          · exact ih _
          split
          · exact ih _
          · exact Nat.succ_le_succ (ih room)

theorem dumpLoop_mem {now : Int} {es : List ArpCacheSlot} {room : Nat} {out : ArpEntry}
    (h : out ∈ dumpLoop now es room) :
    ∃ e ∈ es, e.valid = true ∧ out = ⟨e.ipNbo, e.mac, e.lastSeen * 1000⟩
      ∧ now - e.lastSeen ≤ arpCacheTtlSecs := by
  have tail : ∀ {e : ArpCacheSlot} {es : List ArpCacheSlot},
      (∃ e' ∈ es, e'.valid = true ∧ out = ⟨e'.ipNbo, e'.mac, e'.lastSeen * 1000⟩
        ∧ now - e'.lastSeen ≤ arpCacheTtlSecs) →
      ∃ e' ∈ e :: es, e'.valid = true ∧ out = ⟨e'.ipNbo, e'.mac, e'.lastSeen * 1000⟩
        ∧ now - e'.lastSeen ≤ arpCacheTtlSecs := by
    rintro e es ⟨e', he', hrest⟩
    exact ⟨e', List.mem_cons_of_mem e he', hrest⟩
  induction es generalizing room with
  | nil => simp [dumpLoop] at h
  | cons e es ih =>
      cases room with
      | zero => simp [dumpLoop] at h
      | succ room =>
          rw [dumpLoop] at h
          split at h
          · exact tail (ih h)
          · rename_i hv
            split at h
            · exact tail (ih h)
            · rename_i hfresh
              rcases List.mem_cons.mp h with rfl | h
              · refine ⟨e, List.mem_cons_self, by simpa using hv, rfl, ?_⟩
                simpa [expired] using hfresh
              · exact tail (ih h)

/-- **Soundness of the cache**, after any calls, at any times: an address has at
    most one valid slot; what a lookup or a dump gives out for an address is the
    MAC of the most recent learn call for it, and that call was at most 300
    seconds before. -/
theorem arpCache_sound (calls : List Call) :
    (∀ (i j : Nat) (a b : ArpCacheSlot), (runCalls calls).entries[i]? = some a →
        (runCalls calls).entries[j]? = some b → a.valid = true → b.valid = true →
        a.ipNbo = b.ipNbo → i = j)
      ∧ (∀ (now : Int) (ipNbo : UInt32) (mac : Mac),
          (arpCacheLookup (runCalls calls) now ipNbo).2 = some mac →
          ∃ t, lastLearn calls ipNbo = some (mac, t) ∧ now - t ≤ 300)
      ∧ ∀ (now max : Int) (out : ArpEntry), out ∈ arpCacheDump (runCalls calls) now max →
          ∃ t, lastLearn calls out.ipNbo = some (out.mac, t) ∧ now - t ≤ 300
            ∧ out.lastSeenMs = t * 1000 := by
  have hsound := runCalls_sound calls
  refine ⟨hsound.unique, ?_, ?_⟩
  · intro now ipNbo mac h
    obtain ⟨e, he, hv, rfl, rfl, hage⟩ := lookup_found h
    exact ⟨e.lastSeen, hsound.reflects e he hv, hage⟩
  · intro now max out h
    rw [arpCacheDump] at h
    split at h
    · cases h
    · obtain ⟨e, he, hv, rfl, hage⟩ := dumpLoop_mem h
      exact ⟨e.lastSeen, hsound.reflects e he hv, hage, rfl⟩

end FsoArpCache
