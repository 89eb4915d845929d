import FsoGateway.GatewaySource
import FsoGateway.Lib.Segments
import Mathlib.Data.List.Nodup

/-! # The ids of alerts

    `webgui/server/gateway_source.py` names an alert by the time of its
    snapshot, its module and the length of the bounded list it goes into;
    `webgui/src/lib/useAlerts.ts` merges and acknowledges alerts by that name.

    * `idText_inj` — the text of an id determines its three parts;
    * `alertIds_unique_iff` — all ids ever made are distinct just when no
      snapshot raises both of its burst alerts into a full list, and then the
      page neither hides an alert nor acknowledges another one with it;
    * `alertIds_clash` — the two burst alerts of one snapshot. -/

namespace FsoGatewaySource

/-! ## The text of an id -/

/-- The id that `_push_alert` makes. -/
def idText (ts : Int) (mod : AlertModule) (n : Nat) : String :=
  toString ts ++ "-" ++ mod.text ++ "-" ++ toString n

theorem dash_notMem_repr (n : Nat) : '-' ∉ n.repr.toList := by
  intro h
  rw [Nat.toList_repr] at h
  have hdigit := Nat.isDigit_of_mem_toDigits (by decide) (by decide) h
  cases hdigit

theorem repr_inj {m n : Nat} (h : m.repr = n.repr) : m = n := by
  have hdigits := congrArg (fun s => Nat.ofDigitChars 10 (String.toList s) 0) h
  simpa [Nat.toList_repr] using hdigits

theorem intRepr_inj {a b : Int} (h : a.repr = b.repr) : a = b := by
  have hsign : ∀ {m n : Nat}, m.repr ≠ "-" ++ n.repr := by
    intro m n heq
    apply dash_notMem_repr m
    rw [heq, String.toList_append]
    exact List.mem_append_left _ List.mem_cons_self
  rw [Int.repr_eq_if, Int.repr_eq_if] at h
  split at h
  · split at h
    · have := repr_inj h
      omega
    · exact absurd h hsign
  · split at h
    · exact absurd h.symm hsign
    · have hlist := congrArg String.toList h
      rw [String.toList_append, String.toList_append] at hlist
      have := repr_inj (String.toList_inj.mp (List.append_cancel_left hlist))
      omega

/-- What follows the last dash, and what precedes it. -/
theorem dash_inj {l l' m m' : List Char} (hm : '-' ∉ m) (hm' : '-' ∉ m')
    (h : l ++ '-' :: m = l' ++ '-' :: m') : l = l' ∧ m = m' := by
  have hnone : ∀ {m : List Char}, '-' ∉ m → ∀ c ∈ m, (c == '-') = false := by
    intro m hm c hc
    rw [beq_eq_false_iff_ne]
    rintro rfl
    exact hm hc
  have hlast : m = m' := by
    rw [← Segments.pending_after_sep (p := (· == '-')) (a := '-') rfl l (hnone hm), h]
    exact Segments.pending_after_sep rfl l' (hnone hm')
  rw [hlast] at h
  exact ⟨List.append_cancel_right h, hlast⟩

theorem dash_notMem_text (mod : AlertModule) : '-' ∉ mod.text.toList := by
  cases mod <;> decide

theorem text_inj {mod mod' : AlertModule} (h : mod.text = mod'.text) : mod = mod' := by
  revert h
  cases mod <;> cases mod' <;> decide

/-- **The parts of an id**: none of them is lost in the text. -/
theorem idText_inj {ts ts' : Int} {mod mod' : AlertModule} {n n' : Nat} :
    idText ts mod n = idText ts' mod' n' ↔ ts = ts' ∧ mod = mod' ∧ n = n' := by
  constructor
  · intro h
    have hlist := congrArg String.toList h
    simp only [idText, String.toList_append, Int.toString_eq_repr, Nat.toString_eq_repr] at hlist
    have hparts : (ts.repr.toList ++ '-' :: mod.text.toList) ++ '-' :: n.repr.toList
        = (ts'.repr.toList ++ '-' :: mod'.text.toList) ++ '-' :: n'.repr.toList := by
      simpa using hlist
    obtain ⟨hfront, hn⟩ := dash_inj (dash_notMem_repr n) (dash_notMem_repr n') hparts
    obtain ⟨hts, hmod⟩ := dash_inj (dash_notMem_text mod) (dash_notMem_text mod') hfront
    refine ⟨?_, ?_, ?_⟩
    · exact intRepr_inj (String.toList_inj.mp hts)
    · exact text_inj (String.toList_inj.mp hmod)
    · exact repr_inj (String.toList_inj.mp hn)
  · rintro ⟨rfl, rfl, rfl⟩
    rfl

/-! ## The alerts of a snapshot -/

/-- An alert before it has its id. -/
structure Raised where
  severity : Severity
  alertModule : AlertModule
  message : String

def blocksFail (prev raw : Raw) : Bool := raw.stats.blocksFailed - prev.stats.blocksFailed ≥ 3

def crcDrops (prev raw : Raw) : Bool :=
  raw.stats.symbolsDroppedCrc - prev.stats.symbolsDroppedCrc ≥ 20

def burstClimbs (prev raw : Raw) : Bool :=
  raw.stats.maxBurstLength > prev.stats.maxBurstLength ∧ raw.stats.maxBurstLength > 20

def spanExceeded (prev raw : Raw) : Bool :=
  raw.stats.burstsExceedingFecSpan - prev.stats.burstsExceedingFecSpan > 0

/-- The alerts that `_detect_alerts` raises, in order. -/
def raised (prev raw : Raw) : List Raised :=
  (if blocksFail prev raw then
    [⟨.critical, .fec, toString (raw.stats.blocksFailed - prev.stats.blocksFailed)
      ++ " FEC blocks failed this tick"⟩] else [])
    ++ (if crcDrops prev raw then
      [⟨.warning, .crc, toString (raw.stats.symbolsDroppedCrc - prev.stats.symbolsDroppedCrc)
        ++ " symbols dropped on CRC"⟩] else [])
    ++ (if burstClimbs prev raw then
      [⟨.warning, .burst,
        "Max burst length climbed to " ++ toString raw.stats.maxBurstLength⟩] else [])
    ++ (if spanExceeded prev raw then
      [⟨.critical, .burst,
        toString (raw.stats.burstsExceedingFecSpan - prev.stats.burstsExceedingFecSpan)
          ++ " burst(s) exceeded FEC span this tick"⟩] else [])

/-- `_push_alert` for one of them. -/
def raise (ts : Int) (s : GatewaySource) (r : Raised) : GatewaySource :=
  pushAlert s ts r.severity r.alertModule r.message

theorem detectAlerts_eq (s : GatewaySource) (raw prev : Raw) :
    detectAlerts s raw prev = (raised prev raw).foldl (raise raw.tsMs) s := by
  have hif : ∀ (p : Prop) [Decidable p] (s : GatewaySource) (r : Raised),
      (if p then [r] else []).foldl (raise raw.tsMs) s
        = if p then raise raw.tsMs s r else s := by
    intro p _ s r
    split <;> rfl
  rw [raised, List.foldl_append, List.foldl_append, List.foldl_append, hif, hif, hif, hif,
    detectAlerts]
  simp only [blocksFail, crcDrops, burstClimbs, spanExceeded, decide_eq_true_eq, raise]

/-- The alerts made on the way, each with its id. -/
def made (ts : Int) (s : GatewaySource) : List Raised → List Alert
  | [] => []
  | r :: rs => newAlert s ts r.severity r.alertModule r.message :: made ts (raise ts s r) rs

/-- The alerts that a snapshot produces. -/
def produces (s : GatewaySource) (raw : Raw) : List Alert :=
  match used s.lastRaw raw with
  | none => []
  | some prev => made raw.tsMs s (raised prev raw)

theorem raise_length {ts : Int} (s : GatewaySource) (r : Raised) :
    (raise ts s r).alerts.length = min alertRingMax (s.alerts.length + 1) := by
  rw [raise, pushAlert, List.length_take, List.length_cons]

/-- The alerts depend on nothing else of the state. -/
theorem foldl_raise_congr {ts : Int} (rs : List Raised) {s s' : GatewaySource}
    (h : s.alerts = s'.alerts) :
    (rs.foldl (raise ts) s).alerts = (rs.foldl (raise ts) s').alerts := by
  induction rs generalizing s s' with
  | nil => exact h
  | cons r rs ih =>
      apply ih
      rw [raise, raise, pushAlert, pushAlert, newAlert, newAlert, h]

theorem foldl_raise_length {ts : Int} (rs : List Raised) {s : GatewaySource}
    (hs : s.alerts.length ≤ alertRingMax) :
    (rs.foldl (raise ts) s).alerts.length = min alertRingMax (s.alerts.length + rs.length) := by
  induction rs generalizing s with
  | nil => exact (Nat.min_eq_right hs).symm
  | cons r rs ih =>
      have hlen : (raise ts s r).alerts.length = min alertRingMax (s.alerts.length + 1) :=
        raise_length s r
      rw [List.foldl_cons, ih (by rw [hlen]; exact Nat.min_le_left _ _), hlen, List.length_cons]
      omega

/-- The newest come first, and the oldest fall out. -/
theorem foldl_raise_alerts {ts : Int} (rs : List Raised) (s : GatewaySource)
    {older : List Alert} (hs : s.alerts = older.take alertRingMax) :
    (rs.foldl (raise ts) s).alerts = ((made ts s rs).reverse ++ older).take alertRingMax := by
  induction rs generalizing s older with
  | nil => exact hs
  | cons r rs ih =>
      have hnext : (raise ts s r).alerts
          = (newAlert s ts r.severity r.alertModule r.message :: older).take alertRingMax := by
        show (_ :: s.alerts).take alertRingMax = _
        rw [hs, show alertRingMax = 199 + 1 from rfl, List.take_succ_cons, List.take_succ_cons,
          List.take_take]
        rfl
      rw [List.foldl_cons, ih (raise ts s r) hnext, made, List.reverse_cons, List.append_assoc]
      rfl

/-- Their ids number them on from the length of the list, up to its bound. -/
theorem made_ids {ts : Int} (rs : List Raised) {s : GatewaySource} {n : Nat}
    (hs : s.alerts.length = min alertRingMax n) :
    (made ts s rs).map Alert.id
      = (rs.zipIdx n).map fun r => idText ts r.1.alertModule (min alertRingMax r.2) := by
  induction rs generalizing s n with
  | nil => rfl
  | cons r rs ih =>
      have hnext : (raise ts s r).alerts.length = min alertRingMax (n + 1) := by
        rw [raise_length, hs]
        omega
      rw [made, List.map_cons, List.zipIdx_cons, List.map_cons, ih hnext, ← hs]
      rfl

/-- Both burst alerts are raised, with the list full when the first one comes. -/
def TwoBursts (prev raw : Raw) (held : Nat) : Prop :=
  burstClimbs prev raw = true ∧ spanExceeded prev raw = true
    ∧ alertRingMax ≤ held + (blocksFail prev raw).toNat + (crcDrops prev raw).toNat

/-- The ids of one snapshot. -/
theorem made_nodup_iff {s : GatewaySource} (hs : s.alerts.length ≤ alertRingMax)
    (prev raw : Raw) :
    ((made raw.tsMs s (raised prev raw)).map Alert.id).Nodup
      ↔ ¬ TwoBursts prev raw s.alerts.length := by
  rw [made_ids (raised prev raw) (n := s.alerts.length) (Nat.min_eq_right hs).symm]
  rw [raised, TwoBursts]
  -- only the two burst alerts have one module
  cases blocksFail prev raw <;> cases crcDrops prev raw <;> cases burstClimbs prev raw <;>
    cases spanExceeded prev raw <;> simp [idText_inj, List.zipIdx_cons] <;> omega

/-! ## Sessions -/

/-- A snapshot of the daemon, or the end of a connection. -/
inductive Op where
  | snapshot (raw : Raw)
  | disconnect

/-- The source, and all the alerts it has ever produced. -/
structure Session where
  source : GatewaySource
  produced : List Alert

def step (s : Session) : Op → Session
  | .snapshot raw => ⟨ingest s.source raw, s.produced ++ produces s.source raw⟩
  | .disconnect => ⟨FsoGatewaySource.disconnect s.source, s.produced⟩

def runOps (ops : List Op) : Session := ops.foldl step ⟨gatewaySource, []⟩

theorem runOps_append (ops : List Op) (op : Op) :
    runOps (ops ++ [op]) = step (runOps ops) op := by
  rw [runOps, List.foldl_append]
  rfl

/-- The time stamps of the snapshots. -/
def times (ops : List Op) : List Int :=
  ops.filterMap fun op =>
    match op with
    | .snapshot raw => some raw.tsMs
    | .disconnect => none

theorem times_append (ops : List Op) (op : Op) : times (ops ++ [op]) = times ops ++ times [op] :=
  List.filterMap_append

/-- The time stamps do not decrease. -/
def TimesForward (ops : List Op) : Prop := (times ops).Pairwise (· ≤ ·)

/-- The snapshot that raises both burst alerts into a full list. -/
def Clashes (s : GatewaySource) : Op → Prop
  | .snapshot raw => ∃ prev, used s.lastRaw raw = some prev ∧ TwoBursts prev raw s.alerts.length
  | .disconnect => False

/-- What holds of every session. -/
structure SessionInv (ops : List Op) (s : Session) : Prop where
  bound : s.source.alerts.length ≤ alertRingMax
  named : ∀ a ∈ s.produced, ∃ mod n, a.id = idText a.t mod n
  timed : ∀ a ∈ s.produced, a.t ∈ times ops
  last : ∀ prev, s.source.lastRaw = some prev → ∀ a ∈ s.produced, a.t ≤ prev.tsMs

theorem made_named {ts : Int} (rs : List Raised) (s : GatewaySource) :
    ∀ a ∈ made ts s rs, a.t = ts ∧ ∃ mod n, a.id = idText a.t mod n := by
  induction rs generalizing s with
  | nil =>
      intro a ha
      exact absurd ha List.not_mem_nil
  | cons r rs ih =>
      intro a ha
      rcases List.mem_cons.mp ha with rfl | ha
      · exact ⟨rfl, r.alertModule, s.alerts.length, rfl⟩
      · exact ih (raise ts s r) a ha

theorem produces_named (s : GatewaySource) (raw : Raw) :
    ∀ a ∈ produces s raw, a.t = raw.tsMs ∧ ∃ mod n, a.id = idText a.t mod n := by
  intro a ha
  rw [produces] at ha
  split at ha
  · exact absurd ha List.not_mem_nil
  · exact made_named _ s a ha

/-- The alerts that a snapshot leaves in the list. -/
theorem ingest_alerts (s : GatewaySource) (raw : Raw) :
    (ingest s raw).alerts =
      match used s.lastRaw raw with
      | none => s.alerts
      | some prev => ((raised prev raw).foldl (raise raw.tsMs) s).alerts := by
  cases hused : used s.lastRaw raw with
  | none => rw [ingest_skipped hused]
  | some prev =>
      obtain ⟨hlast, hlong⟩ := Option.filter_eq_some_iff.mp hused
      rw [decide_eq_true_eq] at hlong
      rw [ingest, hlast]
      simp only
      rw [if_neg (by omega), detectAlerts_eq]
      exact foldl_raise_congr _ rfl

theorem sessionInv_run {ops : List Op} (hforward : TimesForward ops) :
    SessionInv ops (runOps ops) := by
  induction ops using List.reverseRecOn with
  | nil =>
      constructor
      · exact Nat.zero_le _
      · exact fun a ha => absurd ha List.not_mem_nil
      · exact fun a ha => absurd ha List.not_mem_nil
      · exact fun prev hprev a ha => absurd ha List.not_mem_nil
  | append_singleton ops op ih =>
      rw [TimesForward, times_append, List.pairwise_append] at hforward
      obtain ⟨hbefore, -, hlater⟩ := hforward
      have hinv := ih hbefore
      rw [runOps_append]
      cases op with
      | disconnect =>
          constructor
          · exact hinv.bound
          · exact hinv.named
          · intro a ha
            rw [times_append]
            exact List.mem_append_left _ (hinv.timed a ha)
          · intro prev hprev
            cases hprev
      | snapshot raw =>
          constructor
          · rw [step, ingest_alerts]
            split
            · exact hinv.bound
            · rw [foldl_raise_length _ hinv.bound]
              exact Nat.min_le_left _ _
          · intro a ha
            rcases List.mem_append.mp ha with ha | ha
            · exact hinv.named a ha
            · exact (produces_named _ raw a ha).2
          · intro a ha
            rw [times_append]
            rcases List.mem_append.mp ha with ha | ha
            · exact List.mem_append_left _ (hinv.timed a ha)
            · rw [(produces_named _ raw a ha).1]
              exact List.mem_append_right _ List.mem_cons_self
          · intro prev hprev a ha
            rw [step, ingest_lastRaw, Option.some.injEq] at hprev
            rw [← hprev]
            rcases List.mem_append.mp ha with ha | ha
            · exact hlater a.t (hinv.timed a ha) raw.tsMs List.mem_cons_self
            · exact Int.le_of_eq (produces_named _ raw a ha).1

/-- **The list that the page gets** holds the newest of the alerts produced. -/
theorem alerts_newest (ops : List Op) :
    (runOps ops).source.alerts = (runOps ops).produced.reverse.take alertRingMax := by
  induction ops using List.reverseRecOn with
  | nil => rfl
  | append_singleton ops op ih =>
      rw [runOps_append]
      cases op with
      | disconnect => exact ih
      | snapshot raw =>
          rw [step, ingest_alerts, List.reverse_append, produces]
          cases used (runOps ops).source.lastRaw raw with
          | none => exact ih
          | some prev => exact foldl_raise_alerts _ _ ih

/-- The ids of a snapshot are none of those before, being later. -/
theorem produces_fresh {ops : List Op} {s : Session} (h : SessionInv ops s) (raw : Raw) :
    ∀ a ∈ s.produced, ∀ b ∈ produces s.source raw, a.id ≠ b.id := by
  intro a ha b hb heq
  cases hused : used s.source.lastRaw raw with
  | none =>
      rw [produces, hused] at hb
      exact absurd hb List.not_mem_nil
  | some prev =>
      obtain ⟨hlast, hlong⟩ := Option.filter_eq_some_iff.mp hused
      rw [decide_eq_true_eq] at hlong
      have hle := h.last prev hlast a ha
      obtain ⟨mod, n, hid⟩ := h.named a ha
      obtain ⟨hts, mod', n', hid'⟩ := produces_named s.source raw b hb
      rw [hid, hid', idText_inj] at heq
      omega

theorem produces_nodup_iff {s : GatewaySource} (hs : s.alerts.length ≤ alertRingMax)
    (raw : Raw) :
    ((produces s raw).map Alert.id).Nodup ↔ ¬ Clashes s (.snapshot raw) := by
  rw [produces, Clashes]
  cases hused : used s.lastRaw raw with
  | none =>
      constructor
      · rintro - ⟨prev, hprev, -⟩
        cases hprev
      · intro _
        exact List.nodup_nil
  | some prev =>
      simp only
      rw [made_nodup_iff hs]
      constructor
      · rintro hno ⟨p, hp, htwo⟩
        rw [← Option.some.inj hp] at htwo
        exact hno htwo
      · intro hno htwo
        exact hno ⟨prev, rfl, htwo⟩

theorem ids_nodup_iff {ops : List Op} (hforward : TimesForward ops) :
    ((runOps ops).produced.map Alert.id).Nodup
      ↔ ∀ pre op, pre ++ [op] <+: ops → ¬ Clashes (runOps pre).source op := by
  induction ops using List.reverseRecOn with
  | nil =>
      constructor
      · intro _ pre op hpre
        have := hpre.length_le
        simp at this
      · intro _
        exact List.nodup_nil
  | append_singleton ops op ih =>
      have hbefore : TimesForward ops := by
        rw [TimesForward, times_append, List.pairwise_append] at hforward
        exact hforward.1
      have hinv := sessionInv_run hbefore
      -- the last op adds distinct ids, and none of the old ones
      have hlast : ((runOps (ops ++ [op])).produced.map Alert.id).Nodup
          ↔ ((runOps ops).produced.map Alert.id).Nodup ∧ ¬ Clashes (runOps ops).source op := by
        rw [runOps_append]
        cases op with
        | disconnect => exact ⟨fun h => ⟨h, fun hc => hc⟩, fun h => h.1⟩
        | snapshot raw =>
            rw [step, ← produces_nodup_iff hinv.bound raw]
            simp only
            rw [List.map_append, List.nodup_append]
            constructor
            · rintro ⟨hold, hnew, -⟩
              exact ⟨hold, hnew⟩
            · rintro ⟨hold, hnew⟩
              refine ⟨hold, hnew, ?_⟩
              intro x hx y hy
              obtain ⟨a, ha, rfl⟩ := List.mem_map.mp hx
              obtain ⟨b, hb, rfl⟩ := List.mem_map.mp hy
              exact produces_fresh hinv raw a ha b hb
      rw [hlast, ih hbefore]
      constructor
      · rintro ⟨hops, hop⟩ pre o hpre
        rcases List.prefix_concat_iff.mp hpre with heq | hold
        · obtain ⟨rfl, ho⟩ := List.append_inj' heq rfl
          rw [(List.cons.inj ho).1]
          exact hop
        · exact hops pre o hold
      · intro hall
        exact ⟨fun pre o hpre => hall pre o (hpre.trans (List.prefix_append ops [op])),
          hall ops op List.prefix_rfl⟩

/-! ## The page -/

/-- `MAX_CUMULATIVE`. -/
def maxCumulative : Nat := 1000

/-- The alerts of a snapshot whose ids the page has not seen. -/
def addedAlerts (prev snap : List Alert) : List Alert :=
  snap.filter fun a => !(prev.map Alert.id).contains a.id

/-- The merge of `useAlerts`: newest first, and at most 1000. -/
def mergeAlerts (prev snap : List Alert) : List Alert :=
  if snap.isEmpty then prev
  else if (addedAlerts prev snap).isEmpty then prev
  else ((addedAlerts prev snap ++ prev).mergeSort fun a b => b.t ≤ a.t).take maxCumulative

/-- `acknowledge` of `useAlerts`. -/
def acknowledge (acked : List String) (id : String) : List String :=
  if acked.contains id then acked else id :: acked

/-- What the page relies on: it shows every alert it is given, unless it has
    more than it keeps, and an acknowledgement is of one alert. -/
def PageSound (produced : List Alert) : Prop :=
  (∀ prev snap, prev ⊆ produced → snap ⊆ produced → ∀ a ∈ snap,
      a ∈ mergeAlerts prev snap
        ∨ (addedAlerts prev snap ++ prev).length > maxCumulative)
    ∧ ∀ acked, ∀ a ∈ produced, ∀ b ∈ produced,
      ((acknowledge acked a.id).contains b.id = true ↔ acked.contains b.id = true ∨ b = a)

theorem pageSound_of_nodup {produced : List Alert}
    (h : (produced.map Alert.id).Nodup) : PageSound produced := by
  have hinj : ∀ a ∈ produced, ∀ b ∈ produced, a.id = b.id → a = b := by
    intro a ha b hb heq
    exact List.inj_on_of_nodup_map h ha hb heq
  constructor
  · intro prev snap hprev hsnap a ha
    have hseen : a ∈ prev ∨ a ∈ addedAlerts prev snap := by
      cases hc : (prev.map Alert.id).contains a.id with
      | false => exact .inr (List.mem_filter.mpr ⟨ha, by rw [hc]; rfl⟩)
      | true =>
          obtain ⟨b, hb, hid⟩ := List.mem_map.mp (List.contains_iff_mem.mp hc)
          rw [← hinj b (hprev hb) a (hsnap ha) hid]
          exact .inl hb
    rw [mergeAlerts, if_neg]
    · split
      · rename_i hnone
        rw [List.isEmpty_iff] at hnone
        rw [hnone] at hseen
        rcases hseen with hold | hnew
        · exact .inl hold
        · exact absurd hnew List.not_mem_nil
      · rcases Nat.lt_or_ge maxCumulative (addedAlerts prev snap ++ prev).length with hlt | hge
        · exact .inr hlt
        · rw [List.take_of_length_le (by rw [List.length_mergeSort]; exact hge)]
          refine .inl (List.mem_mergeSort.mpr ?_)
          rcases hseen with hold | hnew
          · exact List.mem_append_right _ hold
          · exact List.mem_append_left _ hnew
    · rw [List.isEmpty_iff]
      rintro rfl
      exact absurd ha List.not_mem_nil
  · intro acked a ha b hb
    rw [acknowledge]
    split
    · rename_i hold
      constructor
      · exact .inl
      · rintro (h | rfl)
        · exact h
        · exact hold
    · rw [List.contains_iff_mem, List.contains_iff_mem, List.mem_cons]
      constructor
      · rintro (hid | hmem)
        · exact .inr (hinj b hb a ha hid)
        · exact .inl hmem
      · rintro (hmem | rfl)
        · exact .inr hmem
        · exact .inl rfl

/-- **The ids of alerts**, over any snapshots and disconnections with time
    stamps that do not decrease: all ids ever produced are distinct if and only
    if no snapshot raises both of its burst alerts when the list, with the other
    alerts of that snapshot, has reached 200.  The page gets the newest 200;
    with distinct ids it never hides a new alert, and an acknowledgement never
    applies to another one. -/
theorem alertIds_unique_iff (ops : List Op) (hforward : TimesForward ops) :
    (((runOps ops).produced.map Alert.id).Nodup
        ↔ ∀ pre op, pre ++ [op] <+: ops → ¬ Clashes (runOps pre).source op)
      ∧ (runOps ops).source.alerts = (runOps ops).produced.reverse.take alertRingMax
      ∧ (((runOps ops).produced.map Alert.id).Nodup → PageSound (runOps ops).produced) :=
  ⟨ids_nodup_iff hforward, alerts_newest ops, pageSound_of_nodup⟩

/-- A snapshot every second, with three more blocks failed each time. -/
def tick (i : Nat) (maxBurst exceeding : Int) : Raw :=
  ⟨1000 * i, ⟨0, 0, 0, 0, 0, 0, 3 * i, 0, maxBurst, exceeding⟩, []⟩

/-- A connection with one alert. -/
theorem alertIds_unique_tick :
    PageSound (runOps [.snapshot (tick 0 0 0), .snapshot (tick 1 0 0)]).produced := by
  obtain ⟨hiff, -, hpage⟩ := alertIds_unique_iff
    [.snapshot (tick 0 0 0), .snapshot (tick 1 0 0)] (by simp [TimesForward, times, tick])
  refine hpage (hiff.mpr ?_)
  intro pre op hpre
  rcases pre with _ | ⟨first, _ | ⟨second, rest⟩⟩
  · -- the first snapshot is not used
    obtain ⟨rfl, -⟩ := List.cons_prefix_cons.mp hpre
    rintro ⟨prev, hprev, -⟩
    cases hprev
  · obtain ⟨rfl, hop⟩ := List.cons_prefix_cons.mp hpre
    obtain ⟨rfl, -⟩ := List.cons_prefix_cons.mp hop
    rintro ⟨prev, hprev, hclimbs, -⟩
    obtain ⟨hlast, -⟩ := Option.filter_eq_some_iff.mp hprev
    rw [← Option.some.inj hlast] at hclimbs
    revert hclimbs
    decide
  · have hlen := hpre.length_le
    simp only [List.length_append, List.length_cons, List.length_nil] at hlen
    omega

/-! ## Two burst alerts in a full list -/

def fecOps (n : Nat) : List Op := (List.range (n + 1)).map fun i => .snapshot (tick i 0 0)

theorem fecOps_succ (n : Nat) : fecOps (n + 1) = fecOps n ++ [.snapshot (tick (n + 1) 0 0)] := by
  rw [fecOps, List.range_succ, List.map_append]
  rfl

theorem used_tick (n : Nat) (maxBurst exceeding : Int) :
    used (some (tick n 0 0)) (tick (n + 1) maxBurst exceeding) = some (tick n 0 0) := by
  rw [used, Option.filter_some, if_pos]
  rw [decide_eq_true_eq, tick, tick]
  push_cast
  omega

theorem blocksFail_tick (n : Nat) (maxBurst exceeding : Int) :
    blocksFail (tick n 0 0) (tick (n + 1) maxBurst exceeding) = true := by
  rw [blocksFail, decide_eq_true_eq, tick, tick]
  push_cast
  omega

/-- Each of these snapshots raises one alert. -/
theorem runOps_fecOps (n : Nat) :
    (runOps (fecOps n)).source.alerts.length = min alertRingMax n
      ∧ (runOps (fecOps n)).source.lastRaw = some (tick n 0 0) := by
  induction n with
  | zero => exact ⟨rfl, rfl⟩
  | succ n ih =>
      obtain ⟨hlen, hlast⟩ := ih
      rw [fecOps_succ, runOps_append, step]
      refine ⟨?_, ingest_lastRaw _ _⟩
      have hraised : (raised (tick n 0 0) (tick (n + 1) 0 0)).length = 1 := by
        rw [raised, blocksFail_tick]
        rfl
      rw [ingest_alerts, hlast, used_tick]
      simp only
      rw [foldl_raise_length _ (by rw [hlen]; exact Nat.min_le_left _ _), hraised, hlen]
      omega

theorem times_fecOps (n : Nat) :
    times (fecOps n) = (List.range (n + 1)).map fun i : Nat => 1000 * (i : Int) := by
  rw [times, fecOps, List.filterMap_map]
  exact congrFun (List.filterMap_eq_map' (f := fun i : Nat => 1000 * (i : Int))) _

/-- After 200 alerts, one snapshot in which the longest burst climbs to 21 and a
    burst exceeds the FEC span. -/
theorem alertIds_clash :
    ¬ ∀ ops : List Op, TimesForward ops → ((runOps ops).produced.map Alert.id).Nodup := by
  intro hall
  have hforward : TimesForward (fecOps 200 ++ [.snapshot (tick 201 21 1)]) := by
    rw [TimesForward, times_append, times_fecOps, List.pairwise_append]
    refine ⟨?_, List.pairwise_singleton _ _, ?_⟩
    · rw [List.pairwise_map]
      refine List.Pairwise.imp ?_ List.pairwise_lt_range
      intro i j hij
      omega
    · intro a ha b hb
      obtain ⟨i, hi, rfl⟩ := List.mem_map.mp ha
      rw [List.mem_range] at hi
      have hlast : b = 201000 := List.mem_singleton.mp hb
      omega
  obtain ⟨hlen, hlast⟩ := runOps_fecOps 200
  refine (ids_nodup_iff hforward).mp (hall _ hforward) (fecOps 200)
    (.snapshot (tick 201 21 1)) List.prefix_rfl ?_
  refine ⟨tick 200 0 0, ?_, by decide, by decide, ?_⟩
  · rw [hlast]
    exact used_tick 200 21 1
  · rw [hlen]
    decide

end FsoGatewaySource
