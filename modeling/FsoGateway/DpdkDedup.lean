import FsoGateway.Lib.SlotLedger
import Mathlib.Logic.Function.Basic

/-! # Loopback suppression on a DPDK port

    `src/packet_io_dpdk.c`: a port that hears its own transmissions keeps a
    direct-mapped table of fingerprints of the frames it hands to the NIC.  A
    context that opted in drops a received frame whose fingerprint it finds
    there unexpired, and uses the entry up.  The fingerprint is a 32-bit hash
    of the first 64 bytes; neither the rest of the frame nor its length enters
    it, and it is recorded before the NIC has taken the frame.

    * `reflects_run` — after any sends and receives, at any times, the table
      holds the last frame handed over in each slot, until it is matched;
    * `runOps_verdicts` — so exactly these are the frames that are dropped;
    * `dedup_suppresses_echoes` — if a frame is only ever checked against the
      record of itself, what is dropped are echoes, one for each frame sent,
      and all else is delivered;
    * `dedup_drops_traffic` — two frames that differ in their last byte. -/

namespace FsoPacketIoDpdk

abbrev Frame := List UInt8

/-- `DEDUP_TABLE_SIZE`. -/
def dedupTableSize : Nat := 16384

/-- `DEDUP_TTL_NS`. -/
def dedupTtlNs : Nat := 5000000

abbrev Slot := Fin dedupTableSize

/-- `struct dedup_table`; a time is in nanoseconds of `CLOCK_MONOTONIC`. -/
structure DedupTable where
  hashes : Slot → UInt32
  expires : Slot → Nat
  enabled : Bool

/-- `dedup_init`. -/
def dedupInit : DedupTable := ⟨fun _ => 0, fun _ => 0, false⟩

/-- `fnv1a`. -/
def fnv1a (buf : Frame) : UInt32 :=
  (buf.take 64).foldl (fun h b => (h ^^^ b.toUInt32) * 16777619) 2166136261

/-- `hash & (DEDUP_TABLE_SIZE - 1U)`. -/
def slotOf (hash : UInt32) : Slot :=
  ⟨(hash &&& 16383).toNat, by
    rw [UInt32.toNat_and]
    exact Nat.and_lt_two_pow hash.toNat (n := 14) (by decide)⟩

/-- `dedup_add`, at time `now`. -/
def dedupAdd (dt : DedupTable) (now : Nat) (buf : Frame) : DedupTable :=
  if !dt.enabled then dt
  else
    let hash := fnv1a buf
    { dt with
      hashes := Function.update dt.hashes (slotOf hash) hash
      expires := Function.update dt.expires (slotOf hash) (now + dedupTtlNs) }

/-- `dedup_check`, at time `now`. -/
def dedupCheck (dt : DedupTable) (now : Nat) (buf : Frame) : DedupTable × Bool :=
  if !dt.enabled then (dt, false)
  else
    let hash := fnv1a buf
    if dt.hashes (slotOf hash) = hash ∧ dt.expires (slotOf hash) > now then
      ({ dt with expires := Function.update dt.expires (slotOf hash) 0 }, true)
    else (dt, false)

/-- `struct packet_io_ctx`; of the burst buffer the mbufs not served yet. -/
structure PacketIoCtx where
  dedupRx : Bool
  lastError : String
  rxBurst : List Frame

/-- `struct port_state`, its contexts, and how often the clock was read. -/
structure PortState where
  dedup : DedupTable
  ctxs : Nat → PacketIoCtx
  tick : Nat

def PortState.setBurst (p : PortState) (c : Nat) (burst : List Frame) : PortState :=
  { p with ctxs := Function.update p.ctxs c { p.ctxs c with rxBurst := burst } }

def PortState.setError (p : PortState) (c : Nat) (text : String) : PortState :=
  { p with ctxs := Function.update p.ctxs c { p.ctxs c with lastError := text } }

/-- `packet_io_ignore_outgoing`. -/
def packetIoIgnoreOutgoing (p : PortState) (c : Nat) : PortState :=
  { p with
    dedup := { p.dedup with enabled := true }
    ctxs := Function.update p.ctxs c { p.ctxs c with dedupRx := true } }

/-- What became of a received frame. -/
structure Received where
  ctx : Nat
  /-- The frame in its mbuf. -/
  frame : Frame
  /-- What was copied of it. -/
  buf : Frame
  time : Nat
  checked : Bool
  suppressed : Bool
  deriving DecidableEq

/-- What happens on a port. -/
inductive Event where
  /-- A frame was recorded and handed to the NIC, which took it or did not. -/
  | handed (frame : Frame) (time : Nat) (sent : Bool)
  /-- A burst came from the NIC. -/
  | polled (ctx : Nat) (burst : List Frame)
  | received (r : Received)
  deriving DecidableEq

/-- What DPDK answers a send: the tailroom of a new mbuf, if there is one, and
    whether the append and the burst of one frame succeed. -/
structure TxAnswer where
  mbuf : Option Nat
  append : Bool
  txBurst : Nat

section Calls

variable (clock : Nat → Nat) (c : Nat)

/-- `packet_io_send`. -/
def packetIoSend (p : PortState) (buf : Frame) (dpdk : TxAnswer) :
    PortState × List Event × Int :=
  if buf.length = 0 then (p, [], -1)
  else
    match dpdk.mbuf with
    | none => (p.setError c "rte_pktmbuf_alloc failed (pool empty)", [], -1)
    | some tailroom =>
      if buf.length > tailroom then
        (p.setError c ("frame too large for mbuf (" ++ toString buf.length ++ " > "
          ++ toString tailroom ++ ")"), [], -1)
      else if !dpdk.append then
        (p.setError c "rte_pktmbuf_append failed", [], -1)
      else
        -- recorded before it is known whether the NIC takes the frame
        let now := clock p.tick
        let p := { p with dedup := dedupAdd p.dedup now buf, tick := p.tick + 1 }
        if dpdk.txBurst = 0 then
          (p.setError c "rte_eth_tx_burst returned 0 (TX ring full?)",
            [.handed buf now false], -1)
        else (p, [.handed buf now true], 0)

/-- One frame of the burst buffer. -/
def rxFrame (bufSize : Nat) (p : PortState) (m : Frame) : PortState × Received :=
  let buf := m.take bufSize
  let now := clock p.tick
  if (p.ctxs c).dedupRx then
    let checked := dedupCheck p.dedup now buf
    ({ p with dedup := checked.1, tick := p.tick + 1 }, ⟨c, m, buf, now, true, checked.2⟩)
  else (p, ⟨c, m, buf, now, false, false⟩)

/-- The inner loop of `packet_io_receive`: the burst buffer, until a frame is
    delivered. -/
def drainBurst (bufSize : Nat) (p : PortState) :
    List Frame → PortState × List Received × Option Frame
  | [] => (p.setBurst c [], [], none)
  | m :: rest =>
    let taken := rxFrame clock c bufSize p m
    if taken.2.suppressed then
      let next := drainBurst bufSize taken.1 rest
      (next.1, taken.2 :: next.2.1, next.2.2)
    else (taken.1.setBurst c rest, [taken.2], some taken.2.buf)

/-- `packet_io_receive`; `polls` is what `rte_eth_rx_burst` returns, call by
    call.  Without a frame the call returns 0. -/
def packetIoReceive (bufSize : Nat) (p : PortState) :
    List (List Frame) → PortState × List Event × Option Frame
  | [] =>
    let drained := drainBurst clock c bufSize p (p.ctxs c).rxBurst
    (drained.1, drained.2.1.map .received, drained.2.2)
  | burst :: polls =>
    let drained := drainBurst clock c bufSize p (p.ctxs c).rxBurst
    match drained.2.2 with
    | some buf => (drained.1, drained.2.1.map .received, some buf)
    | none =>
      if burst.isEmpty then (drained.1, drained.2.1.map .received, none)
      else
        let next := packetIoReceive bufSize (drained.1.setBurst c burst) polls
        (next.1, drained.2.1.map .received ++ .polled c burst :: next.2.1, next.2.2)

end Calls

/-! ## Runs -/

inductive Op where
  | send (c : Nat) (buf : Frame) (dpdk : TxAnswer)
  | receive (c bufSize : Nat) (polls : List (List Frame))

/-- A port, what has happened on it, and the frames the callers were given. -/
structure Run where
  port : PortState
  log : List Event
  outs : List (Nat × Frame)

def step (clock : Nat → Nat) (r : Run) : Op → Run
  | .send c buf dpdk =>
    let done := packetIoSend clock c r.port buf dpdk
    ⟨done.1, r.log ++ done.2.1, r.outs⟩
  | .receive c bufSize polls =>
    let done := packetIoReceive clock c bufSize r.port polls
    ⟨done.1, r.log ++ done.2.1, r.outs ++ done.2.2.toList.map fun buf => (c, buf)⟩

/-- A port with dedup enabled, on which some contexts have opted in. -/
def openPort (optIn : Nat → Bool) : PortState :=
  ⟨{ dedupInit with enabled := true }, fun c => ⟨optIn c, "", []⟩, 0⟩

/-- Opting in on such a port. -/
theorem packetIoIgnoreOutgoing_openPort (optIn : Nat → Bool) (c : Nat) :
    packetIoIgnoreOutgoing (openPort optIn) c = openPort (Function.update optIn c true) := by
  have hctxs : Function.update (openPort optIn).ctxs c
      { (openPort optIn).ctxs c with dedupRx := true }
      = (openPort (Function.update optIn c true)).ctxs := by
    funext c'
    by_cases hc : c' = c
    · subst hc
      simp [openPort]
    · simp [openPort, hc]
  rw [packetIoIgnoreOutgoing, hctxs]
  rfl

def runOps (clock : Nat → Nat) (optIn : Nat → Bool) (ops : List Op) : Run :=
  ops.foldl (step clock) ⟨openPort optIn, [], []⟩

/-! ## What the table stands for -/

/-- The slot an event fills or empties. -/
def act : Event → SlotLedger.Act Slot
  | .handed frame _ _ => .put (slotOf (fnv1a frame))
  | .polled _ _ => .other
  | .received r => if r.suppressed then .take (slotOf (fnv1a r.buf)) else .other

/-- The frame recorded in a slot, by its position in the log. -/
def entry (log : List Event) (s : Slot) : Option Nat :=
  SlotLedger.holder (log.map act) s

/-- A received frame finds the record of `frame`, handed over at time `t`, in
    its slot: unexpired and with its own fingerprint. -/
structure Meets (log : List Event) (r : Received) (j : Nat) (frame : Frame) (t : Nat)
    (sent : Bool) : Prop where
  entry : entry log (slotOf (fnv1a r.buf)) = some j
  handed : log[j]? = some (.handed frame t sent)
  fingerprint : fnv1a frame = fnv1a r.buf
  unexpired : r.time < t + dedupTtlNs

/-- The table of a port after these events. -/
structure TableOf (log : List Event) (dt : DedupTable) : Prop where
  enabled : dt.enabled = true
  free : ∀ s, entry log s = none → dt.expires s = 0
  held : ∀ s j, entry log s = some j → ∃ frame t sent,
    log[j]? = some (.handed frame t sent) ∧ dt.hashes s = fnv1a frame
      ∧ dt.expires s = t + dedupTtlNs

/-- A frame is dropped just when it is checked and meets a record. -/
def Verdicts (log : List Event) : Prop :=
  ∀ past r, past ++ [.received r] <+: log →
    (r.suppressed = true ↔
      r.checked = true ∧ ∃ j frame t sent, Meets past r j frame t sent)

/-- Each frame that is checked meets at most the record of itself, and of a
    transmission that took place. -/
def MeetsItself (log : List Event) : Prop :=
  ∀ past r, past ++ [.received r] <+: log → r.checked = true →
    ∀ j frame t sent, Meets past r j frame t sent → frame = r.frame ∧ sent = true

/-- Every frame dropped is the echo of a frame sent within the dedup lifetime,
    and no two of them are the echo of the same. -/
def OnlyEchoes (log : List Event) : Prop :=
  ∃ echo : Nat → Nat,
    (∀ i r, log[i]? = some (.received r) → r.suppressed = true →
      echo i < i ∧ ∃ t, log[echo i]? = some (.handed r.frame t true)
        ∧ r.time < t + dedupTtlNs)
    ∧ ∀ i i' r r', log[i]? = some (.received r) → r.suppressed = true →
      log[i']? = some (.received r') → r'.suppressed = true → echo i = echo i' → i = i'

/-- The frames that came from the NIC for a context. -/
def polledFor (c : Nat) (log : List Event) : List Frame :=
  log.flatMap fun e =>
    match e with
    | .polled c' burst => if c' = c then burst else []
    | _ => []

/-- The frames a context has taken from its burst buffer. -/
def takenBy (c : Nat) (log : List Event) : List Frame :=
  log.filterMap fun e =>
    match e with
    | .received r => if r.ctx = c then some r.frame else none
    | _ => none

/-- What was copied of the frames that were not dropped. -/
def delivered (log : List Event) : List (Nat × Frame) :=
  log.filterMap fun e =>
    match e with
    | .received r => if r.suppressed then none else some (r.ctx, r.buf)
    | _ => none

/-- Every frame that came from the NIC has been dropped or delivered, in
    order, or waits in its burst buffer. -/
def AllAccounted (r : Run) : Prop :=
  (∀ c, polledFor c r.log = takenBy c r.log ++ (r.port.ctxs c).rxBurst)
    ∧ r.outs = delivered r.log

/-! ## The table after one event -/

theorem dedupAdd_enabled {dt : DedupTable} (h : dt.enabled = true) (now : Nat) (buf : Frame) :
    dedupAdd dt now buf =
      { dt with
        hashes := Function.update dt.hashes (slotOf (fnv1a buf)) (fnv1a buf)
        expires := Function.update dt.expires (slotOf (fnv1a buf)) (now + dedupTtlNs) } := by
  simp [dedupAdd, h]

theorem dedupCheck_hit {dt : DedupTable} (h : dt.enabled = true) {now : Nat} {buf : Frame}
    (hhash : dt.hashes (slotOf (fnv1a buf)) = fnv1a buf)
    (hexp : dt.expires (slotOf (fnv1a buf)) > now) :
    dedupCheck dt now buf =
      ({ dt with expires := Function.update dt.expires (slotOf (fnv1a buf)) 0 }, true) := by
  simp [dedupCheck, h, hhash, hexp]

theorem dedupCheck_miss {dt : DedupTable} {now : Nat} {buf : Frame}
    (h : ¬ (dt.hashes (slotOf (fnv1a buf)) = fnv1a buf
      ∧ dt.expires (slotOf (fnv1a buf)) > now)) : dedupCheck dt now buf = (dt, false) := by
  simp [dedupCheck, h]

theorem entry_append (log : List Event) (e : Event) (s : Slot) :
    entry (log ++ [e]) s = SlotLedger.after s log.length (entry log s) (act e) := by
  rw [entry, List.map_append, List.map_singleton, SlotLedger.holder_append, List.length_map]
  rfl

theorem getElem?_append_of_some {log : List Event} {j : Nat} {e : Event}
    (h : log[j]? = some e) (es : List Event) : (log ++ es)[j]? = some e := by
  obtain ⟨hj, -⟩ := List.getElem?_eq_some_iff.mp h
  rw [List.getElem?_append_left hj]
  exact h

theorem tableOf_start : TableOf [] { dedupInit with enabled := true } where
  enabled := rfl
  free := fun _ _ => rfl
  held := by
    intro s j h
    cases h

/-- An event that does not touch the slots. -/
theorem TableOf.other {log : List Event} {dt : DedupTable} (h : TableOf log dt) {e : Event}
    (he : act e = .other) : TableOf (log ++ [e]) dt := by
  have hentry : ∀ s, entry (log ++ [e]) s = entry log s := by
    intro s
    rw [entry_append, he]
    rfl
  constructor
  · exact h.enabled
  · intro s hs
    rw [hentry] at hs
    exact h.free s hs
  · intro s j hs
    rw [hentry] at hs
    obtain ⟨frame, t, sent, hj, hhash, hexp⟩ := h.held s j hs
    exact ⟨frame, t, sent, getElem?_append_of_some hj [e], hhash, hexp⟩

theorem TableOf.add {log : List Event} {dt : DedupTable} (h : TableOf log dt) (now : Nat)
    (frame : Frame) (sent : Bool) :
    TableOf (log ++ [.handed frame now sent]) (dedupAdd dt now frame) := by
  have hentry : ∀ s, entry (log ++ [.handed frame now sent]) s
      = if slotOf (fnv1a frame) = s then some log.length else entry log s := by
    intro s
    rw [entry_append]
    rfl
  rw [dedupAdd_enabled h.enabled]
  constructor
  · exact h.enabled
  · intro s hs
    rw [hentry] at hs
    split at hs
    · cases hs
    · rename_i hne
      exact (Function.update_of_ne (Ne.symm hne) _ _).trans (h.free s hs)
  · intro s j hs
    rw [hentry] at hs
    split at hs
    · -- the slot of the frame
      rename_i heq
      subst heq
      rw [← Option.some.inj hs]
      refine ⟨frame, now, sent, List.getElem?_concat_length, ?_, ?_⟩
      · exact Function.update_self _ _ _
      · exact Function.update_self _ _ _
    · rename_i hne
      obtain ⟨f, t, b, hj, hhash, hexp⟩ := h.held s j hs
      refine ⟨f, t, b, getElem?_append_of_some hj _, ?_, ?_⟩
      · exact (Function.update_of_ne (Ne.symm hne) _ _).trans hhash
      · exact (Function.update_of_ne (Ne.symm hne) _ _).trans hexp

/-- What `dedup_check` finds. -/
theorem TableOf.check_found {log : List Event} {dt : DedupTable} (h : TableOf log dt)
    (r : Received) :
    (dedupCheck dt r.time r.buf).2 = true ↔ ∃ j frame t sent, Meets log r j frame t sent := by
  constructor
  · intro hfound
    by_cases hlive : dt.hashes (slotOf (fnv1a r.buf)) = fnv1a r.buf
        ∧ dt.expires (slotOf (fnv1a r.buf)) > r.time
    · obtain ⟨hhash, hexp⟩ := hlive
      cases hentry : entry log (slotOf (fnv1a r.buf)) with
      | none =>
          rw [h.free _ hentry] at hexp
          exact absurd hexp (Nat.not_lt_zero _)
      | some j =>
          obtain ⟨frame, t, sent, hj, hframe, ht⟩ := h.held _ j hentry
          rw [hframe] at hhash
          rw [ht] at hexp
          exact ⟨j, frame, t, sent, hentry, hj, hhash, hexp⟩
    · rw [dedupCheck_miss hlive] at hfound
      cases hfound
  · rintro ⟨j, frame, t, sent, hmeets⟩
    obtain ⟨frame', t', sent', hj, hframe, ht⟩ := h.held _ j hmeets.entry
    rw [hmeets.handed, Option.some.injEq, Event.handed.injEq] at hj
    obtain ⟨rfl, rfl, rfl⟩ := hj
    rw [dedupCheck_hit h.enabled (hframe.trans hmeets.fingerprint)]
    rw [ht]
    exact hmeets.unexpired

/-- What `dedup_check` leaves. -/
theorem TableOf.check {log : List Event} {dt : DedupTable} (h : TableOf log dt) {r : Received}
    (hr : r.suppressed = (dedupCheck dt r.time r.buf).2) :
    TableOf (log ++ [.received r]) (dedupCheck dt r.time r.buf).1 := by
  by_cases hlive : dt.hashes (slotOf (fnv1a r.buf)) = fnv1a r.buf
      ∧ dt.expires (slotOf (fnv1a r.buf)) > r.time
  · rw [dedupCheck_hit h.enabled hlive.1 hlive.2] at hr ⊢
    have hentry : ∀ s, entry (log ++ [.received r]) s
        = if slotOf (fnv1a r.buf) = s then none else entry log s := by
      intro s
      rw [entry_append, act, hr]
      rfl
    constructor
    · exact h.enabled
    · intro s hs
      rw [hentry] at hs
      by_cases heq : slotOf (fnv1a r.buf) = s
      · subst heq
        exact Function.update_self _ _ _
      · rw [if_neg heq] at hs
        exact (Function.update_of_ne (Ne.symm heq) _ _).trans (h.free s hs)
    · intro s j hs
      rw [hentry] at hs
      split at hs
      · cases hs
      · rename_i hne
        obtain ⟨f, t, b, hj, hhash, hexp⟩ := h.held s j hs
        refine ⟨f, t, b, getElem?_append_of_some hj _, hhash, ?_⟩
        exact (Function.update_of_ne (Ne.symm hne) _ _).trans hexp
  · rw [dedupCheck_miss hlive] at hr ⊢
    refine h.other ?_
    rw [act, hr]
    rfl

/-! ## Runs: the table and the verdicts -/

theorem verdicts_append {log : List Event} (h : Verdicts log) {e : Event}
    (he : ∀ r, e = .received r → (r.suppressed = true ↔
      r.checked = true ∧ ∃ j frame t sent, Meets log r j frame t sent)) :
    Verdicts (log ++ [e]) := by
  intro past r hpre
  rcases List.prefix_concat_iff.mp hpre with heq | hold
  · obtain ⟨rfl, hlast⟩ := List.append_inj' heq rfl
    exact he r (List.cons.inj hlast).1.symm
  · exact h past r hold

/-- The table stands for the log, and all verdicts so far were as it says. -/
def Reflects (log : List Event) (dt : DedupTable) : Prop := TableOf log dt ∧ Verdicts log

theorem reflects_rxFrame {log : List Event} (clock : Nat → Nat) (c bufSize : Nat)
    {p : PortState} (h : Reflects log p.dedup) (m : Frame) :
    Reflects (log ++ [.received (rxFrame clock c bufSize p m).2])
      (rxFrame clock c bufSize p m).1.dedup := by
  obtain ⟨htable, hverdicts⟩ := h
  rw [rxFrame]
  simp only
  split
  · have hfound := htable.check_found ⟨c, m, m.take bufSize, clock p.tick, true,
      (dedupCheck p.dedup (clock p.tick) (m.take bufSize)).2⟩
    constructor
    · exact htable.check (r := ⟨c, m, m.take bufSize, clock p.tick, true,
        (dedupCheck p.dedup (clock p.tick) (m.take bufSize)).2⟩) rfl
    · refine verdicts_append hverdicts ?_
      rintro r heq
      rw [← Event.received.inj heq]
      refine hfound.trans ⟨fun hm => ⟨rfl, ?_⟩, fun hm => ?_⟩
      · obtain ⟨j, frame, t, sent, hj⟩ := hm
        exact ⟨j, frame, t, sent, hj⟩
      · exact hm.2
  · constructor
    · exact htable.other rfl
    · refine verdicts_append hverdicts ?_
      rintro r heq
      rw [← Event.received.inj heq]
      constructor
      · intro hs
        cases hs
      · rintro ⟨hc, -⟩
        cases hc

theorem reflects_drainBurst (clock : Nat → Nat) (c bufSize : Nat) {log : List Event}
    {p : PortState} (h : Reflects log p.dedup) (burst : List Frame) :
    Reflects (log ++ (drainBurst clock c bufSize p burst).2.1.map .received)
      (drainBurst clock c bufSize p burst).1.dedup := by
  induction burst generalizing p log with
  | nil =>
      rw [drainBurst, List.map_nil, List.append_nil]
      exact h
  | cons m rest ih =>
      have hone := reflects_rxFrame clock c bufSize h m
      rw [drainBurst]
      simp only
      split
      · rw [List.map_cons, List.append_cons]
        exact ih hone
      · exact hone

theorem reflects_receive (clock : Nat → Nat) (c bufSize : Nat) {log : List Event}
    {p : PortState} (h : Reflects log p.dedup) (polls : List (List Frame)) :
    Reflects (log ++ (packetIoReceive clock c bufSize p polls).2.1)
      (packetIoReceive clock c bufSize p polls).1.dedup := by
  induction polls generalizing p log with
  | nil =>
      rw [packetIoReceive]
      exact reflects_drainBurst clock c bufSize h _
  | cons burst polls ih =>
      have hdrained := reflects_drainBurst clock c bufSize h (p.ctxs c).rxBurst
      rw [packetIoReceive]
      cases hout : (drainBurst clock c bufSize p (p.ctxs c).rxBurst).2.2 with
      | some buf => simpa only [hout] using hdrained
      | none =>
          simp only
          split
          · exact hdrained
          · rw [← List.append_assoc, List.append_cons]
            apply ih
            constructor
            · exact hdrained.1.other rfl
            · refine verdicts_append hdrained.2 ?_
              intro r heq
              cases heq

theorem reflects_send (clock : Nat → Nat) (c : Nat) {log : List Event} {p : PortState}
    (h : Reflects log p.dedup) (buf : Frame) (dpdk : TxAnswer) :
    Reflects (log ++ (packetIoSend clock c p buf dpdk).2.1)
      (packetIoSend clock c p buf dpdk).1.dedup := by
  have hadd : ∀ sent, Reflects (log ++ [.handed buf (clock p.tick) sent])
      (dedupAdd p.dedup (clock p.tick) buf) := by
    intro sent
    refine ⟨h.1.add _ buf sent, verdicts_append h.2 ?_⟩
    intro r heq
    cases heq
  have hsame : Reflects (log ++ []) p.dedup := by
    rw [List.append_nil]
    exact h
  rw [packetIoSend]
  split
  · exact hsame
  · cases dpdk.mbuf with
    | none => exact hsame
    | some tailroom =>
        simp only
        split
        · exact hsame
        · split
          · exact hsame
          · split
            · exact hadd false
            · exact hadd true

/-- **The table**, and what is dropped, after any sends and receives at any
    times. -/
theorem reflects_run (clock : Nat → Nat) (optIn : Nat → Bool) (ops : List Op) :
    Reflects (runOps clock optIn ops).log (runOps clock optIn ops).port.dedup := by
  induction ops using List.reverseRecOn with
  | nil =>
      refine ⟨tableOf_start, ?_⟩
      intro past r hpre
      have := hpre.length_le
      simp [runOps] at this
  | append_singleton ops op ih =>
      rw [runOps, List.foldl_append]
      cases op with
      | send c buf dpdk => exact reflects_send clock c ih buf dpdk
      | receive c bufSize polls => exact reflects_receive clock c bufSize ih polls

/-- **What is dropped**: a frame that is checked and meets a record. -/
theorem runOps_verdicts (clock : Nat → Nat) (optIn : Nat → Bool) (ops : List Op) :
    Verdicts (runOps clock optIn ops).log := (reflects_run clock optIn ops).2

/-! ## Runs: the echoes -/

theorem prefix_of_getElem? {log : List Event} {i : Nat} {e : Event} (h : log[i]? = some e) :
    log.take i ++ [e] <+: log := by
  obtain ⟨hi, heq⟩ := List.getElem?_eq_some_iff.mp h
  rw [← heq, ← List.take_succ_eq_append_getElem hi]
  exact List.take_prefix (i + 1) log

/-- The record a dropped frame used up, by its position in the log. -/
def echoOf (log : List Event) (i : Nat) : Nat :=
  match log[i]? with
  | some (.received r) => (entry (log.take i) (slotOf (fnv1a r.buf))).getD 0
  | _ => 0

/-- A dropped frame met a record, and that is the one it used up. -/
theorem meets_echoOf {log : List Event} (hverdicts : Verdicts log) {i : Nat} {r : Received}
    (hi : log[i]? = some (.received r)) (hr : r.suppressed = true) :
    r.checked = true ∧ ∃ frame t sent, Meets (log.take i) r (echoOf log i) frame t sent := by
  obtain ⟨hchecked, j, frame, t, sent, hmeets⟩ :=
    (hverdicts _ r (prefix_of_getElem? hi)).mp hr
  have hecho : echoOf log i = j := by
    rw [echoOf, hi]
    simp only
    rw [hmeets.entry]
    rfl
  rw [hecho]
  exact ⟨hchecked, frame, t, sent, hmeets⟩

theorem onlyEchoes_of_meetsItself {log : List Event} (hverdicts : Verdicts log)
    (hself : MeetsItself log) : OnlyEchoes log := by
  refine ⟨echoOf log, ?_, ?_⟩
  · intro i r hi hr
    obtain ⟨hchecked, frame, t, sent, hmeets⟩ := meets_echoOf hverdicts hi hr
    obtain ⟨rfl, rfl⟩ := hself _ r (prefix_of_getElem? hi) hchecked _ _ _ _ hmeets
    have hhanded := hmeets.handed
    have hlt : echoOf log i < i := by
      have := (List.getElem?_eq_some_iff.mp hhanded).1
      rw [List.length_take] at this
      omega
    rw [List.getElem?_take_of_lt hlt] at hhanded
    exact ⟨hlt, t, hhanded, hmeets.unexpired⟩
  · intro i i' r r' hi hr hi' hr' heq
    obtain ⟨-, _, _, _, hmeets⟩ := meets_echoOf hverdicts hi hr
    obtain ⟨-, _, _, _, hmeets'⟩ := meets_echoOf hverdicts hi' hr'
    have htake : ∀ {i : Nat} {r : Received}, log[i]? = some (.received r) →
        r.suppressed = true → (log.map act)[i]? = some (.take (slotOf (fnv1a r.buf))) := by
      intro i r hi hr
      rw [List.getElem?_map, hi, Option.map_some, act, if_pos hr]
    have hentry := hmeets.entry
    have hentry' := hmeets'.entry
    rw [entry, List.map_take] at hentry hentry'
    rw [heq] at hentry
    exact SlotLedger.take_inj (htake hi hr) (htake hi' hr') hentry hentry'

/-! ## Runs: every frame is accounted for -/

theorem polledFor_append (c : Nat) (log es : List Event) :
    polledFor c (log ++ es) = polledFor c log ++ polledFor c es := List.flatMap_append

theorem takenBy_append (c : Nat) (log es : List Event) :
    takenBy c (log ++ es) = takenBy c log ++ takenBy c es := List.filterMap_append

theorem delivered_append (log es : List Event) :
    delivered (log ++ es) = delivered log ++ delivered es := List.filterMap_append

theorem rxFrame_ctxs (clock : Nat → Nat) (c bufSize : Nat) (p : PortState) (m : Frame) :
    (rxFrame clock c bufSize p m).1.ctxs = p.ctxs
      ∧ (rxFrame clock c bufSize p m).2.ctx = c
      ∧ (rxFrame clock c bufSize p m).2.frame = m := by
  rw [rxFrame]
  simp only
  split
  · exact ⟨rfl, rfl, rfl⟩
  · exact ⟨rfl, rfl, rfl⟩

/-- The frames of the burst buffer have been taken, or are still in it. -/
theorem drainBurst_takes (clock : Nat → Nat) (c bufSize : Nat) (p : PortState)
    (burst : List Frame) :
    takenBy c ((drainBurst clock c bufSize p burst).2.1.map .received)
        ++ ((drainBurst clock c bufSize p burst).1.ctxs c).rxBurst = burst
      ∧ ∀ c' ≠ c, takenBy c' ((drainBurst clock c bufSize p burst).2.1.map .received) = []
        ∧ (drainBurst clock c bufSize p burst).1.ctxs c' = p.ctxs c' := by
  induction burst generalizing p with
  | nil =>
      constructor
      · rw [drainBurst, PortState.setBurst]
        simp only [Function.update_self]
        rfl
      · intro c' hc
        exact ⟨rfl, Function.update_of_ne hc _ _⟩
  | cons m rest ih =>
      obtain ⟨hctxs, hctx, hframe⟩ := rxFrame_ctxs clock c bufSize p m
      obtain ⟨hsame, hothers⟩ := ih (rxFrame clock c bufSize p m).1
      have hone : ∀ c' es, takenBy c' (.received (rxFrame clock c bufSize p m).2 :: es)
          = (if c = c' then [m] else []) ++ takenBy c' es := by
        intro c' es
        rw [takenBy, List.filterMap_cons]
        simp only [hctx, hframe]
        by_cases hc : c = c'
        · rw [if_pos hc, if_pos hc]
          rfl
        · rw [if_neg hc, if_neg hc]
          rfl
      rw [drainBurst]
      simp only
      split
      · constructor
        · rw [List.map_cons, hone, if_pos rfl, List.append_assoc, hsame]
          rfl
        · intro c' hc
          rw [List.map_cons, hone, if_neg (Ne.symm hc)]
          obtain ⟨hnone, hkept⟩ := hothers c' hc
          exact ⟨hnone, hkept.trans (by rw [hctxs])⟩
      · constructor
        · rw [List.map_singleton, hone, if_pos rfl, PortState.setBurst]
          simp only [Function.update_self]
          rfl
        · intro c' hc
          rw [List.map_singleton, hone, if_neg (Ne.symm hc)]
          exact ⟨rfl, (Function.update_of_ne hc _ _).trans (by rw [hctxs])⟩

/-- What the loop returns is what it has delivered. -/
theorem drainBurst_out (clock : Nat → Nat) (c bufSize : Nat) (p : PortState)
    (burst : List Frame) :
    delivered ((drainBurst clock c bufSize p burst).2.1.map .received)
        = (drainBurst clock c bufSize p burst).2.2.toList.map fun buf => (c, buf) := by
  induction burst generalizing p with
  | nil => rfl
  | cons m rest ih =>
      obtain ⟨-, hctx, -⟩ := rxFrame_ctxs clock c bufSize p m
      rw [drainBurst]
      simp only
      split
      · rename_i hs
        rw [List.map_cons, delivered, List.filterMap_cons]
        simp only [hs, if_true]
        exact ih _
      · rename_i hs
        rw [List.map_singleton, delivered, List.filterMap_cons]
        simp [hs, hctx]

/-- The balance of every context. -/
def Balanced (log : List Event) (p : PortState) : Prop :=
  ∀ c, polledFor c log = takenBy c log ++ (p.ctxs c).rxBurst

theorem polledFor_received (c : Nat) (rs : List Received) :
    polledFor c (rs.map .received) = [] := by
  induction rs with
  | nil => rfl
  | cons r rs ih => exact ih

theorem balanced_drain (clock : Nat → Nat) (c bufSize : Nat) {log : List Event}
    {p : PortState} (h : Balanced log p) :
    Balanced (log ++ (drainBurst clock c bufSize p (p.ctxs c).rxBurst).2.1.map .received)
      (drainBurst clock c bufSize p (p.ctxs c).rxBurst).1 := by
  obtain ⟨hsame, hothers⟩ := drainBurst_takes clock c bufSize p (p.ctxs c).rxBurst
  intro c'
  rw [polledFor_append, polledFor_received, List.append_nil, takenBy_append, h c',
    List.append_assoc]
  by_cases hc : c' = c
  · subst hc
    rw [hsame]
  · obtain ⟨hnone, hkept⟩ := hothers c' hc
    rw [hnone, hkept]
    rfl

/-- A loop that delivers nothing has emptied the burst buffer. -/
theorem drainBurst_empty {clock : Nat → Nat} {c bufSize : Nat} {p : PortState}
    {burst : List Frame} (h : (drainBurst clock c bufSize p burst).2.2 = none) :
    ((drainBurst clock c bufSize p burst).1.ctxs c).rxBurst = [] := by
  induction burst generalizing p with
  | nil => simp [drainBurst, PortState.setBurst]
  | cons m rest ih =>
      rw [drainBurst] at h ⊢
      simp only at h ⊢
      split at h
      · rename_i hs
        rw [if_pos hs]
        exact ih h
      · cases h

/-- A burst goes into the empty buffer of its context. -/
theorem Balanced.poll {log : List Event} {p : PortState} (h : Balanced log p) {c : Nat}
    (hempty : (p.ctxs c).rxBurst = []) (burst : List Frame) :
    Balanced (log ++ [.polled c burst]) (p.setBurst c burst) := by
  intro c'
  have hpolled : polledFor c' [.polled c burst] = if c = c' then burst else [] :=
    List.append_nil _
  have htaken : takenBy c' [.polled c burst] = [] := rfl
  rw [polledFor_append, takenBy_append, hpolled, htaken, List.append_nil, h c']
  by_cases hc : c = c'
  · subst hc
    rw [hempty, List.append_nil, if_pos rfl, PortState.setBurst]
    simp only [Function.update_self]
  · rw [if_neg hc, List.append_nil, PortState.setBurst]
    simp only [Function.update_of_ne (Ne.symm hc)]

theorem balanced_receive (clock : Nat → Nat) (c bufSize : Nat) {log : List Event}
    {p : PortState} (h : Balanced log p) (polls : List (List Frame)) :
    Balanced (log ++ (packetIoReceive clock c bufSize p polls).2.1)
        (packetIoReceive clock c bufSize p polls).1
      ∧ delivered (packetIoReceive clock c bufSize p polls).2.1
        = (packetIoReceive clock c bufSize p polls).2.2.toList.map fun buf => (c, buf) := by
  induction polls generalizing p log with
  | nil =>
      rw [packetIoReceive]
      exact ⟨balanced_drain clock c bufSize h, drainBurst_out clock c bufSize p _⟩
  | cons burst polls ih =>
      have hdrained := balanced_drain clock c bufSize h
      have hdelivered := drainBurst_out clock c bufSize p (p.ctxs c).rxBurst
      rw [packetIoReceive]
      cases hout : (drainBurst clock c bufSize p (p.ctxs c).rxBurst).2.2 with
      | some buf =>
          simp only
          rw [hout] at hdelivered
          exact ⟨hdrained, hdelivered⟩
      | none =>
          rw [hout] at hdelivered
          simp only
          split
          · exact ⟨hdrained, hdelivered⟩
          · obtain ⟨hbalanced, hrest⟩ :=
              ih (hdrained.poll (drainBurst_empty hout) burst)
            constructor
            · rw [← List.append_assoc, List.append_cons]
              exact hbalanced
            · rw [delivered_append, hdelivered]
              exact hrest

/-- A send takes no frame and polls none. -/
theorem balanced_send (clock : Nat → Nat) (c : Nat) {log : List Event} {p : PortState}
    (h : Balanced log p) (buf : Frame) (dpdk : TxAnswer) :
    Balanced (log ++ (packetIoSend clock c p buf dpdk).2.1)
        (packetIoSend clock c p buf dpdk).1
      ∧ delivered (packetIoSend clock c p buf dpdk).2.1 = [] := by
  have hhanded : ∀ {q : PortState} (sent : Bool),
      (∀ c, (q.ctxs c).rxBurst = (p.ctxs c).rxBurst) →
      Balanced (log ++ [.handed buf (clock p.tick) sent]) q := by
    intro q sent hq c'
    rw [polledFor_append, takenBy_append, hq c']
    have hpolled : polledFor c' [.handed buf (clock p.tick) sent] = [] := rfl
    have htaken : takenBy c' [.handed buf (clock p.tick) sent] = [] := rfl
    rw [hpolled, htaken, List.append_nil, List.append_nil]
    exact h c'
  have herror : ∀ (q : PortState) (text : String) (c' : Nat),
      ((q.setError c text).ctxs c').rxBurst = (q.ctxs c').rxBurst := by
    intro q text c'
    rw [PortState.setError]
    by_cases hc : c' = c
    · subst hc
      simp only [Function.update_self]
    · simp only [Function.update_of_ne hc]
  have hfailed : ∀ text, Balanced (log ++ []) (p.setError c text) := by
    intro text c'
    rw [List.append_nil, herror]
    exact h c'
  rw [packetIoSend]
  split
  · rw [List.append_nil]
    exact ⟨h, rfl⟩
  · cases dpdk.mbuf with
    | none => exact ⟨hfailed _, rfl⟩
    | some tailroom =>
        simp only
        split
        · exact ⟨hfailed _, rfl⟩
        · split
          · exact ⟨hfailed _, rfl⟩
          · split
            · exact ⟨hhanded false (herror _ _), rfl⟩
            · exact ⟨hhanded true (fun _ => rfl), rfl⟩

theorem allAccounted_run (clock : Nat → Nat) (optIn : Nat → Bool) (ops : List Op) :
    AllAccounted (runOps clock optIn ops) := by
  induction ops using List.reverseRecOn with
  | nil => exact ⟨fun _ => rfl, rfl⟩
  | append_singleton ops op ih =>
      obtain ⟨hbalanced, houts⟩ := ih
      have hrun : runOps clock optIn (ops ++ [op]) = step clock (runOps clock optIn ops) op := by
        rw [runOps, List.foldl_append]
        rfl
      rw [hrun]
      cases op with
      | send c buf dpdk =>
          obtain ⟨hb, hd⟩ := balanced_send clock c hbalanced buf dpdk
          refine ⟨hb, ?_⟩
          rw [step]
          simp only
          rw [delivered_append, hd, List.append_nil]
          exact houts
      | receive c bufSize polls =>
          obtain ⟨hb, hd⟩ := balanced_receive clock c bufSize hbalanced polls
          refine ⟨hb, ?_⟩
          rw [step]
          simp only
          rw [delivered_append, hd, houts]

/-- **Loopback suppression.**  For any sends and receives on the contexts of a
    port with dedup enabled, and any clock: if every frame that is checked meets
    at most the record of itself, of a transmission that took place, then every
    frame dropped is byte for byte one that was sent within the dedup lifetime,
    and no two of them are the echo of one; and whatever the frames, each one
    received is dropped or given to the caller, in order. -/
theorem dedup_suppresses_echoes (clock : Nat → Nat) (optIn : Nat → Bool) (ops : List Op)
    (hself : MeetsItself (runOps clock optIn ops).log) :
    OnlyEchoes (runOps clock optIn ops).log ∧ AllAccounted (runOps clock optIn ops) := by
  constructor
  · exact onlyEchoes_of_meetsItself (runOps_verdicts clock optIn ops) hself
  · exact allAccounted_run clock optIn ops

/-- A frame that is sent and comes back. -/
def echoOps : List Op := [.send 0 [1, 2, 3] ⟨some 2048, true, 1⟩, .receive 0 2048 [[[1, 2, 3]]]]

theorem echoOps_log : (runOps (fun _ => 0) (fun _ => true) echoOps).log =
    [.handed [1, 2, 3] 0 true, .polled 0 [[1, 2, 3]],
      .received ⟨0, [1, 2, 3], [1, 2, 3], 0, true, true⟩] := by
  decide +kernel

/-- It is dropped, as it should be. -/
theorem dedup_suppresses_echoOps :
    OnlyEchoes (runOps (fun _ => 0) (fun _ => true) echoOps).log
      ∧ AllAccounted (runOps (fun _ => 0) (fun _ => true) echoOps) := by
  refine dedup_suppresses_echoes _ _ _ ?_
  rw [echoOps_log]
  intro past r hpre _ j frame t sent hmeets
  -- the only frame received comes third, and the only record is of it
  rcases past with _ | ⟨a, _ | ⟨b, _ | ⟨d, past⟩⟩⟩
  · cases (List.cons_prefix_cons.mp hpre).1
  · cases (List.cons_prefix_cons.mp (List.cons_prefix_cons.mp hpre).2).1
  · obtain ⟨ha, hpre⟩ := List.cons_prefix_cons.mp hpre
    obtain ⟨hb, hpre⟩ := List.cons_prefix_cons.mp hpre
    obtain ⟨hr, -⟩ := List.cons_prefix_cons.mp hpre
    rw [Event.received.inj hr]
    have hj := hmeets.handed
    rw [ha, hb] at hj
    match j with
    | 0 =>
        cases Option.some.inj hj
        exact ⟨rfl, rfl⟩
    | 1 => cases hj
    | j + 2 => cases hj
  · have hlen := hpre.length_le
    simp only [List.length_append, List.length_cons, List.length_nil] at hlen
    omega

/-! ## Two frames that differ after the first 64 bytes -/

def sentFrame : Frame := List.replicate 64 0 ++ [1]

def otherFrame : Frame := List.replicate 64 0 ++ [2]

/-- One frame is sent, the other one received in the same nanosecond. -/
def droppedOps : List Op :=
  [.send 0 sentFrame ⟨some 2048, true, 1⟩, .receive 0 2048 [[otherFrame]]]

theorem droppedOps_log : (runOps (fun _ => 0) (fun _ => true) droppedOps).log =
    [.handed sentFrame 0 true, .polled 0 [otherFrame],
      .received ⟨0, otherFrame, otherFrame, 0, true, true⟩] := by
  decide +kernel

/-- The other frame was never sent, and is dropped. -/
theorem dedup_drops_traffic :
    ¬ ∀ (clock : Nat → Nat) (optIn : Nat → Bool) (ops : List Op),
        OnlyEchoes (runOps clock optIn ops).log ∧ AllAccounted (runOps clock optIn ops) := by
  intro hall
  obtain ⟨⟨echo, hecho, -⟩, -⟩ := hall (fun _ => 0) (fun _ => true) droppedOps
  rw [droppedOps_log] at hecho
  obtain ⟨hlt, t, hj, -⟩ :=
    hecho 2 ⟨0, otherFrame, otherFrame, 0, true, true⟩ rfl rfl
  match hn : echo 2 with
  | 0 =>
      rw [hn] at hj
      injection Option.some.inj hj with hframe
      revert hframe
      decide
  | 1 =>
      rw [hn] at hj
      cases Option.some.inj hj
  | n + 2 => omega

end FsoPacketIoDpdk
