import FsoGateway.ArpRetention
import FsoGateway.RxPipeline
import FsoGateway.TxAccounting
import FsoGateway.TxPlacement

/-! # Proxy ARP

    The receiver learns the sender of every ARP frame that it reassembles, and
    the transmitter answers the ARP requests of the LAN from what was learned.
    The two run in threads of their own and share the cache, whose calls hold
    its lock: what the threads do to it comes in some order, which is a list of
    actions here.

    * `proxy_arp_sound` — every reply states what the last ARP frame of its
      address said, at most 300 seconds before;
    * `proxy_arp_refines` — the gateway answers as if it remembered every ARP
      frame for 300 seconds, and forwards the other frames, as long as every
      learned address finds a slot. -/

namespace FsoProxyArp

open FsoArpCache FsoRxPipeline FsoTxPipeline

/-! ## ARP frames -/

/-- Byte `i` of a frame. -/
def byteAt (pkt : List UInt8) (i : Nat) : UInt8 := pkt.getD i 0

/-- The six bytes from `off` on. -/
def macAt (pkt : List UInt8) (off : Nat) : Mac := Vector.ofFn fun i => byteAt pkt (off + i)

/-- `memcpy(&ip, pkt + off, 4)`, on a little-endian host. -/
def ipAt (pkt : List UInt8) (off : Nat) : UInt32 :=
  UInt32.ofNat ((byteAt pkt off).toNat + 256 * (byteAt pkt (off + 1)).toNat
    + 65536 * (byteAt pkt (off + 2)).toNat + 16777216 * (byteAt pkt (off + 3)).toNat)

/-- At least 42 bytes, of EtherType `0x0806`. -/
def isArp (pkt : List UInt8) : Bool :=
  decide (42 ≤ pkt.length) && byteAt pkt 12 == 0x08 && byteAt pkt 13 == 0x06

/-- `oper == htons(1)`. -/
def isRequest (pkt : List UInt8) : Bool :=
  isArp pkt && byteAt pkt 20 == 0x00 && byteAt pkt 21 == 0x01

/-- `arp_learn_from_packet`. -/
def arpLearnFromPacket (c : ArpCache) (now : Int) (pkt : List UInt8) : ArpCache :=
  if isArp pkt then arpCacheLearn c now (ipAt pkt 28) (macAt pkt 22) else c

/-- The reply that `try_proxy_arp` builds: 60 bytes, the last of which are
    padding. -/
def arpReply (pkt : List UInt8) (cachedMac : Mac) : List UInt8 :=
  (pkt.drop 6).take 6 ++ cachedMac.toList ++ [0x08, 0x06]
    ++ [0x00, 0x01, 0x08, 0x00, 6, 4, 0x00, 0x02]
    ++ cachedMac.toList ++ (pkt.drop 38).take 4 ++ (pkt.drop 22).take 6 ++ (pkt.drop 28).take 4
    ++ List.replicate 18 0

/-- `try_proxy_arp`: what it returns, the cache, and what it sent; `sendOk` tells
    whether the send succeeds. -/
def tryProxyArp (c : ArpCache) (now : Int) (pkt : List UInt8) (sendOk : Bool) :
    Int × ArpCache × List (List UInt8) :=
  if isRequest pkt then
    let r := arpCacheLookup c now (ipAt pkt 38)
    match r.2 with
    | none => (0, r.1, [])
    | some cachedMac => if sendOk then (1, r.1, [arpReply pkt cachedMac]) else (0, r.1, [])
  else (0, c, [])

/-! ## The gateway -/

/-- What the threads that share the cache do: the receiver, the transmitter, poll
    after poll, and the control server. -/
inductive Action where
  /-- the receiver reassembles a frame and learns from it -/
  | reassembled (now : Int) (pkt : List UInt8)
  /-- the transmitter takes a frame from the LAN -/
  | received (now : Int) (pkt : List UInt8) (sendOk : Bool)
  /-- the transmitter finds no frame -/
  | idle
  /-- the transmitter fails to receive -/
  | failed
  /-- the control server dumps the cache -/
  | dumped (now max : Int)

/-- A frame of the LAN that is not the gateway's own. -/
def isForeign (lanMac : List UInt8) (pkt : List UInt8) : Bool :=
  !(decide (12 ≤ pkt.length) && ((pkt.drop 6).take 6 == lanMac))

/-- The cache, the replies sent, and what the transmitter went on with. -/
structure Gateway where
  arp : ArpCache
  replies : List (List UInt8)
  events : List TxEvent

/-- One action; the transmitter looks at the first `TX_RX_BUF_SIZE` bytes. -/
def act (lanMac : List UInt8) (g : Gateway) : Action → Gateway
  | .reassembled now pkt => { g with arp := arpLearnFromPacket g.arp now pkt }
  | .received now pkt sendOk =>
      if isForeign lanMac (pkt.take txRxBufSize) then
        let r := tryProxyArp g.arp now (pkt.take txRxBufSize) sendOk
        { arp := r.2.1
          replies := g.replies ++ r.2.2
          events := g.events ++ [.frame pkt (r.1 == 1)] }
      else { g with events := g.events ++ [.frame pkt false] }
  | .idle => { g with events := g.events ++ [.idle] }
  | .failed => { g with events := g.events ++ [.error] }
  | .dumped _ _ => g

/-- The gateway after some actions. -/
def run (lanMac : List UInt8) (acts : List Action) : Gateway :=
  acts.foldl (act lanMac) ⟨arpCacheCreate, [], []⟩

/-- What the ARP frames of the far side said: an address, a MAC, and when. -/
def heardIn : Action → Option (UInt32 × (Mac × Int))
  | .reassembled now pkt =>
      if isArp pkt then some (ipAt pkt 28, (macAt pkt 22, now)) else none
  | _ => none

/-- What the last ARP frame of an address said. -/
def lastHeard (acts : List Action) (ipNbo : UInt32) : Option (Mac × Int) :=
  KeyedTable.lastWrite (acts.filterMap heardIn) ipNbo

/-! ## A gateway with a perfect memory -/

/-- The MAC of an address, if an ARP frame said so at most 300 seconds ago. -/
def known (acts : List Action) (now : Int) (ipNbo : UInt32) : Option Mac :=
  (lastHeard acts ipNbo).bind fun h => if now - h.2 ≤ arpCacheTtlSecs then some h.1 else none

/-- The reply that an action calls for, after the actions before. -/
def dueReply (lanMac : List UInt8) (before : List Action) : Action → Option (List UInt8)
  | .received now pkt sendOk =>
      let pkt := pkt.take txRxBufSize
      if isForeign lanMac pkt && isRequest pkt && sendOk then
        (known before now (ipAt pkt 38)).map (arpReply pkt)
      else none
  | _ => none

/-- The frame to forward, when no reply is due. -/
def dueFrame (lanMac : List UInt8) (before : List Action) (a : Action) : Option (List UInt8) :=
  match a with
  | .received _ pkt _ =>
      if isForeign lanMac (pkt.take txRxBufSize) && (dueReply lanMac before a).isNone then
        some (pkt.take txRxBufSize)
      else none
  | _ => none

/-- What is due over the actions, after the actions before. -/
def due (of : List Action → Action → Option (List UInt8)) :
    List Action → List Action → List (List UInt8)
  | _, [] => []
  | before, a :: acts => (of before a).toList ++ due of (before ++ [a]) acts

/-! ## The calls of the cache -/

/-- The calls of the cache that an action makes. -/
def callsOf (lanMac : List UInt8) : Action → List Call
  | .reassembled now pkt =>
      if isArp pkt then [.learn now (ipAt pkt 28) (macAt pkt 22)] else []
  | .received now pkt _ =>
      let pkt := pkt.take txRxBufSize
      if isForeign lanMac pkt && isRequest pkt then [.lookup now (ipAt pkt 38)] else []
  | .idle | .failed => []
  | .dumped now max => [.dump now max]

/-- The cache after `try_proxy_arp`, and when it sends. -/
theorem tryProxyArp_cases (c : ArpCache) (now : Int) (pkt : List UInt8) (sendOk : Bool) :
    (isRequest pkt = false ∧ tryProxyArp c now pkt sendOk = (0, c, [])) ∨
      (isRequest pkt = true ∧
        (tryProxyArp c now pkt sendOk).2.1 = (arpCacheLookup c now (ipAt pkt 38)).1 ∧
        ((tryProxyArp c now pkt sendOk).1 = 1 ↔
          sendOk = true ∧ ((arpCacheLookup c now (ipAt pkt 38)).2).isSome = true) ∧
        (tryProxyArp c now pkt sendOk).2.2
          = if sendOk then ((arpCacheLookup c now (ipAt pkt 38)).2.map (arpReply pkt)).toList
            else []) := by
  rw [tryProxyArp]
  cases hreq : isRequest pkt with
  | false => exact .inl ⟨rfl, rfl⟩
  | true =>
      refine .inr ⟨rfl, ?_⟩
      rw [if_pos rfl]
      dsimp only
      cases (arpCacheLookup c now (ipAt pkt 38)).2 with
      | none => cases sendOk <;> simp
      | some cachedMac => cases sendOk <;> simp

theorem act_arp (lanMac : List UInt8) (g : Gateway) (a : Action) :
    (act lanMac g a).arp = (callsOf lanMac a).foldl step g.arp := by
  cases a with
  | reassembled now pkt =>
      rw [act, callsOf, arpLearnFromPacket]
      cases isArp pkt <;> rfl
  | idle => rfl
  | failed => rfl
  | dumped now max => rfl
  | received now pkt sendOk =>
      rw [act, callsOf]
      cases isForeign lanMac (pkt.take txRxBufSize) with
      | false => rfl
      | true =>
          rcases tryProxyArp_cases g.arp now (pkt.take txRxBufSize) sendOk with
            ⟨hreq, heq⟩ | ⟨hreq, harp, -, -⟩
          · simp [hreq, heq]
          · simp only [hreq, harp, if_true, Bool.and_true, List.foldl_cons, List.foldl_nil, step]

theorem run_append (lanMac : List UInt8) (acts : List Action) (a : Action) :
    run lanMac (acts ++ [a]) = act lanMac (run lanMac acts) a := by
  rw [run, List.foldl_append]
  rfl

theorem run_arp (lanMac : List UInt8) (acts : List Action) :
    (run lanMac acts).arp = runCalls (acts.flatMap (callsOf lanMac)) := by
  induction acts using List.reverseRecOn with
  | nil => rfl
  | append_singleton acts a ih =>
      rw [run_append, act_arp, ih, List.flatMap_append, runCalls, runCalls, List.foldl_append,
        List.flatMap_singleton]

/-- What the cache learns is what the ARP frames said. -/
theorem learns_calls (lanMac : List UInt8) (acts : List Action) :
    learns (acts.flatMap (callsOf lanMac)) = acts.filterMap heardIn := by
  rw [learns, List.filterMap_flatMap, List.filterMap_eq_flatMap_toList]
  refine List.flatMap_congr fun a _ => ?_
  cases a with
  | reassembled now pkt =>
      rw [callsOf, heardIn]
      cases isArp pkt <;> rfl
  | idle => rfl
  | failed => rfl
  | dumped now max => rfl
  | received now pkt sendOk =>
      rw [callsOf]
      split <;> rfl

theorem lastLearn_calls (lanMac : List UInt8) (acts : List Action) (ipNbo : UInt32) :
    lastLearn (acts.flatMap (callsOf lanMac)) ipNbo = lastHeard acts ipNbo := by
  rw [lastLearn, learns_calls, lastHeard]

/-- What the cache gives out is known. -/
theorem known_of_lookup {lanMac : List UInt8} {acts : List Action} {now : Int} {ipNbo : UInt32}
    {mac : Mac} (h : (arpCacheLookup (run lanMac acts).arp now ipNbo).2 = some mac) :
    known acts now ipNbo = some mac := by
  obtain ⟨e, he, hv, rfl, rfl, hage⟩ := lookup_found h
  rw [run_arp] at he
  have hlast : lastHeard acts e.ipNbo = some (e.mac, e.lastSeen) := by
    rw [← lastLearn_calls lanMac]
    exact (runCalls_sound _).reflects e he hv
  rw [known, hlast, Option.bind_some, if_pos hage]

theorem known_some {acts : List Action} {now : Int} {ipNbo : UInt32} {mac : Mac}
    (h : known acts now ipNbo = some mac) :
    ∃ t, lastHeard acts ipNbo = some (mac, t) ∧ now - t ≤ arpCacheTtlSecs := by
  obtain ⟨⟨m, t⟩, hlast, hm⟩ := Option.bind_eq_some_iff.mp h
  split at hm
  · rename_i hage
    obtain rfl := Option.some.inj hm
    exact ⟨t, hlast, hage⟩
  · cases hm

/-! ## What a reply says -/

/-- A reply to a request, which names a MAC. -/
structure IsReply (pkt : List UInt8) (mac : Mac) (reply : List UInt8) : Prop where
  length : reply.length = 60
  /-- EtherType, hardware and protocol types and lengths, and the operation -/
  header : (reply.drop 12).take 10 = [0x08, 0x06, 0, 1, 0x08, 0, 6, 4, 0, 2]
  dst : reply.take 6 = (pkt.drop 6).take 6
  src : (reply.drop 6).take 6 = mac.toList
  senderMac : (reply.drop 22).take 6 = mac.toList
  senderIp : (reply.drop 28).take 4 = (pkt.drop 38).take 4
  targetMac : (reply.drop 32).take 6 = (pkt.drop 22).take 6
  targetIp : (reply.drop 38).take 4 = (pkt.drop 28).take 4

theorem arpReply_isReply {pkt : List UInt8} (h : 42 ≤ pkt.length) (mac : Mac) :
    IsReply pkt mac (arpReply pkt mac) := by
  have hpiece : ∀ off n, off + n ≤ 42 → ((pkt.drop off).take n).length = n := by
    intro off n hle
    rw [List.length_take, List.length_drop]
    omega
  have hmac : mac.toList.length = 6 := Vector.length_toList
  have h6 := hpiece 6 6 (by decide)
  have h22 := hpiece 22 6 (by decide)
  have h28 := hpiece 28 4 (by decide)
  have h38 := hpiece 38 4 (by decide)
  -- only the lengths of the pieces matter
  rw [arpReply]
  generalize hd : (pkt.drop 6).take 6 = dst at h6
  generalize ht : (pkt.drop 22).take 6 = host at h22
  generalize hs : (pkt.drop 28).take 4 = hostIp at h28
  generalize hi : (pkt.drop 38).take 4 = ip at h38
  generalize hm : mac.toList = src at hmac
  constructor
  · simp [h6, h22, h28, h38, hmac]
  all_goals
    simp [List.drop_append, List.take_append, List.drop_of_length_le,
      h6, h22, h28, h38, hmac, hd, ht, hs, hi, hm]

theorem byteAt_eq {pkt : List UInt8} {i : Nat} (h : i < pkt.length) : byteAt pkt i = pkt[i] := by
  rw [byteAt, List.getD_eq_getElem?_getD, List.getElem?_eq_getElem h, Option.getD_some]

theorem ipAt_inj {p q : List UInt8} {i j : Nat} (hp : i + 4 ≤ p.length) (hq : j + 4 ≤ q.length)
    (h : ipAt p i = ipAt q j) : (p.drop i).take 4 = (q.drop j).take 4 := by
  have hlt : ∀ a b c d : UInt8,
      a.toNat + 256 * b.toNat + 65536 * c.toNat + 16777216 * d.toNat < 2 ^ 32 := by
    intro a b c d
    have ha := a.toNat_lt
    have hb := b.toNat_lt
    have hc := c.toNat_lt
    have hd := d.toNat_lt
    omega
  have hnat := congrArg UInt32.toNat h
  rw [ipAt, ipAt, UInt32.toNat_ofNat', UInt32.toNat_ofNat', Nat.mod_eq_of_lt (hlt _ _ _ _),
    Nat.mod_eq_of_lt (hlt _ _ _ _)] at hnat
  have hbyte : ∀ r < 4, (byteAt p (i + r)).toNat = (byteAt q (j + r)).toNat := by
    have h0 := fun (l : List UInt8) k => (byteAt l k).toNat_lt
    have hp0 := h0 p i
    have hp1 := h0 p (i + 1)
    have hp2 := h0 p (i + 2)
    have hq0 := h0 q j
    have hq1 := h0 q (j + 1)
    have hq2 := h0 q (j + 2)
    intro r hr
    interval_cases r
    · rw [Nat.add_zero, Nat.add_zero]
      omega
    all_goals omega
  refine List.ext_getElem? fun r => ?_
  rw [List.getElem?_take, List.getElem?_take]
  split
  · rename_i hr
    have hb := UInt8.toNat_inj.mp (hbyte r hr)
    rw [List.getElem?_drop, List.getElem?_drop, List.getElem?_eq_getElem (by omega),
      List.getElem?_eq_getElem (by omega)]
    rw [byteAt_eq (by omega), byteAt_eq (by omega)] at hb
    rw [hb]
  · rfl

theorem ipAt_congr {p q : List UInt8} {i j : Nat}
    (h : (p.drop i).take 4 = (q.drop j).take 4) :
    ipAt p i = ipAt q j := by
  have hbyte : ∀ r, r < 4 → byteAt p (i + r) = byteAt q (j + r) := by
    intro r hr
    have hr' := congrArg (fun l : List UInt8 => l[r]?) h
    rw [List.getElem?_take_of_lt hr, List.getElem?_take_of_lt hr, List.getElem?_drop,
      List.getElem?_drop] at hr'
    rw [byteAt, byteAt, List.getD_eq_getElem?_getD, List.getD_eq_getElem?_getD, hr']
  rw [ipAt, ipAt, hbyte 1 (by decide), hbyte 2 (by decide), hbyte 3 (by decide)]
  rw [show byteAt p i = byteAt q j from hbyte 0 (by decide)]

theorem isArp_length {pkt : List UInt8} (h : isArp pkt = true) : 42 ≤ pkt.length := by
  rw [isArp, Bool.and_eq_true, Bool.and_eq_true] at h
  exact of_decide_eq_true h.1.1

theorem isRequest_length {pkt : List UInt8} (h : isRequest pkt = true) : 42 ≤ pkt.length := by
  rw [isRequest, Bool.and_eq_true, Bool.and_eq_true] at h
  exact isArp_length h.1.1

/-- The ARP frame that an address was last heard in. -/
theorem lastHeard_split {acts : List Action} {ipNbo : UInt32} {mac : Mac} {t : Int}
    (h : lastHeard acts ipNbo = some (mac, t)) :
    ∃ before arp between, acts = before ++ .reassembled t arp :: between ∧ isArp arp = true ∧
      ipAt arp 28 = ipNbo ∧ macAt arp 22 = mac ∧
      ∀ now p, .reassembled now p ∈ between → isArp p = true → ipAt p 28 ≠ ipNbo := by
  induction acts using List.reverseRecOn with
  | nil => cases h
  | append_singleton acts a ih =>
      -- an action that does not name the address leaves the last one as it was
      have hold : lastHeard acts ipNbo = some (mac, t) →
          (∀ now p, a = .reassembled now p → isArp p = true → ipAt p 28 ≠ ipNbo) →
          ∃ before arp between, acts ++ [a] = before ++ .reassembled t arp :: between ∧
            isArp arp = true ∧ ipAt arp 28 = ipNbo ∧ macAt arp 22 = mac ∧
            ∀ now p, .reassembled now p ∈ between → isArp p = true → ipAt p 28 ≠ ipNbo := by
        intro hlast hother
        obtain ⟨before, arp, between, rfl, harp, hip, hmac, hbetween⟩ := ih hlast
        refine ⟨before, arp, between ++ [a], ?_, harp, hip, hmac, ?_⟩
        · rw [List.append_assoc, List.cons_append]
        · intro now p hp hisArp
          rcases List.mem_append.mp hp with hp | hp
          · exact hbetween now p hp hisArp
          · exact hother now p (List.mem_singleton.mp hp).symm hisArp
      rw [lastHeard, List.filterMap_append] at h
      cases ha : heardIn a with
      | none =>
          rw [List.filterMap_cons_none ha, List.filterMap_nil, List.append_nil] at h
          refine hold h ?_
          rintro now p rfl hisArp
          rw [heardIn, if_pos hisArp] at ha
          cases ha
      | some w =>
          rw [List.filterMap_cons_some ha, List.filterMap_nil] at h
          cases a with
          | received now p sendOk => cases ha
          | idle => cases ha
          | failed => cases ha
          | dumped now max => cases ha
          | reassembled now p =>
              rw [heardIn] at ha
              split at ha
              · rename_i hisArp
                obtain rfl := Option.some.inj ha
                by_cases hip : ipAt p 28 = ipNbo
                · rw [hip, KeyedTable.lastWrite_append_self] at h
                  obtain ⟨rfl, rfl⟩ := Prod.mk.inj (Option.some.inj h)
                  exact ⟨acts, p, [], rfl, hisArp, hip, rfl, fun now p hp =>
                    absurd hp List.not_mem_nil⟩
                · rw [KeyedTable.lastWrite_append_of_ne _ _ hip] at h
                  refine hold h ?_
                  rintro now' p' heq -
                  obtain ⟨-, rfl⟩ := Action.reassembled.inj heq
                  exact hip
              · cases ha

/-! ## What is sent and what is forwarded -/

/-- The reply that an action sends. -/
def sentReply (lanMac : List UInt8) (c : ArpCache) : Action → Option (List UInt8)
  | .received now pkt sendOk =>
      let pkt := pkt.take txRxBufSize
      if isForeign lanMac pkt && isRequest pkt && sendOk then
        (arpCacheLookup c now (ipAt pkt 38)).2.map (arpReply pkt)
      else none
  | _ => none

/-- What the transmitter goes on with after an action. -/
def eventsOf (answered : Bool) : Action → List TxEvent
  | .received _ pkt _ => [.frame pkt answered]
  | .idle => [.idle]
  | .failed => [.error]
  | _ => []

/-- **One action**: what it sends, and whether the frame counts as answered. -/
theorem act_sends (lanMac : List UInt8) (g : Gateway) (a : Action) :
    (act lanMac g a).replies = g.replies ++ (sentReply lanMac g.arp a).toList ∧
      (act lanMac g a).events
        = g.events ++ eventsOf (sentReply lanMac g.arp a).isSome a := by
  cases a with
  | reassembled now pkt => exact ⟨(List.append_nil _).symm, (List.append_nil _).symm⟩
  | idle => exact ⟨(List.append_nil _).symm, rfl⟩
  | failed => exact ⟨(List.append_nil _).symm, rfl⟩
  | dumped now max => exact ⟨(List.append_nil _).symm, (List.append_nil _).symm⟩
  | received now pkt sendOk =>
      rw [act, sentReply]
      cases isForeign lanMac (pkt.take txRxBufSize) with
      | false => exact ⟨(List.append_nil _).symm, rfl⟩
      | true =>
          dsimp only
          rcases tryProxyArp_cases g.arp now (pkt.take txRxBufSize) sendOk with
            ⟨hreq, heq⟩ | ⟨hreq, -, hrc, hsent⟩
          · rw [if_pos rfl, heq, hreq]
            exact ⟨rfl, rfl⟩
          · rw [if_pos rfl, hreq]
            cases sendOk with
            | false =>
                rw [if_neg Bool.false_ne_true] at hsent
                refine ⟨by rw [hsent]; rfl, ?_⟩
                have hne : ((tryProxyArp g.arp now (pkt.take txRxBufSize) false).1 == 1)
                    = false := beq_eq_false_iff_ne.mpr fun h => Bool.false_ne_true (hrc.mp h).1
                rw [hne]
                rfl
            | true =>
                rw [if_pos rfl] at hsent
                refine ⟨by rw [hsent]; rfl, ?_⟩
                have heq : ((tryProxyArp g.arp now (pkt.take txRxBufSize) true).1 == 1)
                    = (arpCacheLookup g.arp now (ipAt (pkt.take txRxBufSize) 38)).2.isSome := by
                  rw [Bool.eq_iff_iff, beq_iff_eq, hrc]
                  exact and_iff_right rfl
                rw [heq]
                show _ = g.events ++ [.frame pkt (Option.map _ _).isSome]
                rw [Option.isSome_map]

/-- A reply to a request of the LAN, with the MAC that the last ARP frame of the
    address asked for gave, at most 300 seconds before. -/
def Justified (lanMac : List UInt8) (acts : List Action) (reply : List UInt8) : Prop :=
  ∃ before t arp between now pkt after,
    acts = before ++ .reassembled t arp :: (between ++ .received now pkt true :: after) ∧
    isForeign lanMac (pkt.take txRxBufSize) = true ∧
    isRequest (pkt.take txRxBufSize) = true ∧ isArp arp = true ∧
    (arp.drop 28).take 4 = ((pkt.take txRxBufSize).drop 38).take 4 ∧
    (∀ now' p, .reassembled now' p ∈ between → isArp p = true →
      (p.drop 28).take 4 ≠ ((pkt.take txRxBufSize).drop 38).take 4) ∧
    now - t ≤ 300 ∧ IsReply (pkt.take txRxBufSize) (macAt arp 22) reply

theorem mem_replies {lanMac : List UInt8} {acts : List Action} {reply : List UInt8}
    (h : reply ∈ (run lanMac acts).replies) :
    ∃ before a after, acts = before ++ a :: after ∧
      sentReply lanMac (run lanMac before).arp a = some reply := by
  induction acts using List.reverseRecOn with
  | nil => exact absurd h List.not_mem_nil
  | append_singleton acts a ih =>
      rw [run_append, (act_sends lanMac _ a).1] at h
      rcases List.mem_append.mp h with h | h
      · obtain ⟨before, b, after, rfl, hb⟩ := ih h
        exact ⟨before, b, after ++ [a], by rw [List.append_assoc, List.cons_append], hb⟩
      · exact ⟨acts, a, [], rfl, Option.mem_toList.mp h⟩

/-- What is sent is due. -/
theorem due_of_sent {lanMac : List UInt8} {acts : List Action} {a : Action}
    {reply : List UInt8} (h : sentReply lanMac (run lanMac acts).arp a = some reply) :
    dueReply lanMac acts a = some reply := by
  cases a with
  | reassembled now pkt => cases h
  | idle => cases h
  | failed => cases h
  | dumped now max => cases h
  | received now pkt sendOk =>
      rw [sentReply] at h
      rw [dueReply]
      split at h
      · rename_i hwhen
        rw [if_pos hwhen]
        obtain ⟨mac, hlookup, rfl⟩ := Option.map_eq_some_iff.mp h
        rw [known_of_lookup hlookup]
        rfl
      · cases h

/-- **Every reply is sound**: it answers a request of the LAN with the MAC that
    the last ARP frame of the address gave, which the receiver reassembled at
    most 300 seconds before. -/
theorem proxy_arp_sound (lanMac : List UInt8) (acts : List Action) (reply : List UInt8)
    (h : reply ∈ (run lanMac acts).replies) : Justified lanMac acts reply := by
  obtain ⟨early, a, after, rfl, hsent⟩ := mem_replies h
  have hdue := due_of_sent hsent
  cases a with
  | reassembled now pkt => cases hdue
  | idle => cases hdue
  | failed => cases hdue
  | dumped now max => cases hdue
  | received now pkt sendOk =>
      rw [dueReply] at hdue
      split at hdue
      · rename_i hwhen
        simp only [Bool.and_eq_true] at hwhen
        obtain ⟨⟨hforeign, hreq⟩, rfl⟩ := hwhen
        obtain ⟨mac, hknown, rfl⟩ := Option.map_eq_some_iff.mp hdue
        obtain ⟨t, hlast, hage⟩ := known_some hknown
        obtain ⟨before, arp, between, rfl, harp, hip, rfl, hbetween⟩ := lastHeard_split hlast
        have hlen : 42 ≤ (pkt.take txRxBufSize).length := isRequest_length hreq
        refine ⟨before, t, arp, between, now, pkt, after, ?_, hforeign, hreq, harp, ?_, ?_, hage,
          arpReply_isReply hlen _⟩
        · rw [List.append_assoc, List.cons_append]
        · have harpLen := isArp_length harp
          exact ipAt_inj (by omega) (by omega) hip
        · intro now' p hp hisArp heq
          refine hbetween now' p hp hisArp ?_
          have hpLen := isArp_length hisArp
          exact ipAt_congr heq
      · cases hdue

/-- An ARP frame of the far side, from 10.0.0.2. -/
def farArp : List UInt8 :=
  List.replicate 6 255 ++ List.replicate 6 7 ++ [0x08, 0x06, 0, 1, 0x08, 0, 6, 4, 0, 2]
    ++ List.replicate 6 7 ++ [10, 0, 0, 2] ++ List.replicate 6 1 ++ [10, 0, 0, 1]

/-- A request of the LAN for 10.0.0.2. -/
def lanRequest : List UInt8 :=
  List.replicate 6 255 ++ List.replicate 6 1 ++ [0x08, 0x06, 0, 1, 0x08, 0, 6, 4, 0, 1]
    ++ List.replicate 6 1 ++ [10, 0, 0, 1] ++ List.replicate 6 0 ++ [10, 0, 0, 2]

/-- The request comes 300 and 301 seconds after the ARP frame, with a poll that
    finds nothing and one that fails in between. -/
def askedTwice : List Action :=
  [.reassembled 0 farArp, .received 300 lanRequest true, .idle, .failed,
    .received 301 lanRequest true]

theorem proxy_arp_sound_askedTwice :
    Justified (List.replicate 6 9) askedTwice (arpReply lanRequest (Vector.replicate 6 7)) :=
  proxy_arp_sound (List.replicate 6 9) askedTwice _ (by decide +kernel)

/-! ## The gateway remembers -/

/-- The reading of the clock that an action takes for the cache. -/
def Action.now : Action → Option Int
  | .reassembled now _ => some now
  | .received now _ _ => some now
  | .dumped now _ => some now
  | .idle | .failed => none

/-- The clock does not go back. -/
def TimeForward (acts : List Action) : Prop :=
  acts.Pairwise fun a b => ∀ t ∈ a.now, ∀ u ∈ b.now, t ≤ u

/-- Every address learned finds a slot of the cache. -/
def SlotsFound (lanMac : List UInt8) (acts : List Action) : Prop :=
  ∀ pre now pkt, pre ++ [.reassembled now pkt] <+: acts → isArp pkt = true →
    FindsSlot (run lanMac pre).arp (.learn now (ipAt pkt 28) (macAt pkt 22))

theorem SlotsFound.of_append {lanMac : List UInt8} {acts : List Action} {a : Action}
    (h : SlotsFound lanMac (acts ++ [a])) : SlotsFound lanMac acts :=
  fun pre now pkt hpre => h pre now pkt (hpre.trans (List.prefix_append acts [a]))

theorem allHeld_run {lanMac : List UInt8} {acts : List Action} (h : SlotsFound lanMac acts) :
    AllHeld (acts.flatMap (callsOf lanMac)) := by
  induction acts using List.reverseRecOn with
  | nil =>
      intro now ip mac t _ hlast
      cases hlast
  | append_singleton acts a ih =>
      have hold := ih h.of_append
      rw [List.flatMap_append, List.flatMap_singleton]
      cases a with
      | idle =>
          rw [callsOf, List.append_nil]
          exact hold
      | failed =>
          rw [callsOf, List.append_nil]
          exact hold
      | dumped now max => exact allHeld_step hold trivial
      | received now pkt sendOk =>
          rw [callsOf]
          split
          · exact allHeld_lookup hold
          · rw [List.append_nil]
            exact hold
      | reassembled now pkt =>
          rw [callsOf]
          split
          · rename_i hisArp
            refine allHeld_learn hold ?_
            rw [← run_arp]
            exact h acts now pkt List.prefix_rfl hisArp
          · rw [List.append_nil]
            exact hold

theorem callsOf_now {lanMac : List UInt8} {a : Action} {call : Call}
    (h : call ∈ callsOf lanMac a) : a.now = some call.now := by
  cases a with
  | idle => exact absurd h List.not_mem_nil
  | failed => exact absurd h List.not_mem_nil
  | dumped now max => rw [List.mem_singleton.mp h]; rfl
  | received now pkt sendOk =>
      rw [callsOf] at h
      split at h
      · rw [List.mem_singleton.mp h]; rfl
      · exact absurd h List.not_mem_nil
  | reassembled now pkt =>
      rw [callsOf] at h
      split at h
      · rw [List.mem_singleton.mp h]; rfl
      · exact absurd h List.not_mem_nil

theorem TimeForward.after {lanMac : List UInt8} {acts : List Action} {a : Action} {now : Int}
    (h : TimeForward (acts ++ [a])) (hnow : a.now = some now) :
    After (acts.flatMap (callsOf lanMac)) now := by
  intro call hcall
  obtain ⟨b, hb, hcall⟩ := List.mem_flatMap.mp hcall
  exact (List.pairwise_append.mp h).2.2 b hb a List.mem_cons_self _ (callsOf_now hcall) _ hnow

/-- The cache gives out what is known. -/
theorem lookup_known {lanMac : List UInt8} {acts : List Action} {a : Action} {now : Int}
    (htime : TimeForward (acts ++ [a])) (hnow : a.now = some now)
    (hslots : SlotsFound lanMac acts) (ipNbo : UInt32) :
    (arpCacheLookup (run lanMac acts).arp now ipNbo).2 = known acts now ipNbo := by
  cases hk : known acts now ipNbo with
  | some mac =>
      obtain ⟨t, hlast, hage⟩ := known_some hk
      have hfresh : FreshAt (acts.flatMap (callsOf lanMac)) now ipNbo :=
        ⟨mac, t, (lastLearn_calls lanMac acts ipNbo).trans hlast, hage⟩
      have hsome := (allHeld_run hslots).keeps now ipNbo (htime.after hnow) hfresh
      rw [← run_arp] at hsome
      obtain ⟨mac', hmac'⟩ := Option.isSome_iff_exists.mp hsome
      rw [hmac', ← known_of_lookup hmac', hk]
  | none =>
      cases hl : (arpCacheLookup (run lanMac acts).arp now ipNbo).2 with
      | none => rfl
      | some mac =>
          rw [known_of_lookup hl] at hk
          cases hk

theorem sent_due {lanMac : List UInt8} {acts : List Action} {a : Action}
    (htime : TimeForward (acts ++ [a])) (hslots : SlotsFound lanMac acts) :
    sentReply lanMac (run lanMac acts).arp a = dueReply lanMac acts a := by
  cases a with
  | reassembled now pkt => rfl
  | idle => rfl
  | failed => rfl
  | dumped now max => rfl
  | received now pkt sendOk =>
      have h : (arpCacheLookup (run lanMac acts).arp now (ipAt (pkt.take txRxBufSize) 38)).2
          = known acts now (ipAt (pkt.take txRxBufSize) 38) := lookup_known htime rfl hslots _
      rw [sentReply, dueReply, h]

theorem due_append (of : List Action → Action → Option (List UInt8)) (acts : List Action)
    (a : Action) (before : List Action) :
    due of before (acts ++ [a]) = due of before acts ++ (of (before ++ acts) a).toList := by
  induction acts generalizing before with
  | nil =>
      rw [List.nil_append, due, due, due, List.append_nil, List.append_nil, List.nil_append]
  | cons b acts ih =>
      rw [List.cons_append, due, due, ih, List.append_assoc, List.append_assoc]
      rfl

/-- What the transmitter forwards of an event. -/
def forwarded (lanMac : List UInt8) : TxEvent → Option (List UInt8)
  | .frame pkt answered =>
      if isForeign lanMac (pkt.take txRxBufSize) && !answered then some (pkt.take txRxBufSize)
      else none
  | _ => none

/-- **One action**, of a cache that remembers. -/
theorem run_due {lanMac : List UInt8} {acts : List Action} (htime : TimeForward acts)
    (hslots : SlotsFound lanMac acts) :
    (run lanMac acts).replies = due (dueReply lanMac) [] acts ∧
      (run lanMac acts).events.filterMap (forwarded lanMac) = due (dueFrame lanMac) [] acts := by
  induction acts using List.reverseRecOn with
  | nil => exact ⟨rfl, rfl⟩
  | append_singleton acts a ih =>
      have hbefore : TimeForward acts := (List.pairwise_append.mp htime).1
      obtain ⟨hreplies, hframes⟩ := ih hbefore hslots.of_append
      obtain ⟨hr, he⟩ := act_sends lanMac (run lanMac acts) a
      rw [sent_due htime hslots.of_append] at hr he
      rw [run_append, hr, he, due_append, due_append, hreplies, List.filterMap_append, hframes,
        List.nil_append]
      refine ⟨rfl, ?_⟩
      congr 1
      cases a with
      | reassembled now pkt => rfl
      | idle => rfl
      | failed => rfl
      | dumped now max => rfl
      | received now pkt sendOk =>
          rw [eventsOf, List.filterMap_cons, List.filterMap_nil, forwarded, dueFrame,
            ← Option.not_isSome]
          cases isForeign lanMac (pkt.take txRxBufSize) &&
            !(dueReply lanMac acts (.received now pkt sendOk)).isSome <;> rfl

/-! ## The transmitter -/

theorem lanMac_closed (wh : FecWrapper.Wirehair) (clk : Nat → Nat) (lanMac : List UInt8) :
    TxClosed wh clk (fun pl _ => pl.lanMac = lanMac) (fun _ _ => True) where
  weaken := fun _ => trivial
  same := fun h _ _ _ _ _ _ => h
  add := fun h _ _ => h
  finalize := fun h => h
  tick := fun h => (tick_sameBlock clk _).tx.lanMac.trans h
  encode := by
    intro pl log h h0
    obtain ⟨b, pl', -, -, hs, heq⟩ := encodeAndReset_ok h0
    rw [heq]
    exact hs.tx.lanMac.trans h
  fail := fun _ _ => trivial

theorem ingressFrame_eq {pl : TxPipeline} {lanMac : List UInt8} (hl : pl.lanMac = lanMac)
    (ev : TxEvent) : ingressFrame pl ev = forwarded lanMac ev := by
  cases ev with
  | idle => rfl
  | error => rfl
  | frame pkt answered =>
      rw [ingressFrame, forwarded, onFrame, isForeign, ← hl]
      dsimp only
      rw [← isOwnFrame]
      cases isOwnFrame pl (pkt.take txRxBufSize) with
      | true => rfl
      | false =>
          cases answered with
          | true => rfl
          | false => simp

theorem ingressFrames_eq {wh : FecWrapper.Wirehair} (clk : Nat → Nat) {lanMac : List UInt8}
    (evs : List TxEvent) {pl : TxPipeline} (hi : RunInv wh pl) (hl : pl.lanMac = lanMac) :
    ingressFrames wh clk evs pl = evs.filterMap (forwarded lanMac) := by
  induction evs generalizing pl with
  | nil => rfl
  | cons ev evs ih =>
      obtain ⟨h0, hi', -⟩ := runInv_runOnce clk hi ev
      have hne : (txPipelineRunOnce wh clk pl ev).1 ≠ -1 := by
        rw [h0]
        decide
      have hkept : Kept _ _ _ ([] ++ callsOnce wh clk pl ev) :=
        (lanMac_closed wh clk lanMac).once ev hl
      have hl' := hkept.ok hne
      rw [ingressFrames, if_neg hne, ih hi' hl', ingressFrame_eq hl, List.filterMap_cons]
      cases forwarded lanMac ev <;> rfl

/-- **The gateway refines one with a perfect memory**, while the clock does not
    go back and every address learned finds a slot: it answers the requests for
    the addresses heard in the last 300 seconds, with what was heard last, and
    the transmitter accepts the other foreign frames that can be cut. -/
theorem proxy_arp_refines (wh : FecWrapper.Wirehair) (clk : Nat → Nat)
    (mem : Nat → Nat → FsoTypes.Symbol) (lanMac : List UInt8) (cfg : FsoTypes.Config)
    (tx0 : TxPipeline) (hcreate : txPipelineCreate mem lanMac cfg = some tx0) (hm : 1 ≤ cfg.m)
    (hss : cfg.symbolSize ≤ FsoTypes.maxSymbolDataSize)
    (hwh : ErasureCode.Encodes wh.encoding cfg.k (cfg.k + cfg.m) cfg.symbolSize)
    (acts : List Action) (htime : TimeForward acts) (hslots : SlotsFound lanMac acts) :
    (run lanMac acts).replies = due (dueReply lanMac) [] acts ∧
      (txRun wh clk (run lanMac acts).events tx0).2.accepted
        = (due (dueFrame lanMac) [] acts).filter (isCut cfg) := by
  obtain ⟨hreplies, hframes⟩ := run_due htime hslots
  obtain ⟨hi, hcfg, hacc, hmax⟩ := runInv_create hcreate hm hss hwh
  have hl : tx0.lanMac = lanMac := by
    obtain ⟨-, -, -, -, builder, fec, il, -, -, -, rfl⟩ := txPipelineCreate_some hcreate
    rfl
  have h := run_accepts clk (run lanMac acts).events hi (hmax.trans (by rw [hcfg]; rfl))
  rw [hacc, List.nil_append, ingressFrames_eq clk _ hi hl, hframes, hcfg] at h
  exact ⟨hreplies, h⟩

/-- The pipeline of a LAN interface. -/
def arpPipeline : TxPipeline :=
  (txPipelineCreate (fun _ _ => FsoTypes.symbolInit) (List.replicate 6 9) smallLink).get rfl

theorem askedTwice_slots : SlotsFound (List.replicate 6 9) askedTwice := by
  intro pre now pkt hpre hisArp
  rcases pre with _ | ⟨first, pre⟩
  · -- the table is empty
    exact .inr (by decide)
  · -- the others are not of the receiver
    have hmem : Action.reassembled now pkt ∈ askedTwice.tail :=
      (List.cons_prefix_cons.mp hpre).2.mem (List.mem_append_right pre List.mem_cons_self)
    simp [askedTwice] at hmem

/-- The first request is answered, the second forwarded. -/
theorem proxy_arp_refines_askedTwice :
    (run (List.replicate 6 9) askedTwice).replies
        = [arpReply lanRequest (Vector.replicate 6 7)] ∧
      (txRun ErasureCode.parity (fun t => t) (run (List.replicate 6 9) askedTwice).events
        arpPipeline).2.accepted = [lanRequest] := by
  have h := proxy_arp_refines ErasureCode.parity (fun t => t) (fun _ _ => FsoTypes.symbolInit)
    (List.replicate 6 9) smallLink arpPipeline (Option.some_get _).symm (by decide) (by decide)
    (ErasureCode.parity_recovers 4).toEncodes askedTwice
    (by simp [TimeForward, askedTwice, Action.now]) askedTwice_slots
  have hreplies : due (dueReply (List.replicate 6 9)) [] askedTwice
      = [arpReply lanRequest (Vector.replicate 6 7)] := by decide +kernel
  have hframes : (due (dueFrame (List.replicate 6 9)) [] askedTwice).filter (isCut smallLink)
      = [lanRequest] := by decide +kernel
  rw [hreplies, hframes] at h
  exact h

end FsoProxyArp
