import Mathlib.Data.List.Nodup
import Mathlib.Data.List.Range
import Mathlib.Tactic.IntervalCases

/-! # Systematic erasure codes

    A message of `k * ss` items is cut into `k` chunks of `ss`.  A code names
    `n` symbols after numbers: symbol `id` is chunk `id` when `id < k`, and
    what the encoder returns for `id` otherwise.  A decoder is fed pairs of a
    number and a symbol until it reports success.

    * `Encodes`, `Systematic` — the encoder always succeeds; the chunks of a
      message, in order, bring it back;
    * `Recovers` — any `k` different symbols do;
    * `Genuine` — a list of fed pairs is symbols of one message, no number
      twice;
    * `decodes_of_genuine` — a feed that starts with `k` genuine pairs brings
      the message back;
    * `ideal_recovers`, `genuine_of_ideal` — no other feed does so with every
      recovering decoder: `ideal` is one of them, and it gives up as soon as
      its feed fits no message;
    * `parity_recovers` — the exclusive-or code is one, with `k = 2`. -/

namespace ErasureCode

/-- The result codes of an encoder or decoder call. -/
inductive Result where
  | success
  | needMore
  | error
  deriving DecidableEq, Repr

/-- The encoder half of a code. -/
structure Encoding (α : Type) where
  Encoder : Type
  create : List α → Nat → Option Encoder
  encode : Encoder → Nat → Result × List α

/-- The decoder half of a code: created for a message length and a symbol
    length. -/
structure Decoding (α : Type) where
  Decoder : Type
  create : Nat → Nat → Option Decoder
  decode : Decoder → Nat → List α → Result × Decoder
  recover : Decoder → Result × List α

structure Codec (α : Type) where
  encoding : Encoding α
  decoding : Decoding α

variable {α : Type}

/-! ## Chunks -/

/-- Chunk `i` of a message. -/
def chunk (msg : List α) (ss i : Nat) : List α := (msg.drop (i * ss)).take ss

theorem chunk_length {msg : List α} {k ss i : Nat} (hlen : msg.length = k * ss)
    (hi : i < k) : (chunk msg ss i).length = ss := by
  have h1 : (i + 1) * ss ≤ k * ss := Nat.mul_le_mul_right ss hi
  rw [Nat.add_mul, Nat.one_mul] at h1
  rw [chunk, List.length_take, List.length_drop, hlen]
  omega

/-- The first `k` pieces of equal length, put together. -/
def join (f : Nat → List α) (k : Nat) : List α := (List.range k).flatMap f

theorem join_succ (f : Nat → List α) (k : Nat) :
    join f (k + 1) = join f k ++ f k := by
  rw [join, join, List.range_succ, List.flatMap_append]
  simp

theorem join_length {f : Nat → List α} {k ss : Nat}
    (hf : ∀ i, i < k → (f i).length = ss) : (join f k).length = k * ss := by
  induction k with
  | zero => simp [join]
  | succ k ih =>
      rw [join_succ, List.length_append, ih fun i hi => hf i (by omega),
        hf k (by omega), Nat.add_mul, Nat.one_mul]

/-- Cutting what was put together gives the pieces back. -/
theorem chunk_join {f : Nat → List α} {k ss i : Nat}
    (hf : ∀ i, i < k → (f i).length = ss) (hi : i < k) :
    chunk (join f k) ss i = f i := by
  induction k with
  | zero => omega
  | succ k ih =>
      have hl : (join f k).length = k * ss := join_length fun j hj => hf j (by omega)
      rw [chunk, join_succ]
      by_cases hik : i = k
      · subst hik
        rw [← hl, List.drop_left, ← hf i (by omega), List.take_length]
      · have hlt : i < k := by omega
        have h1 : (i + 1) * ss ≤ k * ss := Nat.mul_le_mul_right ss hlt
        rw [Nat.add_mul, Nat.one_mul] at h1
        rw [List.drop_append_of_le_length (by omega),
          List.take_append_of_le_length (by rw [List.length_drop]; omega)]
        exact ih (fun j hj => hf j (by omega)) hlt

/-- Putting the chunks together gives the message back. -/
theorem join_chunk {msg : List α} {k ss : Nat} (hlen : msg.length = k * ss) :
    join (chunk msg ss) k = msg := by
  have hpre : ∀ j, j ≤ k → join (chunk msg ss) j = msg.take (j * ss) := by
    intro j hj
    induction j with
    | zero => simp [join]
    | succ j ih =>
        rw [join_succ, ih (by omega), chunk, Nat.add_mul, Nat.one_mul,
          List.take_add]
  rw [hpre k le_rfl, ← hlen, List.take_length]

/-! ## Recovery -/

/-- Symbol number `id` of a message. -/
def symbolOf (E : Encoding α) (k ss : Nat) (msg : List α) (id : Nat) : List α :=
  if id < k then chunk msg ss id
  else
    match E.create msg ss with
    | some e => (E.encode e id).2
    | none => []

/-- Feed a decoder until it reports success or an error. -/
def feed (D : Decoding α) : D.Decoder → List (Nat × List α) → Result × D.Decoder
  | d, [] => (.needMore, d)
  | d, p :: rest =>
      match D.decode d p.1 p.2 with
      | (.needMore, d') => feed D d' rest
      | (.success, d') => (.success, d')
      | (.error, d') => (.error, d')

/-- One pair fed, by the decoder's answer. -/
theorem feed_cons {D : Decoding α} {d d1 : D.Decoder} {p : Nat × List α}
    {rc : Result} (h : D.decode d p.1 p.2 = (rc, d1)) (rest : List (Nat × List α)) :
    feed D d (p :: rest) = if rc = .needMore then feed D d1 rest else (rc, d1) := by
  rw [feed, h]
  cases rc <;> rfl

/-- The encoder takes every message, and gives the symbols `k .. n-1` of it. -/
structure Encodes (E : Encoding α) (k n ss : Nat) : Prop where
  encoder : ∀ msg : List α, msg.length = k * ss →
    ∃ e, E.create msg ss = some e ∧ ∀ id, k ≤ id → id < n →
      ∃ x, E.encode e id = (.success, x) ∧ x.length = ss

/-- The chunks of a message, in order, decode to the message. -/
structure Systematic (C : Codec α) (k n ss : Nat) : Prop
    extends Encodes C.encoding k n ss where
  decoder : ∃ d, C.decoding.create (k * ss) ss = some d ∧
    ∀ msg : List α, msg.length = k * ss →
      ∃ d', feed C.decoding d ((List.range k).map fun id => (id, chunk msg ss id))
          = (.success, d') ∧ C.decoding.recover d' = (.success, msg)

/-- The code recovers a message from any `k` of its symbols `0 .. n-1`. -/
structure Recovers (C : Codec α) (k n ss : Nat) : Prop
    extends Encodes C.encoding k n ss where
  decoder : ∃ d, C.decoding.create (k * ss) ss = some d ∧
    ∀ msg : List α, msg.length = k * ss → ∀ ids : List Nat, ids.Nodup →
      (∀ id ∈ ids, id < n) → ids.length = k →
      ∃ d', feed C.decoding d
          (ids.map fun id => (id, symbolOf C.encoding k ss msg id)) = (.success, d') ∧
        C.decoding.recover d' = (.success, msg)

/-- A code that recovers from any `k` symbols does so from the chunks. -/
theorem Recovers.systematic {C : Codec α} {k n ss : Nat} (hC : Recovers C k n ss)
    (hkn : k ≤ n) : Systematic C k n ss where
  toEncodes := hC.toEncodes
  decoder := by
    obtain ⟨d, hd, hrec⟩ := hC.decoder
    refine ⟨d, hd, fun msg hlen => ?_⟩
    have hids : ∀ id ∈ List.range k, id < n := fun id hid =>
      Nat.lt_of_lt_of_le (List.mem_range.mp hid) hkn
    obtain ⟨d', hf, hr⟩ := hrec msg hlen (List.range k) List.nodup_range hids
      List.length_range
    have hpairs : ((List.range k).map fun id => (id, symbolOf C.encoding k ss msg id))
        = (List.range k).map fun id => (id, chunk msg ss id) := by
      apply List.map_congr_left
      intro id hid
      rw [symbolOf, if_pos (List.mem_range.mp hid)]
    rw [hpairs] at hf
    exact ⟨d', hf, hr⟩

/-- The fed pairs are symbols of `msg`, and no number is used twice. -/
def Genuine (E : Encoding α) (k n ss : Nat) (msg : List α)
    (fed : List (Nat × List α)) : Prop :=
  (fed.map Prod.fst).Nodup ∧
    ∀ p ∈ fed, p.1 < n ∧ p.2 = symbolOf E k ss msg p.1

theorem genuine_eq_map {E : Encoding α} {k n ss : Nat} {msg : List α}
    {fed : List (Nat × List α)} (h : Genuine E k n ss msg fed) :
    fed = (fed.map Prod.fst).map fun id => (id, symbolOf E k ss msg id) := by
  rw [List.map_map]
  have hid : fed.map id = fed.map
      ((fun id => (id, symbolOf E k ss msg id)) ∘ Prod.fst) := by
    apply List.map_congr_left
    intro p hp
    exact Prod.ext rfl (h.2 p hp).2
  rwa [List.map_id] at hid

/-- A feed that succeeded is not affected by what would have come next. -/
theorem feed_append_of_success {D : Decoding α} {l : List (Nat × List α)}
    {d d' : D.Decoder} (h : feed D d l = (.success, d')) (rest : List (Nat × List α)) :
    feed D d (l ++ rest) = (.success, d') := by
  induction l generalizing d with
  | nil => exact nomatch congrArg Prod.fst h
  | cons p l ih =>
      have hdec : D.decode d p.1 p.2 = ((D.decode d p.1 p.2).1, (D.decode d p.1 p.2).2) :=
        rfl
      rw [feed_cons hdec] at h
      rw [List.cons_append, feed_cons hdec]
      by_cases hm : (D.decode d p.1 p.2).1 = .needMore
      · rw [if_pos hm] at h ⊢
        exact ih h
      · rw [if_neg hm] at h ⊢
        exact h

/-- What the caller of a decoder sees: created, fed, successful, recovered. -/
def Decodes (D : Decoding α) (k ss : Nat) (fed : List (Nat × List α))
    (msg : List α) : Prop :=
  ∃ d d', D.create (k * ss) ss = some d ∧ feed D d fed = (.success, d') ∧
    D.recover d' = (.success, msg)

/-- **Recovery** from a feed whose first `k` pairs are genuine. -/
theorem decodes_of_genuine {C : Codec α} {k n ss : Nat} {msg : List α}
    {fed : List (Nat × List α)} (hC : Recovers C k n ss)
    (hlen : msg.length = k * ss) (hk : k ≤ fed.length)
    (hg : Genuine C.encoding k n ss msg (fed.take k)) :
    Decodes C.decoding k ss fed msg := by
  obtain ⟨d, hd, hrec⟩ := hC.decoder
  have hids : ∀ id ∈ (fed.take k).map Prod.fst, id < n := by
    intro id hid
    obtain ⟨p, hp, he⟩ := List.mem_map.mp hid
    rw [← he]
    exact (hg.2 p hp).1
  have hl : ((fed.take k).map Prod.fst).length = k := by
    rw [List.length_map, List.length_take]
    omega
  obtain ⟨d', hf, hr⟩ := hrec msg hlen _ hg.1 hids hl
  rw [← genuine_eq_map hg] at hf
  have happ := feed_append_of_success hf (fed.drop k)
  rw [List.take_append_drop] at happ
  exact ⟨d, d', hd, happ, hr⟩

/-- **Recovery** from a feed that starts with the chunks, in order. -/
theorem decodes_of_source {C : Codec α} {k n ss : Nat} {msg : List α}
    {fed : List (Nat × List α)} (hC : Systematic C k n ss) (hlen : msg.length = k * ss)
    (hfed : fed.take k = (List.range k).map fun id => (id, chunk msg ss id)) :
    Decodes C.decoding k ss fed msg := by
  obtain ⟨d, hd, hrec⟩ := hC.decoder
  obtain ⟨d', hf, hr⟩ := hrec msg hlen
  rw [← hfed] at hf
  have happ := feed_append_of_success hf (fed.drop k)
  rw [List.take_append_drop] at happ
  exact ⟨d, d', hd, happ, hr⟩

/-- A message is determined by any `k` of its symbols. -/
theorem genuine_unique {C : Codec α} {k n ss : Nat} {msg msg' : List α}
    {fed : List (Nat × List α)} (hC : Recovers C k n ss)
    (hlen : msg.length = k * ss) (hlen' : msg'.length = k * ss)
    (hk : fed.length = k) (hg : Genuine C.encoding k n ss msg fed)
    (hg' : Genuine C.encoding k n ss msg' fed) : msg = msg' := by
  have htake : fed.take k = fed := by rw [← hk, List.take_length]
  obtain ⟨d, d', hd, hf, hr⟩ := decodes_of_genuine hC hlen (Nat.le_of_eq hk.symm)
    (by rw [htake]; exact hg)
  obtain ⟨e, e', he, hf', hr'⟩ := decodes_of_genuine hC hlen' (Nat.le_of_eq hk.symm)
    (by rw [htake]; exact hg')
  rw [hd] at he
  have h1 := Option.some.inj he
  subst h1
  rw [hf] at hf'
  have h2 := congrArg Prod.snd hf'
  simp only at h2
  subst h2
  rw [hr] at hr'
  exact congrArg Prod.snd hr'

/-! ## The ideal decoder -/

section Ideal

open Classical

/-- Is there a message all these pairs are symbols of? -/
def Fits (E : Encoding α) (k n ss : Nat) (fed : List (Nat × List α))
    (msg : List α) : Prop :=
  msg.length = k * ss ∧ Genuine E k n ss msg fed

/-- A decoder that remembers its feed and gives up once no message fits. -/
noncomputable def ideal (E : Encoding α) (k n ss : Nat) : Decoding α where
  Decoder := List (Nat × List α)
  create := fun _ _ => some []
  decode := fun d id x =>
    if ∃ msg, Fits E k n ss (d ++ [(id, x)]) msg then
      (if d.length + 1 = k then .success else .needMore, d ++ [(id, x)])
    else (.error, d ++ [(id, x)])
  recover := fun d =>
    if h : ∃ msg, Fits E k n ss d msg then (.success, choose h) else (.error, [])

theorem genuine_prefix {E : Encoding α} {k n ss : Nat} {msg : List α}
    {fed rest : List (Nat × List α)} (h : Genuine E k n ss msg (fed ++ rest)) :
    Genuine E k n ss msg fed := by
  refine ⟨?_, fun p hp => h.2 p (List.mem_append_left rest hp)⟩
  have h1 := h.1
  rw [List.map_append] at h1
  exact (List.nodup_append.mp h1).1

/-- On a genuine feed the ideal decoder succeeds at the `k`-th pair. -/
theorem feed_ideal_genuine {E : Encoding α} {k n ss : Nat} {msg : List α}
    (hlen : msg.length = k * ss) {fed : List (Nat × List α)} (hne : fed ≠ [])
    (d : List (Nat × List α)) (hg : Genuine E k n ss msg (d ++ fed))
    (hk : d.length + fed.length = k) :
    feed (ideal E k n ss) d fed = (.success, d ++ fed) := by
  induction fed generalizing d with
  | nil => exact absurd rfl hne
  | cons p fed ih =>
      have hsplit : d ++ p :: fed = (d ++ [p]) ++ fed := by simp
      rw [hsplit] at hg ⊢
      have hfit : ∃ msg, Fits E k n ss (d ++ [p]) msg :=
        ⟨msg, hlen, genuine_prefix hg⟩
      have hdec : (ideal E k n ss).decode d p.1 p.2
          = (if d.length + 1 = k then .success else .needMore, d ++ [p]) := if_pos hfit
      rw [List.length_cons] at hk
      by_cases hlast : d.length + 1 = k
      · have hnil : fed = [] := List.length_eq_zero_iff.mp (by omega)
        rw [if_pos hlast] at hdec
        rw [hnil, List.append_nil]
        exact feed_cons hdec []
      · rw [if_neg hlast] at hdec
        refine (feed_cons hdec fed).trans (ih ?_ (d ++ [p]) hg ?_)
        · intro hnil
          rw [hnil] at hk
          exact hlast hk
        · rw [List.length_append, List.length_singleton]
          omega

/-- When the ideal decoder succeeds, the first `k` pairs fit a message. -/
theorem feed_ideal_success {E : Encoding α} {k n ss : Nat}
    {fed : List (Nat × List α)} {d d' : List (Nat × List α)}
    (h : feed (ideal E k n ss) d fed = (.success, d')) (hd : d.length < k) :
    ∃ p rest, fed = p ++ rest ∧ d' = d ++ p ∧ (d ++ p).length = k := by
  induction fed generalizing d with
  | nil => exact nomatch congrArg Prod.fst h
  | cons p fed ih =>
      by_cases hfit : ∃ msg, Fits E k n ss (d ++ [p]) msg
      · have hdec : (ideal E k n ss).decode d p.1 p.2
            = (if d.length + 1 = k then .success else .needMore, d ++ [p]) :=
          if_pos hfit
        by_cases hlast : d.length + 1 = k
        · rw [if_pos hlast] at hdec
          have h1 := (feed_cons hdec fed).symm.trans h
          refine ⟨[p], fed, rfl, (congrArg Prod.snd h1).symm, ?_⟩
          rw [List.length_append, List.length_singleton]
          exact hlast
        · rw [if_neg hlast] at hdec
          have h0 := (feed_cons hdec fed).symm.trans h
          obtain ⟨q, rest, h1, h2, h3⟩ := ih h0 (by
            rw [List.length_append, List.length_singleton]
            omega)
          refine ⟨p :: q, rest, by rw [h1]; rfl, ?_, ?_⟩
          · rw [h2, List.append_assoc]
            rfl
          · rw [← h3, List.append_assoc]
            rfl
      · have hdec : (ideal E k n ss).decode d p.1 p.2 = (.error, d ++ [p]) :=
          if_neg hfit
        have h1 := (feed_cons hdec fed).symm.trans h
        exact nomatch congrArg Prod.fst h1

/-- The ideal decoder recovers whatever some decoder recovers. -/
theorem ideal_recovers {C : Codec α} {k n ss : Nat} (hC : Recovers C k n ss)
    (hk : 0 < k) : Recovers ⟨C.encoding, ideal C.encoding k n ss⟩ k n ss where
  encoder := hC.encoder
  decoder := by
    refine ⟨([] : List (Nat × List α)), rfl, ?_⟩
    intro msg hlen ids hnd hids hl
    let fed := ids.map fun id => (id, symbolOf C.encoding k ss msg id)
    have hfst : fed.map Prod.fst = ids := by
      rw [List.map_map]
      exact List.map_id ids
    have hg : Genuine C.encoding k n ss msg fed := by
      refine ⟨by rw [hfst]; exact hnd, ?_⟩
      intro p hp
      obtain ⟨id, hid, he⟩ := List.mem_map.mp hp
      rw [← he]
      exact ⟨hids id hid, rfl⟩
    have hfl : fed.length = k := by
      rw [List.length_map]
      exact hl
    have hne : fed ≠ [] := by
      intro h
      rw [h] at hfl
      exact absurd hfl.symm (by simpa using Nat.ne_of_gt hk)
    refine ⟨fed, ?_, ?_⟩
    · have hf := feed_ideal_genuine hlen hne [] hg (by simpa using hfl)
      exact hf
    · have hex : ∃ m, Fits C.encoding k n ss fed m := ⟨msg, hlen, hg⟩
      have hch := Classical.choose_spec hex
      have hrec : (ideal C.encoding k n ss).recover fed
          = (.success, Classical.choose hex) := dif_pos hex
      rw [hrec, genuine_unique hC hch.1 hlen hfl hch.2 hg]

/-- **Nothing but a genuine feed** makes the ideal decoder recover: what it
    returns is a message, and the first `k` pairs are symbols of it. -/
theorem genuine_of_ideal {E : Encoding α} {k n ss : Nat} {msg : List α}
    {fed : List (Nat × List α)} (hk : 0 < k)
    {d' : (ideal E k n ss).Decoder}
    (hf : feed (ideal E k n ss) ([] : List (Nat × List α)) fed = (.success, d'))
    (hr : (ideal E k n ss).recover d' = (.success, msg)) :
    msg.length = k * ss ∧ k ≤ fed.length ∧ Genuine E k n ss msg (fed.take k) := by
  obtain ⟨p, rest, h1, h2, h3⟩ := feed_ideal_success hf hk
  have hpk : p.length = k := h3
  have hdp : d' = p := h2
  have htake : fed.take k = p := by
    rw [h1, ← hpk, List.take_left]
  by_cases hex : ∃ m, Fits E k n ss d' m
  · have hrec : (ideal E k n ss).recover d' = (.success, Classical.choose hex) :=
      dif_pos hex
    rw [hrec] at hr
    have hm : Classical.choose hex = msg := congrArg Prod.snd hr
    have hfit := Classical.choose_spec hex
    rw [hm] at hfit
    refine ⟨hfit.1, by rw [h1, List.length_append]; omega, ?_⟩
    rw [htake, ← hdp]
    exact hfit.2
  · have hrec : (ideal E k n ss).recover d' = (.error, []) := dif_neg hex
    rw [hrec] at hr
    exact nomatch congrArg Prod.fst hr

end Ideal

/-! ## The exclusive-or code -/

/-- The exclusive or of two strings of bytes. -/
def xorBytes (a b : List UInt8) : List UInt8 := List.zipWith (· ^^^ ·) a b

theorem xorBytes_comm (a b : List UInt8) : xorBytes a b = xorBytes b a :=
  List.zipWith_comm_of_comm UInt8.xor_comm

theorem xorBytes_cancel {a b : List UInt8} (h : a.length = b.length) :
    xorBytes a (xorBytes a b) = b := by
  induction a generalizing b with
  | nil =>
      rw [List.length_nil] at h
      rw [List.length_eq_zero_iff.mp h.symm]
      rfl
  | cons x a ih =>
      cases b with
      | nil => exact nomatch h
      | cons y b =>
          have hl : a.length = b.length := Nat.succ.inj h
          show (x ^^^ (x ^^^ y)) :: xorBytes a (xorBytes a b) = y :: b
          rw [ih hl, ← UInt8.xor_assoc, UInt8.xor_self, UInt8.zero_xor]

/-- The symbol received under a number. -/
def received (d : List (Nat × List UInt8)) (id : Nat) : Option (List UInt8) :=
  (d.find? fun p => p.1 == id).map Prod.snd

/-- Two source chunks and their exclusive or. -/
def parity : Codec UInt8 where
  encoding :=
    { Encoder := List UInt8 × Nat
      create := fun msg ss => some (msg, ss)
      encode := fun e _ =>
        (.success, xorBytes (chunk e.1 e.2 0) (chunk e.1 e.2 1)) }
  decoding :=
    { Decoder := List (Nat × List UInt8)
      create := fun _ _ => some []
      decode := fun d id x =>
        (if d.any (fun p => p.1 != id) then .success else .needMore, d ++ [(id, x)])
      recover := fun d =>
        match received d 0, received d 1, received d 2 with
        | some a, some b, _ => (.success, a ++ b)
        | some a, none, some c => (.success, a ++ xorBytes a c)
        | none, some b, some c => (.success, xorBytes b c ++ b)
        | _, _, _ => (.error, []) }

theorem parity_recovers (ss : Nat) : Recovers parity 2 3 ss where
  encoder := by
    intro msg hlen
    refine ⟨(msg, ss), rfl, ?_⟩
    intro id _ _
    refine ⟨_, rfl, ?_⟩
    show (List.zipWith _ (chunk msg ss 0) (chunk msg ss 1)).length = ss
    rw [List.length_zipWith, chunk_length hlen (by decide),
      chunk_length hlen (by decide), Nat.min_self]
  decoder := by
    refine ⟨([] : List (Nat × List UInt8)), rfl, ?_⟩
    intro msg hlen ids hnd hids hl
    obtain ⟨i, j, rfl⟩ := List.length_eq_two.mp hl
    have hij : i ≠ j := by simpa using hnd
    have hi : i < 3 := hids i (by simp)
    have hj : j < 3 := hids j (by simp)
    refine ⟨[(i, symbolOf parity.encoding 2 ss msg i),
      (j, symbolOf parity.encoding 2 ss msg j)], ?_, ?_⟩
    · have hne : (i != j) = true := bne_iff_ne.mpr hij
      have hd1 : parity.decoding.decode ([] : List (Nat × List UInt8)) i
          (symbolOf parity.encoding 2 ss msg i)
          = (.needMore, [(i, symbolOf parity.encoding 2 ss msg i)]) := rfl
      have hd2 : parity.decoding.decode [(i, symbolOf parity.encoding 2 ss msg i)] j
          (symbolOf parity.encoding 2 ss msg j)
          = (.success, [(i, symbolOf parity.encoding 2 ss msg i),
              (j, symbolOf parity.encoding 2 ss msg j)]) := by
        show (if (i != j || false) = true then Result.success else .needMore, _) = _
        rw [hne]
        rfl
      have h2 := feed_cons (p := (j, symbolOf parity.encoding 2 ss msg j)) hd2 []
      exact (feed_cons (p := (i, symbolOf parity.encoding 2 ss msg i)) hd1 _).trans h2
    · have h0 := chunk_length hlen (i := 0) (by decide)
      have h1 := chunk_length hlen (i := 1) (by decide)
      have hmsg : chunk msg ss 0 ++ chunk msg ss 1 = msg := by
        have hj := join_chunk hlen
        simpa [join, List.range_succ] using hj
      have hx1 := xorBytes_cancel (h0.trans h1.symm)
      have hx0 := xorBytes_cancel (h1.trans h0.symm)
      rw [xorBytes_comm (chunk msg ss 1) (chunk msg ss 0)] at hx0
      have s0 : symbolOf parity.encoding 2 ss msg 0 = chunk msg ss 0 := rfl
      have s1 : symbolOf parity.encoding 2 ss msg 1 = chunk msg ss 1 := rfl
      have s2 : symbolOf parity.encoding 2 ss msg 2
          = xorBytes (chunk msg ss 0) (chunk msg ss 1) := rfl
      interval_cases i <;> interval_cases j
      · exact absurd rfl hij
      · show (Result.success, _ ++ _) = _
        rw [s0, s1, hmsg]
      · show (Result.success, _ ++ xorBytes _ _) = _
        rw [s0, s2, hx1, hmsg]
      · show (Result.success, _ ++ _) = _
        rw [s0, s1, hmsg]
      · exact absurd rfl hij
      · show (Result.success, xorBytes _ _ ++ _) = _
        rw [s1, s2, hx0, hmsg]
      · show (Result.success, _ ++ xorBytes _ _) = _
        rw [s0, s2, hx1, hmsg]
      · show (Result.success, xorBytes _ _ ++ _) = _
        rw [s1, s2, hx0, hmsg]
      · exact absurd rfl hij

end ErasureCode
