import Mathlib.Data.List.Basic
import Mathlib.Logic.Function.Basic
import FsoGateway.Lib.Scan

/-! # Pools of slots

    A pool has `n` slots.  A slot is opened for an id, fills, is frozen, and
    is left: by way of a reason that ends a filling slot or one that ends a
    frozen slot.  `Step` is one such transition, `Trace` a sequence of them.

    * `Trace.occupied` — opened slots were left or are occupied;
    * `Trace.filling` — opened slots were frozen, discarded or are filling;
    * `Trace.frozen` — frozen slots were released or are frozen. -/

namespace SlotPool

variable {ι ρ : Type}

/-- What a slot is doing; the number counts what was stored in it. -/
inductive Phase (ι : Type) where
  | empty
  | filling (id : ι) (count : Nat)
  | frozen (id : ι) (count : Nat)

def Phase.isOccupied : Phase ι → Bool
  | .empty => false
  | _ => true

def Phase.isFilling : Phase ι → Bool
  | .filling _ _ => true
  | _ => false

def Phase.isFrozen : Phase ι → Bool
  | .frozen _ _ => true
  | _ => false

/-- One transition of one slot. -/
inductive Event (ι ρ : Type) where
  | opened (slot : Nat) (id : ι)
  | stored (slot : Nat) (id : ι)
  | froze (slot : Nat) (id : ι)
  | left (slot : Nat) (id : ι) (reason : ρ)

def Event.isOpened : Event ι ρ → Bool
  | .opened _ _ => true
  | _ => false

def Event.isStored : Event ι ρ → Bool
  | .stored _ _ => true
  | _ => false

def Event.isFroze : Event ι ρ → Bool
  | .froze _ _ => true
  | _ => false

/-- A slot is left with a reason that `p` holds of. -/
def Event.isLeft (p : ρ → Bool) : Event ι ρ → Bool
  | .left _ _ r => p r
  | _ => false

/-- The id and the reason with which a slot is left. -/
def Event.exit : Event ι ρ → Option (ι × ρ)
  | .left _ id r => some (id, r)
  | _ => none

section Pool

variable {n : Nat} {early : ρ → Bool}

/-- **The transitions.**  A reason of `early` ends a filling slot, any other
    one a frozen slot. -/
inductive Step (n : Nat) (early : ρ → Bool) (p : Nat → Phase ι) :
    Event ι ρ → (Nat → Phase ι) → Prop where
  | opened {i : Nat} {id : ι} (hi : i < n) (h : p i = .empty) :
      Step n early p (.opened i id) (Function.update p i (.filling id 0))
  | stored {i c : Nat} {id : ι} (hi : i < n) (h : p i = .filling id c) :
      Step n early p (.stored i id) (Function.update p i (.filling id (c + 1)))
  | froze {i c : Nat} {id : ι} (hi : i < n) (h : p i = .filling id c) :
      Step n early p (.froze i id) (Function.update p i (.frozen id c))
  | discarded {i c : Nat} {id : ι} {r : ρ} (hi : i < n) (h : p i = .filling id c)
      (hr : early r = true) : Step n early p (.left i id r) (Function.update p i .empty)
  | released {i c : Nat} {id : ι} {r : ρ} (hi : i < n) (h : p i = .frozen id c)
      (hr : early r = false) : Step n early p (.left i id r) (Function.update p i .empty)

/-- A sequence of transitions. -/
inductive Trace (n : Nat) (early : ρ → Bool) :
    (Nat → Phase ι) → List (Event ι ρ) → (Nat → Phase ι) → Prop where
  | nil (p : Nat → Phase ι) : Trace n early p [] p
  | cons {p q r : Nat → Phase ι} {e : Event ι ρ} {es : List (Event ι ρ)}
      (h : Step n early p e q) (ht : Trace n early q es r) : Trace n early p (e :: es) r

theorem Trace.append {p q r : Nat → Phase ι} {es es' : List (Event ι ρ)}
    (h : Trace n early p es q) (h' : Trace n early q es' r) :
    Trace n early p (es ++ es') r := by
  induction h with
  | nil p => exact h'
  | cons hs _ ih => exact .cons hs (ih h')

theorem Trace.single {p q : Nat → Phase ι} {e : Event ι ρ} (h : Step n early p e q) :
    Trace n early p [e] q := .cons h (.nil q)

/-! ## Counting -/

/-- The number of slots with a property. -/
def slotCount (n : Nat) (P : Phase ι → Bool) (p : Nat → Phase ι) : Nat :=
  (List.range n).countP fun i => P (p i)

/-- Rewriting one slot exchanges what it counts for. -/
theorem slotCount_update (P : Phase ι → Bool) (p : Nat → Phase ι) {i : Nat} (hi : i < n)
    (v : Phase ι) :
    slotCount n P (Function.update p i v) + (P (p i)).toNat
      = slotCount n P p + (P v).toNat := Scan.countP_update P p hi v

/-- **Conservation**, for a property of slots and two kinds of events, those
    that bring a slot into it and those that take one out. -/
theorem Trace.conserved {P : Phase ι → Bool} {gain loss : Event ι ρ → Bool}
    (hstep : ∀ {p q : Nat → Phase ι} {e : Event ι ρ}, Step n early p e q →
      slotCount n P p + (gain e).toNat = slotCount n P q + (loss e).toNat)
    {p q : Nat → Phase ι} {es : List (Event ι ρ)} (h : Trace n early p es q) :
    slotCount n P p + es.countP gain = slotCount n P q + es.countP loss := by
  induction h with
  | nil p => rfl
  | @cons p q r e es hs _ ih =>
      have h1 := hstep hs
      rw [List.countP_cons, List.countP_cons]
      cases hg : gain e <;> cases hl : loss e <;> simp only [hg, hl, Bool.toNat_true,
        Bool.toNat_false, Bool.false_eq_true, if_true, if_false] at h1 ⊢ <;> omega

/-- A slot that was opened was left, or is occupied. -/
theorem Trace.occupied {p q : Nat → Phase ι} {es : List (Event ι ρ)}
    (h : Trace n early p es q) :
    slotCount n Phase.isOccupied p + es.countP Event.isOpened
      = slotCount n Phase.isOccupied q + es.countP (Event.isLeft fun _ => true) := by
  refine h.conserved fun {p q e} hs => ?_
  cases hs with
  | @opened i id hi h =>
      have h1 := slotCount_update Phase.isOccupied p hi (.filling id 0)
      rw [h] at h1
      exact h1.symm
  | @stored i c id hi h =>
      have h1 := slotCount_update Phase.isOccupied p hi (.filling id (c + 1))
      rw [h] at h1
      exact (Nat.add_right_cancel h1).symm
  | @froze i c id hi h =>
      have h1 := slotCount_update Phase.isOccupied p hi (.frozen id c)
      rw [h] at h1
      exact (Nat.add_right_cancel h1).symm
  | @discarded i c id r hi h hr =>
      have h1 := slotCount_update Phase.isOccupied p hi .empty
      rw [h] at h1
      exact h1.symm
  | @released i c id r hi h hr =>
      have h1 := slotCount_update Phase.isOccupied p hi .empty
      rw [h] at h1
      exact h1.symm

/-- The events by which a slot stops filling. -/
def Event.endsFilling (early : ρ → Bool) (e : Event ι ρ) : Bool :=
  e.isFroze || e.isLeft early

/-- A slot that was opened was frozen, left early, or is filling. -/
theorem Trace.filling {p q : Nat → Phase ι} {es : List (Event ι ρ)}
    (h : Trace n early p es q) :
    slotCount n Phase.isFilling p + es.countP Event.isOpened
      = slotCount n Phase.isFilling q + es.countP (Event.endsFilling early) := by
  refine h.conserved fun {p q e} hs => ?_
  cases hs with
  | @opened i id hi h =>
      have h1 := slotCount_update Phase.isFilling p hi (.filling id 0)
      rw [h] at h1
      exact h1.symm
  | @stored i c id hi h =>
      have h1 := slotCount_update Phase.isFilling p hi (.filling id (c + 1))
      rw [h] at h1
      exact (Nat.add_right_cancel h1).symm
  | @froze i c id hi h =>
      have h1 := slotCount_update Phase.isFilling p hi (.frozen id c)
      rw [h] at h1
      exact h1.symm
  | @discarded i c id r hi h hr =>
      have h1 := slotCount_update Phase.isFilling p hi .empty
      rw [h] at h1
      have h2 : Event.endsFilling early (.left i id r) = true := hr
      rw [h2]
      exact h1.symm
  | @released i c id r hi h hr =>
      have h1 := slotCount_update Phase.isFilling p hi .empty
      rw [h] at h1
      have h2 : Event.endsFilling early (.left i id r) = false := hr
      rw [h2]
      exact h1.symm

/-- A slot that was frozen was left late, or is frozen. -/
theorem Trace.frozen {p q : Nat → Phase ι} {es : List (Event ι ρ)}
    (h : Trace n early p es q) :
    slotCount n Phase.isFrozen p + es.countP Event.isFroze
      = slotCount n Phase.isFrozen q
        + es.countP (Event.isLeft fun r => !early r) := by
  refine h.conserved fun {p q e} hs => ?_
  cases hs with
  | @opened i id hi h =>
      have h1 := slotCount_update Phase.isFrozen p hi (.filling id 0)
      rw [h] at h1
      exact h1.symm
  | @stored i c id hi h =>
      have h1 := slotCount_update Phase.isFrozen p hi (.filling id (c + 1))
      rw [h] at h1
      exact h1.symm
  | @froze i c id hi h =>
      have h1 := slotCount_update Phase.isFrozen p hi (.frozen id c)
      rw [h] at h1
      exact h1.symm
  | @discarded i c id r hi h hr =>
      have h1 := slotCount_update Phase.isFrozen p hi .empty
      rw [h] at h1
      have h2 : Event.isLeft (fun r => !early r) (.left i id r) = false :=
        congrArg not hr
      rw [h2]
      exact h1.symm
  | @released i c id r hi h hr =>
      have h1 := slotCount_update Phase.isFrozen p hi .empty
      rw [h] at h1
      have h2 : Event.isLeft (fun r => !early r) (.left i id r) = true :=
        congrArg not hr
      rw [h2]
      exact h1.symm

end Pool

/-- The ways of leaving that two disjoint sets of reasons stand for. -/
theorem countP_isLeft_or {p q : ρ → Bool} (h : ∀ r, p r = true → q r = false)
    (es : List (Event ι ρ)) :
    es.countP (Event.isLeft fun r => p r || q r)
      = es.countP (Event.isLeft p) + es.countP (Event.isLeft q) := by
  induction es with
  | nil => rfl
  | cons e es ih =>
      rw [List.countP_cons, List.countP_cons, List.countP_cons, ih]
      cases e with
      | left i id r =>
          cases hp : p r with
          | true =>
              simp only [Event.isLeft, hp, h r hp, Bool.true_or, if_true,
                Bool.false_eq_true, if_false]
              omega
          | false =>
              cases hq : q r <;> simp only [Event.isLeft, hp, hq, Bool.false_or,
                Bool.false_eq_true, if_true, if_false] <;> omega
      | _ => rfl

/-- Freezing is not leaving. -/
theorem countP_endsFilling (early : ρ → Bool) (es : List (Event ι ρ)) :
    es.countP (Event.endsFilling early)
      = es.countP Event.isFroze + es.countP (Event.isLeft early) := by
  induction es with
  | nil => rfl
  | cons e es ih =>
      rw [List.countP_cons, List.countP_cons, List.countP_cons, ih]
      cases e with
      | left i id r =>
          cases he : early r <;> simp only [Event.endsFilling, Event.isFroze,
            Event.isLeft, he, Bool.false_or, if_true, Bool.false_eq_true,
            if_false] <;> omega
      | froze i id =>
          simp only [Event.endsFilling, Event.isFroze, Event.isLeft, Bool.true_or,
            if_true, Bool.false_eq_true, if_false]
          omega
      | _ => rfl

/-- The exits are the events that leave a slot. -/
theorem countP_exits (p : ρ → Bool) (es : List (Event ι ρ)) :
    (es.filterMap Event.exit).countP (fun e => p e.2) = es.countP (Event.isLeft p) := by
  rw [List.countP_filterMap]
  refine List.countP_congr fun e _ => ?_
  cases e <;> exact Iff.rfl

theorem length_exits (es : List (Event ι ρ)) :
    (es.filterMap Event.exit).length = es.countP (Event.isLeft fun _ => true) := by
  rw [← countP_exits fun _ => true, List.countP_true]

end SlotPool
