import FsoGateway.Lib.Json

/-! # A JSON text that is cut off

    What the reader takes from a text it takes from any longer one, whatever
    follows: a string, an array or an object always, a number if it had ended.
    So of a text that reads as an object no part in front reads at all.

    * `value_extends` — the reader on a text and on a longer one;
    * `loads_cut` — an object that is cut off. -/

namespace Json

section Behind

variable (q : Text)

/-! ### Strings -/

theorem hexFour_append {t : Text} {r : Nat × Text} (h : hexFour t = some r) :
    hexFour (t ++ q) = some (r.1, r.2 ++ q) := by
  rw [hexFour.eq_def] at h
  split at h
  · rename_i a b c d rest
    simp only [Option.bind_eq_bind, Option.bind_eq_some_iff, Option.pure_def,
      Option.some_inj] at h
    obtain ⟨va, ha, vb, hb, vc, hc, vd, hd, rfl⟩ := h
    simp only [List.cons_append, hexFour, ha, hb, hc, hd, Option.bind_eq_bind, Option.bind_some,
      Option.pure_def]
  · exact absurd h.symm (Option.some_ne_none _)

theorem lowSurrogate_append {t : Text} {r : Nat × Text} (h : lowSurrogate t = some r) :
    lowSurrogate (t ++ q) = some (r.1, r.2 ++ q) := by
  rw [lowSurrogate.eq_def] at h
  split at h
  · obtain ⟨y, hy, hlow⟩ := Option.bind_eq_some_iff.mp h
    split at hlow
    · rename_i hcond
      cases hlow
      rw [List.cons_append, List.cons_append, lowSurrogate, hexFour_append q hy, Option.bind_some,
        if_pos hcond]
    · exact absurd hlow.symm (Option.some_ne_none _)
  · exact absurd h.symm (Option.some_ne_none _)

/-- Where no second half stands in front of the rest of a string, none stands
    there when more follows. -/
theorem lowSurrogate_none {t : Text} (h : lowSurrogate t = none) {fuel : Nat}
    (hs : (scanString fuel t).isSome = true) : lowSurrogate (t ++ q) = none := by
  have hother : ∀ t, (∀ rest, t ≠ '\\' :: 'u' :: rest) → lowSurrogate t = none := by
    intro t ht
    rw [lowSurrogate.eq_def]
    split
    · exact absurd rfl (ht _)
    · rfl
  cases fuel with
  | zero => exact absurd hs Bool.false_ne_true
  | succ fuel =>
      cases t with
      | nil => exact absurd hs Bool.false_ne_true
      | cons c t =>
          by_cases hc : c = '\\'
          · subst hc
            cases t with
            | nil => exact absurd hs Bool.false_ne_true
            | cons d t =>
                by_cases hd : d = 'u'
                · subst hd
                  cases hx : hexFour t with
                  | none =>
                      have hnone : scanString (fuel + 1) ('\\' :: 'u' :: t) = none := by
                        rw [scanString, scanChar, scanEscape, scanUnicode, hx]
                        · rfl
                        · rintro rest ⟨⟩
                      rw [hnone] at hs
                      exact absurd hs Bool.false_ne_true
                  | some y =>
                      rw [lowSurrogate, hx, Option.bind_some] at h
                      rw [List.cons_append, List.cons_append, lowSurrogate, hexFour_append q hx,
                        Option.bind_some]
                      dsimp only
                      split at h
                      · exact absurd h (Option.some_ne_none _)
                      · rename_i hlow
                        rw [if_neg hlow]
                · refine hother _ fun rest hrest => ?_
                  exact hd (List.cons.inj (List.cons.inj hrest).2).1
          · refine hother _ fun rest hrest => ?_
            exact hc (List.cons.inj hrest).1

theorem joinPair_append {r : Nat × Text} {fuel : Nat}
    (hs : (scanString fuel (joinPair r).2).isSome = true) :
    joinPair (r.1, r.2 ++ q) = ((joinPair r).1, (joinPair r).2 ++ q) := by
  rw [joinPair] at hs
  rw [joinPair, joinPair]
  by_cases hhigh : isHigh r.1 = true
  · rw [if_pos hhigh] at hs ⊢
    rw [if_pos hhigh]
    cases hlow : lowSurrogate r.2 with
    | some low => rw [lowSurrogate_append q hlow]
    | none =>
        rw [hlow] at hs
        rw [lowSurrogate_none q hlow hs]
  · rw [if_neg hhigh, if_neg hhigh]

theorem scanUnicode_append {t : Text} {r : Nat × Text} (h : scanUnicode t = some r) {fuel : Nat}
    (hs : (scanString fuel r.2).isSome = true) : scanUnicode (t ++ q) = some (r.1, r.2 ++ q) := by
  rw [scanUnicode] at h
  obtain ⟨y, hy, rfl⟩ := Option.map_eq_some_iff.mp h
  rw [scanUnicode, hexFour_append q hy, Option.map_some, joinPair_append q hs]

theorem scanEscape_append {t : Text} {r : Nat × Text} (h : scanEscape t = some r) {fuel : Nat}
    (hs : (scanString fuel r.2).isSome = true) : scanEscape (t ++ q) = some (r.1, r.2 ++ q) := by
  rw [scanEscape.eq_def] at h
  split at h
  case h_9 rest => exact scanUnicode_append q h hs
  case h_10 => exact absurd h.symm (Option.some_ne_none _)
  all_goals
    cases h
    rfl

theorem scanChar_append {t : Text} {r : Nat × Text} (h : scanChar t = some r) {fuel : Nat}
    (hs : (scanString fuel r.2).isSome = true) : scanChar (t ++ q) = some (r.1, r.2 ++ q) := by
  rw [scanChar.eq_def] at h
  split at h
  · exact absurd h.symm (Option.some_ne_none _)
  · exact scanEscape_append q h hs
  · rename_i c rest hesc
    split at h
    · exact absurd h.symm (Option.some_ne_none _)
    · rename_i hcontrol
      cases h
      rw [List.cons_append, scanChar, if_neg hcontrol]
      exact hesc

theorem scanString_cons {c : Char} (h : c ≠ '"') (fuel : Nat) (t : Text) :
    scanString (fuel + 1) (c :: t)
      = (scanChar (c :: t)).bind fun r =>
          (scanString fuel r.2).map fun s => (r.1 :: s.1, s.2) := by
  rw [scanString]
  rintro rest ⟨⟩
  exact h rfl

theorem scanString_append {fuel more : Nat} (hf : fuel ≤ more) {t : Text}
    {r : List Nat × Text} (h : scanString fuel t = some r) :
    scanString more (t ++ q) = some (r.1, r.2 ++ q) := by
  induction fuel generalizing more t r with
  | zero => exact absurd h.symm (Option.some_ne_none _)
  | succ fuel ih =>
      cases more with
      | zero => exact absurd hf (Nat.not_succ_le_zero _)
      | succ more =>
          cases t with
          | nil => exact absurd h.symm (Option.some_ne_none _)
          | cons c t =>
              by_cases hquote : c = '"'
              · subst hquote
                cases h
                rfl
              · rw [scanString_cons hquote] at h
                obtain ⟨x, hx, hrest⟩ := Option.bind_eq_some_iff.mp h
                obtain ⟨s, hs, rfl⟩ := Option.map_eq_some_iff.mp hrest
                have hsome : (scanString fuel x.2).isSome = true := by rw [hs]; rfl
                have hchar := scanChar_append q hx hsome
                rw [List.cons_append] at hchar ⊢
                rw [scanString_cons hquote, hchar, Option.bind_some,
                  ih (Nat.le_of_succ_le_succ hf) hs]
                rfl

/-! ### Numbers -/

theorem span_append {t : Text} (h : (t.span Char.isDigit).2 ≠ []) :
    (t ++ q).span Char.isDigit = ((t.span Char.isDigit).1, (t.span Char.isDigit).2 ++ q) := by
  rw [List.span_eq_takeWhile_dropWhile] at h ⊢
  rw [List.span_eq_takeWhile_dropWhile]
  replace h : t.dropWhile Char.isDigit ≠ [] := h
  have hdrop : (t.dropWhile Char.isDigit).isEmpty = false := List.isEmpty_eq_false_iff.mpr h
  have htake : (t.takeWhile Char.isDigit).length ≠ t.length := by
    intro heq
    have hlen := congrArg List.length (List.takeWhile_append_dropWhile (p := Char.isDigit) (l := t))
    rw [List.length_append] at hlen
    exact h (List.length_eq_zero_iff.mp (by omega))
  rw [List.takeWhile_append, if_neg htake, List.dropWhile_append, hdrop]
  rfl

theorem scanInteger_append {t : Text} {r : Text × Text} (h : scanInteger t = some r)
    (hr : r.2 ≠ []) : scanInteger (t ++ q) = some (r.1, r.2 ++ q) := by
  cases t with
  | nil => exact absurd h.symm (Option.some_ne_none _)
  | cons c t =>
      rw [scanInteger] at h
      rw [List.cons_append, scanInteger]
      by_cases hzero : c = '0'
      · rw [if_pos hzero] at h ⊢
        cases h
        rfl
      · rw [if_neg hzero] at h ⊢
        by_cases hdigit : c.isDigit = true
        · rw [if_pos hdigit] at h ⊢
          cases h
          rw [← List.cons_append, span_append q hr]
        · rw [if_neg hdigit] at h
          exact absurd h.symm (Option.some_ne_none _)

theorem scanFraction_other {t : Text} (h : ∀ c ∈ t.head?, c ≠ '.') : scanFraction t = none := by
  cases t with
  | nil => rfl
  | cons c t =>
      rw [scanFraction]
      rintro rest ⟨⟩
      exact h '.' rfl rfl

theorem scanFraction_append {t : Text} {r : Text × Text} (h : scanFraction t = some r)
    (hr : r.2 ≠ []) : t ≠ [] ∧ scanFraction (t ++ q) = some (r.1, r.2 ++ q) := by
  rw [scanFraction.eq_def] at h
  split at h
  · rename_i rest
    split at h
    · exact absurd h.symm (Option.some_ne_none _)
    · rename_i hdigits
      cases h
      refine ⟨List.cons_ne_nil _ _, ?_⟩
      rw [List.cons_append, scanFraction, span_append q hr, if_neg hdigits]
  · exact absurd h.symm (Option.some_ne_none _)

theorem scanPower_append {negative : Bool} {t : Text} {r : Int × Text}
    (h : scanPower negative t = some r) (hr : r.2 ≠ []) :
    scanPower negative (t ++ q) = some (r.1, r.2 ++ q) := by
  rw [scanPower] at h
  split at h
  · exact absurd h.symm (Option.some_ne_none _)
  · rename_i hdigits
    cases h
    rw [scanPower, span_append q hr, if_neg hdigits]

theorem scanSignedPower_append {t : Text} {r : Int × Text} (h : scanSignedPower t = some r)
    (hr : r.2 ≠ []) : scanSignedPower (t ++ q) = some (r.1, r.2 ++ q) := by
  rw [scanSignedPower.eq_def] at h
  split at h
  · exact scanPower_append q h hr
  · exact scanPower_append q h hr
  · rename_i hminus hplus
    cases t with
    | nil => exact absurd h.symm (Option.some_ne_none _)
    | cons c t =>
        rw [List.cons_append, scanSignedPower]
        · exact scanPower_append q h hr
        · rintro rest ⟨⟩
          exact hminus _ rfl
        · rintro rest ⟨⟩
          exact hplus _ rfl

theorem scanExponent_append {t : Text} {r : Int × Text} (h : scanExponent t = some r)
    (hr : r.2 ≠ []) :
    (∃ c cs, t = c :: cs ∧ c ≠ '.') ∧ scanExponent (t ++ q) = some (r.1, r.2 ++ q) := by
  cases t with
  | nil => exact absurd h.symm (Option.some_ne_none _)
  | cons c t =>
      rw [scanExponent] at h
      split at h
      · rename_i hc
        refine ⟨⟨c, t, rfl, ?_⟩, ?_⟩
        · rintro rfl
          exact absurd hc (by decide)
        · rw [List.cons_append, scanExponent, if_pos hc, scanSignedPower_append q h hr]
      · exact absurd h.symm (Option.some_ne_none _)

theorem ends_append {t : Text} (h : Ends t) (hne : t ≠ []) : Ends (t ++ q) := by
  cases t with
  | nil => exact absurd rfl hne
  | cons c t => exact ends_cons (h c rfl) (t ++ q)

/-- A number that has ended. -/
theorem scanUnsigned_append {negative : Bool} {t : Text} {r : Value × Text}
    (h : scanUnsigned negative t = some r) (hr : r.2 ≠ []) (hends : Ends r.2) :
    scanUnsigned negative (t ++ q) = some (r.1, r.2 ++ q) := by
  obtain ⟨i, hi, rfl⟩ := Option.map_eq_some_iff.mp h
  rw [scanUnsigned]
  dsimp only at hr hends ⊢
  cases hf : scanFraction i.2 with
  | some f =>
      rw [hf] at hr hends
      dsimp only at hr hends ⊢
      cases he : scanExponent f.2 with
      | some e =>
          rw [he] at hr
          obtain ⟨⟨c, cs, hc, -⟩, hexp⟩ := scanExponent_append q he hr
          have hfne : f.2 ≠ [] := by
            rw [hc]
            exact List.cons_ne_nil _ _
          obtain ⟨hine, hfrac⟩ := scanFraction_append q hf hfne
          rw [scanInteger_append q hi hine, Option.map_some]
          simp only [hfrac, hexp, Option.map_some]
      | none =>
          rw [he] at hr hends
          obtain ⟨hine, hfrac⟩ := scanFraction_append q hf hr
          rw [scanInteger_append q hi hine, Option.map_some]
          simp only [hfrac, scanExponent_none (ends_append q hends hr), Option.map_some,
            Option.map_none]
  | none =>
      rw [hf] at hr hends
      dsimp only at hr hends ⊢
      cases he : scanExponent i.2 with
      | some e =>
          rw [he] at hr
          obtain ⟨⟨c, cs, hc, hpoint⟩, hexp⟩ := scanExponent_append q he hr
          have hine : i.2 ≠ [] := by
            rw [hc]
            exact List.cons_ne_nil _ _
          have hfrac : scanFraction (i.2 ++ q) = none := by
            refine scanFraction_other ?_
            rw [hc]
            rintro d ⟨⟩
            exact hpoint
          rw [scanInteger_append q hi hine, Option.map_some]
          simp only [hfrac, hexp, Option.map_some, Option.map_none]
      | none =>
          rw [he] at hr hends
          have hends' := ends_append q hends hr
          rw [scanInteger_append q hi hr, Option.map_some]
          simp only [scanFraction_none hends', scanExponent_none hends', Option.map_none]

theorem scanNumber_append {t : Text} {r : Value × Text} (h : scanNumber t = some r)
    (hr : r.2 ≠ []) (hends : Ends r.2) : scanNumber (t ++ q) = some (r.1, r.2 ++ q) := by
  rw [scanNumber.eq_def] at h
  split at h
  · exact scanUnsigned_append q h hr hends
  · rename_i hminus
    cases t with
    | nil => exact absurd h.symm (Option.some_ne_none _)
    | cons c t =>
        rw [List.cons_append, scanNumber]
        · exact scanUnsigned_append q h hr hends
        · rintro rest ⟨⟩
          exact hminus _ rfl

theorem scanWord_append {word : Text} {v : Value} {t : Text} {r : Value × Text}
    (h : scanWord word v t = some r) : scanWord word v (t ++ q) = some (r.1, r.2 ++ q) := by
  rw [scanWord] at h
  split at h
  · rename_i hword
    cases h
    have hfront := List.isPrefixOf_iff_prefix.mp hword
    have hmore : word.isPrefixOf (t ++ q) = true :=
      List.isPrefixOf_iff_prefix.mpr (hfront.trans (List.prefix_append t q))
    rw [scanWord, if_pos hmore, List.drop_append_of_le_length hfront.length_le]
  · exact absurd h.symm (Option.some_ne_none _)

theorem scanScalar_append {t : Text} {r : Value × Text} (h : scanScalar t = some r)
    (hr : r.2 ≠ []) (hends : Ends r.2) : scanScalar (t ++ q) = some (r.1, r.2 ++ q) := by
  cases t with
  | nil => exact absurd h.symm (Option.some_ne_none _)
  | cons c t =>
      rw [scanScalar] at h
      rw [List.cons_append, scanScalar, ← List.cons_append]
      cases hword : wordOf c with
      | some w =>
          rw [hword] at h
          exact scanWord_append q h
      | none =>
          rw [hword] at h
          dsimp only at h ⊢
          cases hminus : scanMinus (c :: t) with
          | some m =>
              rw [hminus] at h
              cases h
              rw [scanMinus] at hminus ⊢
              rw [scanWord_append q hminus]
              rfl
          | none =>
              rw [hminus] at h
              have hnumber := scanNumber_append q (show scanNumber (c :: t) = some r from h) hr hends
              rw [scanMinus_number hnumber, hnumber]
              rfl

/-! ### Arrays and objects -/

/-- A character that stands between or behind the parts of a value. -/
theorem skip_append {t rest : Text} {c : Char} (h : skip t = c :: rest)
    (hc : c = ',' ∨ c = ']' ∨ c = '}' ∨ c = ':') :
    t ≠ [] ∧ Ends t ∧ skip (t ++ q) = c :: (rest ++ q) := by
  cases t with
  | nil => exact absurd h (List.cons_ne_nil _ _).symm
  | cons d t =>
      have hends : d.isDigit = false ∧ d ≠ '.' ∧ d ≠ 'e' ∧ d ≠ 'E' := by
        by_cases hspace : isSpace d = true
        · rw [isSpace] at hspace
          simp only [Bool.or_eq_true, beq_iff_eq] at hspace
          obtain ((rfl | rfl) | rfl) | rfl := hspace <;> decide
        · rw [skip_cons (Bool.not_eq_true _ ▸ hspace)] at h
          cases h
          obtain rfl | rfl | rfl | rfl := hc <;> decide
      refine ⟨List.cons_ne_nil _ _, ends_cons hends t, ?_⟩
      rw [skip] at h ⊢
      rw [List.dropWhile_append, h]
      rfl

theorem skip_append_self {t : Text} (h : skip t ≠ []) : skip (t ++ q) = skip t ++ q := by
  rw [skip] at h ⊢
  rw [List.dropWhile_append, if_neg, skip]
  rw [List.isEmpty_iff]
  exact h

/-- A reader of values takes what another one takes, if more follows. -/
def Extends (f g : Text → Option (Value × Text)) : Prop :=
  f [] = none ∧ ∀ t r, f t = some r → r.2 ≠ [] → Ends r.2 → g (t ++ q) = some (r.1, r.2 ++ q)

theorem elements_append {f g : Text → Option (Value × Text)} (hfg : Extends q f g) {n m : Nat}
    (hnm : n ≤ m) {t : Text} {r : List Value × Text} (h : elements f n t = some r) :
    elements g m (t ++ q) = some (r.1, r.2 ++ q) := by
  induction n generalizing m t r with
  | zero => exact absurd h.symm (Option.some_ne_none _)
  | succ n ih =>
      cases m with
      | zero => exact absurd hnm (Nat.not_succ_le_zero _)
      | succ m =>
          rw [elements] at h
          obtain ⟨v, hv, hrest⟩ := Option.bind_eq_some_iff.mp h
          split at hrest
          · rename_i rest hskip
            cases hrest
            obtain ⟨hne, hends, hmore⟩ := skip_append q hskip (Or.inr (Or.inl rfl))
            rw [elements, hfg.2 t v hv hne hends, Option.bind_some]
            simp only [hmore]
          · rename_i rest hskip
            obtain ⟨vs, hvs, rfl⟩ := Option.map_eq_some_iff.mp hrest
            obtain ⟨hne, hends, hmore⟩ := skip_append q hskip (Or.inl rfl)
            have hgoes : skip rest ≠ [] := by
              intro hempty
              rw [hempty] at hvs
              cases n with
              | zero => exact absurd hvs.symm (Option.some_ne_none _)
              | succ n =>
                  rw [elements, hfg.1] at hvs
                  exact absurd hvs.symm (Option.some_ne_none _)
            rw [elements, hfg.2 t v hv hne hends, Option.bind_some]
            simp only [hmore, skip_append_self q hgoes, ih (Nat.le_of_succ_le_succ hnm) hvs,
              Option.map_some]
          · exact absurd hrest.symm (Option.some_ne_none _)

theorem scanName_append {n m : Nat} (hnm : n ≤ m) {t : Text} {r : List Nat × Text}
    (h : scanName n t = some r) (hr : r.2 ≠ []) :
    scanName m (t ++ q) = some (r.1, r.2 ++ q) := by
  rw [scanName] at h
  obtain ⟨k, hk, hrest⟩ := Option.bind_eq_some_iff.mp h
  split at hrest
  · rename_i rest hskip
    cases hrest
    obtain ⟨-, -, hmore⟩ := skip_append q hskip (Or.inr (Or.inr (Or.inr rfl)))
    rw [scanName, scanString_append q hnm hk, Option.bind_some]
    simp only [hmore, skip_append_self q hr]
  · exact absurd hrest.symm (Option.some_ne_none _)

theorem members_append {f g : Text → Option (Value × Text)} (hfg : Extends q f g) {n m : Nat}
    (hnm : n ≤ m) {t : Text} {r : List (List Nat × Value) × Text} (h : members f n t = some r) :
    (∃ rest, t = '"' :: rest) ∧ members g m (t ++ q) = some (r.1, r.2 ++ q) := by
  induction n generalizing m t r with
  | zero => exact absurd h.symm (Option.some_ne_none _)
  | succ n ih =>
      cases m with
      | zero => exact absurd hnm (Nat.not_succ_le_zero _)
      | succ m =>
          have hnm' := Nat.le_of_succ_le_succ hnm
          cases t with
          | nil => exact absurd h.symm (Option.some_ne_none _)
          | cons c rest =>
              by_cases hquote : c = '"'
              · subst hquote
                refine ⟨⟨rest, rfl⟩, ?_⟩
                rw [members] at h
                obtain ⟨k, hk, hbody⟩ := Option.bind_eq_some_iff.mp h
                obtain ⟨v, hv, hrest⟩ := Option.bind_eq_some_iff.mp hbody
                have hkne : k.2 ≠ [] := by
                  intro hempty
                  rw [hempty, hfg.1] at hv
                  exact absurd hv.symm (Option.some_ne_none _)
                have hname := scanName_append q hnm' hk hkne
                split at hrest
                · rename_i after hskip
                  cases hrest
                  obtain ⟨hne, hends, hmore⟩ := skip_append q hskip (Or.inr (Or.inr (Or.inl rfl)))
                  rw [List.cons_append, members, hname, Option.bind_some, hfg.2 _ v hv hne hends,
                    Option.bind_some]
                  simp only [hmore]
                · rename_i after hskip
                  obtain ⟨ms, hms, rfl⟩ := Option.map_eq_some_iff.mp hrest
                  obtain ⟨hne, hends, hmore⟩ := skip_append q hskip (Or.inl rfl)
                  obtain ⟨⟨more, hhead⟩, hnext⟩ := ih hnm' hms
                  have hgoes : skip after ≠ [] := by
                    rw [hhead]
                    exact List.cons_ne_nil _ _
                  rw [List.cons_append, members, hname, Option.bind_some, hfg.2 _ v hv hne hends,
                    Option.bind_some]
                  simp only [hmore, skip_append_self q hgoes, hnext, Option.map_some]
                · exact absurd hrest.symm (Option.some_ne_none _)
              · have hnone : members f (n + 1) (c :: rest) = none := by
                  rw [members]
                  rintro more ⟨⟩
                  exact hquote rfl
                rw [hnone] at h
                exact absurd h.symm (Option.some_ne_none _)

theorem scanObject_append {f g : Text → Option (Value × Text)} (hfg : Extends q f g) {n m : Nat}
    (hnm : n ≤ m) {t : Text} {r : Value × Text} (h : scanObject (members f n) (skip t) = some r) :
    scanObject (members g m) (skip (t ++ q)) = some (r.1, r.2 ++ q) := by
  rw [scanObject.eq_def] at h
  split at h
  · rename_i rest hskip
    cases h
    rw [(skip_append q hskip (Or.inr (Or.inr (Or.inl rfl)))).2.2]
    rfl
  · obtain ⟨ms, hms, rfl⟩ := Option.map_eq_some_iff.mp h
    obtain ⟨⟨rest, hhead⟩, hmore⟩ := members_append q hfg hnm hms
    rw [hhead] at hmore
    rw [skip_append_self q (by rw [hhead]; exact List.cons_ne_nil _ _), hhead, List.cons_append,
      scanObject, ← List.cons_append, hmore]
    · rfl
    · rintro more ⟨⟩

theorem scanArray_append {f g : Text → Option (Value × Text)} (hfg : Extends q f g) {n m : Nat}
    (hnm : n ≤ m) {t : Text} {r : Value × Text} (h : scanArray (elements f n) (skip t) = some r) :
    scanArray (elements g m) (skip (t ++ q)) = some (r.1, r.2 ++ q) := by
  rw [scanArray.eq_def] at h
  split at h
  · rename_i rest hskip
    cases h
    rw [(skip_append q hskip (Or.inr (Or.inl rfl))).2.2]
    rfl
  · rename_i hclose
    obtain ⟨vs, hvs, rfl⟩ := Option.map_eq_some_iff.mp h
    have hmore := elements_append q hfg hnm hvs
    cases hhead : skip t with
    | nil =>
        rw [hhead] at hvs
        cases n with
        | zero => exact absurd hvs.symm (Option.some_ne_none _)
        | succ n =>
            rw [elements, hfg.1] at hvs
            exact absurd hvs.symm (Option.some_ne_none _)
    | cons c rest =>
        rw [hhead] at hmore
        rw [skip_append_self q (by rw [hhead]; exact List.cons_ne_nil _ _), hhead, List.cons_append,
          scanArray, ← List.cons_append, hmore]
        · rfl
        · rintro more ⟨⟩
          exact hclose _ hhead

/-- **What is taken as a value** is taken from a longer text, if it has ended. -/
theorem value_extends {fuel more : Nat} (hf : fuel ≤ more) :
    Extends q (value fuel) (value more) := by
  induction fuel generalizing more with
  | zero => exact ⟨rfl, fun t r h => absurd h.symm (Option.some_ne_none _)⟩
  | succ fuel ih =>
      refine ⟨rfl, fun t r h hr hends => ?_⟩
      cases more with
      | zero => exact absurd hf (Nat.not_succ_le_zero _)
      | succ more =>
          have hf' := Nat.le_of_succ_le_succ hf
          cases t with
          | nil => exact absurd h.symm (Option.some_ne_none _)
          | cons c t =>
              by_cases hquote : c = '"'
              · subst hquote
                obtain ⟨s, hs, rfl⟩ := Option.map_eq_some_iff.mp h
                rw [List.cons_append, value, scanString_append q hf' hs]
                rfl
              by_cases hbracket : c = '['
              · subst hbracket
                exact scanArray_append q (ih hf') hf' h
              by_cases hbrace : c = '{'
              · subst hbrace
                exact scanObject_append q (ih hf') hf' h
              rw [value_scalar ⟨hquote, hbracket, hbrace⟩] at h
              rw [List.cons_append, value_scalar ⟨hquote, hbracket, hbrace⟩]
              exact scanScalar_append q h hr hends

end Behind

/-- **A text that is cut off** within its object is not read. -/
theorem loads_cut {t q : Text} {v : Value} (h : Reads ('{' :: (t ++ q)) v) (hq : q ≠ []) :
    loads ('{' :: t) = none := by
  cases hloads : loads ('{' :: t) with
  | none => rfl
  | some w =>
      rw [loads, skip_cons rfl] at hloads
      obtain ⟨r, hr, hrest⟩ := Option.bind_eq_some_iff.mp hloads
      have hle : t.length + 1 ≤ (t ++ q).length + 1 := by
        rw [List.length_append]
        omega
      have hcut := scanObject_append q (value_extends q hle) hle hr
      have hwhole := h ((t ++ q).length + 2) [] (Nat.lt_succ_self _) ends_nil
      rw [List.append_nil] at hwhole
      have heq := hcut.symm.trans hwhole
      have hnil : r.2 ++ q = [] := congrArg Prod.snd (Option.some_inj.mp heq)
      exact absurd (List.append_eq_nil_iff.mp hnil).2 hq

end Json
