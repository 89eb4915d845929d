import Mathlib.Data.List.Basic

/-! # Reflected cyclic redundancy checks

    The shift register of a reflected CRC of width `w`, one bit at a time, and
    the byte steps made of it.  Nothing here depends on the polynomial beyond
    its top coefficient.

    * `bitSteps_xor` — stepping is linear in exclusive or;
    * `bitSteps_injective` — a register can be stepped backwards, provided the
      polynomial has its top bit;
    * `byteStep_table` — eight steps are one look-up in a table of 256 words;
    * `update_eq_serial` — bytes that go into the register whole are bits that
      go in one by one, the lowest bit of each byte first;
    * `update_eq_pack` — as long as they fit into the register, bytes that go
      in one after the other have gone in all at once (`pack`);
    * `update_burst` — a run of bytes no longer than the register is determined
      by the registers before the first and after the last byte;
    * `update_window` — the same for two messages that differ inside a window
      only. -/

namespace Crc

variable {w : Nat} (poly : BitVec w)

/-- One bit of the register. -/
def bitStep (c : BitVec w) : BitVec w :=
  if c.getLsbD 0 then (c >>> 1) ^^^ poly else c >>> 1

/-- `n` bits of the register. -/
def bitSteps : Nat → BitVec w → BitVec w
  | 0, c => c
  | n + 1, c => bitSteps n (bitStep poly c)

/-- One byte: it goes into the low end of the register, then eight bits. -/
def byteStep (c : BitVec w) (b : BitVec 8) : BitVec w :=
  bitSteps poly 8 (c ^^^ b.setWidth w)

/-- The register after a run of bytes. -/
def update (c : BitVec w) (bs : List (BitVec 8)) : BitVec w :=
  bs.foldl (byteStep poly) c

theorem bitStep_xor (a b : BitVec w) :
    bitStep poly (a ^^^ b) = bitStep poly a ^^^ bitStep poly b := by
  simp only [bitStep, BitVec.getLsbD_xor, BitVec.ushiftRight_xor_distrib]
  cases ha : a.getLsbD 0 <;> cases hb : b.getLsbD 0
  · simp
  · simp [BitVec.xor_assoc]
  · simp only [Bool.xor_false, Bool.false_eq_true, if_true, if_false]
    rw [BitVec.xor_assoc, BitVec.xor_comm (b >>> 1), ← BitVec.xor_assoc]
  · simp only [Bool.xor_self, Bool.false_eq_true, if_true, if_false]
    rw [BitVec.xor_assoc, BitVec.xor_comm (b >>> 1), ← BitVec.xor_assoc poly,
      BitVec.xor_self, BitVec.zero_xor]

theorem bitSteps_xor (n : Nat) (a b : BitVec w) :
    bitSteps poly n (a ^^^ b) = bitSteps poly n a ^^^ bitSteps poly n b := by
  induction n generalizing a b with
  | zero => rfl
  | succ n ih => simp only [bitSteps, bitStep_xor, ih]

theorem bitSteps_add (n m : Nat) (c : BitVec w) :
    bitSteps poly (n + m) c = bitSteps poly m (bitSteps poly n c) := by
  induction n generalizing c with
  | zero => simp [bitSteps]
  | succ n ih =>
      rw [Nat.succ_add]
      exact ih (bitStep poly c)

/-! ## Backwards -/

/-- The bit that leaves the register can be read off the top of the next one:
    the polynomial puts a one there, the shift a zero. -/
theorem bitStep_top (hw : 0 < w) (hp : poly.getLsbD (w - 1) = true) (c : BitVec w) :
    (bitStep poly c).getLsbD (w - 1) = c.getLsbD 0 := by
  have hs : (c >>> 1).getLsbD (w - 1) = false := by
    rw [BitVec.getLsbD_ushiftRight]
    exact BitVec.getLsbD_of_ge c _ (by omega)
  cases hc : c.getLsbD 0 with
  | false => simp only [bitStep, hc, Bool.false_eq_true, if_false, hs]
  | true => simp only [bitStep, hc, if_true, BitVec.getLsbD_xor, hs, hp, Bool.false_xor]

theorem bitStep_injective (hw : 0 < w) (hp : poly.getLsbD (w - 1) = true) :
    Function.Injective (bitStep poly) := by
  intro a b h
  have h0 : a.getLsbD 0 = b.getLsbD 0 := by
    rw [← bitStep_top poly hw hp a, ← bitStep_top poly hw hp b, h]
  have hs : a >>> 1 = b >>> 1 := by
    cases hb : b.getLsbD 0 with
    | false => simpa [bitStep, h0, hb] using h
    | true => simpa [bitStep, h0, hb] using h
  apply BitVec.eq_of_getLsbD_eq
  intro i _
  cases i with
  | zero => exact h0
  | succ i =>
      have := congrArg (BitVec.getLsbD · i) hs
      simpa [BitVec.getLsbD_ushiftRight, Nat.add_comm] using this

theorem bitSteps_injective (hw : 0 < w) (hp : poly.getLsbD (w - 1) = true) (n : Nat) :
    Function.Injective (bitSteps poly n) := by
  induction n with
  | zero => exact fun _ _ h => h
  | succ n ih => exact ih.comp (bitStep_injective poly hw hp)

theorem update_injective (hw : 0 < w) (hp : poly.getLsbD (w - 1) = true)
    (bs : List (BitVec 8)) : Function.Injective (update poly · bs) := by
  induction bs with
  | nil => exact fun _ _ h => h
  | cons b bs ih =>
      intro a c h
      have h8 : byteStep poly a b = byteStep poly c b := ih h
      exact (BitVec.xor_left_inj _).mp (bitSteps_injective poly hw hp 8 h8)

/-! ## Bits that have not reached the low end -/

/-- Bits above the low end only move down. -/
theorem bitSteps_high (n : Nat) (y : BitVec w) (hy : ∀ i < n, y.getLsbD i = false) :
    bitSteps poly n y = y >>> n := by
  induction n generalizing y with
  | zero => simp [bitSteps]
  | succ n ih =>
      have h0 : bitStep poly y = y >>> 1 := by
        simp [bitStep, hy 0 (Nat.succ_pos n)]
      rw [bitSteps, h0, ih (y >>> 1), Nat.add_comm, BitVec.shiftRight_add]
      intro i hi
      rw [BitVec.getLsbD_ushiftRight]
      exact hy (1 + i) (by omega)

/-- **A byte at a time from a table**: eight steps are the table's word for the
    low byte and the rest of the register moved down. -/
theorem byteStep_table (c : BitVec w) :
    bitSteps poly 8 c = bitSteps poly 8 (c &&& 255#w) ^^^ (c >>> 8) := by
  have h255 : ∀ i, (255#w).getLsbD i = (decide (i < w) && decide (i < 8)) := by
    intro i
    rw [BitVec.getLsbD_ofNat, show (255 : Nat) = 2 ^ 8 - 1 by rfl,
      Nat.testBit_two_pow_sub_one]
  -- the two parts move independently
  have hsplit : c = (c &&& 255#w) ^^^ (c &&& ~~~255#w) := by
    apply BitVec.eq_of_getLsbD_eq
    intro i hi
    simp only [BitVec.getLsbD_xor, BitVec.getLsbD_and, BitVec.getLsbD_not, h255]
    cases c.getLsbD i <;> cases decide (i < 8) <;> simp [hi]
  have hlow : ∀ i < 8, (c &&& ~~~255#w).getLsbD i = false := by
    intro i hi
    simp only [BitVec.getLsbD_and, BitVec.getLsbD_not, h255]
    simp only [hi, decide_true, Bool.and_true]
    cases decide (i < w) <;> simp
  have hhigh : (c &&& ~~~255#w) >>> 8 = c >>> 8 := by
    apply BitVec.eq_of_getLsbD_eq
    intro i _
    simp only [BitVec.getLsbD_ushiftRight, BitVec.getLsbD_and, BitVec.getLsbD_not, h255]
    by_cases h : 8 + i < w
    · simp [h]
    · simp [BitVec.getLsbD_of_ge c (8 + i) (by omega)]
  conv => lhs; rw [hsplit]
  rw [bitSteps_xor, bitSteps_high poly 8 _ hlow, hhigh]

/-! ## Bit by bit -/

/-- One bit of a message: the register moves down, and the polynomial goes in if
    the bit that leaves is not that of the message. -/
def serialStep (c : BitVec w) (b : Bool) : BitVec w :=
  if c.getLsbD 0 ^^ b then (c >>> 1) ^^^ poly else c >>> 1

/-- The register after a run of bits. -/
def serial (c : BitVec w) (bits : List Bool) : BitVec w := bits.foldl (serialStep poly) c

/-- The bits of a byte, the lowest first. -/
def byteBits (b : BitVec 8) : List Bool := (List.range 8).map b.getLsbD

theorem bitStep_serial (c y : BitVec w) :
    bitStep poly (c ^^^ y) = serialStep poly c (y.getLsbD 0) ^^^ (y >>> 1) := by
  rw [bitStep, serialStep, BitVec.getLsbD_xor, BitVec.ushiftRight_xor_distrib]
  split
  · rw [BitVec.xor_assoc, BitVec.xor_comm (y >>> 1), ← BitVec.xor_assoc]
  · rfl

/-- Bits that are in the register already may as well come in one by one. -/
theorem bitSteps_serial (n : Nat) (c y : BitVec w) :
    bitSteps poly n (c ^^^ y)
      = serial poly c ((List.range n).map y.getLsbD) ^^^ (y >>> n) := by
  induction n generalizing c y with
  | zero => simp [bitSteps, serial]
  | succ n ih =>
      have hbits : (List.range n).map (y >>> 1).getLsbD
          = (List.range n).map (y.getLsbD ∘ Nat.succ) := by
        apply List.map_congr_left
        intro i _
        rw [BitVec.getLsbD_ushiftRight, Function.comp_apply, Nat.add_comm]
      rw [bitSteps, bitStep_serial, ih, hbits, List.range_succ_eq_map, List.map_cons,
        List.map_map, serial, serial, List.foldl_cons, Nat.add_comm, BitVec.shiftRight_add]

theorem byteStep_serial (hw : 8 ≤ w) (c : BitVec w) (b : BitVec 8) :
    byteStep poly c b = serial poly c (byteBits b) := by
  have hbits : (List.range 8).map (b.setWidth w).getLsbD = byteBits b := by
    apply List.map_congr_left
    intro i hi
    have hlt : i < w := Nat.lt_of_lt_of_le (List.mem_range.mp hi) hw
    simp [hlt]
  have hgone : b.setWidth w >>> 8 = 0#w := by
    apply BitVec.eq_of_getLsbD_eq
    intro i _
    simp [BitVec.getLsbD_ushiftRight, BitVec.getLsbD_setWidth]
  rw [byteStep, bitSteps_serial, hbits, hgone, BitVec.xor_zero]

/-- **Bytes are bits**, the lowest first. -/
theorem update_eq_serial (hw : 8 ≤ w) (c : BitVec w) (bs : List (BitVec 8)) :
    update poly c bs = serial poly c (bs.flatMap byteBits) := by
  induction bs generalizing c with
  | nil => rfl
  | cons b bs ih =>
      rw [List.flatMap_cons, serial, List.foldl_append, ← serial, ← serial,
        ← byteStep_serial poly hw, ← ih]
      rfl

/-! ## Runs of bytes -/

/-- A run of bytes as one word, the first byte lowest. -/
def pack (w : Nat) : List (BitVec 8) → BitVec w
  | [] => 0#w
  | b :: bs => b.setWidth w ^^^ (pack w bs <<< 8)

theorem pack_high (bs : List (BitVec 8)) (i : Nat) (h : 8 * bs.length ≤ i) :
    (pack w bs).getLsbD i = false := by
  induction bs generalizing i with
  | nil => simp [pack]
  | cons b bs ih =>
      simp only [List.length_cons] at h
      have hb : b.getLsbD i = false := BitVec.getLsbD_of_ge b i (by omega)
      have hbs : (pack w bs).getLsbD (i - 8) = false := ih (i - 8) (by omega)
      simp [pack, BitVec.getLsbD_shiftLeft, hb, hbs]

theorem pack_succ (b : BitVec 8) (bs : List (BitVec 8)) (i : Nat) (h : i + 8 < w) :
    (pack w (b :: bs)).getLsbD (i + 8) = (pack w bs).getLsbD i := by
  have hb : b.getLsbD (i + 8) = false := BitVec.getLsbD_of_ge b _ (by omega)
  simp only [pack, BitVec.getLsbD_xor, BitVec.getLsbD_setWidth, BitVec.getLsbD_shiftLeft, hb]
  simp [h]

theorem pack_inj (a b : List (BitVec 8)) (hl : a.length = b.length)
    (hw : 8 * a.length ≤ w) (h : pack w a = pack w b) : a = b := by
  induction a generalizing b with
  | nil => exact (List.length_eq_zero_iff.mp hl.symm).symm
  | cons x a ih =>
      cases b with
      | nil => simp at hl
      | cons y b =>
          simp only [List.length_cons] at hl hw
          have hbit : ∀ i < w, (pack w (x :: a)).getLsbD i = (pack w (y :: b)).getLsbD i :=
            fun i _ => by rw [h]
          have hxy : x = y := by
            apply BitVec.eq_of_getLsbD_eq
            intro i hi
            have := hbit i (by omega)
            simpa [pack, BitVec.getLsbD_shiftLeft, hi, show i < w by omega] using this
          have hab : pack w a = pack w b := by
            apply BitVec.eq_of_getLsbD_eq
            intro i hi
            by_cases h8 : i + 8 < w
            · have := hbit (i + 8) h8
              simpa only [pack_succ _ _ _ h8] using this
            · rw [pack_high a i (by omega), pack_high b i (by omega)]
          rw [hxy, ih b (by omega) (by omega) hab]

/-- **All at once**: bytes that fit into the register may be put in together
    before any of them is shifted out. -/
theorem update_eq_pack (bs : List (BitVec 8)) (c : BitVec w) (hw : 8 * bs.length ≤ w) :
    update poly c bs = bitSteps poly (8 * bs.length) (c ^^^ pack w bs) := by
  induction bs generalizing c with
  | nil => simp [update, pack, bitSteps]
  | cons b bs ih =>
      simp only [List.length_cons] at hw
      -- the later bytes wait eight places up, and come down as the first goes
      have hwait : bitSteps poly 8 (pack w bs <<< 8) = pack w bs := by
        rw [bitSteps_high poly 8 _ (by intro i hi; simp [BitVec.getLsbD_shiftLeft, hi])]
        apply BitVec.eq_of_getLsbD_eq
        intro i hi
        rw [BitVec.getLsbD_ushiftRight, BitVec.getLsbD_shiftLeft, Nat.add_sub_cancel_left]
        by_cases h8 : 8 + i < w
        · simp [h8]
        · simp [h8, pack_high bs i (by omega)]
      calc update poly c (b :: bs)
          = bitSteps poly (8 * bs.length) (byteStep poly c b ^^^ pack w bs) :=
            ih (byteStep poly c b) (by omega)
        _ = bitSteps poly (8 * bs.length)
              (bitSteps poly 8 (c ^^^ b.setWidth w ^^^ (pack w bs <<< 8))) := by
            rw [bitSteps_xor poly 8 (c ^^^ b.setWidth w), hwait, byteStep]
        _ = bitSteps poly (8 * (b :: bs).length) (c ^^^ pack w (b :: bs)) := by
            rw [← bitSteps_add, pack, ← BitVec.xor_assoc, List.length_cons,
              Nat.mul_succ, Nat.add_comm]

theorem update_append (c : BitVec w) (as bs : List (BitVec 8)) :
    update poly c (as ++ bs) = update poly (update poly c as) bs :=
  List.foldl_append

/-- **Short bursts**: two runs of bytes that agree before and after a stretch no
    longer than the register, and leave the same register, agree on it too. -/
theorem update_burst (hw : 0 < w) (hp : poly.getLsbD (w - 1) = true) (c : BitVec w)
    (pre mid mid' post : List (BitVec 8)) (hl : mid.length = mid'.length)
    (hfit : 8 * mid.length ≤ w)
    (h : update poly c (pre ++ mid ++ post) = update poly c (pre ++ mid' ++ post)) :
    mid = mid' := by
  have hmid : update poly (update poly c pre) mid = update poly (update poly c pre) mid' := by
    rw [← update_append, ← update_append]
    apply update_injective poly hw hp post
    simpa only [← update_append] using h
  rw [update_eq_pack poly mid _ hfit, update_eq_pack poly mid' _ (hl ▸ hfit), hl] at hmid
  have hpack := bitSteps_injective poly hw hp _ hmid
  exact pack_inj mid mid' hl hfit ((BitVec.xor_right_inj _).mp hpack)

/-- Two lists of one length that agree outside of `n` places split around those
    places into a common front, two short middles and a common rest. -/
theorem split_around {α : Type} (a b : List α) (p n : Nat) (hl : a.length = b.length)
    (h : ∀ i, i < p ∨ p + n ≤ i → a[i]? = b[i]?) :
    ∃ pre mid mid' post, a = pre ++ mid ++ post ∧ b = pre ++ mid' ++ post
      ∧ mid.length = mid'.length ∧ mid.length ≤ n := by
  have hpre : b.take p = a.take p := by
    apply List.ext_getElem?
    intro i
    by_cases hi : i < p
    · rw [List.getElem?_take_of_lt hi, List.getElem?_take_of_lt hi, h i (.inl hi)]
    · rw [List.getElem?_take, List.getElem?_take, if_neg hi, if_neg hi]
  have hpost : (b.drop p).drop n = (a.drop p).drop n := by
    apply List.ext_getElem?
    intro i
    rw [List.drop_drop, List.drop_drop, List.getElem?_drop, List.getElem?_drop,
      h (p + n + i) (.inr (by omega))]
  refine ⟨a.take p, (a.drop p).take n, (b.drop p).take n, (a.drop p).drop n, ?_, ?_, ?_, ?_⟩
  · rw [List.append_assoc, List.take_append_drop, List.take_append_drop]
  · rw [← hpre, ← hpost, List.append_assoc, List.take_append_drop, List.take_append_drop]
  · simp [hl]
  · rw [List.length_take]
    exact Nat.min_le_left _ _

theorem update_window (hw : 0 < w) (hp : poly.getLsbD (w - 1) = true) (c : BitVec w)
    (a b : List (BitVec 8)) (p n : Nat) (hl : a.length = b.length) (hfit : 8 * n ≤ w)
    (h : ∀ i, i < p ∨ p + n ≤ i → a[i]? = b[i]?)
    (heq : update poly c a = update poly c b) : a = b := by
  obtain ⟨pre, mid, mid', post, ha, hb, hmid, hn⟩ := split_around a b p n hl h
  rw [ha, hb] at heq ⊢
  rw [update_burst poly hw hp c pre mid mid' post hmid (by omega) heq]

end Crc
