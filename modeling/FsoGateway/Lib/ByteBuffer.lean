import Mathlib.Data.List.Basic
import Mathlib.Algebra.Group.Nat.Defs

/-! # Byte buffers

    A buffer is read by index; what lies past the bytes a program wrote is
    whatever was there before.  `memcpy` and `memzero` overwrite a prefix,
    `bytes` reads one off as a list, and the two big-endian word formats are
    the ones a network header uses.

    * `clip` forgets everything past a length: two buffers with equal clips
      cannot be told apart by a reader that stays below it;
    * `ofBe32_be32`, `ofBe16_be16` — the word formats round-trip;
    * `readBytes`, `readBe32`, `readBe16` — reads that fail when they leave the
      bytes that are there, with one lemma each for when they do not. -/

namespace ByteBuffer

/-- A byte array, read by index. -/
abbrev Buffer := Nat → UInt8

/-- The first `len` bytes of `src` over those of `dst`. -/
def memcpy (dst src : Buffer) (len : Nat) : Buffer :=
  fun i => if i < len then src i else dst i

/-- The first `len` bytes of `dst` cleared. -/
def memzero (dst : Buffer) (len : Nat) : Buffer :=
  fun i => if i < len then 0 else dst i

/-- A list of bytes laid out at the start of a cleared buffer. -/
def ofList (l : List UInt8) : Buffer :=
  fun i => l.getD i 0

/-- The first `len` bytes, as a list. -/
def bytes (a : Buffer) (len : Nat) : List UInt8 :=
  (List.range len).map a

/-- The buffer with everything from `len` on cleared. -/
def clip (len : Nat) (a : Buffer) : Buffer :=
  fun i => if i < len then a i else 0

@[simp] theorem bytes_length (a : Buffer) (len : Nat) :
    (bytes a len).length = len := by
  simp [bytes]

theorem bytes_getElem? (a : Buffer) {len i : Nat} (h : i < len) :
    (bytes a len)[i]? = some (a i) := by
  rw [bytes, List.getElem?_map, List.getElem?_range h]
  rfl

theorem bytes_getD (a : Buffer) {len i : Nat} (h : i < len) :
    (bytes a len).getD i 0 = a i := by
  rw [List.getD_eq_getElem?_getD, bytes_getElem? a h]
  rfl

/-- Reading a prefix only depends on that prefix. -/
theorem bytes_congr {a b : Buffer} {len : Nat} (h : ∀ i, i < len → a i = b i) :
    bytes a len = bytes b len :=
  List.map_congr_left fun i hi => h i (List.mem_range.mp hi)

theorem bytes_eq_iff {a b : Buffer} {len : Nat} :
    bytes a len = bytes b len ↔ ∀ i, i < len → a i = b i := by
  constructor
  · intro h i hi
    have h1 := bytes_getElem? a hi
    rw [h, bytes_getElem? b hi] at h1
    exact (Option.some.inj h1).symm
  · exact bytes_congr

theorem bytes_ofList (l : List UInt8) : bytes (ofList l) l.length = l := by
  apply List.ext_getElem
  · simp
  · intro i h1 h2
    simp [bytes, ofList, h2]

@[simp] theorem clip_clip (len : Nat) (a : Buffer) :
    clip len (clip len a) = clip len a := by
  funext i
  by_cases h : i < len <;> simp [clip, h]

@[simp] theorem clip_memcpy (dst src : Buffer) (len : Nat) :
    clip len (memcpy dst src len) = clip len src := by
  funext i
  by_cases h : i < len <;> simp [clip, memcpy, h]

@[simp] theorem clip_memzero (dst : Buffer) (len : Nat) :
    clip len (memzero dst len) = fun _ => 0 := by
  funext i
  by_cases h : i < len <;> simp [clip, memzero, h]

theorem clip_eq_iff {len : Nat} {a b : Buffer} :
    clip len a = clip len b ↔ ∀ i, i < len → a i = b i := by
  constructor
  · intro h i hi
    have h1 := congrFun h i
    simpa [clip, hi] using h1
  · intro h
    funext i
    by_cases hi : i < len
    · simp [clip, hi, h i hi]
    · simp [clip, hi]

@[simp] theorem bytes_clip (a : Buffer) (len : Nat) :
    bytes (clip len a) len = bytes a len :=
  bytes_congr fun i hi => by simp [clip, hi]

/-- Writing a prefix out and reading it back clips the buffer. -/
theorem ofList_bytes (a : Buffer) (len : Nat) :
    ofList (bytes a len) = clip len a := by
  funext i
  rw [ofList, List.getD_eq_getElem?_getD]
  by_cases h : i < len
  · rw [bytes_getElem? a h]
    simp [clip, h]
  · rw [List.getElem?_eq_none (by simp; omega)]
    simp [clip, h]

/-! ## Big-endian words -/

/-- The four bytes of a word, most significant first. -/
def be32 (x : UInt32) : List UInt8 :=
  [(x >>> 24).toUInt8, (x >>> 16).toUInt8, (x >>> 8).toUInt8, x.toUInt8]

/-- The two bytes of a half word, most significant first. -/
def be16 (x : UInt16) : List UInt8 :=
  [(x >>> 8).toUInt8, x.toUInt8]

/-- The word whose bytes start at offset `off`. -/
def ofBe32 (buf : Buffer) (off : Nat) : UInt32 :=
  UInt32.ofNat ((buf off).toNat * 2 ^ 24 + (buf (off + 1)).toNat * 2 ^ 16
    + (buf (off + 2)).toNat * 2 ^ 8 + (buf (off + 3)).toNat)

/-- The half word whose bytes start at offset `off`. -/
def ofBe16 (buf : Buffer) (off : Nat) : UInt16 :=
  UInt16.ofNat ((buf off).toNat * 2 ^ 8 + (buf (off + 1)).toNat)

@[simp] theorem be32_length (x : UInt32) : (be32 x).length = 4 := rfl

@[simp] theorem be16_length (x : UInt16) : (be16 x).length = 2 := rfl

/-- A buffer that holds the four bytes of `x` at `off` reads `x` back. -/
theorem ofBe32_be32 {buf : Buffer} {off : Nat} {x : UInt32}
    (h0 : buf off = (x >>> 24).toUInt8) (h1 : buf (off + 1) = (x >>> 16).toUInt8)
    (h2 : buf (off + 2) = (x >>> 8).toUInt8) (h3 : buf (off + 3) = x.toUInt8) :
    ofBe32 buf off = x := by
  rw [ofBe32, h0, h1, h2, h3]
  apply UInt32.toNat_inj.mp
  have hx := x.toNat_lt
  simp only [UInt32.toNat_ofNat', UInt32.toNat_toUInt8, UInt32.toNat_shiftRight,
    UInt32.reduceToNat, Nat.shiftRight_eq_div_pow, Nat.reduceMod, Nat.reducePow]
  omega

/-- A buffer that holds the two bytes of `x` at `off` reads `x` back. -/
theorem ofBe16_be16 {buf : Buffer} {off : Nat} {x : UInt16}
    (h0 : buf off = (x >>> 8).toUInt8) (h1 : buf (off + 1) = x.toUInt8) :
    ofBe16 buf off = x := by
  rw [ofBe16, h0, h1]
  apply UInt16.toNat_inj.mp
  have hx := x.toNat_lt
  simp only [UInt16.toNat_ofNat', UInt16.toNat_toUInt8, UInt16.toNat_shiftRight,
    UInt16.reduceToNat, Nat.shiftRight_eq_div_pow, Nat.reduceMod, Nat.reducePow]
  omega

/-! ## Checked reads -/

/-- `len` bytes from `off` on, or nothing when they are not all there. -/
def readBytes (l : List UInt8) (off len : Nat) : Option (List UInt8) :=
  if off + len ≤ l.length then some ((l.drop off).take len) else none

/-- A checked read of one byte. -/
def readByte (l : List UInt8) (off : Nat) : Option UInt8 := l[off]?

/-- A checked read of a word. -/
def readBe32 (l : List UInt8) (off : Nat) : Option UInt32 :=
  (readBytes l off 4).map fun x => ofBe32 (ofList x) 0

/-- A checked read of a half word. -/
def readBe16 (l : List UInt8) (off : Nat) : Option UInt16 :=
  (readBytes l off 2).map fun x => ofBe16 (ofList x) 0

theorem readBytes_of_le {l : List UInt8} {off len : Nat} (h : off + len ≤ l.length) :
    readBytes l off len = some ((l.drop off).take len) :=
  if_pos h

theorem readByte_of_lt {l : List UInt8} {off : Nat} (h : off < l.length) :
    readByte l off = some (l.getD off 0) := by
  rw [readByte, List.getD_eq_getElem?_getD, List.getElem?_eq_getElem h]
  rfl

/-- What is read sits at the same place in the buffer. -/
theorem ofList_drop_take (l : List UInt8) (off : Nat) {len i : Nat} (h : i < len) :
    ofList ((l.drop off).take len) i = ofList l (off + i) := by
  rw [ofList, ofList, List.getD_eq_getElem?_getD, List.getD_eq_getElem?_getD,
    List.getElem?_take, if_pos h, List.getElem?_drop]

theorem ofList_drop (l : List UInt8) (off i : Nat) :
    ofList (l.drop off) i = ofList l (off + i) := by
  rw [ofList, ofList, List.getD_eq_getElem?_getD, List.getD_eq_getElem?_getD,
    List.getElem?_drop]

theorem readBe32_of_le {l : List UInt8} {off : Nat} (h : off + 4 ≤ l.length) :
    readBe32 l off = some (ofBe32 (ofList l) off) := by
  rw [readBe32, readBytes_of_le h, Option.map_some, ofBe32, ofBe32,
    ofList_drop_take l off (show 0 < 4 by decide),
    ofList_drop_take l off (show 0 + 1 < 4 by decide),
    ofList_drop_take l off (show 0 + 2 < 4 by decide),
    ofList_drop_take l off (show 0 + 3 < 4 by decide)]
  rfl

theorem readBe16_of_le {l : List UInt8} {off : Nat} (h : off + 2 ≤ l.length) :
    readBe16 l off = some (ofBe16 (ofList l) off) := by
  rw [readBe16, readBytes_of_le h, Option.map_some, ofBe16, ofBe16,
    ofList_drop_take l off (show 0 < 2 by decide),
    ofList_drop_take l off (show 0 + 1 < 2 by decide)]
  rfl

end ByteBuffer
