import FsoGateway.Types
import Mathlib.Data.List.TakeWhile
import Mathlib.Data.Nat.Digits.Lemmas

/-! # Command-line configuration

    `config_parse` applies the options that `getopt_long` finds in `argv`, one
    after the other, to the defaults.  `getopt_long` is the C library's: a command
    line enters as what it returns, and whether it leaves a positional argument.

    * `parse_decimalText` — any number up to `INT_MAX` can be written down;
    * `configParse_commandLine` — so every configuration whose values are `int`s
      comes from a command line: no value has a bound of its own. -/

namespace FsoConfig

open FsoTypes

/-- A C string, without its terminator. -/
abbrev Text := List UInt8

/-! ## Numbers -/

/-- `INT_MAX`. -/
def intMax : Nat := 2 ^ 31 - 1

/-- `LONG_MAX`. -/
def longMax : Nat := 2 ^ 63 - 1

/-- An `int` that is not negative. -/
abbrev NonNegativeInt := { n : Nat // n ≤ intMax }

/-- `isspace`, in the C locale. -/
def isSpace (c : UInt8) : Bool := c == 32 || decide (9 ≤ c) && decide (c ≤ 13)

def isDigit (c : UInt8) : Bool := decide (48 ≤ c) && decide (c ≤ 57)

/-- The number that the digits stand for. -/
def decimal (digits : Text) : Nat :=
  digits.foldl (fun n c => 10 * n + (c.toNat - 48)) 0

/-- What `strtol` gives: the value, the text from `endptr` on, and whether it set
    `errno`. -/
structure Strtol where
  value : Int
  rest : Text
  errno : Bool

/-- The sign, and the text behind it. -/
def splitSign : Text → Bool × Text
  | [] => (false, [])
  | c :: rest =>
      if c = 45 then (true, rest) else if c = 43 then (false, rest) else (false, c :: rest)

/-- `strtol(text, &endptr, 10)`, for a `long` of 64 bits. -/
def strtol (text : Text) : Strtol :=
  let signed := splitSign (text.dropWhile isSpace)
  let digits := signed.2.takeWhile isDigit
  let rest := signed.2.dropWhile isDigit
  if digits = [] then ⟨0, text, false⟩
  else
    let value : Int := if signed.1 then -decimal digits else decimal digits
    if (longMax : Int) < value then ⟨longMax, rest, true⟩
    else if value < -longMax - 1 then ⟨-longMax - 1, rest, true⟩
    else ⟨value, rest, false⟩

/-- `parse_non_negative_int`. -/
def parseNonNegativeInt (text : Text) : Option NonNegativeInt :=
  if text = [] then none
  else
    match strtol text with
    | ⟨value, rest, errno⟩ =>
        if errno ∨ rest = text ∨ rest ≠ [] then none
        else if value < 0 then none
        else if h : (intMax : Int) < value then none
        else some ⟨value.toNat, by omega⟩

/-! ## Options -/

/-- The size of `lan_iface` and of `fso_iface`. -/
def ifaceSize : Nat := 32

/-- What fits an interface name, with its terminator. -/
abbrev IfaceName := { s : Text // s.length < ifaceSize }

/-- `copy_string_option`. -/
def copyStringOption (src : Text) : Option IfaceName :=
  if h : ifaceSize ≤ src.length then none else some ⟨src, Nat.not_le.mp h⟩

/-- `struct config`. -/
structure CliConfig where
  lanIface : IfaceName
  fsoIface : IfaceName
  k : NonNegativeInt
  m : NonNegativeInt
  depth : NonNegativeInt
  symbolSize : NonNegativeInt
  internalSymbolCrcEnabled : Bool
  deriving DecidableEq

/-- What the pipelines read of it. -/
def CliConfig.toConfig (cfg : CliConfig) : Config where
  k := cfg.k
  m := cfg.m
  depth := cfg.depth
  symbolSize := cfg.symbolSize
  internalSymbolCrcEnabled := cfg.internalSymbolCrcEnabled
  depth_int := Nat.lt_of_le_of_lt cfg.depth.2 (by decide)

/-- `config_set_defaults`. -/
def configSetDefaults : CliConfig where
  lanIface := ⟨[101, 116, 104, 48], by decide⟩
  fsoIface := ⟨[101, 116, 104, 49], by decide⟩
  k := ⟨10, by decide⟩
  m := ⟨4, by decide⟩
  depth := ⟨8, by decide⟩
  symbolSize := ⟨16, by decide⟩
  internalSymbolCrcEnabled := true

/-- What `getopt_long` returns, with `optarg`. -/
inductive CliOption where
  | lanIface (optarg : Text)
  | fsoIface (optarg : Text)
  | k (optarg : Text)
  | m (optarg : Text)
  | depth (optarg : Text)
  | symbolSize (optarg : Text)
  | internalSymbolCrc (optarg : Text)
  /-- `'?'` -/
  | unknown

/-- The body of the loop of `config_parse`. -/
def applyOption (cfg : CliConfig) : CliOption → Option CliConfig
  | .lanIface optarg => (copyStringOption optarg).map fun s => { cfg with lanIface := s }
  | .fsoIface optarg => (copyStringOption optarg).map fun s => { cfg with fsoIface := s }
  | .k optarg => (parseNonNegativeInt optarg).map fun v => { cfg with k := v }
  | .m optarg => (parseNonNegativeInt optarg).map fun v => { cfg with m := v }
  | .depth optarg => (parseNonNegativeInt optarg).map fun v => { cfg with depth := v }
  | .symbolSize optarg => (parseNonNegativeInt optarg).map fun v => { cfg with symbolSize := v }
  | .internalSymbolCrc optarg =>
      match parseNonNegativeInt optarg with
      | none => none
      | some v =>
          if v.1 ≠ 0 ∧ v.1 ≠ 1 then none
          else some { cfg with internalSymbolCrcEnabled := v.1 = 1 }
  | .unknown => none

/-- `config_parse`; `positional` says that `optind` ends below `argc`. -/
def configParse (options : List CliOption) (positional : Bool) : Option CliConfig :=
  match options.foldlM applyOption configSetDefaults with
  | none => none
  | some cfg => if positional then none else some cfg

/-! ## Every `int` can be written down -/

/-- A number in decimal. -/
def decimalText (n : Nat) : Text :=
  if n = 0 then [48] else (Nat.digits 10 n).reverse.map fun d => UInt8.ofNat (48 + d)

theorem digit_toNat {d : Nat} (h : d < 10) : (UInt8.ofNat (48 + d)).toNat = 48 + d := by
  rw [UInt8.toNat_ofNat']
  omega

theorem isDigit_digit {d : Nat} (h : d < 10) : isDigit (UInt8.ofNat (48 + d)) = true := by
  have hd := digit_toNat h
  rw [isDigit, Bool.and_eq_true, decide_eq_true_iff, decide_eq_true_iff, UInt8.le_iff_toNat_le,
    UInt8.le_iff_toNat_le, hd]
  exact ⟨Nat.le_add_right 48 d, show 48 + d ≤ 57 by omega⟩

theorem decimalText_digits (n : Nat) : ∀ c ∈ decimalText n, isDigit c = true := by
  intro c hc
  rw [decimalText] at hc
  split at hc
  · rw [List.mem_singleton.mp hc]
    rfl
  · obtain ⟨d, hd, rfl⟩ := List.mem_map.mp hc
    exact isDigit_digit (Nat.digits_lt_base (by decide) (List.mem_reverse.mp hd))

theorem decimal_decimalText (n : Nat) : decimal (decimalText n) = n := by
  rw [decimalText]
  split
  · rename_i hz
    rw [hz]
    rfl
  · rw [decimal, List.foldl_map, List.foldl_reverse]
    have hdigits : ∀ l : List Nat, (∀ d ∈ l, d < 10) →
        l.foldr (fun d n => 10 * n + ((UInt8.ofNat (48 + d)).toNat - 48)) 0
          = Nat.ofDigits 10 l := by
      intro l hl
      induction l with
      | nil => rfl
      | cons d l ih =>
          rw [List.foldr_cons, ih fun x hx => hl x (List.mem_cons_of_mem d hx),
            digit_toNat (hl d List.mem_cons_self), Nat.ofDigits_cons]
          simp
          omega
    rw [hdigits _ fun d hd => Nat.digits_lt_base (by decide) hd, Nat.ofDigits_digits]

theorem decimalText_ne_nil (n : Nat) : decimalText n ≠ [] := by
  rw [decimalText]
  split
  · exact List.cons_ne_nil _ _
  · rename_i hz
    rw [Ne, List.map_eq_nil_iff, List.reverse_eq_nil_iff, Nat.digits_eq_nil_iff_eq_zero]
    exact hz

/-- A digit is neither a space nor a sign. -/
theorem digit_start {c : UInt8} (h : isDigit c = true) :
    isSpace c = false ∧ c ≠ 45 ∧ c ≠ 43 := by
  rw [isDigit, Bool.and_eq_true, decide_eq_true_iff, decide_eq_true_iff, UInt8.le_iff_toNat_le,
    UInt8.le_iff_toNat_le] at h
  have hlow : 48 ≤ c.toNat := h.1
  have hne : ∀ x : UInt8, x.toNat < 48 → c ≠ x := by
    rintro x hx rfl
    omega
  refine ⟨?_, hne 45 (by decide), hne 43 (by decide)⟩
  -- the other spaces of the C locale are the codes from 9 to 13
  have hspace : ¬ c ≤ 13 := by
    rw [UInt8.le_iff_toNat_le]
    show ¬ c.toNat ≤ 13
    omega
  rw [isSpace, beq_false_of_ne (hne 32 (by decide)), decide_eq_false hspace, Bool.and_false]
  rfl

/-- `strtol` on a text of digits. -/
theorem strtol_digits {text : Text} (hne : text ≠ []) (hd : ∀ c ∈ text, isDigit c = true)
    (hle : decimal text ≤ longMax) : strtol text = ⟨decimal text, [], false⟩ := by
  obtain ⟨c, rest, rfl⟩ := List.exists_cons_of_ne_nil hne
  obtain ⟨hspace, hminus, hplus⟩ := digit_start (hd c List.mem_cons_self)
  have hdrop : (c :: rest).dropWhile isSpace = c :: rest := by
    rw [List.dropWhile_cons, hspace]
    rfl
  have hsign : splitSign (c :: rest) = (false, c :: rest) := by
    rw [splitSign, if_neg hminus, if_neg hplus]
  have htake : (c :: rest).takeWhile isDigit = c :: rest :=
    List.takeWhile_eq_self_iff.mpr hd
  have hend : (c :: rest).dropWhile isDigit = [] := List.dropWhile_eq_nil_iff.mpr hd
  rw [strtol, hdrop, hsign]
  dsimp only
  rw [htake, hend, if_neg hne, if_neg Bool.false_ne_true, if_neg, if_neg]
  · omega
  · omega

/-- **Any `int`** that is not negative is read back from its decimal text. -/
theorem parse_decimalText (n : NonNegativeInt) :
    parseNonNegativeInt (decimalText n.1) = some n := by
  have hne := decimalText_ne_nil n.1
  have hint := n.2
  have hle : decimal (decimalText n.1) ≤ longMax := by
    rw [decimal_decimalText]
    exact hint.trans (by decide)
  have hr := strtol_digits hne (decimalText_digits n.1) hle
  rw [decimal_decimalText] at hr
  rw [parseNonNegativeInt, if_neg hne, hr]
  dsimp only
  rw [if_neg, if_neg (by omega), dif_neg (by omega)]
  · rfl
  · rintro (herr | hsame | hmore)
    · exact nomatch herr
    · exact hne hsame.symm
    · exact hmore rfl

/-! ## Every configuration can be asked for -/

/-- All the options of a configuration. -/
def commandLine (cfg : CliConfig) : List CliOption :=
  [.lanIface cfg.lanIface.1, .fsoIface cfg.fsoIface.1, .k (decimalText cfg.k.1),
    .m (decimalText cfg.m.1), .depth (decimalText cfg.depth.1),
    .symbolSize (decimalText cfg.symbolSize.1),
    .internalSymbolCrc (decimalText (if cfg.internalSymbolCrcEnabled then 1 else 0))]

theorem copyStringOption_name (name : IfaceName) : copyStringOption name.1 = some name := by
  rw [copyStringOption, dif_neg (Nat.not_le.mpr name.2)]

/-- **Every configuration** comes from a command line. -/
theorem configParse_commandLine (cfg : CliConfig) :
    configParse (commandLine cfg) false = some cfg := by
  have hflag : parseNonNegativeInt
      (decimalText (if cfg.internalSymbolCrcEnabled then 1 else 0))
        = some ⟨if cfg.internalSymbolCrcEnabled then 1 else 0, by split <;> decide⟩ :=
    parse_decimalText ⟨if cfg.internalSymbolCrcEnabled then 1 else 0, by split <;> decide⟩
  have hrun : (commandLine cfg).foldlM applyOption configSetDefaults = some cfg := by
    simp only [commandLine, List.foldlM_cons, List.foldlM_nil, applyOption,
      copyStringOption_name, parse_decimalText, Option.map_some, hflag]
    cases cfg with
    | mk lan fso k m depth size crc =>
        cases crc
        · rfl
        · rfl
  rw [configParse, hrun]
  rfl

end FsoConfig
