import Mathlib.Data.List.DropRight
import Mathlib.Tactic

/-! # The web server's configuration store

    `validate` turns the payload of a save request into a `GatewayConfig`, or
    says which field is wrong.  The payload is what `request.json()` and the
    YAML loader give; values of other types only show by the name of their type.

    * `validate_ok_iff` — what is accepted, and what it becomes;
    * `validate_asdict` — a configuration that was accepted once is accepted
      again as it was stored;
    * `validate_error` — every rejection of a dictionary names a field. -/

namespace FsoConfigStore

/-! ## Values -/

/-- A value of a payload. -/
inductive Value where
  | str (s : String)
  | int (i : Int)
  | bool (b : Bool)
  | dict (entries : List (String × Value))
  | other (typeName : String)

/-- `type(v).__name__`. -/
def Value.typeName : Value → String
  | .str _ => "str"
  | .int _ => "int"
  | .bool _ => "bool"
  | .dict _ => "dict"
  | .other typeName => typeName

/-- `payload.get(key, default)`. -/
def get (payload : List (String × Value)) (key : String) (default : Value) : Value :=
  (payload.lookup key).getD default

/-- The characters that `str.strip` removes. -/
def isSpace (c : Char) : Bool :=
  let x := c.toNat
  decide (9 ≤ x ∧ x ≤ 13) || decide (28 ≤ x ∧ x ≤ 32) || x == 0x85 || x == 0xa0
    || x == 0x1680 || decide (0x2000 ≤ x ∧ x ≤ 0x200a) || x == 0x2028 || x == 0x2029
    || x == 0x202f || x == 0x205f || x == 0x3000

/-- `v.strip()`. -/
def strip (v : String) : String :=
  String.ofList ((v.toList.dropWhile isSpace).rdropWhile isSpace)

/-! ## `validate` -/

/-- `BOUNDS["k"]`. -/
def kBounds : Int × Int := (2, 256)

/-- `BOUNDS["m"]`. -/
def mBounds : Int × Int := (0, 256)

/-- `BOUNDS["depth"]`. -/
def depthBounds : Int × Int := (1, 1024)

/-- `BOUNDS["symbol_size"]`. -/
def symbolSizeBounds : Int × Int := (1, 9000)

/-- `GatewayConfig`, with its defaults. -/
structure GatewayConfig where
  lanIface : String := "eth0"
  fsoIface : String := "eth1"
  k : Int := 8
  m : Int := 4
  depth : Int := 16
  symbolSize : Int := 800
  internalSymbolCrc : Bool := true
  profileName : String := "LAB-TEST"
  deriving DecidableEq

/-- `_ensure_str`. -/
def ensureStr (v : Value) (fieldName : String) (maxLen : Nat) : Except String String :=
  match v with
  | .str s =>
      if strip s = "" then .error (fieldName ++ ": must not be empty")
      else if maxLen < (strip s).length then
        .error (fieldName ++ ": must be at most " ++ toString maxLen ++ " characters")
      else .ok (strip s)
  | v => .error (fieldName ++ ": expected string, got " ++ v.typeName)

/-- `_ensure_int`. -/
def ensureInt (v : Value) (fieldName : String) (bounds : Int × Int) : Except String Int :=
  match v with
  | .int i =>
      if i < bounds.1 ∨ bounds.2 < i then
        .error (fieldName ++ ": must be between " ++ toString bounds.1 ++ " and "
          ++ toString bounds.2)
      else .ok i
  | _ => .error (fieldName ++ ": expected integer")

/-- `_ensure_bool`. -/
def ensureBool (v : Value) (fieldName : String) : Except String Bool :=
  match v with
  | .bool b => .ok b
  | _ => .error (fieldName ++ ": expected boolean")

/-- `validate`; a payload that is no dictionary has no `get`. -/
def validate : Value → Except String GatewayConfig
  | .dict payload => do
      let defaults : GatewayConfig := {}
      let lanIface ← ensureStr (get payload "lan_iface" (.str defaults.lanIface))
        "lan_iface" 31
      let fsoIface ← ensureStr (get payload "fso_iface" (.str defaults.fsoIface))
        "fso_iface" 31
      let k ← ensureInt (get payload "k" (.int defaults.k)) "k" kBounds
      let m ← ensureInt (get payload "m" (.int defaults.m)) "m" mBounds
      let depth ← ensureInt (get payload "depth" (.int defaults.depth)) "depth" depthBounds
      let symbolSize ← ensureInt (get payload "symbol_size" (.int defaults.symbolSize))
        "symbol_size" symbolSizeBounds
      let internalSymbolCrc ← ensureBool
        (get payload "internal_symbol_crc" (.bool defaults.internalSymbolCrc))
        "internal_symbol_crc"
      let profileName ← ensureStr (get payload "profile_name" (.str defaults.profileName))
        "profile_name" 32
      return { lanIface, fsoIface, k, m, depth, symbolSize, internalSymbolCrc, profileName }
  | v =>
      .error ("invalid config payload: '" ++ v.typeName ++ "' object has no attribute 'get'")

/-- `asdict`, which is what `save` stores. -/
def asdict (cfg : GatewayConfig) : Value :=
  .dict
    [("lan_iface", .str cfg.lanIface), ("fso_iface", .str cfg.fsoIface), ("k", .int cfg.k),
      ("m", .int cfg.m), ("depth", .int cfg.depth), ("symbol_size", .int cfg.symbolSize),
      ("internal_symbol_crc", .bool cfg.internalSymbolCrc),
      ("profile_name", .str cfg.profileName)]

/-! ## What is accepted -/

theorem strip_strip (v : String) : strip (strip v) = strip v := by
  rw [strip, strip, String.toList_ofList]
  congr 1
  have hhead : ((v.toList.dropWhile isSpace).rdropWhile isSpace).dropWhile isSpace
      = (v.toList.dropWhile isSpace).rdropWhile isSpace := by
    rw [List.dropWhile_eq_self_iff]
    intro hpos
    -- the head of a non-empty prefix is the head of the list
    have hpre := List.rdropWhile_prefix isSpace (v.toList.dropWhile isSpace)
    rw [hpre.getElem hpos]
    exact List.dropWhile_get_zero_not _ _ (Nat.lt_of_lt_of_le hpos hpre.length_le)
  rw [hhead, List.rdropWhile_idempotent]

/-- A text that `_ensure_str` gives back as it is. -/
structure TextOk (maxLen : Nat) (s : String) : Prop where
  stripped : strip s = s
  nonempty : s ≠ ""
  short : s.length ≤ maxLen

theorem ensureStr_ok_iff {v : Value} {fieldName : String} {maxLen : Nat} {s : String} :
    ensureStr v fieldName maxLen = .ok s
      ↔ ∃ t, v = .str t ∧ s = strip t ∧ TextOk maxLen s := by
  constructor
  · intro h
    unfold ensureStr at h
    split at h
    · rename_i t
      split at h
      · exact nomatch h
      rename_i hne
      split at h
      · exact nomatch h
      rename_i hlen
      cases h
      exact ⟨t, rfl, rfl, strip_strip t, hne, Nat.le_of_not_lt hlen⟩
    · exact nomatch h
  · rintro ⟨t, rfl, rfl, hok⟩
    rw [ensureStr, if_neg hok.nonempty, if_neg (Nat.not_lt.mpr hok.short)]

theorem ensureInt_ok_iff {v : Value} {fieldName : String} {bounds : Int × Int} {i : Int} :
    ensureInt v fieldName bounds = .ok i
      ↔ v = .int i ∧ bounds.1 ≤ i ∧ i ≤ bounds.2 := by
  constructor
  · intro h
    unfold ensureInt at h
    split at h
    · split at h
      · exact nomatch h
      rename_i hin
      cases h
      exact ⟨rfl, by omega, by omega⟩
    · exact nomatch h
  · rintro ⟨rfl, hlo, hhi⟩
    exact if_neg (by omega)

theorem ensureBool_ok_iff {v : Value} {fieldName : String} {b : Bool} :
    ensureBool v fieldName = .ok b ↔ v = .bool b := by
  constructor
  · intro h
    unfold ensureBool at h
    split at h
    · cases h
      rfl
    · exact nomatch h
  · rintro rfl
    rfl

/-- The fields of a configuration that `validate` gives back as it is. -/
structure Valid (cfg : GatewayConfig) : Prop where
  lanIface : TextOk 31 cfg.lanIface
  fsoIface : TextOk 31 cfg.fsoIface
  k : kBounds.1 ≤ cfg.k ∧ cfg.k ≤ kBounds.2
  m : mBounds.1 ≤ cfg.m ∧ cfg.m ≤ mBounds.2
  depth : depthBounds.1 ≤ cfg.depth ∧ cfg.depth ≤ depthBounds.2
  symbolSize : symbolSizeBounds.1 ≤ cfg.symbolSize ∧ cfg.symbolSize ≤ symbolSizeBounds.2
  profileName : TextOk 32 cfg.profileName

theorem bind_ok_iff {α β : Type} {x : Except String α} {f : α → Except String β} {b : β} :
    (x >>= f) = .ok b ↔ ∃ a, x = .ok a ∧ f a = .ok b := by
  cases x with
  | error e => exact ⟨fun h => (nomatch h), fun ⟨_, h, _⟩ => (nomatch h)⟩
  | ok a =>
      constructor
      · exact fun h => ⟨a, rfl, h⟩
      · rintro ⟨a', h, hf⟩
        cases h
        exact hf

/-- **What `validate` accepts**: a dictionary; a field that is missing has its
    default, and a text is stripped. -/
theorem validate_ok_iff {payload : Value} {cfg : GatewayConfig} :
    validate payload = .ok cfg ↔ Valid cfg ∧ ∃ p, payload = .dict p ∧
      (∃ t, get p "lan_iface" (.str "eth0") = .str t ∧ cfg.lanIface = strip t) ∧
      (∃ t, get p "fso_iface" (.str "eth1") = .str t ∧ cfg.fsoIface = strip t) ∧
      get p "k" (.int 8) = .int cfg.k ∧
      get p "m" (.int 4) = .int cfg.m ∧
      get p "depth" (.int 16) = .int cfg.depth ∧
      get p "symbol_size" (.int 800) = .int cfg.symbolSize ∧
      get p "internal_symbol_crc" (.bool true) = .bool cfg.internalSymbolCrc ∧
      ∃ t, get p "profile_name" (.str "LAB-TEST") = .str t ∧ cfg.profileName = strip t := by
  cases payload with
  | dict p =>
      rw [validate]
      simp only [bind_ok_iff, ensureStr_ok_iff, ensureInt_ok_iff, ensureBool_ok_iff]
      constructor
      · rintro ⟨lan, ⟨t1, h1, e1, o1⟩, fso, ⟨t2, h2, e2, o2⟩, k, ⟨h3, o3⟩, m, ⟨h4, o4⟩,
          depth, ⟨h5, o5⟩, ss, ⟨h6, o6⟩, crc, h7, prof, ⟨t8, h8, e8, o8⟩, hcfg⟩
        cases hcfg
        exact ⟨⟨o1, o2, o3, o4, o5, o6, o8⟩, p, rfl, ⟨t1, h1, e1⟩, ⟨t2, h2, e2⟩, h3, h4, h5,
          h6, h7, t8, h8, e8⟩
      · rintro ⟨hv, p', hp, ⟨t1, h1, e1⟩, ⟨t2, h2, e2⟩, h3, h4, h5, h6, h7, t8, h8, e8⟩
        cases hp
        exact ⟨_, ⟨t1, h1, e1, hv.lanIface⟩, _, ⟨t2, h2, e2, hv.fsoIface⟩, _, ⟨h3, hv.k⟩, _,
          ⟨h4, hv.m⟩, _, ⟨h5, hv.depth⟩, _, ⟨h6, hv.symbolSize⟩, _, h7, _,
          ⟨t8, h8, e8, hv.profileName⟩, rfl⟩
  | str s => exact ⟨fun h => (nomatch h), fun ⟨_, _, hp, _⟩ => (nomatch hp)⟩
  | int i => exact ⟨fun h => (nomatch h), fun ⟨_, _, hp, _⟩ => (nomatch hp)⟩
  | bool b => exact ⟨fun h => (nomatch h), fun ⟨_, _, hp, _⟩ => (nomatch hp)⟩
  | other n => exact ⟨fun h => (nomatch h), fun ⟨_, _, hp, _⟩ => (nomatch hp)⟩

/-- **A stored configuration** is loaded as it is. -/
theorem validate_asdict {cfg : GatewayConfig} (h : Valid cfg) :
    validate (asdict cfg) = .ok cfg :=
  validate_ok_iff.mpr ⟨h, _, rfl, ⟨_, rfl, h.lanIface.stripped.symm⟩,
    ⟨_, rfl, h.fsoIface.stripped.symm⟩, rfl, rfl, rfl, rfl, rfl,
    _, rfl, h.profileName.stripped.symm⟩

/-- An empty payload gives the defaults, which pass their own checks. -/
example : validate (.dict []) = .ok {} := by decide

/-! ## What is rejected -/

/-- The message is about the field. -/
def Names (fieldName message : String) : Prop := ∃ text, message = fieldName ++ ": " ++ text

theorem ensureStr_error {v : Value} {fieldName e : String} {maxLen : Nat}
    (h : ensureStr v fieldName maxLen = .error e) : Names fieldName e := by
  unfold ensureStr at h
  split at h
  · split at h
    · cases h
      exact ⟨"must not be empty", by rw [String.append_assoc]; rfl⟩
    · split at h
      · cases h
        exact ⟨"must be at most " ++ toString maxLen ++ " characters", by
          simp only [String.append_assoc]; rfl⟩
      · exact nomatch h
  · cases h
    exact ⟨"expected string, got " ++ v.typeName, by simp only [String.append_assoc]; rfl⟩

theorem ensureInt_error {v : Value} {fieldName e : String} {bounds : Int × Int}
    (h : ensureInt v fieldName bounds = .error e) : Names fieldName e := by
  unfold ensureInt at h
  split at h
  · split at h
    · cases h
      exact ⟨"must be between " ++ toString bounds.1 ++ " and " ++ toString bounds.2, by
        simp only [String.append_assoc]; rfl⟩
    · exact nomatch h
  · cases h
    exact ⟨"expected integer", by rw [String.append_assoc]; rfl⟩

theorem ensureBool_error {v : Value} {fieldName e : String}
    (h : ensureBool v fieldName = .error e) : Names fieldName e := by
  unfold ensureBool at h
  split at h
  · exact nomatch h
  · cases h
    exact ⟨"expected boolean", by rw [String.append_assoc]; rfl⟩

/-- The fields in the order of their checks. -/
def fieldNames : List String :=
  ["lan_iface", "fso_iface", "k", "m", "depth", "symbol_size", "internal_symbol_crc",
    "profile_name"]

theorem bind_error {α β : Type} {x : Except String α} {f : α → Except String β} {e : String}
    (h : (x >>= f) = .error e) : x = .error e ∨ ∃ a, x = .ok a ∧ f a = .error e := by
  cases x with
  | error e' =>
      cases h
      exact .inl rfl
  | ok a => exact .inr ⟨a, rfl, h⟩

/-- **Every rejection** of a dictionary names a field. -/
theorem validate_error {payload : List (String × Value)} {e : String}
    (h : validate (.dict payload) = .error e) : ∃ f ∈ fieldNames, Names f e := by
  rw [validate] at h
  obtain h | ⟨_, -, h⟩ := bind_error h
  · exact ⟨_, by decide, ensureStr_error h⟩
  obtain h | ⟨_, -, h⟩ := bind_error h
  · exact ⟨_, by decide, ensureStr_error h⟩
  obtain h | ⟨_, -, h⟩ := bind_error h
  · exact ⟨_, by decide, ensureInt_error h⟩
  obtain h | ⟨_, -, h⟩ := bind_error h
  · exact ⟨_, by decide, ensureInt_error h⟩
  obtain h | ⟨_, -, h⟩ := bind_error h
  · exact ⟨_, by decide, ensureInt_error h⟩
  obtain h | ⟨_, -, h⟩ := bind_error h
  · exact ⟨_, by decide, ensureInt_error h⟩
  obtain h | ⟨_, -, h⟩ := bind_error h
  · exact ⟨_, by decide, ensureBool_error h⟩
  obtain h | ⟨_, -, h⟩ := bind_error h
  · exact ⟨_, by decide, ensureStr_error h⟩
  exact nomatch h

end FsoConfigStore
