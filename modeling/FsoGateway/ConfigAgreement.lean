import FsoGateway.ConfigStore
import FsoGateway.FecProofs
import FsoGateway.RxPipeline
import FsoGateway.TxRuns

/-! # The configuration store and the C code

    The bounds of `validate` are per field.  What the C functions ask for
    across fields, `k + m` within `MAX_SYMBOLS_PER_BLOCK`, is left to the
    daemon: it is what decides whether a stored configuration with parity starts.

    * `interleaverCreate_iff`, `deinterleaverCreate_iff`, `txPipelineCreate_iff`,
      `rxPipelineCreate_iff` — what each creation accepts;
    * `stored_config_creates_iff` — a stored configuration with parity. -/

namespace FsoConfigStore

open ByteBuffer FsoTypes ErasureCode FecWrapper FsoBlockBuilder FsoInterleaver
  FsoDeinterleaver FsoTxPipeline FsoRxPipeline

/-! ## What the C functions accept -/

theorem blockBuilderInit_iff {k ss : Nat} :
    (blockBuilderInit k ss).isSome ↔ 0 < k ∧ 0 < ss := by
  rw [blockBuilderInit]
  split
  · constructor
    · intro h
      cases h
    · omega
  · exact ⟨fun _ => by omega, fun _ => rfl⟩

theorem fecCreate_iff {k ss : Nat} : (fecCreate k ss).isSome ↔ 2 ≤ k ∧ 0 < ss := by
  rw [fecCreate]
  split
  · constructor
    · intro h
      cases h
    · omega
  · exact ⟨fun _ => by omega, fun _ => rfl⟩

theorem interleaverCreate_iff {mem : Nat → Nat → Symbol} {depth n ss flush : Nat} :
    (interleaverCreate mem depth n ss flush).isSome
      ↔ 0 < depth ∧ 0 < n ∧ n ≤ maxSymbolsPerBlock ∧ 0 < ss := by
  rw [interleaverCreate]
  split
  · constructor
    · intro h
      cases h
    · omega
  · exact ⟨fun _ => by omega, fun _ => rfl⟩

theorem deinterleaverCreate_iff {pool n k ss : Nat} {stab age : ℚ} :
    (deinterleaverCreate pool n k ss stab age).isSome
      ↔ 0 < pool ∧ n ≤ maxSymbolsPerBlock ∧ 0 < k ∧ k < n ∧ 0 < ss := by
  rw [deinterleaverCreate]
  split
  · constructor
    · exact fun h => nomatch h
    · omega
  · exact ⟨fun _ => by omega, fun _ => rfl⟩

theorem txPipelineCreate_iff {mem : Nat → Nat → Symbol} {lanMac : List UInt8}
    {cfg : Config} :
    (txPipelineCreate mem lanMac cfg).isSome
      ↔ 2 ≤ cfg.k ∧ 0 < cfg.symbolSize ∧ 1 ≤ cfg.depth ∧
        cfg.k + cfg.m ≤ maxSymbolsPerBlock := by
  constructor
  · intro h
    obtain ⟨pl, hc⟩ := Option.isSome_iff_exists.mp h
    obtain ⟨hk, hss, hdepth, hlen, -⟩ := txPipelineCreate_some hc
    exact ⟨hk, hss, hdepth, hlen⟩
  · rintro ⟨hk, hss, hdepth, hlen⟩
    rw [txPipelineCreate, blockBuilderInit, if_neg (by omega), fecCreate,
      if_neg (by omega), interleaverCreate, if_neg (by omega)]
    rfl

theorem rxPipelineCreate_iff {mem : Buffer} {cfg : Config} :
    (rxPipelineCreate mem cfg).isSome
      ↔ 2 ≤ cfg.k ∧ 0 < cfg.symbolSize ∧ 1 ≤ cfg.depth ∧ 1 ≤ cfg.m ∧
        cfg.k + cfg.m ≤ maxSymbolsPerBlock := by
  constructor
  · intro h
    rw [rxPipelineCreate] at h
    cases hf : fecCreate cfg.k cfg.symbolSize with
    | none =>
        rw [hf] at h
        exact nomatch h
    | some fec =>
        rw [hf] at h
        cases hd : deinterleaverCreate (cfg.depth * 4) (cfg.k + cfg.m) cfg.k
            cfg.symbolSize 2 rxBlockMaxAgeMs with
        | none =>
            rw [hd] at h
            exact nomatch h
        | some dil =>
            obtain ⟨hk, hss⟩ := fecCreate_iff.mp (Option.isSome_of_eq_some hf)
            obtain ⟨hpool, hlen, -, hm, -⟩ :=
              deinterleaverCreate_iff.mp (Option.isSome_of_eq_some hd)
            exact ⟨hk, hss, by omega, by omega, hlen⟩
  · rintro ⟨hk, hss, hdepth, hm, hlen⟩
    rw [rxPipelineCreate, fecCreate, if_neg (by omega), deinterleaverCreate,
      if_neg (by omega)]
    rfl

/-- The arguments that the pipelines pass for `cfg` are accepted. -/
structure Creates (cfg : Config) : Prop where
  interleaver : ∀ mem, (interleaverCreate mem cfg.depth (cfg.k + cfg.m) cfg.symbolSize
    txInterleaverFlushTimeoutMs).isSome
  deinterleaver : (deinterleaverCreate (cfg.depth * 4) (cfg.k + cfg.m) cfg.k
    cfg.symbolSize 2 rxBlockMaxAgeMs).isSome
  tx : ∀ mem lanMac, (txPipelineCreate mem lanMac cfg).isSome
  rx : ∀ mem, (rxPipelineCreate mem cfg).isSome

/-- `fec_encode_block` succeeds with every codec that encodes. -/
def EncodesBlocks (cfg : Config) : Prop :=
  ∀ (wh : Wirehair) (source : List UInt8) (out : Nat → Symbol),
    Encodes wh.encoding cfg.k (cfg.k + cfg.m) cfg.symbolSize →
    source.length = cfg.k * cfg.symbolSize →
    (fecEncodeBlock wh ⟨cfg.k, cfg.symbolSize⟩ source out cfg.m).1 = fecDecodeOk

/-! ## Stored configurations -/

/-- The values that the daemon is started with. -/
def toConfig (cfg : GatewayConfig) (h : Valid cfg) : Config where
  k := cfg.k.toNat
  m := cfg.m.toNat
  depth := cfg.depth.toNat
  symbolSize := cfg.symbolSize.toNat
  internalSymbolCrcEnabled := cfg.internalSymbolCrc
  depth_int := by
    have hd : cfg.depth ≤ 1024 := h.depth.2
    omega

/-- **A stored configuration with parity** is within the limits of every single
    field: the builder, the codec and the encoder accept it.  The interleaver, the
    deinterleaver and the two pipelines accept it exactly when `k + m` is within
    the limit that the daemon checks. -/
theorem stored_config_creates_iff (payload : Value) (cfg : GatewayConfig)
    (h : validate payload = .ok cfg) (hm : 1 ≤ cfg.m) :
    ∃ hv : Valid cfg,
      (blockBuilderInit (toConfig cfg hv).k (toConfig cfg hv).symbolSize).isSome ∧
      (fecCreate (toConfig cfg hv).k (toConfig cfg hv).symbolSize).isSome ∧
      EncodesBlocks (toConfig cfg hv) ∧
      (Creates (toConfig cfg hv) ↔ cfg.k + cfg.m ≤ 256) := by
  obtain ⟨hv, -⟩ := validate_ok_iff.mp h
  refine ⟨hv, ?_⟩
  have hk : 2 ≤ (toConfig cfg hv).k := by
    have h1 : (2 : Int) ≤ cfg.k := hv.k.1
    show 2 ≤ cfg.k.toNat
    omega
  have hss : 1 ≤ (toConfig cfg hv).symbolSize := by
    have h1 : (1 : Int) ≤ cfg.symbolSize := hv.symbolSize.1
    show 1 ≤ cfg.symbolSize.toNat
    omega
  have hdepth : 1 ≤ (toConfig cfg hv).depth := by
    have h1 : (1 : Int) ≤ cfg.depth := hv.depth.1
    show 1 ≤ cfg.depth.toNat
    omega
  have hm' : 1 ≤ (toConfig cfg hv).m := by
    show 1 ≤ cfg.m.toNat
    omega
  have hsum : (toConfig cfg hv).k + (toConfig cfg hv).m ≤ maxSymbolsPerBlock
      ↔ cfg.k + cfg.m ≤ 256 := by
    have h1 : (2 : Int) ≤ cfg.k := hv.k.1
    show cfg.k.toNat + cfg.m.toNat ≤ 256 ↔ _
    omega
  refine ⟨blockBuilderInit_iff.mpr ⟨by omega, hss⟩, fecCreate_iff.mpr ⟨hk, hss⟩, ?_, ?_⟩
  · intro wh source out hwh hlen
    let fec : FecCtx := ⟨(toConfig cfg hv).k, (toConfig cfg hv).symbolSize⟩
    have hwh' : Encodes wh.encoding fec.k (fec.k + (toConfig cfg hv).m) fec.symbolSize := hwh
    have hlen' : source.length = fec.k * fec.symbolSize := hlen
    obtain ⟨out', henc, -⟩ := fecEncodeBlock_spec hwh' hlen' out hm' le_rfl
    exact congrArg Prod.fst henc
  · rw [← hsum]
    constructor
    · intro hc
      exact (rxPipelineCreate_iff.mp (hc.rx fun _ => 0)).2.2.2.2
    · intro hlen
      exact
        { interleaver := fun _ =>
            interleaverCreate_iff.mpr ⟨hdepth, by omega, hlen, hss⟩
          deinterleaver :=
            deinterleaverCreate_iff.mpr ⟨by omega, hlen, by omega, by omega, hss⟩
          tx := fun _ _ => txPipelineCreate_iff.mpr ⟨hk, hss, hdepth, hlen⟩
          rx := fun _ => rxPipelineCreate_iff.mpr ⟨hk, hss, hdepth, hm', hlen⟩ }

/-- `stored_config_creates_iff` for the defaults. -/
theorem stored_config_creates_defaults : ∃ hv : Valid {}, Creates (toConfig {} hv) := by
  obtain ⟨hv, -, -, -, hiff⟩ :=
    stored_config_creates_iff (.dict []) {} (by decide) (by decide)
  exact ⟨hv, hiff.mpr (by decide)⟩

/-- **Per-field bounds are not enough**: 256 source symbols and one of parity
    are stored, and no pipeline is created for them. -/
theorem stored_config_refused :
    ¬ ∀ (payload : Value) (cfg : GatewayConfig), validate payload = .ok cfg →
      ∀ hv : Valid cfg, Creates (toConfig cfg hv) := by
  intro hall
  let cfg : GatewayConfig := { k := 256, m := 1 }
  have hok : validate (.dict [("k", .int 256), ("m", .int 1)]) = .ok cfg := by decide
  obtain ⟨hv, -⟩ := validate_ok_iff.mp hok
  have htx := (hall _ cfg hok hv).tx (fun _ _ => symbolInit) []
  obtain ⟨-, -, -, hlen⟩ := txPipelineCreate_iff.mp htx
  exact absurd (show 256 + 1 ≤ 256 from hlen) (by decide)

end FsoConfigStore
