import FsoGateway.ConfigParse
import FsoGateway.RxAccesses
import FsoGateway.TxAccesses
import FsoGateway.TxAnySize
import FsoGateway.WireFormat

/-! # The symbol size and the data array

    `config_parse` takes any `int` that is not negative for the symbol size, and
    the create functions only refuse 0.  `fragment_packet` checks the size against
    `MAX_SYMBOL_DATA_SIZE`, in the 16 bits it is handed; the other places go by
    the `int` unchecked.

    * `staysInBounds_iff` — an accepted configuration keeps every access of both
      pipelines within the array exactly when its symbol size fits;
    * `rx_stores` — a size that does not fit overruns on the first symbol;
    * `tx_adds` — and on the first frame, when its 16 bits do fit. -/

namespace FsoBufferBounds

open ByteBuffer FsoTypes ErasureCode FecWrapper FsoBlockBuilder FsoConfig FsoDeinterleaver
  FsoInterleaver FsoLink FsoRxPipeline FsoTxPipeline PacketFragmenter SymbolAccess SymbolCrc

/-! ## The first symbol is stored -/

/-- The deinterleaver of a pipeline that has received nothing. -/
theorem tick_fresh {pl : RxPipeline} {mem : Buffer} {cfg : Config}
    (hc : rxPipelineCreate mem cfg = some pl) (now : Nat) :
    let d := (deinterleaverTick pl.dil (-1) now).2
    SameParams pl.dil d ∧ ∀ i, d.slots i = slotZero := by
  obtain ⟨-, -, -, -, -, hslots⟩ := rxOk_create hc
  obtain ⟨hp, hsl⟩ := tick_slots pl.dil (-1) now
  refine ⟨hp, fun i => ?_⟩
  rw [hsl i, hslots i, if_neg]
  rintro ⟨-, hs⟩
  exact nomatch hs

/-- A pool of empty slots stores the first symbol that is accepted. -/
theorem push_stores {d : Deinterleaver} (hpos : 0 < d.maxActiveBlocks)
    (hslots : ∀ i, d.slots i = slotZero) {sym : Symbol} (hacc : isAccepted d sym = true)
    (now : Nat) : ⟨.storeSymbol, d.symbolSize⟩ ∈ deinterleaverPushAccesses d sym now := by
  rw [isAccepted, Bool.and_eq_true, Bool.not_eq_true', Bool.not_eq_true'] at hacc
  have hnone : findSlotAny d sym.packetId = none := by
    cases hf : findSlotAny d sym.packetId with
    | none => rfl
    | some i =>
        have hs := (findSlotAny_some hf).2.1
        rw [hslots i] at hs
        exact absurd rfl hs
  obtain ⟨i, d', halloc, -, hp, -, hd', -⟩ := allocSlot_spec sym.packetId now hpos
  -- a slot that was just opened has received nothing
  have hmask : Bitset.test (d'.slots i).receivedMask sym.fecId.toNat = false := by
    rw [hd', Function.update_self]
    exact Bitset.test_clear _
  rw [deinterleaverPushAccesses, hacc.1, hacc.2, hnone]
  simp only [Bool.false_eq_true, if_false, halloc]
  rw [storeSymbolAccesses, hmask, hp.symbolSize]
  exact List.mem_cons_self

/-- What is pushed is part of the accesses of the call. -/
theorem mem_handleEvent {wh : Wirehair} {pl : RxPipeline} {wire : List UInt8} {sym : Symbol}
    {now : Nat} {a : DataAccess}
    (hparse : parseFrame pl.cfg (wire.take rxWireBufSize) = .symbol sym)
    (ha : a ∈ deinterleaverPushAccesses pl.dil sym now) :
    a ∈ handleEventAccesses wh pl (.frame wire) now := by
  rw [handleEventAccesses, hparse]
  exact List.mem_append_right _ (List.mem_append_left _ ha)

/-- **The first symbol** that reaches a receiver is stored, with as many bytes as
    the symbol size says. -/
theorem rx_stores {pl : RxPipeline} {mem : Buffer} {cfg : Config}
    (hc : rxPipelineCreate mem cfg = some pl) (wh : Wirehair) {s : Symbol}
    (hid : s.packetId ≠ 0) (hfits : s.payloadLen.toNat ≤ maxSymbolDataSize)
    (hlen : s.payloadLen.toNat ≤ cfg.symbolSize) (hfec : s.fecId.toNat < cfg.k + cfg.m)
    (hcrc : symbolVerifyCrc s = true) (tickNow pushNow : Nat) :
    ⟨.storeSymbol, cfg.symbolSize⟩
      ∈ rxAccessesOnce wh pl ⟨.frame (serializeSymbol s), tickNow, pushNow⟩ := by
  obtain ⟨hok, hcfg, -⟩ := rxOk_create hc
  obtain ⟨hp, hslots⟩ := tick_fresh hc tickNow
  rw [rxAccessesOnce]
  generalize (deinterleaverTick pl.dil (-1) tickNow).2 = d at hp hslots ⊢
  have hsize : d.symbolSize = cfg.symbolSize := by
    rw [hp.symbolSize, hok.shape.symbolSize, hcfg]
  have hblock : d.symbolsPerBlock = cfg.k + cfg.m := by
    rw [hp.symbolsPerBlock, hok.shape.n, hcfg]
  have hpos : 0 < d.maxActiveBlocks := (hok.pool.params.congr hp).slots
  have hn := (hok.pool.params.congr hp).position
  have hparse : parseFrame pl.cfg ((serializeSymbol s).take rxWireBufSize)
      = .symbol (wireSymbol s) := by
    -- the receive buffer cuts nothing off
    have hround := parseFrame_frame hfits hlen (.inr fun _ => hcrc) []
    rw [List.append_nil] at hround
    rw [take_serialize hfits, hcfg, hround]
  have hacc : isAccepted d (wireSymbol s) = true := by
    rw [isAccepted_iff hn, hsize, hblock]
    refine ⟨?_, hlen, hfec⟩
    rw [isErasure, Bool.and_eq_false_iff]
    exact .inl (beq_false_of_ne hid)
  have hstore := push_stores hpos hslots hacc pushNow
  rw [hsize] at hstore
  exact mem_handleEvent hparse hstore

/-! ## The first frame is added -/

/-- A builder without symbols takes the first fragment. -/
theorem addPacket_adds (wh : Wirehair) (clk : Nat → Nat) {pl : TxPipeline}
    (hk : 0 < pl.builder.kLimit) (hempty : pl.builder.symbolCount = 0) (n : Nat) :
    ⟨.addSymbol, pl.builder.symbolSize⟩ ∈ addPacketAccesses wh clk (n + 1) pl := by
  have hno : ¬ (0 < n + 1 ∧ 0 < pl.builder.symbolCount ∧
      pl.builder.kLimit < pl.builder.symbolCount + (n + 1)) := by
    rw [hempty]
    omega
  have hadd : addSymbolAccesses pl.builder = [⟨.addSymbol, pl.builder.symbolSize⟩] := by
    rw [addSymbolAccesses, if_neg (by omega), if_neg (by omega)]
  rw [addPacketAccesses]
  simp only [if_neg hno, List.nil_append, ne_eq, not_true_eq_false, if_false]
  rw [List.range_succ_eq_map, List.map_cons, addFragmentsAccesses, hadd]
  exact List.mem_append_left _ List.mem_cons_self

/-- A frame of one byte is one fragment. -/
theorem fragmentPacket_byte (c : UInt8) (packetId : UInt32) {symbolSize maxSymbols : UInt16}
    (hss : 0 < symbolSize.toNat) (hfits : symbolSize.toNat ≤ maxSymbolDataSize)
    (hmax : 0 < maxSymbols.toNat) (out : Nat → Symbol) :
    (fragmentPacket [c] packetId symbolSize out maxSymbols).1 = 1 := by
  have hcount : fragmentCount [c].length symbolSize.toNat = 1 := by
    rw [fragmentCount, List.length_singleton, Nat.add_sub_cancel_left, Nat.div_self hss]
  rcases fragmentPacket_spec [c] packetId hss hfits out maxSymbols with ⟨hlt, -⟩ | ⟨-, h, -⟩
  · rw [hcount] at hlt
    omega
  · rw [h, hcount]
    rfl

/-- **The first frame** that a transmitter accepts is added to a block, with as
    many bytes as the symbol size says. -/
theorem tx_adds {pl : TxPipeline} {mem : Nat → Nat → Symbol} {lanMac : List UInt8}
    {cfg : Config} (hc : txPipelineCreate mem lanMac cfg = some pl) (hsize : FragSizeOk cfg)
    (wh : Wirehair) (clk : Nat → Nat) (c : UInt8) :
    ⟨.addSymbol, cfg.symbolSize⟩ ∈ txAccessesOnce wh clk pl (.frame [c] false) := by
  obtain ⟨hk, hss, hdepth, hlen, builder, fec, il, hb, -, -, rfl⟩ := txPipelineCreate_some hc
  rw [blockBuilderInit, if_neg (by omega)] at hb
  have hmax : 0 < (UInt16.ofNat
      (max ((txMaxPacketLen + cfg.symbolSize - 1) / cfg.symbolSize) cfg.k)).toNat := by
    have hceil : (txMaxPacketLen + cfg.symbolSize - 1) / cfg.symbolSize ≤ txMaxPacketLen :=
      fragmentCount_le hss
    have h9000 : txMaxPacketLen = 9000 := rfl
    have hblock : maxSymbolsPerBlock = 256 := rfl
    rw [UInt16.toNat_ofNat']
    omega
  have htake : [c].take txRxBufSize = [c] := rfl
  have hown : ∀ p : TxPipeline, isOwnFrame p [c] = false := fun _ => rfl
  rw [← Option.some.inj hb, txAccessesOnce]
  dsimp only
  rw [htake, hown, if_neg Bool.false_ne_true, if_neg Bool.false_ne_true,
    fragmentPacket_byte c 0 hsize.pos hsize.fits hmax, if_neg (by decide)]
  refine List.mem_append_right _ ?_
  exact addPacket_adds wh clk (by show 0 < cfg.k; omega) rfl 0

/-! ## Within the array -/

/-- Both pipelines stay within the arrays of their symbols, whatever the codec, the
    clock and the traffic. -/
structure StaysInBounds (tx : TxPipeline) (rx : RxPipeline) : Prop where
  tx : ∀ wh clk evs, ∀ a ∈ txAccessesRun wh clk evs tx, a.InBounds
  rx : ∀ wh calls, ∀ a ∈ rxAccessesRun wh calls rx, a.InBounds

/-- A symbol without a payload, for the first position of block 1. -/
def firstSymbol : Symbol := symbolComputeCrc { symbolInit with packetId := 1 }

/-- It is stored by any receiver that was just created. -/
theorem firstSymbol_stored {rx : RxPipeline} {mem : Buffer} {cfg : Config}
    (hc : rxPipelineCreate mem cfg = some rx) (wh : Wirehair) :
    ⟨.storeSymbol, cfg.symbolSize⟩
      ∈ rxAccessesRun wh [⟨.frame (serializeSymbol firstSymbol), 0, 0⟩] rx := by
  have hfec : 0 < cfg.k + cfg.m := by
    obtain ⟨hok, hcfg, -⟩ := rxOk_create hc
    have hk := hok.shape.source
    rw [hcfg] at hk
    omega
  have hstore := rx_stores hc wh (s := firstSymbol) (by decide) (Nat.zero_le _)
    (Nat.zero_le _) hfec (symbolVerifyCrc_compute _) 0 0
  rw [rxAccessesRun]
  exact List.mem_append_left _ hstore

/-- **Symbol buffers.**  Take any command line that `config_parse` accepts and for
    which both pipelines are created: they stay within the arrays exactly when the
    symbol size is at most `MAX_SYMBOL_DATA_SIZE`. -/
theorem staysInBounds_iff (options : List CliOption) (positional : Bool) (cfg : CliConfig)
    (_hcfg : configParse options positional = some cfg)
    (txMem : Nat → Nat → Symbol) (lanMac : List UInt8) (rxMem : Buffer)
    (tx : TxPipeline) (rx : RxPipeline)
    (htx : txPipelineCreate txMem lanMac cfg.toConfig = some tx)
    (hrx : rxPipelineCreate rxMem cfg.toConfig = some rx) :
    StaysInBounds tx rx ↔ cfg.symbolSize.1 ≤ maxSymbolDataSize := by
  constructor
  · intro h
    exact h.rx parity _ _ (firstSymbol_stored hrx parity)
  · intro hss
    constructor
    · intro wh clk evs a ha
      exact inBounds_of_sized (sized_txRun wh clk evs (FsoTxPipeline.sizes_create htx) a ha) hss
    · intro wh calls a ha
      exact inBounds_of_sized (sized_rxRun wh calls (FsoRxPipeline.sizes_create hrx) a ha) hss

theorem four_le_intMax : 4 ≤ intMax := by decide

/-- What `--k 2 --m 1 --depth 2 --symbol-size 4` sets. -/
def smallCli : CliConfig :=
  { configSetDefaults with
    k := ⟨2, by decide⟩
    m := ⟨1, by decide⟩
    depth := ⟨2, by decide⟩
    symbolSize := ⟨4, four_le_intMax⟩ }

/-- Four bytes fit. -/
theorem staysInBounds_smallCli :
    configParse [.k [50], .m [49], .depth [50], .symbolSize [52]] false = some smallCli ∧
      StaysInBounds smallPipeline ((rxPipelineCreate (fun _ => 0) smallLink).get rfl) := by
  have hparse : configParse [.k [50], .m [49], .depth [50], .symbolSize [52]] false
      = some smallCli := by decide +kernel
  refine ⟨hparse, ?_⟩
  exact (staysInBounds_iff _ false smallCli hparse (fun _ _ => symbolInit) [] (fun _ => 0)
    smallPipeline _ rfl rfl).mpr (by decide)

/-- What `--symbol-size 9001` sets. -/
def jumboCli : CliConfig := { configSetDefaults with symbolSize := ⟨9001, by decide⟩ }

/-- One byte more than the array has: accepted, and the first symbol that is
    received overruns it. -/
theorem jumbo_symbol_overruns :
    ∃ cfg tx rx,
      configParse [.symbolSize [57, 48, 48, 49]] false = some cfg ∧
      txPipelineCreate (fun _ _ => symbolInit) [] cfg.toConfig = some tx ∧
      rxPipelineCreate (fun _ => 0) cfg.toConfig = some rx ∧
      ⟨.storeSymbol, 9001⟩
        ∈ rxAccessesRun parity [⟨.frame (serializeSymbol firstSymbol), 0, 0⟩] rx ∧
      ¬ StaysInBounds tx rx := by
  have hparse : configParse [.symbolSize [57, 48, 48, 49]] false = some jumboCli := by
    decide +kernel
  have hrx : rxPipelineCreate (fun _ => 0) jumboCli.toConfig
      = some ((rxPipelineCreate (fun _ => 0) jumboCli.toConfig).get rfl) :=
    (Option.some_get _).symm
  have hstored : ⟨.storeSymbol, 9001⟩
      ∈ rxAccessesRun parity [⟨.frame (serializeSymbol firstSymbol), 0, 0⟩]
        ((rxPipelineCreate (fun _ => 0) jumboCli.toConfig).get rfl) :=
    firstSymbol_stored hrx parity
  refine ⟨jumboCli, _, _, hparse, rfl, hrx, hstored, ?_⟩
  intro h
  exact absurd (h.rx _ _ _ hstored) (by decide)

end FsoBufferBounds
