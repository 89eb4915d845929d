import FsoGateway.Reassembly
import FsoGateway.Recoverability

/-! # The drain loop ends

    `drain_ready_blocks` is a `while` loop around `get_ready_block`; only a
    `mark_result` that finds its slot takes it forward.

    * `DrainsTo` — the executions of the loop that come to an end, with one
      `Turn` for each block;
    * `drainAccesses` — what one turn reads and writes of `recon_buf`, of
      `pkt_syms_buf` and of `reassem_buf`, in the order of the source;
    * `Reaches` — the states of a receiver, whatever symbols are pushed;
    * `drain_ends` — from each of them the loop ends, with one `mark_result`
      for each READY block and every access within its buffer. -/

namespace FsoRxPipeline

open ByteBuffer FsoTypes FecWrapper FsoDeinterleaver PacketReassembler Reassembly FsoLink

/-! ## Accesses -/

/-- An access to one of the buffers of `drain_ready_blocks`: an element of
    `pkt_syms_buf`, or a range of bytes. -/
inductive Access where
  | reconBuf (off len : Nat)
  | pktSyms (i : Nat)
  | pktSymsData (i len : Nat)
  | reconstructedData (len : Nat)
  | reassemBuf (off len : Nat)

/-- The sizes: `recon_buf` is `k * symbol_size` bytes long. -/
def Access.InBounds (cfg : Config) : Access → Prop
  | .reconBuf off len => off + len ≤ cfg.k * cfg.symbolSize
  | .pktSyms i => i < maxSymbolsPerBlock
  | .pktSymsData i len => i < maxSymbolsPerBlock ∧ len ≤ maxSymbolDataSize
  | .reconstructedData len => len ≤ maxSymbolDataSize
  | .reassemBuf off len => off + len ≤ reassemBufSize

/-- `fec_decode_block` clears the output and lets Wirehair write it, once the
    feed loop has succeeded. -/
def fecDecodeAccesses (wh : Wirehair) (ctx : FecCtx) (symbols : Nat → Symbol)
    (symbolCount scanCapacity : Nat) : List Access :=
  let scanCapacity := if scanCapacity < symbolCount then symbolCount else scanCapacity
  match fecCheckCounts ctx (fecCountValidSymbols symbols scanCapacity) scanCapacity with
  | some _ => []
  | none =>
      match wh.decoding.create ctx.blockBytes ctx.symbolSize with
      | none => []
      | some decoder =>
          let order := (fecBuildFeedOrder symbols scanCapacity ctx.k).1
          if (fecFeedLoop wh ctx symbols order decoder 0).1 ≠ .success then []
          else [.reconBuf 0 ctx.blockBytes, .reconBuf 0 ctx.blockBytes]

/-- The loop of `inferBase` from position `i` on. -/
def inferBaseAccesses (packetId : UInt32) (expected : UInt16) :
    Nat → List Symbol → List Access
  | _, [] => []
  | i, s :: rest =>
      .pktSyms i ::
        if expected ≤ s.symbolIndex ∨ s.packetId ≠ packetId ∨ s.totalSymbols ≠ expected
            ∨ s.symbolIndex.toNat ≠ expected.toNat - 1 then []
        else inferBaseAccesses packetId expected (i + 1) rest

/-- The copy loop from position `i` on. -/
def copySymbolsAccesses (base maxPacketSize : Nat) : Nat → List Symbol → List Access
  | _, [] => []
  | i, s :: rest =>
      .pktSyms i ::
        if maxPacketSize < endOf base s then []
        else
          .pktSymsData i s.payloadLen.toNat ::
          .reassemBuf (s.symbolIndex.toNat * base) s.payloadLen.toNat ::
          copySymbolsAccesses base maxPacketSize (i + 1) rest

/-- `reassemble_packet` on the first elements of `pkt_syms_buf`. -/
def reassemblePacketAccesses (group : List Symbol) (maxPacketSize : Nat) : List Access :=
  match group with
  | [] => []
  | first :: rest =>
      .pktSyms 0 ::
        if first.totalSymbols = 0 then []
        else if (first :: rest).length ≠ first.totalSymbols.toNat then []
        else
          inferBaseAccesses first.packetId first.totalSymbols 0 (first :: rest) ++
            match inferBase first.packetId first.totalSymbols (first :: rest) with
            | none => []
            | some none =>
                if maxPacketSize < first.payloadLen.toNat then []
                else
                  [.pktSymsData 0 first.payloadLen.toNat,
                    .reassemBuf 0 first.payloadLen.toNat]
            | some (some base) =>
                if base = 0 then []
                else
                  .reassemBuf 0 maxPacketSize ::
                    copySymbolsAccesses base.toNat maxPacketSize 0 (first :: rest)

/-- `arp_learn_from_packet`, with an ARP cache. -/
def arpLearnAccesses (pkt : Buffer) (pktLen : Nat) : List Access :=
  if pktLen < 42 then []
  else
    .reassemBuf 12 2 ::
      if pkt 12 ≠ 0x08 ∨ pkt 13 ≠ 0x06 then []
      else [.reassemBuf 28 4, .reassemBuf 22 6]

/-- A flush: clear the buffer, reassemble, learn, send. -/
def flushAccesses (group : List Symbol) : List Access :=
  let r := reassemblePacket group (fun _ => 0) reassemBufSize
  .reassemBuf 0 reassemBufSize :: reassemblePacketAccesses group reassemBufSize ++
    if 0 < r.1 then arpLearnAccesses r.2 r.1.toNat ++ [.reassemBuf 0 r.1.toNat] else []

/-- `addToGroup`. -/
def addToGroupAccesses (w : Walk) (sym : Symbol) : List Access :=
  let before : List Access :=
    if w.group = [] then []
    else
      .pktSyms 0 ::
        if isComplete w.group ∨ sym.symbolIndex = 0 then flushAccesses w.group else []
  let w := flushBefore w sym
  let add : List Access :=
    if w.group.length < maxSymbolsPerBlock then [.pktSyms w.group.length] else []
  let w :=
    if w.group.length < maxSymbolsPerBlock then { w with group := w.group ++ [sym] } else w
  let after : List Access :=
    if w.group = [] then []
    else .pktSyms 0 :: if isComplete w.group then flushAccesses w.group else []
  before ++ add ++ after

/-- `walkStep`. -/
def walkStepAccesses (cfg : Config) (symbols : Nat → Symbol) (recon : Buffer) (w : Walk)
    (i : Nat) : List Access :=
  if isSkipped cfg.k (symbols i) then []
  else
    .reconBuf (i * cfg.symbolSize) (symbols i).payloadLen.toNat ::
    .reconstructedData (symbols i).payloadLen.toNat ::
    addToGroupAccesses w (reconstruct cfg.symbolSize symbols recon i)

/-- The walk over some positions. -/
def walkAccesses (cfg : Config) (symbols : Nat → Symbol) (recon : Buffer) :
    Walk → List Nat → List Access
  | _, [] => []
  | w, i :: rest =>
      walkStepAccesses cfg symbols recon w i ++
        walkAccesses cfg symbols recon (walkStep cfg symbols recon w i) rest

/-- `blockFrames`. -/
def blockFramesAccesses (cfg : Config) (symbols : Nat → Symbol) (recon : Buffer) :
    List Access :=
  let w := walkSymbols cfg symbols recon cfg.k
  walkAccesses cfg symbols recon ⟨[], []⟩ (List.range cfg.k) ++
    if w.group = [] then [] else flushAccesses w.group

/-- One turn of the loop of `drain_ready_blocks`. -/
def drainAccesses (wh : Wirehair) (pl : RxPipeline) (blk : Block) : List Access :=
  .reconBuf 0 (pl.cfg.k * pl.cfg.symbolSize) ::
    fecDecodeAccesses wh pl.fec blk.symbols blk.symbolCount blk.symbolsPerBlock ++
      if decodeFails (decoded wh pl blk) then []
      else blockFramesAccesses pl.cfg blk.symbols (decoded wh pl blk).outReconstructed

/-! ## The loop -/

/-- What one turn of the loop does: the block it takes, whether it could be
    decoded, what `mark_result` answered, and the accesses. -/
structure Turn where
  blockId : UInt32
  success : Bool
  markRc : Int
  accesses : List Access

/-- The turn for a block. -/
def turnOf (wh : Wirehair) (pl : RxPipeline) (blk : Block) : Turn :=
  let success := !decide (decodeFails (decoded wh pl blk))
  { blockId := blk.blockId.toUInt32
    success
    markRc := (deinterleaverMarkResult pl.dil blk.blockId.toUInt32 success).1
    accesses := drainAccesses wh pl blk }

/-- `while ((blk = deinterleaver_get_ready_block(pl->dil)) != NULL)`: the
    executions that come to an end. -/
inductive DrainsTo (wh : Wirehair) : RxPipeline → List Turn → RxPipeline → Prop where
  | done {pl : RxPipeline} (h : (deinterleaverGetReadyBlock pl.dil).1 = none) :
      DrainsTo wh pl [] (withDil pl (deinterleaverGetReadyBlock pl.dil).2)
  | turn {pl pl' : RxPipeline} {blk : Block} {turns : List Turn}
      (h : (deinterleaverGetReadyBlock pl.dil).1 = some blk)
      (rest : DrainsTo wh
        (drainBlock wh (withDil pl (deinterleaverGetReadyBlock pl.dil).2) blk) turns pl') :
      DrainsTo wh pl
        (turnOf wh (withDil pl (deinterleaverGetReadyBlock pl.dil).2) blk :: turns) pl'

/-- The loop is deterministic: when it ends, it never does otherwise. -/
theorem DrainsTo.unique {wh : Wirehair} {pl pl' pl'' : RxPipeline}
    {turns turns' : List Turn} (h : DrainsTo wh pl turns pl')
    (h' : DrainsTo wh pl turns' pl'') : turns = turns' ∧ pl' = pl'' := by
  induction h generalizing turns' with
  | done hnone =>
      cases h' with
      | done _ => exact ⟨rfl, rfl⟩
      | turn hsome _ =>
          rw [hnone] at hsome
          exact nomatch hsome
  | turn hsome _ ih =>
      cases h' with
      | done hnone =>
          rw [hsome] at hnone
          exact nomatch hnone
      | turn hsome' rest' =>
          rw [hsome] at hsome'
          cases Option.some.inj hsome'
          obtain ⟨h1, h2⟩ := ih rest'
          exact ⟨by rw [h1], h2⟩

/-! ## Every access is in bounds -/

/-- All of them. -/
def AllInBounds (cfg : Config) (l : List Access) : Prop := ∀ a ∈ l, a.InBounds cfg

section InBounds

variable {cfg : Config}

theorem allInBounds_nil : AllInBounds cfg [] := fun _ h => nomatch h

theorem allInBounds_cons {a : Access} {l : List Access} (ha : a.InBounds cfg)
    (hl : AllInBounds cfg l) : AllInBounds cfg (a :: l) :=
  List.forall_mem_cons.mpr ⟨ha, hl⟩

theorem allInBounds_append {l l' : List Access} (hl : AllInBounds cfg l)
    (hl' : AllInBounds cfg l') : AllInBounds cfg (l ++ l') :=
  List.forall_mem_append.mpr ⟨hl, hl'⟩

/-- What `pkt_syms_buf` holds between two turns of the walk. -/
structure GroupOk (group : List Symbol) : Prop where
  room : group.length ≤ maxSymbolsPerBlock
  payload : ∀ s ∈ group, s.payloadLen.toNat ≤ maxSymbolDataSize

theorem inferBaseAccesses_inBounds (packetId : UInt32) (expected : UInt16) {i : Nat}
    {l : List Symbol} (h : i + l.length ≤ maxSymbolsPerBlock) :
    AllInBounds cfg (inferBaseAccesses packetId expected i l) := by
  induction l generalizing i with
  | nil => exact allInBounds_nil
  | cons s l ih =>
      rw [List.length_cons] at h
      rw [inferBaseAccesses]
      refine allInBounds_cons (show i < maxSymbolsPerBlock by omega) ?_
      split
      · exact allInBounds_nil
      · exact ih (by omega)

theorem copySymbolsAccesses_inBounds (base : Nat) {i : Nat} {l : List Symbol}
    (h : i + l.length ≤ maxSymbolsPerBlock)
    (hpay : ∀ s ∈ l, s.payloadLen.toNat ≤ maxSymbolDataSize) :
    AllInBounds cfg (copySymbolsAccesses base reassemBufSize i l) := by
  induction l generalizing i with
  | nil => exact allInBounds_nil
  | cons s l ih =>
      rw [List.length_cons] at h
      rw [copySymbolsAccesses]
      have hi : i < maxSymbolsPerBlock := by omega
      refine allInBounds_cons hi ?_
      split
      · exact allInBounds_nil
      · rename_i hfit
        refine allInBounds_cons ⟨hi, hpay s List.mem_cons_self⟩ (allInBounds_cons ?_ ?_)
        · exact Nat.not_lt.mp hfit
        · exact ih (by omega) fun x hx => hpay x (List.mem_cons_of_mem s hx)

theorem reassemblePacketAccesses_inBounds {group : List Symbol} (h : GroupOk group) :
    AllInBounds cfg (reassemblePacketAccesses group reassemBufSize) := by
  cases group with
  | nil => exact allInBounds_nil
  | cons first rest =>
      have hroom : 0 + (first :: rest).length ≤ maxSymbolsPerBlock := by
        rw [Nat.zero_add]
        exact h.room
      have h0 : 0 < maxSymbolsPerBlock := by decide
      rw [reassemblePacketAccesses]
      refine allInBounds_cons h0 ?_
      split
      · exact allInBounds_nil
      split
      · exact allInBounds_nil
      refine allInBounds_append (inferBaseAccesses_inBounds _ _ hroom) ?_
      split
      · exact allInBounds_nil
      · split
        · exact allInBounds_nil
        · rename_i hfit
          refine allInBounds_cons ⟨h0, h.payload first List.mem_cons_self⟩
            (allInBounds_cons ?_ allInBounds_nil)
          show 0 + _ ≤ _
          omega
      · split
        · exact allInBounds_nil
        · exact allInBounds_cons (Nat.le_of_eq (Nat.zero_add _))
            (copySymbolsAccesses_inBounds _ hroom h.payload)

theorem arpLearnAccesses_inBounds (pkt : Buffer) (pktLen : Nat) :
    AllInBounds cfg (arpLearnAccesses pkt pktLen) := by
  have hin : ∀ off len, off + len ≤ 42 → (Access.reassemBuf off len).InBounds cfg :=
    fun off len h => Nat.le_trans h (by decide)
  rw [arpLearnAccesses]
  split
  · exact allInBounds_nil
  · refine allInBounds_cons (hin 12 2 (by decide)) ?_
    split
    · exact allInBounds_nil
    · exact allInBounds_cons (hin 28 4 (by decide))
        (allInBounds_cons (hin 22 6 (by decide)) allInBounds_nil)

theorem flushAccesses_inBounds {group : List Symbol} (h : GroupOk group) :
    AllInBounds cfg (flushAccesses group) := by
  rw [flushAccesses]
  refine allInBounds_append (allInBounds_cons (Nat.le_of_eq (Nat.zero_add _))
    (reassemblePacketAccesses_inBounds h)) ?_
  split
  · refine allInBounds_append (arpLearnAccesses_inBounds _ _)
      (allInBounds_cons ?_ allInBounds_nil)
    have hle := reassemblePacket_le group (fun _ => 0) reassemBufSize
    show 0 + _ ≤ reassemBufSize
    omega
  · exact allInBounds_nil

theorem groupOk_nil : GroupOk [] := ⟨Nat.zero_le _, fun _ h => nomatch h⟩

theorem groupOk_flushBefore {w : Walk} (h : GroupOk w.group) (sym : Symbol) :
    GroupOk (flushBefore w sym).group := by
  rw [flushBefore]
  split
  · exact groupOk_nil
  · exact h

/-- The group with one symbol more, if there is room. -/
theorem groupOk_add {w : Walk} {sym : Symbol} (h : GroupOk w.group)
    (hsym : sym.payloadLen.toNat ≤ maxSymbolDataSize) :
    GroupOk (if w.group.length < maxSymbolsPerBlock then
      { w with group := w.group ++ [sym] } else w).group := by
  split
  · rename_i hroom
    constructor
    · show (w.group ++ [sym]).length ≤ _
      rw [List.length_append, List.length_singleton]
      omega
    · intro s hs
      rcases List.mem_append.mp hs with hs | hs
      · exact h.payload s hs
      · rw [List.mem_singleton.mp hs]
        exact hsym
  · exact h

theorem groupOk_addToGroup {w : Walk} {sym : Symbol} (h : GroupOk w.group)
    (hsym : sym.payloadLen.toNat ≤ maxSymbolDataSize) :
    GroupOk (addToGroup w sym).group := by
  rw [addToGroup]
  have hadd := groupOk_add (groupOk_flushBefore h sym) hsym
  generalize (if (flushBefore w sym).group.length < maxSymbolsPerBlock then
    { flushBefore w sym with group := (flushBefore w sym).group ++ [sym] }
    else flushBefore w sym) = added at hadd ⊢
  split
  · exact groupOk_nil
  · exact hadd

theorem addToGroupAccesses_inBounds {w : Walk} {sym : Symbol} (h : GroupOk w.group)
    (hsym : sym.payloadLen.toNat ≤ maxSymbolDataSize) :
    AllInBounds cfg (addToGroupAccesses w sym) := by
  have hflush : ∀ {group : List Symbol} (c : Prop) [Decidable c], GroupOk group →
      AllInBounds cfg (if group = [] then []
        else .pktSyms 0 :: if c then flushAccesses group else []) := by
    intro group c _ hg
    split
    · exact allInBounds_nil
    · refine allInBounds_cons (by decide : 0 < maxSymbolsPerBlock) ?_
      split
      · exact flushAccesses_inBounds hg
      · exact allInBounds_nil
  have hbefore := groupOk_flushBefore h sym
  rw [addToGroupAccesses]
  refine allInBounds_append (allInBounds_append (hflush _ h) ?_)
    (hflush _ (groupOk_add hbefore hsym))
  split
  · rename_i hroom
    exact allInBounds_cons hroom allInBounds_nil
  · exact allInBounds_nil

/-- **The walk** over source positions whose payload fits. -/
theorem walkAccesses_inBounds {symbols : Nat → Symbol} (recon : Buffer) (l : List Nat)
    (hss : cfg.symbolSize ≤ maxSymbolDataSize)
    (hpay : ∀ p, (symbols p).payloadLen.toNat ≤ cfg.symbolSize) (hl : ∀ i ∈ l, i < cfg.k)
    {w : Walk} (h : GroupOk w.group) :
    AllInBounds cfg (walkAccesses cfg symbols recon w l) ∧
      GroupOk (l.foldl (walkStep cfg symbols recon) w).group := by
  induction l generalizing w with
  | nil => exact ⟨allInBounds_nil, h⟩
  | cons i l ih =>
      have hfit : (symbols i).payloadLen.toNat ≤ maxSymbolDataSize := (hpay i).trans hss
      have hstep : AllInBounds cfg (walkStepAccesses cfg symbols recon w i) ∧
          GroupOk (walkStep cfg symbols recon w i).group := by
        rw [walkStepAccesses, walkStep]
        split
        · exact ⟨allInBounds_nil, h⟩
        · refine ⟨allInBounds_cons ?_ (allInBounds_cons hfit ?_), ?_⟩
          · -- the bytes of position `i` end where those of `i + 1` begin
            have hend : (i + 1) * cfg.symbolSize ≤ cfg.k * cfg.symbolSize :=
              Nat.mul_le_mul_right _ (hl i List.mem_cons_self)
            have hlen := hpay i
            rw [Nat.succ_mul] at hend
            show i * cfg.symbolSize + _ ≤ _
            omega
          · exact addToGroupAccesses_inBounds h hfit
          · exact groupOk_addToGroup h hfit
      obtain ⟨hrest, hgroup⟩ := ih (fun j hj => hl j (List.mem_cons_of_mem i hj)) hstep.2
      exact ⟨allInBounds_append hstep.1 hrest, hgroup⟩

theorem blockFramesAccesses_inBounds {symbols : Nat → Symbol} (recon : Buffer)
    (hss : cfg.symbolSize ≤ maxSymbolDataSize)
    (hpay : ∀ p, (symbols p).payloadLen.toNat ≤ cfg.symbolSize) :
    AllInBounds cfg (blockFramesAccesses cfg symbols recon) := by
  obtain ⟨hwalk, hgroup⟩ := walkAccesses_inBounds recon (List.range cfg.k) hss hpay
    (fun i hi => List.mem_range.mp hi) groupOk_nil (w := ⟨[], []⟩)
  rw [blockFramesAccesses]
  refine allInBounds_append hwalk ?_
  split
  · exact allInBounds_nil
  · exact flushAccesses_inBounds hgroup

theorem fecDecodeAccesses_inBounds (wh : Wirehair) (symbols : Nat → Symbol)
    (symbolCount scanCapacity : Nat) :
    AllInBounds cfg
      (fecDecodeAccesses wh ⟨cfg.k, cfg.symbolSize⟩ symbols symbolCount scanCapacity) := by
  have hblock : (Access.reconBuf 0 (FecCtx.blockBytes ⟨cfg.k, cfg.symbolSize⟩)).InBounds cfg :=
    Nat.le_of_eq (Nat.zero_add _)
  rw [fecDecodeAccesses]
  generalize (if scanCapacity < symbolCount then symbolCount else scanCapacity) = capacity
  dsimp only
  split
  · exact allInBounds_nil
  · split
    · exact allInBounds_nil
    · split
      · exact allInBounds_nil
      · exact allInBounds_cons hblock (allInBounds_cons hblock allInBounds_nil)

end InBounds

/-- **One turn** on a slot whose payload lengths fit. -/
theorem drainAccesses_inBounds (wh : Wirehair) {pl : RxPipeline}
    {seen : UInt32 → List Symbol} (h : ResidueOk pl seen)
    (hss : pl.cfg.symbolSize ≤ maxSymbolDataSize) (i : Nat) :
    AllInBounds pl.cfg (drainAccesses wh pl (pl.dil.slots i).block) := by
  rw [drainAccesses, h.ok.shape.fec]
  refine allInBounds_append (allInBounds_cons (Nat.le_of_eq (Nat.zero_add _))
    (fecDecodeAccesses_inBounds wh _ _ _)) ?_
  split
  · exact allInBounds_nil
  · exact blockFramesAccesses_inBounds _ hss (h.residue i)

/-! ## Reachable states -/

/-- The states of a receiver: clock ticks, dropped frames, pushes of symbols
    with any header, and drains, in any order. -/
inductive Reaches (wh : Wirehair) (mem : Buffer) (cfg : Config) : RxPipeline → Prop where
  | create {pl : RxPipeline} (h : rxPipelineCreate mem cfg = some pl) : Reaches wh mem cfg pl
  | tick {pl : RxPipeline} (now : Nat) (h : Reaches wh mem cfg pl) :
      Reaches wh mem cfg (withDil pl (deinterleaverTick pl.dil (-1) now).2)
  | crcDrop {pl : RxPipeline} (h : Reaches wh mem cfg pl) :
      Reaches wh mem cfg (withDil pl (deinterleaverIncCrcDrop pl.dil))
  | push {pl : RxPipeline} (sym : Symbol) (now : Nat) (h : Reaches wh mem cfg pl) :
      Reaches wh mem cfg (withDil pl (deinterleaverPushSymbol pl.dil sym now).2)
  | drain {pl : RxPipeline} (h : Reaches wh mem cfg pl) :
      Reaches wh mem cfg (drainReadyBlocks wh pl)

section Reaching

variable {wh : Wirehair} {mem : Buffer} {cfg : Config} {pl : RxPipeline}

/-- A call of `rx_pipeline_run_once` is made of these steps. -/
theorem Reaches.runOnce (h : Reaches wh mem cfg pl) (call : RxCall) :
    Reaches wh mem cfg (rxPipelineRunOnce wh pl call) := by
  have ht : Reaches wh mem cfg (ticked pl call) := h.tick call.tickNow
  cases he : call.event with
  | idle =>
      rw [runOnce_idle he]
      exact ht.drain
  | error =>
      rw [runOnce_error he]
      exact ht
  | frame wire =>
      cases hf : parseFrame pl.cfg (wire.take rxWireBufSize) with
      | dropped =>
          rw [runOnce_dropped he hf]
          exact ht
      | crcFail =>
          rw [runOnce_crcFail he hf]
          exact ht.crcDrop
      | symbol sym =>
          rw [runOnce_symbol he hf]
          exact (ht.push sym call.pushNow).drain

/-- So the states after any run are among them. -/
theorem Reaches.run (h : Reaches wh mem cfg pl) (calls : List RxCall) :
    Reaches wh mem cfg (rxRun wh calls pl) := by
  induction calls generalizing pl with
  | nil => exact h
  | cons call calls ih => exact ih (h.runOnce call)

theorem Reaches.residueOk (h : Reaches wh mem cfg pl) :
    pl.cfg = cfg ∧ ∃ seen, ResidueOk pl seen := by
  induction h with
  | create hcreate =>
      obtain ⟨hok, hcfg, -, -, -, hslots⟩ := rxOk_create hcreate
      refine ⟨hcfg, _, hok, ?_⟩
      intro i p
      rw [hslots i]
      exact Nat.zero_le _
  | tick now _ ih =>
      obtain ⟨hcfg, seen, hseen⟩ := ih
      exact ⟨hcfg, seen, (residueOk_closed wh).tick now hseen⟩
  | crcDrop _ ih =>
      obtain ⟨hcfg, seen, hseen⟩ := ih
      exact ⟨hcfg, seen, (residueOk_closed wh).crcDrop hseen⟩
  | push sym now _ ih =>
      obtain ⟨hcfg, seen, hseen⟩ := ih
      exact ⟨hcfg, _, (residueOk_closed wh).push sym now trivial hseen⟩
  | drain _ ih =>
      obtain ⟨hcfg, seen, hseen⟩ := ih
      have hspec := (drainReadyBlocks_spec wh hseen.ok.pool).1
      exact ⟨hspec.cfg.trans hcfg, seen, (residueOk_closed wh).drainLoop _ hseen⟩

/-! ## The loop ends -/

/-- **The loop**: one turn for each READY slot, in the order of the pool. -/
theorem drainsTo_ready {seen : UInt32 → List Symbol} (h : ResidueOk pl seen)
    (hss : pl.cfg.symbolSize ≤ maxSymbolDataSize) :
    ∃ turns, DrainsTo wh pl turns (drainReadyBlocks wh pl) ∧
      turns.map Turn.blockId = (readyList pl.dil).map (fun i => (pl.dil.slots i).blockId) ∧
      ∀ t ∈ turns, t.markRc = 0 ∧ AllInBounds pl.cfg t.accesses := by
  generalize hl : readyList pl.dil = l
  induction l generalizing pl with
  | nil =>
      refine ⟨[], ?_, rfl, fun _ ht => nomatch ht⟩
      have hget := getReady_eq h.ok.pool
      rw [findReady_eq, hl] at hget
      have hdone := @DrainsTo.done wh pl (by rw [hget]; rfl)
      rw [hget] at hdone
      rw [drainReadyBlocks_nil wh hl]
      exact hdone
  | cons i l ih =>
      -- the first READY slot is drained; the list of the rest is unchanged
      obtain ⟨hi, hs⟩ := mem_readyList.mp (hl ▸ List.mem_cons_self : i ∈ readyList pl.dil)
      have hne := ready_ne_empty hs
      obtain ⟨hrest, hstep⟩ := drainReadyBlocks_cons wh h.ok.pool hl
      have hspec := drainBlock_spec wh h.ok.pool hi hs
      have hcfg : (drainBlock wh pl (pl.dil.slots i).block).cfg = pl.cfg := by
        rw [hspec]
      obtain ⟨turns, hrun, hids, hturns⟩ :=
        ih ((residueOk_closed wh).drain h hi hs) (by rw [hcfg]; exact hss) hrest
      have hget := getReady_eq h.ok.pool
      rw [findReady_eq, hl] at hget
      have hid : (pl.dil.slots i).block.blockId.toUInt32 = (pl.dil.slots i).blockId := by
        rw [(h.ok.pool.slot i hi hne).content.blockId]
        exact UInt32.toUInt32_toUInt64 _
      refine ⟨turnOf wh pl (pl.dil.slots i).block :: turns, ?_, ?_, ?_⟩
      · have hturn := @DrainsTo.turn wh pl (drainReadyBlocks wh pl) (pl.dil.slots i).block
          turns (by rw [hget]; rfl)
        rw [hget] at hturn
        exact hturn (by rw [hstep]; exact hrun)
      · -- the other slots keep their block
        have hnd : (i :: l).Nodup := by
          rw [← hl]
          exact List.nodup_range.filter _
        rw [List.map_cons, List.map_cons, hids]
        refine congr (congrArg List.cons hid) (List.map_congr_left fun j hj => ?_)
        have hji : j ≠ i := by
          rintro rfl
          exact (List.nodup_cons.mp hnd).1 hj
        rw [hspec]
        show ((finalizeAndResetSlot pl.dil i _).slots j).blockId = _
        rw [finalize_slots _ hne, Function.update_of_ne hji]
      · intro t ht
        rcases List.mem_cons.mp ht with rfl | ht
        · refine ⟨?_, drainAccesses_inBounds wh h hss i⟩
          show (deinterleaverMarkResult pl.dil _ _).1 = 0
          rw [hid, deinterleaverMarkResult, findSlotAny_eq h.ok.pool hi hne]
          show (if _ then _ else _ : Int × Deinterleaver).1 = 0
          rw [if_neg (not_not_intro hs)]
        · rw [hcfg] at hturns
          exact hturns t ht

/-- What `drain_ready_blocks` owes its caller. -/
structure Drains (wh : Wirehair) (pl pl' : RxPipeline) (turns : List Turn) : Prop where
  run : DrainsTo wh pl turns pl'
  once : ∀ i < pl.dil.maxActiveBlocks, (pl.dil.slots i).state = .readyToDecode →
    (turns.filter fun t => t.blockId == (pl.dil.slots i).blockId).length = 1
  only : ∀ t ∈ turns, ∃ i < pl.dil.maxActiveBlocks,
    (pl.dil.slots i).state = .readyToDecode ∧ t.blockId = (pl.dil.slots i).blockId
  marked : ∀ t ∈ turns, t.markRc = 0
  drained : ∀ i < pl'.dil.maxActiveBlocks, (pl'.dil.slots i).state ≠ .readyToDecode
  inBounds : ∀ t ∈ turns, AllInBounds pl.cfg t.accesses

/-- **The drain loop ends.** From every reachable state of a receiver whose
    symbols fit the array, each READY block gets one `mark_result`, which
    succeeds, no slot is READY afterwards, and no access leaves its buffer. -/
theorem drain_ends (hss : cfg.symbolSize ≤ maxSymbolDataSize) (h : Reaches wh mem cfg pl) :
    ∃ turns, Drains wh pl (drainReadyBlocks wh pl) turns := by
  obtain ⟨hcfg, seen, hseen⟩ := h.residueOk
  obtain ⟨turns, hrun, hids, hturns⟩ := @drainsTo_ready wh pl seen hseen (by rw [hcfg]; exact hss)
  have hpool := hseen.ok.pool
  have heff := (drainReadyBlocks_spec wh hpool).1
  refine ⟨turns, hrun, ?_, ?_, fun t ht => (hturns t ht).1, ?_, fun t ht => (hturns t ht).2⟩
  · intro i hi hs
    -- the ids of the READY slots differ, so the id of slot `i` comes up once
    have hnd : ((readyList pl.dil).map fun j => (pl.dil.slots j).blockId).Nodup := by
      refine (List.nodup_range.filter _).map_on ?_
      intro a ha b hb hab
      obtain ⟨ha1, ha2⟩ := mem_readyList.mp ha
      obtain ⟨hb1, hb2⟩ := mem_readyList.mp hb
      exact hpool.distinct a b ha1 hb1 (ready_ne_empty ha2) (ready_ne_empty hb2) hab
    have hmem : (pl.dil.slots i).blockId ∈ turns.map Turn.blockId := by
      rw [hids]
      exact List.mem_map.mpr ⟨i, mem_readyList.mpr ⟨hi, hs⟩, rfl⟩
    rw [← hids] at hnd
    have hcount := List.count_eq_one_of_mem hnd hmem
    rw [List.count, List.countP_map, List.countP_eq_length_filter] at hcount
    exact hcount
  · intro t ht
    have hmem : t.blockId ∈ turns.map Turn.blockId := List.mem_map.mpr ⟨t, ht, rfl⟩
    rw [hids] at hmem
    obtain ⟨i, hi, heq⟩ := List.mem_map.mp hmem
    obtain ⟨hi, hs⟩ := mem_readyList.mp hi
    exact ⟨i, hi, hs, heq.symm⟩
  · intro i hi
    rw [heff.params.maxActiveBlocks] at hi
    rw [heff.slots i]
    split
    · show BlockState.empty ≠ .readyToDecode
      exact BlockState.noConfusion
    · rename_i hnot
      intro hs
      exact hnot (mem_readyList.mpr ⟨hi, hs⟩)

end Reaching

/-- The symbol that `sourceWire` carries. -/
def sourceOf (id : UInt32) (i : Nat) : Symbol :=
  FsoTxPipeline.stampSource plainLink id i
    (PacketFragmenter.fragment [1, 2, 3, 4, 5, 6, 7, 8] 0 4 i)

/-- A receiver that was given symbol `i` of block `id`. -/
def receives (pl : RxPipeline) (id : UInt32) (i : Nat) : RxPipeline :=
  withDil pl (deinterleaverPushSymbol pl.dil (sourceOf id i) 0).2

/-- Both source symbols of block 1, and 2 ms of silence. -/
def promotedReceiver : RxPipeline :=
  withDil (receives (receives plainReceiver 1 0) 1 1)
    (deinterleaverTick (receives (receives plainReceiver 1 0) 1 1).dil (-1) 2000000).2

/-- `drain_ends` where one block is READY. -/
theorem drain_ends_promoted :
    deinterleaverReadyCount promotedReceiver.dil = 1 ∧
      ∃ turns, Drains ErasureCode.parity promotedReceiver
        (drainReadyBlocks ErasureCode.parity promotedReceiver) turns := by
  have hcreated : Reaches ErasureCode.parity (fun _ => 0) plainLink plainReceiver := .create rfl
  have hreached : Reaches ErasureCode.parity (fun _ => 0) plainLink promotedReceiver :=
    ((hcreated.push (sourceOf 1 0) 0).push (sourceOf 1 1) 0).tick 2000000
  have hss : plainLink.symbolSize ≤ maxSymbolDataSize := by decide
  exact ⟨by decide +kernel, drain_ends hss hreached⟩

end FsoRxPipeline
