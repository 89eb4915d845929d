import FsoGateway.LogWatch

/-! # How far the tail is from the end of the file

    * `rank_poll`, `rank_append` — a bound on the system calls of the tail until
      it has read the first bytes of the file at the path, which each of them
      lowers and no appended byte raises;
    * `rank_run` — so enough of them read all that was there. -/

namespace FsoLogSource

open Runs

/-- The reads that `n` bytes take. -/
def chunks (n : Nat) : Nat := (n + (chunkSize - 1)) / chunkSize

/-- Enough polls for a file of `n` bytes. -/
def patience (n : Nat) : Nat := 2 * chunks n + 11

theorem chunks_mono {m n : Nat} (h : m ≤ n) : chunks m ≤ chunks n :=
  Nat.div_le_div_right (Nat.add_le_add_right h _)

theorem chunks_sub {n : Nat} (h : chunkSize ≤ n) : chunks (n - chunkSize) + 1 = chunks n := by
  rw [chunks, chunks, chunkSize] at *
  omega

/-- Before the `stat`: the tail opens the file anew, goes on reading it, or will
    find that it has become shorter; or it has lost the file, and its next `read`
    does harm. -/
def statRank (n : Nat) (s : Sys) (f : LogFile) : Nat :=
  if s.fd ≠ .closed ∧ s.inode = some f.ino then
    if s.fd = .path then
      if InStep s f then 2 * chunks (n - s.offset) + 2
      else if f.content.length < s.offset then 2 * chunks n + 4
      else 2
    else 2
  else 2 * chunks n + 8

/-- Before the `read`: the tail goes on reading the file, or will notice at this
    `read` or at the next one that it has become shorter. -/
def readRank (n : Nat) (s : Sys) (f : LogFile) : Nat :=
  if s.inode = some f.ino then
    if s.fd = .path then
      if InStep s f then 2 * chunks (n - s.offset) + 1
      else if s.st.size < s.offset then 2 * chunks n + 3
      else if f.content.length < s.offset then 2 * chunks n + 5
      else 1
    else 1
  else 2 * chunks n + 9

theorem statRank_other {n : Nat} {s : Sys} {f : LogFile}
    (h : s.fd = .closed ∨ s.inode ≠ some f.ino) : statRank n s f = 2 * chunks n + 8 := by
  rw [statRank, if_neg]
  rintro ⟨hfd, hino⟩
  exact h.elim hfd (fun hne => hne hino)

theorem statRank_gone {n : Nat} {s : Sys} {f : LogFile} (hclosed : s.fd ≠ .closed)
    (hino : s.inode = some f.ino) (hfd : s.fd ≠ .path) : statRank n s f = 2 := by
  rw [statRank, if_pos ⟨hclosed, hino⟩, if_neg hfd]

theorem statRank_inStep {n : Nat} {s : Sys} {f : LogFile} (hfd : s.fd = .path)
    (hino : s.inode = some f.ino) (h : InStep s f) :
    statRank n s f = 2 * chunks (n - s.offset) + 2 := by
  have hclosed : s.fd ≠ .closed := by
    rw [hfd]
    exact Handle.noConfusion
  rw [statRank, if_pos ⟨hclosed, hino⟩, if_pos hfd, if_pos h]

theorem statRank_behind {n : Nat} {s : Sys} {f : LogFile} (hfd : s.fd = .path)
    (hino : s.inode = some f.ino) (h : ¬ InStep s f) :
    statRank n s f = if f.content.length < s.offset then 2 * chunks n + 4 else 2 := by
  have hclosed : s.fd ≠ .closed := by
    rw [hfd]
    exact Handle.noConfusion
  rw [statRank, if_pos ⟨hclosed, hino⟩, if_pos hfd, if_neg h]

theorem readRank_other {n : Nat} {s : Sys} {f : LogFile} (hino : s.inode ≠ some f.ino) :
    readRank n s f = 2 * chunks n + 9 := if_neg hino

theorem readRank_gone {n : Nat} {s : Sys} {f : LogFile} (hino : s.inode = some f.ino)
    (hfd : s.fd ≠ .path) : readRank n s f = 1 := by
  rw [readRank, if_pos hino, if_neg hfd]

theorem readRank_inStep {n : Nat} {s : Sys} {f : LogFile} (hfd : s.fd = .path)
    (hino : s.inode = some f.ino) (h : InStep s f) :
    readRank n s f = 2 * chunks (n - s.offset) + 1 := by
  rw [readRank, if_pos hino, if_pos hfd, if_pos h]

theorem readRank_behind {n : Nat} {s : Sys} {f : LogFile} (hfd : s.fd = .path)
    (hino : s.inode = some f.ino) (h : ¬ InStep s f) :
    readRank n s f = if s.st.size < s.offset then 2 * chunks n + 3
      else if f.content.length < s.offset then 2 * chunks n + 5 else 1 := by
  rw [readRank, if_pos hino, if_pos hfd, if_neg h]

/-- A bound on the polls until the first `n` bytes of the file have been read. -/
def rank (n : Nat) (s : Sys) : Nat :=
  match s.path with
  | none => 0
  | some f =>
    if n ≤ f.start + f.seen then 0
    else
      match s.pc with
      | .stat => statRank n s f
      | .openFile => if s.st.ino = f.ino then 2 * chunks n + 7 else 2 * chunks n + 11
      | .seekEnd => if s.inode = some f.ino then 2 * chunks n + 6 else 2 * chunks n + 10
      | .readChunk => readRank n s f

theorem statRank_le (n : Nat) (s : Sys) (f : LogFile) : statRank n s f ≤ 2 * chunks n + 8 := by
  have h := chunks_mono (Nat.sub_le n s.offset)
  rw [statRank]
  split_ifs <;> omega

theorem readRank_le (n : Nat) (s : Sys) (f : LogFile) :
    readRank n s f ≤ 2 * chunks n + (if s.inode = some f.ino then 5 else 9) := by
  have h := chunks_mono (Nat.sub_le n s.offset)
  rw [readRank]
  split_ifs <;> omega

theorem rank_of_path {n : Nat} {s : Sys} {f : LogFile} (hpath : s.path = some f)
    (hn : ¬ n ≤ f.start + f.seen) :
    rank n s =
      match s.pc with
      | .stat => statRank n s f
      | .openFile => if s.st.ino = f.ino then 2 * chunks n + 7 else 2 * chunks n + 11
      | .seekEnd => if s.inode = some f.ino then 2 * chunks n + 6 else 2 * chunks n + 10
      | .readChunk => readRank n s f := by
  rw [rank, hpath]
  exact if_neg hn

theorem rank_stat {n : Nat} {s : Sys} {f : LogFile} (hpath : s.path = some f)
    (hn : ¬ n ≤ f.start + f.seen) (hpc : s.pc = .stat) : rank n s = statRank n s f := by
  rw [rank_of_path hpath hn, hpc]

theorem rank_openFile {n : Nat} {s : Sys} {f : LogFile} (hpath : s.path = some f)
    (hn : ¬ n ≤ f.start + f.seen) (hpc : s.pc = .openFile) :
    rank n s = if s.st.ino = f.ino then 2 * chunks n + 7 else 2 * chunks n + 11 := by
  rw [rank_of_path hpath hn, hpc]

theorem rank_seekEnd {n : Nat} {s : Sys} {f : LogFile} (hpath : s.path = some f)
    (hn : ¬ n ≤ f.start + f.seen) (hpc : s.pc = .seekEnd) :
    rank n s = if s.inode = some f.ino then 2 * chunks n + 6 else 2 * chunks n + 10 := by
  rw [rank_of_path hpath hn, hpc]

theorem rank_readChunk {n : Nat} {s : Sys} {f : LogFile} (hpath : s.path = some f)
    (hn : ¬ n ≤ f.start + f.seen) (hpc : s.pc = .readChunk) : rank n s = readRank n s f := by
  rw [rank_of_path hpath hn, hpc]

theorem rank_none {n : Nat} {s : Sys} (hpath : s.path = none) : rank n s = 0 := by
  rw [rank, hpath]

/-- The first `n` bytes have been read. -/
theorem rank_zero {n : Nat} {s : Sys} {f : LogFile} (hpath : s.path = some f)
    (hn : n ≤ f.start + f.seen) : rank n s = 0 := by
  rw [rank, hpath]
  exact if_pos hn

theorem rank_pos {n : Nat} {s : Sys} {f : LogFile} (hpath : s.path = some f)
    (hn : ¬ n ≤ f.start + f.seen) : 0 < rank n s := by
  rw [rank_of_path hpath hn]
  cases s.pc with
  | stat =>
      simp only [statRank]
      split_ifs <;> omega
  | openFile =>
      simp only
      split <;> omega
  | seekEnd =>
      simp only
      split <;> omega
  | readChunk =>
      simp only [readRank]
      split_ifs <;> omega

theorem rank_le (n : Nat) (s : Sys) : rank n s ≤ patience n := by
  rw [patience]
  cases hpath : s.path with
  | none =>
      rw [rank_none hpath]
      exact Nat.zero_le _
  | some f =>
      by_cases hn : n ≤ f.start + f.seen
      · rw [rank_zero hpath hn]
        exact Nat.zero_le _
      · have hstat := statRank_le n s f
        have hread := readRank_le n s f
        rw [rank_of_path hpath hn]
        cases s.pc with
        | stat => exact Nat.le_trans hstat (by omega)
        | openFile =>
            simp only
            split <;> omega
        | seekEnd =>
            simp only
            split <;> omega
        | readChunk =>
            refine Nat.le_trans hread ?_
            split <;> omega

/-! ## Polls come nearer, appended bytes do not lead away -/

/-- The file stays at the path, and what is in it. -/
def Action.keeps : Action → Bool
  | .append _ | .poll => true
  | .truncate | .replace _ _ | .remove => false

/-- The file at the path has grown from a given one. -/
def Grown (f₀ : LogFile) (s : Sys) : Prop :=
  ∃ f, s.path = some f ∧ f.start = f₀.start ∧ f₀.content <+: f.content

/-- A read, or a finding that there is nothing to read, when the tail is not
    reading the file at the path, or not in step with it. -/
theorem rank_pass {n : Nat} {s s' : Sys} {f : LogFile} (hpc : s.pc = .readChunk)
    (hpath : s.path = some f) (hn : ¬ n ≤ f.start + f.seen) (hpath' : s'.path = some f)
    (hpc' : s'.pc = .stat)
    (hino : s'.inode = s.inode) (hlost : s.fd = .path ∨ ∀ g ∈ s.path, s.inode ≠ some g.ino)
    (hread : s.fd = .path → s.inode = some f.ino → statRank n s' f < readRank n s f) :
    rank n s' < rank n s := by
  rw [rank_stat hpath' hn hpc', rank_readChunk hpath hn hpc]
  by_cases hi : s.inode = some f.ino
  · rcases hlost with hf | hother
    · exact hread hf hi
    · exact absurd hi (hother f hpath)
  · rw [statRank_other (.inr (by rw [hino]; exact hi)), readRank_other hi]
    exact Nat.lt_succ_self _

theorem markSeen_path (s : Sys) (n : Nat) :
    (markSeen s n).path = s.path
      ∨ ∃ f, s.path = some f ∧ (markSeen s n).path = some { f with seen := f.seen + n } := by
  rw [markSeen]
  split
  · exact .inl rfl
  · cases s.path with
    | none => exact .inl rfl
    | some f => exact .inr ⟨f, rfl, rfl⟩
  · exact .inl rfl

/-- A poll leaves the file at the path as it is. -/
theorem poll_path {s s' : Sys} (hs : poll s = some s') :
    s'.path = s.path
      ∨ ∃ f n, s.path = some f ∧ s'.path = some { f with seen := f.seen + n } := by
  cases poll_cases hs with
  | reads f chunk =>
      rcases markSeen_path s chunk.length with h | ⟨g, hg, h⟩
      · exact .inl h
      · exact .inr ⟨g, chunk.length, hg, h⟩
  | _ => exact .inl rfl

/-- **A read** of a file that the tail is in step with. -/
theorem rank_read {n : Nat} {s : Sys} {f : LogFile} (hpath : s.path = some f)
    (hpc : s.pc = .readChunk) (hn : ¬ n ≤ f.start + f.seen) (hlen : n ≤ f.content.length)
    {g : LogFile} (hheld : held s = some g) (hstep : InStep s g) {chunk : List UInt8}
    (hchunk : chunk = (g.content.drop s.offset).take chunkSize) {s' : Sys}
    (hs : s' = { markSeen s chunk.length with
      offset := s.offset + chunk.length, buf := partialLine (s.buf ++ chunk),
      emitted := s.emitted ++ lines (s.buf ++ chunk), pc := .stat })
    (hlost : s.fd = .path ∨ ∀ g ∈ s.path, s.inode ≠ some g.ino) :
    rank n s' = 0 ∨ rank n s' < rank n s := by
  have hpc' : s'.pc = .stat := by rw [hs]
  have hoffset' : s'.offset = s.offset + chunk.length := by rw [hs]
  have hino' : s'.inode = s.inode := by
    rw [hs, markSeen]
    split <;> rfl
  by_cases hfd : s.fd = .path
  · obtain rfl := held_path hheld hfd hpath
    obtain ⟨hoffset, hbuf⟩ := hstep
    rw [hoffset] at hchunk
    have hmark : markSeen s chunk.length
        = { s with path := some { g with seen := g.seen + chunk.length } } := by
      rw [markSeen, hfd]
      simp only [hpath, Option.map_some]
    have hpath' : s'.path = some { g with seen := g.seen + chunk.length } := by rw [hs, hmark]
    have hfd' : s'.fd = .path := by
      rw [hs, hmark]
      exact hfd
    by_cases hn' : n ≤ g.start + (g.seen + chunk.length)
    · exact .inl (rank_zero hpath' hn')
    · right
      have hstep' : InStep s' { g with seen := g.seen + chunk.length } := by
        constructor
        · rw [hoffset', hoffset, Nat.add_assoc]
        · rw [consumed_read hchunk, (lines_append g.consumed chunk).2, ← hbuf, hs]
      rw [rank_stat hpath' hn' hpc', rank_readChunk hpath hn hpc]
      by_cases hi : s.inode = some g.ino
      · refine lt_of_eq_of_lt (statRank_inStep hfd' (hino'.trans hi) hstep') ?_
        rw [readRank_inStep hfd hi ⟨hoffset, hbuf⟩, hoffset']
        -- the chunk is a full one, since the first `n` bytes go beyond it
        have hfull : chunk.length = chunkSize := by
          have hchunkLen : chunk.length
              = min chunkSize (g.content.length - (g.start + g.seen)) := by
            rw [hchunk, List.length_take, List.length_drop]
          omega
        have hsub := chunks_sub (n := n - s.offset) (by omega)
        rw [hfull, ← Nat.sub_sub]
        omega
      · rw [readRank_other hi]
        refine lt_of_eq_of_lt (statRank_other (.inr ?_)) (Nat.lt_succ_self _)
        rw [hino']
        exact hi
  · right
    have hpath' : s'.path = some f := by
      rw [hs, markSeen]
      split
      · exact hpath
      · exact absurd ‹_› hfd
      · exact hpath
    exact rank_pass hpc hpath hn hpath' hpc' hino' hlost fun h => absurd h hfd

/-- **A poll** that does no harm brings the tail nearer to the end of the file. -/
theorem rank_poll {n : Nat} {s s' : Sys} (hread : Fine s) (hs : poll s = some s')
    (hlen : ∀ f ∈ s.path, n ≤ f.content.length) : rank n s' = 0 ∨ rank n s' < rank n s := by
  cases hpath : s.path with
  | none =>
      left
      rcases poll_path hs with h | ⟨f, -, hf, -⟩
      · exact rank_none (h.trans hpath)
      · rw [hpath] at hf
        cases hf
  | some f =>
      have hlen := hlen f hpath
      by_cases hn : n ≤ f.start + f.seen
      · left
        rcases poll_path hs with h | ⟨g, m, hg, h⟩
        · exact rank_zero (h.trans hpath) hn
        · rw [hpath] at hg
          obtain rfl := Option.some.inj hg
          exact rank_zero h (by simp only; omega)
      · -- nothing to read: the tail is not in step with the file at the path
        have hbehind : ∀ g, held s = some g → g.content.length ≤ s.offset → s.fd = .path →
            ¬ InStep s f := by
          rintro g hheld hle hfd ⟨hoffset, -⟩
          obtain rfl := held_path hheld hfd hpath
          omega
        cases poll_cases hs with
        | waits hpc hnone =>
            rw [hpath] at hnone
            cases hnone
        | reopens g hpc hg hother =>
            obtain rfl := Option.some.inj (hpath.symm.trans hg)
            right
            rw [rank_stat hpath hn hpc, statRank_other hother]
            refine lt_of_eq_of_lt (rank_openFile hpath hn rfl) ?_
            rw [if_pos rfl]
            exact Nat.lt_succ_self _
        | looks g hpc hg hfd hino =>
            obtain rfl := Option.some.inj (hpath.symm.trans hg)
            right
            rw [rank_stat hpath hn hpc]
            refine lt_of_eq_of_lt (rank_readChunk hpath hn rfl) ?_
            by_cases hfdp : s.fd = .path
            · by_cases hstep : InStep s f
              · rw [statRank_inStep hfdp hino hstep]
                refine lt_of_eq_of_lt (readRank_inStep hfdp hino hstep) ?_
                exact Nat.lt_succ_self _
              · -- the size that is remembered is that of the file
                rw [statRank_behind hfdp hino hstep]
                refine lt_of_eq_of_lt (readRank_behind hfdp hino hstep) ?_
                simp only
                split
                · exact Nat.lt_succ_self _
                · exact Nat.one_lt_two
            · rw [statRank_gone hfd hino hfdp]
              refine lt_of_eq_of_lt (readRank_gone hino hfdp) ?_
              exact Nat.one_lt_two
        | openFails hpc hnone =>
            rw [hpath] at hnone
            cases hnone
        | opens g hpc hg =>
            right
            rw [rank_openFile hpath hn hpc]
            refine lt_of_eq_of_lt (rank_seekEnd hpath hn rfl) ?_
            simp only [Option.some.injEq]
            split <;> exact Nat.lt_succ_self _
        | seeks g hpc hheld =>
            right
            rw [rank_seekEnd hpath hn hpc]
            refine lt_of_eq_of_lt (rank_readChunk hpath hn rfl) ?_
            refine Nat.lt_of_le_of_lt (readRank_le n _ f) ?_
            simp only
            split <;> exact Nat.lt_succ_self _
        | reads g chunk hpc hheld hlt hchunk =>
            have hstep := hread.inStep hpc hheld hlt
            exact rank_read hpath hpc hn hlen hheld hstep hchunk rfl (hread hpc g hheld).1
        | resets g hpc hheld hle hsize =>
            right
            obtain ⟨hlost, -⟩ := hread hpc g hheld
            refine rank_pass hpc hpath hn hpath rfl rfl hlost ?_
            intro hfd hino
            rw [readRank_behind hfd hino (hbehind g hheld hle hfd), if_pos hsize]
            -- from the start of the file, which is in step unless part of it has been read
            by_cases hstep : InStep { s with offset := 0, buf := [], pc := .stat } f
            · refine lt_of_eq_of_lt (statRank_inStep hfd hino hstep) ?_
              exact Nat.lt_succ_self _
            · refine lt_of_eq_of_lt (statRank_behind hfd hino hstep) ?_
              rw [if_neg (Nat.not_lt_zero _)]
              omega
        | rests g hpc hheld hle hsize =>
            right
            obtain ⟨hlost, hshort⟩ := hread hpc g hheld
            refine rank_pass hpc hpath hn hpath rfl rfl hlost ?_
            intro hfd hino
            have hstep := hbehind g hheld hle hfd
            obtain rfl := held_path hheld hfd hpath
            have hlt : g.content.length < s.offset := by
              rcases hshort with h | ⟨-, h⟩
              · exact absurd h hstep
              · exact (h hfd).resolve_right (Nat.not_lt_of_le hsize)
            rw [readRank_behind hfd hino hstep, if_neg (Nat.not_lt_of_le hsize), if_pos hlt]
            refine lt_of_eq_of_lt (statRank_behind hfd hino hstep) ?_
            rw [if_pos hlt]
            exact Nat.lt_succ_self _

/-- **Appended bytes** leave the tail where it is, or behind for good. -/
theorem rank_append {n : Nat} {s s' : Sys} {f : LogFile} (hpath : s.path = some f)
    (hbound : f.start + f.seen ≤ f.content.length) {bytes : List UInt8}
    (hs : s' = { s with path := some { f with content := f.content ++ bytes } }) :
    rank n s' ≤ rank n s := by
  have hpath' : s'.path = some { f with content := f.content ++ bytes } := by rw [hs]
  by_cases hn : n ≤ f.start + f.seen
  · rw [rank_zero hpath' hn]
    exact Nat.zero_le _
  · have hstep : InStep s' { f with content := f.content ++ bytes } ↔ InStep s f := by
      rw [InStep, InStep, consumed_append hbound, hs]
    have hpc' : s'.pc = s.pc := by rw [hs]
    have hfd' : s'.fd = s.fd := by rw [hs]
    have hoffset' : s'.offset = s.offset := by rw [hs]
    have hino' : s'.inode = s.inode := by rw [hs]
    have hst' : s'.st = s.st := by rw [hs]
    rw [rank_of_path hpath hn]
    refine le_of_eq_of_le (rank_of_path hpath' hn) ?_
    rw [hpc', hst', hino']
    cases s.pc with
    | stat =>
        simp only [statRank, hstep, hfd', hoffset', hino', List.length_append]
        split_ifs <;> omega
    | openFile => exact Nat.le_refl _
    | seekEnd => exact Nat.le_refl _
    | readChunk =>
        simp only [readRank, hstep, hfd', hoffset', hino', hst', List.length_append]
        split_ifs <;> omega

theorem grown_step {f₀ : LogFile} {s s' : Sys} {a : Action} (h : Grown f₀ s)
    (hkeeps : a.keeps = true) (hs : step s a = some s') : Grown f₀ s' := by
  obtain ⟨f, hpath, hstart, hcontent⟩ := h
  cases a with
  | append bytes =>
      obtain ⟨g, hg, rfl⟩ := Option.map_eq_some_iff.mp hs
      obtain rfl := Option.some.inj (hpath.symm.trans hg)
      exact ⟨_, rfl, hstart, hcontent.trans (List.prefix_append _ _)⟩
  | poll =>
      rcases poll_path hs with h | ⟨g, m, hg, h⟩
      · exact ⟨f, h.trans hpath, hstart, hcontent⟩
      · obtain rfl := Option.some.inj (hpath.symm.trans hg)
        exact ⟨_, h, hstart, hcontent⟩
  | truncate => cases hkeeps
  | replace ino content => cases hkeeps
  | remove => cases hkeeps

/-- **Progress**: after enough polls the first bytes of the file have been read. -/
theorem rank_run {f₀ : LogFile} {x x' : Sys × Watch} {post : List Action}
    (h : Tracks x.1 x.2) (hpath : x.1.path = some f₀) (horderly : Along watched Orderly x post)
    (hkeeps : ∀ a ∈ post, a.keeps = true) (hrun : run watched x post = some x')
    (henough : patience f₀.content.length ≤ post.countP (· = .poll)) :
    Grown f₀ x'.1 ∧ rank f₀.content.length x'.1 = 0 := by
  have halong : Along watched (fun x a => Orderly x a ∧ a.keeps = true) x post :=
    horderly.and (Along.of_forall hkeeps)
  have hinit : Tracks x.1 x.2 ∧ Grown f₀ x.1 := ⟨h, f₀, hpath, rfl, List.prefix_rfl⟩
  have hboth : ∀ x a x', Tracks x.1 x.2 ∧ Grown f₀ x.1 → Orderly x a ∧ a.keeps = true →
      watched x a = some x' → Tracks x'.1 x'.2 ∧ Grown f₀ x'.1 := by
    rintro x a x' ⟨ht, hg⟩ ⟨ho, hk⟩ hx
    obtain ⟨hs, hw⟩ := watched_some hx
    rw [hw]
    exact ⟨tracks_step ht ho hs, grown_step hg hk hs⟩
  refine ⟨(run_invariant hboth hinit halong hrun).2, ?_⟩
  have hlower : ∀ x a x', Tracks x.1 x.2 ∧ Grown f₀ x.1 → Orderly x a ∧ a.keeps = true →
      watched x a = some x' → decide (a = .poll) = true →
      rank f₀.content.length x'.1 = 0 ∨
        rank f₀.content.length x'.1 < rank f₀.content.length x.1 := by
    rintro x a x' ⟨ht, f, hf, -, hcontent⟩ ⟨ho, -⟩ hx hpoll
    obtain rfl := of_decide_eq_true hpoll
    refine rank_poll (ht.fine ho) (watched_some hx).1 ?_
    intro g hg
    obtain rfl := Option.some.inj (hf.symm.trans hg)
    exact hcontent.length_le
  have hstay : ∀ x a x', Tracks x.1 x.2 ∧ Grown f₀ x.1 → Orderly x a ∧ a.keeps = true →
      watched x a = some x' → decide (a = .poll) = false →
      rank f₀.content.length x'.1 ≤ rank f₀.content.length x.1 := by
    rintro x a x' ⟨ht, -⟩ ⟨-, hk⟩ hx hother
    have hs := (watched_some hx).1
    cases a with
    | append bytes =>
        obtain ⟨g, hg, heq⟩ := Option.map_eq_some_iff.mp hs
        exact rank_append hg (ht.pathBound g hg) heq.symm
    | poll => exact absurd rfl (of_decide_eq_false hother)
    | truncate => cases hk
    | replace ino content => cases hk
    | remove => cases hk
  have hrank := run_exhausts hboth hlower hstay hinit halong hrun
  have hle := rank_le f₀.content.length x.1
  omega

end FsoLogSource
