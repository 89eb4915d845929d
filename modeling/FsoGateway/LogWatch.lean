import FsoGateway.LogTail

/-! # What the other programs do between the system calls

    The tail keeps an offset; what may go wrong is that the file under it is
    another one, or has become shorter and has grown again.  `Watch` is kept
    beside the tail, from what the programs do and when the system calls of the
    tail come; no step looks at it.

    * `Orderly` — what the programs may do, and when;
    * `tracks_step` — if they keep to it, the tail is where a reader is that has
      read the open file from its first byte, or the file is too short to be
      read at the offset;
    * `Tracks.fine` — so no `read` does harm. -/

namespace FsoLogSource

open Runs

/-! ## Keeping watch -/

/-- `lag`: the open file has been truncated after so many bytes of it had been
    read, and the tail has not noticed.  `due`: so many bytes of the file at the
    path were there for the `read`s since it came.  `owed`: a `read` has met the
    truncated file with something in it, and none has come to its end since.
    `dues`: what was due of the contents before. -/
structure Watch where
  lag : Nat
  due : Nat
  owed : Bool
  dues : List Nat
  deriving DecidableEq

def Watch.start : Watch := ⟨0, 0, false, []⟩

/-- The bytes of the file that have not been read. -/
def LogFile.unread (f : LogFile) : Nat := f.stream.length - f.seen

/-- A `read` of the open file.  One that looks at an offset of the file before
    it was truncated may set it back. -/
def noteRead (s : Sys) (w : Watch) (f : LogFile) : Watch :=
  let lag := if s.st.size < w.lag then 0 else w.lag
  if s.fd = .path then
    { w with
      lag
      due := min f.stream.length (w.due + chunkSize)
      owed :=
        if 0 < w.lag then w.owed || decide (f.content ≠ [])
        else w.owed && decide (chunkSize < f.unread) }
  else { w with lag }

/-- The content of the file at the path is over. -/
def noteEnd (s : Sys) (w : Watch) : Watch :=
  { w with due := 0, owed := false, dues := w.dues ++ (s.path.map fun _ => w.due).toList }

/-- The open file is truncated. -/
def noteTruncate (s : Sys) (w : Watch) : Nat :=
  match s.fd, s.path with
  | .path, some f => if w.lag = 0 then f.start + f.seen else w.lag
  | _, _ => w.lag

def note (s : Sys) (w : Watch) : Action → Watch
  | .append _ => w
  | .truncate => { noteEnd s w with lag := noteTruncate s w }
  | .replace _ _ => noteEnd s w
  | .remove => noteEnd s w
  | .poll =>
    match s.pc, s.path with
    | .stat, some f => if s.fd = .closed ∨ s.inode ≠ some f.ino then { w with lag := 0 } else w
    | .readChunk, _ => (held s).elim w (noteRead s w)
    | _, _ => w

/-- A step, with the watch beside it. -/
def watched (x : Sys × Watch) (a : Action) : Option (Sys × Watch) :=
  (step x.1 a).map fun s' => (s', note x.1 x.2 a)

theorem watched_some {x x' : Sys × Watch} {a : Action} (h : watched x a = some x') :
    step x.1 a = some x'.1 ∧ x'.2 = note x.1 x.2 a := by
  obtain ⟨s', hs, rfl⟩ := Option.map_eq_some_iff.mp h
  exact ⟨hs, rfl⟩

/-- What has to hold when a system call of the tail comes. -/
def InTime (s : Sys) (w : Watch) : Pc → Prop
  | .stat => True
  | .openFile => ∀ f ∈ s.path, f.ino = s.st.ino
  | .seekEnd => s.fd = .path → ∀ f ∈ s.path, f.content = []
  | .readChunk => 0 < w.lag → ∀ f ∈ held s,
      f.content.length < w.lag ∨ f.content.length = w.lag ∧ s.st.size < w.lag

instance (s : Sys) (w : Watch) : DecidablePred (InTime s w)
  | .stat => inferInstanceAs (Decidable True)
  | .openFile => inferInstanceAs (Decidable (∀ f ∈ s.path, _))
  | .seekEnd => inferInstanceAs (Decidable (_ → ∀ f ∈ s.path, _))
  | .readChunk => inferInstanceAs (Decidable (_ → ∀ f ∈ held s, _))

/-- **What the other programs may do.**  Between the `stat` and the `open` of the
    tail the path keeps its inode; a file that is put in place of the log is
    still empty when the tail, having opened it, looks for its end; a truncated
    file has not grown to its old length, as far as it had been read, when the
    next `read` comes, unless to that very length after a `stat` that found it
    shorter; and what a `read` has met in a truncated file stays there until one
    has come to its end. -/
def Orderly (x : Sys × Watch) : Action → Prop
  | .append _ => True
  | .truncate => x.2.owed = false
  | .replace _ _ => x.2.owed = false
  | .remove => x.2.owed = false
  | .poll => InTime x.1 x.2 x.1.pc

instance (x : Sys × Watch) : DecidablePred (Orderly x)
  | .append _ => inferInstanceAs (Decidable True)
  | .truncate => inferInstanceAs (Decidable (_ = _))
  | .replace _ _ => inferInstanceAs (Decidable (_ = _))
  | .remove => inferInstanceAs (Decidable (_ = _))
  | .poll => inferInstanceAs (Decidable (InTime x.1 x.2 x.1.pc))

/-! ## In step -/

/-- The tail is where a reader is that has read the content of the open file from
    its first byte. -/
def InStep (s : Sys) (f : LogFile) : Prop :=
  s.offset = f.start + f.seen ∧ s.buf = partialLine f.consumed

instance (s : Sys) (f : LogFile) : Decidable (InStep s f) := inferInstanceAs (Decidable (_ ∧ _))

/-- **A `read` that does no harm** finds the tail in step with the open file, or
    has nothing to read there; if the file is that of the path, the offset is
    then about to be set back.  And the open file is that of the path, unless
    the path has an inode other than the one the tail remembers, so that it is
    opened next. -/
def Fine (s : Sys) : Prop :=
  s.pc = .readChunk → ∀ f ∈ held s,
    (s.fd = .path ∨ ∀ g ∈ s.path, s.inode ≠ some g.ino)
      ∧ (InStep s f ∨ f.content.length ≤ s.offset
        ∧ (s.fd = .path → f.content.length < s.offset ∨ s.st.size < s.offset))

theorem LogFile.consumed_prefix (f : LogFile) : f.consumed <+: f.stream := List.take_prefix _ _

@[simp] theorem consumed_zero (ino start : Nat) (content : List UInt8) :
    LogFile.consumed ⟨ino, content, start, 0⟩ = [] := List.take_zero

/-- What is appended has not been read. -/
theorem consumed_append {f : LogFile} (hf : f.start + f.seen ≤ f.content.length)
    (bytes : List UInt8) :
    LogFile.consumed { f with content := f.content ++ bytes } = f.consumed := by
  rw [LogFile.consumed, LogFile.consumed, LogFile.stream, LogFile.stream]
  simp only
  rw [List.drop_append_of_le_length (by omega), List.take_append_of_le_length]
  rw [List.length_drop]
  omega

/-- What a tail in step reads goes on what it has read. -/
theorem consumed_read {f : LogFile} {chunk : List UInt8}
    (hchunk : chunk = (f.content.drop (f.start + f.seen)).take chunkSize) :
    LogFile.consumed { f with seen := f.seen + chunk.length } = f.consumed ++ chunk := by
  have hlen : chunk.length = min chunkSize (f.content.drop (f.start + f.seen)).length := by
    rw [hchunk, List.length_take]
  rw [LogFile.consumed, LogFile.consumed, LogFile.stream, LogFile.stream]
  simp only
  rw [List.take_add, List.drop_drop, hlen, ← List.take_eq_take_min, ← hchunk]

/-- A file of which nothing has been read. -/
def LogFile.Fresh (f : LogFile) : Prop := f.start = 0 ∧ f.seen = 0

theorem LogFile.Fresh.consumed {f : LogFile} (h : f.Fresh) : f.consumed = [] := by
  rw [LogFile.consumed, h.2, List.take_zero]

/-- At the start of such a file the tail is in step with it. -/
theorem LogFile.Fresh.inStep {f : LogFile} (h : f.Fresh) {s : Sys} (hoffset : s.offset = 0)
    (hbuf : s.buf = []) : InStep s f := by
  refine ⟨?_, ?_⟩
  · rw [hoffset, h.1, h.2]
  · rw [hbuf, h.consumed, partialLine_nil]

/-- Before anything has been read. -/
theorem InStep.unread {s : Sys} {f : LogFile} (h : InStep s f) (hzero : f.start + f.seen = 0) :
    s.offset = 0 ∧ s.buf = [] := by
  obtain ⟨hoffset, hbuf⟩ := h
  have hfresh : f.Fresh := ⟨by omega, by omega⟩
  exact ⟨hoffset.trans hzero, by rw [hbuf, hfresh.consumed, partialLine_nil]⟩

/-! ## Where the tail is -/

/-- **The tail keeps track of its file.** -/
structure Tracks (s : Sys) (w : Watch) : Prop where
  /-- no more has been read than is there -/
  pathBound : ∀ f ∈ s.path, f.start + f.seen ≤ f.content.length
  goneBound : ∀ f, s.fd = .gone f → f.start + f.seen ≤ f.content.length
  /-- a file that is open under the path is there -/
  there : s.fd = .path → s.path ≠ none
  /-- the inode that is remembered is that of the open file, and no other file
      at the path has it -/
  inode : ∀ f ∈ held s, s.inode = some f.ino
  other : ∀ f, s.fd = .gone f → ∀ g ∈ s.path, g.ino ≠ f.ino
  /-- a file that is not open has not been read -/
  fresh : s.fd ≠ .path → ∀ g ∈ s.path, g.Fresh
  opening : s.pc = .openFile → s.fd = .closed
  noticed : s.fd = .closed ∨ s.pc = .seekEnd → w.lag = 0
  seeking : s.pc = .seekEnd → ∀ f ∈ held s, f.Fresh
  /-- in step with the file at the path, unless it was truncated -/
  inStep : s.pc ≠ .seekEnd → w.lag = 0 → s.fd = .path → ∀ f ∈ s.path, InStep s f
  left : s.pc = .readChunk → w.lag = 0 → ∀ f, s.fd = .gone f →
    InStep s f ∨ f.content.length ≤ s.offset
  behind : 0 < w.lag → s.fd = .path ∨ s.pc = .readChunk →
    s.offset = w.lag ∧ ∀ f ∈ held s, f.Fresh
  /-- the `stat` has not found it shorter then -/
  size : s.pc = .readChunk → s.fd = .path → w.lag = 0 → s.offset ≤ s.st.size

theorem tracks_opened {ino : Nat} {content : List UInt8} {st : Stat} (hino : st.ino = ino)
    (hsize : content.length ≤ st.size) : Tracks (opened ino content st) .start where
  pathBound := by
    intro f hf
    rw [← Option.some.inj hf]
    exact Nat.le_refl _
  goneBound := by
    intro f hf
    cases hf
  there := fun _ => Option.some_ne_none _
  inode := by
    intro f hf
    rw [← Option.some.inj hf]
    exact congrArg some hino
  other := by
    intro f hf
    cases hf
  fresh := fun h => absurd rfl h
  opening := fun h => Pc.noConfusion h
  noticed := fun _ => rfl
  seeking := fun h => Pc.noConfusion h
  inStep := by
    intro _ _ _ f hf
    rw [← Option.some.inj hf]
    exact ⟨rfl, by rw [consumed_zero, partialLine_nil]; rfl⟩
  left := by
    intro _ _ f hf
    cases hf
  behind := fun h => absurd h (Nat.lt_irrefl 0)
  size := fun _ _ _ => hsize

section Steps

variable {s s' : Sys} {w : Watch} {f : LogFile}

theorem held_path {g : LogFile} (hheld : held s = some g) (hfd : s.fd = .path)
    (hpath : s.path = some f) : g = f := by
  rw [held, hfd] at hheld
  exact Option.some.inj (hheld.symm.trans hpath)

theorem held_open (hheld : held s = some f) : s.fd ≠ .closed := by
  intro hfd
  rw [held, hfd] at hheld
  cases hheld

theorem held_of_gone (hfd : s.fd = .gone f) : held s = some f := by
  rw [held, hfd]

theorem held_of_path (hfd : s.fd = .path) : held s = s.path := by
  rw [held, hfd]

theorem Tracks.bound (h : Tracks s w) (hf : held s = some f) :
    f.start + f.seen ≤ f.content.length := by
  cases hfd : s.fd with
  | closed => exact absurd hfd (held_open hf)
  | path => exact h.pathBound f (by rw [← held_of_path hfd]; exact hf)
  | gone g =>
      rw [held_of_gone hfd] at hf
      obtain rfl := Option.some.inj hf
      exact h.goneBound g hfd

/-- The open file is let go: it is still the one that is open. -/
theorem held_letGo (hthere : s.fd = .path → s.path ≠ none) :
    letGo s ≠ .path ∧ (letGo s = .closed ↔ s.fd = .closed) ∧
      ∀ f, letGo s = .gone f ↔ held s = some f := by
  cases hfd : s.fd with
  | closed =>
      have hgo : letGo s = .closed := by rw [letGo, hfd]
      rw [hgo, held, hfd]
      exact ⟨Handle.noConfusion, Iff.rfl, fun f => ⟨fun h => Handle.noConfusion h, fun h => by cases h⟩⟩
  | path =>
      cases hpath : s.path with
      | none => exact absurd hpath (hthere hfd)
      | some f =>
          have hgo : letGo s = .gone f := by rw [letGo, hfd, hpath]
          rw [hgo, held_of_path hfd, hpath]
          refine ⟨Handle.noConfusion, ⟨fun h => Handle.noConfusion h, fun h => Handle.noConfusion h⟩, ?_⟩
          intro g
          rw [Handle.gone.injEq, Option.some.injEq]
  | gone f =>
      have hgo : letGo s = .gone f := by rw [letGo, hfd]
      rw [hgo, held_of_gone hfd]
      refine ⟨Handle.noConfusion, ⟨fun h => Handle.noConfusion h, fun h => Handle.noConfusion h⟩, ?_⟩
      intro g
      rw [Handle.gone.injEq, Option.some.injEq]

/-! ## What the programs do -/

/-- Something is appended. -/
theorem Tracks.append (h : Tracks s w) (hf : s.path = some f) (bytes : List UInt8) :
    Tracks { s with path := some { f with content := f.content ++ bytes } } w := by
  have hbound := h.pathBound f hf
  -- the open file is the same, or it is longer
  have hheld : ∀ g, held { s with path := some { f with content := f.content ++ bytes } } = some g →
      ∃ g', held s = some g' ∧ g.ino = g'.ino ∧ (g'.Fresh → g.Fresh) := by
    intro g hg
    cases hfd : s.fd with
    | closed =>
        rw [held, hfd] at hg
        cases hg
    | path =>
        rw [held, hfd] at hg
        cases hg
        exact ⟨f, by rw [held_of_path hfd, hf], rfl, fun hz => hz⟩
    | gone g' =>
        rw [held, hfd] at hg
        cases hg
        exact ⟨g, held_of_gone hfd, rfl, fun hz => hz⟩
  constructor
  · intro g hg
    cases hg
    simp only [List.length_append]
    omega
  · exact h.goneBound
  · exact fun _ => Option.some_ne_none _
  · intro g hg
    obtain ⟨g', hg', hino, -⟩ := hheld g hg
    rw [hino]
    exact h.inode g' hg'
  · intro g hg g' hg'
    cases hg'
    exact h.other g hg f hf
  · intro hfd g hg
    cases hg
    exact h.fresh hfd f hf
  · exact h.opening
  · exact h.noticed
  · intro hpc g hg
    obtain ⟨g', hg', -, hfresh⟩ := hheld g hg
    exact hfresh (h.seeking hpc g' hg')
  · intro hpc hlag hfd g hg
    cases hg
    obtain ⟨hoffset, hbuf⟩ := h.inStep hpc hlag hfd f hf
    exact ⟨hoffset, by rw [consumed_append hbound]; exact hbuf⟩
  · exact h.left
  · intro hlag hor
    obtain ⟨hoffset, hfresh⟩ := h.behind hlag hor
    refine ⟨hoffset, fun g hg => ?_⟩
    obtain ⟨g', hg', -, hkeep⟩ := hheld g hg
    exact hkeep (hfresh g' hg')
  · exact h.size

/-- The file at the path is truncated: if it is open, the tail is behind. -/
theorem Tracks.truncate (h : Tracks s w) (hf : s.path = some f) {ended : List (List UInt8)}
    {w' : Watch} (hlag : w'.lag = noteTruncate s w) :
    Tracks { s with ended := ended, path := some ⟨f.ino, [], 0, 0⟩ } w' := by
  have hcases : (s.fd = .path ∧ w.lag = 0 ∧ w'.lag = f.start + f.seen) ∨
      ((s.fd = .path → 0 < w.lag) ∧ w'.lag = w.lag) := by
    rw [hlag, noteTruncate]
    cases hfd : s.fd with
    | closed => exact .inr ⟨fun hc => Handle.noConfusion hc, rfl⟩
    | gone g => exact .inr ⟨fun hc => Handle.noConfusion hc, rfl⟩
    | path =>
        rw [hf]
        by_cases hz : w.lag = 0
        · exact .inl ⟨rfl, hz, if_pos hz⟩
        · exact .inr ⟨fun _ => Nat.pos_of_ne_zero hz, if_neg hz⟩
  have hheld : ∀ g, held { s with ended := ended, path := some ⟨f.ino, [], 0, 0⟩ } = some g →
      ∃ g', held s = some g' ∧ g.ino = g'.ino ∧ (g'.Fresh ∨ s.fd = .path → g.Fresh) := by
    intro g hg
    cases hfd : s.fd with
    | closed =>
        rw [held, hfd] at hg
        cases hg
    | path =>
        rw [held, hfd] at hg
        cases hg
        exact ⟨f, by rw [held_of_path hfd, hf], rfl, fun _ => ⟨rfl, rfl⟩⟩
    | gone g' =>
        rw [held, hfd] at hg
        cases hg
        exact ⟨g, held_of_gone hfd, rfl, fun hz => hz.resolve_right Handle.noConfusion⟩
  constructor
  · intro g hg
    cases hg
    exact Nat.le_refl _
  · exact h.goneBound
  · exact fun _ => Option.some_ne_none _
  · intro g hg
    obtain ⟨g', hg', hino, -⟩ := hheld g hg
    rw [hino]
    exact h.inode g' hg'
  · intro g hg g' hg'
    cases hg'
    exact h.other g hg f hf
  · intro _ g hg
    cases hg
    exact ⟨rfl, rfl⟩
  · exact h.opening
  · intro hor
    rcases hcases with ⟨hfd, -, heq⟩ | ⟨-, heq⟩
    · -- the tail has just opened the file
      have hpc : s.pc = .seekEnd := hor.resolve_left (by rw [hfd]; exact Handle.noConfusion)
      obtain ⟨hstart, hseen⟩ := h.seeking hpc f (by rw [held_of_path hfd]; exact hf)
      omega
    · rw [heq]
      exact h.noticed hor
  · intro hpc g hg
    obtain ⟨g', hg', -, hfresh⟩ := hheld g hg
    exact hfresh (.inl (h.seeking hpc g' hg'))
  · intro hpc hz hfd g hg
    cases hg
    have hfresh : LogFile.Fresh ⟨f.ino, [], 0, 0⟩ := ⟨rfl, rfl⟩
    rcases hcases with ⟨-, hlag0, heq⟩ | ⟨hpos, heq⟩
    · obtain ⟨hoffset, hbuf⟩ := (h.inStep hpc hlag0 hfd f hf).unread (by omega)
      exact hfresh.inStep hoffset hbuf
    · have := hpos hfd
      omega
  · intro hpc hz g hg
    rcases hcases with ⟨hfd, -, -⟩ | ⟨-, heq⟩
    · have hgone : s.fd = .gone g := hg
      rw [hfd] at hgone
      cases hgone
    · exact h.left hpc (by omega) g hg
  · intro hpos hor
    rcases hcases with ⟨hfd, hlag0, heq⟩ | ⟨-, heq⟩
    · have hpc : s.pc ≠ .seekEnd := by
        intro hpc
        obtain ⟨hstart, hseen⟩ := h.seeking hpc f (by rw [held_of_path hfd]; exact hf)
        omega
      refine ⟨by rw [heq]; exact (h.inStep hpc hlag0 hfd f hf).1, fun g hg => ?_⟩
      obtain ⟨_, -, -, hfresh⟩ := hheld g hg
      exact hfresh (.inr hfd)
    · rw [heq] at hpos ⊢
      obtain ⟨hoffset, hall⟩ := h.behind hpos hor
      refine ⟨hoffset, fun g hg => ?_⟩
      obtain ⟨g', hg', -, hfresh⟩ := hheld g hg
      exact hfresh (.inl (hall g' hg'))
  · intro hpc hfd hz
    rcases hcases with ⟨-, hlag0, heq⟩ | ⟨hpos, heq⟩
    · have hstep := h.inStep (by rw [hpc]; exact Pc.noConfusion) hlag0 hfd f hf
      have hoffset := (hstep.unread (by omega)).1
      show s.offset ≤ s.st.size
      omega
    · have := hpos hfd
      omega

/-- The path gets another file, or none. -/
theorem Tracks.leave (h : Tracks s w) {path : Option LogFile} {ended : List (List UInt8)}
    {w' : Watch} (hpath : ∀ g ∈ path, g.Fresh ∧ ∀ f ∈ held s, g.ino ≠ f.ino)
    (hlag : w'.lag = w.lag) :
    Tracks { s with ended := ended, fd := letGo s, path := path } w' := by
  obtain ⟨hnot, hclosed, hgone⟩ := held_letGo h.there
  have hheld : ∀ f, held { s with ended := ended, fd := letGo s, path := path } = some f →
      held s = some f := by
    intro f hf
    rw [held] at hf
    split at hf
    · cases hf
    · rename_i hfd
      exact absurd hfd hnot
    · rename_i g hfd
      exact ((hgone g).mp hfd).trans hf
  constructor
  · intro g hg
    obtain ⟨⟨hstart, hseen⟩, -⟩ := hpath g hg
    omega
  · intro f hf
    exact h.bound ((hgone f).mp hf)
  · exact fun hfd => absurd hfd hnot
  · exact fun f hf => h.inode f (hheld f hf)
  · intro f hf g hg
    exact (hpath g hg).2 f ((hgone f).mp hf)
  · exact fun _ g hg => (hpath g hg).1
  · exact fun hpc => hclosed.mpr (h.opening hpc)
  · rw [hlag]
    exact fun hor => h.noticed (hor.imp_left hclosed.mp)
  · exact fun hpc f hf => h.seeking hpc f (hheld f hf)
  · exact fun _ _ hfd => absurd hfd hnot
  · intro hpc hz f hf
    rw [hlag] at hz
    have hopen := (hgone f).mp hf
    cases hfd : s.fd with
    | closed => exact absurd hfd (held_open hopen)
    | path =>
        rw [held_of_path hfd] at hopen
        exact .inl (h.inStep (by rw [show s.pc = _ from hpc]; exact Pc.noConfusion) hz hfd f hopen)
    | gone g =>
        rw [held_of_gone hfd] at hopen
        obtain rfl := Option.some.inj hopen
        exact h.left hpc hz g hfd
  · intro hpos hor
    rw [hlag] at hpos ⊢
    obtain ⟨hoffset, hall⟩ := h.behind hpos (.inr (hor.resolve_left hnot))
    exact ⟨hoffset, fun f hf => hall f (hheld f hf)⟩
  · exact fun _ hfd => absurd hfd hnot

/-! ## What the tail does -/

/-- The file at the path is the open one when it has the inode that is
    remembered. -/
theorem Tracks.same (h : Tracks s w) (hf : s.path = some f) (hopen : s.fd ≠ .closed)
    (hino : s.inode = some f.ino) : s.fd = .path := by
  cases hfd : s.fd with
  | closed => exact absurd hfd hopen
  | path => rfl
  | gone g =>
      have hg := h.inode g (held_of_gone hfd)
      rw [hino] at hg
      exact absurd (Option.some.inj hg) (h.other g hfd f hf)

/-- The open file is closed when the path has another inode. -/
theorem Tracks.unread (h : Tracks s w) (hf : s.path = some f)
    (hother : s.fd = .closed ∨ s.inode ≠ some f.ino) : s.fd ≠ .path := by
  intro hfd
  rcases hother with hc | hne
  · rw [hfd] at hc
    cases hc
  · exact hne (h.inode f (by rw [held_of_path hfd]; exact hf))

theorem Tracks.reopens (h : Tracks s w) (hf : s.path = some f)
    (hother : s.fd = .closed ∨ s.inode ≠ some f.ino) (st : Stat) {w' : Watch} (hlag : w'.lag = 0) :
    Tracks { s with st := st, fd := .closed, pc := .openFile } w' where
  pathBound := h.pathBound
  goneBound := fun f hf => Handle.noConfusion hf
  there := fun hfd => Handle.noConfusion hfd
  inode := fun g hg => by cases hg
  other := fun f hf => Handle.noConfusion hf
  fresh := fun _ => h.fresh (h.unread hf hother)
  opening := fun _ => rfl
  noticed := fun _ => hlag
  seeking := fun hpc => Pc.noConfusion hpc
  inStep := fun _ _ hfd => Handle.noConfusion hfd
  left := fun hpc => Pc.noConfusion hpc
  behind := fun hpos _ => absurd hlag (Nat.ne_of_gt hpos)
  size := fun hpc => Pc.noConfusion hpc

theorem Tracks.looks (h : Tracks s w) (hpc : s.pc = .stat) (hf : s.path = some f)
    (hopen : s.fd ≠ .closed) (hino : s.inode = some f.ino) :
    Tracks { s with st := ⟨f.ino, f.content.length⟩, pc := .readChunk } w := by
  have hfd := h.same hf hopen hino
  have hseek : s.pc ≠ .seekEnd := by
    rw [hpc]
    exact Pc.noConfusion
  constructor
  · exact h.pathBound
  · exact h.goneBound
  · exact h.there
  · exact h.inode
  · exact h.other
  · exact h.fresh
  · exact fun hpc => Pc.noConfusion hpc
  · exact fun hor => absurd (hor.resolve_right Pc.noConfusion) hopen
  · exact fun hpc => Pc.noConfusion hpc
  · exact fun _ hz => h.inStep hseek hz
  · intro _ _ g hg
    have hgone : s.fd = .gone g := hg
    rw [hfd] at hgone
    cases hgone
  · exact fun hpos _ => h.behind hpos (.inl hfd)
  · intro _ _ hz
    have hoffset := (h.inStep hseek hz hfd f hf).1
    have hbound := h.pathBound f hf
    show s.offset ≤ f.content.length
    omega

theorem Tracks.openFails (h : Tracks s w) (hpc : s.pc = .openFile) :
    Tracks { s with fd := .closed, pc := .stat } w where
  pathBound := h.pathBound
  goneBound := fun f hf => Handle.noConfusion hf
  there := fun hfd => Handle.noConfusion hfd
  inode := fun g hg => by cases hg
  other := fun f hf => Handle.noConfusion hf
  fresh := fun _ => h.fresh (by rw [h.opening hpc]; exact Handle.noConfusion)
  opening := fun hpc => Pc.noConfusion hpc
  noticed := fun _ => h.noticed (.inl (h.opening hpc))
  seeking := fun hpc => Pc.noConfusion hpc
  inStep := fun _ _ hfd => Handle.noConfusion hfd
  left := fun hpc => Pc.noConfusion hpc
  behind := fun hpos _ => absurd (h.noticed (.inl (h.opening hpc))) (Nat.ne_of_gt hpos)
  size := fun hpc => Pc.noConfusion hpc

/-- An `open` right after the `stat`. -/
theorem Tracks.opens (h : Tracks s w) (hpc : s.pc = .openFile) (hf : s.path = some f)
    (hino : f.ino = s.st.ino) :
    Tracks { s with fd := .path, offset := 0, inode := some s.st.ino, pc := .seekEnd } w := by
  have hfresh : ∀ g ∈ s.path, g.Fresh :=
    h.fresh (by rw [h.opening hpc]; exact Handle.noConfusion)
  have hlag := h.noticed (.inl (h.opening hpc))
  constructor
  · exact h.pathBound
  · exact fun f hf => Handle.noConfusion hf
  · exact fun _ => by rw [hf]; exact Option.some_ne_none _
  · intro g hg
    have hg' : s.path = some g := hg
    rw [hf] at hg'
    rw [← Option.some.inj hg', hino]
  · exact fun f hf => Handle.noConfusion hf
  · exact fun hfd => absurd rfl hfd
  · exact fun hpc => Pc.noConfusion hpc
  · exact fun _ => hlag
  · exact fun _ => hfresh
  · exact fun hpc => absurd rfl hpc
  · exact fun hpc => Pc.noConfusion hpc
  · exact fun hpos => absurd hlag (Nat.ne_of_gt hpos)
  · exact fun hpc => Pc.noConfusion hpc

/-- A `seek` to the end of a file that is still empty. -/
theorem Tracks.seeks (h : Tracks s w) (hpc : s.pc = .seekEnd) (hheld : held s = some f)
    (hempty : s.fd = .path → ∀ g ∈ s.path, g.content = []) :
    Tracks { s with offset := f.content.length, buf := [], pc := .readChunk } w := by
  have hlag := h.noticed (.inr hpc)
  have hzero : s.fd = .path → f.content.length = 0 := by
    intro hfd
    rw [held_of_path hfd] at hheld
    rw [hempty hfd f hheld]
    rfl
  constructor
  · exact h.pathBound
  · exact h.goneBound
  · exact h.there
  · exact h.inode
  · exact h.other
  · exact h.fresh
  · exact fun hpc => Pc.noConfusion hpc
  · exact fun hor => absurd (hor.resolve_right Pc.noConfusion) (held_open hheld)
  · exact fun hpc => Pc.noConfusion hpc
  · intro _ _ hfd g hg
    have hfresh := h.seeking hpc g (by rw [held_of_path (s := s) hfd]; exact hg)
    exact hfresh.inStep (hzero hfd) rfl
  · intro _ _ g hg
    rw [held_of_gone (s := s) hg] at hheld
    rw [← Option.some.inj hheld]
    exact .inr (Nat.le_refl _)
  · exact fun hpos => absurd hlag (Nat.ne_of_gt hpos)
  · intro _ hfd _
    show f.content.length ≤ s.st.size
    rw [hzero hfd]
    exact Nat.zero_le _

/-- **A `read` does no harm** where the programs are orderly. -/
theorem Tracks.fine (h : Tracks s w) (hin : InTime s w s.pc) : Fine s := by
  intro hpc f hheld
  have hin' : 0 < w.lag → ∀ f ∈ held s,
      f.content.length < w.lag ∨ f.content.length = w.lag ∧ s.st.size < w.lag := by
    rw [hpc] at hin
    exact hin
  have hseek : s.pc ≠ .seekEnd := by
    rw [hpc]
    exact Pc.noConfusion
  constructor
  · cases hfd : s.fd with
    | closed => exact absurd hfd (held_open hheld)
    | path => exact .inl rfl
    | gone g =>
        rw [held_of_gone hfd] at hheld
        obtain rfl := Option.some.inj hheld
        refine .inr fun g' hg' heq => ?_
        rw [h.inode g (held_of_gone hfd)] at heq
        exact h.other g hfd g' hg' (Option.some.inj heq).symm
  · rcases Nat.eq_zero_or_pos w.lag with hz | hpos
    · cases hfd : s.fd with
      | closed => exact absurd hfd (held_open hheld)
      | path =>
          rw [held_of_path hfd] at hheld
          exact .inl (h.inStep hseek hz hfd f hheld)
      | gone g =>
          rw [held_of_gone hfd] at hheld
          obtain rfl := Option.some.inj hheld
          exact (h.left hpc hz g hfd).imp_right fun hle => ⟨hle, fun hp => Handle.noConfusion hp⟩
    · obtain ⟨hoffset, -⟩ := h.behind hpos (.inr hpc)
      have hshort := hin' hpos f hheld
      right
      constructor
      · omega
      · intro _
        omega

/-- A `read` that returns bytes finds the tail in step. -/
theorem Fine.inStep (h : Fine s) (hpc : s.pc = .readChunk) (hheld : held s = some f)
    (hlt : s.offset < f.content.length) : InStep s f := by
  rcases (h hpc f hheld).2 with hstep | ⟨hle, -⟩
  · exact hstep
  · omega

/-- And the tail has not missed that the file was truncated. -/
theorem Tracks.unlagged (h : Tracks s w) (hin : InTime s w s.pc) (hpc : s.pc = .readChunk)
    (hheld : held s = some f) (hlt : s.offset < f.content.length) : w.lag = 0 := by
  have hin' : 0 < w.lag → ∀ f ∈ held s,
      f.content.length < w.lag ∨ f.content.length = w.lag ∧ s.st.size < w.lag := by
    rw [hpc] at hin
    exact hin
  by_contra hne
  have hpos := Nat.pos_of_ne_zero hne
  have hoffset := (h.behind hpos (.inr hpc)).1
  have hshort := hin' hpos f hheld
  omega

/-- The lines of a chunk, and the partial line after it. -/
theorem InStep.read (h : InStep s f) {chunk : List UInt8}
    (hchunk : chunk = (f.content.drop s.offset).take chunkSize) :
    s.offset + chunk.length = f.start + (f.seen + chunk.length) ∧
      partialLine (s.buf ++ chunk)
        = partialLine (LogFile.consumed { f with seen := f.seen + chunk.length }) ∧
      f.start + (f.seen + chunk.length) ≤ max f.content.length (f.start + f.seen) := by
  obtain ⟨hoffset, hbuf⟩ := h
  have hlen : chunk.length = min chunkSize (f.content.length - s.offset) := by
    rw [hchunk, List.length_take, List.length_drop]
  rw [hoffset] at hchunk
  refine ⟨by omega, ?_, by omega⟩
  rw [consumed_read hchunk, (lines_append f.consumed chunk).2, hbuf]

/-- The bytes read are counted, in the open file. -/
theorem markSeen_cases (hheld : held s = some f) (n : Nat) :
    (s.fd = .path ∧ s.path = some f ∧
        markSeen s n = { s with path := some { f with seen := f.seen + n } }) ∨
      (s.fd = .gone f ∧ markSeen s n = { s with fd := .gone { f with seen := f.seen + n } }) := by
  cases hfd : s.fd with
  | closed => exact absurd hfd (held_open hheld)
  | path =>
      rw [held_of_path hfd] at hheld
      refine .inl ⟨rfl, hheld, ?_⟩
      rw [markSeen, hfd]
      simp only [hheld, Option.map_some]
  | gone g =>
      rw [held_of_gone hfd] at hheld
      obtain rfl := Option.some.inj hheld
      refine .inr ⟨rfl, ?_⟩
      rw [markSeen, hfd]

theorem Tracks.reads (h : Tracks s w) (hin : InTime s w s.pc) (hpc : s.pc = .readChunk)
    (hheld : held s = some f) (hlt : s.offset < f.content.length) {chunk : List UInt8}
    (hchunk : chunk = (f.content.drop s.offset).take chunkSize) {emitted : List (List UInt8)}
    {w' : Watch} (hlag : w'.lag = 0) :
    Tracks { markSeen s chunk.length with
      offset := s.offset + chunk.length, buf := partialLine (s.buf ++ chunk),
      emitted := emitted, pc := .stat } w' := by
  obtain ⟨hoffset, hbuf, hle⟩ := ((h.fine hin).inStep hpc hheld hlt).read hchunk
  have hbound := h.bound hheld
  rcases markSeen_cases hheld chunk.length with ⟨hfd, hpath, hmark⟩ | ⟨hfd, hmark⟩
  · rw [hmark]
    constructor
    · intro g hg
      cases hg
      show f.start + (f.seen + chunk.length) ≤ f.content.length
      omega
    · intro g hg
      exact absurd (hfd.symm.trans hg) Handle.noConfusion
    · exact fun _ => Option.some_ne_none _
    · intro g hg
      rw [held, hfd] at hg
      cases hg
      exact h.inode f hheld
    · intro g hg
      exact absurd (hfd.symm.trans hg) Handle.noConfusion
    · exact fun hne => absurd hfd hne
    · exact fun hpc => Pc.noConfusion hpc
    · exact fun _ => hlag
    · exact fun hpc => Pc.noConfusion hpc
    · intro _ _ _ g hg
      cases hg
      exact ⟨hoffset, hbuf⟩
    · exact fun hpc => Pc.noConfusion hpc
    · exact fun hpos => absurd hlag (Nat.ne_of_gt hpos)
    · exact fun hpc => Pc.noConfusion hpc
  · rw [hmark]
    constructor
    · exact h.pathBound
    · intro g hg
      cases hg
      show f.start + (f.seen + chunk.length) ≤ f.content.length
      omega
    · exact fun hne => Handle.noConfusion hne
    · intro g hg
      cases hg
      exact h.inode f hheld
    · intro g hg g' hg'
      cases hg
      exact h.other f hfd g' hg'
    · intro _
      exact h.fresh (by rw [hfd]; exact Handle.noConfusion)
    · exact fun hpc => Pc.noConfusion hpc
    · exact fun _ => hlag
    · exact fun hpc => Pc.noConfusion hpc
    · exact fun _ _ hne => Handle.noConfusion hne
    · exact fun hpc => Pc.noConfusion hpc
    · exact fun hpos => absurd hlag (Nat.ne_of_gt hpos)
    · exact fun hpc => Pc.noConfusion hpc

/-- A `read` that returns nothing: the offset stays, or it is set back since the
    file has become shorter. -/
theorem Tracks.rests (h : Tracks s w) (hpc : s.pc = .readChunk) (hheld : held s = some f)
    (hsize : s.offset ≤ s.st.size) {w' : Watch}
    (hlag : w'.lag = if s.st.size < w.lag then 0 else w.lag) :
    Tracks { s with pc := .stat } w' := by
  have hseek : s.pc ≠ .seekEnd := by
    rw [hpc]
    exact Pc.noConfusion
  have hkeep : w'.lag = w.lag := by
    rcases Nat.eq_zero_or_pos w.lag with hz | hpos
    · rw [hlag, if_neg (by omega)]
    · have hoffset := (h.behind hpos (.inr hpc)).1
      rw [hlag, if_neg (by omega)]
  constructor
  · exact h.pathBound
  · exact h.goneBound
  · exact h.there
  · exact h.inode
  · exact h.other
  · exact h.fresh
  · exact fun hpc => Pc.noConfusion hpc
  · exact fun hor => absurd (hor.resolve_right Pc.noConfusion) (held_open hheld)
  · exact fun hpc => Pc.noConfusion hpc
  · rw [hkeep]
    exact fun _ hz => h.inStep hseek hz
  · exact fun hpc => Pc.noConfusion hpc
  · rw [hkeep]
    exact fun hpos _ => h.behind hpos (.inr hpc)
  · exact fun hpc => Pc.noConfusion hpc

theorem Tracks.resets (h : Tracks s w) (hpc : s.pc = .readChunk)
    (hsize : s.st.size < s.offset) {w' : Watch}
    (hlag : w'.lag = if s.st.size < w.lag then 0 else w.lag) :
    Tracks { s with offset := 0, buf := [], pc := .stat } w' := by
  have hnow : w'.lag = 0 := by
    rcases Nat.eq_zero_or_pos w.lag with hz | hpos
    · rw [hlag, hz]
      exact ite_self 0
    · have hoffset := (h.behind hpos (.inr hpc)).1
      rw [hlag, if_pos (by omega)]
  constructor
  · exact h.pathBound
  · exact h.goneBound
  · exact h.there
  · exact h.inode
  · exact h.other
  · exact h.fresh
  · exact fun hpc => Pc.noConfusion hpc
  · exact fun _ => hnow
  · exact fun hpc => Pc.noConfusion hpc
  · intro _ _ hfd g hg
    -- the offset is beyond the size only when the file was truncated
    have hpos : 0 < w.lag := by
      by_contra hz
      have := h.size hpc hfd (Nat.eq_zero_of_not_pos hz)
      omega
    have hfresh := (h.behind hpos (.inr hpc)).2 g
      (by rw [held_of_path (s := s) hfd]; exact hg)
    exact hfresh.inStep rfl rfl
  · exact fun hpc => Pc.noConfusion hpc
  · exact fun hpos => absurd hnow (Nat.ne_of_gt hpos)
  · exact fun hpc => Pc.noConfusion hpc

/-- What a `read` makes of the lag. -/
theorem note_lag (hpc : s.pc = .readChunk) (hheld : held s = some f) :
    (note s w .poll).lag = if s.st.size < w.lag then 0 else w.lag := by
  rw [note, hpc]
  simp only
  rw [hheld, Option.elim_some, noteRead]
  split <;> rfl

/-- **Every step** of programs that are orderly. -/
theorem tracks_step {a : Action} (h : Tracks s w) (ho : Orderly (s, w) a)
    (hs : step s a = some s') : Tracks s' (note s w a) := by
  cases a with
  | append bytes =>
      obtain ⟨f, hf, rfl⟩ := Option.map_eq_some_iff.mp hs
      exact h.append hf bytes
  | truncate =>
      obtain ⟨f, hf, rfl⟩ := Option.map_eq_some_iff.mp hs
      exact h.truncate hf rfl
  | replace ino content =>
      rw [step] at hs
      split at hs
      · cases hs
      · rename_i hlive
        cases hs
        refine h.leave ?_ rfl
        intro g hg
        cases hg
        refine ⟨⟨rfl, rfl⟩, fun f hf heq => hlive ?_⟩
        rw [live, Bool.or_eq_true, hf]
        exact .inr (decide_eq_true heq.symm)
  | remove =>
      obtain ⟨f, hf, rfl⟩ := Option.map_eq_some_iff.mp hs
      exact h.leave (fun g hg => by cases hg) rfl
  | poll =>
      have hin : InTime s w s.pc := ho
      cases poll_cases hs with
      | waits hpc hpath =>
          rw [note, hpc, hpath]
          exact h
      | reopens f hpc hpath hother =>
          refine h.reopens hpath hother _ ?_
          rw [note, hpc, hpath]
          simp only
          rw [if_pos hother]
      | looks f hpc hpath hfd hino =>
          have hw : note s w .poll = w := by
            rw [note, hpc, hpath]
            simp only
            rw [if_neg (not_or.mpr ⟨hfd, not_not_intro hino⟩)]
          rw [hw]
          exact h.looks hpc hpath hfd hino
      | openFails hpc hpath =>
          rw [note, hpc]
          exact h.openFails hpc
      | opens f hpc hpath =>
          rw [hpc] at hin
          rw [note, hpc]
          exact h.opens hpc hpath (hin f hpath)
      | seeks f hpc hheld =>
          rw [hpc] at hin
          rw [note, hpc]
          exact h.seeks hpc hheld hin
      | reads f chunk hpc hheld hlt hchunk =>
          refine h.reads hin hpc hheld hlt hchunk ?_
          rw [note_lag hpc hheld, h.unlagged hin hpc hheld hlt]
          exact ite_self 0
      | resets f hpc hheld hle hsize => exact h.resets hpc hsize (note_lag hpc hheld)
      | rests f hpc hheld hle hsize => exact h.rests hpc hheld hsize (note_lag hpc hheld)

end Steps

end FsoLogSource
