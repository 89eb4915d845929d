import FsoGateway.Lib.Runs
import FsoGateway.Lib.Segments
import Mathlib.Data.List.Forall2

/-! # The log tail

    `webgui/server/log_source.py`: `FileTailLogSource.run` polls a log file.  It
    keeps a file descriptor, the inode that it was opened for, the offset and a
    partial line; it opens the file anew when the inode of the path is another
    one, and goes back to the start when the file has become shorter than the
    offset.  Other programs append to the file, truncate it, remove it and put
    new files in its place between any two of its system calls.

    * `lines_append`, `emitLines_eq` — a buffer is cut into its complete lines,
      and the lines of what is read on are those of the partial line with it;
    * `poll_cases` — what each system call of the tail does. -/

namespace FsoLogSource

open Runs

/-! ## Lines -/

/-- `b"\n"`. -/
def newline : UInt8 := 10

/-- `buf.split(b"\n", 1)`, if there is a newline in it. -/
def splitLine : List UInt8 → Option (List UInt8 × List UInt8)
  | [] => none
  | b :: rest =>
    if b = newline then some ([], rest)
    else (splitLine rest).map fun p => (b :: p.1, p.2)

/-- The loop over the newlines of the buffer, at most `n` times: the lines that
    are emitted, and the buffer that remains. -/
def emitLines : Nat → List UInt8 → List (List UInt8) × List UInt8
  | 0, buf => ([], buf)
  | n + 1, buf =>
    match splitLine buf with
    | none => ([], buf)
    | some (line, rest) =>
      let r := emitLines n rest
      (if line = [] then r.1 else line :: r.1, r.2)

/-- The complete non-empty lines. -/
def lines (bytes : List UInt8) : List (List UInt8) :=
  (Segments.closed (· == newline) bytes).filter (· ≠ [])

/-- What comes after the last complete line. -/
def partialLine (bytes : List UInt8) : List UInt8 := Segments.pending (· == newline) bytes

@[simp] theorem lines_nil : lines [] = [] := rfl

@[simp] theorem partialLine_nil : partialLine [] = [] := rfl

/-- **Reading on** from a partial line. -/
theorem lines_append (l m : List UInt8) :
    lines (l ++ m) = lines l ++ lines (partialLine l ++ m)
      ∧ partialLine (l ++ m) = partialLine (partialLine l ++ m) := by
  obtain ⟨hc, hp⟩ := Segments.append (p := (· == newline)) l m
  exact ⟨by rw [lines, hc, List.filter_append]; rfl, hp⟩

theorem splitLine_none {buf : List UInt8} (h : splitLine buf = none) :
    ∀ b ∈ buf, (b == newline) = false := by
  induction buf with
  | nil => exact fun b hb => nomatch hb
  | cons a rest ih =>
      rw [splitLine] at h
      split at h
      · cases h
      · rename_i ha
        have hrest := ih (Option.map_eq_none_iff.mp h)
        intro b hb
        rcases List.mem_cons.mp hb with rfl | hmem
        · exact beq_eq_false_iff_ne.mpr ha
        · exact hrest b hmem

theorem splitLine_some {buf line rest : List UInt8} (h : splitLine buf = some (line, rest)) :
    buf = line ++ newline :: rest ∧ ∀ b ∈ line, (b == newline) = false := by
  induction buf generalizing line with
  | nil => cases h
  | cons a buf ih =>
      rw [splitLine] at h
      split at h
      · rename_i ha
        cases h
        exact ⟨by rw [ha]; rfl, fun b hb => nomatch hb⟩
      · rename_i ha
        obtain ⟨⟨line', rest'⟩, hsplit, heq⟩ := Option.map_eq_some_iff.mp h
        cases heq
        obtain ⟨hbuf, hline⟩ := ih hsplit
        refine ⟨by rw [hbuf]; rfl, ?_⟩
        intro b hb
        rcases List.mem_cons.mp hb with rfl | hmem
        · exact beq_eq_false_iff_ne.mpr ha
        · exact hline b hmem

/-- The first line of a buffer, and the others. -/
theorem lines_cons {line : List UInt8} (hline : ∀ b ∈ line, (b == newline) = false)
    (rest : List UInt8) :
    lines (line ++ newline :: rest) = (if line = [] then lines rest else line :: lines rest)
      ∧ partialLine (line ++ newline :: rest) = partialLine rest := by
  obtain ⟨hclosed, hpending⟩ := Segments.pending_of_none hline
  obtain ⟨hc, hp⟩ := Segments.concat_sep (p := (· == newline)) (a := newline) rfl line
  obtain ⟨hc', hp'⟩ := Segments.append (p := (· == newline)) (line ++ [newline]) rest
  rw [hp, List.nil_append] at hc' hp'
  rw [hc, hclosed, hpending, List.nil_append] at hc'
  rw [List.append_cons, lines, partialLine, hc', hp', List.singleton_append]
  refine ⟨?_, rfl⟩
  by_cases hempty : line = []
  · rw [if_pos hempty, List.filter_cons_of_neg (by simpa using hempty)]
    rfl
  · rw [if_neg hempty, List.filter_cons_of_pos (by simpa using hempty)]
    rfl

/-- **The loop over a buffer** emits its complete lines and keeps the rest. -/
theorem emitLines_eq {n : Nat} {buf : List UInt8} (hn : buf.length ≤ n) :
    emitLines n buf = (lines buf, partialLine buf) := by
  induction n generalizing buf with
  | zero =>
      rw [List.length_eq_zero_iff.mp (Nat.le_zero.mp hn)]
      rfl
  | succ n ih =>
      rw [emitLines]
      cases h : splitLine buf with
      | none =>
          obtain ⟨hclosed, hpending⟩ := Segments.pending_of_none (splitLine_none h)
          rw [lines, hclosed, partialLine, hpending]
          rfl
      | some p =>
          obtain ⟨line, rest⟩ := p
          obtain ⟨rfl, hline⟩ := splitLine_some h
          rw [List.length_append, List.length_cons] at hn
          obtain ⟨hlines, hpartial⟩ := lines_cons hline rest
          simp only
          rw [ih (by omega), hlines, hpartial]

/-! ## The file and the tail -/

/-- A log file.  Two history variables, which no step looks at: its bytes from
    `start` on have been written since the tail first opened the log, and of
    these the tail has read `seen`. -/
structure LogFile where
  ino : Nat
  content : List UInt8
  start : Nat
  seen : Nat
  deriving DecidableEq

/-- What has been written to the file. -/
def LogFile.stream (f : LogFile) : List UInt8 := f.content.drop f.start

def LogFile.consumed (f : LogFile) : List UInt8 := f.stream.take f.seen

/-- `os.stat_result`. -/
structure Stat where
  ino : Nat
  size : Nat
  deriving DecidableEq

/-- What a file descriptor refers to: the file of the path, or one that is not
    at the path any more. -/
inductive Handle where
  | closed
  | path
  | gone (f : LogFile)
  deriving DecidableEq

/-- The next system call of `run`. -/
inductive Pc where
  | stat
  | openFile
  | seekEnd
  | readChunk
  deriving DecidableEq

/-- The path, and the local variables of `run`.  `ended` are the contents that
    the log has had before. -/
structure Sys where
  path : Option LogFile
  ended : List (List UInt8)
  pc : Pc
  fd : Handle
  offset : Nat
  inode : Option Nat
  buf : List UInt8
  st : Stat
  emitted : List (List UInt8)
  deriving DecidableEq

/-- All that has been written to the log, content by content. -/
def streams (s : Sys) : List (List UInt8) := s.ended ++ (s.path.map LogFile.stream).toList

/-- The file that is open. -/
def held (s : Sys) : Option LogFile :=
  match s.fd with
  | .closed => none
  | .path => s.path
  | .gone f => some f

/-- The open file once the path has another one. -/
def letGo (s : Sys) : Handle :=
  match s.fd, s.path with
  | .path, some f => .gone f
  | fd, _ => fd

/-- The bytes read are counted. -/
def markSeen (s : Sys) (n : Nat) : Sys :=
  match s.fd with
  | .closed => s
  | .path => { s with path := s.path.map fun f => { f with seen := f.seen + n } }
  | .gone f => { s with fd := .gone { f with seen := f.seen + n } }

/-- The argument of `fd.read`. -/
def chunkSize : Nat := 65536

/-- The next system call of `run`, with what follows it up to the next one. -/
def poll (s : Sys) : Option Sys :=
  match s.pc with
  | .stat =>
    match s.path with
    | none => some s
    | some f =>
      let st : Stat := ⟨f.ino, f.content.length⟩
      if s.fd = .closed ∨ s.inode ≠ some st.ino then
        some { s with st := st, fd := .closed, pc := .openFile }
      else some { s with st := st, pc := .readChunk }
  | .openFile =>
    match s.path with
    | none => some { s with fd := .closed, pc := .stat }
    | some _ => some { s with fd := .path, offset := 0, inode := some s.st.ino, pc := .seekEnd }
  | .seekEnd =>
    (held s).map fun f => { s with offset := f.content.length, buf := [], pc := .readChunk }
  | .readChunk =>
    (held s).map fun f =>
      let chunk := (f.content.drop s.offset).take chunkSize
      if chunk ≠ [] then
        let buf := s.buf ++ chunk
        let r := emitLines buf.length buf
        { markSeen s chunk.length with
          offset := s.offset + chunk.length, buf := r.2, emitted := s.emitted ++ r.1, pc := .stat }
      else if s.st.size < s.offset then { s with offset := 0, buf := [], pc := .stat }
      else { s with pc := .stat }

/-- What other programs do to the log, and a poll of the tail. -/
inductive Action where
  | append (bytes : List UInt8)
  | truncate
  | replace (ino : Nat) (content : List UInt8)
  | remove
  | poll
  deriving DecidableEq

/-- The inode is that of a file at the path, or of the open one. -/
def live (s : Sys) (ino : Nat) : Bool :=
  s.path.any (fun f => f.ino = ino) || (held s).any fun f => f.ino = ino

/-- A file that is put in place of the log has an inode that is not in use. -/
def step (s : Sys) : Action → Option Sys
  | .append bytes =>
    s.path.map fun f => { s with path := some { f with content := f.content ++ bytes } }
  | .truncate =>
    s.path.map fun f =>
      { s with ended := s.ended ++ [f.stream], path := some ⟨f.ino, [], 0, 0⟩ }
  | .replace ino content =>
    if live s ino then none
    else some { s with ended := streams s, fd := letGo s, path := some ⟨ino, content, 0, 0⟩ }
  | .remove =>
    s.path.map fun f => { s with ended := s.ended ++ [f.stream], fd := letGo s, path := none }
  | .poll => poll s

/-- The tail has opened the log, at its end. -/
def opened (ino : Nat) (content : List UInt8) (st : Stat) : Sys :=
  ⟨some ⟨ino, content, content.length, 0⟩, [], .readChunk, .path, content.length, some st.ino,
    [], st, []⟩

/-! ## The system calls, one by one -/

/-- **What a poll does.** -/
inductive Polled (s : Sys) : Sys → Prop
  | waits (hpc : s.pc = .stat) (hpath : s.path = none) : Polled s s
  | reopens (f : LogFile) (hpc : s.pc = .stat) (hpath : s.path = some f)
      (hother : s.fd = .closed ∨ s.inode ≠ some f.ino) :
      Polled s { s with st := ⟨f.ino, f.content.length⟩, fd := .closed, pc := .openFile }
  | looks (f : LogFile) (hpc : s.pc = .stat) (hpath : s.path = some f)
      (hfd : s.fd ≠ .closed) (hino : s.inode = some f.ino) :
      Polled s { s with st := ⟨f.ino, f.content.length⟩, pc := .readChunk }
  | openFails (hpc : s.pc = .openFile) (hpath : s.path = none) :
      Polled s { s with fd := .closed, pc := .stat }
  | opens (f : LogFile) (hpc : s.pc = .openFile) (hpath : s.path = some f) :
      Polled s { s with fd := .path, offset := 0, inode := some s.st.ino, pc := .seekEnd }
  | seeks (f : LogFile) (hpc : s.pc = .seekEnd) (hheld : held s = some f) :
      Polled s { s with offset := f.content.length, buf := [], pc := .readChunk }
  | reads (f : LogFile) (chunk : List UInt8) (hpc : s.pc = .readChunk) (hheld : held s = some f)
      (hlt : s.offset < f.content.length)
      (hchunk : chunk = (f.content.drop s.offset).take chunkSize) :
      Polled s { markSeen s chunk.length with
        offset := s.offset + chunk.length, buf := partialLine (s.buf ++ chunk),
        emitted := s.emitted ++ lines (s.buf ++ chunk), pc := .stat }
  | resets (f : LogFile) (hpc : s.pc = .readChunk) (hheld : held s = some f)
      (hle : f.content.length ≤ s.offset) (hsize : s.st.size < s.offset) :
      Polled s { s with offset := 0, buf := [], pc := .stat }
  | rests (f : LogFile) (hpc : s.pc = .readChunk) (hheld : held s = some f)
      (hle : f.content.length ≤ s.offset) (hsize : s.offset ≤ s.st.size) :
      Polled s { s with pc := .stat }

theorem chunk_empty_iff {content : List UInt8} {offset : Nat} :
    (content.drop offset).take chunkSize = [] ↔ content.length ≤ offset := by
  rw [List.take_eq_nil_iff, List.drop_eq_nil_iff]
  exact or_iff_right (by decide)

theorem poll_cases {s s' : Sys} (h : poll s = some s') : Polled s s' := by
  rw [poll] at h
  cases hpc : s.pc with
  | stat =>
      rw [hpc] at h
      simp only at h
      split at h
      · rename_i hpath
        rw [← Option.some.inj h]
        exact .waits hpc hpath
      · rename_i f hpath
        split at h
        · rename_i hother
          rw [← Option.some.inj h]
          exact .reopens f hpc hpath hother
        · rename_i hsame
          rw [not_or, not_not] at hsame
          rw [← Option.some.inj h]
          exact .looks f hpc hpath hsame.1 hsame.2
  | openFile =>
      rw [hpc] at h
      simp only at h
      split at h
      · rename_i hpath
        rw [← Option.some.inj h]
        exact .openFails hpc hpath
      · rename_i f hpath
        rw [← Option.some.inj h]
        exact .opens f hpc hpath
  | seekEnd =>
      rw [hpc] at h
      obtain ⟨f, hheld, rfl⟩ := Option.map_eq_some_iff.mp h
      exact .seeks f hpc hheld
  | readChunk =>
      rw [hpc] at h
      obtain ⟨f, hheld, rfl⟩ := Option.map_eq_some_iff.mp h
      simp only
      split
      · rename_i hchunk
        rw [emitLines_eq (Nat.le_refl _)]
        exact .reads f _ hpc hheld (Nat.lt_of_not_le (mt chunk_empty_iff.mpr hchunk)) rfl
      · rename_i hchunk
        have hle := chunk_empty_iff.mp (not_not.mp hchunk)
        split
        · rename_i hsize
          exact .resets f hpc hheld hle hsize
        · rename_i hsize
          exact .rests f hpc hheld hle (Nat.le_of_not_lt hsize)

end FsoLogSource
