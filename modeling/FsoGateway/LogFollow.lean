import FsoGateway.LogProgress

/-! # What the log tail emits

    The content of a log file is what has been written to it since it was put
    in place, truncated, or first opened by the tail.  The lines that are
    emitted are those of a part of each content, from its beginning; and what
    was in the file at a `read` is in its part.

    * `inv_step` — the part of each content that has been read, along a run;
    * `tail_follows` — while the other programs are orderly nothing is lost or
      repeated;
    * `tail_skips` — a file with a line in it is put in place of the log. -/

namespace FsoLogSource

open Runs

/-! ## Nothing lost, nothing repeated -/

/-- So many bytes of each content have to have been read. -/
def demands (s : Sys) (w : Watch) : List Nat :=
  w.dues ++ (s.path.map fun _ => if w.owed then 0 else w.due).toList

/-- The lines emitted are those of a part of each content, from its beginning,
    and the parts are long enough. -/
def Emits (s : Sys) (w : Watch) (parts : List (List UInt8)) : Prop :=
  List.Forall₂ (· <+: ·) parts (streams s) ∧
    List.Forall₂ (fun part n => n ≤ part.length) parts (demands s w) ∧
    s.emitted = parts.flatMap lines

/-- **Nothing is lost or repeated**: in every state of the run the lines emitted
    are those of a part of each content; what was in the file at a `read` is in
    its part; and if what is in the file stays there long enough, the part has
    all of it. -/
def Follows (s₀ : Sys) (as : List Action) : Prop :=
  ∀ pre post x x', pre ++ post <+: as → run watched (s₀, .start) pre = some x →
    run watched x post = some x' →
    (∃ parts, Emits x'.1 x'.2 parts)
      ∧ ∀ f ∈ x.1.path, (∀ a ∈ post, a.keeps = true) →
        patience f.content.length ≤ post.countP (· = .poll) →
        ∃ parts part, Emits x'.1 x'.2 (parts ++ [part]) ∧ f.stream <+: part

/-- The watch does not get in the way of the tail. -/
theorem run_watched {s s' : Sys} {w : Watch} {as : List Action} :
    run step s as = some s' ↔ ∃ w', run watched (s, w) as = some (s', w') := by
  induction as generalizing s w with
  | nil =>
      simp only [run, Option.some.injEq, Prod.mk.injEq]
      constructor
      · exact fun h => ⟨w, h, rfl⟩
      · rintro ⟨w', h, -⟩
        exact h
  | cons a as ih =>
      simp only [run_cons]
      constructor
      · rintro ⟨t, ht, hrest⟩
        obtain ⟨w', hrun⟩ := (ih (w := note s w a)).mp hrest
        exact ⟨w', (t, note s w a), by rw [watched, ht]; rfl, hrun⟩
      · rintro ⟨w', ⟨t, v⟩, ht, hrun⟩
        exact ⟨t, (watched_some ht).1, ih.mpr ⟨w', hrun⟩⟩

/-! ## Parts of the contents -/

/-- What has been emitted: the lines of a part of each content that is over, as
    long as is due, and then some. -/
def Accounts (ended : List (List UInt8)) (dues : List Nat) (emitted rest : List (List UInt8)) :
    Prop :=
  ∃ parts, List.Forall₂ (· <+: ·) parts ended ∧
    List.Forall₂ (fun part n => n ≤ part.length) parts dues ∧
    emitted = parts.flatMap lines ++ rest

section Accounts

variable {ended emitted rest : List (List UInt8)} {dues : List Nat} {part whole : List UInt8}
  {due : Nat}

/-- A content of which a part has been read is over. -/
theorem Accounts.close (h : Accounts ended dues emitted (lines part)) (hpart : part <+: whole)
    (hdue : due ≤ part.length) : Accounts (ended ++ [whole]) (dues ++ [due]) emitted [] := by
  obtain ⟨parts, hparts, hdues, heq⟩ := h
  refine ⟨parts ++ [part], List.rel_append hparts (.cons hpart .nil),
    List.rel_append hdues (.cons hdue .nil), ?_⟩
  rw [heq, List.flatMap_append, List.flatMap_singleton, List.append_nil]

/-- Contents of which nothing has been read are over. -/
theorem Accounts.skip (h : Accounts ended dues emitted []) (newer : List (List UInt8)) :
    Accounts (ended ++ newer) (dues ++ List.replicate newer.length 0) emitted [] := by
  induction newer generalizing ended dues with
  | nil =>
      rw [List.length_nil, List.replicate_zero, List.append_nil, List.append_nil]
      exact h
  | cons whole newer ih =>
      have hnone : Accounts ended dues emitted (lines []) := h
      rw [List.length_cons, List.replicate_succ, List.append_cons, List.append_cons dues]
      exact ih (hnone.close List.nil_prefix (Nat.zero_le _))

/-- More is emitted. -/
theorem Accounts.emit (h : Accounts ended dues emitted rest) (more : List (List UInt8)) :
    Accounts ended dues (emitted ++ more) (rest ++ more) := by
  obtain ⟨parts, hparts, hdues, heq⟩ := h
  exact ⟨parts, hparts, hdues, by rw [heq, List.append_assoc]⟩

end Accounts

theorem consumed_length {f : LogFile} (hf : f.start + f.seen ≤ f.content.length) :
    f.consumed.length = f.seen := by
  rw [LogFile.consumed, LogFile.stream, List.length_take, List.length_drop]
  omega

/-! ## The invariant -/

/-- The lines that have been emitted of the file at the path. -/
def current (s : Sys) : List (List UInt8) :=
  match s.path with
  | some f => lines f.consumed
  | none => []

/-- Of each content a part has been read, from its beginning, as long as is due.
    While the tail holds a file that is not at the path any more, nothing has
    been read of what came after it, and nothing of that is due. -/
structure Inv (s : Sys) (w : Watch) : Prop where
  due : w.owed = false → ∀ f ∈ s.path, w.due ≤ f.seen
  undue : s.fd ≠ .path → w.due = 0
  accounts : Accounts s.ended w.dues s.emitted (current s)
  gone : ∀ f, s.fd = .gone f → ∃ older newer dues due,
    s.ended = older ++ f.stream :: newer ∧
      w.dues = dues ++ due :: List.replicate newer.length 0 ∧ due ≤ f.seen ∧
      Accounts older dues s.emitted (lines f.consumed)

theorem inv_opened (ino : Nat) (content : List UInt8) (st : Stat) :
    Inv (opened ino content st) .start where
  due := fun _ _ _ => Nat.zero_le _
  undue := fun _ => rfl
  accounts := ⟨[], .nil, .nil, rfl⟩
  gone := fun _ hf => Handle.noConfusion hf

section Steps

variable {s s' : Sys} {w w' : Watch} {f : LogFile}

theorem current_fresh (h : ∀ g ∈ s.path, g.Fresh) : current s = [] := by
  rw [current]
  split
  · rename_i f hf
    rw [(h f hf).consumed]
    rfl
  · rfl

/-- Every content, the present one with the others. -/
theorem Inv.all (h : Inv s w) (hbound : ∀ f ∈ s.path, f.start + f.seen ≤ f.content.length) :
    Accounts (streams s) (demands s w) s.emitted [] := by
  have hacc := h.accounts
  rw [streams, demands]
  rw [current] at hacc
  split at hacc
  · rename_i f hf
    rw [hf]
    refine hacc.close f.consumed_prefix ?_
    rw [consumed_length (hbound f hf)]
    cases howed : w.owed with
    | true => exact Nat.zero_le _
    | false => exact h.due howed f hf
  · rename_i hf
    rw [hf]
    exact hacc.skip []

/-- A step that changes neither the contents nor what has been emitted. -/
theorem Inv.same (h : Inv s w) (hpath : s'.path = s.path) (hended : s'.ended = s.ended)
    (hemitted : s'.emitted = s.emitted) (hdues : w'.dues = w.dues)
    (hfd : ∀ f, s'.fd = .gone f → s.fd = .gone f)
    (hdue : w'.owed = false → ∀ f ∈ s.path, w'.due ≤ f.seen)
    (hundue : s'.fd ≠ .path → w'.due = 0) : Inv s' w' := by
  have hcurrent : current s' = current s := by rw [current, current, hpath]
  constructor
  · rw [hpath]
    exact hdue
  · exact hundue
  · rw [hended, hemitted, hcurrent, hdues]
    exact h.accounts
  · intro f hf
    rw [hended, hemitted, hdues]
    exact h.gone f (hfd f hf)

/-- Nor what is due: the file at the path stays open if it is. -/
theorem Inv.quiet (h : Inv s w) (hpath : s'.path = s.path) (hended : s'.ended = s.ended)
    (hemitted : s'.emitted = s.emitted) (hfd : ∀ f, s'.fd = .gone f → s.fd = .gone f)
    (hleft : s'.fd ≠ .path → s.fd ≠ .path) (hw : ∃ lag, w' = { w with lag := lag }) :
    Inv s' w' := by
  obtain ⟨lag, rfl⟩ := hw
  exact h.same hpath hended hemitted rfl hfd h.due fun hne => h.undue (hleft hne)

/-- The log gets another content. -/
theorem Inv.next (h : Inv s w) (ht : Tracks s w) (howed : w.owed = false)
    (hended : s'.ended = streams s) (hemitted : s'.emitted = s.emitted)
    (hpath : ∀ g ∈ s'.path, g.Fresh) (hfd : ∀ f, s'.fd = .gone f → letGo s = .gone f)
    (hw : ∃ lag, w' = { noteEnd s w with lag := lag }) : Inv s' w' := by
  obtain ⟨lag, rfl⟩ := hw
  have hdemands : demands s w = w.dues ++ (s.path.map fun _ => w.due).toList := by
    rw [demands, howed]
    rfl
  constructor
  · exact fun _ _ _ => Nat.zero_le _
  · exact fun _ => rfl
  · have hacc := h.all ht.pathBound
    rw [hdemands] at hacc
    rw [hended, hemitted, current_fresh hpath]
    exact hacc
  · intro f hf
    have hgone := hfd f hf
    rw [hended, hemitted, streams, noteEnd]
    rw [letGo] at hgone
    split at hgone
    · -- the file of the path is let go
      rename_i hpc hg
      cases hgone
      have hacc := h.accounts
      rw [current, hg] at hacc
      exact ⟨s.ended, [], w.dues, w.due, by rw [hg]; rfl, by rw [hg]; rfl, h.due howed f hg, hacc⟩
    · rename_i hnone
      obtain ⟨older, newer, dues, due, heq, hdues, hle, hacc⟩ := h.gone f hgone
      have hzero : w.due = 0 := h.undue (by rw [hgone]; exact Handle.noConfusion)
      have hrest : (s.path.map fun _ => w.due).toList
          = List.replicate (s.path.map LogFile.stream).toList.length 0 := by
        rw [hzero]
        cases s.path <;> rfl
      refine ⟨older, newer ++ (s.path.map LogFile.stream).toList, dues, due, ?_, ?_, hle, hacc⟩
      · rw [heq, List.append_assoc, List.cons_append]
      · simp only
        rw [hdues, hrest, List.length_append, List.replicate_add, List.append_assoc,
          List.cons_append]

/-- More is written to the file at the path. -/
theorem Inv.append (h : Inv s w) (ht : Tracks s w) (hf : s.path = some f) (bytes : List UInt8) :
    Inv { s with path := some { f with content := f.content ++ bytes } } w := by
  constructor
  · intro howed g hg
    rw [← Option.some.inj hg]
    exact h.due howed f hf
  · exact h.undue
  · have hacc := h.accounts
    rw [current, hf] at hacc
    rw [current]
    simp only
    rw [consumed_append (ht.pathBound f hf)]
    exact hacc
  · exact h.gone

/-! ## What is read, and what is due -/

/-- A `read` of a file that is not at the path any more. -/
theorem noteRead_gone (hfd : s.fd ≠ .path) : ∃ lag, noteRead s w f = { w with lag := lag } := by
  rw [noteRead, if_neg hfd]
  exact ⟨_, rfl⟩

/-- **What is due is read**, unless the tail has not noticed that the file was
    truncated. -/
theorem due_read (hfd : s.fd = .path) (hlag : w.lag = 0) (hdue : w.owed = false → w.due ≤ f.seen)
    {seen : Nat} (hseen : min f.stream.length (f.seen + chunkSize) ≤ seen)
    (howed : (noteRead s w f).owed = false) : (noteRead s w f).due ≤ seen := by
  rw [noteRead, if_pos hfd] at howed ⊢
  simp only at howed ⊢
  rw [hlag, if_neg (Nat.lt_irrefl 0), Bool.and_eq_false_iff, decide_eq_false_iff_not,
    LogFile.unread] at howed
  rcases howed with howed | hshort
  · have := hdue howed
    omega
  · omega

/-- **A tail in step reads**: its lines are those of what it has read of the
    content before, continued. -/
theorem Inv.read (h : Inv s w) (ht : Tracks s w) (hlag : w.lag = 0) (hheld : held s = some f)
    (hstep : InStep s f) {chunk : List UInt8}
    (hchunk : chunk = (f.content.drop s.offset).take chunkSize) :
    Inv { markSeen s chunk.length with
      offset := s.offset + chunk.length, buf := partialLine (s.buf ++ chunk),
      emitted := s.emitted ++ lines (s.buf ++ chunk), pc := .stat } (noteRead s w f) := by
  have hbound := ht.bound hheld
  obtain ⟨hoffset, hbuf⟩ := hstep
  have hlen : chunk.length = min chunkSize (f.content.length - (f.start + f.seen)) := by
    rw [hchunk, List.length_take, List.length_drop, hoffset]
  rw [hoffset] at hchunk
  have hlines : lines f.consumed ++ lines (s.buf ++ chunk)
      = lines (LogFile.consumed { f with seen := f.seen + chunk.length }) := by
    rw [consumed_read hchunk, hbuf, (lines_append f.consumed chunk).1]
  rcases markSeen_cases hheld chunk.length with ⟨hfd, hpath, hmark⟩ | ⟨hfd, hmark⟩
  · have hdues : (noteRead s w f).dues = w.dues := by rw [noteRead, if_pos hfd]
    have hacc := h.accounts
    rw [current, hpath] at hacc
    rw [hmark]
    constructor
    · intro howed g hg
      cases hg
      refine due_read hfd hlag (fun ho => h.due ho f hpath) ?_ howed
      rw [LogFile.stream, List.length_drop]
      simp only
      omega
    · exact fun hne => absurd hfd hne
    · rw [hdues, current]
      simp only
      rw [← hlines]
      exact hacc.emit _
    · intro g hg
      exact absurd (hfd.symm.trans hg) Handle.noConfusion
  · have hnot : s.fd ≠ .path := by
      rw [hfd]
      exact Handle.noConfusion
    obtain ⟨lag, hw⟩ := noteRead_gone (w := w) (f := f) hnot
    obtain ⟨older, newer, dues, due, heq, hdues, hle, hacc⟩ := h.gone f hfd
    have hread := hacc.emit (lines (s.buf ++ chunk))
    rw [hlines] at hread
    have hmore : due ≤ f.seen + chunk.length := Nat.le_add_right_of_le hle
    rw [hmark, hw]
    constructor
    · exact h.due
    · exact fun _ => h.undue hnot
    · have hnone : current s = [] := current_fresh (ht.fresh hnot)
      rw [current] at hnone ⊢
      simp only [hnone]
      rw [heq, hdues, List.append_cons, List.append_cons dues]
      refine (hread.close (LogFile.consumed_prefix _) ?_).skip newer
      rw [consumed_length]
      · exact hmore
      · simp only
        omega
    · intro g hg
      cases hg
      exact ⟨older, newer, dues, due, heq, hdues, hmore, hread⟩

/-- A `read` that returns nothing. -/
theorem Inv.misses (h : Inv s w) (ht : Tracks s w) (hpc : s.pc = .readChunk)
    (hheld : held s = some f) (hle : f.content.length ≤ s.offset)
    (hpath : s'.path = s.path) (hended : s'.ended = s.ended) (hemitted : s'.emitted = s.emitted)
    (hfd' : s'.fd = s.fd) : Inv s' (noteRead s w f) := by
  by_cases hfd : s.fd = .path
  · have hdues : (noteRead s w f).dues = w.dues := by rw [noteRead, if_pos hfd]
    refine h.same hpath hended hemitted hdues (fun g hg => by rw [← hfd']; exact hg) ?_
      fun hne => absurd (hfd'.trans hfd) hne
    intro howed g hg
    obtain rfl := held_path hheld hfd hg
    rcases Nat.eq_zero_or_pos w.lag with hz | hpos
    · -- it has been read to its end
      have hoffset := (ht.inStep (by rw [hpc]; exact Pc.noConfusion) hz hfd f hg).1
      refine due_read hfd hz (fun ho => h.due ho f hg) ?_ howed
      rw [LogFile.stream, List.length_drop]
      omega
    · -- the truncated file is empty
      rw [noteRead, if_pos hfd] at howed ⊢
      simp only at howed ⊢
      rw [if_pos hpos, Bool.or_eq_false_iff, decide_eq_false_iff_not, not_not] at howed
      rw [LogFile.stream, howed.2, List.drop_nil]
      exact Nat.le_trans (Nat.min_le_left _ _) (Nat.zero_le _)
  · refine h.quiet hpath hended hemitted (fun g hg => by rw [← hfd']; exact hg) ?_
      (noteRead_gone hfd)
    rw [hfd']
    exact fun hne => hne

theorem note_read (hpc : s.pc = .readChunk) (hheld : held s = some f) :
    note s w .poll = noteRead s w f := by
  rw [note, hpc]
  simp only
  rw [hheld, Option.elim_some]

/-- **Every step** of programs that are orderly keeps the parts. -/
theorem inv_step {a : Action} (h : Inv s w) (ht : Tracks s w) (ho : Orderly (s, w) a)
    (hs : step s a = some s') : Inv s' (note s w a) := by
  cases a with
  | append bytes =>
      obtain ⟨f, hf, rfl⟩ := Option.map_eq_some_iff.mp hs
      exact h.append ht hf bytes
  | truncate =>
      obtain ⟨f, hf, rfl⟩ := Option.map_eq_some_iff.mp hs
      refine h.next ht ho ?_ rfl ?_ ?_ ⟨_, rfl⟩
      · rw [streams, hf]
        rfl
      · intro g hg
        rw [← Option.some.inj hg]
        exact ⟨rfl, rfl⟩
      · intro g hg
        have hgone : s.fd = .gone g := hg
        rw [letGo, hgone]
  | replace ino content =>
      rw [step] at hs
      split at hs
      · cases hs
      · cases hs
        refine h.next ht ho rfl rfl ?_ (fun _ hg => hg) ⟨_, rfl⟩
        intro g hg
        rw [← Option.some.inj hg]
        exact ⟨rfl, rfl⟩
  | remove =>
      obtain ⟨f, hf, rfl⟩ := Option.map_eq_some_iff.mp hs
      refine h.next ht ho ?_ rfl (fun g hg => by cases hg) (fun _ hg => hg) ⟨_, rfl⟩
      rw [streams, hf]
      rfl
  | poll =>
      have hin : InTime s w s.pc := ho
      cases poll_cases hs with
      | waits hpc hpath =>
          rw [note, hpc, hpath]
          exact h
      | reopens f hpc hpath hother =>
          refine h.quiet rfl rfl rfl (fun _ hg => Handle.noConfusion hg)
            (fun _ => ht.unread hpath hother) ⟨0, ?_⟩
          rw [note, hpc, hpath]
          exact if_pos hother
      | looks f hpc hpath hfd hino =>
          refine h.quiet rfl rfl rfl (fun _ hg => hg) (fun hne => hne) ⟨w.lag, ?_⟩
          rw [note, hpc, hpath]
          exact if_neg (not_or.mpr ⟨hfd, not_not_intro hino⟩)
      | openFails hpc hpath =>
          refine h.quiet rfl rfl rfl (fun _ hg => Handle.noConfusion hg) (fun _ => ?_) ⟨w.lag, ?_⟩
          · rw [ht.opening hpc]
            exact Handle.noConfusion
          · rw [note, hpc]
      | opens f hpc hpath =>
          refine h.quiet rfl rfl rfl (fun _ hg => Handle.noConfusion hg)
            (fun hne => absurd rfl hne) ⟨w.lag, ?_⟩
          rw [note, hpc]
      | seeks f hpc hheld =>
          refine h.quiet rfl rfl rfl (fun _ hg => hg) (fun hne => hne) ⟨w.lag, ?_⟩
          rw [note, hpc]
      | reads f chunk hpc hheld hlt hchunk =>
          rw [note_read hpc hheld]
          exact h.read ht (ht.unlagged hin hpc hheld hlt) hheld
            ((ht.fine hin).inStep hpc hheld hlt) hchunk
      | resets f hpc hheld hle hsize =>
          rw [note_read hpc hheld]
          exact h.misses ht hpc hheld hle rfl rfl rfl rfl
      | rests f hpc hheld hle hsize =>
          rw [note_read hpc hheld]
          exact h.misses ht hpc hheld hle rfl rfl rfl rfl

end Steps

/-! ## The runs of the tail -/

theorem Inv.emits {s : Sys} {w : Watch} (h : Inv s w) (ht : Tracks s w) :
    ∃ parts, Emits s w parts := by
  obtain ⟨parts, hparts, hdues, heq⟩ := h.all ht.pathBound
  exact ⟨parts, hparts, hdues, by rw [heq, List.append_nil]⟩

theorem Inv.emits_path {s : Sys} {w : Watch} (h : Inv s w) (ht : Tracks s w) {f : LogFile}
    (hf : s.path = some f) : ∃ parts, Emits s w (parts ++ [f.consumed]) := by
  obtain ⟨parts, hparts, hdues, heq⟩ := h.accounts
  refine ⟨parts, ?_, ?_, ?_⟩
  · rw [streams, hf]
    exact List.rel_append hparts (.cons f.consumed_prefix .nil)
  · rw [demands, hf]
    refine List.rel_append hdues (.cons ?_ .nil)
    rw [consumed_length (ht.pathBound f hf)]
    cases howed : w.owed with
    | true => exact Nat.zero_le _
    | false => exact h.due howed f hf
  · rw [heq, current, hf, List.flatMap_append, List.flatMap_singleton]

/-- What the tail knows and what it has read, along a run. -/
theorem watched_run {x x' : Sys × Watch} {as : List Action}
    (hinit : Tracks x.1 x.2 ∧ Inv x.1 x.2) (halong : Along watched Orderly x as)
    (hrun : run watched x as = some x') : Tracks x'.1 x'.2 ∧ Inv x'.1 x'.2 := by
  have hstep : ∀ x a x', Tracks x.1 x.2 ∧ Inv x.1 x.2 → Orderly x a → watched x a = some x' →
      Tracks x'.1 x'.2 ∧ Inv x'.1 x'.2 := by
    rintro x a x' ⟨ht, hi⟩ ho hx
    obtain ⟨hs, hw⟩ := watched_some hx
    rw [hw]
    exact ⟨tracks_step ht ho hs, inv_step hi ht ho hs⟩
  exact run_invariant hstep hinit halong hrun

/-- **The tail follows the log.**  The first `open` is of the file that `stat` has
    found, no shorter than at the `seek`.  In every run in which the other
    programs are orderly, the lines emitted are those of a part of each content
    of the log, in order and none twice; what was in the file at a `read` is in
    its part; and the part has all of it if it stays for `patience` polls. -/
theorem tail_follows (ino : Nat) (content : List UInt8) (st : Stat) (as : List Action)
    (hino : st.ino = ino) (hsize : content.length ≤ st.size)
    (horderly : Along watched Orderly (opened ino content st, .start) as) :
    Follows (opened ino content st) as := by
  intro pre post x x' hprefix hpre hpost
  have halong := horderly.of_prefix hprefix
  obtain ⟨ht, hi⟩ := watched_run ⟨tracks_opened hino hsize, inv_opened ino content st⟩
    (halong.of_prefix (List.prefix_append pre post)) hpre
  have hlater := halong.of_append hpre
  obtain ⟨ht', hi'⟩ := watched_run ⟨ht, hi⟩ hlater hpost
  refine ⟨hi'.emits ht', ?_⟩
  intro f hf hkeeps henough
  obtain ⟨⟨g, hg, hstart, hcontent⟩, hrank⟩ := rank_run ht hf hlater hkeeps hpost henough
  obtain ⟨parts, hemits⟩ := hi'.emits_path ht' hg
  refine ⟨parts, g.consumed, hemits, ?_⟩
  have hread : f.content.length ≤ g.start + g.seen := by
    by_contra hn
    have hpos := rank_pos hg hn
    omega
  rw [LogFile.consumed, LogFile.stream, LogFile.stream, hstart, List.prefix_take_iff,
    List.length_drop]
  constructor
  · obtain ⟨rest, hrest⟩ := hcontent
    rw [← hrest, List.drop_append]
    exact List.prefix_append _ _
  · omega

/-- A line is written and read; the file is truncated, then replaced by an empty
    one, and each time a line is written after the tail has noticed. -/
def rotations : List Action :=
  [.append [97, 10], .poll, .truncate, .poll, .poll, .append [98, 10], .poll, .poll,
    .replace 2 [], .poll, .poll, .poll, .append [99, 10], .poll]

theorem tail_follows_rotations : Follows (opened 1 [] ⟨1, 0⟩) rotations :=
  tail_follows 1 [] ⟨1, 0⟩ rotations rfl (Nat.le_refl 0) (by decide)

/-- A file with the line `x` in it is put in place of the log; the tail opens it
    and goes to its end. -/
def rotated : List Action := .replace 2 [120, 10] :: List.replicate 5 .poll

theorem rotated_emits :
    (run watched (opened 1 [] ⟨1, 0⟩, .start) rotated).map
        (fun x => (x.1.emitted, streams x.1, demands x.1 x.2))
      = some ([], [[], [120, 10]], [0, 2]) := by decide

theorem tail_skips : ¬ ∀ as : List Action, Follows (opened 1 [] ⟨1, 0⟩) as := by
  intro hall
  obtain ⟨x, hrun, heq⟩ := Option.map_eq_some_iff.mp rotated_emits
  obtain ⟨hemitted, hstreams, hdemands⟩ : x.1.emitted = [] ∧ streams x.1 = [[], [120, 10]] ∧
      demands x.1 x.2 = [0, 2] := by
    simpa only [Prod.mk.injEq] using heq
  obtain ⟨⟨parts, hparts, hdues, hlines⟩, -⟩ :=
    hall rotated rotated [] x x ⟨[], by rw [List.append_nil, List.append_nil]⟩ hrun rfl
  rw [hstreams] at hparts
  rw [hdemands] at hdues
  rw [hemitted] at hlines
  cases hparts with
  | cons _ hrest =>
      cases hrest with
      | cons hpart hnil =>
          cases hnil
          cases hdues with
          | cons _ hdue =>
              cases hdue with
              | cons hlong _ =>
                  -- both bytes of the new file are in its part, and so is the line
                  have hwhole := hpart.eq_of_length_le hlong
                  rw [hwhole, List.flatMap_cons, List.flatMap_singleton] at hlines
                  have hline : lines [120, 10] = [[120]] := by decide
                  rw [hline] at hlines
                  exact absurd hlines.symm
                    (List.append_ne_nil_of_right_ne_nil _ (List.cons_ne_nil _ _))

end FsoLogSource
