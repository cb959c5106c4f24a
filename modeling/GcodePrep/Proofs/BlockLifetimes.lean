import GcodePrep.Proofs.Catalogue
import GcodePrep.Proofs.EndOfFile

set_option autoImplicit false

/-!
# Blocks live in their files

Along a run, every open block was opened by a line that was read before, in a file that has not been
left since. When a file is left, exactly the blocks that were opened in it are closed, each with one
diagnostic; and a program that is given up then is not among those that are completed later.
-/

namespace GcodePrep

open Preprocessor Skeleton

theorem Preprocessor.Effect.mem_programs {s s' : Preprocessor} (h : Effect s s') {p : Program}
    (mem : p ∈ s'.programs.programs) : p ∈ s.programs.programs ∨
      ∃ o, s.current = some o ∧ s'.current = none ∧ o.program.origin = p.origin := by
  cases h with
  | steady h => exact .inl (h.programs ▸ mem)
  | completes _ o program before _ outside programs _ _ _ origin =>
    rw [programs] at mem
    rcases Catalogue.mem_of_mem_insert mem with rfl | mem
    · exact .inr ⟨o, before, outside.1, origin.symm⟩
    · exact .inl mem
  | opens _ _ _ _ _ programs | refuses _ _ _ _ _ programs | abandons _ _ _ _ _ programs
  | leaves _ _ _ _ _ programs =>
    exact .inl (programs ▸ mem)

namespace Traversal

/-- The next line is `line`; `files` shows it as the line being read. -/
def Reads (t : Traversal) (files : List OpenFile) (line : String) : Prop :=
  t.state.aborted = false ∧ ∃ file outer rest, t.files = file :: outer ∧ file.rest = line :: rest ∧
    files = file.advance line rest :: outer

variable {inclusion : Inclusion} {tree : FileTree}

theorem leaveFile_of_aborted {s : Preprocessor} (aborted : s.aborted = true) (saved : Branches)
    (outer : List OpenFile) : leaveFile saved outer s = ⟨outer, { s with branches := saved }⟩ := by
  simp [leaveFile, aborted]

theorem leaveFile_of_running {s : Preprocessor} (running : s.aborted = false) (saved : Branches)
    (outer : List OpenFile) :
    leaveFile saved outer s = ⟨outer, { s.endFile (outer.length + 1) with branches := saved }⟩ := by
  simp [leaveFile, running]

variable (inclusion tree) in
theorem skeleton_refuse (place : Place) (argument : String) (s : Preprocessor) :
    (refuse inclusion tree place argument s).skeleton = s.skeleton := by
  unfold refuse
  rcases includeFile_cases inclusion tree
    (if inclusion.maxDepth < place.level then none else some fun _ _ s => s) place argument s with
    ⟨d, eq⟩ | ⟨enter, source, given, eq⟩
  · rw [eq]
    rfl
  · rw [eq]
    split at given <;> cases given
    rfl

/-- What a step does to files and blocks: it leaves a file, makes the move of a line, or enters a
file. -/
inductive Passage (t : Traversal) : Traversal → Prop where
  | leave (file : OpenFile) (outer : List OpenFile) (files : t.files = file :: outer) :
      Passage t (leaveFile file.saved outer t.state)
  | move {t' : Traversal} (line : String) (reads : t.Reads t'.files line)
      (move : Move (Place.site (t'.files.map OpenFile.frame)) (Line.ofString line) t.state.skeleton
        t'.state.skeleton) : Passage t t'
  | enter (source : Source) (files : List OpenFile) (line : String) (reads : t.Reads files line)
      (unheaded : t.state.header = none) :
      Passage t (enterFile source files { t.state with lines := t.state.lines + 1 })

theorem Step.passage {t t' : Traversal} (h : Step inclusion tree t t') : Passage t t' := by
  obtain ⟨files, s⟩ := t
  cases files with
  | nil => cases h
  | cons file outer =>
    simp only [Step, next?, Option.some.injEq] at h
    subst h
    split
    · exact .leave file outer rfl
    · rename_i line rest left
      split
      · exact .leave file outer rfl
      · rename_i running
        have reads : Reads ⟨file :: outer, s⟩ (file.advance line rest :: outer) line :=
          ⟨by simpa using running, file, outer, rest, rfl, left, rfl⟩
        generalize file.advance line rest :: outer = files at reads ⊢
        have refused (argument : String) :=
          skeleton_refuse inclusion tree (files.map OpenFile.frame) argument { s with lines := s.lines + 1 }
        unfold readLine
        cases heard : includeArgument? line { s with lines := s.lines + 1 } with
        | none =>
          have move := move_processLine { s with lines := s.lines + 1 } (files.map OpenFile.frame)
            (refuse inclusion tree) refused line
          exact .move line reads move
        | some argument =>
          dsimp only
          split
          · refine .move line reads ?_
            dsimp only
            rw [refused argument]
            exact .stay
          · exact .enter _ files line reads (header_of_includeArgument? heard)

theorem level_site (files : List OpenFile) :
    (Place.site (files.map OpenFile.frame)).level = files.length :=
  List.length_map _

theorem Reads.length {t : Traversal} {files : List OpenFile} {line : String} (h : t.Reads files line) :
    1 ≤ files.length ∧ files.length = t.files.length := by
  obtain ⟨-, file, outer, rest, before, -, rfl⟩ := h
  simp [before]

def Sound (t : Traversal) : Prop :=
  t.state.aborted = false → Nested t.files.length t.state.skeleton

theorem Passage.state_of_aborted {t t' : Traversal} (h : Passage t t')
    (aborted : t.state.aborted = true) : ∃ branches, t'.state = { t.state with branches } := by
  cases h with
  | leave file outer =>
    rw [leaveFile_of_aborted aborted]
    exact ⟨file.saved, rfl⟩
  | move _ reads | enter _ _ _ reads => cases reads.1.symm.trans aborted

theorem Passage.running {t t' : Traversal} (h : Passage t t') (running : t'.state.aborted = false) :
    t.state.aborted = false := by
  cases aborted : t.state.aborted with
  | false => rfl
  | true =>
    obtain ⟨_, state⟩ := h.state_of_aborted aborted
    rw [state] at running
    exact aborted ▸ running

theorem Passage.sound {t t' : Traversal} (h : Passage t t') (sound : t.Sound) : t'.Sound := by
  intro running
  have before := h.running running
  have nested := sound before
  cases h with
  | leave file outer files =>
    rw [files, List.length_cons] at nested
    rw [leaveFile_of_running before]
    have closed := (endFile_closes nested).1
    have kept := (closed ▸ nested.upTo).withConditionals (file.saved.map Branch.origin)
    exact kept
  | move line reads move =>
    have level := level_site t'.files
    rw [← reads.length.2, ← level] at nested
    exact level ▸ move.nested (level ▸ reads.length.1) nested
  | enter source files line reads unheaded =>
    rw [← reads.length.2] at nested
    exact (nested.enter (by simp [skeleton, unheaded])).withConditionals []

theorem Runs.sound {t t' : Traversal} (run : Runs inclusion tree t t') (sound : t.Sound) : t'.Sound := by
  induction run with
  | refl => exact sound
  | tail _ step ih => exact step.passage.sound ih

def savedOpenings : List OpenFile → List Opening
  | [] => []
  | file :: outer => conditionalsAt outer.length (file.saved.map Branch.origin) ++ savedOpenings outer

def openings (t : Traversal) : List Opening :=
  t.state.skeleton.openings t.files.length ++ savedOpenings t.files

theorem of_mem_savedOpenings {files : List OpenFile} :
    ∀ x ∈ savedOpenings files, x.directive = .if_ ∧ x.site.level ≤ files.length := by
  induction files with
  | nil => nofun
  | cons file outer ih =>
    intro x mem
    rcases List.mem_append.mp mem with mem | mem
    · obtain ⟨origin, -, rfl⟩ := mem_conditionalsAt.mp mem
      exact ⟨rfl, Nat.le_succ _⟩
    · exact (ih x mem).imp_right Nat.le_succ_of_le

theorem level_of_mem_openings {t : Traversal} (sound : t.Sound) (running : t.state.aborted = false) :
    ∀ x ∈ t.openings, x.site.level ≤ t.files.length := by
  intro x mem
  rcases List.mem_append.mp mem with mem | mem
  · exact (sound running).level_le x mem
  · exact (of_mem_savedOpenings x mem).2

theorem mem_openings {t : Traversal} {x : Opening} : x ∈ t.openings ↔
    x ∈ conditionalsAt t.files.length (t.state.branches.map Branch.origin) ∨
      x ∈ t.state.skeleton.blocks ∨ x ∈ savedOpenings t.files := by
  rw [openings, Skeleton.openings, List.mem_append, List.mem_append, or_assoc]
  rfl

theorem leaveFile_blocks {s : Preprocessor} (saved : Branches) {outer : List OpenFile}
    (nested : s.aborted = false → Nested (outer.length + 1) s.skeleton) :
    (leaveFile saved outer s).state.skeleton.blocks ⊆ s.skeleton.blocks := by
  cases aborted : s.aborted with
  | true =>
    rw [leaveFile_of_aborted aborted]
    exact List.Subset.refl _
  | false =>
    rw [leaveFile_of_running aborted]
    have closed := (endFile_closes (nested aborted)).1
    have lower := blocks_upTo_subset outer.length s.skeleton
    rw [← closed] at lower
    exact lower

def Opens (t : Traversal) (x : Opening) : Prop :=
  ∃ files line argument, t.Reads files line ∧ Line.ofString line = .directive x.directive argument ∧
    x.site = Place.site (files.map OpenFile.frame)

theorem Reads.savedOpenings {t : Traversal} {files : List OpenFile} {line : String}
    (h : t.Reads files line) : savedOpenings files = savedOpenings t.files := by
  obtain ⟨-, file, outer, rest, before, -, rfl⟩ := h
  rw [before]
  rfl

theorem Passage.openings {t t' : Traversal} (h : Passage t t') (sound : t.Sound) :
    ∀ x ∈ t'.openings, x ∈ t.openings ∨ t.Opens x := by
  intro x mem
  cases h with
  | leave file outer files =>
    have nested : t.state.aborted = false → Nested (outer.length + 1) t.state.skeleton := by
      simpa [Sound, files] using sound
    refine .inl ?_
    rw [mem_openings] at mem ⊢
    rw [files, savedOpenings, List.mem_append]
    rcases mem with mem | mem | mem
    · exact .inr (.inr (.inl mem))
    · exact .inr (.inl (leaveFile_blocks file.saved nested mem))
    · exact .inr (.inr (.inr mem))
  | move line reads move =>
    rw [Traversal.openings, List.mem_append, ← level_site] at mem
    rw [Traversal.openings, List.mem_append, ← reads.length.2, ← level_site, ← reads.savedOpenings]
    rcases mem with mem | mem
    · rcases move.openings x mem with mem | ⟨site, argument, opened⟩
      · exact .inl (.inl mem)
      · exact .inr ⟨t'.files, line, argument, reads, opened, site⟩
    · exact .inl (.inr mem)
  | enter source files line reads =>
    refine .inl ?_
    rw [mem_openings] at mem ⊢
    rw [← reads.length.2, ← reads.savedOpenings]
    rcases mem with mem | mem | mem
    · simp [enterFile, conditionalsAt] at mem
    · exact .inr (.inl mem)
    · rcases List.mem_append.mp mem with mem | mem
      · exact .inl mem
      · exact .inr (.inr mem)

variable (inclusion tree) in
/-- Since `start` the block was opened by a line, and the file of the line has not been left. -/
def Opened (start : Traversal) (x : Opening) (t : Traversal) : Prop :=
  ∃ u u', Runs inclusion tree start u ∧ u.Opens x ∧ Step inclusion tree u u' ∧
    Relation.ReflTransGen (fun a b => Step inclusion tree a b ∧ x.site.level ≤ b.files.length) u' t

theorem Runs.opened {start t : Traversal} (run : Runs inclusion tree start t) (sound : start.Sound)
    (running : t.state.aborted = false) :
    ∀ x ∈ t.openings, x ∈ start.openings ∨ Opened inclusion tree start x t := by
  induction run with
  | refl => exact fun x mem => .inl mem
  | @tail t t' run step ih =>
    intro x mem
    have before := Runs.sound run sound
    have low := level_of_mem_openings (step.passage.sound before) running x mem
    rcases step.passage.openings before x mem with mem | opens
    · refine (ih (step.passage.running running) x mem).imp_right ?_
      rintro ⟨u, u', ahead, opens, next, stays⟩
      exact ⟨u, u', ahead, opens, next, stays.tail ⟨step, low⟩⟩
    · exact .inr ⟨t, t', run, opens, step, .refl⟩

theorem accepted_of_mem_openings {t : Traversal} {site : Site} (mem : ⟨.program, site⟩ ∈ t.openings) :
    site ∈ t.state.skeleton.accepted := by
  rcases List.mem_append.mp mem with mem | mem
  · exact program_mem_openings.mp mem
  · cases (of_mem_savedOpenings _ mem).1

theorem Passage.running_of_closing {t t' : Traversal} (h : Passage t t') {o : OpenProgram}
    (before : t.state.current = some o) (closed : t'.state.current = none) :
    t.state.aborted = false := by
  cases aborted : t.state.aborted with
  | false => rfl
  | true =>
    obtain ⟨_, state⟩ := h.state_of_aborted aborted
    rw [state] at closed
    cases before.symm.trans closed

theorem Runs.completed {start t : Traversal} (run : Runs inclusion tree start t)
    (exclusive : start.state.Exclusive) :
    ∀ p ∈ t.state.programs.programs, p ∈ start.state.programs.programs ∨
      ∃ u o, Runs inclusion tree start u ∧ Runs inclusion tree u t ∧ u.state.aborted = false ∧
        u.state.current = some o ∧ o.program.origin = p.origin := by
  induction run with
  | refl => exact fun p mem => .inl mem
  | @tail t t' run step ih =>
    intro p mem
    have effect := step.effect (Runs.exclusive run exclusive)
    rcases effect.mem_programs mem with mem | ⟨o, before, closed, origin⟩
    · refine (ih p mem).imp_right ?_
      rintro ⟨u, o, ahead, behind, running, opened⟩
      exact ⟨u, o, ahead, behind.tail step, running, opened⟩
    · have running := step.passage.running_of_closing before closed
      exact .inr ⟨t, o, run, .single step, running, before, origin⟩

theorem Runs.opened_later {start t : Traversal} (run : Runs inclusion tree start t)
    (sound : start.Sound) (vacant : start.state.current = none) :
    ∀ p ∈ t.state.programs.programs, p ∈ start.state.programs.programs ∨
      ∃ u level, Opened inclusion tree start ⟨.program, p.origin, level⟩ u ∧
        Runs inclusion tree u t := by
  intro p mem
  rcases Runs.completed run (.inl vacant) p mem with
    mem | ⟨u, o, ahead, behind, running, current, origin⟩
  · exact .inl mem
  · have accepted : o.site ∈ u.state.skeleton.accepted := by simp [skeleton, current]
    have opening : ⟨.program, o.site⟩ ∈ u.openings :=
      List.mem_append_left _ (program_mem_openings.mpr accepted)
    rcases Runs.opened ahead sound running _ opening with mem | opened
    · have accepted := accepted_of_mem_openings mem
      simp [skeleton, vacant] at accepted
    · rw [OpenProgram.site, origin] at opened
      exact .inr ⟨u, o.fileLevel, opened, behind⟩

theorem step_of_reads {t : Traversal} {files : List OpenFile} {line : String} (h : t.Reads files line) :
    Step inclusion tree t
      (readLine inclusion tree files line { t.state with lines := t.state.lines + 1 }) := by
  obtain ⟨running, file, outer, rest, before, left, rfl⟩ := h
  obtain ⟨_, s⟩ := t
  subst before
  have running : s.aborted = false := running
  simp [Step, next?, left, running]

theorem follows_includerIn (files : List OpenFile) :
    Follows inclusion tree (includerIn inclusion tree (inclusion.maxDepth + 1 - files.length))
      files := by
  rcases Nat.lt_or_ge inclusion.maxDepth files.length with deep | shallow
  · have follows := follows_none inclusion tree deep
    rwa [Nat.sub_eq_zero_of_le deep, includerIn]
  · have follows := follows_some inclusion tree shallow fun source s =>
      runs_enter inclusion tree (inclusion.maxDepth - files.length) source files s (by omega)
    rwa [Nat.succ_sub shallow, includerIn]

variable (inclusion tree) in
/-- How a file ends: each block that was opened in it and is still open is reported; a program among
them is none of the programs that the run completes. -/
structure ClosesFile (start t t' : Traversal) : Prop where
  step : Step inclusion tree t t'
  reported : Reports t.state.log t'.state.log (t.state.skeleton.unclosed t.files.length)
  opened : ∀ x ∈ t.state.skeleton.unclosed t.files.length, Opened inclusion tree start x t
  discarded : ∀ site, ⟨.program, site⟩ ∈ t.state.skeleton.unclosed t.files.length →
    ∀ w, Runs inclusion tree t' w → ∀ p ∈ w.state.programs.programs,
      p ∈ t.state.programs.programs ∨
        ∃ u level, Opened inclusion tree t' ⟨.program, p.origin, level⟩ u ∧ Runs inclusion tree u w

theorem current_leaveFile {s : Preprocessor} {outer : List OpenFile}
    (nested : Nested (outer.length + 1) s.skeleton) (running : s.aborted = false) {site : Site}
    (left : ⟨.program, site⟩ ∈ s.skeleton.unclosed (outer.length + 1)) (saved : Branches) :
    (leaveFile saved outer s).state.current = none := by
  obtain ⟨mem, level⟩ := List.mem_filter.mp left
  have high : ¬ site.level ≤ outer.length := by
    simp only [decide_eq_true_eq] at level
    omega
  have accepted : s.skeleton.accepted = some site := program_mem_openings.mp mem
  have closed := congrArg Skeleton.accepted (endFile_closes nested).1
  rw [Skeleton.upTo, accepted, Option.filter_some, decide_eq_false high] at closed
  rw [leaveFile_of_running running]
  simpa [skeleton] using closed

theorem closesFile_leaveFile {start t : Traversal} (run : Runs inclusion tree start t)
    (sound : start.Sound) (empty : start.openings = []) {file : OpenFile} {outer : List OpenFile}
    (files : t.files = file :: outer) (ended : file.rest = []) (running : t.state.aborted = false) :
    ClosesFile inclusion tree start t (leaveFile file.saved outer t.state) := by
  have sound' := Runs.sound run sound
  have nested : Nested (outer.length + 1) t.state.skeleton := by simpa [files] using sound' running
  have step : Step inclusion tree t (leaveFile file.saved outer t.state) := by
    obtain ⟨_, s⟩ := t
    subst files
    exact step_leave inclusion tree file outer s (.inl ended)
  have closed := endFile_closes nested
  refine ⟨step, ?_, fun x mem => ?_, fun site mem w onward p => ?_⟩
  · rw [leaveFile_of_running running, files]
    exact closed.2
  · have mem := (List.mem_filter.mp mem).1
    rcases Runs.opened run sound running x (List.mem_append_left _ mem) with mem | opened
    · simp [empty] at mem
    · exact opened
  · rw [files] at mem
    have vacant := current_leaveFile nested running mem file.saved
    have kept : (leaveFile file.saved outer t.state).state.programs = t.state.programs := by
      rw [leaveFile_of_running running]
      exact programs_endFile t.state (outer.length + 1)
    have later := Runs.opened_later onward (step.passage.sound sound') vacant p
    rwa [kept] at later

variable (inclusion tree) in
/-- How an `@include` ends: the files are those that were open before it, and unless the run was aborted,
so are the conditionals, and no block is open that was not open before it. -/
structure Includes (t : Traversal) (files : List OpenFile) (v : Preprocessor) : Prop where
  runs : Runs inclusion tree t ⟨files, v⟩
  branches : v.aborted = false → v.branches = t.state.branches
  within : v.aborted = false → Within t.state.skeleton v.skeleton

theorem includes_of_reads {start t : Traversal} (run : Runs inclusion tree start t) (sound : start.Sound)
    {files : List OpenFile} {line argument : String} (reads : t.Reads files line)
    (heard : includeArgument? line t.state = some argument) :
    Includes inclusion tree t files
      (includerIn inclusion tree (inclusion.maxDepth + 1 - files.length) (files.map OpenFile.frame)
        argument { t.state with lines := t.state.lines + 1 }) := by
  have nested := Runs.sound run sound reads.1
  rw [← reads.length.2, ← List.length_map OpenFile.frame] at nested
  have tidy := tidy_includerIn inclusion tree (inclusion.maxDepth + 1 - files.length)
    (files.map OpenFile.frame) argument { t.state with lines := t.state.lines + 1 } nested
    (header_of_includeArgument? heard)
  have read := runs_readLine inclusion tree line { t.state with lines := t.state.lines + 1 }
    (follows_includerIn files)
  rw [processLine_include (s := { t.state with lines := t.state.lines + 1 }) heard] at read
  exact ⟨.head (step_of_reads reads) read, fun running => (tidy running).branches,
    fun running => (tidy running).within⟩

/-- From a state at rest, every text and every file is processed to a state at rest again, unless the run
is aborted. On the way, all that an included file opens is closed at its end, and at the end of every
file each of its blocks that is still open is reported once, where it was opened. -/
theorem blocks_end_with_their_file {s : Preprocessor} (rest : s.AtRest) :
    (∀ path, (processFile inclusion tree path s).aborted = false →
      (processFile inclusion tree path s).AtRest) ∧
    ∀ source, ((processSource inclusion tree source s).aborted = false →
        (processSource inclusion tree source s).AtRest) ∧
      Runs inclusion tree (enterFile source [] s) ⟨[], processSource inclusion tree source s⟩ ∧
      ∀ t, Runs inclusion tree (enterFile source [] s) t →
        (∀ files line argument, t.Reads files line → includeArgument? line t.state = some argument →
          Includes inclusion tree t files
            (includerIn inclusion tree (inclusion.maxDepth + 1 - files.length) (files.map OpenFile.frame)
              argument { t.state with lines := t.state.lines + 1 })) ∧
        ∀ file outer, t.files = file :: outer → file.rest = [] → t.state.aborted = false →
          ClosesFile inclusion tree (enterFile source [] s) t (leaveFile file.saved outer t.state) := by
  refine ⟨fun path => rest.processFile, fun source => ⟨rest.processSource,
    runs_processSource inclusion tree source s, fun t run => ?_⟩⟩
  have sound : (enterFile source [] s).Sound := fun _ =>
    ((atRest_iff.mp rest).2.enter (by simp [skeleton, rest.header])).withConditionals []
  have empty : (enterFile source [] s).openings = [] := by
    simp [openings, Skeleton.openings, blocks, conditionalsAt, savedOpenings, enterFile,
      OpenFile.ofSource, skeleton, rest.branches, rest.header, rest.current, rest.switches]
  exact ⟨fun files line argument reads heard => includes_of_reads run sound reads heard,
    fun file outer files ended running => closesFile_leaveFile run sound empty files ended running⟩

/-- A program whose switch is left open in another file. -/
def scattered : FileTree := ⟨[], [(["in.gp"], .file "@switch X\n@if 0".toUTF8)]⟩

def scatteredSource : Source := ⟨"main.gp", none, "@if 1\n@program P\n@include in.gp"⟩

def scatteredStart : Preprocessor := .start (Environment.empty.set "P" (.int 7))

def scatteredEnd : Traversal :=
  after ⟨[], 1⟩ scattered 5 (enterFile scatteredSource [] scatteredStart)

/-- The included file is left with a conditional and a switch open, the program goes on. -/
theorem scattered_blocks_end_with_their_files :
    scatteredStart.AtRest ∧
      (processSource ⟨[], 1⟩ scattered scatteredSource scatteredStart).AtRest ∧
      scatteredEnd.state.skeleton.unclosed scatteredEnd.files.length =
        [⟨.if_, ⟨"in.gp", 2⟩, 2⟩, ⟨.switch, ⟨"in.gp", 1⟩, 2⟩] ∧
      ∃ file outer, scatteredEnd.files = file :: outer ∧
        ClosesFile ⟨[], 1⟩ scattered (enterFile scatteredSource [] scatteredStart) scatteredEnd
          (leaveFile file.saved outer scatteredEnd.state) := by
  have rest : scatteredStart.AtRest := ⟨rfl, rfl, rfl, rfl, rfl⟩
  obtain ⟨closed, -, scopes⟩ := (blocks_end_with_their_file rest).2 scatteredSource
  have run : Runs ⟨[], 1⟩ scattered (enterFile scatteredSource [] scatteredStart) scatteredEnd :=
    runs_after ⟨[], 1⟩ scattered 5 _
  have left : scatteredEnd.files.map OpenFile.rest = [[], []] := by decide +kernel
  refine ⟨rest, closed (by decide +kernel), by decide +kernel, ?_⟩
  cases files : scatteredEnd.files with
  | nil => simp [files] at left
  | cons file outer =>
    simp only [files, List.map_cons, List.cons.injEq] at left
    exact ⟨file, outer, rfl, (scopes _ run).2 file outer files left.1 (by decide +kernel)⟩

end Traversal

end GcodePrep
