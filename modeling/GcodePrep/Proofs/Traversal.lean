import GcodePrep.Preprocessor.Files
import Mathlib.Logic.Relation

set_option autoImplicit false

/-!
# Runs, one line at a time

Processing a text recurs into the files it includes. A traversal keeps the open files in a stack
instead: a step reads one line, enters one file or leaves one. Every text is processed by some run of
steps, so that what holds of each step holds of whole texts with all that they include.
-/

namespace GcodePrep

open Preprocessor

namespace Preprocessor

/-- The argument of `@include` on a line where the directive is heard. -/
def includeArgument? (text : String) (s : Preprocessor) : Option String :=
  match Line.ofString text with
  | .directive .include_ argument =>
    if s.branches.isActive && s.header.isNone then some argument else none
  | _ => none

theorem processLine_include {text argument : String} {s : Preprocessor}
    (h : includeArgument? text s = some argument) (includer : Includer) (place : Place) :
    processLine includer place text s = includer place argument s := by
  unfold includeArgument? at h
  split at h
  · rename_i reads
    split at h
    · rename_i heard
      simp only [Option.some.injEq] at h
      simp only [Bool.and_eq_true, Option.isNone_iff_eq_none] at heard
      simp [processLine, reads, headedLine, visibleLine, heard, h]
    · cases h
  · cases h

theorem processLine_of_not_include {text : String} {s : Preprocessor}
    (h : includeArgument? text s = none) (includer includer' : Includer) (place : Place) :
    processLine includer place text s = processLine includer' place text s := by
  unfold includeArgument? at h
  unfold processLine
  split at h
  · rename_i reads
    have unheard : ¬ (s.branches.isActive = true ∧ s.header = none) := by simpa using h
    cases active : s.branches.isActive with
    | false => simp [reads, headedLine, active]
    | true =>
      have headed : s.header.isSome = true :=
        Option.isSome_iff_ne_none.mpr fun unheaded => unheard ⟨active, unheaded⟩
      simp [reads, headedLine, active, headed]
  · rename_i other
    cases reads : Line.ofString text with
    | blank => rfl
    | comment => rfl
    | text => rfl
    | directive d argument =>
      cases d with
      | include_ => exact absurd reads (other argument)
      | _ => rfl

variable (inclusion : Inclusion) (tree : FileTree)

/-- What `@include` does in a text in which files may be included up to `room` levels deep. -/
def includerIn : (room : Nat) → Includer
  | 0 => includeFile inclusion tree none
  | room + 1 => includeFile inclusion tree (some (enter inclusion tree room))

theorem enter_eq_processText (room : Nat) (source : Source) (outer : Place) (s : Preprocessor) :
    enter inclusion tree room source outer s =
      processText (includerIn inclusion tree room) source outer s := by
  cases room <;> rfl

end Preprocessor

/-- An open file with the lines that are left to read in it, and the conditionals around the line that
has opened it. -/
structure OpenFile where
  frame : SourceFrame
  rest : List String
  saved : Branches

namespace OpenFile

def ofSource (source : Source) (saved : Branches) : OpenFile :=
  ⟨⟨source.name, source.directory, 0, ""⟩, Text.sourceLines source.text, saved⟩

def advance (file : OpenFile) (line : String) (rest : List String) : OpenFile :=
  { file with frame := { file.frame with line := file.frame.line + 1, text := line }, rest }

end OpenFile

structure Traversal where
  files : List OpenFile
  state : Preprocessor

namespace Traversal

variable (inclusion : Inclusion) (tree : FileTree)

@[irreducible] def included? (place : Place) (argument : String) : Option Source :=
  let path := includePath argument
  if path.isEmpty || decide (inclusion.maxDepth < place.level) then none
  else
    let path := resolvePath inclusion tree place path
    (tree.read path).toOption.map fun text => ⟨path, Path.parent? path, text⟩

variable {inclusion tree} in
theorem level_of_included? {place : Place} {argument : String} {source : Source}
    (found : included? inclusion tree place argument = some source) :
    place.level ≤ inclusion.maxDepth := by
  unfold included? at found
  refine Nat.le_of_not_lt fun deep => ?_
  simp [deep] at found

def refuse : Includer :=
  fun place => includeFile inclusion tree
    (if inclusion.maxDepth < place.level then none else some fun _ _ s => s) place

def enterFile (source : Source) (files : List OpenFile) (s : Preprocessor) : Traversal :=
  ⟨.ofSource source s.branches :: files, { s with branches := [] }⟩

def leaveFile (saved : Branches) (outer : List OpenFile) (s : Preprocessor) : Traversal :=
  let s := if s.aborted then s else s.endFile (outer.length + 1)
  ⟨outer, { s with branches := saved }⟩

/-- Reads a line; `files` shows it as the line being read. -/
def readLine (files : List OpenFile) (line : String) (s : Preprocessor) : Traversal :=
  let place := files.map OpenFile.frame
  match includeArgument? line s with
  | none => ⟨files, processLine (refuse inclusion tree) place line s⟩
  | some argument => match included? inclusion tree place argument with
    | none => ⟨files, refuse inclusion tree place argument s⟩
    | some source => enterFile source files s

def next? : Traversal → Option Traversal
  | ⟨[], _⟩ => none
  | ⟨file :: outer, s⟩ => some <|
    match file.rest with
    | [] => leaveFile file.saved outer s
    | line :: rest =>
      if s.aborted then leaveFile file.saved outer s
      else readLine inclusion tree (file.advance line rest :: outer) line { s with lines := s.lines + 1 }

def Step (t t' : Traversal) : Prop := next? inclusion tree t = some t'

def Runs : Traversal → Traversal → Prop := Relation.ReflTransGen (Step inclusion tree)

def after : Nat → Traversal → Traversal
  | 0, t => t
  | n + 1, t => after n ((next? inclusion tree t).getD t)

theorem runs_after (n : Nat) (t : Traversal) : Runs inclusion tree t (after inclusion tree n t) := by
  induction n generalizing t with
  | zero => exact .refl
  | succ n ih =>
    cases next : next? inclusion tree t with
    | none => simpa [after, next] using ih t
    | some t' =>
      rw [after, next]
      exact .head next (ih t')

/-- An includer that brings about what a run of steps does. -/
def Follows (includer : Includer) (files : List OpenFile) : Prop :=
  ∀ argument s, match included? inclusion tree (files.map OpenFile.frame) argument with
    | none => includer (files.map OpenFile.frame) argument s =
        refuse inclusion tree (files.map OpenFile.frame) argument s
    | some source => Runs inclusion tree (enterFile source files s)
        ⟨files, includer (files.map OpenFile.frame) argument s⟩

theorem runs_readLine {includer : Includer} {files : List OpenFile} (line : String) (s : Preprocessor)
    (follows : Follows inclusion tree includer files) :
    Runs inclusion tree (readLine inclusion tree files line s)
      ⟨files, processLine includer (files.map OpenFile.frame) line s⟩ := by
  unfold readLine
  cases heard : includeArgument? line s with
  | none =>
    rw [processLine_of_not_include heard includer (refuse inclusion tree)]
    exact .refl
  | some argument =>
    have follows := follows argument s
    rw [processLine_include heard]
    cases found : included? inclusion tree (files.map OpenFile.frame) argument with
    | none =>
      simp only [found] at follows ⊢
      rw [follows]
      exact .refl
    | some source => simpa only [found] using follows

theorem step_leave (file : OpenFile) (outer : List OpenFile) (s : Preprocessor)
    (ended : file.rest = [] ∨ s.aborted = true) :
    Step inclusion tree ⟨file :: outer, s⟩ (leaveFile file.saved outer s) := by
  cases rest : file.rest with
  | nil => simp [Step, next?, rest]
  | cons line rest' =>
    have aborted : s.aborted = true := ended.resolve_left (by simp [rest])
    simp [Step, next?, rest, aborted]

/-- From any line of a file on, the lines `lines` are processed by a run, which leaves `more` to be
read unless it is stopped before. -/
theorem runs_processLines {includer : Includer} (source : Source) {outer : List OpenFile}
    (saved : Branches) (follows : ∀ file, Follows inclusion tree includer (file :: outer))
    (lines more : List String) (n : Nat) (text : String) (s : Preprocessor) :
    ∃ file : OpenFile,
      Runs inclusion tree ⟨⟨⟨source.name, source.directory, n, text⟩, lines ++ more, saved⟩ :: outer, s⟩
        ⟨file :: outer, processLines includer source (outer.map OpenFile.frame) (n + 1) lines s⟩ ∧
      file.saved = saved ∧
      (file.rest = more ∨
        (processLines includer source (outer.map OpenFile.frame) (n + 1) lines s).aborted = true) := by
  induction lines generalizing n text s with
  | nil => exact ⟨_, .refl, rfl, .inl rfl⟩
  | cons line rest ih =>
    cases aborted : s.aborted with
    | true =>
      rw [processLines_of_aborted aborted]
      exact ⟨_, .refl, rfl, .inr aborted⟩
    | false =>
      have step : Step inclusion tree
          ⟨⟨⟨source.name, source.directory, n, text⟩, line :: (rest ++ more), saved⟩ :: outer, s⟩
          (readLine inclusion tree
            (⟨⟨source.name, source.directory, n + 1, line⟩, rest ++ more, saved⟩ :: outer) line
            { s with lines := s.lines + 1 }) := by
        simp [Step, next?, aborted, OpenFile.advance]
      have read := runs_readLine inclusion tree line { s with lines := s.lines + 1 }
        (follows ⟨⟨source.name, source.directory, n + 1, line⟩, rest ++ more, saved⟩)
      rw [processLines_cons aborted]
      obtain ⟨file, run, saved_eq, left⟩ := ih (n + 1) line _
      exact ⟨file, (Relation.ReflTransGen.head step read).trans run, saved_eq, left⟩

theorem runs_processText {includer : Includer} (source : Source) {outer : List OpenFile}
    (follows : ∀ file, Follows inclusion tree includer (file :: outer)) (s : Preprocessor) :
    Runs inclusion tree (enterFile source outer s)
      ⟨outer, processText includer source (outer.map OpenFile.frame) s⟩ := by
  obtain ⟨file, run, saved, left⟩ := runs_processLines inclusion tree source s.branches follows
    (Text.sourceLines source.text) [] 0 "" { s with branches := [] }
  rw [List.append_nil] at run
  have leave := step_leave inclusion tree file outer _ left
  rw [leaveFile, saved] at leave
  unfold processText Place.level
  rw [List.length_map]
  exact run.tail leave

theorem follows_none {files : List OpenFile} (deep : inclusion.maxDepth < files.length) :
    Follows inclusion tree (includeFile inclusion tree none) files := by
  intro argument s
  have deep' : inclusion.maxDepth < Place.level (files.map OpenFile.frame) := by
    simpa [Place.level] using deep
  unfold included? refuse
  simp only [deep', decide_true, Bool.or_true, if_true]

theorem follows_some {files : List OpenFile} (shallow : files.length ≤ inclusion.maxDepth)
    {enter : Source → Place → Preprocessor → Preprocessor}
    (entered : ∀ source s, Runs inclusion tree (enterFile source files s)
      ⟨files, enter source (files.map OpenFile.frame) s⟩) :
    Follows inclusion tree (includeFile inclusion tree (some enter)) files := by
  intro argument s
  have shallow' : ¬ inclusion.maxDepth < Place.level (files.map OpenFile.frame) := by
    simpa [Place.level] using shallow
  unfold included? refuse includeFile
  simp only [shallow', decide_false, Bool.or_false, if_false]
  cases empty : (includePath argument).isEmpty with
  | true => simp
  | false =>
    simp only [Bool.false_eq_true, if_false, readFile]
    cases read : tree.read (resolvePath inclusion tree (files.map OpenFile.frame)
        (includePath argument)) with
    | ok text => exact entered _ s
    | error fault => simp [Except.toOption]

theorem runs_enter (room : Nat) (source : Source) (outer : List OpenFile) (s : Preprocessor)
    (depth : outer.length + room = inclusion.maxDepth) :
    Runs inclusion tree (enterFile source outer s)
      ⟨outer, enter inclusion tree room source (outer.map OpenFile.frame) s⟩ := by
  induction room generalizing source outer s with
  | zero =>
    exact runs_processText inclusion tree source
      (fun file => follows_none inclusion tree (by simp only [List.length_cons]; omega)) s
  | succ room ih =>
    refine runs_processText inclusion tree source (fun file => follows_some inclusion tree ?_ ?_) s
    · simp only [List.length_cons]
      omega
    · exact fun source s => ih source (file :: outer) s (by simp only [List.length_cons]; omega)

theorem exists_follows (outer : List OpenFile) :
    ∃ includer, ∀ file, Follows inclusion tree includer (file :: outer) := by
  by_cases deep : inclusion.maxDepth < outer.length + 1
  · exact ⟨_, fun file => follows_none inclusion tree deep⟩
  · refine ⟨_, fun file => follows_some inclusion tree ?_ fun source s =>
      runs_enter inclusion tree (inclusion.maxDepth - (outer.length + 1)) source (file :: outer) s ?_⟩
    · exact Nat.le_of_not_lt deep
    · simp only [List.length_cons]
      omega

theorem runs_processSource (source : Source) (s : Preprocessor) :
    Runs inclusion tree (enterFile source [] s) ⟨[], processSource inclusion tree source s⟩ := by
  cases aborted : s.aborted with
  | true =>
    have stopped := step_leave inclusion tree (.ofSource source s.branches) []
      { s with branches := [] } (.inr aborted)
    rw [leaveFile, if_pos aborted] at stopped
    rw [processSource, if_pos aborted]
    exact .single stopped
  | false =>
    have run := runs_enter inclusion tree inclusion.maxDepth source [] s (Nat.zero_add _)
    simpa [processSource, aborted] using run

theorem Runs.to_end {inclusion : Inclusion} {tree : FileTree} {t u : Traversal} {s : Preprocessor}
    (run : Runs inclusion tree t ⟨[], s⟩) (reached : Runs inclusion tree t u) :
    Runs inclusion tree u ⟨[], s⟩ := by
  have deterministic : Relator.RightUnique (Step inclusion tree) := by
    intro a b c hb hc
    exact Option.some.inj (hb.symm.trans hc)
  rcases Relation.ReflTransGen.total_of_right_unique deterministic reached run with onward | back
  · exact onward
  · rcases Relation.ReflTransGen.cases_head back with rfl | ⟨_, step, -⟩
    · exact .refl
    · cases step

theorem processSource_eq_after {inclusion : Inclusion} {tree : FileTree} {source : Source}
    {s : Preprocessor} {t : Traversal} {n : Nat} (run : Runs inclusion tree (enterFile source [] s) t)
    (ended : (after inclusion tree n t).files.isEmpty = true) :
    processSource inclusion tree source s = (after inclusion tree n t).state := by
  have reached := run.trans (runs_after inclusion tree n t)
  generalize after inclusion tree n t = last at ended reached ⊢
  obtain ⟨files, state⟩ := last
  cases List.isEmpty_iff.mp ended
  have onward := Runs.to_end (runs_processSource inclusion tree source s) reached
  rcases Relation.ReflTransGen.cases_head onward with same | ⟨_, step, -⟩
  · exact (congrArg Traversal.state same).symm
  · cases step

theorem processFile_of_ok {path text : String} (read : tree.read path = .ok text) (s : Preprocessor) :
    processFile inclusion tree path s = processSource inclusion tree ⟨path, Path.parent? path, text⟩ s := by
  simp only [processFile, processSource, readFile, read]

/-- What comes up when texts and files are processed one after the other, from a fresh state on. -/
inductive Reached (env : Environment) : Traversal → Prop where
  | fresh : Reached env ⟨[], .start env⟩
  | enter (source : Source) {s : Preprocessor} (h : Reached env ⟨[], s⟩) :
      Reached env (enterFile source [] s)
  | unreadable (path : String) (fault : FileFault) {s : Preprocessor} (h : Reached env ⟨[], s⟩) :
      Reached env ⟨[], s.reportUnreadable [] path fault⟩
  | step {t t' : Traversal} (h : Reached env t) (next : Step inclusion tree t t') : Reached env t'

namespace Reached

variable {inclusion tree} {env : Environment}

theorem runs {t t' : Traversal} (h : Reached inclusion tree env t) (run : Runs inclusion tree t t') :
    Reached inclusion tree env t' := by
  induction run with
  | refl => exact h
  | tail _ next ih => exact .step ih next

theorem processSource {s : Preprocessor} (h : Reached inclusion tree env ⟨[], s⟩) (source : Source) :
    Reached inclusion tree env ⟨[], s.processSource inclusion tree source⟩ :=
  (Reached.enter source h).runs (runs_processSource inclusion tree source s)

theorem processFile {s : Preprocessor} (h : Reached inclusion tree env ⟨[], s⟩) (path : String) :
    Reached inclusion tree env ⟨[], s.processFile inclusion tree path⟩ := by
  cases read : tree.read path with
  | ok text =>
    rw [processFile_of_ok inclusion tree read]
    exact h.processSource _
  | error fault =>
    simp only [Preprocessor.processFile, readFile, read]
    split
    · exact h
    · exact .unreadable path fault h

end Reached

end Traversal

end GcodePrep
