import GcodePrep.Proofs.Coherence

set_option autoImplicit false

/-!
# Includes end

Files may include each other, and themselves, in any way. Still no run goes on for ever: a step reads a
line of the innermost file, leaves that file, or opens another one inside of it, and the last is refused
once more files are open than the limit allows. A refused include reads nothing.
-/

namespace GcodePrep

open Preprocessor

namespace Traversal

/-- The point at which a file is opened by itself, or turns out not to be readable. -/
def beginFile (tree : FileTree) (path : String) (s : Preprocessor) : Traversal :=
  match tree.read path with
  | .ok text => enterFile ⟨path, Path.parent? path, text⟩ [] s
  | .error fault => ⟨[], if s.aborted then s else s.reportUnreadable [] path fault⟩

section

variable (inclusion : Inclusion) (tree : FileTree)

theorem runs_processFile (path : String) (s : Preprocessor) :
    Runs inclusion tree (beginFile tree path s) ⟨[], processFile inclusion tree path s⟩ := by
  unfold beginFile
  cases read : tree.read path with
  | ok text =>
    rw [processFile_of_ok inclusion tree read]
    exact runs_processSource inclusion tree _ s
  | error fault =>
    have unread : processFile inclusion tree path s =
        if s.aborted then s else s.reportUnreadable [] path fault := by
      simp only [processFile, readFile, read]
    rw [unread]
    exact .refl

theorem length_files_beginFile (path : String) (s : Preprocessor) :
    (beginFile tree path s).files.length ≤ 1 := by
  unfold beginFile
  split
  · exact Nat.le_refl 1
  · exact Nat.zero_le 1

theorem readLine_cases (files : List OpenFile) (line : String) (s : Preprocessor) :
    (∃ s', readLine inclusion tree files line s = ⟨files, s'⟩) ∨
      ∃ argument source, included? inclusion tree (files.map OpenFile.frame) argument = some source ∧
        readLine inclusion tree files line s = enterFile source files s := by
  unfold readLine
  cases includeArgument? line s with
  | none => exact .inl ⟨_, rfl⟩
  | some argument =>
    cases found : included? inclusion tree (files.map OpenFile.frame) argument with
    | none => simp only [found, mk.injEq, true_and, exists_eq', true_or]
    | some source => exact .inr ⟨argument, source, found, by simp only [found]⟩

end

variable {inclusion : Inclusion} {tree : FileTree}

theorem length_le_of_included? {files : List OpenFile} {argument : String} {source : Source}
    (found : included? inclusion tree (files.map OpenFile.frame) argument = some source) :
    files.length ≤ inclusion.maxDepth := by
  have shallow := level_of_included? found
  rwa [Place.level, List.length_map] at shallow

/-- What a step does to the open files: the innermost is left, or one of its lines is read; then one
more file may be open. -/
theorem Step.files_cases {t t' : Traversal} (h : Step inclusion tree t t') :
    ∃ file outer, t.files = file :: outer ∧ (t'.files = outer ∨
      ∃ line rest, file.rest = line :: rest ∧ (t'.files = file.advance line rest :: outer ∨
        outer.length + 1 ≤ inclusion.maxDepth ∧ ∃ source saved,
          t'.files = .ofSource source saved :: file.advance line rest :: outer)) := by
  rcases h.cases with ⟨file, outer, files, rfl⟩ | ⟨_, line, ⟨-, file, outer, rest, files, left, rfl⟩, rfl⟩
  · exact ⟨file, outer, files, .inl rfl⟩
  · refine ⟨file, outer, files, .inr ⟨line, rest, left, ?_⟩⟩
    rcases readLine_cases inclusion tree (file.advance line rest :: outer) line
        { t.state with lines := t.state.lines + 1 } with
      ⟨s', same⟩ | ⟨argument, source, found, entered⟩
    · exact .inl (by rw [same])
    · exact .inr ⟨length_le_of_included? found, source, t.state.branches, by rw [entered]; rfl⟩

/-- One more file on top of files from which all runs end, by induction on the lines left in it. -/
theorem acc_file {outer : List OpenFile}
    (below : ∀ s, Acc (Function.swap (Step inclusion tree)) ⟨outer, s⟩)
    (opened : ∀ file inner s, outer.length + 1 ≤ inclusion.maxDepth →
      (∀ s, Acc (Function.swap (Step inclusion tree)) ⟨file :: outer, s⟩) →
        Acc (Function.swap (Step inclusion tree)) ⟨inner :: file :: outer, s⟩)
    (lines : List String) (file : OpenFile) (left : file.rest = lines) (s : Preprocessor) :
    Acc (Function.swap (Step inclusion tree)) ⟨file :: outer, s⟩ := by
  induction lines generalizing file s with
  | nil =>
    constructor
    rintro ⟨files, s'⟩ step
    obtain ⟨_, _, before, after⟩ := Step.files_cases step
    obtain ⟨rfl, rfl⟩ := List.cons.inj before
    rcases after with rfl | ⟨line, rest, more, -⟩
    · exact below s'
    · cases left.symm.trans more
  | cons line lines ih =>
    constructor
    rintro ⟨files, s'⟩ step
    obtain ⟨_, _, before, after⟩ := Step.files_cases step
    obtain ⟨rfl, rfl⟩ := List.cons.inj before
    rcases after with rfl | ⟨line', rest, more, after⟩
    · exact below s'
    · obtain ⟨rfl, rfl⟩ := List.cons.inj (left.symm.trans more)
      have shorter := ih (file.advance line lines) rfl
      rcases after with rfl | ⟨shallow, source, saved, rfl⟩
      · exact shorter s'
      · exact opened _ _ s' shallow shorter

theorem acc_push (room : Nat) {outer : List OpenFile} (deep : inclusion.maxDepth ≤ outer.length + room)
    (below : ∀ s, Acc (Function.swap (Step inclusion tree)) ⟨outer, s⟩) (file : OpenFile)
    (s : Preprocessor) : Acc (Function.swap (Step inclusion tree)) ⟨file :: outer, s⟩ := by
  induction room generalizing outer file s with
  | zero =>
    refine acc_file below (fun _ _ _ shallow => ?_) file.rest file rfl s
    omega
  | succ room ih =>
    refine acc_file below (fun file inner s _ below => ?_) file.rest file rfl s
    refine ih ?_ below inner s
    rw [List.length_cons]
    omega

variable (inclusion tree) in
theorem wellFounded_step : WellFounded (Function.swap (Step inclusion tree)) := by
  constructor
  rintro ⟨files, s⟩
  induction files generalizing s with
  | nil =>
    constructor
    intro t step
    cases step
  | cons file outer ih => exact acc_push inclusion.maxDepth (Nat.le_add_left _ _) ih file s

theorem Step.length_le {t t' : Traversal} (h : Step inclusion tree t t')
    (bounded : t.files.length ≤ inclusion.maxDepth + 1) : t'.files.length ≤ inclusion.maxDepth + 1 := by
  obtain ⟨file, outer, before, after⟩ := h.files_cases
  rw [before, List.length_cons] at bounded
  rcases after with after | ⟨line, rest, -, after | ⟨shallow, source, saved, after⟩⟩
  all_goals
    simp only [after, List.length_cons]
    omega

theorem Runs.length_le {t t' : Traversal} (run : Runs inclusion tree t t')
    (bounded : t.files.length ≤ inclusion.maxDepth + 1) : t'.files.length ≤ inclusion.maxDepth + 1 := by
  induction run with
  | refl => exact bounded
  | tail _ step ih => exact step.length_le ih

theorem refuse_of_deep {place : Place} (deep : inclusion.maxDepth < place.level) (argument : String) :
    ∃ d : Diagnostic, (∀ tree s, refuse inclusion tree place argument s = s.addDiagnostic d) ∧
      d.severity = .error ∧ d.category = .inclusion := by
  by_cases given : (includePath argument).isEmpty = true
  · refine ⟨diagnosticAt place .includeWithoutPath, fun tree s => ?_, rfl, rfl⟩
    simp only [refuse, includeFile, given, if_true]
    rfl
  · obtain ⟨d, reported, severity, category⟩ : ∃ d : Diagnostic,
        (∀ s, reportTooDeep inclusion s place (includePath argument) = s.addDiagnostic d) ∧
          d.severity = .error ∧ d.category = .inclusion :=
      ⟨_, fun _ => rfl, rfl, rfl⟩
    refine ⟨d, fun tree s => ?_, severity, category⟩
    simp only [refuse, includeFile, given, deep, Bool.false_eq_true, if_false, if_true, reported]

/-- At a point where more files are open than the limit allows, an `@include` is a step that adds `d` to
the log and changes nothing else, on every tree of files. -/
theorem step_of_deep {t : Traversal} {files : List OpenFile} {line argument : String}
    (reads : t.Reads files line) (heard : includeArgument? line t.state = some argument)
    (deep : inclusion.maxDepth < files.length) :
    ∃ d : Diagnostic, d.severity = .error ∧ d.category = .inclusion ∧ ∀ tree,
      Step inclusion tree t
        ⟨files, { t.state with lines := t.state.lines + 1, log := t.state.log.add d }⟩ := by
  have deep' : inclusion.maxDepth < Place.level (files.map OpenFile.frame) := by
    rwa [Place.level, List.length_map]
  obtain ⟨d, refused, severity, category⟩ := refuse_of_deep deep' argument
  refine ⟨d, severity, category, fun tree => ?_⟩
  have unfound : included? inclusion tree (files.map OpenFile.frame) argument = none := by
    rw [Option.eq_none_iff_forall_ne_some]
    intro source found
    have shallow := level_of_included? found
    omega
  have heard' : includeArgument? line { t.state with lines := t.state.lines + 1 } = some argument :=
    heard
  have step : Step inclusion tree t
      (readLine inclusion tree files line { t.state with lines := t.state.lines + 1 }) :=
    step_of_reads reads
  simp only [readLine, heard', unfound, refused] at step
  exact step

/-- Processing a file comes to an end, from every point on, however files include each other. On the way
at most one file more is open than the limit says; and an `@include` that is met when more files than
that are open adds one error to the log and does nothing else, whatever files there are to be read. -/
theorem includes_end_within_limit (inclusion : Inclusion) (tree : FileTree) (path : String)
    (s : Preprocessor) :
    WellFounded (Function.swap (Step inclusion tree)) ∧
    Runs inclusion tree (beginFile tree path s) ⟨[], processFile inclusion tree path s⟩ ∧
    ∀ t, Runs inclusion tree (beginFile tree path s) t →
      t.files.length ≤ inclusion.maxDepth + 1 ∧
      ∀ files line argument, t.Reads files line → includeArgument? line t.state = some argument →
        inclusion.maxDepth < files.length →
          ∃ d : Diagnostic, d.severity = .error ∧ d.category = .inclusion ∧ ∀ tree,
            Step inclusion tree t
              ⟨files, { t.state with lines := t.state.lines + 1, log := t.state.log.add d }⟩ := by
  refine ⟨wellFounded_step inclusion tree, runs_processFile inclusion tree path s, fun t run => ⟨?_, ?_⟩⟩
  · have started := length_files_beginFile tree path s
    exact run.length_le (by omega)
  · intro files line argument reads heard deep
    exact step_of_deep reads heard deep

def endless : FileTree := ⟨[], [(["a.gp"], .file "@print 1
@include a.gp".toUTF8)]⟩

def endlessPoint : Traversal := after ⟨[], 1⟩ endless 3 (beginFile endless "a.gp" (.start .empty))

theorem endless_stopped :
    (processFile ⟨[], 1⟩ endless "a.gp" (.start .empty)).prints.length = 2 ∧
      ∃ files, endlessPoint.Reads files "@include a.gp" ∧ files.length = 2 ∧
        ∃ d : Diagnostic, d.severity = .error ∧ d.category = .inclusion ∧ ∀ tree,
          Step ⟨[], 1⟩ tree endlessPoint ⟨files, { endlessPoint.state with
            lines := endlessPoint.state.lines + 1, log := endlessPoint.state.log.add d }⟩ := by
  have run : Runs ⟨[], 1⟩ endless (beginFile endless "a.gp" (.start .empty)) endlessPoint :=
    runs_after ⟨[], 1⟩ endless 3 _
  obtain ⟨-, refused⟩ := (includes_end_within_limit ⟨[], 1⟩ endless "a.gp" (.start .empty)).2.2 _ run
  have point : endlessPoint.files.map OpenFile.rest = [["@include a.gp"], []] ∧
      endlessPoint.state.aborted = false := by
    decide +kernel
  refine ⟨by decide +kernel, ?_⟩
  cases files : endlessPoint.files with
  | nil => simp [files] at point
  | cons file outer =>
    simp only [files, List.map_cons, List.cons.injEq] at point
    obtain ⟨⟨left, rest⟩, running⟩ := point
    have reads : endlessPoint.Reads (file.advance "@include a.gp" [] :: outer) "@include a.gp" :=
      ⟨running, file, outer, [], files, left, rfl⟩
    have two : (file.advance "@include a.gp" [] :: outer).length = 2 := by
      have length := congrArg List.length rest
      simpa using length
    refine ⟨_, reads, two, refused _ _ "a.gp" reads (by decide +kernel) ?_⟩
    rw [two]
    decide

end Traversal

end GcodePrep
