import GcodePrep.Proofs.OpenBlocks
import GcodePrep.Proofs.StepEffects
import Mathlib.Data.List.Forall2

set_option autoImplicit false

/-!
# Ends of files

The end of a file closes what was opened in the file and nothing else, and reports each of these
blocks once. So a text that is processed inside of other files leaves open at most what was open
before it.
-/

namespace GcodePrep

open Skeleton

/-- The diagnostic says that the block is not closed, and points at the line that opens it. -/
structure Skeleton.Opening.Reported (x : Opening) (d : Diagnostic) : Prop where
  severity : d.severity = .error
  file : d.file = some x.site.origin.file
  line : d.line = x.site.origin.line
  message : ∃ about, d.message = messageAbout ("unterminated " ++ x.directive.word) about

def Skeleton.unclosed (height : Nat) (b : Skeleton) : List Opening :=
  (b.openings height).filter (·.site.level = height)

theorem span_eq_filter {α : Type} {p : α → Bool} {xs : List α}
    (ordered : xs.Pairwise fun a b => p b = true → p a = true) :
    xs.takeWhile p = xs.filter p ∧ xs.dropWhile p = xs.filter (!p ·) := by
  induction xs with
  | nil => exact ⟨rfl, rfl⟩
  | cons x xs ih =>
    obtain ⟨before, ordered⟩ := List.pairwise_cons.mp ordered
    cases first : p x with
    | true => simp [first, ih ordered]
    | false =>
      have others : ∀ y ∈ xs, p y = false := fun y mem => by
        simpa [first] using before y mem
      have all : xs.filter (!p ·) = xs := List.filter_eq_self.mpr fun y mem => by simp [others y mem]
      simpa [first, all] using others

theorem Switches.splitFromLevel_eq {switches : Switches}
    (ordered : switches.Pairwise fun inner outer => outer.fileLevel ≤ inner.fileLevel) (height : Nat) :
    switches.splitFromLevel (height + 1) =
      (switches.filter (height < ·.fileLevel), switches.filter (·.fileLevel ≤ height)) := by
  have split := span_eq_filter (p := fun sw : Switch => decide (height < sw.fileLevel))
    (ordered.imp fun below deep =>
      decide_eq_true (Nat.lt_of_lt_of_le (of_decide_eq_true deep) below))
  refine Prod.ext split.1 (split.2.trans (List.filter_congr fun sw _ => ?_))
  rw [← decide_not, decide_eq_decide]
  exact Nat.not_lt

/-- From `log` to `log'` each of the blocks is reported, in their order, and nothing else is. -/
def Reports (log log' : Log) (xs : List Opening) : Prop :=
  ∃ ds, log' = log.addAll ds ∧ List.Forall₂ Opening.Reported xs ds

namespace Reports

theorem refl (log : Log) : Reports log log [] := ⟨[], rfl, .nil⟩

theorem trans {log log' log'' : Log} {xs ys : List Opening} (h : Reports log log' xs)
    (h' : Reports log' log'' ys) : Reports log log'' (xs ++ ys) := by
  obtain ⟨ds, added, reported⟩ := h
  obtain ⟨es, added', reported'⟩ := h'
  exact ⟨ds ++ es, by rw [added', added, Log.addAll_addAll], List.rel_append reported reported'⟩

theorem add (log : Log) {x : Opening} {d : Diagnostic} (reported : x.Reported d) :
    Reports log (log.add d) [x] :=
  ⟨[d], rfl, .cons reported .nil⟩

theorem foldl {α : Type} {f : Preprocessor → α → Preprocessor} {x : α → Opening}
    (h : ∀ s a, Reports s.log (f s a).log [x a]) (as : List α) (s : Preprocessor) :
    Reports s.log (as.foldl f s).log (as.map x) := by
  induction as generalizing s with
  | nil => exact refl s.log
  | cons a as ih => exact (h s a).trans (ih (f s a))

end Reports

namespace Preprocessor

section Stages

variable (s : Preprocessor) (height : Nat)

theorem reports_reportBranches (branches : Branches) :
    Reports s.log (s.reportBranches branches).log
      (branches.map fun branch => ⟨.if_, branch.origin, height⟩) := by
  refine Reports.foldl (fun s branch => .add s.log ?_) branches s
  cases branch.elseOrigin <;> exact ⟨rfl, rfl, rfl, none, rfl⟩

theorem reports_reportSwitches (switches : Switches) :
    Reports s.log (s.reportSwitches switches).log (switches.map fun sw => ⟨.switch, sw.site⟩) :=
  Reports.foldl (fun s _ => .add s.log ⟨rfl, rfl, rfl, none, rfl⟩) switches s

theorem endBranches_closes :
    let ended := { s with branches := [] }.reportBranches s.branches
    ended.skeleton = { s.skeleton with conditionals := [] } ∧
      Reports s.log ended.log (conditionalsAt height s.skeleton.conditionals) := by
  constructor
  · exact skeleton_foldl (fun s _ => skeleton_addDiagnostic s _) s.branches { s with branches := [] }
  · have reported := reports_reportBranches { s with branches := [] } height s.branches
    simpa only [conditionalsAt, skeleton, List.map_map, Function.comp_def] using reported

theorem endHeader_closes :
    (s.endHeader (height + 1)).skeleton =
        { s.skeleton with header := s.skeleton.header.filter (·.level ≤ height) } ∧
      Reports s.log (s.endHeader (height + 1)).log
        ((s.skeleton.header.toList.map (Opening.mk .header)).filter (height < ·.site.level)) := by
  unfold endHeader
  cases header : s.header with
  | none => simpa [skeleton, header] using Reports.refl s.log
  | some opened =>
    have reported : Reports s.log (s.log.add (Problem.unterminatedHeader.atOrigin opened.origin))
        [⟨.header, opened.site⟩] :=
      .add s.log ⟨rfl, rfl, rfl, none, rfl⟩
    by_cases deep : height + 1 ≤ opened.fileLevel
    · have high : ¬ opened.fileLevel ≤ height := Nat.not_le_of_lt deep
      simpa [skeleton, header, OpenHeader.site, Option.filter_some, deep, high, Nat.lt_of_succ_le deep,
        reportAt, addDiagnostic] using reported
    · have low : opened.fileLevel ≤ height := Nat.le_of_lt_succ (Nat.lt_of_not_le deep)
      simpa [skeleton, header, OpenHeader.site, Option.filter_some, deep, low] using Reports.refl s.log

theorem endProgram_closes
    (vacated : ∀ opened, s.current = some opened → height + 1 ≤ opened.fileLevel → s.switches = []) :
    (s.endProgram (height + 1)).2 = [] ∧
      (s.endProgram (height + 1)).1.skeleton =
        { s.skeleton with accepted := s.skeleton.accepted.filter (·.level ≤ height) } ∧
      Reports s.log (s.endProgram (height + 1)).1.log
        ((s.skeleton.accepted.toList.map (Opening.mk .program)).filter (height < ·.site.level)) := by
  unfold endProgram
  cases current : s.current with
  | none => simpa [skeleton, current] using Reports.refl s.log
  | some opened =>
    by_cases deep : height + 1 ≤ opened.fileLevel
    · have high : ¬ opened.fileLevel ≤ height := Nat.not_le_of_lt deep
      have reported : Reports s.log (s.log.add ((Problem.unterminatedProgram opened.program.name).atOrigin
          opened.program.origin)) [⟨.program, opened.site⟩] :=
        .add s.log ⟨rfl, rfl, rfl, some opened.program.name, rfl⟩
      have restored : ({ s with current := none, switches := [] }.restoreSaved
          opened.program.saved).log = s.log := by
        cases opened.program.saved <;> rfl
      have kept := skeleton_restoreSaved { s with current := none, switches := [] } opened.program.saved
      simp only [deep, if_true]
      refine ⟨vacated opened current deep, kept.trans ?_, ?_⟩
      · simp [skeleton, current, OpenProgram.site, Option.filter_some, high, vacated opened current deep]
      · simpa [skeleton, current, OpenProgram.site, Nat.lt_of_succ_le deep, Program.abandon, reportAt,
          addDiagnostic, restored] using reported
    · have low : opened.fileLevel ≤ height := Nat.le_of_lt_succ (Nat.lt_of_not_le deep)
      simpa [skeleton, current, OpenProgram.site, Option.filter_some, deep, low] using
        Reports.refl s.log

theorem endSwitches_closes
    (ordered : s.skeleton.switches.Pairwise fun inner outer => outer.level ≤ inner.level)
    (inside : ∀ program ∈ s.skeleton.accepted, ∀ site ∈ s.skeleton.switches,
      program.level ≤ site.level) :
    let split := s.switches.splitFromLevel (height + 1)
    let ended := { s with switches := split.2 }.endProgram (height + 1)
    (ended.1.reportSwitches (split.1 ++ ended.2)).skeleton =
        { s.skeleton with
          accepted := s.skeleton.accepted.filter (·.level ≤ height)
          switches := s.skeleton.switches.filter (·.level ≤ height) } ∧
      Reports s.log (ended.1.reportSwitches (split.1 ++ ended.2)).log
        ((s.skeleton.accepted.toList.map (Opening.mk .program) ++
          s.skeleton.switches.map (Opening.mk .switch)).filter (height < ·.site.level)) := by
  intro split ended
  have split_eq := Switches.splitFromLevel_eq (List.pairwise_map.mp ordered) height
  have kept : split.2.map Switch.site = s.skeleton.switches.filter (·.level ≤ height) := by
    rw [skeleton, List.filter_map]
    exact congrArg (fun p => p.2.map Switch.site) split_eq
  have inner : split.1.map (fun sw => ⟨.switch, sw.site⟩) =
      (s.skeleton.switches.map (Opening.mk .switch)).filter (height < ·.site.level) := by
    rw [skeleton, List.map_map, List.filter_map]
    exact congrArg (fun p => p.1.map (Opening.mk .switch ∘ Switch.site)) split_eq
  have vacated : ∀ opened, s.current = some opened → height + 1 ≤ opened.fileLevel → split.2 = [] := by
    intro opened current deep
    have program : opened.site ∈ s.skeleton.accepted := by simp [skeleton, current]
    rw [← List.map_eq_nil_iff, kept, List.filter_eq_nil_iff]
    intro site mem
    have deeper : height < site.level := Nat.lt_of_lt_of_le deep (inside opened.site program site mem)
    simpa using deeper
  obtain ⟨none_left, skeleton_eq, reported⟩ :=
    endProgram_closes { s with switches := split.2 } height vacated
  rw [none_left, List.append_nil]
  constructor
  · rw [skeleton_reportSwitches, skeleton_eq, ← kept]
    rfl
  · have switches := reports_reportSwitches ended.1 split.1
    rw [inner] at switches
    rw [List.filter_append]
    exact reported.trans switches

theorem endRejected_closes :
    (s.endRejected (height + 1)).skeleton =
        { s.skeleton with refused := s.skeleton.refused.filter (·.level ≤ height) } ∧
      (s.endRejected (height + 1)).log = s.log := by
  unfold endRejected
  cases rejected : s.rejected with
  | none => simp [skeleton, rejected]
  | some refused =>
    by_cases deep : height + 1 ≤ refused.fileLevel
    · have high : ¬ refused.fileLevel ≤ height := Nat.not_le_of_lt deep
      simp [skeleton, rejected, RejectedProgram.site, Option.filter_some, deep, high, closeRejected]
    · have low : refused.fileLevel ≤ height := Nat.le_of_lt_succ (Nat.lt_of_not_le deep)
      simp [skeleton, rejected, RejectedProgram.site, Option.filter_some, deep, low]

theorem endFile_closes {s : Preprocessor} {height : Nat} (nested : Nested (height + 1) s.skeleton) :
    (s.endFile (height + 1)).skeleton = s.skeleton.upTo height ∧
      Reports s.log (s.endFile (height + 1)).log (s.skeleton.unclosed (height + 1)) := by
  -- No block is deeper than the file, so that those above `height` are the file's own.
  have own : s.skeleton.unclosed (height + 1) =
      (s.skeleton.openings (height + 1)).filter (height < ·.site.level) := by
    refine List.filter_congr fun x mem => ?_
    have := nested.level_le x mem
    simp only [decide_eq_decide]
    omega
  unfold endFile
  dsimp only
  obtain ⟨skeleton₁, reported₁⟩ := endBranches_closes s (height + 1)
  generalize { s with branches := [] }.reportBranches s.branches = s₁ at *
  obtain ⟨skeleton₂, reported₂⟩ := endHeader_closes s₁ height
  generalize s₁.endHeader (height + 1) = s₂ at *
  rw [skeleton₁] at skeleton₂ reported₂
  obtain ⟨skeleton₃, reported₃⟩ := endSwitches_closes s₂ height
    (by rw [skeleton₂]; exact nested.ordered) (by rw [skeleton₂]; exact nested.inside)
  generalize Preprocessor.reportSwitches _ _ = s₃ at *
  rw [skeleton₂] at skeleton₃ reported₃
  obtain ⟨skeleton₄, log₄⟩ := endRejected_closes s₃ height
  rw [skeleton₃] at skeleton₄
  refine ⟨skeleton₄, ?_⟩
  rw [log₄, own]
  have conditionals (origins : List Origin) :
      (conditionalsAt (height + 1) origins).filter (height < ·.site.level) =
        conditionalsAt (height + 1) origins := by
    refine List.filter_eq_self.mpr fun x mem => ?_
    obtain ⟨origin, -, rfl⟩ := mem_conditionalsAt.mp mem
    exact decide_eq_true (Nat.lt_succ_self height)
  have all := reported₁.trans (reported₂.trans reported₃)
  rw [← List.filter_append, ← List.append_assoc, ← conditionals, ← List.filter_append] at all
  exact all

theorem programs_endProgram (level : Nat) : (s.endProgram level).1.programs = s.programs := by
  unfold endProgram
  split
  · rfl
  · split
    · exact (Steady.restoreSaved { s with current := none, switches := [] } _).programs
    · rfl

theorem programs_endRejected (level : Nat) : (s.endRejected level).programs = s.programs := by
  unfold endRejected
  cases rejected : s.rejected with
  | none => rfl
  | some refused =>
    dsimp only
    split
    · rw [closeRejected, rejected]
    · rfl

theorem programs_endFile (level : Nat) : (s.endFile level).programs = s.programs := by
  unfold endFile
  dsimp only
  rw [programs_endRejected, (Quiet.reportSwitches _ _).programs, programs_endProgram]
  exact ((Quiet.reportBranches { s with branches := [] } s.branches).trans (.endHeader _ level)).programs

end Stages

theorem header_of_includeArgument? {text argument : String} {s : Preprocessor}
    (h : includeArgument? text s = some argument) : s.header = none := by
  unfold includeArgument? at h
  split at h
  · split at h
    · rename_i heard
      simp only [Bool.and_eq_true, Option.isNone_iff_eq_none] at heard
      exact heard.2
    · cases h
  · cases h

theorem running_of_processLines {includer : Includer} {source : Source} {outer : Place} {n : Nat}
    {lines : List String} {s : Preprocessor}
    (running : (processLines includer source outer n lines s).aborted = false) : s.aborted = false := by
  cases aborted : s.aborted with
  | false => rfl
  | true =>
    rw [processLines_of_aborted aborted, aborted] at running
    cases running

/-- Nothing that was opened between `s` and `s'` is open in `s'`. -/
structure Returned (height : Nat) (s s' : Preprocessor) : Prop where
  branches : s'.branches = s.branches
  nested : Nested height s'.skeleton
  within : Within s.skeleton s'.skeleton

/-- Inside of `place`, an includer that closes all that the included file opens. -/
def Tidy (includer : Includer) (place : Place) : Prop :=
  ∀ argument s, Nested place.level s.skeleton → s.header = none →
    (includer place argument s).aborted = false → Returned place.level s (includer place argument s)

section Texts

variable {includer : Includer} {outer : Place} (tidy : ∀ frame, Tidy includer (frame :: outer))

include tidy

theorem nested_processLine (frame : SourceFrame) (line : String) {s : Preprocessor}
    (nested : Nested (outer.level + 1) s.skeleton)
    (running : (processLine includer (frame :: outer) line s).aborted = false) :
    Nested (outer.level + 1) (processLine includer (frame :: outer) line s).skeleton ∧
      Within (s.skeleton.upTo outer.level)
        ((processLine includer (frame :: outer) line s).skeleton.upTo outer.level) := by
  cases heard : includeArgument? line s with
  | none =>
    rw [processLine_of_not_include heard includer fun _ _ s => s]
    have move := move_processLine s (frame :: outer) (fun _ _ s => s) (fun _ => rfl) line
    exact ⟨move.nested (Nat.le_add_left 1 _) nested, move.within (Nat.lt_succ_self _)⟩
  | some argument =>
    rw [processLine_include heard] at running ⊢
    have returned := tidy frame argument s nested (header_of_includeArgument? heard) running
    exact ⟨returned.nested, returned.within.upTo _⟩

theorem nested_processLines (source : Source) (n : Nat) (lines : List String) {s : Preprocessor}
    (nested : Nested (outer.level + 1) s.skeleton)
    (running : (processLines includer source outer n lines s).aborted = false) :
    Nested (outer.level + 1) (processLines includer source outer n lines s).skeleton ∧
      Within (s.skeleton.upTo outer.level)
        ((processLines includer source outer n lines s).skeleton.upTo outer.level) := by
  induction lines generalizing n s with
  | nil => exact ⟨nested, .refl _⟩
  | cons line rest ih =>
    have started := running_of_processLines running
    rw [processLines_cons started] at running ⊢
    have read := running_of_processLines running
    obtain ⟨nested', within⟩ :=
      nested_processLine tidy _ line (s := { s with lines := s.lines + 1 }) nested read
    obtain ⟨nested'', within'⟩ := ih _ nested' running
    exact ⟨nested'', within.trans within'⟩

theorem returned_processText (source : Source) {s : Preprocessor}
    (nested : Nested outer.level s.skeleton) (unheaded : s.header = none)
    (running : (processText includer source outer s).aborted = false) :
    Returned outer.level s (processText includer source outer s) := by
  unfold processText at running ⊢
  dsimp only at running ⊢
  have nested' := (nested.enter (by simp [skeleton, unheaded])).withConditionals []
  have lines := nested_processLines tidy source 1 (Text.sourceLines source.text)
    (s := { s with branches := [] }) nested'
  generalize processLines includer source outer 1 (Text.sourceLines source.text)
    { s with branches := [] } = r at *
  cases aborted : r.aborted with
  | true => simp [aborted] at running
  | false =>
    obtain ⟨nested', within⟩ := lines aborted
    simp only [Bool.false_eq_true, if_false]
    have closed : { r.endFile (outer.level + 1) with branches := s.branches }.skeleton =
        { r.skeleton.upTo outer.level with conditionals := s.skeleton.conditionals } := by
      rw [← (endFile_closes nested').1]
      rfl
    refine ⟨rfl, ?_, ?_⟩
    · rw [closed]
      exact nested'.upTo.withConditionals _
    · rw [closed]
      have whole := nested.within_upTo.trans within
      exact ⟨whole.header, whole.accepted, whole.refused, whole.switches⟩

end Texts

theorem includeFile_cases (inclusion : Inclusion) (tree : FileTree)
    (enter? : Option (Source → Place → Preprocessor → Preprocessor)) (place : Place) (argument : String)
    (s : Preprocessor) :
    (∃ d, includeFile inclusion tree enter? place argument s = s.addDiagnostic d) ∨
      ∃ enter source, enter? = some enter ∧
        includeFile inclusion tree enter? place argument s = enter source place s := by
  unfold includeFile
  by_cases given : (includePath argument).isEmpty = true
  · exact .inl ⟨_, if_pos given⟩
  · simp only [given, Bool.false_eq_true, if_false]
    cases enter? with
    | none => exact .inl ⟨_, rfl⟩
    | some enter =>
      dsimp only
      unfold readFile
      split
      · exact .inr ⟨enter, _, rfl, rfl⟩
      · cases place <;> exact .inl ⟨_, rfl⟩

variable {inclusion : Inclusion} {tree : FileTree}

theorem tidy_includeFile {enter? : Option (Source → Place → Preprocessor → Preprocessor)} {place : Place}
    (entered : ∀ enter, enter? = some enter → ∀ source s, Nested place.level s.skeleton →
      s.header = none → (enter source place s).aborted = false →
        Returned place.level s (enter source place s)) :
    Tidy (includeFile inclusion tree enter?) place := by
  intro argument s nested unheaded running
  rcases includeFile_cases inclusion tree enter? place argument s with
    ⟨d, eq⟩ | ⟨enter, source, given, eq⟩
  · rw [eq]
    exact ⟨rfl, nested, .refl _⟩
  · rw [eq] at running ⊢
    exact entered enter given source s nested unheaded running

variable (inclusion tree) in
theorem tidy_includerIn (room : Nat) (place : Place) : Tidy (includerIn inclusion tree room) place := by
  induction room generalizing place with
  | zero =>
    unfold includerIn
    exact tidy_includeFile fun _ given => by cases given
  | succ room ih =>
    unfold includerIn
    refine tidy_includeFile fun enter given source s nested unheaded running => ?_
    cases given
    rw [enter_eq_processText] at running ⊢
    exact returned_processText (fun frame => ih (frame :: place)) source nested unheaded running

theorem returned_enter (room : Nat) (source : Source) (outer : Place) {s : Preprocessor}
    (nested : Nested outer.level s.skeleton) (unheaded : s.header = none)
    (running : (enter inclusion tree room source outer s).aborted = false) :
    Returned outer.level s (enter inclusion tree room source outer s) := by
  rw [enter_eq_processText] at running ⊢
  exact returned_processText (fun frame => tidy_includerIn inclusion tree room (frame :: outer)) source
    nested unheaded running

structure AtRest (s : Preprocessor) : Prop where
  branches : s.branches = []
  header : s.header = none
  current : s.current = none
  rejected : s.rejected = none
  switches : s.switches = []

theorem atRest_iff {s : Preprocessor} : s.AtRest ↔ s.branches = [] ∧ Nested 0 s.skeleton := by
  constructor
  · intro rest
    refine ⟨rest.branches, ?_⟩
    constructor <;> simp [skeleton, rest.header, rest.current, rest.rejected, rest.switches]
  · rintro ⟨branches, nested⟩
    have closed := nested.closed
    simp only [skeleton, Option.map_eq_none_iff, List.map_eq_nil_iff] at closed
    exact ⟨branches, closed.1, closed.2.1, closed.2.2.1, closed.2.2.2⟩

theorem AtRest.processSource {s : Preprocessor} (rest : s.AtRest) {source : Source}
    (running : (processSource inclusion tree source s).aborted = false) :
    (processSource inclusion tree source s).AtRest := by
  unfold Preprocessor.processSource at running ⊢
  split at running
  · rename_i aborted
    simp [aborted] at running
  · rw [if_neg ‹_›]
    obtain ⟨branches, nested⟩ := atRest_iff.mp rest
    have returned := returned_enter inclusion.maxDepth source [] nested rest.header running
    exact atRest_iff.mpr ⟨returned.branches.trans branches, returned.nested⟩

theorem AtRest.processFile {s : Preprocessor} (rest : s.AtRest) {path : String}
    (running : (processFile inclusion tree path s).aborted = false) :
    (processFile inclusion tree path s).AtRest := by
  cases read : tree.read path with
  | ok text =>
    rw [Traversal.processFile_of_ok inclusion tree read] at running ⊢
    exact rest.processSource running
  | error fault =>
    simp only [Preprocessor.processFile, readFile, read]
    split
    · exact rest
    · exact ⟨rest.branches, rest.header, rest.current, rest.rejected, rest.switches⟩

end Preprocessor

end GcodePrep
