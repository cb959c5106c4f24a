import GcodePrep.Proofs.BodyLines
import GcodePrep.Proofs.Coherence

set_option autoImplicit false

/-!
# What a step does to the open program

The body of the open program changes in three ways: a record is appended, the jump table of the
innermost switch goes in and a record is appended, or the program is left. All other steps write nothing.
`Revision` says this of every step, together with what becomes of the positions that open switches
remember; and it says that nothing but an error stops a run.
-/

namespace GcodePrep

namespace Preprocessor

/-- The body of the open program, and how many records were appended to it. -/
def sheet? (s : Preprocessor) : Option (List Record × Nat) :=
  s.current.map fun o => (o.program.body, o.program.outLine)

/-- Where the jump tables of the open switches go, and their output line numbers. -/
def marks (s : Preprocessor) : List (Nat × Nat) :=
  s.switches.map fun sw => (sw.insertAt, sw.outLine)

/-- The program may be left; if it is not, only switches may be. -/
structure Unwritten (s s' : Preprocessor) : Prop where
  aborted : s'.aborted = s.aborted
  kept : s'.sheet? = none ∨ s'.sheet? = s.sheet? ∧ s'.marks <:+ s.marks

namespace Unwritten

theorem of_eq {s s' : Preprocessor} (aborted : s'.aborted = s.aborted) (sheet : s'.sheet? = s.sheet?)
    (marks : s'.marks = s.marks) : Unwritten s s' :=
  ⟨aborted, .inr ⟨sheet, marks ▸ List.suffix_refl _⟩⟩

theorem refl (s : Preprocessor) : Unwritten s s := of_eq rfl rfl rfl

theorem trans {a b c : Preprocessor} (h : Unwritten a b) (h' : Unwritten b c) : Unwritten a c := by
  refine ⟨h'.aborted.trans h.aborted, ?_⟩
  rcases h'.kept with left | ⟨sheet', marks'⟩
  · exact .inl left
  · rcases h.kept with left | ⟨sheet, marks⟩
    · exact .inl (sheet'.trans left)
    · exact .inr ⟨sheet'.trans sheet, marks'.trans marks⟩

theorem foldl {α : Type} {f : Preprocessor → α → Preprocessor} (h : ∀ s a, Unwritten s (f s a))
    (as : List α) (s : Preprocessor) : Unwritten s (as.foldl f s) := by
  induction as generalizing s with
  | nil => exact refl s
  | cons a as ih => exact (h s a).trans (ih _)

theorem addDiagnostic (s : Preprocessor) (d : Diagnostic) : Unwritten s (s.addDiagnostic d) :=
  of_eq rfl rfl rfl

theorem reportSwitches (s : Preprocessor) (switches : Switches) :
    Unwritten s (s.reportSwitches switches) :=
  foldl (fun s _ => addDiagnostic s _) switches s

theorem reportFailures (s : Preprocessor) (failures : List ResolveFailure) :
    Unwritten s (s.reportFailures failures) :=
  foldl (fun s _ => addDiagnostic s _) failures s

theorem restoreSaved (s : Preprocessor) (saved : Option Bindings) :
    Unwritten s (s.restoreSaved saved) := by
  cases saved <;> exact of_eq rfl rfl rfl

theorem of_vacated {s s' : Preprocessor}
    (h : Unwritten { s with current := none, switches := [] } s') : Unwritten s s' := by
  refine ⟨h.aborted, .inl ?_⟩
  rcases h.kept with left | ⟨sheet, -⟩
  · exact left
  · exact sheet

variable (s : Preprocessor) (place : Place)

theorem openIf (expr : String) : Unwritten s (s.openIf place expr) := by
  unfold Preprocessor.openIf
  cases s.branches.isActive && expr.isEmpty <;> exact of_eq rfl rfl rfl

theorem flipElse : Unwritten s (s.flipElse place) := by
  unfold Preprocessor.flipElse
  split <;> exact of_eq rfl rfl rfl

theorem closeIf : Unwritten s (s.closeIf place) := by
  unfold Preprocessor.closeIf
  split <;> exact of_eq rfl rfl rfl

theorem closeHeader : Unwritten s (s.closeHeader place) := by
  unfold Preprocessor.closeHeader
  split <;> exact of_eq rfl rfl rfl

theorem captureHeader (line : String) : Unwritten s (s.captureHeader line) := by
  unfold Preprocessor.captureHeader
  split
  · exact refl s
  · rename_i current
    exact of_eq rfl (by simp [sheet?, withProgram, current, Program.addHeader]) rfl
  · exact of_eq rfl rfl rfl

theorem evalStatement (expr : String) : Unwritten s (s.evalStatement place expr) := by
  have evaluated : Unwritten s (s.eval expr).2 := of_eq rfl rfl rfl
  unfold Preprocessor.evalStatement
  split <;> rename_i h <;> rw [h] at evaluated
  · exact evaluated
  · exact evaluated.trans (addDiagnostic _ _)

theorem define (assignment : String) : Unwritten s (s.define place assignment) := by
  unfold Preprocessor.define
  split
  · exact of_eq rfl rfl rfl
  · split <;> exact of_eq rfl rfl rfl

theorem outsideLine (line : Line) : Unwritten s (s.outsideLine place line) := by
  unfold Preprocessor.outsideLine
  split <;> exact of_eq rfl rfl rfl

theorem closeRejected : Unwritten s s.closeRejected := by
  unfold Preprocessor.closeRejected
  split <;> exact of_eq rfl rfl rfl

theorem closeProgram : Unwritten s (s.closeProgram place) := by
  cases current : s.current with
  | none =>
    simp only [Preprocessor.closeProgram, current]
    exact addDiagnostic s _
  | some opened =>
    rw [closeProgram_eq current]
    dsimp only
    have reported := reportSwitches { s with current := none, switches := [] } s.switches
    generalize { s with current := none, switches := [] }.reportSwitches s.switches = t at reported ⊢
    have resolved : Unwritten t { t with env := (opened.program.resolve t.env).2.2 } := of_eq rfl rfl rfl
    have failed := reportFailures { t with env := (opened.program.resolve t.env).2.2 }
      (opened.program.resolve t.env).2.1
    have whole := ((reported.trans resolved).trans failed).trans (restoreSaved _ opened.program.saved)
    exact of_vacated (whole.trans (of_eq rfl rfl rfl))

theorem refuse (inclusion : Inclusion) (tree : FileTree) (argument : String) :
    Unwritten s (Traversal.refuse inclusion tree place argument s) := by
  unfold Traversal.refuse
  rcases includeFile_cases inclusion tree
    (if inclusion.maxDepth < place.level then none else some fun _ _ s => s) place argument s with
    ⟨d, eq⟩ | ⟨enter, source, given, eq⟩
  · rw [eq]
    exact addDiagnostic s d
  · rw [eq]
    split at given <;> cases given
    exact refl s

theorem endHeader (level : Nat) : Unwritten s (s.endHeader level) := by
  unfold Preprocessor.endHeader
  split
  · exact refl s
  · split <;> exact of_eq rfl rfl rfl

theorem endProgram (level : Nat) : Unwritten s (s.endProgram level).1 := by
  unfold Preprocessor.endProgram
  split
  · exact refl s
  · split
    · exact of_vacated ((restoreSaved _ _).trans (addDiagnostic _ _))
    · exact refl s

theorem endRejected (level : Nat) : Unwritten s (s.endRejected level) := by
  unfold Preprocessor.endRejected
  split
  · exact refl s
  · split
    · exact closeRejected s
    · exact refl s

theorem endFile (level : Nat) : Unwritten s (s.endFile level) := by
  have branches : Unwritten s ({ s with branches := [] }.reportBranches s.branches) :=
    (of_eq rfl rfl rfl : Unwritten s { s with branches := [] }).trans
      (foldl (fun s _ => addDiagnostic s _) s.branches _)
  have headed := branches.trans (endHeader _ level)
  unfold Preprocessor.endFile
  dsimp only
  generalize ({ s with branches := [] }.reportBranches s.branches).endHeader level = t at headed ⊢
  have kept : Unwritten t { t with switches := (t.switches.splitFromLevel level).2 } :=
    ⟨rfl, .inr ⟨rfl, (List.dropWhile_suffix _).map _⟩⟩
  exact (((headed.trans kept).trans (endProgram _ level)).trans (reportSwitches _ _)).trans
    (endRejected _ level)

end Unwritten

/-- A record is appended to `body`. If it carries a label and the name is free, the name is bound to the
number of the record. -/
structure Appends (s s' : Preprocessor) (body : List Record) (r : Record) : Prop where
  aborted : s'.aborted = s.aborted
  sheet : s'.sheet? = some (body ++ [r], r.outLine + 1)
  marks : s'.marks = s.marks
  bound : ∀ name, r.text.bind blockLabel? = some name → s.env.contains name = false →
    s'.env.get? name = some (.int (Int64.ofNat r.outLine))

inductive Revision (s s' : Preprocessor) : Prop where
  | unwritten (h : Unwritten s s')
  /-- The run is stopped, and an error says so. -/
  | stops (sheet : s'.sheet? = s.sheet?) (marks : s'.marks = s.marks) (d : Diagnostic)
      (error : d.isError = true) (mem : d ∈ s'.log.diagnostics)
  | opensProgram (vacant : s.sheet? = none) (aborted : s'.aborted = s.aborted)
      (sheet : s'.sheet? = some ([], 0)) (marks : s'.marks = s.marks)
  | opensSwitch (body : List Record) (count : Nat) (before : s.sheet? = some (body, count))
      (aborted : s'.aborted = s.aborted) (sheet : s'.sheet? = s.sheet?)
      (marks : s'.marks = (body.length, count) :: s.marks)
  | appends (body : List Record) (r : Record) (before : s.sheet? = some (body, r.outLine))
      (h : Appends s s' body r)
  /-- The innermost switch ends. -/
  | splices (sw : Switch) (outer : Switches) (top : s.switches = sw :: outer) (body : List Record)
      (r : Record) (before : s.sheet? = some (body, r.outLine))
      (h : Appends { s with switches := outer } s'
        (body.take sw.insertAt ++ tableRecords sw ++ body.drop sw.insertAt) r)

namespace Revision

variable {s s' : Preprocessor}

theorem of_lines {lines : Nat} (h : Revision { s with lines } s') : Revision s s' := by
  cases h with
  | unwritten h => exact .unwritten ⟨h.aborted, h.kept⟩
  | stops sheet marks d error mem => exact .stops sheet marks d error mem
  | opensProgram vacant aborted sheet marks => exact .opensProgram vacant aborted sheet marks
  | opensSwitch body count before aborted sheet marks =>
    exact .opensSwitch body count before aborted sheet marks
  | appends body r before h => exact .appends body r before ⟨h.aborted, h.sheet, h.marks, h.bound⟩
  | splices sw outer top body r before h =>
    exact .splices sw outer top body r before ⟨h.aborted, h.sheet, h.marks, h.bound⟩

end Revision

theorem unlabelled_delay (text : String) : blockLabel? ("G04 P" ++ text ++ " ;") = none := by
  simp [blockLabel?, Text.withoutStart]

section Operations

variable (s : Preprocessor) (place : Place)

theorem bindLabel_keeps (e : Emission) (count : Nat) :
    (s.bindLabel place e count).current = s.current ∧ (s.bindLabel place e count).switches = s.switches ∧
      (s.bindLabel place e count).aborted = s.aborted := by
  unfold bindLabel
  split
  · exact ⟨rfl, rfl, rfl⟩
  · split
    · exact ⟨rfl, rfl, rfl⟩
    · split <;> exact ⟨rfl, rfl, rfl⟩

theorem get?_bindLabel {e : Emission} {name : String} (label : blockLabel? e.text = some name)
    (free : s.env.contains name = false) (count : Nat) :
    (s.bindLabel place e count).env.get? name = some (.int (Int64.ofNat count)) := by
  have bound : s.bindLabel place e count =
      { s with env := s.env.set name (.int (Int64.ofNat count)) } := by
    simp [bindLabel, label, free]
  rw [bound]
  simp [Environment.get?, Environment.set]

section Open

variable {s} {o : OpenProgram} (current : s.current = some o)

include current

theorem sheet?_of_current : s.sheet? = some (o.program.body, o.program.outLine) := by
  simp [sheet?, current]

theorem sheet?_append (origin : Origin) (text comment : Option String) :
    (s.withProgram (·.append origin text comment)).sheet? =
      some (o.program.body ++ [⟨origin, o.program.outLine, text, comment⟩], o.program.outLine + 1) := by
  simp [sheet?, withProgram, current, Program.append]

theorem appends_emit (e : Emission) :
    Appends s (s.emit place e) o.program.body ⟨place.origin, o.program.outLine, some e.text, none⟩ := by
  obtain ⟨current', switches, aborted⟩ := bindLabel_keeps s place e o.program.outLine
  have emitted : s.emit place e = (s.bindLabel place e o.program.outLine).withProgram
      (·.append place.origin (some e.text) none) := by
    simp only [emit, current]
  rw [emitted]
  refine ⟨aborted, sheet?_append (current'.trans current) _ _ _, ?_, fun name label free => ?_⟩
  · exact congrArg (List.map _) switches
  · exact get?_bindLabel s place label free o.program.outLine

theorem revision_append (env : Environment) (origin : Origin) (comment : Option String)
    {text : Option String} (unlabelled : text.bind blockLabel? = none) :
    Revision s ({ s with env }.withProgram (·.append origin text comment)) := by
  have current' : { s with env }.current = some o := current
  refine .appends _ ⟨origin, o.program.outLine, text, comment⟩ (sheet?_of_current current)
    ⟨rfl, sheet?_append current' _ _ _, rfl, fun name label => ?_⟩
  rw [unlabelled] at label
  cases label

theorem revision_emit {switches : Switches} (marks : { s with switches }.marks = s.marks) (e : Emission) :
    Revision s ({ s with switches }.emit place e) := by
  have current' : { s with switches }.current = some o := current
  have h := appends_emit place current' e
  exact .appends _ _ (sheet?_of_current current) ⟨h.aborted, h.sheet, h.marks.trans marks, h.bound⟩

theorem revision_delay (expr : String) : Revision s (s.delay place expr) := by
  unfold delay
  split
  · rename_i v u evaluated
    obtain rfl : (s.eval expr).2 = u := congrArg Prod.snd evaluated
    exact revision_append current _ _ _ (unlabelled_delay v.text)
  · rename_i fault u evaluated
    obtain rfl : (s.eval expr).2 = u := congrArg Prod.snd evaluated
    exact .unwritten (.of_eq rfl rfl rfl)

theorem revision_openSwitch (subject : String) : Revision s (s.openSwitch place subject) := by
  have sheet := sheet?_of_current current
  unfold openSwitch
  cases subject.isEmpty <;>
  · simp only [Bool.false_eq_true, if_false, if_true, report, addDiagnostic, current]
    exact .opensSwitch _ _ sheet rfl sheet.symm rfl

theorem revision_addCase (value : String) : Revision s (s.addCase place value) := by
  unfold addCase
  split
  · exact .unwritten (.addDiagnostic s _)
  · rename_i sw outer switches
    split
    · exact .unwritten (.addDiagnostic s _)
    · exact revision_emit place current (by simp [marks, switches]) _

theorem revision_addDefault : Revision s (s.addDefault place) := by
  unfold addDefault Switch.addDefault
  split
  · exact .unwritten (.addDiagnostic s _)
  · rename_i sw outer switches
    cases sw.defaultOrigin with
    | some first => exact .unwritten (.addDiagnostic s _)
    | none => exact revision_emit place current (by simp [marks, switches]) _

theorem revision_leaveCase : Revision s (s.leaveCase place) := by
  unfold leaveCase
  split
  · exact .unwritten (.addDiagnostic s _)
  · exact revision_emit place current rfl _

theorem revision_closeSwitch : Revision s (s.closeSwitch place) := by
  unfold closeSwitch
  split
  · exact .unwritten (.addDiagnostic s _)
  · rename_i sw outer switches
    have opened : ({ s with switches := outer }.withProgram
        (·.insertLines sw.insertAt sw.origin sw.outLine sw.jumpTable)).current = some { o with
          program := o.program.insertLines sw.insertAt sw.origin sw.outLine sw.jumpTable } := by
      simp [withProgram, current]
    have h := appends_emit place opened ⟨sw.finishLine, true⟩
    exact .splices sw outer switches _ _ (sheet?_of_current current)
      ⟨h.aborted, h.sheet, h.marks, h.bound⟩

theorem revision_programLine (text : String) (line : Line) :
    Revision s (s.programLine place text line) := by
  unfold programLine
  split
  · exact .unwritten (.closeProgram s place)
  · exact revision_openSwitch place current _
  · exact revision_delay place current _
  · exact revision_addCase place current _
  · exact revision_addDefault place current
  · exact revision_leaveCase place current
  · exact revision_closeSwitch place current
  · exact revision_emit place current rfl _

end Open

theorem revision_comment (text : String) : Revision s (s.comment place text) := by
  unfold comment
  split
  · cases current : s.current with
    | none => exact .unwritten (.of_eq rfl (by simp [sheet?, withProgram, current]) rfl)
    | some o => exact revision_append current s.env _ _ rfl
  · exact .unwritten (.refl s)

theorem revision_openProgram (argument : String) : Revision s (s.openProgram place argument) := by
  unfold openProgram
  dsimp only
  split
  · exact .unwritten (.addDiagnostic s _)
  · split
    · exact .unwritten (.addDiagnostic s _)
    · rename_i outside
      simp only [enclosing?, Option.or_eq_none_iff, Option.map_eq_none_iff] at outside
      split
      · exact .unwritten (.of_eq rfl rfl rfl)
      · have vacant : s.sheet? = none := by simp [sheet?, outside.1]
        refine .opensProgram vacant ?_ rfl ?_
        all_goals
          unfold warnOverwriting
          split <;> rfl

theorem revision_otherLine (text : String) (line : Line) : Revision s (s.otherLine place text line) := by
  unfold otherLine
  split
  · split
    · exact .unwritten (.closeRejected s)
    · exact .unwritten (.refl s)
  · exact .unwritten (.outsideLine s place line)
  · rename_i current
    exact revision_programLine place current text line

variable (includer : Includer) (included : ∀ argument, Unwritten s (includer place argument s))
  (text : String)

include included

theorem revision_visibleLine (line : Line) : Revision s (visibleLine includer s place text line) := by
  unfold visibleLine
  split
  · exact .unwritten (.of_eq rfl rfl rfl)
  · exact .stops rfl rfl _ rfl (List.mem_append_right _ (List.mem_singleton_self _))
  · exact .unwritten (.of_eq rfl rfl rfl)
  · exact revision_openProgram s place _
  · exact .unwritten (included _)
  · exact .unwritten (.evalStatement s place _)
  · exact .unwritten (.define s place _)
  · exact revision_otherLine s place text _

theorem revision_headedLine (line : Line) : Revision s (headedLine includer s place text line) := by
  unfold headedLine
  split
  · exact .unwritten (.captureHeader s text)
  · split
    · exact .unwritten (.openIf s place _)
    · exact .unwritten (.flipElse s place)
    · exact .unwritten (.closeIf s place)
    · split
      · exact revision_visibleLine s place includer included text _
      · exact .unwritten (.refl s)

theorem revision_processLine : Revision s (processLine includer place text s) := by
  unfold processLine
  split
  · exact .unwritten (.refl s)
  · exact revision_comment s place _
  · split
    · exact .unwritten (.closeHeader s place)
    · exact .unwritten (.refl s)
  · exact revision_headedLine s place includer included text _

end Operations

end Preprocessor

namespace Traversal

open Preprocessor

variable {inclusion : Inclusion} {tree : FileTree}

theorem unwritten_leaveFile (saved : Branches) (outer : List OpenFile) (s : Preprocessor) :
    Unwritten s (leaveFile saved outer s).state := by
  cases aborted : s.aborted with
  | true =>
    rw [leaveFile_of_aborted aborted]
    exact .of_eq rfl rfl rfl
  | false =>
    rw [leaveFile_of_running aborted]
    have ended := Unwritten.endFile s (outer.length + 1)
    exact ⟨ended.aborted, ended.kept⟩

theorem revision_readLine (files : List OpenFile) (line : String) (s : Preprocessor) :
    Revision s (readLine inclusion tree files line s).state := by
  have refused (argument : String) :=
    Unwritten.refuse s (files.map OpenFile.frame) inclusion tree argument
  unfold readLine
  cases includeArgument? line s with
  | none => exact revision_processLine s _ (refuse inclusion tree) refused line
  | some argument =>
    dsimp only
    split
    · dsimp only
      exact .unwritten (refused argument)
    · exact .unwritten (.of_eq rfl rfl rfl)

theorem Step.revision {t t' : Traversal} (h : Step inclusion tree t t') :
    Revision t.state t'.state := by
  rcases h.cases with ⟨file, outer, -, rfl⟩ | ⟨files, line, -, rfl⟩
  · exact .unwritten (unwritten_leaveFile file.saved outer t.state)
  · exact (revision_readLine files line _).of_lines

end Traversal

end GcodePrep
