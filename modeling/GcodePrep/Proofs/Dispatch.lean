import GcodePrep.Preprocessor.Lines

set_option autoImplicit false

/-!
# Lines that need a program

A line is emitted, a switch opened and a program completed in three operations that also say what to do
where no program is open. Lines never get there: the dispatcher hands a line on to them only while a
program is open, and what a directive of a switch does before it emits a line keeps the program open.
So whatever the three operations did without a program, every line would be processed the same.
-/

namespace GcodePrep.Preprocessor

/-- What could be done where a program is needed and none is open. -/
structure Fallbacks where
  emit : Place → Emission → Preprocessor → Preprocessor
  openSwitch : Place → String → Preprocessor → Preprocessor
  closeProgram : Place → Preprocessor → Preprocessor

/-- What a line inside a program does before a line is emitted, and the line that is emitted. -/
def emission (s : Preprocessor) (place : Place) (text : String) : Line → Preprocessor × Option Emission
  | .directive .case_ value => match s.switches with
    | [] => (s.report place .caseOutside, none)
    | sw :: outer =>
      if value.isEmpty then (s.report place .caseWithoutValue, none)
      else
        let (sw, line) := sw.addCase value place.origin
        ({ s with switches := sw :: outer }, some ⟨line, true⟩)
  | .directive .defaultcase _ => match s.switches with
    | [] => (s.report place .defaultcaseOutside, none)
    | sw :: outer => match sw.addDefault place.origin with
      | .ok (sw, line) => ({ s with switches := sw :: outer }, some ⟨line, true⟩)
      | .error first => (s.addDiagnostic
          ((diagnosticAt place .secondDefaultcase).withRelated first "first @defaultcase"), none)
  | .directive .endcase _ => match s.switches with
    | [] => (s.report place .endcaseOutside, none)
    | sw :: _ => (s, some ⟨sw.leaveLine, false⟩)
  | .directive .endswitch _ => match s.switches with
    | [] => (s.report place .endswitchOutside, none)
    | sw :: outer =>
      ({ s with switches := outer }.withProgram
        (·.insertLines sw.insertAt sw.origin sw.outLine sw.jumpTable), some ⟨sw.finishLine, true⟩)
  | _ => (s, some ⟨text, false⟩)

theorem isSome_current_emission (s : Preprocessor) (place : Place) (text : String) (line : Line) :
    (s.emission place text line).1.current.isSome = s.current.isSome := by
  unfold emission
  split
  · split
    · rfl
    · split <;> rfl
  · split
    · rfl
    · split <;> rfl
  · split <;> rfl
  · split
    · rfl
    · simp [withProgram]
  · rfl

def emitDue (place : Place) : Preprocessor × Option Emission → Preprocessor
  | (s, none) => s
  | (s, some e) => s.emit place e

section Due

variable (s : Preprocessor) (place : Place) (text argument : String)

theorem addCase_eq : s.addCase place argument =
    emitDue place (s.emission place text (.directive .case_ argument)) := by
  unfold addCase emission
  cases s.switches with
  | nil => rfl
  | cons sw outer =>
    by_cases given : argument.isEmpty = true
    · simp [given, emitDue]
    · simp [given, emitDue]

theorem addDefault_eq : s.addDefault place =
    emitDue place (s.emission place text (.directive .defaultcase argument)) := by
  unfold addDefault emission
  cases s.switches with
  | nil => rfl
  | cons sw outer =>
    dsimp only
    cases sw.addDefault place.origin <;> rfl

theorem leaveCase_eq : s.leaveCase place =
    emitDue place (s.emission place text (.directive .endcase argument)) := by
  unfold leaveCase emission
  cases s.switches <;> rfl

theorem closeSwitch_eq : s.closeSwitch place =
    emitDue place (s.emission place text (.directive .endswitch argument)) := by
  unfold closeSwitch emission
  cases s.switches <;> rfl

end Due

namespace Fallbacks

variable (f : Fallbacks)

def emitDue (place : Place) : Preprocessor × Option Emission → Preprocessor
  | (s, none) => s
  | (s, some e) => if s.current.isSome then s.emit place e else f.emit place e s

/-- A line inside of a program, with `f` wherever a program turns out to be missing. -/
def programLine (s : Preprocessor) (place : Place) (text : String) : Line → Preprocessor
  | .directive .endprogram _ =>
    if s.current.isSome then s.closeProgram place else f.closeProgram place s
  | .directive .switch subject =>
    if s.current.isSome then s.openSwitch place subject else f.openSwitch place subject s
  | .directive .delay expr => s.delay place expr
  | line => f.emitDue place (s.emission place text line)

theorem emitDue_eq {due : Preprocessor × Option Emission} (inside : due.1.current.isSome = true)
    (place : Place) : f.emitDue place due = Preprocessor.emitDue place due := by
  obtain ⟨s, emitted⟩ := due
  cases emitted with
  | none => rfl
  | some e => exact if_pos inside

theorem programLine_eq {s : Preprocessor} (inside : s.current.isSome = true) (place : Place)
    (text : String) (line : Line) :
    f.programLine s place text line = s.programLine place text line := by
  have due := f.emitDue_eq ((isSome_current_emission s place text line).trans inside) place
  cases line with
  | blank => exact due
  | comment note => exact due
  | text => exact due
  | directive d argument =>
    cases d with
    | endprogram => exact if_pos inside
    | switch => exact if_pos inside
    | delay => rfl
    | case_ => exact due.trans (addCase_eq s place text argument).symm
    | defaultcase => exact due.trans (addDefault_eq s place text argument).symm
    | endcase => exact due.trans (leaveCase_eq s place text argument).symm
    | endswitch => exact due.trans (closeSwitch_eq s place text argument).symm
    | _ => exact due

end Fallbacks

/-- Processes one line, with `inProgram` for what a line of an open program does. -/
def processLineWith (inProgram : Preprocessor → Place → String → Line → Preprocessor)
    (includer : Includer) (place : Place) (text : String) (s : Preprocessor) : Preprocessor :=
  match Line.ofString text with
  | .blank => s
  | .comment note => s.comment place note
  | .directive .endheader _ => if s.branches.isActive then s.closeHeader place else s
  | line =>
    if s.branches.isActive && s.header.isSome then s.captureHeader text
    else match line with
      | .directive .if_ expr => s.openIf place expr
      | .directive .else_ _ => s.flipElse place
      | .directive .endif _ => s.closeIf place
      | line => if s.branches.isActive then match line with
        | .directive .print expr => s.print place expr
        | .directive .error reason => s.stop place reason
        | .directive .header _ => s.openHeader place
        | .directive .program argument => s.openProgram place argument
        | .directive .include_ argument => includer place argument s
        | .directive .eval expr => s.evalStatement place expr
        | .directive .define assignment => s.define place assignment
        | line => match s.rejected, s.current with
          | some _, _ => match line with
            | .directive .endprogram _ => s.closeRejected
            | _ => s
          | none, none => s.outsideLine place line
          | none, some _ => inProgram s place text line
        else s

theorem processLineWith_congr
    {inProgram inProgram' : Preprocessor → Place → String → Line → Preprocessor}
    (same : ∀ s place text line, s.current.isSome = true →
      inProgram s place text line = inProgram' s place text line)
    (includer : Includer) (place : Place) (text : String) (s : Preprocessor) :
    processLineWith inProgram includer place text s =
      processLineWith inProgram' includer place text s := by
  have other (line : Line) :
      (match s.rejected, s.current with
        | some _, _ => match line with
          | .directive .endprogram _ => s.closeRejected
          | _ => s
        | none, none => s.outsideLine place line
        | none, some _ => inProgram s place text line) =
      (match s.rejected, s.current with
        | some _, _ => match line with
          | .directive .endprogram _ => s.closeRejected
          | _ => s
        | none, none => s.outsideLine place line
        | none, some _ => inProgram' s place text line) := by
    cases s.rejected with
    | some => rfl
    | none =>
      cases current : s.current with
      | none => rfl
      | some o => exact same s place text line (by rw [current]; rfl)
  unfold processLineWith
  simp only [other]

theorem processLineWith_programLine (includer : Includer) (place : Place) (text : String)
    (s : Preprocessor) :
    processLineWith programLine includer place text s = processLine includer place text s := by
  unfold processLineWith processLine
  generalize Line.ofString text = line
  cases line with
  | blank | comment | text => rfl
  | directive d argument => cases d <;> rfl

theorem processLine_without_fallbacks (f : Fallbacks) (includer : Includer) (place : Place)
    (text : String) (s : Preprocessor) :
    processLineWith f.programLine includer place text s = processLine includer place text s :=
  (processLineWith_congr (fun _ place text line inside => f.programLine_eq inside place text line)
    includer place text s).trans (processLineWith_programLine includer place text s)

end GcodePrep.Preprocessor
