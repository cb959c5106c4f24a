import GcodePrep.Line
import GcodePrep.Preprocessor.Directives

set_option autoImplicit false

/-!
# Lines

Which directive or rule a line falls under. Comments come first, then the open header, then the
conditionals; all else is heard only where lines are visible. Inside a rejected program only a few
directives are.
-/

namespace GcodePrep.Preprocessor

/-- What `@include` does with its argument on the line being read. -/
abbrev Includer := Place → String → Preprocessor → Preprocessor

def programLine (s : Preprocessor) (place : Place) (text : String) : Line → Preprocessor
  | .directive .endprogram _ => s.closeProgram place
  | .directive .switch subject => s.openSwitch place subject
  | .directive .delay expr => s.delay place expr
  | .directive .case_ value => s.addCase place value
  | .directive .defaultcase _ => s.addDefault place
  | .directive .endcase _ => s.leaveCase place
  | .directive .endswitch _ => s.closeSwitch place
  | _ => s.emit place ⟨text, false⟩

def outsideLine (s : Preprocessor) (place : Place) : Line → Preprocessor
  | .directive .endprogram _ => s.report place .endprogramOutside
  | .directive _ _ => s
  | _ => s.report place .lineOutside

/-- A line that no directive of its own claims. -/
def otherLine (s : Preprocessor) (place : Place) (text : String) (line : Line) : Preprocessor :=
  match s.rejected, s.current with
  | some _, _ => match line with
    | .directive .endprogram _ => s.closeRejected
    | _ => s
  | none, none => s.outsideLine place line
  | none, some _ => s.programLine place text line

/-- A visible line that is no comment, outside of headers and conditionals. -/
def visibleLine (includer : Includer) (s : Preprocessor) (place : Place) (text : String)
    (line : Line) : Preprocessor :=
  match line with
  | .directive .print expr => s.print place expr
  | .directive .error reason => s.stop place reason
  | .directive .header _ => s.openHeader place
  | .directive .program argument => s.openProgram place argument
  | .directive .include_ argument => includer place argument s
  | .directive .eval expr => s.evalStatement place expr
  | .directive .define assignment => s.define place assignment
  | line => s.otherLine place text line

/-- A line that is neither blank nor a comment nor the end of a header. -/
def headedLine (includer : Includer) (s : Preprocessor) (place : Place) (text : String)
    (line : Line) : Preprocessor :=
  if s.branches.isActive && s.header.isSome then s.captureHeader text
  else match line with
    | .directive .if_ expr => s.openIf place expr
    | .directive .else_ _ => s.flipElse place
    | .directive .endif _ => s.closeIf place
    | line => if s.branches.isActive then visibleLine includer s place text line else s

def processLine (includer : Includer) (place : Place) (text : String) (s : Preprocessor) :
    Preprocessor :=
  match Line.ofString text with
  | .blank => s
  | .comment note => s.comment place note
  | .directive .endheader _ => if s.branches.isActive then s.closeHeader place else s
  | line => headedLine includer s place text line

end GcodePrep.Preprocessor
