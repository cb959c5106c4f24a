import GcodePrep.Preprocessor.State
import GcodePrep.Substitution
import GcodePrep.Text.Split

set_option autoImplicit false

/-!
# Directives

What each directive other than `@include` does to the state.
-/

namespace GcodePrep.Preprocessor

/-- `@if`. A failed evaluation counts as false; where lines are not visible nothing is evaluated. -/
def openIf (s : Preprocessor) (place : Place) (expr : String) : Preprocessor :=
  let s := if s.branches.isActive && expr.isEmpty then s.report place .ifWithoutExpression else s
  let condition := fun (env : Environment) =>
    if expr.isEmpty then (false, env)
    else match env.eval expr with
      | (.ok v, env) => (v.isTruthy, env)
      | (.error _, env) => (false, env)
  let (branches, env) := s.branches.openIf place.origin condition s.env
  { s with branches, env }

def flipElse (s : Preprocessor) (place : Place) : Preprocessor :=
  match s.branches.flipElse? place.origin with
  | some branches => { s with branches }
  | none => s.report place .elseWithoutIf

def closeIf (s : Preprocessor) (place : Place) : Preprocessor :=
  match s.branches.close? with
  | some (_, branches) => { s with branches }
  | none => s.report place .endifWithoutIf

def openHeader (s : Preprocessor) (place : Place) : Preprocessor :=
  { s with header := some ⟨place.origin, place.level⟩ }

def closeHeader (s : Preprocessor) (place : Place) : Preprocessor :=
  match s.header with
  | some _ => { s with header := none }
  | none => s.report place .notInHeader

/-- A line inside a header goes to the open program or, outside of one, to all programs to come. -/
def captureHeader (s : Preprocessor) (line : String) : Preprocessor :=
  match s.rejected, s.current with
  | some _, _ => s
  | none, some _ => s.withProgram (·.addHeader line)
  | none, none => { s with globalHeader := s.globalHeader ++ [line] }

def print (s : Preprocessor) (place : Place) (expr : String) : Preprocessor :=
  let (result, s) := s.eval expr
  let value := result.toOption.map Value.text
  { s with prints := s.prints ++ [⟨place.origin, expr, value⟩] }

def stop (s : Preprocessor) (place : Place) (reason : String) : Preprocessor :=
  { s.report place (.stopped reason) with aborted := true }

def reportFault (s : Preprocessor) (place : Place) (p : Problem) (fault : Fault) : Preprocessor :=
  s.addDiagnostic ((diagnosticAt place p).withNote fault.message)

def evalStatement (s : Preprocessor) (place : Place) (expr : String) : Preprocessor :=
  match s.eval expr with
  | (.ok _, s) => s
  | (.error fault, s) => s.reportFault place (.evalFailed expr) fault

def define (s : Preprocessor) (place : Place) (assignment : String) : Preprocessor :=
  if assignment.isEmpty then s.report place .defineWithoutAssignment
  else match s.env.define assignment with
    | (.ok _, env) => { s with env }
    | (.error fault, env) => { s with env }.reportFault place (.defineFailed assignment) fault

def comment (s : Preprocessor) (place : Place) (text : String) : Preprocessor :=
  if s.branches.isActive && s.rejected.isNone then
    s.withProgram (·.append place.origin none (some text))
  else s

/-- The number a program of this name gets: the positive integer that the name is bound to. -/
def programNumber (env : Environment) (name : String) : Except Problem Int64 :=
  match env.get? name with
  | none => .error (.numberNotDefined name)
  | some v => match v.toInteger? with
    | none => .error (.numberNotInteger name)
    | some n => if n.toInt ≤ 0 then .error (.numberNotPositive name) else .ok n

/-- Where the program begins that is open, accepted or not. -/
def enclosing? (s : Preprocessor) : Option Origin :=
  (s.current.map (·.program.origin)).or (s.rejected.map (·.origin))

def warnOverwriting (s : Preprocessor) (place : Place) (name : String) : Preprocessor :=
  match s.programs.get? name with
  | none => s
  | some previous => s.addDiagnostic
    ((diagnosticAt place (.overwritingProgram name)).withRelated previous.origin "previously defined")

def openProgram (s : Preprocessor) (place : Place) (argument : String) : Preprocessor :=
  let name := Text.leadingWord argument
  if name.isEmpty then s.report place .programWithoutName
  else match s.enclosing? with
    | some enclosing => s.addDiagnostic
        ((diagnosticAt place .nestedProgram).withRelated enclosing "enclosing @program")
    | none => match programNumber s.env name with
      | .error problem =>
        { s.report place problem with
          rejected := some ⟨place.origin, place.level, s.env.bindings⟩ }
      | .ok number =>
        let program := Program.start name number place.origin s.globalHeader s.env.bindings
        { s.warnOverwriting place name with current := some ⟨program, place.level⟩ }

def reportSwitches (s : Preprocessor) (switches : Switches) : Preprocessor :=
  switches.foldl (fun s sw => s.reportAt sw.origin .unterminatedSwitch) s

def reportFailures (s : Preprocessor) (failures : List ResolveFailure) : Preprocessor :=
  failures.foldl (fun s failure => s.addDiagnostic
    (((Problem.notSubstituted failure.expr).atOrigin failure.origin).withNote failure.reason)) s

/-- `@endprogram` resolves the tokens, puts the bindings back and keeps the program. -/
def closeProgram (s : Preprocessor) (place : Place) : Preprocessor :=
  match s.current with
  | none => s.report place .endprogramOutside
  | some opened =>
    let s := { s with current := none, switches := [] }.reportSwitches s.switches
    let (program, failures, env) := opened.program.resolve s.env
    let s := { s with env }.reportFailures failures
    let (saved, program) := program.complete
    let s := s.restoreSaved saved
    { s with programs := (s.programs.insert program).2 }

def delay (s : Preprocessor) (place : Place) (expr : String) : Preprocessor :=
  match s.eval expr with
  | (.ok v, s) =>
    s.withProgram (·.append place.origin (some ("G04 P" ++ v.text ++ " ;")) (some expr))
  | (.error fault, s) => s.reportFault place (.delayFailed expr) fault

/-- A line for the body; a synthesized one carries a label of a switch. -/
structure Emission where
  text : String
  synthesized : Bool
  deriving DecidableEq, Repr

/-- The name that a line starting with `N@name` labels. -/
def blockLabel? (text : String) : Option String :=
  (Text.withoutStart ['N', '@'] text.toList).bind fun rest =>
    let name := rest.takeWhile Text.isWordChar
    if Text.isIdentifierChars name then some (String.ofList name) else none

/-- Binds the label of a line to the line's number, unless the name is bound already. -/
def bindLabel (s : Preprocessor) (place : Place) (e : Emission) (outLine : Nat) : Preprocessor :=
  match blockLabel? e.text with
  | none => s
  | some name =>
    if !s.env.contains name then { s with env := s.env.set name (.int (Int64.ofNat outLine)) }
    else if e.synthesized then s.report place (.duplicateLabel name)
    else s

def emit (s : Preprocessor) (place : Place) (e : Emission) : Preprocessor :=
  match s.current with
  | none => if e.text.isEmpty then s else s.report place .lineOutside
  | some opened =>
    (s.bindLabel place e opened.program.outLine).withProgram
      (·.append place.origin (some e.text) none)

def openSwitch (s : Preprocessor) (place : Place) (subject : String) : Preprocessor :=
  let s := if subject.isEmpty then s.report place .switchWithoutExpression else s
  match s.current with
  | none => s
  | some opened =>
    let insertAt := opened.program.body.length
    { s with switches :=
        s.switches.openSwitch subject place.origin insertAt opened.program.outLine place.level }

def addCase (s : Preprocessor) (place : Place) (value : String) : Preprocessor :=
  match s.switches with
  | [] => s.report place .caseOutside
  | sw :: outer =>
    if value.isEmpty then s.report place .caseWithoutValue
    else
      let (sw, line) := sw.addCase value place.origin
      { s with switches := sw :: outer }.emit place ⟨line, true⟩

def addDefault (s : Preprocessor) (place : Place) : Preprocessor :=
  match s.switches with
  | [] => s.report place .defaultcaseOutside
  | sw :: outer => match sw.addDefault place.origin with
    | .ok (sw, line) => { s with switches := sw :: outer }.emit place ⟨line, true⟩
    | .error first => s.addDiagnostic
        ((diagnosticAt place .secondDefaultcase).withRelated first "first @defaultcase")

def leaveCase (s : Preprocessor) (place : Place) : Preprocessor :=
  match s.switches with
  | [] => s.report place .endcaseOutside
  | sw :: _ => s.emit place ⟨sw.leaveLine, false⟩

/-- Inserts the jump table where the switch began and emits the label of its end. -/
def closeSwitch (s : Preprocessor) (place : Place) : Preprocessor :=
  match s.switches with
  | [] => s.report place .endswitchOutside
  | sw :: outer =>
    let s := { s with switches := outer }.withProgram
      (·.insertLines sw.insertAt sw.origin sw.outLine sw.jumpTable)
    s.emit place ⟨sw.finishLine, true⟩

end GcodePrep.Preprocessor
