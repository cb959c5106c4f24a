import GcodePrep.Origin
import GcodePrep.Text.Blank

set_option autoImplicit false

/-!
# Switches

A switch is compiled, not evaluated. Each case becomes a block label in the program body; the end of
the switch yields the lines of a jump table, which compare the subject with every case at machine run
time and go in where the switch began.
-/

namespace GcodePrep

/-- Labels of a switch at a nesting depth: its cases from 1, its default case and its end. -/
inductive SwitchLabel where
  | case (depth index : Nat)
  | default (depth : Nat)
  | finish (depth : Nat)
  deriving DecidableEq, Repr

namespace SwitchLabel

def name : SwitchLabel → String
  | case depth index => "__" ++ toString depth ++ "_" ++ toString index
  | default depth => "__" ++ toString depth ++ "_default"
  | finish depth => "__" ++ toString depth ++ "_endswitch"

def labelLine (l : SwitchLabel) : String := "N@" ++ l.name

def jumpLine (l : SwitchLabel) : String := "GOTO@" ++ l.name

end SwitchLabel

structure SwitchCase where
  value : String
  origin : Origin
  deriving DecidableEq, Repr

structure Switch where
  subject : String
  origin : Origin
  /-- Where in the body the jump table goes. -/
  insertAt : Nat
  /-- The output line number of the table's records. -/
  outLine : Nat
  /-- Nesting depth; the outermost switch has depth 1. -/
  depth : Nat
  /-- How many files were open when the switch began. -/
  fileLevel : Nat
  cases : List SwitchCase
  defaultOrigin : Option Origin
  deriving DecidableEq, Repr

namespace Switch

/-- Adds a case; the line is its label in the body. -/
def addCase (sw : Switch) (value : String) (origin : Origin) : Switch × String :=
  let cases := sw.cases ++ [⟨Text.trim value, origin⟩]
  ({ sw with cases }, (SwitchLabel.case sw.depth cases.length).labelLine)

/-- Adds the default case, or says where the switch already has one. -/
def addDefault (sw : Switch) (origin : Origin) : Except Origin (Switch × String) :=
  match sw.defaultOrigin with
  | some first => .error first
  | none =>
    .ok ({ sw with defaultOrigin := some origin }, (SwitchLabel.default sw.depth).labelLine)

def leaveLine (sw : Switch) : String := (SwitchLabel.finish sw.depth).jumpLine

def finishLine (sw : Switch) : String := (SwitchLabel.finish sw.depth).labelLine

def caseJump (subject : String) (depth index : Nat) (value : String) : String :=
  "IF[" ++ subject ++ " EQ " ++ value ++ "] " ++ (SwitchLabel.case depth index).jumpLine

def caseJumps (subject : String) (depth : Nat) : (index : Nat) → List SwitchCase → List String
  | _, [] => []
  | index, c :: cases =>
    caseJump subject depth index c.value :: caseJumps subject depth (index + 1) cases

/-- Branches to the cases in the order of declaration, then the one taken when no case matches. -/
def jumpTable (sw : Switch) : List String :=
  let otherwise : SwitchLabel :=
    if sw.defaultOrigin.isSome then .default sw.depth else .finish sw.depth
  caseJumps sw.subject sw.depth 1 sw.cases ++ [otherwise.jumpLine]

end Switch

/-- The open switches, innermost first. -/
abbrev Switches := List Switch

namespace Switches

def openSwitch (switches : Switches) (subject : String) (origin : Origin)
    (insertAt outLine fileLevel : Nat) : Switches :=
  { subject := Text.trim subject, origin, insertAt, outLine, depth := switches.length + 1, fileLevel,
    cases := [], defaultOrigin := none } :: switches

/-- The innermost switches that were opened at `level` or deeper, and the others. -/
def splitFromLevel (switches : Switches) (level : Nat) : Switches × Switches :=
  (switches.takeWhile (level ≤ ·.fileLevel), switches.dropWhile (level ≤ ·.fileLevel))

end Switches

end GcodePrep
