import GcodePrep.Branch
import GcodePrep.Environment
import GcodePrep.Problem
import GcodePrep.Report
import GcodePrep.Switch

set_option autoImplicit false

/-!
# State of the preprocessor

The state is what one line hands on to the next. The files that are open, and the line being read in
each, are not part of it: they form the `Place`, which every operation is given.
-/

namespace GcodePrep

structure SourceFrame where
  name : String
  /-- Where its own includes are looked for first. -/
  directory : Option String
  line : Nat
  text : String
  deriving DecidableEq, Repr

/-- The open files, innermost first. -/
abbrev Place := List SourceFrame

namespace Place

def origin : Place → Origin
  | [] => ⟨"", 0⟩
  | frame :: _ => ⟨frame.name, frame.line⟩

def source? (place : Place) : Option String := place.head?.map SourceFrame.text

def level (place : Place) : Nat := place.length

end Place

structure OpenHeader where
  origin : Origin
  fileLevel : Nat
  deriving DecidableEq, Repr

structure OpenProgram where
  program : Program
  fileLevel : Nat

/-- A program whose name was refused. Its lines are passed over up to its end, where the bindings are
put back. -/
structure RejectedProgram where
  origin : Origin
  fileLevel : Nat
  saved : Bindings

structure Preprocessor where
  env : Environment
  branches : Branches
  switches : Switches
  header : Option OpenHeader
  /-- Header lines that every program opened from here on starts with. -/
  globalHeader : List String
  current : Option OpenProgram
  rejected : Option RejectedProgram
  programs : Catalogue
  log : Log
  prints : List Print
  lines : Nat
  aborted : Bool

namespace Preprocessor

def start (env : Environment) : Preprocessor where
  env := env
  branches := []
  switches := []
  header := none
  globalHeader := []
  current := none
  rejected := none
  programs := .empty
  log := .empty
  prints := []
  lines := 0
  aborted := false

def addDiagnostic (s : Preprocessor) (d : Diagnostic) : Preprocessor := { s with log := s.log.add d }

def diagnosticAt (place : Place) (p : Problem) : Diagnostic :=
  (p.atOrigin place.origin).withSource place.source?

def report (s : Preprocessor) (place : Place) (p : Problem) : Preprocessor :=
  s.addDiagnostic (diagnosticAt place p)

def reportAt (s : Preprocessor) (origin : Origin) (p : Problem) : Preprocessor :=
  s.addDiagnostic (p.atOrigin origin)

def eval (s : Preprocessor) (expr : String) : Except Fault Value × Preprocessor :=
  let (result, env) := s.env.eval expr
  (result, { s with env })

/-- Leaves a rejected program and drops what its body has bound. -/
def closeRejected (s : Preprocessor) : Preprocessor :=
  match s.rejected with
  | none => s
  | some rejected => { s with rejected := none, env := s.env.restore rejected.saved }

def restoreSaved (s : Preprocessor) : Option Bindings → Preprocessor
  | none => s
  | some saved => { s with env := s.env.restore saved }

def withProgram (s : Preprocessor) (f : Program → Program) : Preprocessor :=
  { s with current := s.current.map fun o => { o with program := f o.program } }

def toReport (s : Preprocessor) (input : String) : Report where
  input := input
  log := s.log
  prints := s.prints
  programs := s.programs.programs
  written := []
  lines := s.lines
  aborted := s.aborted

end Preprocessor

end GcodePrep
