import GcodePrep.Diagnostic
import GcodePrep.Program

set_option autoImplicit false

/-!
# Reports

What the preprocessing of one input leaves behind: diagnostics, printed values, programs, and the files
written for them.
-/

namespace GcodePrep

/-- The outcome of a print directive; a failed evaluation has no value. -/
structure Print where
  origin : Origin
  expr : String
  value : Option String
  deriving DecidableEq, Repr

namespace Print

def text (p : Print) : String :=
  p.origin.text ++ " print: " ++ p.expr ++ " = " ++ p.value.getD "undefined"

def json (p : Print) : String :=
  JsonText.object
    [("expr", JsonText.string p.expr),
     ("file", JsonText.string p.origin.file),
     ("kind", JsonText.string "print"),
     ("line", JsonText.nat p.origin.line),
     ("value", JsonText.nullable JsonText.string p.value)]

end Print

structure Report where
  input : String
  log : Log
  prints : List Print
  programs : List Program
  written : List String
  lines : Nat
  aborted : Bool

namespace Report

def succeeded (r : Report) : Bool := r.log.errors = 0

def addDiagnostic (r : Report) (d : Diagnostic) : Report := { r with log := r.log.add d }

def addWritten (r : Report) (path : String) : Report := { r with written := r.written ++ [path] }

def status (r : Report) : String :=
  (if r.succeeded then "Success" else "Failure") ++ ". " ++ toString r.log.errors ++ " errors, " ++
    toString r.log.warnings ++ " warnings"

def statusJson (r : Report) : String :=
  JsonText.object
    [("errors", JsonText.nat r.log.errors),
     ("input", JsonText.string r.input),
     ("kind", JsonText.string "status"),
     ("success", JsonText.bool r.succeeded),
     ("warnings", JsonText.nat r.log.warnings),
     ("written", JsonText.array (r.written.map JsonText.string))]

end Report

end GcodePrep
