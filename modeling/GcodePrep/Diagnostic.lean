import GcodePrep.JsonText
import GcodePrep.Origin

set_option autoImplicit false

/-!
# Diagnostics

A diagnostic has a severity, a category with a code, and a message. It may point at a line, carry the
text of that line, and refer to a second position. It is written in one line, with its context, or as
a JSON object.
-/

namespace GcodePrep

inductive Severity where
  | warning
  | error
  deriving DecidableEq, Repr

inductive Category where
  | commandLine
  | conditional
  | directive
  | expression
  | fatal
  | inclusion
  | io
  | substitution
  | program
  | switch
  deriving DecidableEq, Repr

def Category.code : Category → String
  | commandLine => "gp101"
  | conditional => "gp201"
  | directive => "gp202"
  | switch => "gp301"
  | program => "gp302"
  | expression => "gp401"
  | substitution => "gp402"
  | inclusion => "gp501"
  | io => "gp502"
  | fatal => "gp900"

structure Related where
  origin : Origin
  label : String
  deriving DecidableEq, Repr

structure Diagnostic where
  severity : Severity
  category : Category
  code : String
  message : String
  line : Nat
  file : Option String
  source : Option String
  related : Option Related
  notes : List String
  help : List String
  deriving DecidableEq, Repr

namespace Diagnostic

/-- A diagnostic about a line of no known file. -/
def onLine (line : Nat) (severity : Severity) (category : Category) (message : String) :
    Diagnostic :=
  { severity, category, code := category.code, message, line, file := none, source := none,
    related := none, notes := [], help := [] }

def atOrigin (origin : Origin) (severity : Severity) (category : Category) (message : String) :
    Diagnostic :=
  { onLine origin.line severity category message with file := some origin.file }

def withSource (d : Diagnostic) (source : Option String) : Diagnostic := { d with source }

def withRelated (d : Diagnostic) (origin : Origin) (label : String) : Diagnostic :=
  { d with related := some ⟨origin, label⟩ }

def withNote (d : Diagnostic) (note : String) : Diagnostic := { d with notes := d.notes ++ [note] }

def withHelp (d : Diagnostic) (help : String) : Diagnostic := { d with help := d.help ++ [help] }

def isError (d : Diagnostic) : Bool := d.severity = .error

def isWarning (d : Diagnostic) : Bool := d.severity = .warning

end Diagnostic

def messageAbout (message : String) : Option String → String
  | some subject => message ++ ": " ++ subject
  | none => message

def Severity.label : Severity → String
  | warning => "WARNING"
  | error => "ERROR"

def Severity.word : Severity → String
  | warning => "warning"
  | error => "error"

namespace Diagnostic

def location (d : Diagnostic) : String :=
  match d.file with
  | some file => file ++ ":" ++ toString d.line
  | none => toString d.line

def heading (d : Diagnostic) : String :=
  d.location ++ ": " ++ d.severity.label ++ " [" ++ d.code ++ "]"

def classic (d : Diagnostic) : String :=
  let about := match d.related with
    | some related => " at " ++ related.origin.text
    | none => ""
  d.heading ++ " - " ++ d.message ++ about

def lineNumber (n : Nat) : String :=
  let digits := toString n
  String.ofList (List.replicate (5 - digits.length) ' ') ++ digits

def rich (d : Diagnostic) : String :=
  let source := d.source.toList.map fun text => lineNumber d.line ++ " | " ++ text
  let related := d.related.toList.map fun related =>
    "      = note: " ++ related.label ++ " at " ++ related.origin.text
  let lines := [d.heading] ++ source ++ related ++ d.notes.map ("note: " ++ ·) ++
    d.help.map ("help: " ++ ·) ++ [d.severity.label ++ ": " ++ d.message]
  "\n".intercalate lines

def json (d : Diagnostic) : String :=
  JsonText.object
    [("code", JsonText.string d.code),
     ("file", JsonText.nullable JsonText.string d.file),
     ("help", JsonText.array (d.help.map JsonText.string)),
     ("line", JsonText.nat d.line),
     ("message", JsonText.string d.message),
     ("notes", JsonText.array (d.notes.map JsonText.string)),
     ("related", JsonText.nullable (fun related => JsonText.object
       [("file", JsonText.string related.origin.file),
        ("label", JsonText.string related.label),
        ("line", JsonText.nat related.origin.line)]) d.related),
     ("severity", JsonText.string d.severity.word)]

end Diagnostic

/-- Diagnostics in the order of their arrival, counted by severity. -/
structure Log where
  diagnostics : List Diagnostic
  errors : Nat
  warnings : Nat
  deriving DecidableEq, Repr

namespace Log

def empty : Log := ⟨[], 0, 0⟩

def add (log : Log) (d : Diagnostic) : Log where
  diagnostics := log.diagnostics ++ [d]
  errors := match d.severity with
    | .error => log.errors + 1
    | .warning => log.errors
  warnings := match d.severity with
    | .error => log.warnings
    | .warning => log.warnings + 1

end Log

end GcodePrep
