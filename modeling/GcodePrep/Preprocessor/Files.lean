import GcodePrep.FileTree
import GcodePrep.Preprocessor.Lines

set_option autoImplicit false

/-!
# Files and includes

A text is processed line by line, and what it leaves open is closed at its end. `@include` processes
another file in the place of a line; how many files may still be opened inside each other is the number
on which the recursion runs.
-/

namespace GcodePrep

def Inclusion.defaultDepth : Nat := 64

structure Inclusion where
  paths : List String
  maxDepth : Nat
  deriving DecidableEq, Repr

/-- A text to process, the name of its file, and the directory its includes are looked for in. -/
structure Source where
  name : String
  directory : Option String
  text : String
  deriving DecidableEq, Repr

namespace Preprocessor

def reportBranches (s : Preprocessor) (branches : Branches) : Preprocessor :=
  branches.foldl (fun s branch =>
    let d := Problem.unterminatedIf.atOrigin branch.origin
    s.addDiagnostic (match branch.elseOrigin with
      | some origin => d.withRelated origin "@else branch"
      | none => d)) s

def endHeader (s : Preprocessor) (level : Nat) : Preprocessor :=
  match s.header with
  | none => s
  | some header =>
    if level ≤ header.fileLevel then
      { s with header := none }.reportAt header.origin .unterminatedHeader
    else s

/-- Gives up a program opened at `level` or deeper. The switches still open inside it come back with
the state. -/
def endProgram (s : Preprocessor) (level : Nat) : Preprocessor × Switches :=
  match s.current with
  | none => (s, [])
  | some opened =>
    if level ≤ opened.fileLevel then
      let switches := s.switches
      let (saved, program) := opened.program.abandon
      let s := { s with current := none, switches := [] }.restoreSaved saved
      (s.reportAt program.origin (.unterminatedProgram program.name), switches)
    else (s, [])

def endRejected (s : Preprocessor) (level : Nat) : Preprocessor :=
  match s.rejected with
  | none => s
  | some rejected => if level ≤ rejected.fileLevel then s.closeRejected else s

def endFile (s : Preprocessor) (level : Nat) : Preprocessor :=
  let s := { s with branches := [] }.reportBranches s.branches
  let s := s.endHeader level
  let (inner, kept) := s.switches.splitFromLevel level
  let (s, outer) := { s with switches := kept }.endProgram level
  let s := s.reportSwitches (inner ++ outer)
  s.endRejected level

def processLines (includer : Includer) (source : Source) (outer : Place) :
    (n : Nat) → List String → Preprocessor → Preprocessor
  | _, [], s => s
  | n, line :: rest, s =>
    if s.aborted then s
    else
      let place : Place := ⟨source.name, source.directory, n, line⟩ :: outer
      let s := processLine includer place line { s with lines := s.lines + 1 }
      processLines includer source outer (n + 1) rest s

theorem processLines_of_aborted {s : Preprocessor} (aborted : s.aborted = true) (includer : Includer)
    (source : Source) (outer : Place) (n : Nat) (lines : List String) :
    processLines includer source outer n lines s = s := by
  cases lines <;> simp [processLines, aborted]

theorem processLines_cons {s : Preprocessor} (running : s.aborted = false) (includer : Includer)
    (source : Source) (outer : Place) (n : Nat) (line : String) (rest : List String) :
    processLines includer source outer n (line :: rest) s =
      processLines includer source outer (n + 1) rest
        (processLine includer (⟨source.name, source.directory, n, line⟩ :: outer) line
          { s with lines := s.lines + 1 }) := by
  simp [processLines, running]

theorem processLines_append (includer : Includer) (source : Source) (outer : Place) (n : Nat)
    (xs ys : List String) (s : Preprocessor) :
    processLines includer source outer n (xs ++ ys) s =
      processLines includer source outer (n + xs.length) ys
        (processLines includer source outer n xs s) := by
  induction xs generalizing n s with
  | nil => rfl
  | cons x xs ih =>
    cases aborted : s.aborted with
    | true => simp [processLines_of_aborted aborted]
    | false =>
      simp only [List.cons_append, processLines, aborted, Bool.false_eq_true, if_false, ih,
        List.length_cons, Nat.add_assoc, Nat.add_comm 1]

/-- Processes a text with conditionals of its own. An aborted run is left as it is. -/
def processText (includer : Includer) (source : Source) (outer : Place) (s : Preprocessor) :
    Preprocessor :=
  let branches := s.branches
  let s := processLines includer source outer 1 (Text.sourceLines source.text)
    { s with branches := [] }
  let s := if s.aborted then s else s.endFile (outer.level + 1)
  { s with branches }

/-- The path without one pair of quotes or angle brackets around it. -/
def includePath (argument : String) : String :=
  let cs := Text.trimmed argument.toList
  let inner := match cs with
    | '"' :: rest => if rest.getLast? = some '"' then some rest.dropLast else none
    | '<' :: rest => if rest.getLast? = some '>' then some rest.dropLast else none
    | '\'' :: rest => if rest.getLast? = some '\'' then some rest.dropLast else none
    | _ => none
  String.ofList ((inner.map Text.trimmed).getD cs)

variable (inclusion : Inclusion) (files : FileTree)

/-- Where a file is looked for, in order: the including file's directory, then the search paths. -/
def candidates (place : Place) (path : String) : List String :=
  let own := (place.head?.bind SourceFrame.directory).toList
  (own ++ inclusion.paths).map (Path.join · path)

/-- The first candidate that is a file; otherwise the path as written. -/
def resolvePath (place : Place) (path : String) : String :=
  if Path.isAbsolute path then path
  else ((candidates inclusion place path).find? files.isFile).getD path

def reportTooDeep (s : Preprocessor) (place : Place) (path : String) : Preprocessor :=
  s.addDiagnostic (((diagnosticAt place (.includeTooDeep path)).withNote
    ("maximum include depth is " ++ toString inclusion.maxDepth)).withHelp
    "raise --include-depth or break the include cycle")

/-- The problem of a file that cannot be read is reported on the line that asked for it, if any. -/
def reportUnreadable (s : Preprocessor) (place : Place) (path : String) (fault : FileFault) :
    Preprocessor :=
  let problem := Problem.notReadable path fault.message
  match place with
  | [] => s.addDiagnostic { problem.nowhere with file := some path }
  | place => s.report place problem

def readFile (enter : Source → Place → Preprocessor → Preprocessor) (place : Place) (path : String)
    (s : Preprocessor) : Preprocessor :=
  match files.read path with
  | .ok text => enter ⟨path, Path.parent? path, text⟩ place s
  | .error fault => s.reportUnreadable place path fault

/-- `@include`, with the way to process a file one level deeper; `none` when the limit is reached. -/
def includeFile (enter? : Option (Source → Place → Preprocessor → Preprocessor)) : Includer :=
  fun place argument s =>
    let path := includePath argument
    if path.isEmpty then s.report place .includeWithoutPath
    else match enter? with
      | none => s.reportTooDeep inclusion place path
      | some enter => readFile files enter place (resolvePath inclusion files place path) s

/-- Processes a text in which files may be included up to `room` levels deep. -/
def enter : (room : Nat) → Source → Place → Preprocessor → Preprocessor
  | 0, source, outer, s => processText (includeFile inclusion files none) source outer s
  | room + 1, source, outer, s =>
    processText (includeFile inclusion files (some (enter room))) source outer s

def processSource (source : Source) (s : Preprocessor) : Preprocessor :=
  if s.aborted then s else enter inclusion files inclusion.maxDepth source [] s

def processFile (path : String) (s : Preprocessor) : Preprocessor :=
  if s.aborted then s else readFile files (enter inclusion files inclusion.maxDepth) [] path s

end Preprocessor

end GcodePrep
