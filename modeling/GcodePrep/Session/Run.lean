import GcodePrep.CommandLine.Config
import GcodePrep.Destination

set_option autoImplicit false

/-!
# Runs over inputs

Every input is preprocessed from the same environment. Its programs are written only if no error was
reported, nor a warning where warnings count as errors. An input that stops the preprocessor is the last
one of its run.
-/

namespace GcodePrep

/-- Binds a definition of the command line. A value that does not evaluate is bound as text; what its
evaluation has assigned until then stays. -/
def Define.bind (d : Define) (env : Environment) : Environment :=
  match d.expr with
  | none => env.set d.name (.int 1)
  | some expr => match env.eval expr with
    | (.ok value, env) => env.set d.name value
    | (.error _, env) => env.set d.name (.str expr)

namespace Config

/-- The bindings that show the configuration to a source. -/
def settings (c : Config) : List (String × Value) :=
  [("outputDir", .str c.layout.directory)] ++
    (c.controller.map fun id => ("control", Value.str id)).toList ++
    (c.model.map fun id => ("model", Value.str id)).toList ++
    [("leader", .str c.layout.leader),
     ("trailer", .str c.layout.trailer),
     ("fileExtension", .str c.layout.extension),
     ("progNumFileName", .bool c.layout.byNumber),
     ("verbose", .bool c.layout.annotated)]

def environment (c : Config) : Environment :=
  let env := Environment.withConstants.setMaxDepth c.exprDepth
  let env := c.settings.foldl (fun env (name, value) => env.set name value) env
  c.defines.foldl (fun env d => d.bind env) env

/-- The report of one input, before anything is written. -/
def preprocess (c : Config) (files : FileTree) (path : String) : Report :=
  ((Preprocessor.start c.environment).processFile c.inclusion files path).toReport path

def permits (c : Config) (r : Report) : Bool :=
  r.succeeded && !(c.warningsAsErrors && decide (0 < r.log.warnings))

end Config

section Write

variable {σ : Type} (destination : Destination σ) (layout : Layout)

def writeProgram (p : Program) (r : Report) (s : σ) : Report × σ :=
  let path := layout.path p
  match destination.store path (layout.render p) s with
  | (.ok (), s) => (r.addWritten path, s)
  | (.error fault, s) => (r.addDiagnostic (Problem.notWritable path fault.message).nowhere, s)

def writeAll : List Program → Report → σ → Report × σ
  | [], r, s => (r, s)
  | p :: rest, r, s =>
    let (r, s) := writeProgram destination layout p r s
    writeAll rest r s

/-- Writes the completed programs of a report, after their directory. -/
def writePrograms (r : Report) (s : σ) : Report × σ :=
  match destination.makeDirectory layout.directory s with
  | (.error fault, s) =>
    (r.addDiagnostic (Problem.directoryNotMade layout.directory fault.message).nowhere, s)
  | (.ok (), s) => writeAll destination layout (r.programs.filter Program.done) r s

end Write

namespace Config

def runInput {σ : Type} (c : Config) (destination : Destination σ) (files : FileTree)
    (path : String) (s : σ) : Report × σ :=
  let r := c.preprocess files path
  if c.permits r then writePrograms destination c.layout r s else (r, s)

/-- Runs inputs in order; each sees the files written before it. -/
def runInputs (c : Config) : List String → FileTree → List Report × FileTree
  | [], tree => ([], tree)
  | path :: rest, tree =>
    let (r, tree) := c.runInput FileTree.destination tree path tree
    if r.aborted then ([r], tree)
    else
      let (reports, tree) := c.runInputs rest tree
      (r :: reports, tree)

/-- Runs every input against the same files and collects the programs. -/
def collectInputs (c : Config) (files : FileTree) : List String → Collection → List Report × Collection
  | [], s => ([], s)
  | path :: rest, s =>
    let (r, s) := c.runInput Collection.destination files path s
    let (reports, s) := c.collectInputs files rest s
    (r :: reports, s)

end Config

/-- A run that was refused for its warnings, now errors. -/
structure RefusedWarnings where
  diagnostics : List Diagnostic
  deriving DecidableEq, Repr

def RefusedWarnings.message (_ : RefusedWarnings) : String := "Warnings treated as errors (-Werror)"

def raisedWarnings (reports : List Report) : List Diagnostic :=
  reports.flatMap fun r =>
    (r.log.diagnostics.filter Diagnostic.isWarning).map fun d => { d with severity := .error }

namespace Config

/-- What a run amounts to: its reports, unless their warnings count as errors. -/
def judge (c : Config) (reports : List Report) : Except RefusedWarnings (List Report) :=
  let raised := raisedWarnings reports
  if c.warningsAsErrors && !raised.isEmpty then .error ⟨raised⟩ else .ok reports

def run (c : Config) (tree : FileTree) : Except RefusedWarnings (List Report) × FileTree :=
  let (reports, tree) := c.runInputs c.inputs tree
  (c.judge reports, tree)

end Config

end GcodePrep
