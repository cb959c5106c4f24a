import GcodePrep.Session.Run

set_option autoImplicit false

/-!
# Console sessions

What the program does from its arguments to its exit status. Printed values and status lines go to
standard output. Diagnostics go to a channel: standard error, a file, or nowhere.
-/

namespace GcodePrep

open CommandLine

namespace Config

def visible (c : Config) (diagnostics : List Diagnostic) : List Diagnostic :=
  diagnostics.filter fun d => c.showWarnings || !d.isWarning

def diagnosticLine (c : Config) (d : Diagnostic) : String :=
  match c.format, c.style with
  | .json, _ => d.json
  | .text, .classic => d.classic
  | .text, .rich => d.rich

def printLine (c : Config) (p : Print) : String :=
  match c.format with
  | .json => p.json
  | .text => p.text

def statusLine (c : Config) (r : Report) : String :=
  match c.format with
  | .json => r.statusJson
  | .text => r.status

end Config

/-- Lines for standard output and lines for the diagnostic channel. -/
structure Transcript where
  shown : List String
  diagnosed : List String
  deriving DecidableEq, Repr

namespace Transcript

def empty : Transcript := ⟨[], []⟩

def append (t u : Transcript) : Transcript := ⟨t.shown ++ u.shown, t.diagnosed ++ u.diagnosed⟩

/-- A report shows its prints; a quiet run leaves it at that if there was no error. -/
def ofReport (c : Config) (r : Report) : Transcript :=
  let prints := r.prints.map c.printLine
  if c.quiet && r.succeeded then ⟨prints, []⟩
  else ⟨prints ++ [c.statusLine r], (c.visible r.log.diagnostics).map c.diagnosticLine⟩

def ofRefused (c : Config) (w : RefusedWarnings) : Transcript :=
  let message := match c.format with
    | .json => []
    | .text => [w.message]
  ⟨[], (c.visible w.diagnostics).map c.diagnosticLine ++ message⟩

def ofRun (c : Config) : Except RefusedWarnings (List Report) → Transcript
  | .ok reports => reports.foldl (fun t r => t.append (ofReport c r)) empty
  | .error w => ofRefused c w

end Transcript

def runStatus : Except RefusedWarnings (List Report) → Nat
  | .ok reports => if reports.all Report.succeeded then 0 else 1
  | .error _ => 1

def linesText (lines : List String) : String := String.join (lines.map (· ++ "\n"))

/-- Bytes written over the start of others; what lies beyond them stays. -/
def overwriteStart (old new : ByteArray) : ByteArray := new ++ old.extract new.size old.size

structure Outcome where
  exitStatus : Nat
  stdout : String
  stderr : String
  files : FileTree

inductive Channel where
  | discard
  | stderr
  | file (location : Location) (append : Bool)
  deriving DecidableEq, Repr

namespace Channel

/-- Opens the channel. A file is created if it is missing and emptied unless it is appended to. -/
def ofTarget (tree : FileTree) : DiagnosticTarget → Except FileFault (Channel × FileTree)
  | .disabled => .ok (.discard, tree)
  | .stderr => .ok (.stderr, tree)
  | .file path append => do
    let location ← tree.target path
    let contents := if append then tree.contentsAt location else .empty
    return (.file location append, tree.set location (.file contents))

/-- Sends text through the channel after a run. A run may have written the channel's own file: text
that is not appended then replaces the file's beginning. -/
def send (channel : Channel) (text : String) (o : Outcome) : Outcome :=
  match channel with
  | .discard => o
  | .stderr => { o with stderr := o.stderr ++ text }
  | .file location append =>
    let old := o.files.contentsAt location
    let new := if append then old ++ text.toUTF8 else overwriteStart old text.toUTF8
    { o with files := o.files.set location (.file new) }

end Channel

namespace Config

def perform (c : Config) (channel : Channel) (tree : FileTree) : Outcome :=
  let (result, tree) := c.run tree
  let transcript := Transcript.ofRun c result
  channel.send (linesText transcript.diagnosed)
    ⟨runStatus result, linesText transcript.shown, "", tree⟩

end Config

def Outcome.complaint (message : String) (tree : FileTree) : Outcome := ⟨1, "", message ++ "\n", tree⟩

namespace Session

def ofArguments (a : Arguments) (vars : Variables) (tree : FileTree) : Outcome :=
  match Config.validate a vars with
  | .error e => .complaint e.message tree
  | .ok c => match Channel.ofTarget tree c.target with
    | .error fault => .complaint ("Failed to open diagnostics sink: " ++ fault.message) tree
    | .ok (channel, tree) => c.perform channel tree

def start (args : List String) (vars : Variables) (tree : FileTree) : Except Refusal Outcome :=
  (Arguments.parse args).map fun a => ofArguments a vars tree

end Session

end GcodePrep
