import GcodePrep.Decimal.Numeral
import GcodePrep.Environment
import GcodePrep.Preprocessor.Files

set_option autoImplicit false

/-!
# Command-line arguments

Flags take no value, settings take one: attached (`-oDIR`, `-o=DIR`, `--output=DIR`) or as the next
argument. Short flags may be joined. Everything after `--` is an input. A flag, and a setting that is
not repeatable, may be given once. A value that follows its setting is looked at only when the next
setting, flag or input asks for it, so an unknown argument right after it is reported first.
-/

namespace GcodePrep

namespace CommandLine

inductive Flag where
  | quiet
  | errorAppend
  | noError
  | noWarn
  | warnError
  | progName
  | verbose
  | help
  | version
  deriving DecidableEq, Repr

inductive Setting where
  | format
  | style
  | errorFile
  | output
  | controller
  | model
  | leader
  | trailer
  | extension
  | define
  | includePath
  | includeDepth
  | exprDepth
  | infile
  deriving DecidableEq, Repr

inductive Key where
  | flag (f : Flag)
  | setting (s : Setting)
  deriving DecidableEq, Repr

def shortKey? : Char → Option Key
  | 'q' => some (.flag .quiet)
  | 'w' => some (.flag .noWarn)
  | 'p' => some (.flag .progName)
  | 'v' => some (.flag .verbose)
  | 'h' => some (.flag .help)
  | 'V' => some (.flag .version)
  | 'E' => some (.setting .errorFile)
  | 'o' => some (.setting .output)
  | 'c' => some (.setting .controller)
  | 'm' => some (.setting .model)
  | 'l' => some (.setting .leader)
  | 't' => some (.setting .trailer)
  | 'e' => some (.setting .extension)
  | 'D' => some (.setting .define)
  | 'I' => some (.setting .includePath)
  | 'i' => some (.setting .infile)
  | _ => none

def longKey? : String → Option Key
  | "quiet" => some (.flag .quiet)
  | "error-append" => some (.flag .errorAppend)
  | "no-error" => some (.flag .noError)
  | "no-warn" => some (.flag .noWarn)
  | "Werror" => some (.flag .warnError)
  | "prog-name" => some (.flag .progName)
  | "verbose" => some (.flag .verbose)
  | "help" => some (.flag .help)
  | "version" => some (.flag .version)
  | "format" => some (.setting .format)
  | "diagnostics-style" => some (.setting .style)
  | "error" => some (.setting .errorFile)
  | "output" => some (.setting .output)
  | "controller" => some (.setting .controller)
  | "model" => some (.setting .model)
  | "leader" => some (.setting .leader)
  | "trailer" => some (.setting .trailer)
  | "extension" => some (.setting .extension)
  | "define" => some (.setting .define)
  | "include-path" => some (.setting .includePath)
  | "include-depth" => some (.setting .includeDepth)
  | "expr-depth" => some (.setting .exprDepth)
  | "infile" => some (.setting .infile)
  | _ => none

def Setting.isRepeatable : Setting → Bool
  | .define | .includePath | .infile => true
  | _ => false

inductive OutputFormat where
  | text
  | json
  deriving DecidableEq, Repr

inductive DiagnosticStyle where
  | classic
  | rich
  deriving DecidableEq, Repr

/-- Why a command line is not carried out. Asking for help or for the version ends it as well. -/
inductive Refusal where
  | unknownArgument
  | invalidValue
  | malformedValue
  | conflict
  | missingRequired
  | unneededValue
  | help
  | version
  deriving DecidableEq, Repr

def Refusal.exitStatus : Refusal → Nat
  | .help | .version => 0
  | _ => 2

end CommandLine

open CommandLine

structure Arguments where
  format : OutputFormat := .text
  style : DiagnosticStyle := .classic
  quiet : Bool := false
  errorFile : Option String := none
  errorAppend : Bool := false
  noError : Bool := false
  noWarn : Bool := false
  warnError : Bool := false
  output : Option String := none
  controller : Option String := none
  model : Option String := none
  leader : Option String := none
  trailer : Option String := none
  extension : Option String := none
  progName : Bool := false
  verbose : Bool := false
  defines : List String := []
  includePaths : List String := []
  includeDepth : Nat := Inclusion.defaultDepth
  exprDepth : Nat := defaultExprDepth
  infiles : List String := []
  inputs : List String := []
  deriving DecidableEq, Repr

namespace CommandLine

/-- Natural numbers lie below this bound, 2^64. -/
def naturalBound : Nat := 18446744073709551616

/-- A natural number below the bound: decimal digits, after a plus sign or none. -/
def natural? (s : String) : Option Nat :=
  let digits := match s.toList with
    | '+' :: rest => rest
    | cs => cs
  let n := Decimal.natOfDigits digits
  if !digits.isEmpty && digits.all Char.isDigit && decide (n < naturalBound) then some n else none

def checkedPath (s : String) : Except Refusal String :=
  if s.isEmpty then .error .invalidValue else .ok s

def checkedNatural (s : String) : Except Refusal Nat :=
  match natural? s with
  | some n => .ok n
  | none => .error .malformedValue

def checkedFormat : String → Except Refusal OutputFormat
  | "text" => .ok .text
  | "json" => .ok .json
  | _ => .error .invalidValue

def checkedStyle : String → Except Refusal DiagnosticStyle
  | "classic" => .ok .classic
  | "rich" => .ok .rich
  | _ => .error .invalidValue

def setFlag (a : Arguments) : Flag → Except Refusal Arguments
  | .quiet => .ok { a with quiet := true }
  | .errorAppend => .ok { a with errorAppend := true }
  | .noError => .ok { a with noError := true }
  | .noWarn => .ok { a with noWarn := true }
  | .warnError => .ok { a with warnError := true }
  | .progName => .ok { a with progName := true }
  | .verbose => .ok { a with verbose := true }
  | .help => .error .help
  | .version => .error .version

def setValue (a : Arguments) (s : Setting) (value : String) : Except Refusal Arguments :=
  match s with
  | .format => (checkedFormat value).map fun v => { a with format := v }
  | .style => (checkedStyle value).map fun v => { a with style := v }
  | .errorFile => (checkedPath value).map fun v => { a with errorFile := some v }
  | .output => (checkedPath value).map fun v => { a with output := some v }
  | .controller => .ok { a with controller := some value }
  | .model => .ok { a with model := some value }
  | .leader => .ok { a with leader := some value }
  | .trailer => .ok { a with trailer := some value }
  | .extension => .ok { a with extension := some value }
  | .define => .ok { a with defines := a.defines ++ [value] }
  | .includePath => (checkedPath value).map fun v => { a with includePaths := a.includePaths ++ [v] }
  | .includeDepth => (checkedNatural value).map fun v => { a with includeDepth := v }
  | .exprDepth => (checkedNatural value).map fun v => { a with exprDepth := v }
  | .infile => (checkedPath value).map fun v => { a with infiles := a.infiles ++ [v] }

def addInputs (a : Arguments) : List String → Except Refusal Arguments
  | [] => .ok a
  | value :: rest => do
    let path ← checkedPath value
    addInputs { a with inputs := a.inputs ++ [path] } rest

/-- Values that were read and not looked at yet. -/
inductive Pending where
  | nothing
  /-- A setting whose value has to follow. -/
  | awaiting (s : Setting)
  | value (s : Setting) (value : String)
  | inputs (values : List String)
  deriving DecidableEq, Repr

structure Reader where
  arguments : Arguments
  given : List Key
  pending : Pending
  deriving DecidableEq, Repr

namespace Reader

def start : Reader := ⟨{}, [], .nothing⟩

def note (r : Reader) (key : Key) (repeatable : Bool) : Except Refusal Reader :=
  if !repeatable && r.given.contains key then .error .conflict
  else .ok { r with given := key :: r.given }

def applyValue (r : Reader) (s : Setting) (value : String) : Except Refusal Reader := do
  let r ← r.note (.setting s) s.isRepeatable
  let arguments ← setValue r.arguments s value
  .ok { r with arguments }

def settle (r : Reader) : Except Refusal Reader :=
  let rest := { r with pending := .nothing }
  match r.pending with
  | .nothing => .ok rest
  | .awaiting _ => .error .invalidValue
  | .value s value => rest.applyValue s value
  | .inputs values => (addInputs r.arguments values).map fun arguments => { rest with arguments }

def applyFlag (r : Reader) (f : Flag) : Except Refusal Reader := do
  let r ← r.settle
  let arguments ← setFlag r.arguments f
  let r ← r.note (.flag f) false
  .ok { r with arguments }

def applySetting (r : Reader) (s : Setting) (attached : Option String) : Except Refusal Reader := do
  let r ← r.settle
  match attached with
  | some value => r.applyValue s value
  | none => .ok { r with pending := .awaiting s }

def long (r : Reader) (cs : List Char) : Except Refusal Reader :=
  let cut := Text.cutAtFirst '=' cs
  let name := String.ofList ((cut.map Prod.fst).getD cs)
  let attached := cut.map fun cut => String.ofList cut.2
  match longKey? name, attached with
  | none, _ => .error .unknownArgument
  | some (.flag f), none => r.applyFlag f
  | some (.flag _), some _ => .error .unneededValue
  | some (.setting s), attached => r.applySetting s attached

def short (r : Reader) : List Char → Except Refusal Reader
  | [] => .ok r
  | c :: cs => match shortKey? c with
    | none => .error .unknownArgument
    | some (.flag f) => do
      let r ← r.applyFlag f
      r.short cs
    | some (.setting s) => match cs with
      | [] => r.applySetting s none
      | '=' :: value => r.applySetting s (some (String.ofList value))
      | value => r.applySetting s (some (String.ofList value))

/-- An input, joined to those right before it. -/
def input (r : Reader) (value : String) : Except Refusal Reader :=
  match r.pending with
  | .inputs values => .ok { r with pending := .inputs (values ++ [value]) }
  | _ => do
    let r ← r.settle
    .ok { r with pending := .inputs [value] }

/-- An argument that is no option: the value that a setting waits for, or an input. -/
def plain (r : Reader) (value : String) : Except Refusal Reader :=
  match r.pending with
  | .awaiting s => .ok { r with pending := .value s value }
  | _ => r.input value

def readInputs (r : Reader) : List String → Except Refusal Reader
  | [] => .ok r
  | value :: rest => do
    let r ← r.input value
    r.readInputs rest

def read (r : Reader) : List String → Except Refusal Reader
  | [] => .ok r
  | argument :: rest => match argument.toList with
    | ['-', '-'] => r.readInputs rest
    | '-' :: '-' :: cs => do
      let r ← r.long cs
      r.read rest
    | ['-'] => do
      let r ← r.plain argument
      r.read rest
    | '-' :: cs => do
      let r ← r.short cs
      r.read rest
    | _ => do
      let r ← r.plain argument
      r.read rest

def has (r : Reader) (key : Key) : Bool := r.given.contains key

def check (r : Reader) : Except Refusal Arguments :=
  let noError := r.has (.flag .noError)
  let conflicts :=
    (noError && (r.has (.setting .errorFile) || r.has (.flag .errorAppend))) ||
    (r.has (.flag .noWarn) && r.has (.flag .warnError))
  if conflicts then .error .conflict
  else if r.has (.flag .errorAppend) && !r.has (.setting .errorFile) then .error .missingRequired
  else .ok r.arguments

end Reader

end CommandLine

def Arguments.parse (args : List String) : Except Refusal Arguments := do
  let r ← CommandLine.Reader.start.read args
  let r ← r.settle
  r.check

end GcodePrep
