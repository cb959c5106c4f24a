import GcodePrep.CommandLine.Arguments
import GcodePrep.Layout

set_option autoImplicit false

/-!
# Configuration

What a run works with: the options of the command line, completed by environment variables. An option
that is given wins over its variable; a depth limit equal to the default counts as not given.
-/

namespace GcodePrep

inductive ConfigError where
  | invalidBoolean (name value : String)
  | invalidInteger (name value : String)
  | invalidDefine (text : String)
  | emptyExtension
  | mixedInputs
  | noInputs
  | noIncludeDepth
  | noExprDepth
  deriving DecidableEq, Repr

def ConfigError.message : ConfigError → String
  | invalidBoolean name value => "Invalid boolean value for " ++ name ++ ": " ++ value
  | invalidInteger name value => "Invalid integer value for " ++ name ++ ": " ++ value
  | invalidDefine text => "Invalid -D/--define name: " ++ text
  | emptyExtension => "-e/--extension must not be empty"
  | mixedInputs => "Do not mix positional input with -i/--infile; use one style"
  | noInputs => "No input files specified"
  | noIncludeDepth => "--include-depth must be at least 1"
  | noExprDepth => "--expr-depth must be at least 1"

/-- A definition from the command line: a name and the text of its value, if it has one. -/
structure Define where
  name : String
  expr : Option String
  deriving DecidableEq, Repr

def Define.parse (text : String) : Except ConfigError Define :=
  let (name, expr) := match Text.cutAtFirst '=' text.toList with
    | some (name, expr) => (name, some (String.ofList (Text.trimmed expr)))
    | none => (text.toList, none)
  let name := Text.trimmed name
  if Text.isIdentifierChars name then .ok ⟨String.ofList name, expr⟩ else .error (.invalidDefine text)

inductive DiagnosticTarget where
  | stderr
  | disabled
  | file (path : String) (append : Bool)
  deriving DecidableEq, Repr

structure Config where
  inputs : List String
  layout : Layout
  controller : Option String
  model : Option String
  defines : List Define
  inclusion : Inclusion
  exprDepth : Nat
  quiet : Bool
  format : CommandLine.OutputFormat
  style : CommandLine.DiagnosticStyle
  target : DiagnosticTarget
  showWarnings : Bool
  warningsAsErrors : Bool
  deriving DecidableEq, Repr

abbrev Variables := String → Option String

namespace Variables

def text (vars : Variables) (name : String) : Option String :=
  ((vars name).map Text.trim).filter (!·.isEmpty)

def bool (vars : Variables) (name : String) : Except ConfigError (Option Bool) :=
  match vars name with
  | none => .ok none
  | some raw =>
    let value := (Text.trim raw).map Char.toLower
    if ["1", "true", "yes", "on"].contains value then .ok (some true)
    else if ["0", "false", "no", "off"].contains value then .ok (some false)
    else if value.isEmpty then .ok none
    else .error (.invalidBoolean name value)

def natural (vars : Variables) (name : String) : Except ConfigError (Option Nat) :=
  match vars.text name with
  | none => .ok none
  | some value => match CommandLine.natural? value with
    | some n => .ok (some n)
    | none => .error (.invalidInteger name value)

def paths (vars : Variables) (name : String) : List String :=
  match vars name with
  | none => []
  | some raw => (Text.splitAtEach ':' raw).filter (!·.isEmpty)

def parts (vars : Variables) (name : String) : List String :=
  match vars name with
  | none => []
  | some raw => ((Text.splitAtEach ',' raw).map Text.trim).filter (!·.isEmpty)

end Variables

structure Defaults where
  output : Option String
  controller : Option String
  model : Option String
  leader : Option String
  trailer : Option String
  extension : Option String
  progName : Option Bool
  verbose : Option Bool
  defines : List String
  includePaths : List String
  includeDepth : Option Nat
  exprDepth : Option Nat
  quiet : Option Bool
  noWarn : Option Bool
  warnError : Option Bool
  errorFile : Option String
  errorAppend : Option Bool
  noError : Option Bool
  deriving DecidableEq, Repr

/-- Reads the variables in a fixed order; the first that is malformed is reported. -/
def Defaults.read (vars : Variables) : Except ConfigError Defaults := do
  let progName ← vars.bool "GPLUS_PROG_NAME"
  let verbose ← vars.bool "GPLUS_VERBOSE"
  let includeDepth ← vars.natural "GPLUS_INCLUDE_DEPTH"
  let exprDepth ← vars.natural "GPLUS_EXPR_DEPTH"
  let quiet ← vars.bool "GPLUS_QUIET"
  let noWarn ← vars.bool "GPLUS_NO_WARN"
  let warnError ← vars.bool "GPLUS_WERROR"
  let errorAppend ← vars.bool "GPLUS_ERROR_APPEND"
  let noError ← vars.bool "GPLUS_NO_ERROR"
  return {
    output := vars.text "GPLUS_OUTPUT"
    controller := vars.text "GPLUS_CONTROLLER"
    model := vars.text "GPLUS_MODEL"
    leader := vars.text "GPLUS_LEADER"
    trailer := vars.text "GPLUS_TRAILER"
    extension := vars.text "GPLUS_EXTENSION"
    progName
    verbose
    defines := vars.parts "GPLUS_DEFINES"
    includePaths := vars.paths "GPLUS_INCLUDE_PATHS"
    includeDepth
    exprDepth
    quiet
    noWarn
    warnError
    errorFile := vars.text "GPLUS_ERROR_FILE"
    errorAppend
    noError
  }

namespace Config

/-- An extension is trimmed and loses its leading dots. -/
def cleanExtension (s : String) : String :=
  String.ofList ((Text.trimmed s.toList).dropWhile (· = '.'))

def chooseInputs (a : Arguments) : Except ConfigError (List String) :=
  match a.infiles, a.inputs with
  | [], [] => .error .noInputs
  | [], inputs => .ok inputs
  | infiles, [] => .ok infiles
  | _, _ => .error .mixedInputs

/-- A limit that differs from the default was given; otherwise the variable counts. -/
def chooseDepth (given default : Nat) (fromVariable : Option Nat) : Nat :=
  if given = default then fromVariable.getD given else given

def chooseNoWarn (a : Arguments) (d : Defaults) : Bool :=
  a.noWarn || (!a.warnError && d.noWarn.getD false)

def chooseWarnError (a : Arguments) (d : Defaults) : Bool :=
  a.warnError || (!chooseNoWarn a d && d.warnError.getD false)

def chooseTarget (a : Arguments) (d : Defaults) : DiagnosticTarget :=
  let disabled := a.noError || (a.errorFile.isNone && d.noError.getD false)
  if disabled then .disabled
  else match a.errorFile.or d.errorFile with
    | some path => .file path (a.errorAppend || d.errorAppend.getD false)
    | none => .stderr

def ofDefaults (a : Arguments) (d : Defaults) : Except ConfigError Config := do
  let defines ← (d.defines ++ a.defines).mapM Define.parse
  let extension := cleanExtension ((a.extension.or d.extension).getD "nc")
  if extension.isEmpty then throw .emptyExtension
  let inputs ← chooseInputs a
  let includeDepth := chooseDepth a.includeDepth Inclusion.defaultDepth d.includeDepth
  let exprDepth := chooseDepth a.exprDepth defaultExprDepth d.exprDepth
  if includeDepth = 0 then throw .noIncludeDepth
  if exprDepth = 0 then throw .noExprDepth
  return {
    inputs
    layout := {
      directory := (a.output.or d.output).getD ""
      leader := (a.leader.or d.leader).getD "%"
      trailer := (a.trailer.or d.trailer).getD "%"
      extension
      byNumber := !(a.progName || d.progName.getD false)
      annotated := a.verbose || d.verbose.getD false
    }
    controller := a.controller.or d.controller
    model := a.model.or d.model
    defines
    inclusion := ⟨d.includePaths ++ a.includePaths, includeDepth⟩
    exprDepth
    quiet := a.quiet || d.quiet.getD false
    format := a.format
    style := a.style
    target := chooseTarget a d
    showWarnings := !chooseNoWarn a d
    warningsAsErrors := chooseWarnError a d
  }

def validate (a : Arguments) (vars : Variables) : Except ConfigError Config := do
  ofDefaults a (← Defaults.read vars)

end Config

end GcodePrep
