import GcodePrep.Session.Console

set_option autoImplicit false

/-!
# The program

Takes a snapshot of the files a session can touch, runs the session on it, and carries out the changes.
The snapshot starts with the inputs, the diagnostics file and the output directory, and grows by the files
that its sources include and by those that its programs are written to.
-/

namespace GcodePrep

def variableNames : List String :=
  ["GPLUS_OUTPUT", "GPLUS_CONTROLLER", "GPLUS_MODEL", "GPLUS_LEADER", "GPLUS_TRAILER",
   "GPLUS_EXTENSION", "GPLUS_PROG_NAME", "GPLUS_VERBOSE", "GPLUS_DEFINES", "GPLUS_INCLUDE_PATHS",
   "GPLUS_INCLUDE_DEPTH", "GPLUS_EXPR_DEPTH", "GPLUS_QUIET", "GPLUS_NO_WARN", "GPLUS_WERROR",
   "GPLUS_ERROR_FILE", "GPLUS_ERROR_APPEND", "GPLUS_NO_ERROR"]

def readVariables : IO Variables := do
  let values ← variableNames.filterMapM fun name => return (← IO.getEnv name).map (name, ·)
  return fun name => values.lookup name

def includeCandidates (inclusion : Inclusion) (source : Source) : List String :=
  let place : Place := [⟨source.name, source.directory, 0, ""⟩]
  (Text.sourceLines source.text).flatMap fun line => match Line.ofString line with
    | .directive .include_ argument =>
      let path := Preprocessor.includePath argument
      path :: Preprocessor.candidates inclusion place path
    | _ => []

def readEntry (location : Location) : IO (Option FileEntry) := do
  let path := (← IO.currentDir) / ("/" ++ "/".intercalate location)
  if ← path.isDir then return some .directory
  if ← path.pathExists then
    try return some (.file (← IO.FS.readBinFile path))
    catch e => return some (.unreadable (.other (toString e)))
  return none

/-- Adds what stands on the way of a path, up to the first name that is missing. -/
def addNames (tree : FileTree) (location : Location) : List String → IO FileTree
  | [] => return tree
  | "." :: names => addNames tree location names
  | ".." :: names => addNames tree location.dropLast names
  | name :: names => do
    let location := location ++ [name]
    match ← readEntry location with
    | none => return tree
    | some entry => addNames (tree.set location entry) location names

def addPath (tree : FileTree) (path : String) : IO FileTree :=
  if path.toList.contains '\x00' then return tree
  else addNames tree (if Path.isAbsolute path then [] else tree.home) (Path.pieces path)

/-- Adds paths, and the files that the sources among them include, each once. -/
partial def addPaths (inclusion : Inclusion) (tree : FileTree) (known : List String) :
    List String → IO (FileTree × List String)
  | [] => return (tree, known)
  | path :: rest => do
    if known.contains path then addPaths inclusion tree known rest
    else
      let tree ← addPath tree path
      let found := match tree.read path with
        | .ok text => includeCandidates inclusion ⟨path, Path.parent? path, text⟩
        | .error _ => []
      addPaths inclusion tree (path :: known) (found ++ rest)

def Config.namedPaths (c : Config) : List String :=
  let target := match c.target with
    | .file path _ => [path]
    | _ => []
  c.layout.directory :: target ++ c.inputs

def Config.programPaths (c : Config) (tree : FileTree) : List String :=
  (c.runInputs c.inputs tree).1.flatMap fun r => r.programs.map c.layout.path

/-- The files that a run can touch. -/
partial def takeSnapshot (c : Config) (tree : FileTree) (known paths : List String) :
    IO FileTree := do
  let (tree, known) ← addPaths c.inclusion tree known paths
  let outputs := c.programPaths tree
  if outputs.all known.contains then return tree else takeSnapshot c tree known outputs

def applyChange (path : String) : Option ByteArray → IO Unit
  | none => IO.FS.createDirAll path
  | some contents => IO.FS.writeBinFile path contents

def refusalText : CommandLine.Refusal → String
  | .unknownArgument => "error: unexpected argument"
  | .invalidValue => "error: missing or invalid value"
  | .malformedValue => "error: invalid number"
  | .conflict => "error: conflicting or repeated arguments"
  | .missingRequired => "error: a required argument is missing"
  | .unneededValue => "error: unexpected value for a flag"
  | .help => "Usage: gplus [OPTIONS] [INPUT]..."
  | .version => "gplus 0.3.0"

def runProgram (args : List String) : IO UInt32 := do
  let vars ← readVariables
  let start := FileTree.withHome (Path.pieces (← IO.currentDir).toString)
  let tree ← match (Arguments.parse args).map (Config.validate · vars) with
    | .ok (.ok c) => takeSnapshot c start [] c.namedPaths
    | _ => pure start
  match Session.start args vars tree with
  | .error refusal =>
    if refusal.exitStatus = 0 then IO.println (refusalText refusal)
    else IO.eprintln (refusalText refusal)
    return refusal.exitStatus.toUInt32
  | .ok outcome =>
    for (path, contents) in tree.changes outcome.files do
      applyChange path contents
    IO.print outcome.stdout
    IO.eprint outcome.stderr
    return outcome.exitStatus.toUInt32

end GcodePrep

def main (args : List String) : IO UInt32 := GcodePrep.runProgram args
