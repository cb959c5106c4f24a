import GcodePrep.Path

set_option autoImplicit false

/-!
# Trees of files

Directories and files with their contents, seen from a working directory. Paths are resolved one
component after the other, every component but the last being a directory. The faults are those of a
file system without links, access rights or limits on its size.
-/

namespace GcodePrep

inductive FileFault where
  | notFound
  | alreadyExists
  | notDirectory
  | isDirectory
  | nameTooLong
  | nulInName
  | notText
  | noParent
  /-- A fault of the machine's own file system, in its words. -/
  | other (message : String)
  deriving DecidableEq, Repr

def FileFault.message : FileFault → String
  | notFound => "No such file or directory (os error 2)"
  | alreadyExists => "File exists (os error 17)"
  | notDirectory => "Not a directory (os error 20)"
  | isDirectory => "Is a directory (os error 21)"
  | nameTooLong => "File name too long (os error 36)"
  | nulInName => "file name contained an unexpected NUL byte"
  | notText => "stream did not contain valid UTF-8"
  | noParent => "failed to create whole tree"
  | other message => message

/-- The names from the root down. -/
abbrev Location := List String

inductive FileEntry where
  | directory
  | file (contents : ByteArray)
  /-- Something whose contents cannot be read. -/
  | unreadable (fault : FileFault)

/-- Entries by location; the root is a directory without an entry. Relative paths start at `home`. -/
structure FileTree where
  home : Location
  entries : List (Location × FileEntry)

namespace FileTree

def entry? (t : FileTree) (location : Location) : Option FileEntry :=
  if location.isEmpty then some .directory else t.entries.lookup location

def setEntry (entry : FileEntry) (location : Location) :
    List (Location × FileEntry) → List (Location × FileEntry)
  | [] => [(location, entry)]
  | (other, old) :: rest =>
    if other = location then (location, entry) :: rest
    else (other, old) :: setEntry entry location rest

def set (t : FileTree) (location : Location) (entry : FileEntry) : FileTree :=
  { t with entries := setEntry entry location t.entries }

/-- Every location on the way, from the root down to `location` itself. -/
def ancestry (location : Location) : List Location :=
  (List.range location.length).map fun n => location.take (n + 1)

def addDirectories (t : FileTree) (location : Location) : FileTree :=
  (ancestry location).foldl
    (fun t way => if (t.entry? way).isSome then t else t.set way .directory) t

def withHome (home : Location) : FileTree := addDirectories ⟨home, []⟩ home

def maxNameBytes : Nat := 255

def maxPathBytes : Nat := 4095

/-- What `name` stands for in a directory; the dots stand for directories. -/
def entryIn (t : FileTree) (dir : Location) (name : String) :
    Except FileFault (Location × FileEntry) :=
  if name = "." then .ok (dir, .directory)
  else if name = ".." then .ok (dir.dropLast, .directory)
  else if maxNameBytes < name.utf8ByteSize then .error .nameTooLong
  else match t.entry? (dir ++ [name]) with
    | some entry => .ok (dir ++ [name], entry)
    | none => .error .notFound

def walk (t : FileTree) : Location → List String → Except FileFault Location
  | dir, [] => .ok dir
  | dir, name :: names => do
    let (location, entry) ← t.entryIn dir name
    match entry with
    | .directory => t.walk location names
    | _ => .error .notDirectory

/-- Where the last component of a path is looked up: a directory, and a name unless the path is the
root. -/
def locate (t : FileTree) (path : String) : Except FileFault (Location × Option String) := do
  if path.toList.contains '\x00' then .error .nulInName
  else if path.isEmpty then .error .notFound
  else if maxPathBytes < path.utf8ByteSize then .error .nameTooLong
  else
    let start := if Path.isAbsolute path then [] else t.home
    let names := Path.pieces path
    let dir ← t.walk start names.dropLast
    .ok (dir, names.getLast?)

def endsWithSlash (path : String) : Bool := path.toList.getLast? = some '/'

/-- The entry a path leads to. A slash at the end asks for a directory. -/
def find (t : FileTree) (path : String) : Except FileFault (Location × FileEntry) := do
  let (dir, name) ← t.locate path
  match name with
  | none => .ok (dir, .directory)
  | some name =>
    let (location, entry) ← t.entryIn dir name
    match entry with
    | .directory => .ok (location, .directory)
    | entry => if endsWithSlash path then .error .notDirectory else .ok (location, entry)

def isFile (t : FileTree) (path : String) : Bool :=
  match t.find path with
  | .ok (_, .file _) | .ok (_, .unreadable _) => true
  | _ => false

def isDirectory (t : FileTree) (path : String) : Bool :=
  match t.find path with
  | .ok (_, .directory) => true
  | _ => false

def read (t : FileTree) (path : String) : Except FileFault String := do
  let (_, entry) ← t.find path
  match entry with
  | .directory => .error .isDirectory
  | .unreadable fault => .error fault
  | .file contents => match String.fromUTF8? contents with
    | some text => .ok text
    | none => .error .notText

def target (t : FileTree) (path : String) : Except FileFault Location := do
  let (dir, name) ← t.locate path
  match name with
  | none => .error .isDirectory
  | some name =>
    if name = "." || name = ".." || endsWithSlash path then .error .isDirectory
    else match t.entryIn dir name with
      | .ok (_, .directory) => .error .isDirectory
      | .ok (_, .unreadable fault) => .error fault
      | .ok (location, .file _) => .ok location
      | .error .notFound => .ok (dir ++ [name])
      | .error fault => .error fault

def contentsAt (t : FileTree) (location : Location) : ByteArray :=
  match t.entry? location with
  | some (.file contents) => contents
  | _ => .empty

def write (t : FileTree) (path : String) (text : String) : Except FileFault FileTree := do
  let location ← t.target path
  .ok (t.set location (.file text.toUTF8))

def makeDirectory (t : FileTree) (path : String) : Except FileFault FileTree := do
  let (dir, name) ← t.locate path
  match name with
  | none => .error .alreadyExists
  | some name => match t.entryIn dir name with
    | .ok _ => .error .alreadyExists
    | .error .notFound => .ok (t.set (dir ++ [name]) .directory)
    | .error fault => .error fault

/-- Makes a directory and those above it. Where it fails, the directories made so far stay. One round
for every component is enough. -/
def makeDirectoriesFrom : Nat → FileTree → String → Except FileFault Unit × FileTree
  | rounds, t, path =>
    if path.isEmpty then (.ok (), t)
    else match t.makeDirectory path with
      | .ok t => (.ok (), t)
      | .error .notFound => match rounds, Path.parent? path with
        | rounds + 1, some parent => match makeDirectoriesFrom rounds t parent with
          | (.error fault, t) => (.error fault, t)
          | (.ok (), t) => match t.makeDirectory path with
            | .ok t => (.ok (), t)
            | .error fault => if t.isDirectory path then (.ok (), t) else (.error fault, t)
        | _, _ => (.error .noParent, t)
      | .error fault => if t.isDirectory path then (.ok (), t) else (.error fault, t)

def makeDirectories (t : FileTree) (path : String) : Except FileFault Unit × FileTree :=
  makeDirectoriesFrom (path.length + 1) t path

def addEntry (t : FileTree) (path : String) (entry : FileEntry) : FileTree :=
  let location := t.home ++ (Path.pieces path).filter (· != ".")
  (t.addDirectories location.dropLast).set location entry

/-- A location as a path from the working directory, or from the root if it lies elsewhere. -/
def pathOf (t : FileTree) (location : Location) : String :=
  if t.home.isPrefixOf location then "/".intercalate (location.drop t.home.length)
  else "/" ++ "/".intercalate location

/-- Files that `after` has with other contents, and directories that only it has, by path. -/
def changes (before after : FileTree) : List (String × Option ByteArray) :=
  let changed := after.entries.filterMap fun (location, entry) =>
    match entry, before.entry? location with
    | .file new, some (.file old) =>
      if new.data = old.data then none else some (after.pathOf location, some new)
    | .file new, _ => some (after.pathOf location, some new)
    | .directory, none => some (after.pathOf location, none)
    | _, _ => none
  changed.mergeSort fun x y => decide (x.1 ≤ y.1)

end FileTree

end GcodePrep
