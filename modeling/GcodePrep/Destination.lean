import GcodePrep.FileTree

set_option autoImplicit false

/-!
# Destinations of program files

A destination takes a directory and then files. Programs go into a tree of files, or into a collection
that never refuses anything.
-/

namespace GcodePrep

/-- Where program files go, as operations on a state `σ`. -/
structure Destination (σ : Type) where
  makeDirectory : (dir : String) → σ → Except FileFault Unit × σ
  store : (path text : String) → σ → Except FileFault Unit × σ

/-- A write that fails leaves the tree as it was. -/
def FileTree.destination : Destination FileTree where
  makeDirectory dir tree := tree.makeDirectories dir
  store path text tree := match tree.write path text with
    | .ok tree => (.ok (), tree)
    | .error fault => (.error fault, tree)

/-- Directories in the order in which they were asked for, and files ordered by path. -/
structure Collection where
  directories : List String
  files : List (String × String)
  deriving DecidableEq, Repr

namespace Collection

def empty : Collection := ⟨[], []⟩

def addDirectory (c : Collection) (dir : String) : Collection :=
  if c.directories.contains dir then c else { c with directories := c.directories ++ [dir] }

def place (path text : String) : List (String × String) → List (String × String)
  | [] => [(path, text)]
  | (other, old) :: rest =>
    if other = path then (path, text) :: rest
    else if path < other then (path, text) :: (other, old) :: rest
    else (other, old) :: place path text rest

def addFile (c : Collection) (path text : String) : Collection :=
  { c with files := place path text c.files }

def get? (c : Collection) (path : String) : Option String := c.files.lookup path

def destination : Destination Collection where
  makeDirectory dir c := (.ok (), c.addDirectory dir)
  store path text c := (.ok (), c.addFile path text)

end Collection

end GcodePrep
