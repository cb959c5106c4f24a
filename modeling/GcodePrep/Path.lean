import GcodePrep.Text.Split

set_option autoImplicit false

/-!
# Paths as text

A path is kept as it was written. Repeated slashes and dots in the middle do not count as components.
-/

namespace GcodePrep.Path

def isAbsolute (path : String) : Bool := path.toList.head? = some '/'

/-- Puts a relative path under a directory; an absolute path stands for itself. -/
def join (dir path : String) : String :=
  if isAbsolute path then path
  else if dir.isEmpty || dir.toList.getLast? = some '/' then dir ++ path
  else dir ++ "/" ++ path

def pieces (path : String) : List String :=
  (Text.splitAtEach '/' path).filter (!·.isEmpty)

/-- Drops slashes and single dots at the end, as far as they are not components of their own. -/
def dropTrailing : List Char → List Char
  | [] => []
  | ['/'] => ['/']
  | ['.'] => ['.']
  | '/' :: rest => dropTrailing rest
  | '.' :: '/' :: rest => if rest.isEmpty then ['/'] else dropTrailing rest
  | cs => cs

/-- The directory part: the path without its last component. The root and the empty path have none. -/
def parent? (path : String) : Option String :=
  let reversed := dropTrailing path.toList.reverse
  if reversed.isEmpty || reversed = ['/'] then none
  else some (String.ofList (dropTrailing (reversed.dropWhile (· != '/'))).reverse)

end GcodePrep.Path
