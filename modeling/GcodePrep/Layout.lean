import GcodePrep.Path
import GcodePrep.Program
import GcodePrep.Text.Blank

set_option autoImplicit false

/-!
# Layout of program files

How a program is named and written: a leader, the program number, the header in parentheses, the body
and a trailer, joined by carriage return and line feed. In an annotated file every line shows where it
came from, and comments are kept.
-/

namespace GcodePrep

structure Layout where
  directory : String := ""
  leader : String := "%"
  trailer : String := "%"
  extension : String := "nc"
  /-- Files are called by program number; otherwise by program name. -/
  byNumber : Bool := true
  annotated : Bool := false
  deriving DecidableEq, Repr

def withoutRemark (text : String) : String :=
  String.ofList (Text.dropBlanksEnd (text.toList.takeWhile (· != ';')))

namespace Record

def remark? (r : Record) : Option String := r.comment.filter (!·.isEmpty)

def annotation (r : Record) : String :=
  match r.remark? with
  | some comment => "(" ++ r.origin.text ++ " " ++ comment ++ ") ;"
  | none => "(" ++ r.origin.text ++ ") ;"

/-- The line of a record. One without text is written only for its comment, in an annotated file. -/
def render (r : Record) (annotated : Bool) : Option String :=
  let text := (r.text.map withoutRemark).getD ""
  if text.isEmpty then if annotated && r.remark?.isSome then some r.annotation else none
  else if annotated then some (text ++ " " ++ r.annotation)
  else some (text ++ " ;")

end Record

namespace Layout

def path (layout : Layout) (p : Program) : String :=
  let stem := if layout.byNumber then toString p.number.toInt else p.name
  Path.join layout.directory (stem ++ "." ++ layout.extension)

def lines (layout : Layout) (p : Program) : List String :=
  [layout.leader, "O" ++ toString p.number.toInt ++ " (" ++ p.name ++ ") ;"] ++
    p.header.map (fun line => "(" ++ line ++ ") ;") ++
    p.body.filterMap (·.render layout.annotated) ++ [layout.trailer]

def render (layout : Layout) (p : Program) : String := "\r\n".intercalate (layout.lines p)

end Layout

end GcodePrep
