import GcodePrep.Text.Split

set_option autoImplicit false

/-!
# Source lines

A trimmed line is blank, a comment that starts with `//`, a directive with its argument, or text of the
program.
-/

namespace GcodePrep

inductive Directive where
  | case_
  | defaultcase
  | define
  | delay
  | else_
  | endcase
  | endheader
  | endif
  | endprogram
  | endswitch
  | error
  | eval
  | header
  | if_
  | include_
  | print
  | program
  | switch
  deriving DecidableEq, Repr

namespace Directive

def word : Directive → String
  | case_ => "@case"
  | defaultcase => "@defaultcase"
  | define => "@define"
  | delay => "@delay"
  | else_ => "@else"
  | endcase => "@endcase"
  | endheader => "@endheader"
  | endif => "@endif"
  | endprogram => "@endprogram"
  | endswitch => "@endswitch"
  | error => "@error"
  | eval => "@eval"
  | header => "@header"
  | if_ => "@if"
  | include_ => "@include"
  | print => "@print"
  | program => "@program"
  | switch => "@switch"

def all : List Directive :=
  [case_, defaultcase, define, delay, else_, endcase, endheader, endif, endprogram, endswitch, error,
   eval, header, if_, include_, print, program, switch]

def ofWord? (word : String) : Option Directive := all.find? (·.word = word)

end Directive

inductive Line where
  | blank
  | comment (text : String)
  | directive (d : Directive) (argument : String)
  | text
  deriving DecidableEq, Repr

namespace Line

/-- The word a line starts with ends before the first blank; the argument is what follows, trimmed. -/
def ofChars : List Char → Line
  | [] => blank
  | '/' :: '/' :: cs => comment (String.ofList (Text.trimmed cs))
  | cs =>
    let isPart := fun c => !Text.isBlank c
    match Directive.ofWord? (String.ofList (cs.takeWhile isPart)) with
    | some d => directive d (String.ofList (Text.trimmed (cs.dropWhile isPart)))
    | none => text

def ofString (line : String) : Line := ofChars line.toList

end Line

end GcodePrep
