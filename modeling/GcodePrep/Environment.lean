import GcodePrep.Expr.Eval
import GcodePrep.Text.Blank
import GcodePrep.Text.Word

set_option autoImplicit false

/-!
# The environment of directives and substitutions

Bindings together with the depth limit for the expressions evaluated against them.
-/

namespace GcodePrep

/-- Letters of arguments and the numbers of the local variables they are passed in. -/
def argumentConstants : List (String × Int64) :=
  [("A", 1), ("B", 2), ("C", 3), ("I", 4), ("J", 5), ("K", 6), ("D", 7), ("E", 8), ("F", 9),
   ("H", 11), ("M", 13), ("Q", 17), ("R", 18), ("S", 19), ("T", 20), ("U", 21), ("V", 22),
   ("W", 23), ("X", 24), ("Y", 25), ("Z", 26)]

def defaultExprDepth : Nat := 64

structure Environment where
  bindings : Bindings
  maxDepth : Nat

namespace Environment

def empty : Environment := ⟨.empty, defaultExprDepth⟩

def get? (env : Environment) (name : String) : Option Value := env.bindings.get? name

def contains (env : Environment) (name : String) : Bool := env.bindings.contains name

def set (env : Environment) (name : String) (value : Value) : Environment :=
  { env with bindings := env.bindings.set name value }

def withConstants : Environment :=
  argumentConstants.foldl (fun env constant => env.set constant.1 (.int constant.2)) empty

/-- A limit of zero counts as one. -/
def setMaxDepth (env : Environment) (depth : Nat) : Environment :=
  { env with maxDepth := max depth 1 }

def restore (env : Environment) (saved : Bindings) : Environment := { env with bindings := saved }

def run {α : Type} (env : Environment) (m : Eval α) : Except Fault α × Environment :=
  let (result, bindings) := (m.run.run env.bindings).run
  (result, { env with bindings })

def eval (env : Environment) (src : String) : Except Fault Value × Environment :=
  env.run (Expr.evaluate src env.maxDepth)

/-- Evaluates a list of assignments. A name alone is bound to 1; a list with anything but
assignments in it is refused before any of it is evaluated. -/
def define (env : Environment) (src : String) : Except Fault Value × Environment :=
  let src := Text.trim src
  if Text.isIdentifier src then (.ok (.int 1), env.set src (.int 1))
  else match Expr.parse src env.maxDepth with
    | .error fault => (.error fault, env)
    | .ok e => match e.statements.find? (!·.isAssignment) with
      | some bad => (.error ⟨.notAssignment, bad.reportOffset?⟩, env)
      | none => env.run e.eval

end Environment

end GcodePrep
