import GcodePrep.Value

set_option autoImplicit false

/-!
# Expression trees

Trees carry the byte offset at which an operator, a name or a literal stands in the source text, so
that a fault found later can point at it.
-/

namespace GcodePrep

inductive UnaryOp where
  | plus
  | minus
  | not
  deriving DecidableEq, Repr

inductive BinaryOp where
  | add
  | sub
  | mul
  | div
  | mod
  | eq
  | ne
  | lt
  | le
  | gt
  | ge
  | and
  | or
  deriving DecidableEq, Repr

inductive AssignOp where
  | set
  | add
  | sub
  | mul
  | div
  deriving DecidableEq, Repr

/-- The operator that a compound assignment applies to the old value and the new one. -/
def AssignOp.operator? : AssignOp → Option BinaryOp
  | set => none
  | add => some .add
  | sub => some .sub
  | mul => some .mul
  | div => some .div

inductive Expr where
  | literal (value : Value) (offset : Nat)
  | symbol (name : String) (offset : Nat)
  | unary (op : UnaryOp) (operand : Expr) (offset : Nat)
  | binary (op : BinaryOp) (left right : Expr) (offset : Nat)
  | choice (condition yes no : Expr)
  | assign (op : AssignOp) (name : String) (value : Expr) (offset : Nat)
  | call (name : String) (arguments : List Expr) (offset : Nat)
  | chain (statements : List Expr)

namespace Expr

def statements : Expr → List Expr
  | chain items => items
  | e => [e]

def isAssignment : Expr → Bool
  | assign .. => true
  | _ => false

def reportOffset? : Expr → Option Nat
  | literal _ offset => some offset
  | symbol _ offset => some offset
  | binary _ _ _ offset => some offset
  | call _ _ offset => some offset
  | unary .. | choice .. | assign .. | chain .. => none

end Expr

end GcodePrep
