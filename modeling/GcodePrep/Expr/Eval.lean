import GcodePrep.Bindings
import GcodePrep.Expr.Operation
import GcodePrep.Expr.Parser

set_option autoImplicit false

/-!
# Evaluation

Evaluation reads and changes the bindings. When it fails, the assignments made before the failure
stay.
-/

namespace GcodePrep

/-- A computation on the bindings that yields a value or fails, and leaves bindings either way. -/
abbrev Eval (α : Type) := ExceptT Fault (StateM Bindings) α

namespace Eval

def lookup (name : String) (offset : Nat) : Eval Value := do
  match (← get).get? name with
  | some v => pure v
  | none => throw (.atOffset (.undefined name) offset)

def assign (name : String) (v : Value) : Eval Unit := modify (·.set name v)

end Eval

namespace Expr

mutual

def eval : Expr → Eval Value
  | literal v _ => pure v
  | symbol name offset => Eval.lookup name offset
  | unary op e offset => do
    let v ← e.eval
    liftExcept (op.apply v offset)
  | binary .and l r _ => do
    let v ← l.eval
    if v.isTruthy then r.eval else pure v
  | binary .or l r _ => do
    let v ← l.eval
    if v.isTruthy then pure v else r.eval
  | binary op l r offset => do
    let a ← l.eval
    let b ← r.eval
    liftExcept (op.apply a b offset)
  | choice c yes no => do
    let v ← c.eval
    if v.isTruthy then yes.eval else no.eval
  | assign op name e offset => do
    let new ← e.eval
    let result ← match op.operator? with
      | none => pure new
      | some op => do
        let old ← Eval.lookup name offset
        liftExcept (op.apply old new offset)
    Eval.assign name result
    pure result
  | call name args offset => do
    let values ← evalAll args
    liftExcept (Function.call name values offset)
  | chain items => do
    let values ← evalAll items
    match values.getLast? with
    | some v => pure v
    | none => throw ⟨.empty, none⟩

def evalAll : List Expr → Eval (List Value)
  | [] => pure []
  | e :: es => do
    let v ← e.eval
    let vs ← evalAll es
    pure (v :: vs)

end

def evaluate (src : String) (depth : Nat) : Eval Value :=
  match parse src depth with
  | .ok e => e.eval
  | .error fault => throw fault

end Expr

end GcodePrep
