import GcodePrep.Proofs.LineReading

set_option autoImplicit false

/-!
# Bodies as trees

An outline is the body of a program before it is flattened into lines: plain lines and switches in
sequence, with the directives of a switch only inside of it and at most one default case. `compile`
says what such a body turns into, one switch after the other from the inside out, without a position
that is noted first and filled in later.
-/

namespace GcodePrep

/-- Where a part of a body stands: outside of switches, or in a switch that has its default case
already or not. -/
inductive Scope where
  | body
  | switch (hasDefault : Bool)
  deriving DecidableEq, Repr

inductive Outline : Scope → Type where
  | done {scope : Scope} : Outline scope
  | line {scope : Scope} (text : PlainLine) (rest : Outline scope) : Outline scope
  | leave {d : Bool} (rest : Outline (.switch d)) : Outline (.switch d)
  | case {d : Bool} (value : Argument) (rest : Outline (.switch d)) : Outline (.switch d)
  | default (rest : Outline (.switch true)) : Outline (.switch false)
  | switch {scope : Scope} (subject : Argument) (inner : Outline (.switch false))
      (rest : Outline scope) : Outline scope

namespace Outline

def source : {scope : Scope} → Outline scope → List String
  | _, .done => []
  | _, .line text rest => text.text :: rest.source
  | _, .leave rest => "@endcase" :: rest.source
  | _, .case value rest => ("@case " ++ value.text) :: rest.source
  | _, .default rest => "@defaultcase" :: rest.source
  | _, .switch subject inner rest =>
    ("@switch " ++ subject.text) :: (inner.source ++ "@endswitch" :: rest.source)

/-- The values of the cases at the outline's own level, in order. -/
def caseValues : {scope : Scope} → Outline scope → List String
  | _, .done => []
  | _, .line _ rest | _, .leave rest | _, .default rest | _, .switch _ _ rest => rest.caseValues
  | _, .case value rest => value.text :: rest.caseValues

def hasDefault : {scope : Scope} → Outline scope → Bool
  | _, .done => false
  | _, .line _ rest | _, .leave rest | _, .case _ rest | _, .switch _ _ rest => rest.hasDefault
  | _, .default _ => true

end Outline

namespace Reference

def caseBranches (subject : String) (depth : Nat) : (index : Nat) → List String → List String
  | _, [] => []
  | index, value :: values =>
    ("IF[" ++ subject ++ " EQ " ++ value ++ "] GOTO@__" ++ toString depth ++ "_" ++ toString index) ::
      caseBranches subject depth (index + 1) values

/-- A branch for every case in the order of declaration, then the one taken when no case matches. -/
def table (subject : String) (depth : Nat) (values : List String) (hasDefault : Bool) : List String :=
  caseBranches subject depth 1 values ++
    [if hasDefault then "GOTO@__" ++ toString depth ++ "_default"
      else "GOTO@__" ++ toString depth ++ "_endswitch"]

end Reference

namespace Outline

open Reference

/-- The body an outline stands for. `depth` is the depth of the switch around it, 0 if there is none,
and `index` counts the cases that this switch has had. -/
def compile : {scope : Scope} → (depth index : Nat) → Outline scope → List String
  | _, _, _, .done => []
  | _, depth, index, .line text rest => text.text :: rest.compile depth index
  | _, depth, index, .leave rest =>
    ("GOTO@__" ++ toString depth ++ "_endswitch") :: rest.compile depth index
  | _, depth, index, .case _ rest =>
    ("N@__" ++ toString depth ++ "_" ++ toString (index + 1)) :: rest.compile depth (index + 1)
  | _, depth, index, .default rest =>
    ("N@__" ++ toString depth ++ "_default") :: rest.compile depth index
  | _, depth, index, .switch subject inner rest =>
    table subject.text (depth + 1) inner.caseValues inner.hasDefault ++
      inner.compile (depth + 1) 0 ++
      ("N@__" ++ toString (depth + 1) ++ "_endswitch") :: rest.compile depth index

end Outline

end GcodePrep
