import GcodePrep.Origin

set_option autoImplicit false

/-!
# Open conditionals

Every open `@if` is a branch. Lines are visible when no branch is open or the innermost one is
active. A branch opened where lines are not visible is shadowed for its whole life.
-/

namespace GcodePrep

inductive Visibility where
  | active
  | inactive
  | shadowed
  deriving DecidableEq, Repr

def Visibility.flip : Visibility → Visibility
  | active => inactive
  | inactive => active
  | shadowed => shadowed

structure Branch where
  visibility : Visibility
  origin : Origin
  elseOrigin : Option Origin
  deriving DecidableEq, Repr

/-- The open branches, innermost first. -/
abbrev Branches := List Branch

namespace Branches

def isActive : Branches → Bool
  | [] => true
  | branch :: _ => branch.visibility = .active

/-- Opens a branch. The condition is consulted, and may change the state, only where lines are
visible. -/
def openIf {σ : Type} (branches : Branches) (origin : Origin) (condition : σ → Bool × σ) (s : σ) :
    Branches × σ :=
  if branches.isActive then
    let (holds, s) := condition s
    (⟨if holds then .active else .inactive, origin, none⟩ :: branches, s)
  else (⟨.shadowed, origin, none⟩ :: branches, s)

def flipElse? : Branches → Origin → Option Branches
  | [], _ => none
  | branch :: outer, origin =>
    some ({ branch with visibility := branch.visibility.flip, elseOrigin := some origin } :: outer)

def close? : Branches → Option (Branch × Branches)
  | [] => none
  | branch :: outer => some (branch, outer)

end Branches

end GcodePrep
