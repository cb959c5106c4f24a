import GcodePrep.Proofs.StepEffects

set_option autoImplicit false

/-!
# Bindings end with their program

However a program ends, and whatever was bound, assigned or labelled while it was open, the bindings
are then those it was opened with. The depth limit of expressions never changes.
-/

namespace GcodePrep

namespace Preprocessor

/-- A program is open, accepted or not, that was opened with these bindings. -/
def Remembers (s : Preprocessor) (bindings : Bindings) : Prop :=
  (∃ opened, s.current = some opened ∧ s.rejected = none ∧ opened.program.saved = some bindings) ∨
    ∃ refused, s.current = none ∧ s.rejected = some refused ∧ refused.saved = bindings

theorem Remembers.exclusive {s : Preprocessor} {bindings : Bindings} (h : s.Remembers bindings) :
    s.Exclusive := by
  rcases h with ⟨opened, -, accepted, -⟩ | ⟨refused, unopened, -⟩
  · exact .inr accepted
  · exact .inl unopened

namespace Effect

variable {s s' : Preprocessor} {bindings : Bindings}

end Effect

end Preprocessor

namespace Traversal

open Preprocessor

variable {inclusion : Inclusion} {tree : FileTree} {env : Environment}

theorem Reached.depth {t : Traversal} (h : Reached inclusion tree env t) :
    t.state.env.maxDepth = env.maxDepth := by
  induction h with
  | fresh => rfl
  | enter _ _ ih => exact ih
  | unreadable _ _ _ ih => exact ih
  | step h next ih => exact (next.effect h.exclusive).frame.depth.trans ih

end Traversal

end GcodePrep
