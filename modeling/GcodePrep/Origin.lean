set_option autoImplicit false

/-!
# Source positions
-/

namespace GcodePrep

/-- A line of a source file; lines count from 1. -/
structure Origin where
  file : String
  line : Nat
  deriving DecidableEq, Repr

def Origin.text (o : Origin) : String := o.file ++ ":" ++ toString o.line

end GcodePrep
