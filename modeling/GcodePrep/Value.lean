import GcodePrep.Decimal.Shortest

set_option autoImplicit false

/-!
# Values of expressions

An expression yields an integer of 64 signed bits, a binary64 number, a text or a truth value.
-/

namespace GcodePrep

inductive Value where
  | int (n : Int64)
  | float (x : Float)
  | str (s : String)
  | bool (b : Bool)

def minInteger : Int := -9223372036854775808

def maxInteger : Int := 9223372036854775807

/-- The integers below this bound, 2^53, in magnitude are all binary64 numbers. -/
def exactBound : Nat := 9007199254740992

def int64? (n : Int) : Option Int64 :=
  if minInteger ≤ n ∧ n ≤ maxInteger then some (Int64.ofInt n) else none

theorem toInt_of_int64?_eq_some {n : Int} {w : Int64} (h : int64? n = some w) : w.toInt = n := by
  unfold int64? at h
  split at h
  · rename_i range
    cases h
    unfold minInteger maxInteger at range
    exact Int64.toInt_ofInt_of_le (by omega) (by omega)
  · cases h

namespace Value

/-- Zero, NaN, the empty text and `false` do not count as true. -/
def isTruthy : Value → Bool
  | int n => n != 0
  | float x => !(x == 0) && !x.isNaN
  | str s => !s.isEmpty
  | bool b => b

def toFloat? : Value → Option Float
  | int n => some (Float.ofInt n.toInt)
  | float x => some x
  | str _ | bool _ => none

/-- The integer a value stands for. A whole number from -2^63 to 2^63 qualifies; the upper end is
taken for the largest word. -/
def toInteger? : Value → Option Int64
  | int n => some n
  | float x => do
    let n ← Binary64.toInt? x
    if minInteger ≤ n ∧ n ≤ maxInteger + 1 then some (Int64.ofInt (min n maxInteger)) else none
  | str _ | bool _ => none

/-- Whole numbers below 2^53 in magnitude become integers. -/
def ofWhole (x : Float) : Value :=
  match Binary64.toInt? x with
  | some n => if n.natAbs < exactBound then int (Int64.ofInt n) else float x
  | none => float x

def kindName : Value → String
  | int _ | float _ => "number"
  | str _ => "string"
  | bool _ => "boolean"

def text : Value → String
  | int n => toString n.toInt
  | float x => Decimal.text x
  | str s => s
  | bool true => "true"
  | bool false => "false"

/-- Numbers are equal across integers and binary64, all else only within its own kind. -/
def sameAs : Value → Value → Bool
  | str a, str b => a == b
  | bool a, bool b => a == b
  | int a, int b => a == b
  | a, b => match a.toFloat?, b.toFloat? with
    | some x, some y => x == y
    | _, _ => false

end Value

end GcodePrep
