import GcodePrep.Binary64

set_option autoImplicit false

/-!
# Decimal text of binary64 numbers

A number is written with the fewest digits that read back to it, always positionally. The reals that
round to `m * 2 ^ q` form an interval whose ends belong to it exactly when `m` is even. The coarsest
grid `10 ^ p` with a point in that interval gives the digits; of two points the nearer one is taken,
and of two equally near ones the upper.
-/

namespace GcodePrep.Decimal

structure Scaled where
  digits : Nat
  exponent : Int
  deriving DecidableEq, Repr

/-- The interval of reals that round to a positive number, in units of `2 ^ (exponent - 2)`. -/
structure Interval where
  low : Nat
  middle : Nat
  high : Nat
  exponent : Int
  closed : Bool

def Interval.of (d : Dyadic) (narrowBelow : Bool) : Interval where
  low := 4 * d.significand - (if narrowBelow then 1 else 2)
  middle := 4 * d.significand
  high := 4 * d.significand + 2
  exponent := d.exponent - 2
  closed := d.significand % 2 == 0

/-- A common multiple turns units of the interval and of the grid `10 ^ p` into integers. -/
def Interval.unit (i : Interval) (p : Int) : Nat :=
  Nat.pow 10 (-p).toNat <<< i.exponent.toNat

def Interval.gridUnit (i : Interval) (p : Int) : Nat :=
  Nat.pow 10 p.toNat <<< (-i.exponent).toNat

def Interval.holds (i : Interval) (p : Int) (digits : Nat) : Bool :=
  let point := digits * i.gridUnit p
  let low := i.low * i.unit p
  let high := i.high * i.unit p
  if i.closed then decide (low ≤ point ∧ point ≤ high) else decide (low < point ∧ point < high)

/-- The point of the grid `10 ^ p` that stands for the number, if the interval holds one. -/
def Interval.onGrid (i : Interval) (p : Int) : Option Nat :=
  let middle := i.middle * i.unit p
  let below := middle / i.gridUnit p
  match i.holds p below, i.holds p (below + 1) with
  | true, true => some (if 2 * middle < (2 * below + 1) * i.gridUnit p then below else below + 1)
  | true, false => some below
  | false, true => some (below + 1)
  | false, false => none

/-- Tries the grids `10 ^ p`, `10 ^ (p - 1)`, ... in turn. The number itself is a point of the last
grid tried, so the fallback only closes the recursion. -/
def Interval.coarsest (i : Interval) (p : Int) : Nat → Scaled
  | 0 => ⟨i.middle * i.unit p / i.gridUnit p, p⟩
  | n + 1 => match i.onGrid p with
    | some digits => ⟨digits, p⟩
    | none => i.coarsest (p - 1) n

/-- The fewest digits that read back to a positive number. The search starts above its leading
digit. -/
def shortest (d : Dyadic) (narrowBelow : Bool) : Scaled :=
  let top := ((d.significand.log2 : Int) + d.exponent + 1) * 301 / 1000 + 2
  (Interval.of d narrowBelow).coarsest top (top + 1074).toNat

/-- Positional notation: the point is left out after a whole number. -/
def Scaled.layout (x : Scaled) : String :=
  let digits := toString x.digits
  let places := (-x.exponent).toNat
  if 0 ≤ x.exponent then digits ++ String.ofList (List.replicate x.exponent.toNat '0')
  else if places < digits.length then
    let whole := digits.length - places
    String.ofList (digits.toList.take whole) ++ "." ++ String.ofList (digits.toList.drop whole)
  else "0." ++ String.ofList (List.replicate (places - digits.length) '0') ++ digits

def text (x : Float) : String :=
  match Binary64.dyadic? x with
  | none => if x.isNaN then "NaN" else if Binary64.signBit x then "-Infinity" else "Infinity"
  | some d =>
    if d.significand = 0 then "0"
    else (if d.negative then "-" else "") ++ (shortest d (Binary64.narrowBelow x)).layout

end GcodePrep.Decimal
