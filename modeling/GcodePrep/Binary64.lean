set_option autoImplicit false

/-!
# Exact views of binary64 numbers

A finite number is a signed integer times a power of two. The operations here are computed on that
pair and so are exact: the integer a number stands for, its floor and ceiling, and the remainder of a
division truncated toward zero.
-/

namespace GcodePrep

/-- The number `± significand * 2 ^ exponent`; a zero keeps its sign. -/
structure Dyadic where
  negative : Bool
  significand : Nat
  exponent : Int
  deriving DecidableEq, Repr

namespace Binary64

/-- The value of the lowest bit above the trailing significand, 2^52. -/
def hiddenBit : Nat := 0x10000000000000

def signBit (x : Float) : Bool := x.toBits.toNat.testBit 63

/-- The biased exponent, bits 52 to 62. -/
def field (x : Float) : Nat := x.toBits.toNat / hiddenBit % 2048

/-- The trailing significand, bits 0 to 51. -/
def fraction (x : Float) : Nat := x.toBits.toNat % hiddenBit

/-- The exact value of a finite number; `none` for the infinities and for NaN. -/
def dyadic? (x : Float) : Option Dyadic :=
  if field x = 2047 then none
  else if field x = 0 then some ⟨signBit x, fraction x, -1074⟩
  else some ⟨signBit x, hiddenBit + fraction x, (field x : Int) - 1075⟩

/-- The gap to the next smaller magnitude is half the gap to the next larger one. -/
def narrowBelow (x : Float) : Bool := fraction x == 0 && decide (1 < field x)

end Binary64

namespace Dyadic

/-- The integer over `2 ^ shift` that the number equals, where `shift` clears a negative exponent. -/
def numerator (d : Dyadic) : Int :=
  let magnitude := d.significand <<< d.exponent.toNat
  if d.negative then -magnitude else magnitude

def denominator (d : Dyadic) : Nat := 1 <<< (-d.exponent).toNat

def toInt? (d : Dyadic) : Option Int :=
  if d.numerator % d.denominator = 0 then some (d.numerator / d.denominator) else none

def floor (d : Dyadic) : Int := d.numerator / d.denominator

def ceil (d : Dyadic) : Int := -(-d.numerator / d.denominator)

def remainder (a b : Dyadic) : Dyadic :=
  let exponent := min a.exponent b.exponent
  let dividend := a.significand <<< (a.exponent - exponent).toNat
  let divisor := b.significand <<< (b.exponent - exponent).toNat
  ⟨a.negative, dividend % divisor, exponent⟩

/-- The binary64 number with this value. The value has to be one: a significand of more than 53 bits
loses its lowest bits. -/
def toFloat (d : Dyadic) : Float :=
  let sign := if d.negative then 0x8000000000000000 else 0
  let width := d.significand.log2
  let top := (width : Int) + d.exponent
  let word :=
    if d.significand = 0 then 0
    else if top < -1022 then d.significand <<< (d.exponent + 1074).toNat
    else (top + 1022).toNat * Binary64.hiddenBit + d.significand <<< (52 - width) >>> (width - 52)
  Float.ofBits (UInt64.ofNat (sign + word))

end Dyadic

namespace Binary64

def toInt? (x : Float) : Option Int := (dyadic? x).bind Dyadic.toInt?

def infinity : Float := Float.ofBits 0x7FF0000000000000

def nan : Float := Float.ofBits 0x7FF8000000000000

/-- The remainder of `x / y` truncated toward zero, for a divisor other than zero. -/
def remainder (x y : Float) : Float :=
  match dyadic? x, dyadic? y with
  | some a, some b => (a.remainder b).toFloat
  | some _, none => if y.isNaN then nan else x
  | none, _ => nan

end Binary64

end GcodePrep
