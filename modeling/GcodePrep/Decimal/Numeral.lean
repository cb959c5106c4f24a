import GcodePrep.Binary64

set_option autoImplicit false

/-!
# Reading numerals

Values of digit runs in base ten and sixteen, and the binary64 number nearest to a decimal with a point
and an exponent.
-/

namespace GcodePrep.Decimal

def digitValue (c : Char) : Nat := c.toNat - '0'.toNat

def isHexDigit (c : Char) : Bool :=
  c.isDigit || ('a' ≤ c && c ≤ 'f') || ('A' ≤ c && c ≤ 'F')

def hexDigitValue (c : Char) : Nat :=
  if c.isDigit then digitValue c
  else if 'a' ≤ c then c.toNat - 'a'.toNat + 10
  else c.toNat - 'A'.toNat + 10

def natOfDigits (cs : List Char) : Nat := cs.foldl (fun n c => 10 * n + digitValue c) 0

def natOfHexDigits (cs : List Char) : Nat := cs.foldl (fun n c => 16 * n + hexDigitValue c) 0

/-- The binary64 number nearest to `digits * 10 ^ exponent`, where `size` bounds the number of
significant digits. Magnitudes far outside the range need no arithmetic. -/
def nearest (digits size : Nat) (exponent : Int) : Float :=
  if digits = 0 then 0
  else if 400 < exponent then Binary64.infinity
  else if (size : Int) + exponent < -400 then 0
  else Float.ofScientific digits (decide (exponent < 0)) exponent.natAbs

/-- The number written as `whole.places` times ten to the `exponent`. -/
def ofParts (whole places : List Char) (exponent : Int) : Float :=
  let digits := whole ++ places
  nearest (natOfDigits digits) digits.length (exponent - places.length)

end GcodePrep.Decimal
