import GcodePrep.Proofs.WordRounding
import Mathlib.Algebra.Order.Field.Power
import Mathlib.Data.Rat.Cast.Lemmas

set_option autoImplicit false

/-!
# Exact values

The rational number that a value stands for. A word stands for its integer, and a finite binary64 number
for its significand times a power of two, as the standard model takes the number apart. The fields of the
bit pattern give the same, so that a number has an integer view exactly where it is an integer.
-/

namespace GcodePrep

namespace Dyadic

def value (d : Dyadic) : ℚ := (if d.negative then -1 else 1) * d.significand * 2 ^ d.exponent

theorem denominator_pos (d : Dyadic) : 0 < d.denominator := by
  rw [denominator, Nat.shiftLeft_eq, Nat.one_mul]
  exact Nat.two_pow_pos _

theorem value_eq_quotient (d : Dyadic) : d.value = d.numerator / d.denominator := by
  obtain ⟨negative, significand, exponent⟩ := d
  obtain ⟨k, rfl | rfl⟩ := exponent.eq_nat_or_neg
  · cases negative <;> simp [value, numerator, denominator, Nat.shiftLeft_eq]
  · cases negative <;> simp [value, numerator, denominator, Nat.shiftLeft_eq, div_eq_mul_inv]

theorem toInt?_eq_some_iff {d : Dyadic} {n : Int} : d.toInt? = some n ↔ d.value = n := by
  have nonzero : (d.denominator : Int) ≠ 0 := by
    have := d.denominator_pos
    omega
  have cleared : d.value = n ↔ d.numerator = n * d.denominator := by
    rw [value_eq_quotient, div_eq_iff (by exact_mod_cast nonzero)]
    exact_mod_cast Iff.rfl
  rw [cleared, toInt?]
  split
  · rename_i divides
    rw [Option.some_inj, Int.ediv_eq_iff_eq_mul_left nonzero (Int.dvd_of_emod_eq_zero divides)]
  · rename_i rest
    refine iff_of_false nofun fun whole => rest ?_
    rw [whole, Int.mul_emod_left]

end Dyadic

namespace Binary64

open Float.Model Float.Model.UnpackedFloat

def unpackedValue? : UnpackedFloat → Option ℚ
  | .infinity _ | .notANumber => none
  | .zero _ => some 0
  | .finite s m e _ => some (s.apply m * 2 ^ e)

theorem unpackedValue?_finite (s : Sign) {m : Nat} (e : Int) (positive : 0 < m) :
    unpackedValue? (.finite s m e positive) = some (s.apply m * 2 ^ e : ℚ) := rfl

def value? (x : Float) : Option ℚ := unpackedValue? x.toModel.unpack

def bits (x : Float) : BitVec Format.binary64.numBits := x.toBits.toBitVec

theorem toNat_unpackMantissa (x : Float) : (unpackMantissa (bits x)).toNat = fraction x := by
  simp only [unpackMantissa, BitVec.toNat_cast, BitVec.extractLsb_toNat, Nat.shiftRight_zero]
  rfl

theorem toNat_unpackExponent (x : Float) : (unpackExponent (bits x)).toNat = field x := by
  simp only [unpackExponent, BitVec.toNat_cast, BitVec.extractLsb_toNat, Nat.shiftRight_eq_div_pow]
  rfl

theorem unpackExponent_eq_iff (x : Float) (b : BitVec 11) :
    unpackExponent (bits x) = b ↔ field x = b.toNat := by
  rw [← toNat_unpackExponent, BitVec.toNat_inj]

theorem ofBitVec_unpackSign (x : Float) :
    Sign.ofBitVec (unpackSign (bits x)) = if signBit x then .negative else .positive := by
  have bit : unpackSign (bits x) = BitVec.ofBool (signBit x) := by
    show BitVec.cast _ (BitVec.extractLsb 63 63 (bits x)) = _
    ext i bound
    obtain rfl : i = 0 := by omega
    simp only [BitVec.extractLsb, BitVec.getElem_cast, BitVec.getElem_extractLsb',
      BitVec.getElem_ofBool_zero]
    rfl
  rw [bit]
  cases signBit x <;> rfl

theorem apply_sign (negative : Bool) (m : Nat) :
    (((if negative then .negative else .positive : Sign).apply m : Int) : ℚ) =
      (if negative then -1 else 1) * m := by
  cases negative <;> simp [Sign.apply]

theorem toNat_append_hiddenBit (m : BitVec 52) : (1#1 ++ m).toNat = hiddenBit + m.toNat := by
  rw [BitVec.toNat_append, ← Nat.shiftLeft_add_eq_or_of_lt m.isLt]
  rfl

section

variable {b : BitVec Format.binary64.numBits}

theorem unpackedValue?_special (special : unpackExponent b = -1#11) :
    unpackedValue? (UnpackedFloat.unpack .binary64 b) = none := by
  by_cases empty : unpackMantissa b = 0#52
  · have infinite : UnpackedFloat.unpack .binary64 b = .infinity (Sign.ofBitVec (unpackSign b)) :=
      (if_pos special).trans (if_pos empty)
    rw [infinite]
    rfl
  · have invalid : UnpackedFloat.unpack .binary64 b = .notANumber :=
      (if_pos special).trans (if_neg empty)
    rw [invalid]
    rfl

theorem unpackedValue?_subnormal (finite : unpackExponent b ≠ -1#11) (subnormal : unpackExponent b = 0#11) :
    unpackedValue? (UnpackedFloat.unpack .binary64 b) =
      some ((Sign.ofBitVec (unpackSign b)).apply (unpackMantissa b).toNat * 2 ^ (-1074 : Int) : ℚ) := by
  by_cases empty : unpackMantissa b = 0#52
  · have zero : UnpackedFloat.unpack .binary64 b = .zero (Sign.ofBitVec (unpackSign b)) :=
      (if_neg finite).trans ((if_pos subnormal).trans (dif_pos empty))
    rw [zero, empty]
    show some 0 = _
    cases Sign.ofBitVec (unpackSign b) <;> simp [Sign.apply]
  · obtain ⟨positive, unpacked⟩ : ∃ positive, UnpackedFloat.unpack .binary64 b =
        .finite (Sign.ofBitVec (unpackSign b)) (unpackMantissa b).toNat
          ((unpackExponent b).toNat - (1023 + 52) + 1) positive :=
      ⟨_, (if_neg finite).trans ((if_pos subnormal).trans (dif_neg empty))⟩
    rw [unpacked, unpackedValue?_finite, subnormal]
    rfl

theorem unpackedValue?_normal (finite : unpackExponent b ≠ -1#11) (normal : unpackExponent b ≠ 0#11) :
    unpackedValue? (UnpackedFloat.unpack .binary64 b) =
      some ((Sign.ofBitVec (unpackSign b)).apply (hiddenBit + (unpackMantissa b).toNat : Nat) *
        2 ^ ((unpackExponent b).toNat - 1075 : Int) : ℚ) := by
  have mantissa := toNat_append_hiddenBit (unpackMantissa b)
  have positive : 0 < (1#1 ++ unpackMantissa b).toNat := by
    rw [mantissa]
    exact Nat.add_pos_left (by decide) _
  rw [unpack_normal finite normal positive, unpackedValue?_finite, mantissa]
  rfl

end

theorem value?_eq (x : Float) : value? x = (dyadic? x).map Dyadic.value := by
  have mantissa := toNat_unpackMantissa x
  have exponent := toNat_unpackExponent x
  have ones := unpackExponent_eq_iff x (-1#11)
  have zeros := unpackExponent_eq_iff x 0#11
  have unpacked : x.toModel.unpack = UnpackedFloat.unpack .binary64 (bits x) := rfl
  rw [value?, unpacked, dyadic?]
  by_cases special : field x = 2047
  · rw [unpackedValue?_special (ones.mpr special), if_pos special]
    rfl
  rw [if_neg special]
  have finite := mt ones.mp special
  by_cases subnormal : field x = 0
  · rw [unpackedValue?_subnormal finite (zeros.mpr subnormal), if_pos subnormal, ofBitVec_unpackSign,
      apply_sign, mantissa]
    rfl
  · rw [unpackedValue?_normal finite (mt zeros.mp subnormal), if_neg subnormal, ofBitVec_unpackSign,
      apply_sign, mantissa, exponent]
    rfl

theorem toInt?_eq_some_iff {x : Float} {n : Int} : toInt? x = some n ↔ value? x = some (n : ℚ) := by
  rw [toInt?, value?_eq]
  cases dyadic? x with
  | none => exact iff_of_false nofun nofun
  | some d => rw [Option.bind_some, Option.map_some, Option.some_inj, Dyadic.toInt?_eq_some_iff]

end Binary64

namespace Value

/-- The number that a value stands for. Texts, truth values, the infinities and NaN stand for none. -/
def quantity? : Value → Option ℚ
  | int n => some n.toInt
  | float x => Binary64.value? x
  | str _ | bool _ => none

theorem quantity?_int_eq_some_iff {m : Int64} {n : Int} : (int m).quantity? = some (n : ℚ) ↔ m.toInt = n := by
  rw [quantity?, Option.some_inj, Int.cast_inj]

theorem quantity?_float_eq_some_iff {x : Float} {n : Int} :
    (float x).quantity? = some (n : ℚ) ↔ Binary64.toInt? x = some n :=
  Binary64.toInt?_eq_some_iff.symm

end Value

end GcodePrep
