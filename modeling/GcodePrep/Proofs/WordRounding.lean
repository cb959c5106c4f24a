import GcodePrep.Value
import Mathlib.Algebra.Group.Nat.Defs

set_option autoImplicit false

/-!
# Words as binary64 numbers

The binary64 number of an integer is the nearest one with 53 significant bits, a tie going to the even
one. The rounding is monotone and changes no integer up to 2^53, but it merges greater ones. Comparing two
words as binary64 numbers is therefore comparing their roundings, and not the words themselves.
-/

namespace GcodePrep.Binary64

open Float.Model Float.Model.UnpackedFloat

/-- `n / 2 ^ k` rounded to the nearest integer, a half to the even one. -/
def roundedQuotient (n k : Nat) : Nat :=
  if 2 * (n % 2 ^ k) < 2 ^ k then n / 2 ^ k
  else if 2 * (n % 2 ^ k) = 2 ^ k then n / 2 ^ k + n / 2 ^ k % 2
  else n / 2 ^ k + 1

theorem roundedQuotient_zero (n : Nat) : roundedQuotient n 0 = n := by
  simp [roundedQuotient, Nat.mod_one]

theorem roundedQuotient_between (n k : Nat) :
    n / 2 ^ k ≤ roundedQuotient n k ∧ roundedQuotient n k ≤ n / 2 ^ k + 1 := by
  unfold roundedQuotient
  split
  · omega
  · split <;> omega

theorem roundedQuotient_mono {n m : Nat} (le : n ≤ m) (k : Nat) :
    roundedQuotient n k ≤ roundedQuotient m k := by
  have quotients : n / 2 ^ k ≤ m / 2 ^ k := Nat.div_le_div_right le
  rcases Nat.lt_or_eq_of_le quotients with below | same
  · exact Nat.le_trans (roundedQuotient_between n k).2
      (Nat.le_trans below (roundedQuotient_between m k).1)
  · have rests : n % 2 ^ k ≤ m % 2 ^ k := by
      have := Nat.div_add_mod n (2 ^ k)
      have := Nat.div_add_mod m (2 ^ k)
      rw [same] at *
      omega
    unfold roundedQuotient
    rw [same]
    grind

theorem roundedQuotient_scaled (n k j : Nat) :
    roundedQuotient (n * 2 ^ j) (k + j) = roundedQuotient n k := by
  have power : 2 ^ (k + j) = 2 ^ k * 2 ^ j := Nat.pow_add 2 k j
  have positive : 0 < 2 ^ j := Nat.two_pow_pos j
  have quotient : n * 2 ^ j / 2 ^ (k + j) = n / 2 ^ k := by
    rw [power, Nat.mul_div_mul_right _ _ positive]
  have rest : n * 2 ^ j % 2 ^ (k + j) = n % 2 ^ k * 2 ^ j := by
    rw [power, Nat.mul_mod_mul_right]
  unfold roundedQuotient
  rw [quotient, rest, power]
  simp only [← Nat.mul_assoc, Nat.mul_lt_mul_right positive,
    Nat.mul_left_inj (Nat.ne_of_gt positive)]

theorem log2_eq {n k : Nat} (low : 2 ^ k ≤ n) (high : n < 2 ^ (k + 1)) : n.log2 = k :=
  (Nat.log2_eq_iff (Nat.ne_of_gt (Nat.lt_of_lt_of_le (Nat.two_pow_pos k) low))).mpr ⟨low, high⟩

theorem log2_scaled {n : Nat} (positive : 0 < n) (j : Nat) : (n * 2 ^ j).log2 = n.log2 + j := by
  refine log2_eq ?_ ?_
  · rw [Nat.pow_add]
    exact Nat.mul_le_mul_right _ (Nat.log2_self_le (Nat.ne_of_gt positive))
  · rw [Nat.add_right_comm, Nat.pow_add]
    exact (Nat.mul_lt_mul_right (Nat.two_pow_pos j)).mpr Nat.lt_log2_self

theorem roundedQuotient_mem {n : Nat} (positive : 0 < n) {k : Nat} (size : n.log2 = k + 52) :
    2 ^ 52 ≤ roundedQuotient n k ∧ roundedQuotient n k ≤ 2 ^ 53 := by
  have low : 2 ^ 52 ≤ n / 2 ^ k := by
    rw [Nat.le_div_iff_mul_le (Nat.two_pow_pos k)]
    calc 2 ^ 52 * 2 ^ k = 2 ^ n.log2 := by rw [size, Nat.pow_add, Nat.mul_comm]
      _ ≤ n := Nat.log2_self_le (Nat.ne_of_gt positive)
  have high : n / 2 ^ k < 2 ^ 53 := by
    rw [Nat.div_lt_iff_lt_mul (Nat.two_pow_pos k)]
    calc n < 2 ^ (n.log2 + 1) := Nat.lt_log2_self
      _ = 2 ^ 53 * 2 ^ k := by rw [size, Nat.add_assoc, Nat.pow_add, Nat.mul_comm]
  have between := roundedQuotient_between n k
  omega

/-- The nearest number with 53 significant bits. -/
def nearest (n : Nat) : Nat := roundedQuotient n (n.log2 - 52) * 2 ^ (n.log2 - 52)

theorem nearest_of_log2_le {n : Nat} (size : n.log2 ≤ 52) : nearest n = n := by
  rw [nearest, Nat.sub_eq_zero_of_le size, roundedQuotient_zero, Nat.pow_zero, Nat.mul_one]

theorem nearest_eq_self {n : Nat} (small : n ≤ 2 ^ 53) : nearest n = n := by
  rcases Nat.lt_or_eq_of_le small with below | rfl
  · rcases Nat.eq_zero_or_pos n with rfl | positive
    · rfl
    · exact nearest_of_log2_le
        (Nat.le_of_lt_succ ((Nat.log2_lt (Nat.ne_of_gt positive)).mpr below))
  · rfl

theorem nearest_between {n : Nat} (positive : 0 < n) :
    2 ^ n.log2 ≤ nearest n ∧ nearest n ≤ 2 ^ (n.log2 + 1) := by
  rcases Nat.le_total n.log2 52 with small | large
  · rw [nearest_of_log2_le small]
    exact ⟨Nat.log2_self_le (Nat.ne_of_gt positive), Nat.le_of_lt Nat.lt_log2_self⟩
  · obtain ⟨k, size⟩ : ∃ k, n.log2 = k + 52 := ⟨n.log2 - 52, by omega⟩
    obtain ⟨low, high⟩ := roundedQuotient_mem positive size
    have cut : n.log2 - 52 = k := by omega
    unfold nearest
    rw [cut, size, Nat.add_assoc, Nat.add_comm k, Nat.add_comm k, Nat.pow_add, Nat.pow_add]
    exact ⟨Nat.mul_le_mul_right _ low, Nat.mul_le_mul_right _ high⟩

theorem nearest_mono {n m : Nat} (le : n ≤ m) : nearest n ≤ nearest m := by
  rcases Nat.eq_zero_or_pos n with rfl | positive
  · exact Nat.zero_le _
  · have sizes : n.log2 ≤ m.log2 := (Nat.le_log2 (by omega)).mpr
      (Nat.le_trans (Nat.log2_self_le (Nat.ne_of_gt positive)) le)
    rcases Nat.lt_or_eq_of_le sizes with below | same
    · -- a power of two stands between the roundings
      exact Nat.le_trans (nearest_between positive).2 (Nat.le_trans
        (Nat.pow_le_pow_right (by decide) below) (nearest_between (Nat.lt_of_lt_of_le positive le)).1)
    · unfold nearest
      rw [same]
      exact Nat.mul_le_mul_right _ (roundedQuotient_mono le _)

theorem nearest_eq_zero {n : Nat} : nearest n = 0 ↔ n = 0 := by
  constructor
  · intro zero
    rcases Nat.eq_zero_or_pos n with rfl | positive
    · rfl
    · have := (nearest_between positive).1
      have := Nat.two_pow_pos n.log2
      omega
  · rintro rfl
    rfl

def nearestInt : Int → Int
  | .ofNat n => nearest n
  | .negSucc n => -nearest (n + 1)

theorem nearestInt_neg (a : Int) : nearestInt (-a) = -nearestInt a := by
  match a with
  | .ofNat 0 => rfl
  | .ofNat (n + 1) => rfl
  | .negSucc n => exact (Int.neg_neg _).symm

theorem nearestInt_mono {a b : Int} (le : a ≤ b) : nearestInt a ≤ nearestInt b := by
  cases a with
  | ofNat n =>
    cases b with
    | ofNat m => exact Int.ofNat_le.mpr (nearest_mono (Int.ofNat_le.mp le))
    | negSucc m =>
      exact absurd (Int.negSucc_lt_zero m) (Int.not_lt.mpr (Int.le_trans (Int.natCast_nonneg n) le))
  | negSucc n =>
    cases b with
    | ofNat m =>
      exact Int.le_trans (Int.neg_nonpos_of_nonneg (Int.natCast_nonneg _)) (Int.natCast_nonneg _)
    | negSucc m => exact Int.neg_le_neg (Int.ofNat_le.mpr (nearest_mono (by omega)))

theorem nearestInt_eq_self {a : Int} (small : a.natAbs ≤ 2 ^ 53) : nearestInt a = a := by
  cases a with
  | ofNat n => exact congrArg Int.ofNat (nearest_eq_self small)
  | negSucc n => exact congrArg (fun m : Nat => -(m : Int)) (nearest_eq_self small)

theorem nearestInt_eq_zero {a : Int} : nearestInt a = 0 ↔ a = 0 := by
  cases a with
  | ofNat n => exact (Int.ofNat_inj.trans nearest_eq_zero).trans Int.ofNat_inj.symm
  | negSucc n =>
    have positive : nearest (n + 1) ≠ 0 := fun zero => Nat.succ_ne_zero n (nearest_eq_zero.mp zero)
    show -(nearest (n + 1) : Int) = 0 ↔ _
    omega

/-- The mantissa is the quotient by `2 ^ k`; the bits tell whether the rest reaches a half and whether it
differs from both none and a half. -/
structure Tracks (em : ExtendedMantissa) (n k : Nat) : Prop where
  mantissa : em.mantissa = n / 2 ^ k
  roundBit : em.roundBit = true ↔ 2 ^ k ≤ 2 * (n % 2 ^ k)
  stickyBit : em.stickyBit = true ↔ 2 * (n % 2 ^ k) ≠ 0 ∧ 2 * (n % 2 ^ k) ≠ 2 ^ k

theorem Tracks.start (n : Nat) : Tracks ⟨n, false, false⟩ n 0 := by
  constructor <;> simp [Nat.mod_one]

theorem Tracks.shiftRightOne {em : ExtendedMantissa} {n k : Nat} (h : Tracks em n k) :
    Tracks em.shiftRightOne n (k + 1) := by
  have positive : 0 < 2 ^ k := Nat.two_pow_pos k
  have small : n % 2 ^ k < 2 ^ k := Nat.mod_lt n positive
  have rest : n % 2 ^ (k + 1) = 2 ^ k * (n / 2 ^ k % 2) + n % 2 ^ k := by
    rw [Nat.pow_succ, Nat.mod_mul, Nat.add_comm]
  have power : 2 ^ (k + 1) = 2 * 2 ^ k := by rw [Nat.pow_succ, Nat.mul_comm]
  have bit : n / 2 ^ k % 2 = 0 ∨ n / 2 ^ k % 2 = 1 := by omega
  constructor
  · show em.mantissa / 2 = _
    rw [h.mantissa, Nat.div_div_eq_div_mul, Nat.pow_succ]
  · show (em.mantissa % 2 != 0) = true ↔ _
    rw [h.mantissa, rest, power, bne_iff_ne]
    rcases bit with bit | bit <;> rw [bit] <;> omega
  · show (em.roundBit || em.stickyBit) = true ↔ _
    rw [Bool.or_eq_true, h.roundBit, h.stickyBit, rest, power]
    rcases bit with bit | bit <;> rw [bit] <;> omega

theorem Tracks.shiftRight (n k : Nat) :
    Tracks (ExtendedMantissa.ofMantissaAndAccuracy n .exact >>> k) n k := by
  induction k with
  | zero => exact .start n
  | succ k ih => exact ih.shiftRightOne

theorem Tracks.rounded {em : ExtendedMantissa} {n k : Nat} (h : Tracks em n k) :
    em.roundedMantissa = roundedQuotient n k := by
  obtain ⟨mantissa, roundBit, stickyBit⟩ := em
  obtain ⟨rfl, round, sticky⟩ := h
  dsimp only at round sticky
  have positive : 0 < 2 ^ k := Nat.two_pow_pos k
  unfold roundedQuotient
  cases roundBit with
  | false =>
    have below : 2 * (n % 2 ^ k) < 2 ^ k :=
      Nat.lt_of_not_le fun above => Bool.false_ne_true (round.mpr above)
    rw [if_pos below]
    cases stickyBit <;> rfl
  | true =>
    have above : 2 ^ k ≤ 2 * (n % 2 ^ k) := round.mp rfl
    rw [if_neg (Nat.not_lt.mpr above)]
    cases stickyBit with
    | false =>
      have half : 2 * (n % 2 ^ k) = 2 ^ k :=
        Decidable.byContradiction fun other => Bool.false_ne_true (sticky.mpr ⟨by omega, other⟩)
      rw [if_pos half]
      rfl
    | true =>
      rw [if_neg (sticky.mp rfl).2]
      rfl

theorem targetExponent_eq (n : Int) : Format.binary64.targetExponent n = max (n - 53) (-1074) := rfl

theorem shiftToTargetExponent_eq (n k : Nat) (e : Int) (size : n.log2 = k + 52) (normal : -1074 ≤ e) :
    shiftToTargetExponent .binary64 n e .exact =
      (ExtendedMantissa.ofMantissaAndAccuracy n .exact >>> k, e + k) := by
  have amount : (Format.binary64.targetExponent (totalExponent n e) - e).toNat = k := by
    rw [targetExponent_eq, totalExponent, size]
    omega
  rw [shiftToTargetExponent, shiftToExponent, amount]

/-- Rounding an exact value keeps 53 bits of it, or half the power of two it carries to. -/
theorem roundWithAccuracy_eq (s : Sign) {n k : Nat} (positive : 0 < n) (size : n.log2 = k + 52) {e : Int}
    (normal : -1074 ≤ e) : ∃ m e' h, roundWithAccuracy .binary64 s n e .exact = .finite s m e' h ∧
      2 ^ 52 ≤ m ∧ m < 2 ^ 53 ∧ (e' = e + k ∧ m = roundedQuotient n k ∨
        e' = e + k + 1 ∧ m * 2 = roundedQuotient n k) := by
  obtain ⟨low, high⟩ := roundedQuotient_mem positive size
  unfold roundWithAccuracy
  rw [shiftToTargetExponent_eq n k e size normal]
  dsimp only
  rw [(Tracks.shiftRight n k).rounded]
  generalize roundedQuotient n k = q at *
  rcases Nat.lt_or_eq_of_le high with small | rfl
  · have log : q.log2 = 0 + 52 := log2_eq low small
    have whole : (ExtendedMantissa.ofMantissaAndAccuracy q .exact >>> 0).mantissa = q := rfl
    rw [shiftToTargetExponent_eq q 0 _ log (by omega)]
    dsimp only
    rw [dif_neg (by omega)]
    exact ⟨q, _, by omega, rfl, low, small, .inl ⟨by omega, rfl⟩⟩
  · have log : (2 ^ 53 : Nat).log2 = 1 + 52 := Nat.log2_two_pow
    have half : (ExtendedMantissa.ofMantissaAndAccuracy (2 ^ 53) .exact >>> 1).mantissa = 2 ^ 52 := rfl
    rw [shiftToTargetExponent_eq (2 ^ 53) 1 _ log (by omega)]
    dsimp only
    rw [dif_neg (by rw [half]; decide)]
    exact ⟨2 ^ 52, _, by decide, rfl, by decide, by decide, .inr ⟨rfl, by decide⟩⟩

/-- A zero, or a normal number whose value is the integer. -/
inductive Shows : UnpackedFloat → Int → Prop where
  | zero (s : Sign) : Shows (.zero s) 0
  | finite {m j n : Nat} {e : Int} (s : Sign) (positive : 0 < m) (low : 2 ^ 52 ≤ m) (high : m < 2 ^ 53)
      (exponent : e = j - 52) (bounded : j ≤ 1023) (value : m * 2 ^ j = n * 2 ^ 52) :
      Shows (.finite s m e positive) (s.apply n)

theorem Shows.neg {u : UnpackedFloat} {v : Int} (h : Shows u v) : Shows u.neg (-v) := by
  cases h with
  | zero s => exact .zero _
  | finite s positive low high exponent bounded value =>
    have flipped (n : Int) : -s.apply n = (-s).apply n := by
      cases s
      · exact Int.neg_neg n
      · rfl
    rw [flipped]
    exact .finite _ positive low high exponent bounded value

theorem roundedQuotient_eq_nearest {n j k : Nat} (size : n.log2 + j = k + 52) :
    roundedQuotient (n * 2 ^ j) k * 2 ^ n.log2 = nearest n * 2 ^ 52 := by
  rcases Nat.le_total 52 n.log2 with large | small
  · have shift : k = (n.log2 - 52) + j := by omega
    rw [nearest, shift, roundedQuotient_scaled, Nat.mul_assoc, ← Nat.pow_add, Nat.sub_add_cancel large]
  · have width : j = (52 - n.log2) + k := by omega
    have quotient : roundedQuotient (n * 2 ^ (52 - n.log2) * 2 ^ k) (0 + k) = n * 2 ^ (52 - n.log2) := by
      rw [roundedQuotient_scaled, roundedQuotient_zero]
    rw [Nat.zero_add, Nat.mul_assoc, ← Nat.pow_add, ← width] at quotient
    rw [quotient, nearest_of_log2_le small, Nat.mul_assoc, ← Nat.pow_add, Nat.sub_add_cancel small]

theorem shows_roundWithAccuracy (s : Sign) {n j : Nat} (positive : 0 < n) (wide : 52 ≤ n.log2 + j)
    (narrow : n.log2 ≤ 1022) (normal : j ≤ 1074) :
    Shows (roundWithAccuracy .binary64 s (n * 2 ^ j) (-j) .exact) (s.apply (nearest n)) := by
  obtain ⟨k, size⟩ : ∃ k, n.log2 + j = k + 52 := ⟨n.log2 + j - 52, by omega⟩
  have scaled := roundedQuotient_eq_nearest size
  obtain ⟨m, e, h, eq, low, high, exact | carried⟩ := roundWithAccuracy_eq s
    (Nat.mul_pos positive (Nat.two_pow_pos j)) ((log2_scaled positive j).trans size) (e := -j) (by omega)
  · rw [eq]
    refine .finite (j := n.log2) s h low high (by omega) (by omega) ?_
    rw [exact.2, scaled]
  · rw [eq]
    refine .finite (j := n.log2 + 1) s h low high (by omega) (by omega) ?_
    rw [← scaled, ← carried.2, Nat.pow_succ, Nat.mul_assoc, Nat.mul_comm 2]

theorem shows_ofNat {n : Nat} (narrow : n.log2 ≤ 1022) :
    Shows (UnpackedFloat.ofNat .binary64 n) (nearest n) := by
  rcases Nat.eq_zero_or_pos n with rfl | positive
  · exact .zero .positive
  · have greater : compare (n : Int) 0 = .gt := Int.compare_eq_gt.mpr (by omega)
    have amount : (0 - Format.binary64.targetExponent (totalExponent n 0)).toNat = 52 - n.log2 := by
      rw [targetExponent_eq, totalExponent]
      omega
    unfold UnpackedFloat.ofNat UnpackedFloat.ofInt UnpackedFloat.normalize
    rw [greater]
    dsimp only
    unfold UnpackedFloat.round decreaseExponent
    dsimp only
    rw [Int.toNat_natCast, amount, Nat.shiftLeft_eq, Int.zero_sub]
    exact shows_roundWithAccuracy .positive positive (by omega) narrow (by omega)

theorem shows_ofScientific {n : Nat} (positive : 0 < n) (narrow : n.log2 ≤ 1022) :
    Shows (UnpackedFloat.ofScientific .binary64 n 0) (nearest n) := by
  have wide : UnpackedFloat.ofScientific .binary64 n 0 =
      roundWithAccuracy .binary64 .positive (n * 2 ^ 53) (-53) .exact := by
    unfold UnpackedFloat.ofScientific
    rw [dif_neg (Nat.ne_of_gt positive), if_neg (by decide),
      if_neg (show ¬(0 : Int) < -(2 ^ 11 + n.log2) by omega), if_pos (by decide)]
    show roundWithAccuracy .binary64 .positive (n <<< 53 * 1) (-53) .exact = _
    rw [Nat.mul_one, Nat.shiftLeft_eq]
  rw [wide]
  exact shows_roundWithAccuracy .positive positive (by omega) narrow (by decide)

theorem unpackSign_packComponents {spec : Format} {sign exponent mantissa} :
    unpackSign (packComponents spec sign exponent mantissa) = sign.toBitVec := by
  show BitVec.cast _ (BitVec.extractLsb _ _ (sign.toBitVec ++ exponent ++ mantissa)) = _
  ext i bound
  obtain rfl : i = 0 := by omega
  simp [BitVec.getLsbD_append, BitVec.getElem_append]

theorem ofBitVec_toBitVec (s : Sign) : Sign.ofBitVec s.toBitVec = s := by
  cases s <;> rfl

theorem ofNat_ne {w field : Nat} (bound : field < 2 ^ w) {b : BitVec w} (differ : field ≠ b.toNat) :
    BitVec.ofNat w field ≠ b := by
  rintro rfl
  rw [BitVec.toNat_ofNat, Nat.mod_eq_of_lt bound] at differ
  exact differ rfl

theorem finite_congr {s s' : Sign} {m m' : Nat} {e e' : Int} {h : 0 < m} {h' : 0 < m'} (sign : s = s')
    (mantissa : m = m') (exponent : e = e') :
    UnpackedFloat.finite s m e h = UnpackedFloat.finite s' m' e' h' := by
  subst sign mantissa exponent
  rfl

theorem unpack_normal {b : BitVec Format.binary64.numBits} (finite : unpackExponent b ≠ -1#_)
    (normal : unpackExponent b ≠ 0#_) (positive : 0 < (1#1 ++ unpackMantissa b).toNat) :
    UnpackedFloat.unpack .binary64 b = .finite (Sign.ofBitVec (unpackSign b))
      (1#1 ++ unpackMantissa b).toNat ((unpackExponent b).toNat - (1023 + 52)) positive :=
  (if_neg finite).trans (if_neg normal)

theorem hidden_append {m : Nat} (low : 2 ^ 52 ≤ m) (high : m < 2 ^ 53) :
    (1#1 ++ BitVec.ofNat 52 m).toNat = m := by
  rw [BitVec.toNat_append, ← Nat.shiftLeft_add_eq_or_of_lt (BitVec.isLt _), BitVec.toNat_ofNat,
    BitVec.toNat_ofNat, Nat.shiftLeft_eq]
  omega

theorem unpack_pack_finite (s : Sign) {m : Nat} {e : Int} (positive : 0 < m) (low : 2 ^ 52 ≤ m)
    (high : m < 2 ^ 53) (above : -1074 ≤ e) (below : e ≤ 971) :
    UnpackedFloat.unpack .binary64 (UnpackedFloat.pack .binary64 (.finite s m e positive)) =
      .finite s m e positive := by
  obtain ⟨field, rfl⟩ : ∃ field : Nat, e = field - 1075 := ⟨(e + 1075).toNat, by omega⟩
  have biased : ((field - 1075 : Int) + Format.binary64.exponentBias +
      Format.binary64.mantissaBitsWithoutImplicit).toNat = field := by
    change ((field - 1075 : Int) + 1023 + 52).toNat = field
    omega
  have packed : UnpackedFloat.pack .binary64 (.finite s m (field - 1075) positive) =
      packComponents .binary64 s (BitVec.ofNat 11 field) (BitVec.ofNat 52 m) := by
    unfold UnpackedFloat.pack
    dsimp only
    rw [biased, log2_eq low high, if_neg (show ¬2 ^ 11 ≤ field + 1 by omega)]
    exact if_pos rfl
  have finite : BitVec.ofNat 11 field ≠ -1#11 :=
    ofNat_ne (by omega) (show field ≠ 2047 by omega)
  have normal : BitVec.ofNat 11 field ≠ 0#11 := ofNat_ne (by omega) (show field ≠ 0 by omega)
  have mantissa : (1#1 ++ unpackMantissa
      (packComponents .binary64 s (BitVec.ofNat 11 field) (BitVec.ofNat 52 m))).toNat = m := by
    rw [unpackMantissa_packComponents]
    exact hidden_append low high
  rw [packed, unpack_normal (by rwa [unpackExponent_packComponents])
    (by rwa [unpackExponent_packComponents]) (by rwa [mantissa])]
  refine finite_congr ?_ mantissa ?_
  · rw [unpackSign_packComponents, ofBitVec_toBitVec]
  · rw [unpackExponent_packComponents]
    change ((BitVec.ofNat 11 field).toNat : Int) - (1023 + 52) = field - 1075
    rw [BitVec.toNat_ofNat]
    omega

theorem Shows.unpack_pack {u : UnpackedFloat} {v : Int} (h : Shows u v) :
    (Float.Model.pack u).unpack = u := by
  cases h with
  | zero s => cases s <;> rfl
  | finite s positive low high exponent bounded value =>
    exact unpack_pack_finite s positive low high (by omega) (by omega)

theorem Shows.mul_one {u : UnpackedFloat} {v : Int} (h : Shows u v) :
    UnpackedFloat.mul .binary64 u (.finite .positive (2 ^ 52) (-52) (by decide)) = u := by
  have unit (s : Sign) : s * .positive = s := by cases s <;> rfl
  cases h with
  | zero s => exact congrArg UnpackedFloat.zero (unit s)
  | @finite m j n e s positive low high exponent bounded value =>
    have size : (m * 2 ^ 52).log2 = 52 + 52 := by rw [log2_scaled positive, log2_eq low high]
    have whole : roundedQuotient (m * 2 ^ 52) 52 = m := by
      have scaled := roundedQuotient_scaled m 0 52
      rwa [Nat.zero_add, roundedQuotient_zero] at scaled
    show roundWithAccuracy .binary64 (s * .positive) (m * 2 ^ 52) (e + -52) .exact = _
    obtain ⟨m', e', h, eq, low', high', exact | carried⟩ := roundWithAccuracy_eq (s * .positive)
      (Nat.mul_pos positive (by decide)) size (e := e + -52) (by omega)
    · rw [whole] at exact
      rw [eq]
      exact finite_congr (unit s) exact.2 (by omega)
    · omega

theorem log2_le_of_word {n : Nat} (word : n < 2 ^ 64) : n.log2 ≤ 1022 := by
  rcases Nat.eq_zero_or_pos n with rfl | positive
  · decide
  · have := (Nat.log2_lt (Nat.ne_of_gt positive)).mpr word
    omega

theorem shows_floatOfNat {n : Nat} (word : n < 2 ^ 64) :
    Shows (Float.ofNat n).toModel.unpack (nearest n) := by
  have narrow := log2_le_of_word word
  show Shows (Float.ofScientific n false 0).toModel.unpack _
  unfold Float.ofScientific
  rcases Nat.lt_or_ge n (2 ^ 53) with small | large
  · -- a short numeral is converted and then multiplied by the zeroth power of ten
    have converted : Shows (UnpackedFloat.ofUInt64 .binary64 n.toUInt64) (nearest n) := by
      show Shows (UnpackedFloat.ofNat .binary64 (n % 2 ^ 64)) _
      rw [Nat.mod_eq_of_lt word]
      exact shows_ofNat narrow
    have one : (Float.ofBits 0x3FF0000000000000).toModel.unpack =
        .finite .positive (2 ^ 52) (-52) (by decide) := by rfl
    rw [dif_pos ⟨small, by decide⟩]
    show Shows (Float.Model.pack (UnpackedFloat.mul .binary64 (Float.Model.pack _).unpack
      (Float.ofBits 0x3FF0000000000000).toModel.unpack)).unpack _
    rw [converted.unpack_pack, one, converted.mul_one, converted.unpack_pack]
    exact converted
  · have converted := shows_ofScientific (n := n) (by omega) narrow
    rw [dif_neg (by omega)]
    show Shows (Float.Model.pack (UnpackedFloat.ofScientific .binary64 n 0)).unpack _
    rw [converted.unpack_pack]
    exact converted

theorem shows_ofInt {n : Int} (word : n.natAbs < 2 ^ 64) :
    Shows (Float.ofInt n).toModel.unpack (nearestInt n) := by
  cases n with
  | ofNat n => exact shows_floatOfNat word
  | negSucc n =>
    have flipped := (shows_floatOfNat (n := n + 1) word).neg
    show Shows (Float.Model.pack (Float.ofNat (n + 1)).toModel.unpack.neg).unpack _
    rw [flipped.unpack_pack]
    exact flipped

theorem shows_word (n : Int64) : Shows (Float.ofInt n.toInt).toModel.unpack (nearestInt n.toInt) := by
  have low := n.le_toInt
  have high := n.toInt_lt
  exact shows_ofInt (by omega)

theorem magnitude_lt {m₁ m₂ j₁ j₂ : Nat} (high : m₁ < 2 ^ 53) (low : 2 ^ 52 ≤ m₂) (below : j₁ < j₂) :
    m₁ * 2 ^ j₁ < m₂ * 2 ^ j₂ :=
  calc m₁ * 2 ^ j₁ < 2 ^ 53 * 2 ^ j₁ := (Nat.mul_lt_mul_right (Nat.two_pow_pos j₁)).mpr high
    _ = 2 ^ 52 * 2 ^ (j₁ + 1) := by rw [Nat.pow_succ]; omega
    _ ≤ 2 ^ 52 * 2 ^ j₂ := Nat.mul_le_mul_left _ (Nat.pow_le_pow_right (by decide) below)
    _ ≤ m₂ * 2 ^ j₂ := Nat.mul_le_mul_right _ low

theorem compare_magnitudes {m₁ m₂ j₁ j₂ n₁ n₂ : Nat} (low₁ : 2 ^ 52 ≤ m₁) (high₁ : m₁ < 2 ^ 53)
    (low₂ : 2 ^ 52 ≤ m₂) (high₂ : m₂ < 2 ^ 53) (value₁ : m₁ * 2 ^ j₁ = n₁ * 2 ^ 52)
    (value₂ : m₂ * 2 ^ j₂ = n₂ * 2 ^ 52) :
    (compare (j₁ - 52 : Int) (j₂ - 52)).then (compare m₁ m₂) = compare (n₁ : Int) n₂ := by
  rcases Nat.lt_trichotomy j₁ j₂ with below | rfl | above
  · have less := magnitude_lt high₁ low₂ below
    rw [Int.compare_eq_lt.mpr (by omega), Int.compare_eq_lt.mpr (by omega)]
    rfl
  · have positive := Nat.two_pow_pos j₁
    have less : m₁ < m₂ ↔ (n₁ : Int) < n₂ := by
      rw [← Nat.mul_lt_mul_right positive, value₁, value₂]
      omega
    have equal : m₁ = m₂ ↔ (n₁ : Int) = n₂ := by
      rw [← Nat.mul_left_inj (Nat.ne_of_gt positive), value₁, value₂]
      omega
    have level : compare (j₁ - 52 : Int) (j₁ - 52) = .eq := Int.compare_eq_eq.mpr rfl
    rw [level, Ordering.eq_then]
    simp only [compare, compareOfLessAndEq, less, equal]
  · have greater := magnitude_lt high₂ low₁ above
    rw [Int.compare_eq_gt.mpr (by omega), Int.compare_eq_gt.mpr (by omega)]
    rfl

theorem compare_neg (a b : Int) : compare (-a) (-b) = (compare a b).swap := by
  rw [Int.compare_swap]
  simp only [compare, compareOfLessAndEq, Int.neg_lt_neg_iff, Int.neg_inj, eq_comm]

theorem compare_of_shows {u v : UnpackedFloat} {a b : Int} (hu : Shows u a) (hv : Shows v b) :
    u.compare v = some (compare a b) := by
  have nonzero {m j n : Nat} (positive : 0 < m) (value : m * 2 ^ j = n * 2 ^ 52) : 0 < (n : Int) := by
    have := Nat.mul_pos positive (Nat.two_pow_pos j)
    omega
  cases hu with
  | zero s₁ =>
    cases hv with
    | zero s₂ => rfl
    | finite s₂ positive₂ _ _ _ _ value₂ =>
      have above := nonzero positive₂ value₂
      cases s₂ with
      | positive => exact congrArg some (Int.compare_eq_lt.mpr above).symm
      | negative => exact congrArg some (Int.compare_eq_gt.mpr (Int.neg_neg_of_pos above)).symm
  | finite s₁ positive₁ low₁ high₁ exponent₁ _ value₁ =>
    have above₁ := nonzero positive₁ value₁
    cases hv with
    | zero s₂ =>
      cases s₁ with
      | positive => exact congrArg some (Int.compare_eq_gt.mpr above₁).symm
      | negative => exact congrArg some (Int.compare_eq_lt.mpr (Int.neg_neg_of_pos above₁)).symm
    | finite s₂ positive₂ low₂ high₂ exponent₂ _ value₂ =>
      have above₂ := nonzero positive₂ value₂
      have magnitudes := compare_magnitudes low₁ high₁ low₂ high₂ value₁ value₂
      subst exponent₁ exponent₂
      cases s₁ with
      | positive =>
        cases s₂ with
        | positive => exact congrArg some magnitudes
        | negative =>
          have below := Int.lt_trans (Int.neg_neg_of_pos above₂) above₁
          exact congrArg some (Int.compare_eq_gt.mpr below).symm
      | negative =>
        cases s₂ with
        | positive =>
          have below := Int.lt_trans (Int.neg_neg_of_pos above₁) above₂
          exact congrArg some (Int.compare_eq_lt.mpr below).symm
        | negative =>
          refine congrArg some ?_
          rw [magnitudes]
          exact (compare_neg _ _).symm

theorem ofInt_lt_iff (a b : Int64) :
    Float.ofInt a.toInt < Float.ofInt b.toInt ↔ nearestInt a.toInt < nearestInt b.toInt := by
  show decide ((Float.ofInt a.toInt).toModel < (Float.ofInt b.toInt).toModel) = true ↔ _
  rw [decide_eq_true_iff]
  show ((Float.ofInt a.toInt).toModel.unpack.compare _ == some .lt) = true ↔ _
  rw [compare_of_shows (shows_word a) (shows_word b), beq_iff_eq, Option.some_inj, Int.compare_eq_lt]

theorem ofInt_beq_zero_iff (a : Int64) : (Float.ofInt a.toInt == 0) = true ↔ a = 0 := by
  have zero : Shows (0 : Float).toModel.unpack 0 := shows_word 0
  show ((Float.ofInt a.toInt).toModel.unpack.compare _ == some .eq) = true ↔ _
  rw [compare_of_shows (shows_word a) zero, beq_iff_eq, Option.some_inj, Int.compare_eq_eq,
    nearestInt_eq_zero]
  exact ⟨fun eq => Int64.toInt_inj.mp eq, fun eq => congrArg Int64.toInt eq⟩

end GcodePrep.Binary64
