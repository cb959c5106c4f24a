import GcodePrep.Expr.Operation
import GcodePrep.Proofs.WordRounding

set_option autoImplicit false

/-!
# Integer operators

On two words the operators compute with the integers themselves. A result that fits 64 bits is the exact
one, and one that does not fit is a binary64 number instead of a wrapped word. Only a division by zero
fails.
-/

namespace GcodePrep

def FitsWord (n : Int) : Prop := minInteger ≤ n ∧ n ≤ maxInteger

instance (n : Int) : Decidable (FitsWord n) := inferInstanceAs (Decidable (_ ∧ _))

theorem fitsWord_toInt (a : Int64) : FitsWord a.toInt := by
  have low := a.le_toInt
  have high := a.toInt_lt
  unfold FitsWord minInteger maxInteger
  omega

theorem int64?_of_fits {n : Int} (fits : FitsWord n) : ∃ w, int64? n = some w ∧ w.toInt = n := by
  have known : int64? n = some (Int64.ofInt n) := if_pos fits
  exact ⟨_, known, toInt_of_int64?_eq_some known⟩

theorem int64?_of_not_fits {n : Int} (wide : ¬FitsWord n) : int64? n = none := if_neg wide

theorem fitsWord_tdiv_iff {a b : Int} (word : FitsWord a) (nonzero : b ≠ 0) :
    FitsWord (a.tdiv b) ↔ ¬(a = minInteger ∧ b = -1) := by
  constructor
  · rintro fits ⟨rfl, rfl⟩
    revert fits
    decide
  · intro ordinary
    rcases Decidable.em (b.natAbs = 1) with unit | more
    · rcases (show b = 1 ∨ b = -1 by omega) with rfl | rfl
      · rw [Int.tdiv_one]
        exact word
      · rw [Int.tdiv_neg, Int.tdiv_one]
        unfold FitsWord minInteger maxInteger at *
        omega
    · have magnitude : (a.tdiv b).natAbs = a.natAbs / b.natAbs := Int.natAbs_tdiv a b
      have halved : a.natAbs / b.natAbs ≤ a.natAbs / 2 := Nat.div_le_div_left (by omega) (by decide)
      unfold FitsWord minInteger maxInteger at *
      omega

theorem tmod_side (a b : Int) : (0 ≤ a → 0 ≤ a.tmod b) ∧ (a ≤ 0 → a.tmod b ≤ 0) := by
  refine ⟨Int.tmod_nonneg b, fun below => ?_⟩
  have flipped : 0 ≤ (-a).tmod b := Int.tmod_nonneg b (by omega)
  rw [Int.neg_tmod] at flipped
  omega

theorem fitsWord_tmod {a : Int} (word : FitsWord a) (b : Int) : FitsWord (a.tmod b) := by
  have magnitude : (a.tmod b).natAbs = a.natAbs % b.natAbs := Int.natAbs_tmod a b
  have shrinks : a.natAbs % b.natAbs ≤ a.natAbs := Nat.mod_le _ _
  have side := tmod_side a b
  unfold FitsWord minInteger maxInteger at *
  omega

theorem sign_tmod (a b : Int) : a.tmod b = 0 ∨ (a.tmod b).sign = a.sign := by
  have side := tmod_side a b
  rcases Int.lt_trichotomy (a.tmod b) 0 with negative | zero | positive
  · right
    rw [Int.sign_eq_neg_one_of_neg negative, Int.sign_eq_neg_one_of_neg (by omega)]
  · exact .inl zero
  · right
    rw [Int.sign_eq_one_of_pos positive, Int.sign_eq_one_of_pos (by omega)]

/-- The outcome is the integer where it fits a word, and the given number otherwise. -/
structure YieldsExactly (outcome : Except Fault Value) (n : Int) (rounded : Float) : Prop where
  word : FitsWord n → ∃ w, outcome = .ok (.int w) ∧ w.toInt = n
  number : ¬FitsWord n → outcome = .ok (.float rounded)

theorem yieldsExactly_int64? (n : Int) (rounded : Float) :
    YieldsExactly (.ok (((int64? n).map Value.int).getD (.float rounded))) n rounded := by
  constructor
  · intro fits
    obtain ⟨w, eq, value⟩ := int64?_of_fits fits
    exact ⟨w, by rw [eq]; rfl, value⟩
  · intro wide
    rw [int64?_of_not_fits wide]
    rfl

namespace BinaryOp

theorem arithmetic_exact (exact : Int → Int → Int) (rounded : Float → Float → Float) (a b : Int64)
    (offset : Nat) : YieldsExactly (arithmetic exact rounded (.int a) (.int b) offset)
      (exact a.toInt b.toInt) (rounded (Float.ofInt a.toInt) (Float.ofInt b.toInt)) := by
  have outcome : arithmetic exact rounded (.int a) (.int b) offset =
      .ok (((int64? (exact a.toInt b.toInt)).map Value.int).getD
        (.float (rounded (Float.ofInt a.toInt) (Float.ofInt b.toInt)))) := by
    unfold arithmetic
    dsimp only
    cases int64? (exact a.toInt b.toInt) <;> rfl
  rw [outcome]
  exact yieldsExactly_int64? _ _

theorem division_words (byZero : Fault.Cause) (whole? : Int64 → Int64 → Option Int64)
    (rounded : Float → Float → Float) (a b : Int64) (offset : Nat) :
    division byZero whole? rounded (.int a) (.int b) offset =
      if b = 0 then .error (.atOffset byZero offset)
      else .ok (((whole? a b).map Value.int).getD
        (.float (rounded (Float.ofInt a.toInt) (Float.ofInt b.toInt)))) := by
  show (if (Float.ofInt b.toInt == 0) = true then _ else _) = _
  simp only [Binary64.ofInt_beq_zero_iff]

theorem division_fails_iff (byZero : Fault.Cause) (whole? : Int64 → Int64 → Option Int64)
    (rounded : Float → Float → Float) (a b : Int64) (offset : Nat) (fault : Fault) :
    division byZero whole? rounded (.int a) (.int b) offset = .error fault ↔
      b = 0 ∧ fault = .atOffset byZero offset := by
  rw [division_words]
  rcases Decidable.em (b = 0) with zero | nonzero
  · simp [zero, eq_comm]
  · simp [nonzero]

theorem exactQuotient?_eq (a b : Int64) : exactQuotient? a b =
    if b.toInt ∣ a.toInt then int64? (a.toInt / b.toInt) else none := by
  unfold exactQuotient?
  simp only [← Int.dvd_iff_tmod_eq_zero]
  rcases Decidable.em (b.toInt ∣ a.toInt) with divides | leaves
  · rw [if_pos divides, if_pos divides, Int.tdiv_eq_ediv_of_dvd divides]
  · rw [if_neg leaves, if_neg leaves]

theorem division_quotient {a b : Int64} (nonzero : b ≠ 0) (offset : Nat) :
    (b.toInt ∣ a.toInt ∧ FitsWord (a.toInt / b.toInt) →
      ∃ q, apply .div (.int a) (.int b) offset = .ok (.int q) ∧ q.toInt * b.toInt = a.toInt) ∧
    (¬(b.toInt ∣ a.toInt ∧ FitsWord (a.toInt / b.toInt)) →
      apply .div (.int a) (.int b) offset =
        .ok (.float (Float.ofInt a.toInt / Float.ofInt b.toInt))) := by
  have outcome := division_words .divisionByZero exactQuotient? (· / ·) a b offset
  rw [if_neg nonzero, exactQuotient?_eq] at outcome
  constructor
  · rintro ⟨divides, fits⟩
    obtain ⟨q, known, value⟩ := int64?_of_fits fits
    rw [if_pos divides, known] at outcome
    exact ⟨q, outcome, by rw [value, Int.ediv_mul_cancel divides]⟩
  · intro inexact
    rcases Decidable.em (b.toInt ∣ a.toInt) with divides | leaves
    · rw [if_pos divides, int64?_of_not_fits fun fits => inexact ⟨divides, fits⟩] at outcome
      exact outcome
    · rw [if_neg leaves] at outcome
      exact outcome

theorem exactRest?_eq_some {a b : Int64} (nonzero : b ≠ 0)
    (ordinary : ¬(a.toInt = minInteger ∧ b.toInt = -1)) :
    ∃ r, exactRest? a b = some r ∧ r.toInt = a.toInt.tmod b.toInt := by
  have divisor : b.toInt ≠ 0 := fun zero => nonzero (Int64.toInt_inj.mp zero)
  obtain ⟨q, quotient, -⟩ := int64?_of_fits
    ((fitsWord_tdiv_iff (fitsWord_toInt a) divisor).mpr ordinary)
  obtain ⟨r, rest, value⟩ := int64?_of_fits (fitsWord_tmod (fitsWord_toInt a) b.toInt)
  exact ⟨r, by rw [exactRest?, quotient, rest]; rfl, value⟩

theorem division_rest {a b : Int64} (nonzero : b ≠ 0)
    (ordinary : ¬(a.toInt = minInteger ∧ b.toInt = -1)) (offset : Nat) : ∃ r,
    apply .mod (.int a) (.int b) offset = .ok (.int r) ∧
      a.toInt = b.toInt * a.toInt.tdiv b.toInt + r.toInt ∧
      (r.toInt = 0 ∨ r.toInt.sign = a.toInt.sign) ∧ r.toInt.natAbs < b.toInt.natAbs := by
  have outcome := division_words .moduloByZero exactRest? Binary64.remainder a b offset
  obtain ⟨r, known, value⟩ := exactRest?_eq_some nonzero ordinary
  rw [if_neg nonzero, known] at outcome
  have divisor : b.toInt ≠ 0 := fun zero => nonzero (Int64.toInt_inj.mp zero)
  refine ⟨r, outcome, ?_, ?_, ?_⟩
  · rw [value, Int.mul_tdiv_add_tmod]
  · rw [value]
    exact sign_tmod _ _
  · rw [value, Int.natAbs_tmod]
    exact Nat.mod_lt _ (Int.natAbs_pos.mpr divisor)

theorem division_rest_of_extremes {a b : Int64} (least : a.toInt = minInteger) (minus : b.toInt = -1)
    (offset : Nat) : apply .mod (.int a) (.int b) offset =
      .ok (.float (Binary64.remainder (Float.ofInt a.toInt) (Float.ofInt b.toInt))) := by
  have outcome := division_words .moduloByZero exactRest? Binary64.remainder a b offset
  have nonzero : b ≠ 0 := by
    rintro rfl
    cases minus
  have wide : ¬FitsWord (a.toInt.tdiv b.toInt) := by
    rw [least, minus]
    decide
  rw [if_neg nonzero, exactRest?, int64?_of_not_fits wide] at outcome
  exact outcome

end BinaryOp

structure ExactOnWords (a b : Int64) (offset : Nat) : Prop where
  sum : YieldsExactly (BinaryOp.apply .add (.int a) (.int b) offset) (a.toInt + b.toInt)
    (Float.ofInt a.toInt + Float.ofInt b.toInt)
  difference : YieldsExactly (BinaryOp.apply .sub (.int a) (.int b) offset) (a.toInt - b.toInt)
    (Float.ofInt a.toInt - Float.ofInt b.toInt)
  product : YieldsExactly (BinaryOp.apply .mul (.int a) (.int b) offset) (a.toInt * b.toInt)
    (Float.ofInt a.toInt * Float.ofInt b.toInt)
  negation : YieldsExactly (UnaryOp.apply .minus (.int a) offset) (-a.toInt) (-Float.ofInt a.toInt)
  negation_fits : FitsWord (-a.toInt) ↔ a.toInt ≠ minInteger
  quotient_fails : ∀ fault, BinaryOp.apply .div (.int a) (.int b) offset = .error fault ↔
    b = 0 ∧ fault = .atOffset .divisionByZero offset
  rest_fails : ∀ fault, BinaryOp.apply .mod (.int a) (.int b) offset = .error fault ↔
    b = 0 ∧ fault = .atOffset .moduloByZero offset
  quotient : b ≠ 0 → b.toInt ∣ a.toInt → FitsWord (a.toInt / b.toInt) → ∃ q,
    BinaryOp.apply .div (.int a) (.int b) offset = .ok (.int q) ∧ q.toInt * b.toInt = a.toInt
  quotient_inexact : b ≠ 0 → ¬(b.toInt ∣ a.toInt ∧ FitsWord (a.toInt / b.toInt)) →
    BinaryOp.apply .div (.int a) (.int b) offset =
      .ok (.float (Float.ofInt a.toInt / Float.ofInt b.toInt))
  rest : b ≠ 0 → ¬(a.toInt = minInteger ∧ b.toInt = -1) → ∃ r,
    BinaryOp.apply .mod (.int a) (.int b) offset = .ok (.int r) ∧
      a.toInt = b.toInt * a.toInt.tdiv b.toInt + r.toInt ∧
      (r.toInt = 0 ∨ r.toInt.sign = a.toInt.sign) ∧ r.toInt.natAbs < b.toInt.natAbs
  rest_inexact : a.toInt = minInteger → b.toInt = -1 →
    BinaryOp.apply .mod (.int a) (.int b) offset =
      .ok (.float (Binary64.remainder (Float.ofInt a.toInt) (Float.ofInt b.toInt)))

theorem words_never_wrap (a b : Int64) (offset : Nat) : ExactOnWords a b offset where
  sum := BinaryOp.arithmetic_exact (· + ·) (· + ·) a b offset
  difference := BinaryOp.arithmetic_exact (· - ·) (· - ·) a b offset
  product := BinaryOp.arithmetic_exact (· * ·) (· * ·) a b offset
  negation := yieldsExactly_int64? _ _
  negation_fits := by
    have word := fitsWord_toInt a
    unfold FitsWord minInteger maxInteger at *
    omega
  quotient_fails := BinaryOp.division_fails_iff .divisionByZero _ _ a b offset
  rest_fails := BinaryOp.division_fails_iff .moduloByZero _ _ a b offset
  quotient nonzero divides fits := (BinaryOp.division_quotient nonzero offset).1 ⟨divides, fits⟩
  quotient_inexact nonzero := (BinaryOp.division_quotient nonzero offset).2
  rest nonzero ordinary := BinaryOp.division_rest nonzero ordinary offset
  rest_inexact least minus := BinaryOp.division_rest_of_extremes least minus offset

/-- The one pair of words whose quotient does not fit. -/
theorem least_word_by_minus_one :
    (∃ x, BinaryOp.apply .div (.int Int64.minValue) (.int (-1)) 0 = .ok (.float x)) ∧
    (∃ x, BinaryOp.apply .mod (.int Int64.minValue) (.int (-1)) 0 = .ok (.float x)) ∧
    (∃ x, BinaryOp.apply .mul (.int Int64.minValue) (.int (-1)) 0 = .ok (.float x)) ∧
    (∃ x, UnaryOp.apply .minus (.int Int64.minValue) 0 = .ok (.float x)) ∧
    ∃ w, BinaryOp.apply .sub (.int Int64.minValue) (.int (-1)) 0 = .ok (.int w) ∧
      w.toInt = -9223372036854775807 := by
  have exact := words_never_wrap Int64.minValue (-1) 0
  refine ⟨⟨_, exact.quotient_inexact (by decide) (by decide)⟩, ⟨_, exact.rest_inexact rfl rfl⟩,
    ⟨_, exact.product.number (by decide)⟩, ⟨_, exact.negation.number (by decide)⟩,
    exact.difference.word (by decide)⟩

end GcodePrep
