import GcodePrep.Proofs.DefinedNumbers
import GcodePrep.Proofs.ExactValues
import GcodePrep.Proofs.IntegerExtremes
import GcodePrep.Proofs.IntegerOperators

set_option autoImplicit false

/-!
# Signs of words

The negative of the least word is 2^63, which is no word. Negation gives it as a binary64 number, so that
no negation is rounded or wrapped. The function `abs` wraps instead, and agrees with a choice by the sign
for all words but the least. A negative word is written as a minus and a literal, so that the text of the
least word is read as the negative of a binary64 number; all other words come back from their texts.
-/

namespace GcodePrep

def negated (n : Int64) : Value :=
  ((int64? (-n.toInt)).map Value.int).getD (.float (-Float.ofInt n.toInt))

theorem fitsWord_neg_iff (n : Int64) : FitsWord (-n.toInt) ↔ n ≠ Int64.minValue := by
  have word := fitsWord_toInt n
  have least : n = Int64.minValue ↔ n.toInt = -9223372036854775808 := by
    rw [← Int64.toInt_inj]
    rfl
  rw [Ne, least]
  unfold FitsWord minInteger maxInteger at *
  omega

theorem negated_of_ne {n : Int64} (other : n ≠ Int64.minValue) : negated n = .int (-n) := by
  have known : int64? (-n.toInt) = some (Int64.ofInt (-n.toInt)) := if_pos ((fitsWord_neg_iff n).mpr other)
  rw [negated, known, Int64.ofInt_neg, Int64.ofInt_toInt]
  rfl

theorem toInt_neg_of_ne {n : Int64} (other : n ≠ Int64.minValue) : (-n).toInt = -n.toInt := by
  have known : int64? (-n.toInt) = some (Int64.ofInt (-n.toInt)) := if_pos ((fitsWord_neg_iff n).mpr other)
  rw [Int64.ofInt_neg, Int64.ofInt_toInt] at known
  exact toInt_of_int64?_eq_some known

theorem toInt?_negated_least : Binary64.toInt? (-Float.ofInt Int64.minValue.toInt) = some (2 ^ 63) := rfl

theorem negated_minValue : negated Int64.minValue = .float (-Float.ofInt Int64.minValue.toInt) := rfl

theorem quantity?_negated (n : Int64) : (negated n).quantity? = some (-n.toInt : ℚ) := by
  have exact : (negated n).quantity? = some ((-n.toInt : Int) : ℚ) := by
    rcases Decidable.em (n = Int64.minValue) with rfl | other
    · exact Value.quantity?_float_eq_some_iff.mpr toInt?_negated_least
    · rw [negated_of_ne other, Value.quantity?_int_eq_some_iff, toInt_neg_of_ne other]
  rwa [Int.cast_neg] at exact

namespace Token

theorem read_minus {rest : List Char} (other : rest.head? ≠ some '=') :
    read '-' rest = .ok (.mark .minus, 1) := by
  cases rest with
  | nil => rfl
  | cons c cs =>
    have unlike : c ≠ '=' := fun same => other (congrArg some same)
    have number : startsNumber ('-' :: c :: cs) = false := rfl
    have mark : Mark.read? ('-' :: c :: cs) = some (.minus, 1) := by simp [Mark.read?, unlike]
    rw [read, number, mark]
    rfl

theorem lexemesFrom_minus {rest : List Char} (other : rest.head? ≠ some '=') (offset : Nat) :
    lexemesFrom 0 offset ('-' :: rest) =
      (lexemesFrom 0 (offset + 1) rest).map (⟨.mark .minus, offset⟩ :: ·) := by
  rw [lexemesFrom, if_neg (by decide), read_minus other]
  rfl

end Token

def magnitudeByCall (name : String) : String := "abs(" ++ name ++ ")"

def magnitudeByChoice (name : String) : String := name ++ " < 0 ? -" ++ name ++ " : " ++ name

namespace Expr

theorem parse_magnitudeByCall {name : String} (h : IsName name) (depth : Nat) :
    parse (magnitudeByCall name) (depth + 2) = .ok (.call "abs" [.symbol name 4] 0) := by
  have chars : (magnitudeByCall name).toList = 'a' :: 'b' :: 's' :: '(' :: (name.toList ++ [')']) := by
    simp [magnitudeByCall]
  obtain ⟨offset, argument⟩ := Token.lexemesFrom_name h [')'] (by simp; decide) 4
  have front : Token.lexemesFrom 0 0 ('a' :: 'b' :: 's' :: '(' :: (name.toList ++ [')'])) =
      ((Token.lexemesFrom 0 4 (name.toList ++ [')'])).map (⟨.mark .openParen, 3⟩ :: ·)).map
        (⟨.word "abs", 0⟩ :: ·) := rfl
  have lexed : Token.lexemes (magnitudeByCall name) = .ok [⟨.word "abs", 0⟩, ⟨.mark .openParen, 3⟩,
      ⟨.word name, 4⟩, ⟨.mark .closeParen, offset⟩] := by
    rw [Token.lexemes, chars, front, argument]
    rfl
  unfold parse
  rw [lexed]
  cases depth <;> rfl

theorem parse_magnitudeByChoice {name : String} (h : IsName name) (depth : Nat) :
    ∃ p₁ p₂ p₃ p₄ p₅, parse (magnitudeByChoice name) (depth + 3) =
      .ok (.choice (.binary .lt (.symbol name 0) (.literal (.int 0) p₁) p₂)
        (.unary .minus (.symbol name p₃) p₄) (.symbol name p₅)) := by
  have chars : (magnitudeByChoice name).toList = name.toList ++ ' ' :: '<' :: ' ' :: '0' :: ' ' :: '?' ::
      ' ' :: '-' :: (name.toList ++ ' ' :: ':' :: ' ' :: (name.toList ++ [])) := by
    simp [magnitudeByChoice]
  obtain ⟨p, first⟩ := Token.lexemesFrom_name h (' ' :: '<' :: ' ' :: '0' :: ' ' :: '?' ::
      ' ' :: '-' :: (name.toList ++ ' ' :: ':' :: ' ' :: (name.toList ++ []))) (by simp; decide) 0
  obtain ⟨q, second⟩ := Token.lexemesFrom_name h (' ' :: ':' :: ' ' :: (name.toList ++ []))
    (by simp; decide) (p + 8)
  obtain ⟨r, third⟩ := Token.lexemesFrom_name h [] nofun (q + 3)
  have unlike : (name.toList ++ ' ' :: ':' :: ' ' :: (name.toList ++ [])).head? ≠ some '=' := by
    obtain ⟨c, cs, first, start, -⟩ := h.exists_cons
    rw [first]
    rintro ⟨⟩
    exact absurd start (by decide)
  have lexed : Token.lexemes (magnitudeByChoice name) = .ok [⟨.word name, 0⟩, ⟨.mark .less, p + 1⟩,
      ⟨.value (.int 0), p + 3⟩, ⟨.mark .question, p + 5⟩, ⟨.mark .minus, p + 7⟩, ⟨.word name, p + 8⟩,
      ⟨.mark .colon, q + 1⟩, ⟨.word name, q + 3⟩] := by
    have comparison (rest : List Char) :
        Token.lexemesFrom 0 p (' ' :: '<' :: ' ' :: '0' :: ' ' :: '?' :: ' ' :: rest) =
        (((Token.lexemesFrom 0 (p + 7) rest).map (⟨.mark .question, p + 5⟩ :: ·)).map
          (⟨.value (.int 0), p + 3⟩ :: ·)).map (⟨.mark .less, p + 1⟩ :: ·) := rfl
    have colon (rest : List Char) : Token.lexemesFrom 0 q (' ' :: ':' :: ' ' :: rest) =
        (Token.lexemesFrom 0 (q + 3) rest).map (⟨.mark .colon, q + 1⟩ :: ·) := rfl
    rw [Token.lexemes, chars, first, comparison, Token.lexemesFrom_minus unlike, second, colon, third]
    rfl
  refine ⟨p + 3, p + 1, p + 8, p + 7, q + 3, ?_⟩
  unfold parse
  rw [lexed]
  cases depth <;> rfl

theorem stands_symbol {b : Bindings} {name : String} {v : Value} (bound : b.get? name = some v)
    (offset : Nat) : (symbol name offset).Stands b v := by
  rw [Stands, eval, Eval.on_lookup, bound]

theorem stands_minus {e : Expr} {b : Bindings} {n : Int64} (h : e.Stands b (.int n)) (offset : Nat) :
    (unary .minus e offset).Stands b (negated n) := by
  unfold Stands at *
  rw [eval, Eval.on_bind, h]
  exact Eval.on_liftExcept _ _

theorem stands_call {e : Expr} {b : Bindings} {v w : Value} {name : String} {offset : Nat}
    (h : e.Stands b v) (called : Function.call name [v] offset = .ok w) :
    (call name [e] offset).Stands b w := by
  unfold Stands at *
  simp only [eval, evalAll, Eval.on_bind, h]
  exact (Eval.on_liftExcept _ _).trans (congrArg (·, b) called)

end Expr

namespace Environment

variable {env : Environment} {name : String} {n : Int64}

theorem run_of_stands {src : String} {depth : Nat} {e : Expr} {v : Value}
    (parsed : Expr.parse src depth = .ok e) (h : e.Stands env.bindings v) :
    env.run (Expr.evaluate src depth) = (.ok v, env) := by
  unfold Expr.Stands at h
  rw [Expr.evaluate, parsed, run_eq, h]

theorem eval_magnitudeByCall (h : IsName name) (room : 2 ≤ env.maxDepth)
    (bound : env.get? name = some (.int n)) :
    env.eval (magnitudeByCall name) = (.ok (.int (Function.absInt n)), env) := by
  obtain ⟨depth, eq⟩ : ∃ d, env.maxDepth = d + 2 := ⟨env.maxDepth - 2, by omega⟩
  have parsed := Expr.parse_magnitudeByCall h depth
  rw [← eq] at parsed
  exact run_of_stands parsed (Expr.stands_call (Expr.stands_symbol bound 4) rfl)

theorem eval_magnitudeByChoice (h : IsName name) (room : 3 ≤ env.maxDepth)
    (bound : env.get? name = some (.int n)) :
    env.eval (magnitudeByChoice name) = (.ok (if n.toInt < 0 then negated n else .int n), env) := by
  obtain ⟨depth, eq⟩ : ∃ d, env.maxDepth = d + 3 := ⟨env.maxDepth - 3, by omega⟩
  obtain ⟨p₁, p₂, p₃, p₄, p₅, parsed⟩ := Expr.parse_magnitudeByChoice h depth
  rw [← eq] at parsed
  have symbol := Expr.stands_symbol bound
  have zero : (Expr.literal (.int 0) p₁).Stands env.bindings (.int 0) := rfl
  exact run_of_stands parsed
    (Expr.on_choice_by_order (symbol 0) zero (Expr.stands_minus (symbol p₃) p₄) (symbol p₅) p₂)

end Environment

namespace Function

theorem absInt_minValue : absInt Int64.minValue = Int64.minValue := by decide

theorem toInt_absInt {n : Int64} (other : n ≠ Int64.minValue) : (absInt n).toInt = |n.toInt| := by
  unfold absInt
  split
  · rename_i negative
    rw [toInt_neg_of_ne other, abs_of_neg negative]
  · rename_i nonnegative
    rw [abs_of_nonneg (Int.not_lt.mp nonnegative)]

theorem int_absInt {n : Int64} (other : n ≠ Int64.minValue) :
    Value.int (absInt n) = if n.toInt < 0 then negated n else .int n := by
  rw [negated_of_ne other, absInt, apply_ite Value.int]

/-- Where a name is bound to a word and the depth limit lets the sources be read, the choice by the sign
gives the magnitude of the word. So does the function, except for the least word, which it gives back. -/
theorem magnitudes_agree_but_for_least (env : Environment) (name : String) (n : Int64) (h : IsName name)
    (room : 3 ≤ env.maxDepth) (bound : env.get? name = some (.int n)) :
    ∃ v w, env.eval (magnitudeByCall name) = (.ok v, env) ∧
      env.eval (magnitudeByChoice name) = (.ok w, env) ∧
      w.quantity? = some (|n.toInt| : ℚ) ∧ (v = w ↔ n ≠ Int64.minValue) ∧
      ((∃ q, v.quantity? = some q ∧ 0 ≤ q) ↔ n ≠ Int64.minValue) ∧
      (n = Int64.minValue → v = .int n) := by
  refine ⟨_, _, Environment.eval_magnitudeByCall h (by omega) bound,
    Environment.eval_magnitudeByChoice h room bound, ?_, ?_⟩
  · split
    · rename_i negative
      rw [quantity?_negated, abs_of_neg (by exact_mod_cast negative)]
    · rename_i nonnegative
      rw [abs_of_nonneg (by exact_mod_cast Int.not_lt.mp nonnegative)]
      rfl
  · rcases Decidable.em (n = Int64.minValue) with rfl | other
    · rw [absInt_minValue, if_pos (by decide), negated_minValue]
      refine ⟨iff_of_false nofun (· rfl), iff_of_false ?_ (· rfl), fun _ => rfl⟩
      rintro ⟨q, value, nonnegative⟩
      cases value
      have impossible : 0 ≤ Int64.minValue.toInt := by exact_mod_cast nonnegative
      exact absurd impossible (by decide)
    · refine ⟨iff_of_true (int_absInt other) other, iff_of_true ⟨_, rfl, ?_⟩ other,
        fun least => absurd least other⟩
      rw [toInt_absInt other]
      exact_mod_cast abs_nonneg n.toInt

def holding (name : String) (n : Int64) : Environment := Environment.empty.set name (.int n)

theorem magnitudes_next_to_least : ∃ v w,
    (holding "Z_depth" (-9223372036854775807)).eval "abs(Z_depth)" =
      (.ok v, holding "Z_depth" (-9223372036854775807)) ∧
    (holding "Z_depth" (-9223372036854775807)).eval "Z_depth < 0 ? -Z_depth : Z_depth" =
      (.ok w, holding "Z_depth" (-9223372036854775807)) ∧
    v = w ∧ ∃ q, v.quantity? = some q ∧ 0 ≤ q := by
  have name : IsName "Z_depth" := ⟨by decide, by decide, by decide⟩
  obtain ⟨v, w, call, choice, -, agree, nonnegative, -⟩ :=
    magnitudes_agree_but_for_least (holding "Z_depth" (-9223372036854775807)) _ _ name (by decide) rfl
  exact ⟨v, w, call, choice, agree.mpr (by decide), nonnegative.mpr (by decide)⟩

/-- The function gives a negative word, the choice the number 2^63. -/
theorem magnitudes_of_least :
    (holding "x" Int64.minValue).eval "abs(x)" = (.ok (.int Int64.minValue), holding "x" Int64.minValue) ∧
    Int64.minValue.toInt < 0 ∧
    ∃ y, (holding "x" Int64.minValue).eval "x < 0 ? -x : x" = (.ok (.float y), holding "x" Int64.minValue) ∧
      Binary64.toInt? y = some (2 ^ 63) :=
  ⟨rfl, by decide, _, rfl, toInt?_negated_least⟩

end Function

namespace Token

theorem lexemesFrom_numeral_closed (n offset : Nat) :
    ∃ place, lexemesFrom 0 offset (n.repr.toList ++ [')']) =
      .ok [⟨.value (numeral n), offset⟩, ⟨.mark .closeParen, place⟩] := by
  have ends : EndsNumber [')'] := by simp [EndsNumber]
  obtain ⟨place, number⟩ := lexemesFrom_numeral n ends offset
  exact ⟨place, by rw [number]; rfl⟩

end Token

namespace Expr

theorem parse_parenthesised (n depth : Nat) :
    parse ("(" ++ n.repr ++ ")") (depth + 3) = .ok (.literal (Token.numeral n) 1) := by
  have chars : ("(" ++ n.repr ++ ")").toList = '(' :: (n.repr.toList ++ [')']) := by simp
  have front : Token.lexemesFrom 0 0 ('(' :: (n.repr.toList ++ [')'])) =
      (Token.lexemesFrom 0 1 (n.repr.toList ++ [')'])).map (⟨.mark .openParen, 0⟩ :: ·) := rfl
  obtain ⟨place, behind⟩ := Token.lexemesFrom_numeral_closed n 1
  unfold parse
  rw [Token.lexemes, chars, front, behind]
  cases depth <;> rfl

theorem parse_parenthesised_minus (n depth : Nat) :
    parse ("(" ++ ("-" ++ n.repr) ++ ")") (depth + 3) =
      .ok (.unary .minus (.literal (Token.numeral n) 2) 1) := by
  have chars : ("(" ++ ("-" ++ n.repr) ++ ")").toList = '(' :: '-' :: (n.repr.toList ++ [')']) := by simp
  have front : Token.lexemesFrom 0 0 ('(' :: '-' :: (n.repr.toList ++ [')'])) =
      (Token.lexemesFrom 0 1 ('-' :: (n.repr.toList ++ [')']))).map (⟨.mark .openParen, 0⟩ :: ·) := rfl
  have unlike : (n.repr.toList ++ [')']).head? ≠ some '=' := by
    intro equals
    rw [List.head?_append_of_ne_nil _ (by simp)] at equals
    exact absurd (isDigit_of_mem_repr (List.mem_of_head? equals)) (by decide)
  obtain ⟨place, behind⟩ := Token.lexemesFrom_numeral_closed n 2
  unfold parse
  rw [Token.lexemes, chars, front, Token.lexemesFrom_minus unlike, behind]
  cases depth <;> rfl

end Expr

theorem ofNat_toNat {n : Int} (nonnegative : 0 ≤ n) : Int64.ofNat n.toNat = Int64.ofInt n := by
  rw [← Int64.ofInt_eq_ofNat, Int.toNat_of_nonneg nonnegative]

theorem negated_neg {a : Int64} (other : a ≠ Int64.minValue) : negated (-a) = .int a := by
  have least : -a ≠ Int64.minValue := by
    intro eq
    have word := fitsWord_toInt a
    have opposite := toInt_neg_of_ne other
    rw [eq] at opposite
    have : Int64.minValue.toInt = -9223372036854775808 := rfl
    unfold FitsWord minInteger maxInteger at word
    omega
  rw [negated_of_ne least, Int64.neg_neg]

namespace Value

theorem text_int_of_nonneg {a : Int64} (nonnegative : 0 ≤ a.toInt) :
    (int a).text = a.toInt.toNat.repr :=
  Int.repr_eq_if.trans (if_pos nonnegative)

theorem text_int_of_neg {a : Int64} (negative : a.toInt < 0) :
    (int a).text = "-" ++ (-a.toInt).toNat.repr :=
  Int.repr_eq_if.trans (if_neg (Int.not_le.mpr negative))

end Value

namespace Expr

theorem stands_minus_numeral {a : Int64} (negative : a.toInt < 0) (other : a ≠ Int64.minValue)
    (b : Bindings) (place offset : Nat) :
    (unary .minus (literal (Token.numeral (-a.toInt).toNat) place) offset).Stands b (.int a) := by
  have small : (-a.toInt).toNat < 2 ^ 63 := by
    have fits := ((fitsWord_neg_iff a).mpr other).2
    unfold maxInteger at fits
    omega
  rw [Token.numeral_of_small small, ofNat_toNat (by omega), Int64.ofInt_neg, Int64.ofInt_toInt,
    ← negated_neg other]
  have magnitude : (literal (.int (-a)) place).Stands b (.int (-a)) := rfl
  exact stands_minus magnitude offset

end Expr

namespace Value

/-- The text of a word, read in parentheses under the default depth limit, has the word as its exact value
and changes nothing. The value is the word itself, except for the least word: that comes back as a number. -/
theorem words_read_back_but_for_least (a : Int64) (env : Environment) : ∃ v,
    env.run (Expr.evaluate ("(" ++ (int a).text ++ ")") defaultExprDepth) = (.ok v, env) ∧
      v.quantity? = some (a.toInt : ℚ) ∧ (v = int a ↔ a ≠ Int64.minValue) := by
  rcases Int.lt_or_le a.toInt 0 with negative | nonnegative
  · rw [text_int_of_neg negative]
    have parsed := Expr.parse_parenthesised_minus (-a.toInt).toNat 61
    rcases Decidable.em (a = Int64.minValue) with rfl | other
    · refine ⟨_, Environment.run_of_stands parsed rfl, ?_, iff_of_false nofun (· rfl)⟩
      exact quantity?_float_eq_some_iff.mpr rfl
    · exact ⟨int a, Environment.run_of_stands parsed (Expr.stands_minus_numeral negative other _ 2 1), rfl,
        iff_of_true rfl other⟩
  · rw [text_int_of_nonneg nonnegative]
    have parsed := Expr.parse_parenthesised a.toInt.toNat 61
    have small : a.toInt.toNat < 2 ^ 63 := by
      have := a.toInt_lt
      omega
    rw [Token.numeral_of_small small, ofNat_toNat nonnegative, Int64.ofInt_toInt] at parsed
    refine ⟨int a, Environment.run_of_stands parsed rfl, rfl, iff_of_true rfl ?_⟩
    rintro rfl
    exact absurd nonnegative (by decide)

/-- The digits of the least word are beyond the words before the sign is looked at. -/
theorem least_word_reads_back_as_number : (int Int64.minValue).text = "-9223372036854775808" ∧
    ∃ x, Environment.empty.run (Expr.evaluate "(-9223372036854775808)" defaultExprDepth) =
      (.ok (float x), Environment.empty) :=
  ⟨by decide, _, rfl⟩

end Value

end GcodePrep
