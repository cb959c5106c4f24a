import GcodePrep.Preprocessor.Directives
import GcodePrep.Proofs.ExactValues
import GcodePrep.Proofs.IntegerOperators

set_option autoImplicit false

/-!
# Program numbers

A program is begun where its name is bound to a value that is taken for a positive word. Words and whole
binary64 numbers are taken for the integers they are. The range of these numbers ends with 2^63, which is
no word: this one value is taken for the greatest word instead.
-/

namespace GcodePrep

namespace Value

theorem clamped_eq_some_iff {m : Int} {n : Int64} :
    (if minInteger ≤ m ∧ m ≤ maxInteger + 1 then some (Int64.ofInt (min m maxInteger)) else none) = some n ↔
      m = n.toInt ∨ m = 2 ^ 63 ∧ n = Int64.maxValue := by
  constructor
  · intro taken
    split at taken
    · rename_i range
      obtain rfl := Option.some.inj taken
      unfold minInteger maxInteger at *
      rcases Int.lt_or_eq_of_le range.2 with below | rfl
      · left
        rw [Int.min_eq_left (by omega), Int64.toInt_ofInt_of_le (by omega) (by omega)]
      · exact .inr ⟨rfl, rfl⟩
    · cases taken
  · rintro (rfl | ⟨rfl, rfl⟩)
    · have fits := fitsWord_toInt n
      rw [if_pos ⟨fits.1, Int.le_trans fits.2 (by decide)⟩, Int.min_eq_left fits.2, Int64.ofInt_toInt]
    · rfl

theorem cast_limit : ((2 ^ 63 : Int) : ℚ) = 2 ^ 63 := by norm_num

theorem toInteger?_eq_some_iff {v : Value} {n : Int64} : v.toInteger? = some n ↔
    v.quantity? = some (n.toInt : ℚ) ∨ v.quantity? = some (2 ^ 63) ∧ n = Int64.maxValue := by
  rw [← cast_limit]
  cases v with
  | int m =>
    have below := m.toInt_lt
    rw [quantity?_int_eq_some_iff, quantity?_int_eq_some_iff, Int64.toInt_inj, toInteger?, Option.some_inj]
    exact ⟨.inl, fun h => h.resolve_right fun atLimit => by omega⟩
  | float x =>
    have taken : (float x).toInteger? = (Binary64.toInt? x).bind fun m =>
      if minInteger ≤ m ∧ m ≤ maxInteger + 1 then some (Int64.ofInt (min m maxInteger)) else none := rfl
    rw [quantity?_float_eq_some_iff, quantity?_float_eq_some_iff, taken]
    cases Binary64.toInt? x with
    | none => simp
    | some m => rw [Option.bind_some, clamped_eq_some_iff, Option.some_inj, Option.some_inj]
  | str s => simp [toInteger?, quantity?]
  | bool b => simp [toInteger?, quantity?]

theorem quantity?_ne_limit {v : Value} {n : Int64} (equal : v.quantity? = some (n.toInt : ℚ)) :
    v.quantity? ≠ some (2 ^ 63) := by
  have below := n.toInt_lt
  rw [equal, ← cast_limit, Ne, Option.some_inj, Int.cast_inj]
  omega

end Value

namespace Preprocessor

theorem programNumber_eq_ok_iff {env : Environment} {name : String} {n : Int64} :
    programNumber env name = .ok n ↔
      ∃ v, env.get? name = some v ∧ v.toInteger? = some n ∧ 0 < n.toInt := by
  unfold programNumber
  constructor
  · intro granted
    split at granted
    · cases granted
    · rename_i v bound
      split at granted
      · cases granted
      · rename_i m taken
        split at granted
        · cases granted
        · cases granted
          exact ⟨v, bound, taken, by omega⟩
  · rintro ⟨v, bound, taken, positive⟩
    rw [bound]
    dsimp only
    rw [taken]
    exact if_neg (by omega)

theorem openProgram_current_eq_some_iff {s : Preprocessor} {place : Place} {argument : String}
    {opened : OpenProgram} (free : s.current = none) :
    (s.openProgram place argument).current = some opened ↔
      Text.leadingWord argument ≠ "" ∧ s.rejected = none ∧
        ∃ n, programNumber s.env (Text.leadingWord argument) = .ok n ∧
          opened = ⟨.start (Text.leadingWord argument) n place.origin s.globalHeader s.env.bindings,
            place.level⟩ := by
  have named : (Text.leadingWord argument).isEmpty = true ↔ Text.leadingWord argument = "" :=
    String.isEmpty_iff
  have enclosed : s.enclosing? = s.rejected.map (·.origin) := by rw [enclosing?, free]; rfl
  unfold openProgram
  dsimp only
  split
  · rename_i nameless
    exact iff_of_false (by simp [report, addDiagnostic, free]) fun begun => begun.1 (named.mp nameless)
  · rename_i given
    rw [enclosed]
    cases rejected : s.rejected with
    | some r =>
      exact iff_of_false (by simp [addDiagnostic, free]) nofun
    | none =>
      dsimp only [Option.map_none]
      cases number : programNumber s.env (Text.leadingWord argument) with
      | error problem => exact iff_of_false (by simp [report, addDiagnostic, free]) (by simp)
      | ok n => simp [mt named.mpr given, eq_comm]

/-- A value is taken for the word that it is equal to; only 2^63, which no word is equal to, is taken for
the greatest one. So the number of a program that is begun is the value its name is bound to, unless that
is 2^63. -/
theorem program_numbers_exact_but_at_limit (v : Value) (n : Int64) (s : Preprocessor) (place : Place)
    (argument : String) (opened : OpenProgram) :
    (v.toInteger? = some n ↔
      v.quantity? = some (n.toInt : ℚ) ∨ v.quantity? = some (2 ^ 63) ∧ n = Int64.maxValue) ∧
    (s.current = none → (s.openProgram place argument).current = some opened →
      ∃ w, s.env.get? opened.program.name = some w ∧ 0 < opened.program.number.toInt ∧
        (w.quantity? = some (opened.program.number.toInt : ℚ) ↔ w.quantity? ≠ some (2 ^ 63))) := by
  refine ⟨Value.toInteger?_eq_some_iff, fun free begun => ?_⟩
  obtain ⟨-, -, m, granted, rfl⟩ := (openProgram_current_eq_some_iff free).mp begun
  obtain ⟨w, bound, taken, positive⟩ := programNumber_eq_ok_iff.mp granted
  refine ⟨w, bound, positive, Value.quantity?_ne_limit, fun below => ?_⟩
  exact (Value.toInteger?_eq_some_iff.mp taken).resolve_right fun atLimit => below atLimit.1

def afterDefinition (assignment : String) : Preprocessor :=
  start (Environment.empty.define assignment).2

theorem large_number_exact : ∃ opened v,
    ((afterDefinition "P = 4.611686018427387904e18").openProgram [] "P (face)").current = some opened ∧
      opened.program.name = "P" ∧ opened.program.number.toInt = 2 ^ 62 ∧
      (afterDefinition "P = 4.611686018427387904e18").env.get? "P" = some v ∧
      v.toInteger? = some 4611686018427387904 ∧ v.quantity? = some (2 ^ 62) := by
  obtain ⟨v, bound, -, exact⟩ := (program_numbers_exact_but_at_limit (.int 4611686018427387904)
    4611686018427387904 (afterDefinition "P = 4.611686018427387904e18") [] "P (face)" _).2 rfl rfl
  have view : v.toInteger? = some 4611686018427387904 := by
    rw [← Option.some.inj bound]
    rfl
  have below : v.quantity? ≠ some (2 ^ 63) := by
    rcases Value.toInteger?_eq_some_iff.mp view with equal | ⟨-, greatest⟩
    · exact Value.quantity?_ne_limit equal
    · cases greatest
  have number : ((4611686018427387904 : Int64).toInt : ℚ) = 2 ^ 62 := by
    rw [show (4611686018427387904 : Int64).toInt = 2 ^ 62 from rfl]
    norm_num
  exact ⟨_, v, rfl, rfl, rfl, bound, view, (exact.mpr below).trans (congrArg some number)⟩

/-- The number of this program is one less than the value of its name. -/
theorem limit_number_differs : ∃ opened x,
    ((afterDefinition "P = 9223372036854775808").openProgram [] "P").current = some opened ∧
      opened.program.number.toInt = 2 ^ 63 - 1 ∧
      (afterDefinition "P = 9223372036854775808").env.get? opened.program.name = some (.float x) ∧
      (Value.float x).toInteger? = some opened.program.number ∧
      Binary64.value? x = some (2 ^ 63) := by
  refine ⟨_, _, rfl, rfl, rfl, rfl, ?_⟩
  have whole := Binary64.toInt?_eq_some_iff (x := Decimal.ofParts "9223372036854775808".toList [] 0)
    (n := 2 ^ 63)
  rw [Value.cast_limit] at whole
  exact whole.mp rfl

end Preprocessor

end GcodePrep
