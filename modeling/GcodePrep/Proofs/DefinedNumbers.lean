import GcodePrep.Proofs.NameEvaluation
import GcodePrep.Proofs.NumberTexts
import GcodePrep.Proofs.SourceTexts
import Mathlib.Algebra.Group.Nat.Defs

set_option autoImplicit false

/-!
# Defining a name as a number

The decimal text of a number reads as that number, as long as it fits 64 signed bits. A definition of a
name by such a text binds the name to the number and does nothing else, provided that the value of an
assignment may be entered.
-/

namespace GcodePrep

theorem isBlank_of_mem_repr {n : Nat} {c : Char} (mem : c ∈ n.repr.toList) : Text.isBlank c = false :=
  Text.isBlank_of_isWordChar (Text.isWordChar_of_isDigit (isDigit_of_mem_repr mem))

namespace Token

/-- A text that is no part of a number right before it. -/
def EndsNumber (rest : List Char) : Prop :=
  ∀ c, rest.head? = some c → c.isDigit = false ∧ c ∉ ['.', 'e', 'E', 'x', 'X']

theorem endsNumber_nil : EndsNumber [] := nofun

section Numeral

variable {digits : List Char} (all : ∀ c ∈ digits, c.isDigit = true)

include all

theorem decimalValue_digits :
    decimalValue digits none = some ((ofNat? (Decimal.natOfDigits digits)).getD
      (.float (Decimal.ofParts digits [] 0))) := by
  have whole : digits.takeWhile Char.isDigit = digits := List.takeWhile_eq_self_iff.mpr all
  have rest : digits.dropWhile Char.isDigit = [] := List.dropWhile_eq_nil_iff.mpr all
  simp only [decimalValue, whole, rest]
  cases ofNat? (Decimal.natOfDigits digits) <;> rfl

variable {rest : List Char} (ends : EndsNumber rest)

include ends

theorem readDecimal_digits : readDecimal (digits ++ rest) =
    .ok ((ofNat? (Decimal.natOfDigits digits)).getD (.float (Decimal.ofParts digits [] 0)),
      digits.length) := by
  have part : ∀ c ∈ digits, (c.isDigit || c == '.') = true := by
    intro c mem
    rw [all c mem, Bool.true_or]
  have behind : rest.takeWhile (fun c => c.isDigit || c == '.') = [] ∧
      rest.dropWhile (fun c => c.isDigit || c == '.') = rest ∧ readExponent rest = none := by
    cases rest with
    | nil => exact ⟨rfl, rfl, rfl⟩
    | cons c rest =>
      obtain ⟨digit, letter⟩ := ends c rfl
      simp only [List.mem_cons, not_or] at letter
      simp [digit, letter, readExponent]
  simp [readDecimal, List.takeWhile_append_of_pos part, List.dropWhile_append_of_pos part, behind,
    decimalValue_digits all]

theorem readNumber_digits : readNumber (digits ++ rest) =
    .ok ((ofNat? (Decimal.natOfDigits digits)).getD (.float (Decimal.ofParts digits [] 0)),
      digits.length) := by
  have decimal := readDecimal_digits all ends
  -- The letter of a hexadecimal number would be a digit or stand right behind the digits.
  have notHex {letter : Char} {cs : List Char} (digit : letter.isDigit = false)
      (mem : letter ∈ ['.', 'e', 'E', 'x', 'X']) (eq : digits ++ rest = '0' :: letter :: cs) : False := by
    match digits, eq with
    | [], eq =>
      have behind : rest = '0' :: letter :: cs := eq
      exact absurd (ends '0' (by rw [behind]; rfl)).1 (by decide)
    | [_], eq =>
      have behind : rest = letter :: cs := (List.cons.inj eq).2
      exact (ends letter (by rw [behind]; rfl)).2 mem
    | _ :: d :: _, eq =>
      have same : d = letter := (List.cons.inj (List.cons.inj eq).2).1
      rw [← same, all d (by simp)] at digit
      cases digit
  unfold readNumber
  split
  · rename_i eq
    exact (notHex (by decide) (by decide) eq).elim
  · rename_i eq
    exact (notHex (by decide) (by decide) eq).elim
  · exact decimal

end Numeral

theorem natOfDigits_repr (n : Nat) : Decimal.natOfDigits n.repr.toList = n := by
  have digits : n.repr.toList = Nat.toDigits 10 n := by simp
  rw [digits]
  exact Nat.ofDigitChars_ten_toDigits

/-- What the decimal text of a number reads as: the number itself, if it is one of 64 signed bits. -/
def numeral (n : Nat) : Value := (ofNat? n).getD (.float (Decimal.ofParts n.repr.toList [] 0))

theorem numeral_of_small {n : Nat} (small : n < 2 ^ 63) : numeral n = .int (Int64.ofNat n) := by
  have fits : int64? n = some (Int64.ofNat n) := by
    unfold int64? minInteger maxInteger
    rw [if_pos (by omega), Int64.ofInt_eq_ofNat]
  rw [numeral, ofNat?, fits]
  rfl

theorem lexemesFrom_skip_append (cs rest : List Char) (offset : Nat) :
    ∃ offset', lexemesFrom cs.length offset (cs ++ rest) = lexemesFrom 0 offset' rest := by
  induction cs generalizing offset with
  | nil => exact ⟨offset, rfl⟩
  | cons c cs ih => exact ih _

theorem lexemesFrom_read {c : Char} {cs rest : List Char} {token : Token} (space : Text.isSpace c = false)
    (front : read c (cs ++ rest) = .ok (token, cs.length + 1)) (offset : Nat) :
    ∃ offset', lexemesFrom 0 offset (c :: cs ++ rest) =
      (lexemesFrom 0 offset' rest).map (⟨token, offset⟩ :: ·) := by
  obtain ⟨offset', behind⟩ := lexemesFrom_skip_append cs rest (offset + c.utf8Size)
  refine ⟨offset', ?_⟩
  rw [List.cons_append, lexemesFrom, space, front, ← behind]
  rfl

theorem lexemesFrom_name {name : String} (h : IsName name) (rest : List Char)
    (stop : ∀ d, rest.head? = some d → Text.isWordChar d = false) (offset : Nat) :
    ∃ offset', lexemesFrom 0 offset (name.toList ++ rest) =
      (lexemesFrom 0 offset' rest).map (⟨.word name, offset⟩ :: ·) := by
  obtain ⟨c, cs, chars, start, word⟩ := h.exists_cons
  have front := read_word start word rest stop
  rw [← chars, String.ofList_toList, ofWord_name h] at front
  rw [chars]
  exact lexemesFrom_read (not_isSpace_of_isWordStart start) front offset

theorem lexemesFrom_numeral (n : Nat) {rest : List Char} (ends : EndsNumber rest) (offset : Nat) :
    ∃ offset', lexemesFrom 0 offset (n.repr.toList ++ rest) =
      (lexemesFrom 0 offset' rest).map (⟨.value (numeral n), offset⟩ :: ·) := by
  have all : ∀ c ∈ n.repr.toList, c.isDigit = true := fun c mem => isDigit_of_mem_repr mem
  have number : readNumber (n.repr.toList ++ rest) = .ok (numeral n, n.repr.toList.length) := by
    rw [readNumber_digits all ends, natOfDigits_repr]
    rfl
  cases digits : n.repr.toList with
  | nil => simp at digits
  | cons c cs =>
    have digit := all c (digits ▸ List.mem_cons_self)
    have starts : startsNumber (c :: (cs ++ rest)) = true := by
      rwa [startsNumber_eq_isDigit]
      rintro rfl
      exact absurd digit (by decide)
    have space : Text.isSpace c = false := by
      rw [← Bool.not_eq_true]
      intro space
      have blank := Text.isBlank_of_isSpace c space
      rw [isBlank_of_mem_repr (digits ▸ List.mem_cons_self)] at blank
      cases blank
    have front : read c (cs ++ rest) = .ok (.value (numeral n), cs.length + 1) := by
      rw [digits, List.cons_append] at number
      rw [read, if_pos starts, number]
      rfl
    exact lexemesFrom_read space front offset

theorem lexemes_definition {name : String} (h : IsName name) {n : Nat} (small : n < 2 ^ 63) :
    ∃ place offset, lexemes (name ++ " = " ++ toString n) =
      .ok [⟨.word name, 0⟩, ⟨.mark .assign, place⟩, ⟨.value (.int (Int64.ofNat n)), offset⟩] := by
  have whole : (name ++ " = " ++ toString n).toList =
      name.toList ++ ' ' :: '=' :: ' ' :: (n.repr.toList ++ []) := by simp
  obtain ⟨offset, front⟩ := lexemesFrom_name h (' ' :: '=' :: ' ' :: (n.repr.toList ++ [])) (by simp; decide) 0
  obtain ⟨offset', behind⟩ := lexemesFrom_numeral n endsNumber_nil (offset + 3)
  have rest : lexemesFrom 0 offset (' ' :: '=' :: ' ' :: (n.repr.toList ++ [])) =
      (lexemesFrom 0 (offset + 3) (n.repr.toList ++ [])).map (⟨.mark .assign, offset + 1⟩ :: ·) := rfl
  refine ⟨offset + 1, offset + 3, ?_⟩
  rw [lexemes, whole, front, rest, behind, numeral_of_small small]
  rfl

end Token

namespace Expr

theorem parse_definition {name : String} (h : IsName name) {n : Nat} (small : n < 2 ^ 63) {depth : Nat}
    (room : 2 ≤ depth) :
    ∃ offset, parse (name ++ " = " ++ toString n) depth =
      .ok (.assign .set name (.literal (.int (Int64.ofNat n)) offset) 0) := by
  obtain ⟨place, offset, lexed⟩ := Token.lexemes_definition h small
  obtain ⟨depth, rfl⟩ : ∃ d, depth = d + 2 := ⟨depth - 2, by omega⟩
  refine ⟨offset, ?_⟩
  unfold parse
  rw [lexed]
  cases depth <;> rfl

end Expr

namespace Environment

theorem trim_definition {name : String} (h : IsName name) (n : Nat) :
    Text.trim (name ++ " = " ++ toString n) = name ++ " = " ++ toString n :=
  Text.trim_framed " = " (by simpa using h.toList_ne_nil) (by simp)
    (fun c mem => Text.isBlank_of_isWordChar (h.isWordChar_of_mem c mem)) (fun _ => isBlank_of_mem_repr)

theorem define_number {env : Environment} {name : String} (h : IsName name) {n : Nat}
    (small : n < 2 ^ 63) (room : 2 ≤ env.maxDepth) :
    env.define (name ++ " = " ++ toString n) =
      (.ok (.int (Int64.ofNat n)), env.set name (.int (Int64.ofNat n))) := by
  obtain ⟨offset, parsed⟩ := Expr.parse_definition h small room
  have spaced : Text.isIdentifier (name ++ " = " ++ toString n) = false := by
    obtain ⟨c, cs, chars, -, -⟩ := h.exists_cons
    have space : Text.isWordChar ' ' = false := by decide
    simp [Text.isIdentifier, chars, Text.isIdentifierChars, space]
  unfold define
  dsimp only
  rw [trim_definition h n, spaced, parsed]
  rfl

end Environment

end GcodePrep
