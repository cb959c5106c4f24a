import GcodePrep.Value

set_option autoImplicit false

/-!
# Texts of numbers

Numbers are written in letters, digits, points and signs, and never as the empty text.
-/

namespace GcodePrep

theorem isDigit_of_mem_repr {n : Nat} {c : Char} (h : c ∈ n.repr.toList) : c.isDigit = true :=
  Nat.isDigit_of_mem_toDigits (b := 10) (by decide) (by decide) (by simpa using h)

theorem not_mem_repr {c : Char} (other : c.isDigit = false) (n : Nat) : c ∉ n.repr.toList := by
  intro mem
  rw [isDigit_of_mem_repr mem] at other
  cases other

theorem nat_eq_of_repr_eq {m n : Nat} (h : m.repr = n.repr) : m = n := by
  have digits : Nat.toDigits 10 m = Nat.toDigits 10 n := by
    rw [← Nat.toList_repr, ← Nat.toList_repr, h]
  rw [← Nat.ofDigitChars_ten_toDigits (n := m), digits, Nat.ofDigitChars_ten_toDigits]

def Text.isNumberChar (c : Char) : Bool := c.isAlphanum || c == '-' || c == '.'

theorem Text.isNumberChar_of_isDigit {c : Char} (digit : c.isDigit = true) :
    isNumberChar c = true := by
  simp [isNumberChar, Char.isAlphanum, digit]

theorem Text.isNumberChar_of_mem_int {a : Int} {c : Char} (mem : c ∈ a.repr.toList) :
    isNumberChar c = true := by
  rw [Int.repr_eq_if] at mem
  split at mem
  · exact isNumberChar_of_isDigit (isDigit_of_mem_repr mem)
  · rw [String.toList_append, List.mem_append] at mem
    rcases mem with mem | mem
    · have sign : c = '-' := by simpa using mem
      rw [sign]
      decide
    · exact isNumberChar_of_isDigit (isDigit_of_mem_repr mem)

namespace Decimal

open Text

theorem Scaled.isNumberChar_of_mem_layout {x : Scaled} {c : Char} (mem : c ∈ x.layout.toList) :
    isNumberChar c = true := by
  have digit {d : Char} (mem : d ∈ (toString x.digits).toList) : isNumberChar d = true :=
    isNumberChar_of_isDigit (isDigit_of_mem_repr (by simpa using mem))
  have zero {n : Nat} {d : Char} (mem : d ∈ List.replicate n '0') : isNumberChar d = true := by
    rw [List.eq_of_mem_replicate mem]
    decide
  have point : ∀ d ∈ ".".toList, isNumberChar d = true := List.all_eq_true.mp (by decide)
  have start : ∀ d ∈ "0.".toList, isNumberChar d = true := List.all_eq_true.mp (by decide)
  unfold layout at mem
  dsimp only at mem
  split at mem
  · rw [String.toList_append, String.toList_ofList, List.mem_append] at mem
    exact mem.elim digit zero
  · split at mem
    · simp only [String.toList_append, String.toList_ofList, List.mem_append] at mem
      rcases mem with (mem | mem) | mem
      · exact digit (List.mem_of_mem_take mem)
      · exact point c mem
      · exact digit (List.mem_of_mem_drop mem)
    · simp only [String.toList_append, String.toList_ofList, List.mem_append] at mem
      rcases mem with (mem | mem) | mem
      · exact start c mem
      · exact zero mem
      · exact digit mem

theorem Scaled.layout_ne_empty (x : Scaled) : x.layout ≠ "" := by
  unfold layout
  dsimp only
  split
  · simp
  · split <;> simp

theorem isNumberChar_of_mem_text {x : Float} {c : Char} (mem : c ∈ (text x).toList) :
    isNumberChar c = true := by
  have named : ∀ name ∈ ["NaN", "-Infinity", "Infinity", "0"],
      name.toList.all isNumberChar = true := by
    decide
  unfold text at mem
  split at mem
  · split at mem
    · exact List.all_eq_true.mp (named _ (by simp)) c mem
    · split at mem <;> exact List.all_eq_true.mp (named _ (by simp)) c mem
  · rename_i d _
    split at mem
    · exact List.all_eq_true.mp (named _ (by simp)) c mem
    · rw [String.toList_append, List.mem_append] at mem
      rcases mem with mem | mem
      · have sign : (if d.negative then "-" else "").toList.all isNumberChar = true := by
          split <;> decide
        exact List.all_eq_true.mp sign c mem
      · exact Scaled.isNumberChar_of_mem_layout mem

theorem text_ne_empty (x : Float) : text x ≠ "" := by
  unfold text
  split
  · split
    · decide
    · split <;> decide
  · split
    · decide
    · simp [Scaled.layout_ne_empty]

end Decimal

namespace Value

def isText : Value → Bool
  | str _ => true
  | _ => false

theorem isNumberChar_of_mem_text {v : Value} (other : v.isText = false) {c : Char}
    (mem : c ∈ v.text.toList) : Text.isNumberChar c = true := by
  cases v with
  | str s => cases other
  | bool b =>
    have named : ∀ b, (bool b).text.toList.all Text.isNumberChar = true := by decide
    exact List.all_eq_true.mp (named b) c mem
  | int n => exact Text.isNumberChar_of_mem_int mem
  | float x => exact Decimal.isNumberChar_of_mem_text mem

theorem text_ne_empty {v : Value} (other : v.isText = false) : v.text ≠ "" := by
  cases v with
  | str s => cases other
  | bool b => cases b <;> decide
  | int n =>
    change n.toInt.repr ≠ ""
    rw [Int.repr_eq_if]
    split <;> simp
  | float x => exact Decimal.text_ne_empty x

end Value

end GcodePrep
