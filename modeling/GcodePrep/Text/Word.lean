set_option autoImplicit false

/-!
# Words and identifiers

A word is a run of ASCII letters, digits and underscores. An identifier is a non-empty word that does
not start with a digit; it is what a binding, a program and a block label may be called.
-/

namespace GcodePrep.Text

def isWordStart (c : Char) : Bool := c.isAlpha || c == '_'

def isWordChar (c : Char) : Bool := c.isAlphanum || c == '_'

theorem isWordChar_of_isWordStart (c : Char) (h : isWordStart c = true) : isWordChar c = true := by
  simp only [isWordStart, isWordChar, Char.isAlphanum, Bool.or_eq_true] at h ⊢
  exact h.elim (fun h => .inl (.inl h)) .inr

theorem isWordChar_of_isDigit {c : Char} (digit : c.isDigit = true) : isWordChar c = true := by
  simp [isWordChar, Char.isAlphanum, digit]

def isIdentifierChars : List Char → Bool
  | [] => false
  | c :: cs => isWordStart c && cs.all isWordChar

def isIdentifier (s : String) : Bool := isIdentifierChars s.toList

theorem isIdentifier_ofList (cs : List Char) : isIdentifier (String.ofList cs) = isIdentifierChars cs := by
  rw [isIdentifier, String.toList_ofList]

theorem exists_cons_of_isIdentifier {s : String} (h : isIdentifier s = true) :
    ∃ c cs, s.toList = c :: cs ∧ isWordStart c = true ∧ ∀ d ∈ cs, isWordChar d = true := by
  unfold isIdentifier at h
  cases chars : s.toList with
  | nil =>
    rw [chars] at h
    cases h
  | cons c cs =>
    rw [chars] at h
    simp only [isIdentifierChars, Bool.and_eq_true, List.all_eq_true] at h
    exact ⟨c, cs, rfl, h⟩

theorem isWordChar_of_isIdentifier {s : String} (h : isIdentifier s = true) :
    ∀ c ∈ s.toList, isWordChar c = true := by
  obtain ⟨first, rest, chars, start, word⟩ := exists_cons_of_isIdentifier h
  rw [chars]
  exact List.forall_mem_cons.mpr ⟨isWordChar_of_isWordStart first start, word⟩

/-- The leading word of a text, empty when the text does not start with a word character. -/
def leadingWord (s : String) : String := String.ofList (s.toList.takeWhile isWordChar)

end GcodePrep.Text
