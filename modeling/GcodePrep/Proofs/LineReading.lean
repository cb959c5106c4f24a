import GcodePrep.Line

set_option autoImplicit false

/-!
# How lines read

A directive word followed by a blank and an argument reads as that directive; a line that holds no
`@` reads as text unless it is blank or a comment.
-/

namespace GcodePrep

/-- A line that belongs to a program as it stands. -/
structure PlainLine where
  text : String
  nonempty : text ≠ ""
  trimmed : Text.trim text = text
  tokenless : '@' ∉ text.toList
  uncommented : ¬ ['/', '/'] <+: text.toList

/-- What stands behind a directive word that needs an argument. -/
structure Argument where
  text : String
  nonempty : text ≠ ""
  trimmed : Text.trim text = text

namespace Text

theorem trim_cons_space (s : String) : trim (" " ++ s) = trim s := by
  have blank : isBlank ' ' = true := by decide
  simp [trim, trimmed, dropBlanks, blank]

end Text

namespace Directive

theorem ofWord?_word (d : Directive) : ofWord? d.word = some d := by cases d <;> decide

theorem word_toList (d : Directive) :
    ∃ cs, d.word.toList = '@' :: cs ∧ ∀ c ∈ cs, Text.isBlank c = false := by
  have unblank : d.word.toList.all (fun c => !Text.isBlank c) = true := by cases d <;> decide
  obtain ⟨cs, word⟩ : ∃ cs, d.word.toList = '@' :: cs := by cases d <;> exact ⟨_, rfl⟩
  rw [word] at unblank
  refine ⟨cs, word, ?_⟩
  intro c mem
  simpa using List.all_eq_true.mp unblank c (List.mem_cons_of_mem '@' mem)

theorem ofWord?_eq_none {word : String} (h : '@' ∉ word.toList) : ofWord? word = none := by
  unfold ofWord?
  rw [List.find?_eq_none]
  intro d _ same
  obtain ⟨cs, start, -⟩ := d.word_toList
  apply h
  rw [← of_decide_eq_true same, start]
  exact List.mem_cons_self

end Directive

namespace Line

theorem ofString_plain (t : PlainLine) : ofString t.text = .text := by
  unfold ofString ofChars
  split
  · rename_i empty
    exact absurd (String.toList_eq_nil_iff.mp empty) t.nonempty
  · rename_i cs slashes
    exact absurd (slashes ▸ ⟨cs, rfl⟩) t.uncommented
  · have tokenless : '@' ∉ t.text.toList.takeWhile fun c => !Text.isBlank c :=
      fun mem => t.tokenless (List.takeWhile_subset _ mem)
    simp only [Directive.ofWord?_eq_none (by rwa [String.toList_ofList])]

theorem ofString_word (d : Directive) : ofString d.word = .directive d "" := by
  cases d <;> decide

theorem ofString_argument (d : Directive) (argument : String) :
    ofString (d.word ++ " " ++ argument) = .directive d (Text.trim argument) := by
  obtain ⟨cs, start, parts⟩ := d.word_toList
  have nonblank : ∀ c ∈ '@' :: cs, (!Text.isBlank c) = true := by
    intro c mem
    rcases List.mem_cons.mp mem with rfl | mem
    · decide
    · rw [parts c mem, Bool.not_false]
  have stop : ∀ c, (' ' :: argument.toList).head? = some c → (!Text.isBlank c) = false := by
    rintro c ⟨⟩
    decide
  have chars : (d.word ++ " " ++ argument).toList = ('@' :: cs) ++ ' ' :: argument.toList := by
    rw [String.toList_append, String.toList_append, start]
    simp
  have word : ((d.word ++ " " ++ argument).toList.takeWhile fun c => !Text.isBlank c) = '@' :: cs := by
    rw [chars, Text.takeWhile_run nonblank stop]
  have rest : ((d.word ++ " " ++ argument).toList.dropWhile fun c => !Text.isBlank c) =
      ' ' :: argument.toList := by
    rw [chars, Text.dropWhile_run nonblank stop]
  have trimmed : String.ofList (Text.trimmed (' ' :: argument.toList)) = Text.trim argument := by
    rw [← Text.trim_cons_space, Text.trim]
    simp
  unfold ofString ofChars
  split
  · rename_i empty
    rw [chars] at empty
    cases empty
  · rename_i slashes
    rw [chars] at slashes
    cases slashes
  · simp only [word, rest]
    rw [← start, String.ofList_toList, Directive.ofWord?_word, trimmed]

end Line

end GcodePrep
