import GcodePrep.Text.Blank

set_option autoImplicit false

/-!
# Splitting text

Cuts at a separating character, and at the end of a run of characters of a kind. Every function works on
the list of characters, so that what it keeps and what it drops can be stated there.
-/

namespace GcodePrep.Text

/-- The pieces between the separators: always one more than there are separators. -/
def piecesAt (sep : Char) : List Char → List (List Char)
  | [] => [[]]
  | c :: cs =>
    if c == sep then [] :: piecesAt sep cs
    else match piecesAt sep cs with
      | [] => [[c]]
      | piece :: pieces => (c :: piece) :: pieces

def splitAtEach (sep : Char) (s : String) : List String :=
  (piecesAt sep s.toList).map String.ofList

def cutAtFirst (sep : Char) : List Char → Option (List Char × List Char)
  | [] => none
  | c :: cs =>
    if c == sep then some ([], cs) else (cutAtFirst sep cs).map fun cut => (c :: cut.1, cut.2)

/-- The lines of a source text, each trimmed. A final line feed is followed by an empty line. -/
def sourceLines (s : String) : List String :=
  (piecesAt '\n' s.toList).map fun line => String.ofList (trimmed line)

def withoutStart (start cs : List Char) : Option (List Char) :=
  match start, cs with
  | [], cs => some cs
  | _ :: _, [] => none
  | s :: start, c :: cs => if s == c then withoutStart start cs else none

theorem withoutStart_eq_some_iff (start cs rest : List Char) :
    withoutStart start cs = some rest ↔ cs = start ++ rest := by
  induction start generalizing cs with
  | nil => simp [withoutStart]
  | cons s start ih =>
    cases cs with
    | nil => simp [withoutStart]
    | cons c cs =>
      by_cases h : s = c
      · simp [withoutStart, h, ih]
      · simp [withoutStart, h, Ne.symm h]

theorem not_of_head?_dropWhile {p : Char → Bool} {cs : List Char} {c : Char}
    (first : (cs.dropWhile p).head? = some c) : p c = false := by
  have stopped := List.head?_dropWhile_not p cs
  rw [first] at stopped
  simpa using stopped

theorem exists_run (p : Char → Bool) (cs : List Char) :
    ∃ run rest, cs = run ++ rest ∧ (∀ c ∈ run, p c = true) ∧ ∀ c, rest.head? = some c → p c = false :=
  ⟨cs.takeWhile p, cs.dropWhile p, List.takeWhile_append_dropWhile.symm,
    List.all_eq_true.mp List.all_takeWhile, fun _ => not_of_head?_dropWhile⟩

section Run

variable {p : Char → Bool} {run rest : List Char} (chars : ∀ c ∈ run, p c = true)
  (stop : ∀ c, rest.head? = some c → p c = false)

include chars stop

theorem takeWhile_run : (run ++ rest).takeWhile p = run := by
  rw [List.takeWhile_append_of_pos chars]
  cases rest with
  | nil => simp
  | cons c rest => simp [stop c rfl]

theorem dropWhile_run : (run ++ rest).dropWhile p = rest := by
  rw [List.dropWhile_append_of_pos chars]
  cases rest with
  | nil => rfl
  | cons c rest => exact List.dropWhile_cons_of_neg (by simp [stop c rfl])

end Run

end GcodePrep.Text
