import GcodePrep.Proofs.Traversal
import Mathlib.Data.List.Basic

set_option autoImplicit false

/-!
# Dead branches

Where lines are not visible a line can only open, turn over or close a conditional, and what it holds
besides does not matter. So a text may be edited in its dead lines, as long as its conditionals stay
where they are, and is still processed to the same state, through all that it includes.
-/

namespace GcodePrep

def Line.conditional? : Line → Option Directive
  | .directive .if_ _ => some .if_
  | .directive .else_ _ => some .else_
  | .directive .endif _ => some .endif
  | _ => none

/-- What becomes of open branches on a line that is not visible. -/
def Branches.pass (branches : Branches) (origin : Origin) : Option Directive → Branches
  | some .if_ => ⟨.shadowed, origin, none⟩ :: branches
  | some .else_ => (branches.flipElse? origin).getD branches
  | some .endif => branches.tail
  | _ => branches

namespace Preprocessor

section Dead

variable {s : Preprocessor} (dead : s.branches.isActive = false) (place : Place)

include dead

theorem openIf_of_dead (expr : String) :
    s.openIf place expr = { s with branches := s.branches.pass place.origin (some .if_) } := by
  simp [openIf, Branches.openIf, Branches.pass, dead]

theorem flipElse_of_dead :
    s.flipElse place = { s with branches := s.branches.pass place.origin (some .else_) } := by
  cases branches : s.branches with
  | nil => simp [branches, Branches.isActive] at dead
  | cons branch outer => simp [flipElse, Branches.flipElse?, Branches.pass, branches]

theorem closeIf_of_dead :
    s.closeIf place = { s with branches := s.branches.pass place.origin (some .endif) } := by
  cases branches : s.branches with
  | nil => simp [branches, Branches.isActive] at dead
  | cons branch outer => simp [closeIf, Branches.close?, Branches.pass, branches]

theorem headedLine_of_dead (includer : Includer) (text : String) (line : Line) :
    headedLine includer s place text line =
      { s with branches := s.branches.pass place.origin line.conditional? } := by
  simp only [headedLine, dead, Bool.false_and, Bool.false_eq_true, if_false]
  split
  · exact openIf_of_dead dead place _
  · exact flipElse_of_dead dead place
  · exact closeIf_of_dead dead place
  · rename_i notIf notElse notEndif
    have none : line.conditional? = none := by
      unfold Line.conditional?
      split
      · exact absurd rfl (notIf _)
      · exact absurd rfl (notElse _)
      · exact absurd rfl (notEndif _)
      · rfl
    rw [none]
    rfl

theorem processLine_of_dead (includer : Includer) (text : String) :
    processLine includer place text s =
      { s with branches := s.branches.pass place.origin (Line.ofString text).conditional? } := by
  unfold processLine
  split
  · rename_i reads
    rw [reads]
    rfl
  · rename_i reads
    rw [reads, comment, dead]
    rfl
  · rename_i reads
    rw [reads, dead]
    rfl
  · exact headedLine_of_dead dead place includer text _

end Dead

def conditionalAt (lines : List String) (i : Nat) : Option Directive :=
  lines[i]?.bind fun line => (Line.ofString line).conditional?

theorem processLines_of_edit (includer : Includer) (source : Source) (text : String) (outer : Place)
    (n : Nat) (lines lines' : List String) (s : Preprocessor) (length : lines'.length = lines.length)
    (edited : ∀ i < lines.length, lines'[i]? = lines[i]? ∨
      ((processLines includer source outer n (lines.take i) s).branches.isActive = false ∧
        conditionalAt lines' i = conditionalAt lines i)) :
    processLines includer { source with text } outer n lines' s =
      processLines includer source outer n lines s := by
  induction lines generalizing n lines' s with
  | nil =>
    rw [List.length_nil, List.length_eq_zero_iff] at length
    rw [length]
    rfl
  | cons line rest ih =>
    cases lines' with
    | nil => simp at length
    | cons line' rest' =>
      cases aborted : s.aborted with
      | true => rw [processLines_of_aborted aborted, processLines_of_aborted aborted]
      | false =>
        -- The first line does the same in both texts: it is the same line, or a dead one.
        have first : processLine includer (⟨source.name, source.directory, n, line'⟩ :: outer) line'
              { s with lines := s.lines + 1 } =
            processLine includer (⟨source.name, source.directory, n, line⟩ :: outer) line
              { s with lines := s.lines + 1 } := by
          rcases edited 0 (by simp) with same | ⟨dead, same⟩
          · simp only [List.getElem?_cons_zero, Option.some.injEq] at same
            rw [same]
          · have dead : Branches.isActive { s with lines := s.lines + 1 }.branches = false := dead
            simp only [conditionalAt, List.getElem?_cons_zero, Option.bind_some] at same
            rw [processLine_of_dead dead, processLine_of_dead dead, same]
            rfl
        rw [processLines_cons aborted, processLines_cons aborted, first]
        refine ih (n + 1) rest' _ (by simpa using length) fun i bound => ?_
        have next := edited (i + 1) (by simpa using bound)
        simp only [List.take_succ_cons, processLines_cons aborted, conditionalAt,
          List.getElem?_cons_succ] at next
        exact next

section Texts

variable (inclusion : Inclusion) (tree : FileTree)

/-- The state in which line `i` of a text, counted from zero, is reached. -/
def stateAt (room : Nat) (source : Source) (outer : Place) (s : Preprocessor) (i : Nat) :
    Preprocessor :=
  processLines (includerIn inclusion tree room) source outer 1
    ((Text.sourceLines source.text).take i) { s with branches := [] }

/-- `text` has as many lines as the source, and differs from it only in lines that the source reaches
where they are not visible, and there not in the conditional directive. -/
structure DeadEdit (room : Nat) (source : Source) (outer : Place) (s : Preprocessor) (text : String) :
    Prop where
  length : (Text.sourceLines text).length = (Text.sourceLines source.text).length
  lines : ∀ i < (Text.sourceLines source.text).length,
    (Text.sourceLines text)[i]? = (Text.sourceLines source.text)[i]? ∨
      ((stateAt inclusion tree room source outer s i).branches.isActive = false ∧
        conditionalAt (Text.sourceLines text) i = conditionalAt (Text.sourceLines source.text) i)

variable {inclusion tree}

theorem enter_of_deadEdit {room : Nat} {source : Source} {outer : Place} {s : Preprocessor}
    {text : String} (edit : DeadEdit inclusion tree room source outer s text) :
    enter inclusion tree room { source with text } outer s =
      enter inclusion tree room source outer s := by
  rw [enter_eq_processText, enter_eq_processText, processText, processText,
    processLines_of_edit _ source text outer 1 _ _ _ edit.length edit.lines]

/-- A text whose dead lines are edited is processed to the same state, in every field. -/
theorem dead_lines_do_not_matter {source : Source} {s : Preprocessor} {text : String}
    (edit : DeadEdit inclusion tree inclusion.maxDepth source [] s text) :
    processSource inclusion tree { source with text } s = processSource inclusion tree source s := by
  unfold processSource
  rw [enter_of_deadEdit edit]

/-- Lines that would stop the run or go into a program, and a condition that does not parse, all dead. -/
def stopSample : Source :=
  ⟨"a.gp", none, "@if 0\nG0 X1\n@if X ==\n@error no\n@endif\n@else\n@print 1\n@endif"⟩

theorem stopSample_edited :
    processSource ⟨[], 1⟩ ⟨[], []⟩
        { stopSample with
          text := "@if 0\n@include b.gp\n@if\n// note\n@endif\n@else\n@print 1\n@endif" }
        (.start .empty) =
      processSource ⟨[], 1⟩ ⟨[], []⟩ stopSample (.start .empty) ∧
    (processSource ⟨[], 1⟩ ⟨[], []⟩ stopSample (.start .empty)).prints.length = 1 :=
  ⟨dead_lines_do_not_matter ⟨by decide +kernel, by decide +kernel⟩, by decide +kernel⟩

end Texts

end Preprocessor

end GcodePrep
