import GcodePrep.Preprocessor.Directives
import GcodePrep.Proofs.NumberTexts
import GcodePrep.Proofs.TokenSplitting
import GcodePrep.Proofs.TokenSubstitution
import Mathlib.Data.List.TakeWhile

set_option autoImplicit false

/-!
# Names of labels

The name of a label says which label it is. Each reader of a line finds the name where the label was
written: the binding of block labels, the pass for bare tokens, and the parser of expressions.
-/

namespace GcodePrep

namespace SwitchLabel

def depth : SwitchLabel → Nat
  | case depth _ | default depth | finish depth => depth

def ending : SwitchLabel → List Char
  | case _ index => index.repr.toList
  | default _ => "default".toList
  | finish _ => "endswitch".toList

theorem toList_name (l : SwitchLabel) :
    l.name.toList = '_' :: '_' :: (l.depth.repr.toList ++ '_' :: l.ending) := by
  cases l <;>
  · simp only [name, String.toList_append, List.append_assoc]
    rfl

theorem ending_injective {l l' : SwitchLabel} (same : l.ending = l'.ending) (switch : l.depth = l'.depth) :
    l = l' := by
  have words : "default".toList ≠ "endswitch".toList := by decide
  -- The other endings hold letters, which an index does not.
  have notDefault (n : Nat) : n.repr.toList ≠ "default".toList := fun eq =>
    not_mem_repr (c := 'd') (by decide) n (by rw [eq]; decide)
  have notFinish (n : Nat) : n.repr.toList ≠ "endswitch".toList := fun eq =>
    not_mem_repr (c := 'e') (by decide) n (by rw [eq]; decide)
  match l, l' with
  | case d n, case d' n' =>
    have index : n = n' := nat_eq_of_repr_eq (String.toList_inj.mp same)
    have outer : d = d' := switch
    rw [index, outer]
  | default _, default _ => exact congrArg default switch
  | finish _, finish _ => exact congrArg finish switch
  | case _ n, default _ => exact absurd same (notDefault n)
  | case _ n, finish _ => exact absurd same (notFinish n)
  | default _, case _ n => exact absurd same.symm (notDefault n)
  | finish _, case _ n => exact absurd same.symm (notFinish n)
  | default _, finish _ => exact absurd same words
  | finish _, default _ => exact absurd same.symm words

theorem name_injective {l l' : SwitchLabel} (same : l.name = l'.name) : l = l' := by
  have chars := congrArg String.toList same
  rw [toList_name, toList_name] at chars
  have tails := (List.cons.inj (List.cons.inj chars).2).2
  -- The depth ends at the underscore behind it, since no digit is one.
  have run (l : SwitchLabel) :
      (l.depth.repr.toList ++ '_' :: l.ending).takeWhile Char.isDigit = l.depth.repr.toList :=
    Text.takeWhile_run (fun _ mem => isDigit_of_mem_repr mem) (by simp)
  have digits : l.depth.repr.toList = l'.depth.repr.toList := by rw [← run l, ← run l', tails]
  rw [digits] at tails
  have endings := (List.cons.inj (List.append_cancel_left tails)).2
  exact ending_injective endings (nat_eq_of_repr_eq (String.toList_inj.mp digits))

theorem isWordChar_of_mem_ending {l : SwitchLabel} : ∀ c ∈ l.ending, Text.isWordChar c = true := by
  cases l with
  | case d n => exact fun c mem => Text.isWordChar_of_isDigit (isDigit_of_mem_repr mem)
  | default d => exact List.all_eq_true.mp (by decide : "default".toList.all Text.isWordChar = true)
  | finish d => exact List.all_eq_true.mp (by decide : "endswitch".toList.all Text.isWordChar = true)

theorem isIdentifier_name (l : SwitchLabel) : Text.isIdentifier l.name = true := by
  have underscore : Text.isWordChar '_' = true := by decide
  have digits : ∀ c ∈ l.depth.repr.toList, Text.isWordChar c = true := fun c mem =>
    Text.isWordChar_of_isDigit (isDigit_of_mem_repr mem)
  have behind : ∀ c ∈ '_' :: (l.depth.repr.toList ++ '_' :: l.ending), Text.isWordChar c = true :=
    List.forall_mem_cons.mpr ⟨underscore, List.forall_mem_append.mpr
      ⟨digits, List.forall_mem_cons.mpr ⟨underscore, isWordChar_of_mem_ending⟩⟩⟩
  rw [Text.isIdentifier, toList_name, Text.isIdentifierChars, List.all_eq_true.mpr behind]
  decide

theorem isName (l : SwitchLabel) : IsName l.name := by
  refine ⟨l.isIdentifier_name, ?_, ?_⟩ <;>
  · intro same
    have chars := l.toList_name
    rw [same] at chars
    cases chars

end SwitchLabel

namespace Preprocessor

theorem blockLabel?_of_isIdentifier {name : String} (identifier : Text.isIdentifier name = true) :
    blockLabel? ("N@" ++ name) = some name := by
  have rest : Text.withoutStart ['N', '@'] ("N@" ++ name).toList = some name.toList := by
    rw [Text.withoutStart_eq_some_iff]
    simp
  have word : name.toList.takeWhile Text.isWordChar = name.toList :=
    List.takeWhile_eq_self_iff.mpr (Text.isWordChar_of_isIdentifier identifier)
  have chars : Text.isIdentifierChars name.toList = true := identifier
  simp only [blockLabel?, rest, Option.bind_some, word, chars, if_true, String.ofList_toList]

theorem blockLabel?_labelLine (l : SwitchLabel) : blockLabel? l.labelLine = some l.name :=
  blockLabel?_of_isIdentifier l.isIdentifier_name

theorem blockLabel?_jumpLine (l : SwitchLabel) : blockLabel? l.jumpLine = none := by
  have rest : Text.withoutStart ['N', '@'] l.jumpLine.toList = none := by
    simp [SwitchLabel.jumpLine, Text.withoutStart]
  simp [blockLabel?, rest]

end Preprocessor

theorem Segment.gather_plain (cs : List Char) (rest : List Segment) :
    gather (cs.map plain ++ rest) = (cs ++ (gather rest).1, (gather rest).2) := by
  induction cs with
  | nil => rfl
  | cons c cs ih => simp [gather, ih]

def Piece.ofName (name : String) : Piece := ⟨'@' :: name.toList, name.toList, []⟩

/-- In the line `start@name` the pass for bare tokens finds one token, whose expression is the name. That
is the one way to split the line, and what the pass evaluates is the name, once. -/
structure HoldsName (line start name : String) : Prop where
  found : Segment.split .bare line =
    start.toList.map Segment.plain ++ [.token ('@' :: name.toList) name.toList]
  split : ∀ first pieces, Splits .bare line.toList first pieces ↔
    first = start.toList ∧ pieces = [.ofName name]
  pass : ∀ env, Resolution.pass .bare line env =
    (Resolution.assemble start.toList [(.ofName name, (env.eval name).1)], (env.eval name).2)

theorem holdsName {start name : String} (tokenless : '@' ∉ start.toList) (isName : IsName name) :
    HoldsName (start ++ "@" ++ name) start name := by
  have found := Resolution.split_bare tokenless isName
  have gathered : Segment.gather (Segment.split .bare (start ++ "@" ++ name)) =
      (start.toList, [.ofName name]) := by
    rw [found, Segment.gather_plain]
    simp [Segment.gather, Piece.ofName]
  refine ⟨found, fun first pieces => ?_, fun env => ?_⟩
  · have splits := Segment.splits_gather .bare (start ++ "@" ++ name).toList
    rw [← Segment.split, gathered] at splits
    constructor
    · exact splits.unique
    · rintro ⟨rfl, rfl⟩
      exact splits
  · rw [Resolution.pass, Resolution.ofSegments_eq_assemble, gathered]
    simp [Piece.evaluated, Piece.ofName]

/-- Labels that differ in depth, in kind or in the index of their case have different names. Every name is
an identifier; it is what the line of the label defines and the only bare token of that line and of the
branch to it, and under any limit but zero it is read as itself. -/
theorem labels_distinct_and_read_back :
    (∀ l l' : SwitchLabel, l.name = l'.name ↔ l = l') ∧
    ∀ l : SwitchLabel,
      Text.isIdentifier l.name = true ∧
      Preprocessor.blockLabel? l.labelLine = some l.name ∧
      HoldsName l.jumpLine "GOTO" l.name ∧ HoldsName l.labelLine "N" l.name ∧
      ∀ depth, 1 ≤ depth → Expr.parse l.name depth = .ok (.symbol l.name 0) := by
  refine ⟨fun l l' => ⟨SwitchLabel.name_injective, congrArg SwitchLabel.name⟩, fun l => ?_⟩
  have jump : l.jumpLine = "GOTO" ++ "@" ++ l.name := rfl
  have label : l.labelLine = "N" ++ "@" ++ l.name := rfl
  refine ⟨l.isIdentifier_name, Preprocessor.blockLabel?_labelLine l, ?_, ?_, fun depth room => ?_⟩
  · exact jump ▸ holdsName (by decide) l.isName
  · exact label ▸ holdsName (by decide) l.isName
  · obtain ⟨depth, rfl⟩ := Nat.exists_eq_add_of_le' room
    exact Expr.parse_name l.isName depth

/-- Only the place of the underscore tells these two names apart. -/
theorem shifted_labels_distinct :
    (SwitchLabel.case 1 23).name = "__1_23" ∧ (SwitchLabel.case 12 3).name = "__12_3" ∧
      (SwitchLabel.case 1 23).name ≠ (SwitchLabel.case 12 3).name ∧
      1 ≤ 1 ∧ Expr.parse (SwitchLabel.case 12 3).name 1 = .ok (.symbol "__12_3" 0) := by
  have distinct := labels_distinct_and_read_back.1 (.case 1 23) (.case 12 3)
  have read := (labels_distinct_and_read_back.2 (.case 12 3)).2.2.2.2 1 (Nat.le_refl 1)
  exact ⟨rfl, rfl, fun same => absurd (distinct.mp same) (by decide), Nat.le_refl 1, read⟩

end GcodePrep
