import GcodePrep.Proofs.ArgumentReading
import GcodePrep.Proofs.Definitions
import GcodePrep.Proofs.Revisions
import GcodePrep.Proofs.SourceTexts
import GcodePrep.Proofs.TokenSpans
import GcodePrep.Session.Run

set_option autoImplicit false

/-!
# Bound names are read back

A definition of a name alone, a definition among the options and a label of a block all take the same
texts for names: the identifiers. A source that is an identifier has the value that the name was bound to,
unless the identifier is one of the two truth values.
-/

namespace GcodePrep

namespace Token

theorem isName_of_ofWord {text name : String} (identifier : Text.isIdentifier text = true)
    (h : ofWord text = .word name) : IsName name := by
  unfold ofWord at h
  split at h
  · cases h
  · rename_i notTrue
    split at h
    · cases h
    · rename_i notFalse
      cases h
      exact ⟨identifier, by simpa using notTrue, by simpa using notFalse⟩

theorem Spells.isName {text rest : List Char} {token : Token} (h : Spells text rest token) {name : String}
    (eq : token = .word name) : IsName name := by
  cases h with
  | number | quoted | mark => cases eq
  | word identifier longest =>
    refine isName_of_ofWord ?_ eq
    rwa [Text.isIdentifier_ofList]

theorem lexemes_eq_word_iff {name : String} : lexemes name = .ok [⟨.word name, 0⟩] ↔ IsName name := by
  refine ⟨fun h => ?_, lexemes_name⟩
  obtain ⟨spans, eq, covers⟩ := covers_of_lexemes h
  have listed : ⟨.word name, 0⟩ ∈ spans.map Span.lexeme := eq ▸ List.mem_cons_self
  obtain ⟨p, mem, same⟩ := List.mem_map.mp listed
  obtain ⟨-, rest, -, spells⟩ := covers.spelt p mem
  exact spells.isName (congrArg Lexeme.token same)

end Token

namespace Define

theorem isIdentifier_of_parse {text : String} {d : Define} (h : Define.parse text = .ok d) :
    Text.isIdentifier d.name = true := by
  unfold Define.parse at h
  split at h
  all_goals
    dsimp only at h
    split at h
    · rename_i identifier
      cases h
      rwa [Text.isIdentifier_ofList]
    · cases h

theorem parse_eq_ok_iff {name : String} :
    Define.parse name = .ok ⟨name, none⟩ ↔ Text.isIdentifier name = true := by
  refine ⟨isIdentifier_of_parse, fun identifier => ?_⟩
  have uncut : Text.cutAtFirst '=' name.toList = none := Text.cutAtFirst_eq_none fun mem =>
    absurd (Text.isWordChar_of_isIdentifier identifier _ mem) (by decide)
  have trimmed : Text.trimmed name.toList = name.toList := by
    rw [← String.toList_ofList (l := Text.trimmed name.toList)]
    exact congrArg String.toList (Text.trim_of_isIdentifier identifier)
  have chars : Text.isIdentifierChars name.toList = true := identifier
  simp [Define.parse, uncut, trimmed, chars]

end Define

namespace Preprocessor

theorem isIdentifier_of_blockLabel? {text name : String} (h : blockLabel? text = some name) :
    Text.isIdentifier name = true := by
  obtain ⟨rest, -, h⟩ := Option.bind_eq_some_iff.mp h
  dsimp only at h
  split at h
  · rename_i identifier
    cases h
    rwa [Text.isIdentifier_ofList]
  · cases h

theorem blockLabel?_eq_some_iff {name : String} :
    blockLabel? ("N@" ++ name) = some name ↔ Text.isIdentifier name = true :=
  ⟨isIdentifier_of_blockLabel?, blockLabel?_of_isIdentifier⟩

end Preprocessor

def Define.value (d : Define) (env : Environment) : Value :=
  match d.expr with
  | none => .int 1
  | some expr => match (env.eval expr).1 with
    | .ok v => v
    | .error _ => .str expr

theorem Define.get?_bind (d : Define) (env : Environment) :
    (d.bind env).get? d.name = some (d.value env) := by
  have stored (env : Environment) (v : Value) : (env.set d.name v).get? d.name = some v := by
    simp [Environment.get?, Environment.set]
  unfold bind value
  cases d.expr with
  | none => exact stored _ _
  | some expr =>
    dsimp only
    rcases env.eval expr with ⟨fault | v, after⟩ <;> exact stored _ _

/-- The ways in which a name that has been checked is bound to a value. -/
inductive BoundBy (name : String) : Value → (before after : Environment) → Prop where
  | definition (env : Environment) (src : String) (named : Text.trim src = name)
      (checked : Text.isIdentifier name = true) : BoundBy name (.int 1) env (env.define src).2
  | option (env : Environment) (text : String) (d : Define) (accepted : Define.parse text = .ok d)
      (named : d.name = name) : BoundBy name (d.value env) env (d.bind env)
  | label (s : Preprocessor) (place : Place) (e : Preprocessor.Emission) (o : OpenProgram)
      (current : s.current = some o) (labelled : Preprocessor.blockLabel? e.text = some name)
      (free : s.env.contains name = false) :
      BoundBy name (.int (Int64.ofNat o.program.outLine)) s.env (s.emit place e).env

namespace BoundBy

variable {name : String} {v : Value} {before after : Environment}

theorem isIdentifier (h : BoundBy name v before after) : Text.isIdentifier name = true := by
  cases h with
  | definition env src named checked => exact checked
  | option env text d accepted named => exact named ▸ Define.isIdentifier_of_parse accepted
  | label s place e o current labelled free => exact Preprocessor.isIdentifier_of_blockLabel? labelled

theorem get?_eq (h : BoundBy name v before after) : after.get? name = some v := by
  cases h with
  | definition env src named checked =>
    subst named
    rw [Environment.define_name checked]
    simp [Environment.get?, Environment.set]
  | option env text d accepted named =>
    subst named
    exact d.get?_bind before
  | label s place e o current labelled free =>
    exact (Preprocessor.appends_emit place current e).bound name labelled free

end BoundBy

/-- A text is a single token that is a name exactly if it is an identifier and no truth value, and it is the
identifiers that definitions and labels take for names. However such a name was bound, evaluating it under
any limit but zero gives the value it was bound to, and changes nothing. -/
theorem bound_names_read_back (name : String) :
    (Token.lexemes name = .ok [⟨.word name, 0⟩] ↔
      Text.isIdentifier name = true ∧ name ≠ "true" ∧ name ≠ "false") ∧
    (Define.parse name = .ok ⟨name, none⟩ ↔ Text.isIdentifier name = true) ∧
    (Preprocessor.blockLabel? ("N@" ++ name) = some name ↔ Text.isIdentifier name = true) ∧
    ∀ v before after, BoundBy name v before after →
      Text.isIdentifier name = true ∧ after.get? name = some v ∧
      (name ≠ "true" → name ≠ "false" → ∀ depth, 1 ≤ depth →
        after.run (Expr.evaluate name depth) = (.ok v, after)) := by
  refine ⟨?_, Define.parse_eq_ok_iff, Preprocessor.blockLabel?_eq_some_iff, ?_⟩
  · rw [Token.lexemes_eq_word_iff]
    exact ⟨fun h => ⟨h.identifier, h.notTrue, h.notFalse⟩, fun ⟨h, h', h''⟩ => ⟨h, h', h''⟩⟩
  · intro v before after bound
    refine ⟨bound.isIdentifier, bound.get?_eq, fun notTrue notFalse depth room => ?_⟩
    exact Environment.run_evaluate_name ⟨bound.isIdentifier, notTrue, notFalse⟩ room bound.get?_eq

def slotOption : Define := ⟨"SLOT", some "A + 3"⟩

def slotProgram : OpenProgram := ⟨{ Program.start "P" 7 ⟨"a.gp", 1⟩ [] .empty with outLine := 5 }, 1⟩

def slotState : Preprocessor := { Preprocessor.start .empty with current := some slotProgram }

def slotLine : Place := [⟨"a.gp", none, 2, "N@SLOT G0"⟩]

theorem slot_reads_back :
    (Environment.empty.define " SLOT ").2.run (Expr.evaluate "SLOT" 1) =
        (.ok (.int 1), (Environment.empty.define " SLOT ").2) ∧
      Define.parse "SLOT = A + 3" = .ok slotOption ∧
      (slotOption.bind .withConstants).run (Expr.evaluate "SLOT" 1) =
        (.ok (.int 4), slotOption.bind .withConstants) ∧
      (slotState.emit slotLine ⟨"N@SLOT G0", false⟩).env.run (Expr.evaluate "SLOT" 1) =
        (.ok (.int 5), (slotState.emit slotLine ⟨"N@SLOT G0", false⟩).env) := by
  have parsed : Expr.parse "A + 3" Environment.withConstants.maxDepth =
      .ok (.binary .add (.symbol "A" 0) (.literal (.int 3) 4) 2) := rfl
  have value : slotOption.value .withConstants = .int 4 := by
    simp only [Define.value, slotOption, Environment.eval, Expr.evaluate, parsed]
    rfl
  have read := (bound_names_read_back "SLOT").2.2.2
  have defined := (read _ _ _ (.definition .empty " SLOT " rfl rfl)).2.2
  have given := (read _ _ _ (.option .withConstants "SLOT = A + 3" slotOption rfl rfl)).2.2
  have labelled := (read _ _ _ (.label slotState slotLine ⟨"N@SLOT G0", false⟩ slotProgram rfl rfl rfl)).2.2
  rw [value] at given
  exact ⟨defined (by decide) (by decide) 1 (Nat.le_refl 1), rfl,
    given (by decide) (by decide) 1 (Nat.le_refl 1),
    labelled (by decide) (by decide) 1 (Nat.le_refl 1)⟩

theorem truth_value_not_read_back :
    Text.isIdentifier "true" = true ∧
      Environment.empty.define "true" = (.ok (.int 1), Environment.empty.set "true" (.int 1)) ∧
      (Environment.empty.define "true").2.get? "true" = some (.int 1) ∧
      ((Environment.empty.define "true").2.run (Expr.evaluate "true" 1)).1 = .ok (.bool true) ∧
      Token.lexemes "true" = .ok [⟨.value (.bool true), 0⟩] :=
  ⟨rfl, rfl, rfl, rfl, rfl⟩

end GcodePrep
