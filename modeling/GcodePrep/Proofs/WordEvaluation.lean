import GcodePrep.Proofs.EvaluationRuns
import GcodePrep.Proofs.NameEvaluation
import GcodePrep.Proofs.NumberTexts
import GcodePrep.Proofs.ParserSoundness

set_option autoImplicit false

/-!
# Evaluation of a word

A word has no punctuation in it, so that all its tokens are operands; and the only sentences without
marks are a value and a name. Hence a word, whether it is a name or not and whatever it evaluates to,
changes no binding.
-/

namespace GcodePrep

namespace Token

def IsOperand : Token → Prop
  | value v => v.isText = false
  | word _ => True
  | quoted _ | mark _ => False

theorem ofNat?_not_isText {n : Nat} {v : Value} (h : ofNat? n = some v) : v.isText = false := by
  obtain ⟨m, -, rfl⟩ := Option.map_eq_some_iff.mp h
  rfl

theorem decimalValue_not_isText {body : List Char} {exponent : Option Int} {v : Value}
    (h : decimalValue body exponent = some v) : v.isText = false := by
  unfold decimalValue at h
  dsimp only at h
  split at h
  · rcases Option.or_eq_some_iff.mp h with int | ⟨-, float⟩
    · exact ofNat?_not_isText int
    · cases float
      rfl
  · cases h
    rfl
  · split at h
    · cases h
      rfl
    · cases h

theorem readNumber_not_isText {cs : List Char} {r : Value × Nat} (h : readNumber cs = .ok r) :
    r.1.isText = false := by
  have hex {letter : Char} {cs : List Char} (h : readHex letter cs = .ok r) : r.1.isText = false := by
    simp only [readHex] at h
    split at h <;> cases h
    rename_i given
    split at given
    · cases given
    · exact ofNat?_not_isText given
  unfold readNumber at h
  split at h
  · exact hex h
  · exact hex h
  · simp only [readDecimal] at h
    split at h <;> cases h
    rename_i given
    exact decimalValue_not_isText given

theorem isOperand_ofWord (name : String) : (ofWord name).IsOperand := by
  unfold ofWord
  split
  · rfl
  · split
    · rfl
    · trivial

theorem startsNumber_of_not_isWordStart {c : Char} (word : Text.isWordChar c = true)
    (start : ¬ Text.isWordStart c = true) (cs : List Char) : startsNumber (c :: cs) = true := by
  have digit : c.isDigit = true := by
    simp only [Text.isWordStart, Text.isWordChar, Char.isAlphanum, Bool.or_eq_true, not_or] at word start
    rcases word with (letter | digit) | underscore
    · exact absurd letter start.1
    · exact digit
    · exact absurd underscore start.2
  rwa [startsNumber_eq_isDigit]
  rintro rfl
  exact absurd digit (by decide)

theorem isOperand_of_read {c : Char} {cs : List Char} (word : Text.isWordChar c = true)
    {r : Token × Nat} (h : read c cs = .ok r) : r.1.IsOperand := by
  unfold read at h
  split at h
  · cases found : readNumber (c :: cs) with
    | error defect =>
      rw [found] at h
      cases h
    | ok v =>
      rw [found] at h
      cases h
      exact readNumber_not_isText found
  · rename_i number
    split at h
    · rename_i quote
      simp only [Bool.or_eq_true, beq_iff_eq] at quote
      rcases quote with rfl | rfl <;> exact absurd word (by decide)
    · split at h
      · cases h
        exact isOperand_ofWord _
      · -- A character of a word that begins no word is a digit, and begins a number.
        rename_i start
        exact absurd (startsNumber_of_not_isWordStart word start cs) number

theorem isOperand_of_mem_lexemesFrom {skip offset : Nat} {cs : List Char} {ts : List Lexeme}
    (word : ∀ c ∈ cs, Text.isWordChar c = true) (h : lexemesFrom skip offset cs = .ok ts) :
    ∀ t ∈ ts, t.token.IsOperand := by
  fun_induction lexemesFrom skip offset cs generalizing ts with
  | case1 skip offset =>
    cases h
    exact List.forall_mem_nil _
  | case2 offset skip c cs ih => exact ih (List.forall_mem_cons.mp word).2 h
  | case3 offset c cs space ih => exact ih (List.forall_mem_cons.mp word).2 h
  | case4 => cases h
  | case5 offset c cs space token size found ih =>
    obtain ⟨first, others⟩ := List.forall_mem_cons.mp word
    cases read : lexemesFrom (size - 1) (offset + c.utf8Size) cs with
    | error defect =>
      rw [read] at h
      cases h
    | ok us =>
      rw [read] at h
      cases h
      exact List.forall_mem_cons.mpr ⟨isOperand_of_read first found, ih others read⟩

end Token

namespace Grammar

inductive Atom : Expr → Prop where
  | value {v : Value} (other : v.isText = false) (offset : Nat) : Atom (.literal v offset)
  | name (name : String) (offset : Nat) : Atom (.symbol name offset)

section

variable {ts : List Lexeme} {e : Expr}

theorem atom_of_unary (h : Derives .unary ts e) (operands : ∀ t ∈ ts, t.token.IsOperand) : Atom e := by
  cases h with
  | sign => exact (operands _ List.mem_cons_self).elim
  | primary h =>
    cases h with
    | value v offset => exact .value (operands _ List.mem_cons_self) offset
    | symbol name offset => exact .name name offset
    | quoted | parenthesised => exact (operands _ List.mem_cons_self).elim
    | emptyCall | call => exact (operands _ (List.mem_cons_of_mem _ List.mem_cons_self)).elim

theorem atom_of_assignment (h : Derives .assignment ts e) (operands : ∀ t ∈ ts, t.token.IsOperand) :
    Atom e := by
  cases h with
  | assign => exact (operands _ (List.mem_cons_of_mem _ List.mem_cons_self)).elim
  | ternary h =>
    cases h with
    | choice => exact (operands _ (List.mem_append_right _ List.mem_cons_self)).elim
    | condition h =>
      refine Level.induction (P := fun ts e => (∀ t ∈ ts, t.token.IsOperand) → Atom e)
        (fun _ _ h => atom_of_unary h) ?_ .or h operands
      intro l ts left m op _ _ offset us right _ operands
      exact (operands _ (List.mem_append_right _ List.mem_cons_self)).elim

theorem atom_of_statements {es : List Expr} (h : Statements ts es)
    (operands : ∀ t ∈ ts, t.token.IsOperand) : Atom (sequenceTree es) := by
  cases h with
  | one h => exact atom_of_assignment h operands
  | more _ separator =>
    cases separator <;>
      exact (operands _ (List.mem_append_right _ List.mem_cons_self)).elim

theorem Sentence.atom (h : Sentence ts e) (operands : ∀ t ∈ ts, t.token.IsOperand) : Atom e := by
  cases h with
  | plain _ statements =>
    exact atom_of_statements statements fun t mem => operands t (List.mem_append_right _ mem)
  | separated _ statements _ =>
    exact atom_of_statements statements fun t mem =>
      operands t (List.mem_append_right _ (List.mem_append_left _ mem))

end

end Grammar

namespace Environment

theorem eval_word (env : Environment) {word : List Char} (chars : ∀ c ∈ word, Text.isWordChar c = true) :
    (env.eval (String.ofList word)).2 = env ∧
      ∀ v, (env.eval (String.ofList word)).1 = .ok v → v.isText = true → ∃ name, env.get? name = some v := by
  have parsed (e : Expr) (h : Expr.parse (String.ofList word) env.maxDepth = .ok e) : Grammar.Atom e := by
    unfold Expr.parse at h
    split at h
    · cases h
    · rename_i ts lexed
      rw [Token.lexemes, String.toList_ofList] at lexed
      exact (Parser.ofLexemes_sound _ h).atom (Token.isOperand_of_mem_lexemesFrom chars lexed)
  rw [eval, run_eq, Expr.evaluate]
  cases outcome : Expr.parse (String.ofList word) env.maxDepth with
  | error fault =>
    refine ⟨rfl, fun v ok _ => ?_⟩
    cases ok
  | ok e =>
    cases parsed e outcome with
    | value other offset =>
      refine ⟨rfl, fun v ok text => ?_⟩
      cases ok
      rw [other] at text
      cases text
    | name name offset =>
      dsimp only
      rw [Expr.eval, Eval.on_lookup]
      cases found : env.bindings.get? name with
      | none =>
        refine ⟨rfl, fun v ok _ => ?_⟩
        cases ok
      | some v =>
        refine ⟨rfl, fun w ok _ => ?_⟩
        cases ok
        exact ⟨name, found⟩

end Environment

end GcodePrep
