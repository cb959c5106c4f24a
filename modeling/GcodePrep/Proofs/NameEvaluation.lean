import GcodePrep.Environment
import GcodePrep.Text.Split

set_option autoImplicit false

/-!
# Evaluation of a name

A source text that is a single name evaluates to what the name is bound to and changes no binding,
provided that expressions may be entered at all.
-/

namespace GcodePrep

/-- A name that stands for a binding and not for a truth value. -/
structure IsName (name : String) : Prop where
  identifier : Text.isIdentifier name = true
  notTrue : name ≠ "true"
  notFalse : name ≠ "false"

namespace IsName

theorem exists_cons {name : String} (h : IsName name) :
    ∃ c cs, name.toList = c :: cs ∧ Text.isWordStart c = true ∧ ∀ d ∈ cs, Text.isWordChar d = true :=
  Text.exists_cons_of_isIdentifier h.identifier

theorem toList_ne_nil {name : String} (h : IsName name) : name.toList ≠ [] := by
  obtain ⟨c, cs, chars, -⟩ := h.exists_cons
  rw [chars]
  exact List.cons_ne_nil c cs

theorem isWordChar_of_mem {name : String} (h : IsName name) :
    ∀ c ∈ name.toList, Text.isWordChar c = true :=
  Text.isWordChar_of_isIdentifier h.identifier

end IsName

namespace Token

theorem not_isDigit_of_isWordStart {c : Char} (h : Text.isWordStart c = true) : c.isDigit = false := by
  simp only [Text.isWordStart, Bool.or_eq_true, beq_iff_eq] at h
  rcases h with alpha | rfl
  · have letter : (decide (65 ≤ c.val ∧ c.val ≤ 90) || 97 ≤ c.val && c.val ≤ 122) = true := alpha
    have unlike : ¬ (48 ≤ c.val && c.val ≤ 57) = true := by
      simp only [Bool.or_eq_true, Bool.and_eq_true, decide_eq_true_eq, UInt32.le_iff_toNat_le,
        UInt32.reduceToNat] at letter ⊢
      omega
    exact eq_false_of_ne_true unlike
  · decide

theorem startsNumber_eq_isDigit {c : Char} (point : c ≠ '.') (cs : List Char) :
    startsNumber (c :: cs) = c.isDigit := by
  unfold startsNumber
  split
  · rename_i eq
    exact absurd (List.cons.inj eq).1 point
  · rename_i eq
    rw [← (List.cons.inj eq).1]
  · rename_i eq
    cases eq

theorem read_word {c : Char} {cs : List Char} (start : Text.isWordStart c = true)
    (word : ∀ c ∈ cs, Text.isWordChar c = true) (rest : List Char)
    (stop : ∀ d, rest.head? = some d → Text.isWordChar d = false) :
    read c (cs ++ rest) = .ok (ofWord (String.ofList (c :: cs)), cs.length + 1) := by
  have digit := not_isDigit_of_isWordStart start
  have point : c ≠ '.' := by
    rintro rfl
    exact absurd start (by decide)
  have number : startsNumber (c :: (cs ++ rest)) = false := by
    rw [startsNumber_eq_isDigit point, digit]
  have quote : (c == '"' || c == '\'') = false := by
    simp only [Bool.or_eq_false_iff, beq_eq_false_iff_ne]
    constructor <;> rintro rfl <;> exact absurd start (by decide)
  simp [read, number, quote, start, Text.takeWhile_run word stop]

theorem lexemesFrom_skip (offset : Nat) (cs : List Char) : lexemesFrom cs.length offset cs = .ok [] := by
  induction cs generalizing offset with
  | nil => rfl
  | cons c cs ih => exact ih _

theorem not_isSpace_of_isWordStart {c : Char} (start : Text.isWordStart c = true) :
    Text.isSpace c = false := by
  rw [← Bool.not_eq_true]
  intro space
  simp only [Text.isSpace, Bool.or_eq_true, beq_iff_eq] at space
  rcases space with (((rfl | rfl) | rfl) | rfl) | rfl <;> exact absurd start (by decide)

theorem ofWord_name {name : String} (h : IsName name) : ofWord name = .word name := by
  simp [ofWord, h.notTrue, h.notFalse]

theorem lexemes_name {name : String} (h : IsName name) : lexemes name = .ok [⟨.word name, 0⟩] := by
  obtain ⟨c, cs, chars, start, word⟩ := h.exists_cons
  have same : String.ofList (c :: cs) = name := by rw [← chars, String.ofList_toList]
  have first := read_word start word [] nofun
  rw [List.append_nil, same, ofWord_name h] at first
  simp [lexemes, chars, lexemesFrom, not_isSpace_of_isWordStart start, first, lexemesFrom_skip, Except.map]

end Token

namespace Expr

theorem parse_name {name : String} (h : IsName name) (depth : Nat) :
    parse name (depth + 1) = .ok (.symbol name 0) := by
  unfold parse
  rw [Token.lexemes_name h]
  cases depth <;> rfl

theorem parse_name_zero {name : String} (h : IsName name) : ∃ fault, parse name 0 = .error fault := by
  unfold parse
  rw [Token.lexemes_name h]
  exact ⟨_, rfl⟩

end Expr

theorem Eval.run_lookup {b : Bindings} {name : String} {value : Value} (offset : Nat)
    (bound : b.get? name = some value) : ((Eval.lookup name offset).run.run b).run = (.ok value, b) := by
  have got : (get : Eval Bindings).run.run b = pure (.ok b, b) := rfl
  simp only [Eval.lookup, ExceptT.run_bind, StateT.run_bind, got, pure_bind, bound]
  rfl

namespace Environment

theorem run_evaluate_name {env : Environment} {name : String} {value : Value} (h : IsName name)
    {depth : Nat} (room : 0 < depth) (bound : env.get? name = some value) :
    env.run (Expr.evaluate name depth) = (.ok value, env) := by
  obtain ⟨depth, rfl⟩ := Nat.exists_eq_add_of_le' room
  simp only [Expr.evaluate, Expr.parse_name h, run, Expr.eval, Eval.run_lookup 0 bound]

theorem eval_name {env : Environment} {name : String} {value : Value} (h : IsName name)
    (room : 0 < env.maxDepth) (bound : env.get? name = some value) :
    env.eval name = (.ok value, env) :=
  run_evaluate_name h room bound

theorem eval_name_of_no_room {env : Environment} {name : String} (h : IsName name)
    (noRoom : env.maxDepth = 0) : ∃ fault, env.eval name = (.error fault, env) := by
  obtain ⟨fault, eq⟩ := Expr.parse_name_zero h
  refine ⟨fault, ?_⟩
  simp only [eval, Expr.evaluate, noRoom, eq]
  rfl

end Environment

end GcodePrep
