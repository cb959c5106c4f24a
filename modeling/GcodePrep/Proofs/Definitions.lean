import GcodePrep.Proofs.Chaining
import GcodePrep.Proofs.CompletedAssignments

set_option autoImplicit false

/-!
# Definitions are evaluated assignments

A definition that is not a name alone is either refused as a whole, before anything is evaluated, or
evaluated like any other source. What a failed evaluation leaves are the assignments it has completed.
-/

namespace GcodePrep

namespace Expr

open Eval

theorem on_chain_statements (e : Expr) (b : Bindings) : (chain e.statements).eval.on b = e.eval.on b := by
  cases e with
  | chain items => rfl
  | literal | symbol | unary | binary | choice | assign | call => exact on_chain_one _ b

theorem Filled.statements_ne_nil {e : Expr} (h : e.Filled) : e.statements ≠ [] := by
  cases e with
  | chain items => exact h.1
  | literal | symbol | unary | binary | choice | assign | call => exact List.cons_ne_nil _ _

theorem on_statements_of_fails {e : Expr} (some_statements : e.statements ≠ []) {b c : Bindings}
    {fault : Fault} (fails : e.eval.on b = (.error fault, c)) :
    (evalAll e.statements).on b = (.error fault, c) := by
  rw [← on_chain_statements, eval, on_bind] at fails
  rcases all : (evalAll e.statements).on b with ⟨fault' | values, c'⟩
  · rw [all] at fails
    cases fails
    rfl
  · have some_values := evalAll_ne_nil some_statements (congrArg Prod.fst all)
    obtain ⟨v, last⟩ := Option.ne_none_iff_exists'.mp (mt List.getLast?_eq_none_iff.mp some_values)
    rw [all] at fails
    dsimp only at fails
    rw [last] at fails
    cases fails

theorem breaksOff_of_fails {e : Expr} (some_statements : e.statements ≠ []) {b c : Bindings}
    {fault : Fault} (fails : e.eval.on b = (.error fault, c)) : BreaksOff b e.statements fault c := by
  obtain ⟨made, outcome, performs⟩ := exists_performsAll e.statements b
  have same := performs.on_eq.symm.trans (on_statements_of_fails some_statements fails)
  obtain ⟨rfl, rfl⟩ := Prod.mk.inj same
  exact performs.breaksOff

end Expr

namespace Environment

theorem define_name {env : Environment} {src : String} (name : Text.isIdentifier (Text.trim src) = true) :
    env.define src = (.ok (.int 1), env.set (Text.trim src) (.int 1)) :=
  if_pos name

section

variable {env : Environment} {src : String} (unnamed : Text.isIdentifier (Text.trim src) = false)

include unnamed

theorem define_of_parse_error {fault : Fault}
    (parsed : Expr.parse (Text.trim src) env.maxDepth = .error fault) :
    env.define src = (.error fault, env) := by
  simp only [define, unnamed, parsed]
  rfl

theorem define_of_other_statement {e statement : Expr}
    (parsed : Expr.parse (Text.trim src) env.maxDepth = .ok e) (mem : statement ∈ e.statements)
    (other : statement.isAssignment = false) :
    ∃ fault : Fault, fault.cause = .notAssignment ∧ env.define src = (.error fault, env) := by
  have found : (e.statements.find? (!·.isAssignment)).isSome = true :=
    List.find?_isSome.mpr ⟨statement, mem, by simp [other]⟩
  obtain ⟨bad, found⟩ := Option.isSome_iff_exists.mp found
  refine ⟨⟨.notAssignment, bad.reportOffset?⟩, rfl, ?_⟩
  simp only [define, unnamed, parsed, found]
  rfl

theorem define_of_assignments {e : Expr} (parsed : Expr.parse (Text.trim src) env.maxDepth = .ok e)
    (assignments : ∀ statement ∈ e.statements, statement.isAssignment = true) :
    env.define src = env.run e.eval := by
  have found : e.statements.find? (!·.isAssignment) = none :=
    List.find?_eq_none.mpr fun statement mem => by simp [assignments statement mem]
  simp only [define, unnamed, parsed, found]
  rfl

end

/-- A definition that is a name, blanks around it apart, binds that name to 1 and changes nothing else. Any
other definition is refused when it does not parse within the depth limit, or when one of its statements
is not an assignment, wherever that stands and whatever it assigns to inside; nothing is changed then. A
definition of assignments only is the evaluation of its text. If that fails, it breaks off in one of the
statements, with what the statements before it and the assignments completed inside it have bound. -/
theorem definition_refused_or_evaluated (env : Environment) (src : String) :
    (Text.isIdentifier (Text.trim src) = true →
      (env.define src).1 = .ok (.int 1) ∧ (env.define src).2.maxDepth = env.maxDepth ∧
      ∀ name, (env.define src).2.get? name =
        if Text.trim src = name then some (.int 1) else env.get? name) ∧
    (Text.isIdentifier (Text.trim src) = false →
      match Expr.parse (Text.trim src) env.maxDepth with
      | .error fault => env.define src = (.error fault, env)
      | .ok e =>
        ((∃ statement ∈ e.statements, statement.isAssignment = false) →
          ∃ fault : Fault, fault.cause = .notAssignment ∧ env.define src = (.error fault, env)) ∧
        ((∀ statement ∈ e.statements, statement.isAssignment = true) →
          env.define src = env.eval (Text.trim src) ∧
          ∀ fault, (env.define src).1 = .error fault →
            Expr.BreaksOff env.bindings e.statements fault (env.define src).2.bindings ∧
              (env.define src).2.maxDepth = env.maxDepth)) := by
  constructor
  · intro name
    rw [define_name name]
    exact ⟨rfl, rfl, fun other => Bindings.get?_set env.bindings _ other _⟩
  · intro unnamed
    cases parsed : Expr.parse (Text.trim src) env.maxDepth with
    | error fault => exact define_of_parse_error unnamed parsed
    | ok e =>
      refine ⟨fun ⟨_, mem, other⟩ => define_of_other_statement unnamed parsed mem other, ?_⟩
      intro assignments
      rw [define_of_assignments unnamed parsed assignments]
      refine ⟨by rw [eval, Expr.evaluate_eq parsed], fun fault failed => ?_⟩
      have fails : e.eval.on env.bindings = (.error fault, (e.eval.on env.bindings).2) :=
        Prod.ext failed rfl
      exact ⟨Expr.breaksOff_of_fails (Expr.parse_filled parsed).statements_ne_nil fails, rfl⟩

def hiddenAssignment : Expr :=
  .chain [.assign .set "A" (.literal (.int 1) 4) 0,
    .call "max" [.assign .set "B" (.literal (.int 2) 15) 11, .literal (.int 3) 18] 7]

/-- The second assignment fails when the one inside it is completed; the third is not reached. -/
def brokenOff : Expr :=
  .chain [.assign .set "A" (.literal (.int 1) 4) 0,
    .assign .set "B" (.binary .add (.assign .set "C" (.literal (.int 2) 16) 12) (.symbol "D" 21) 19) 7,
    .assign .set "E" (.literal (.int 3) 28) 24]

theorem definitions_refused_and_broken_off :
    (empty.define " X ").2.get? "X" = some (.int 1) ∧
    (∃ fault : Fault, fault.cause = .notAssignment ∧
      empty.define "A = 1, max(B = 2, 3)" = (.error fault, empty)) ∧
    (empty.define "A = 1, B = (C = 2) + D, E = 3").2.bindings.entries = [("A", .int 1), ("C", .int 2)] ∧
    Expr.BreaksOff .empty brokenOff.statements (.atOffset (.undefined "D") 21)
      (empty.define "A = 1, B = (C = 2) + D, E = 3").2.bindings := by
  obtain ⟨-, -, bound⟩ := (definition_refused_or_evaluated empty " X ").1 (by decide)
  have refused := (definition_refused_or_evaluated empty "A = 1, max(B = 2, 3)").2 (by decide)
  have parsed : Expr.parse (Text.trim "A = 1, max(B = 2, 3)") empty.maxDepth = .ok hiddenAssignment := rfl
  rw [parsed] at refused
  refine ⟨bound "X", refused.1 ⟨_, .tail _ (.head _), rfl⟩, ?_⟩
  have unnamed : Text.isIdentifier (Text.trim "A = 1, B = (C = 2) + D, E = 3") = false := by decide
  have evaluated := (definition_refused_or_evaluated empty "A = 1, B = (C = 2) + D, E = 3").2 unnamed
  have parsed' : Expr.parse (Text.trim "A = 1, B = (C = 2) + D, E = 3") empty.maxDepth = .ok brokenOff := rfl
  rw [parsed'] at evaluated
  have assignments : ∀ statement ∈ brokenOff.statements, statement.isAssignment = true := by
    simp [brokenOff, Expr.statements, Expr.isAssignment]
  obtain ⟨-, failing⟩ := evaluated.2 assignments
  -- The run of the tree can be computed as it stands; that of the text would parse it over and over.
  rw [define_of_assignments unnamed parsed' assignments] at failing ⊢
  exact ⟨rfl, (failing _ rfl).1⟩

end Environment

end GcodePrep
