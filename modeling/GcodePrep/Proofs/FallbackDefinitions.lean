import GcodePrep.Proofs.CompletedAssignments
import GcodePrep.Proofs.EvaluationFootprint
import GcodePrep.Session.Run

set_option autoImplicit false

/-!
# Definitions that fall back to text

A definition whose value does not evaluate binds its name to the text of the value. The evaluation may
have completed assignments before it failed, and these stay: a name other than the defined one has its
old value exactly if the last of them that concerns it has stored that value again.
-/

namespace GcodePrep

theorem Bindings.get?_after (b : Bindings) (made : List (String × Value)) (name : String) :
    (b.after made).get? name = (made.reverse.lookup name).or (b.get? name) := by
  induction made generalizing b with
  | nil => rfl
  | cons assignment made ih =>
    obtain ⟨target, v⟩ := assignment
    change ((b.set target v).after made).get? name = _
    rw [ih, get?_set, List.reverse_cons, List.lookup_append, Option.or_assoc]
    by_cases same : target = name
    · simp [same]
    · have absent : [(target, v)].lookup name = none :=
        List.lookup_eq_none_iff.mpr (by simpa using Ne.symm same)
      rw [if_neg same, absent, Option.none_or]

namespace Environment

/-- The assignments that a source text completes before it fails: none, if it does not parse. -/
def CompletesBefore (env : Environment) (src : String) (fault : Fault) (made : List (String × Value)) :
    Prop :=
  match Expr.parse src env.maxDepth with
  | .error refused => refused = fault ∧ made = []
  | .ok e => e.Performs env.bindings made (.error fault)

theorem exists_completesBefore {env : Environment} {src : String} {fault : Fault}
    (fails : (env.eval src).1 = .error fault) :
    ∃ made, env.CompletesBefore src fault made ∧
      (env.eval src).2 = { env with bindings := env.bindings.after made } := by
  unfold CompletesBefore
  rw [eval, run_eq, Expr.evaluate] at fails ⊢
  cases parsed : Expr.parse src env.maxDepth with
  | error refused =>
    rw [parsed] at fails
    cases fails
    exact ⟨[], ⟨rfl, rfl⟩, rfl⟩
  | ok e =>
    rw [parsed] at fails
    obtain ⟨made, outcome, performs⟩ := Expr.exists_performs e env.bindings
    dsimp only at fails ⊢
    rw [performs.on_eq] at fails ⊢
    cases fails
    exact ⟨made, performs, rfl⟩

theorem get?_eval_of_not_target {env : Environment} {src name : String}
    (spared : ∀ e, Expr.parse src env.maxDepth = .ok e → name ∉ e.targets) :
    (env.eval src).2.get? name = env.get? name := by
  rw [eval, run_eq, Expr.evaluate]
  cases parsed : Expr.parse src env.maxDepth with
  | error refused => rfl
  | ok e =>
    have followed := Expr.tracks_eval (Bindings.coupling_grows e.names e.targets env.bindings) 0 e
      (List.Subset.refl _) (List.Subset.refl _)
    obtain ⟨-, -, changed⟩ := followed env.bindings env.bindings ⟨rfl, .refl _ _⟩
    exact changed.kept name (spared e parsed)

end Environment

namespace Define

variable {d : Define} {env : Environment} {expr : String} {fault : Fault}

theorem bind_of_fails (given : d.expr = some expr) (fails : (env.eval expr).1 = .error fault) :
    d.bind env = (env.eval expr).2.set d.name (.str expr) := by
  unfold bind
  rw [given]
  dsimp only
  rcases evaluated : env.eval expr with ⟨outcome, after⟩
  rw [evaluated] at fails
  cases fails
  rfl

theorem get?_bind_of_fails (given : d.expr = some expr) (fails : (env.eval expr).1 = .error fault)
    (name : String) :
    (d.bind env).get? name = if d.name = name then some (.str expr) else (env.eval expr).2.get? name := by
  rw [bind_of_fails given fails]
  exact Bindings.get?_set _ _ _ _

/-- A definition whose value does not evaluate binds its name to the text of the value. Any other name has
the value that the completed assignments of the failed evaluation have left it; so all of them are as
before exactly if these assignments have stored nothing new in the end, and certainly if the text assigns
to no other name, or does not parse. -/
theorem text_bound_over_completed_assignments (d : Define) (env : Environment) (expr : String)
    (fault : Fault) (given : d.expr = some expr) (fails : (env.eval expr).1 = .error fault) :
    (d.bind env).get? d.name = some (.str expr) ∧ (d.bind env).maxDepth = env.maxDepth ∧
    (∃ made, env.CompletesBefore expr fault made ∧
      (∀ other, other ≠ d.name →
        (d.bind env).get? other = (made.reverse.lookup other).or (env.get? other)) ∧
      ((∀ other, other ≠ d.name → (d.bind env).get? other = env.get? other) ↔
        ∀ other v, other ≠ d.name → made.reverse.lookup other = some v → env.get? other = some v)) ∧
    ((∀ e, Expr.parse expr env.maxDepth = .ok e → ∀ name ∈ e.targets, name = d.name) →
      ∀ other, other ≠ d.name → (d.bind env).get? other = env.get? other) := by
  have bound := get?_bind_of_fails given fails
  obtain ⟨made, completed, left⟩ := Environment.exists_completesBefore fails
  have others (other : String) (unlike : other ≠ d.name) :
      (d.bind env).get? other = (made.reverse.lookup other).or (env.get? other) := by
    rw [bound, if_neg unlike.symm, left]
    exact Bindings.get?_after _ _ _
  refine ⟨by rw [bound, if_pos rfl], ?_, ⟨made, completed, others, ?_⟩, ?_⟩
  · rw [bind_of_fails given fails, left]
    rfl
  · constructor
    · intro kept other v unlike stored
      rw [← kept other unlike, others other unlike, stored, Option.some_or]
    · intro again other unlike
      rw [others other unlike]
      cases stored : made.reverse.lookup other with
      | none => rw [Option.none_or]
      | some v => rw [Option.some_or, again other v unlike stored]
  · intro spared other unlike
    rw [bound, if_neg unlike.symm]
    exact Environment.get?_eval_of_not_target fun e parsed mem => unlike (spared e parsed other mem)

def selfNamed : Define := ⟨"NOTE", some "NOTE = 1; retract"⟩

theorem selfNamed_leaves_others :
    (Environment.withConstants.eval "NOTE = 1; retract").1 = .error (.atOffset (.undefined "retract") 10) ∧
      (selfNamed.bind .withConstants).get? "NOTE" = some (.str "NOTE = 1; retract") ∧
      ∀ other, other ≠ "NOTE" →
        (selfNamed.bind .withConstants).get? other = Environment.withConstants.get? other := by
  have parsed : Expr.parse "NOTE = 1; retract" Environment.withConstants.maxDepth =
      .ok (.chain [.assign .set "NOTE" (.literal (.int 1) 7) 0, .symbol "retract" 10]) := rfl
  have fails : (Environment.withConstants.eval "NOTE = 1; retract").1 =
      .error (.atOffset (.undefined "retract") 10) := by
    rw [Environment.eval, Expr.evaluate, parsed]
    rfl
  obtain ⟨bound, -, -, spared⟩ :=
    text_bound_over_completed_assignments selfNamed .withConstants _ _ rfl fails
  refine ⟨fails, bound, spared fun e parsed' name mem => ?_⟩
  rw [parsed] at parsed'
  cases parsed'
  exact List.mem_singleton.mp mem

def retraction : Define := ⟨"NOTE", some "Z = 0; retract"⟩

theorem retraction_rebinds_letter :
    Define.parse "NOTE=Z = 0; retract" = .ok retraction ∧
      Environment.withConstants.get? "Z" = some (.int 26) ∧
      (Environment.withConstants.eval "Z = 0; retract").1 = .error (.atOffset (.undefined "retract") 7) ∧
      (retraction.bind .withConstants).get? "NOTE" = some (.str "Z = 0; retract") ∧
      (retraction.bind .withConstants).get? "Z" = some (.int 0) := by
  have parsed : Expr.parse "Z = 0; retract" Environment.withConstants.maxDepth =
      .ok (.chain [.assign .set "Z" (.literal (.int 0) 4) 0, .symbol "retract" 7]) := rfl
  have fails : (Environment.withConstants.eval "Z = 0; retract").1 =
      .error (.atOffset (.undefined "retract") 7) := by
    rw [Environment.eval, Expr.evaluate, parsed]
    rfl
  have bound := get?_bind_of_fails (d := retraction) rfl fails
  refine ⟨rfl, rfl, fails, bound "NOTE", (bound "Z").trans ?_⟩
  rw [Environment.eval, Expr.evaluate, parsed]
  rfl

end Define

end GcodePrep
