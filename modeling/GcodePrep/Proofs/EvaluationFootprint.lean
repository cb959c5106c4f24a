import GcodePrep.Proofs.Relocation

set_option autoImplicit false

/-!
# What evaluation touches

The evaluation of a tree, whether it ends in a value or in a fault, changes no binding but those of the
names assigned to in the tree, and removes none. What it yields depends on nothing but the names in the
tree.
-/

namespace GcodePrep

/-- Bindings `b'` differ from `b` in the values of these names only, and every name bound in `b` is
bound in `b'`. -/
structure Bindings.Grows (targets : List String) (b b' : Bindings) : Prop where
  kept : ∀ name, name ∉ targets → b'.get? name = b.get? name
  bound : ∀ name, b.contains name = true → b'.contains name = true

namespace Bindings.Grows

variable {targets : List String} {b b' b'' : Bindings}

theorem refl (targets : List String) (b : Bindings) : Grows targets b b := ⟨fun _ _ => rfl, fun _ => id⟩

theorem trans (h : Grows targets b b') (h' : Grows targets b' b'') : Grows targets b b'' :=
  ⟨fun name other => (h'.kept name other).trans (h.kept name other),
    fun name bound => h'.bound name (h.bound name bound)⟩

theorem set {name : String} (mem : name ∈ targets) (b : Bindings) (v : Value) :
    Grows targets b (b.set name v) := by
  refine ⟨fun other outside => ?_, fun other bound => ?_⟩
  · have unlike : name ≠ other := fun same => outside (same ▸ mem)
    rw [get?_set, if_neg unlike]
  · unfold contains at bound ⊢
    rw [get?_set]
    split
    · rfl
    · exact bound

end Bindings.Grows

namespace Bindings

def AgreeOn (names : List String) (b b' : Bindings) : Prop := ∀ name ∈ names, b.get? name = b'.get? name

theorem coupling_agreeOn (names targets : List String) : Coupling (AgreeOn names) names targets where
  get? agree := agree
  set agree name _ v other mem := by
    rw [get?_set, get?_set, agree other mem]

theorem coupling_grows (names targets : List String) (start : Bindings) :
    Coupling (fun b b' => b = b' ∧ start.Grows targets b) names targets where
  get? related name _ := by rw [related.1]
  set related name mem v := ⟨by rw [related.1], related.2.trans (.set mem _ v)⟩

end Bindings

namespace Expr

/-- However the evaluation of a tree ends, names that it does not assign to keep their values or stay
unbound, and no binding is removed. From two environments that agree on the names in the tree it ends
with the same value or the same fault, and the environments it leaves agree on these names again. -/
theorem evaluation_stays_in_footprint (e : Expr) (env : Environment) :
    (∀ name, name ∉ e.targets → (env.run e.eval).2.get? name = env.get? name) ∧
    (∀ name, env.contains name = true → (env.run e.eval).2.contains name = true) ∧
    ∀ env' : Environment, (∀ name ∈ e.names, env.get? name = env'.get? name) →
      (env'.run e.eval).1 = (env.run e.eval).1 ∧
        ∀ name ∈ e.names, (env.run e.eval).2.get? name = (env'.run e.eval).2.get? name := by
  have followed := tracks_eval (Bindings.coupling_grows e.names e.targets env.bindings) 0 e
    (List.Subset.refl _) (List.Subset.refl _)
  obtain ⟨-, -, changed⟩ := followed env.bindings env.bindings ⟨rfl, .refl _ _⟩
  refine ⟨changed.kept, changed.bound, fun env' agree => ?_⟩
  -- A tree moved by no bytes is the tree itself, so that both runs are runs of `e`.
  have tracked := tracks_eval (Bindings.coupling_agreeOn e.names e.targets) 0 e
    (List.Subset.refl _) (List.Subset.refl _)
  obtain ⟨same, after⟩ := tracked env.bindings env'.bindings agree
  rw [shift_zero, Fault.mapError_shift_zero] at same
  rw [shift_zero] at after
  exact ⟨same, after⟩

def faltering : Expr := chain [assign .add "A" (symbol "B" 5) 0, symbol "D" 8]

def sparse : Environment := (Environment.empty.set "A" (.int 1)).set "B" (.int 2)

/-- Two more names, one of which the tree knows nothing of; the other is the name of a function. -/
def crowded : Environment := (sparse.set "X" (.str "left alone")).set "abs" (.int 3)

theorem faltering_stays_in_footprint :
    parse "A += B; D" 64 = .ok faltering ∧ faltering.targets = ["A"] ∧
      (sparse.run faltering.eval).1 = .error (.atOffset (.undefined "D") 8) ∧
      (sparse.run faltering.eval).2.get? "A" = some (.int 3) ∧
      (crowded.run faltering.eval).2.get? "X" = crowded.get? "X" ∧
      (crowded.run faltering.eval).1 = (sparse.run faltering.eval).1 ∧
      (sparse.run faltering.eval).2.get? "A" = (crowded.run faltering.eval).2.get? "A" := by
  have agree : ∀ name ∈ faltering.names, sparse.get? name = crowded.get? name := by
    intro name mem
    obtain rfl | rfl | rfl : name = "A" ∨ name = "B" ∨ name = "D" := by
      simpa [faltering, names, namesAll] using mem
    all_goals rfl
  obtain ⟨-, -, again⟩ := evaluation_stays_in_footprint faltering sparse
  obtain ⟨same, after⟩ := again crowded agree
  have kept := (evaluation_stays_in_footprint faltering crowded).1 "X" (by decide)
  exact ⟨rfl, rfl, rfl, rfl, kept, same, after "A" List.mem_cons_self⟩

end Expr

end GcodePrep
