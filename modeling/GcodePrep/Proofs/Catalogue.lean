import GcodePrep.Proofs.StepEffects

set_option autoImplicit false

/-!
# Completed programs

The catalogue holds one program for each name, all of them completed. A run that reports nothing only
adds to it: a name that comes again is reported when its program is opened.
-/

namespace GcodePrep

namespace Catalogue

section

variable (c : Catalogue)

theorem position?_eq_none_iff {name : String} :
    c.position? name = none ↔ ∀ q ∈ c.programs, q.name ≠ name := by
  have stored := c.lookup_eq_position? name
  rw [c.indexed] at stored
  rw [← Option.map_eq_none_iff (f := Fin.val), ← stored, List.idxOf?_eq_none_iff]
  simp

theorem insert_cases (p : Program) :
    (∃ i, ∃ same : (c.programs.get i).name = p.name, c.position? p.name = some i ∧
      c.insert p = (some (c.programs.get i), c.replace p i same)) ∨
    (∀ q ∈ c.programs, q.name ≠ p.name) ∧ c.insert p = (none, c.append p) := by
  unfold insert
  split
  · rename_i i found
    exact .inl ⟨i, c.name_of_position? found, found, rfl⟩
  · rename_i new
    exact .inr ⟨c.position?_eq_none_iff.mp new, rfl⟩

theorem mem_insert_self (p : Program) : p ∈ (c.insert p).2.programs := by
  obtain ⟨i, same, -, eq⟩ | ⟨-, eq⟩ := c.insert_cases p <;> rw [eq]
  · exact List.mem_set i.isLt p
  · exact List.mem_append_right _ List.mem_cons_self

end

variable {c : Catalogue} {p q : Program}

theorem mem_of_mem_insert (h : q ∈ (c.insert p).2.programs) : q = p ∨ q ∈ c.programs := by
  obtain ⟨i, same, -, eq⟩ | ⟨-, eq⟩ := c.insert_cases p <;> rw [eq] at h
  · exact (List.mem_or_eq_of_mem_set h).symm
  · exact (List.mem_append.mp h).symm.imp_left List.mem_singleton.mp

theorem insert_of_new (new : ∀ q ∈ c.programs, q.name ≠ p.name) :
    (c.insert p).2.programs = c.programs ++ [p] := by
  obtain ⟨i, same, -, -⟩ | ⟨-, eq⟩ := c.insert_cases p
  · exact absurd same (new _ (List.get_mem _ _))
  · rw [eq]
    rfl

theorem nodup_names_insert (p : Program) (distinct : (c.programs.map Program.name).Nodup) :
    ((c.insert p).2.programs.map Program.name).Nodup := by
  obtain ⟨i, same, -, eq⟩ | ⟨new, eq⟩ := c.insert_cases p <;> rw [eq]
  · change ((c.programs.set i p).map Program.name).Nodup
    rwa [c.names_set same]
  · change ((c.programs ++ [p]).map Program.name).Nodup
    rw [List.map_append]
    exact List.nodup_append.mpr ⟨distinct, List.pairwise_singleton _ _, by simpa using new⟩

theorem ne_of_get?_eq_none {name : String} (h : c.get? name = none) :
    ∀ q ∈ c.programs, q.name ≠ name :=
  c.position?_eq_none_iff.mp (Option.map_eq_none_iff.mp h)

end Catalogue

namespace Preprocessor

/-- What holds of the programs at every point of every run. -/
structure Orderly (s : Preprocessor) : Prop where
  opened : ∀ o, s.current = some o → IsProgramName o.program.name
  stored : ∀ p ∈ s.programs.programs, p.done = true ∧ IsProgramName p.name
  distinct : (s.programs.programs.map Program.name).Nodup

/-- The open program has a name of its own. -/
def Fresh (s : Preprocessor) : Prop :=
  ∀ o, s.current = some o → s.programs.get? o.program.name = none

namespace Effect

variable {s s' : Preprocessor}

theorem orderly (h : Effect s s') (orderly : s.Orderly) : s'.Orderly := by
  obtain ⟨opened, stored, distinct⟩ := orderly
  cases h with
  | steady h =>
    rw [← h.programs] at stored distinct
    refine ⟨fun o' current => ?_, stored, distinct⟩
    obtain ⟨o, before, _, _, _, rfl⟩ := h.exists_current current
    exact opened o before
  | opens _ _ o current _ programs _ named =>
    rw [← programs] at stored distinct
    refine ⟨fun o' current' => ?_, stored, distinct⟩
    rw [current, Option.some.injEq] at current'
    exact current' ▸ named
  | refuses _ _ _ unopened _ programs =>
    rw [← programs] at stored distinct
    exact ⟨by simp [unopened], stored, distinct⟩
  | completes _ o program before _ outside programs name done =>
    have named := opened o before
    refine ⟨by simp [outside.1], fun p mem => ?_, ?_⟩
    · rw [programs] at mem
      rcases Catalogue.mem_of_mem_insert mem with rfl | mem
      · exact ⟨done, name ▸ named⟩
      · exact stored p mem
    · rw [programs]
      exact Catalogue.nodup_names_insert program distinct
  | abandons _ _ _ _ outside programs | leaves _ _ _ _ outside programs =>
    rw [← programs] at stored distinct
    exact ⟨by simp [outside.1], stored, distinct⟩

theorem fresh (h : Effect s s') (unreported : s'.log = s.log) (fresh : s.Fresh) :
    s'.Fresh ∧ s.programs.programs ⊆ s'.programs.programs := by
  cases h with
  | steady h =>
    refine ⟨fun o' current => ?_, by rw [h.programs]; exact List.Subset.refl _⟩
    obtain ⟨o, before, _, _, _, rfl⟩ := h.exists_current current
    rw [h.programs]
    exact fresh o before
  | opens _ _ o current _ programs _ _ new =>
    rw [Fresh, programs]
    refine ⟨fun o' current' => ?_, List.Subset.refl _⟩
    rw [current, Option.some.injEq] at current'
    exact current' ▸ new unreported
  | refuses _ _ _ unopened _ programs =>
    rw [Fresh, programs]
    exact ⟨by simp [unopened], List.Subset.refl _⟩
  | completes _ o program before _ outside programs name =>
    have new := Catalogue.ne_of_get?_eq_none (fresh o before)
    rw [← name] at new
    refine ⟨by simp [Fresh, outside.1], ?_⟩
    rw [programs, Catalogue.insert_of_new new]
    exact List.subset_append_left _ _
  | abandons _ _ _ _ outside programs | leaves _ _ _ _ outside programs =>
    rw [Fresh, programs]
    exact ⟨by simp [outside.1], List.Subset.refl _⟩

end Effect

end Preprocessor

namespace Traversal

open Preprocessor

variable {inclusion : Inclusion} {tree : FileTree}

theorem Reached.orderly {env : Environment} {t : Traversal} (h : Reached inclusion tree env t) :
    t.state.Orderly := by
  induction h with
  | fresh => exact ⟨nofun, nofun, .nil⟩
  | enter _ _ ih => exact ⟨ih.opened, ih.stored, ih.distinct⟩
  | unreadable _ _ _ ih => exact ⟨ih.opened, ih.stored, ih.distinct⟩
  | step h next ih => exact (next.effect h.exclusive).orderly ih

theorem Runs.keeps {t t' : Traversal} (run : Runs inclusion tree t t') (outside : t.state.Outside)
    (unreported : t'.state.log = t.state.log) :
    t'.state.Fresh ∧ t.state.programs.programs ⊆ t'.state.programs.programs := by
  have exclusive : t.state.Exclusive := .inl outside.1
  induction run with
  | refl => exact ⟨by simp [Fresh, outside.1], List.Subset.refl _⟩
  | tail run step ih =>
    have effect := step.effect (Runs.exclusive run exclusive)
    obtain ⟨first, last⟩ := (Runs.frame run exclusive).log_eq effect.frame unreported
    obtain ⟨fresh, kept⟩ := ih first
    obtain ⟨fresh', kept'⟩ := effect.fresh last fresh
    exact ⟨fresh', List.Subset.trans kept kept'⟩

end Traversal

end GcodePrep
