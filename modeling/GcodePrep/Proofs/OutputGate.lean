import GcodePrep.Proofs.ProgramFiles

set_option autoImplicit false

/-!
# All or nothing

An input with an error asks nothing of the destination, and neither does one with a warning where
warnings count as errors. Any other input asks for its directory and then, once, for the file of every
program. The gate looks at counts, so it has to be shown that the counts are those of the diagnostics,
in every report.
-/

namespace GcodePrep

namespace Traversal

variable {inclusion : Inclusion} {tree : FileTree} {env : Environment}

theorem Reached.counted {t : Traversal} (h : Reached inclusion tree env t) : t.state.log.Counted := by
  induction h with
  | fresh => exact Log.counted_empty
  | enter _ _ ih => exact ih
  | unreadable _ _ _ ih => exact ih.add _
  | step h next ih =>
    obtain ⟨ds, log⟩ := (next.effect h.exclusive).frame.log
    rw [log]
    exact ih.addAll ds

end Traversal

/-- The gate in terms of what was recorded. -/
def Config.Blocked (c : Config) (recorded : List Diagnostic) : Prop :=
  (∃ d ∈ recorded, d.isError = true) ∨
    (c.warningsAsErrors = true ∧ ∃ d ∈ recorded, d.isWarning = true)

instance (c : Config) (recorded : List Diagnostic) : Decidable (c.Blocked recorded) :=
  inferInstanceAs (Decidable (_ ∨ _))

theorem Config.permits_iff (c : Config) {r : Report} (counted : r.log.Counted) :
    c.permits r = true ↔ ¬ c.Blocked r.log.diagnostics := by
  have errors : r.succeeded = true ↔ ¬ ∃ d ∈ r.log.diagnostics, d.isError = true := by
    unfold Report.succeeded
    rw [decide_eq_true_eq, counted.errors, List.countP_eq_zero]
    simp
  have warnings : 0 < r.log.warnings ↔ ∃ d ∈ r.log.diagnostics, d.isWarning = true := by
    rw [counted.warnings, List.countP_pos_iff]
  unfold Config.permits Config.Blocked
  rw [← warnings, not_or, ← errors, not_and, Bool.and_eq_true, Bool.not_eq_true', Bool.and_eq_false_imp,
    decide_eq_false_iff_not]

inductive Request where
  | directory (dir : String)
  | file (path text : String)
  deriving DecidableEq

namespace Destination

/-- The same destination, with a list of what it has been asked for. -/
def traced {σ : Type} (destination : Destination σ) : Destination (σ × List Request) where
  makeDirectory dir s :=
    let (result, state) := destination.makeDirectory dir s.1
    (result, state, s.2 ++ [.directory dir])
  store path text s :=
    let (result, state) := destination.store path text s.1
    (result, state, s.2 ++ [.file path text])

variable {σ : Type} (destination : Destination σ) (s : σ) (asked : List Request)

theorem traced_makeDirectory (dir : String) :
    destination.traced.makeDirectory dir (s, asked) =
      ((destination.makeDirectory dir s).1, (destination.makeDirectory dir s).2,
        asked ++ [.directory dir]) :=
  rfl

theorem traced_store (path text : String) :
    destination.traced.store path text (s, asked) =
      ((destination.store path text s).1, (destination.store path text s).2,
        asked ++ [.file path text]) :=
  rfl

end Destination

def Layout.request (layout : Layout) (p : Program) : Request :=
  .file (layout.path p) (layout.render p)

section Write

variable {σ : Type} (destination : Destination σ) (layout : Layout)

theorem writeProgram_counted (p : Program) {r : Report} (counted : r.log.Counted) (s : σ) :
    (writeProgram destination layout p r s).1.log.Counted := by
  unfold writeProgram
  dsimp only
  split
  · exact counted
  · exact counted.add _

theorem writeProgram_programs (p : Program) (r : Report) (s : σ) :
    (writeProgram destination layout p r s).1.programs = r.programs := by
  unfold writeProgram
  dsimp only
  split <;> rfl

theorem writeProgram_traced (p : Program) (r : Report) (s : σ) (asked : List Request) :
    writeProgram destination.traced layout p r (s, asked) =
      ((writeProgram destination layout p r s).1, (writeProgram destination layout p r s).2,
        asked ++ [layout.request p]) := by
  unfold writeProgram Layout.request
  dsimp only
  rw [Destination.traced_store]
  rcases destination.store (layout.path p) (layout.render p) s with ⟨_ | _, state⟩ <;> rfl

theorem writeAll_counted (programs : List Program) {r : Report} (counted : r.log.Counted) (s : σ) :
    (writeAll destination layout programs r s).1.log.Counted := by
  induction programs generalizing r s with
  | nil => exact counted
  | cons p rest ih => exact ih (writeProgram_counted destination layout p counted s) _

theorem writeAll_programs (programs : List Program) (r : Report) (s : σ) :
    (writeAll destination layout programs r s).1.programs = r.programs := by
  induction programs generalizing r s with
  | nil => rfl
  | cons p rest ih =>
    unfold writeAll
    rw [ih, writeProgram_programs]

theorem writeAll_traced (programs : List Program) (r : Report) (s : σ) (asked : List Request) :
    writeAll destination.traced layout programs r (s, asked) =
      ((writeAll destination layout programs r s).1, (writeAll destination layout programs r s).2,
        asked ++ programs.map layout.request) := by
  induction programs generalizing r s asked with
  | nil => simp [writeAll]
  | cons p rest ih => simp [writeAll, writeProgram_traced, ih]

theorem writePrograms_counted {r : Report} (counted : r.log.Counted) (s : σ) :
    (writePrograms destination layout r s).1.log.Counted := by
  unfold writePrograms
  split
  · exact counted.add _
  · exact writeAll_counted destination layout _ counted _

theorem writePrograms_programs (r : Report) (s : σ) :
    (writePrograms destination layout r s).1.programs = r.programs := by
  unfold writePrograms
  split
  · rfl
  · exact writeAll_programs destination layout _ r _

def requests (r : Report) (s : σ) : List Request :=
  .directory layout.directory ::
    match (destination.makeDirectory layout.directory s).1 with
    | .ok () => r.programs.map layout.request
    | .error _ => []

theorem writePrograms_traced {r : Report} (done : ∀ p ∈ r.programs, p.done = true) (s : σ)
    (asked : List Request) :
    writePrograms destination.traced layout r (s, asked) =
      ((writePrograms destination layout r s).1, (writePrograms destination layout r s).2,
        asked ++ requests destination layout r s) := by
  have all : r.programs.filter Program.done = r.programs := List.filter_eq_self.mpr done
  unfold writePrograms requests
  rw [Destination.traced_makeDirectory, all]
  rcases destination.makeDirectory layout.directory s with ⟨_ | _, state⟩
  · rfl
  · dsimp only
    rw [writeAll_traced, List.append_assoc]
    rfl

end Write

namespace Config

theorem preprocess_counted (c : Config) (files : FileTree) (path : String) :
    (c.preprocess files path).log.Counted :=
  (Traversal.Reached.fresh.processFile path :
    Traversal.Reached c.inclusion files c.environment _).counted

section Input

variable (c : Config) {files : FileTree} {path : String} {σ : Type}

theorem runInput_of_blocked (blocked : c.Blocked (c.preprocess files path).log.diagnostics)
    (destination : Destination σ) (s : σ) :
    c.runInput destination files path s = (c.preprocess files path, s) := by
  have refused := mt (c.permits_iff (c.preprocess_counted files path)).mp (not_not_intro blocked)
  unfold runInput
  exact if_neg refused

theorem runInput_of_not_blocked (free : ¬ c.Blocked (c.preprocess files path).log.diagnostics)
    (destination : Destination σ) (s : σ) :
    c.runInput destination files path s =
      writePrograms destination c.layout (c.preprocess files path) s := by
  have permitted := (c.permits_iff (c.preprocess_counted files path)).mpr free
  unfold runInput
  exact if_pos permitted

theorem runInput_counted (destination : Destination σ) (files : FileTree) (path : String) (s : σ) :
    (c.runInput destination files path s).1.log.Counted := by
  have counted := c.preprocess_counted files path
  by_cases blocked : c.Blocked (c.preprocess files path).log.diagnostics
  · rw [c.runInput_of_blocked blocked]
    exact counted
  · rw [c.runInput_of_not_blocked blocked]
    exact writePrograms_counted destination c.layout counted s

end Input

theorem runInputs_counted (c : Config) (paths : List String) (tree : FileTree) :
    ∀ r ∈ (c.runInputs paths tree).1, r.log.Counted := by
  induction paths generalizing tree with
  | nil => nofun
  | cons path rest ih =>
    have first := c.runInput_counted FileTree.destination tree path tree
    unfold runInputs
    dsimp only
    split
    · exact fun r mem => List.mem_singleton.mp mem ▸ first
    · intro r mem
      rcases List.mem_cons.mp mem with rfl | mem
      · exact first
      · exact ih _ r mem

/-- A blocked input asks the destination for nothing and leaves it alone; any other asks for the
directory first and then for one file per program of its report, unless the directory is refused. The
counts of every report are those of its diagnostics, at every point at which a run can be reported. -/
theorem output_all_or_nothing {σ : Type} (c : Config) (destination : Destination σ) (files : FileTree)
    (path : String) (s : σ) :
    let recorded := (c.preprocess files path).log.diagnostics
    let run := c.runInput destination files path s
    let traced := c.runInput destination.traced files path (s, [])
    (traced.1 = run.1 ∧ traced.2.1 = run.2) ∧
      (c.Blocked recorded → traced.2.2 = [] ∧ run.2 = s ∧ run.1.written = []) ∧
      (¬ c.Blocked recorded → traced.2.2 = requests destination c.layout run.1 s) ∧
      run.1.log.Counted ∧
      ∀ env t input, Traversal.Reached c.inclusion files env t → (t.state.toReport input).log.Counted := by
  have counted := c.runInput_counted destination files path s
  have reported : ∀ env t input, Traversal.Reached c.inclusion files env t →
      (t.state.toReport input).log.Counted := fun _ _ _ reached => reached.counted
  intro recorded
  by_cases blocked : c.Blocked recorded
  · rw [c.runInput_of_blocked blocked] at counted ⊢
    rw [c.runInput_of_blocked blocked]
    exact ⟨⟨rfl, rfl⟩, fun _ => ⟨rfl, rfl, rfl⟩, fun free => absurd blocked free, counted, reported⟩
  · have done := fun p mem => ((c.orderly_preprocess files path).1 p mem).1
    have traced := writePrograms_traced destination c.layout done s []
    rw [c.runInput_of_not_blocked blocked] at counted ⊢
    rw [c.runInput_of_not_blocked blocked, traced]
    refine ⟨⟨rfl, rfl⟩, fun h => absurd h blocked, fun _ => ?_, counted, reported⟩
    unfold requests
    rw [writePrograms_programs, List.nil_append]

def flawed : FileTree :=
  ⟨[], [(["main.gp"], .file "@define P = 7\n@program P\nG0\n@endprogram\n@else\n".toUTF8)]⟩

/-- The two programs of `twins` are asked for one after the other, the program of `flawed` is not. -/
theorem twins_asked_for_flawed_not :
    ((plain true).runInput Collection.destination.traced twins "main.gp" (.empty, [])).2.2 =
        requests Collection.destination (plain true).layout
          ((plain true).runInput Collection.destination twins "main.gp" .empty).1 .empty ∧
      ((plain true).runInput Collection.destination.traced flawed "main.gp" (.empty, [])).2.2 = [] := by
  have free : ¬ (plain true).Blocked ((plain true).preprocess twins "main.gp").log.diagnostics := by
    decide +kernel
  have blocked : (plain true).Blocked ((plain true).preprocess flawed "main.gp").log.diagnostics := by
    decide +kernel
  have opened := ((plain true).output_all_or_nothing Collection.destination twins "main.gp" .empty).2.2.1
  have shut := ((plain true).output_all_or_nothing Collection.destination flawed "main.gp" .empty).2.1
  exact ⟨opened free, (shut blocked).1⟩

end Config

end GcodePrep
