import GcodePrep.Proofs.DiagnosticOutput
import GcodePrep.Proofs.Revisions

set_option autoImplicit false

/-!
# What the exit status says

A session ends with zero exactly if its command line is valid, its channel opens, every input has its
report and no report has anything in it that counts as an error. An input that stops the run is never
passed over in silence: the error that stops it stands in its report.
-/

namespace GcodePrep

theorem Preprocessor.Revision.aborted_or_error {s s' : Preprocessor} (h : Revision s s') :
    s'.aborted = s.aborted ∨ ∃ d ∈ s'.log.diagnostics, d.isError = true := by
  cases h with
  | unwritten h | appends _ _ _ h | splices _ _ _ _ _ _ h => exact .inl h.aborted
  | opensProgram _ aborted | opensSwitch _ _ _ aborted => exact .inl aborted
  | stops _ _ d error mem => exact .inr ⟨d, mem, error⟩

theorem Traversal.Reached.error_of_aborted {inclusion : Inclusion} {tree : FileTree} {env : Environment}
    {t : Traversal} (h : Reached inclusion tree env t) (aborted : t.state.aborted = true) :
    ∃ d ∈ t.state.log.diagnostics, d.isError = true := by
  induction h with
  | fresh => cases aborted
  | enter _ _ ih => exact ih aborted
  | unreadable _ _ _ ih =>
    obtain ⟨d, mem, error⟩ := ih aborted
    exact ⟨d, List.mem_append_left _ mem, error⟩
  | step h next ih =>
    rcases next.revision.aborted_or_error with same | found
    · obtain ⟨d, mem, error⟩ := ih (same.symm.trans aborted)
      obtain ⟨ds, log⟩ := (next.effect h.exclusive).frame.log
      rw [log, Log.diagnostics_addAll]
      exact ⟨d, List.mem_append_left _ mem, error⟩
    · exact found

namespace Report

def Flawless (r : Report) : Prop := ∀ d ∈ r.log.diagnostics, d.isError = false

theorem flawless_iff {r : Report} (counted : r.log.Counted) : r.Flawless ↔ r.succeeded = true := by
  rw [succeeded, decide_eq_true_eq, counted.errors, List.countP_eq_zero]
  simp [Flawless]

structure Extends (r r' : Report) : Prop where
  input : r'.input = r.input
  aborted : r'.aborted = r.aborted
  recorded : r.log.diagnostics ⊆ r'.log.diagnostics

theorem Extends.trans {a b c : Report} (h : Extends a b) (h' : Extends b c) : Extends a c :=
  ⟨h'.input.trans h.input, h'.aborted.trans h.aborted, fun _ mem => h'.recorded (h.recorded mem)⟩

theorem Extends.flawless {r r' : Report} (h : Extends r r') (flawless : r'.Flawless) : r.Flawless :=
  fun d mem => flawless d (h.recorded mem)

end Report

section Write

open Report

variable {σ : Type} (destination : Destination σ) (layout : Layout)

theorem writeProgram_cases (p : Program) (r : Report) (s : σ) :
    (writeProgram destination layout p r s).1 = r.addWritten (layout.path p) ∨
      ∃ d, d.isError = true ∧ (writeProgram destination layout p r s).1 = r.addDiagnostic d := by
  unfold writeProgram
  dsimp only
  split
  · exact .inl rfl
  · exact .inr ⟨_, rfl, rfl⟩

theorem extends_addDiagnostic (r : Report) (d : Diagnostic) : Extends r (r.addDiagnostic d) :=
  ⟨rfl, rfl, fun _ mem => List.mem_append_left _ mem⟩

theorem not_flawless_addDiagnostic (r : Report) {d : Diagnostic} (error : d.isError = true) :
    ¬ (r.addDiagnostic d).Flawless := by
  intro flawless
  have clean := flawless d (List.mem_append_right _ (List.mem_singleton_self d))
  rw [error] at clean
  cases clean

theorem extends_writeProgram (p : Program) (r : Report) (s : σ) :
    Extends r (writeProgram destination layout p r s).1 := by
  rcases writeProgram_cases destination layout p r s with eq | ⟨d, -, eq⟩
  · rw [eq]
    exact ⟨rfl, rfl, fun _ mem => mem⟩
  · rw [eq]
    exact extends_addDiagnostic r d

theorem writeAll_cons (p : Program) (rest : List Program) (r : Report) (s : σ) :
    writeAll destination layout (p :: rest) r s =
      writeAll destination layout rest (writeProgram destination layout p r s).1
        (writeProgram destination layout p r s).2 :=
  rfl

theorem extends_writeAll (programs : List Program) (r : Report) (s : σ) :
    Extends r (writeAll destination layout programs r s).1 := by
  induction programs generalizing r s with
  | nil => exact ⟨rfl, rfl, fun _ mem => mem⟩
  | cons p rest ih => exact (extends_writeProgram destination layout p r s).trans (ih _ _)

theorem written_writeAll (programs : List Program) (r : Report) (s : σ)
    (flawless : (writeAll destination layout programs r s).1.Flawless) :
    (writeAll destination layout programs r s).1.written = r.written ++ programs.map layout.path := by
  induction programs generalizing r s with
  | nil => simp [writeAll]
  | cons p rest ih =>
    rw [writeAll_cons] at flawless ⊢
    have first : (writeProgram destination layout p r s).1.Flawless :=
      (extends_writeAll destination layout rest _ _).flawless flawless
    rw [ih _ _ flawless]
    rcases writeProgram_cases destination layout p r s with eq | ⟨d, error, eq⟩
    · rw [eq]
      simp [addWritten]
    · rw [eq] at first
      exact absurd first (not_flawless_addDiagnostic r error)

theorem extends_writePrograms (r : Report) (s : σ) :
    Extends r (writePrograms destination layout r s).1 := by
  unfold writePrograms
  split
  · exact extends_addDiagnostic r _
  · exact extends_writeAll destination layout _ r _

theorem written_writePrograms {r : Report} (done : ∀ p ∈ r.programs, p.done = true) (s : σ)
    (flawless : (writePrograms destination layout r s).1.Flawless) :
    (writePrograms destination layout r s).1.written = r.written ++ r.programs.map layout.path := by
  have all : r.programs.filter Program.done = r.programs := List.filter_eq_self.mpr done
  unfold writePrograms at flawless ⊢
  rw [all] at flawless ⊢
  split at flawless
  · exact absurd flawless (not_flawless_addDiagnostic r rfl)
  · exact written_writeAll destination layout r.programs r _ flawless

end Write

namespace Config

variable (c : Config)

theorem error_of_aborted {files : FileTree} {path : String}
    (aborted : (c.preprocess files path).aborted = true) : ¬ (c.preprocess files path).Flawless := by
  have reached : Traversal.Reached c.inclusion files c.environment _ :=
    Traversal.Reached.fresh.processFile path
  obtain ⟨d, mem, error⟩ := reached.error_of_aborted aborted
  intro flawless
  have clean := flawless d mem
  rw [error] at clean
  cases clean

theorem extends_runInput {σ : Type} (destination : Destination σ) (files : FileTree) (path : String)
    (s : σ) : (c.preprocess files path).Extends (c.runInput destination files path s).1 := by
  unfold runInput
  dsimp only
  split
  · exact extends_writePrograms destination c.layout _ s
  · exact ⟨rfl, rfl, fun _ mem => mem⟩

theorem inputs_of_flawless (paths : List String) (tree : FileTree)
    (flawless : ∀ r ∈ (c.runInputs paths tree).1, r.Flawless) :
    (c.runInputs paths tree).1.map Report.input = paths := by
  induction paths generalizing tree with
  | nil => rfl
  | cons path rest ih =>
    have grown := c.extends_runInput FileTree.destination tree path tree
    unfold runInputs at flawless ⊢
    dsimp only at flawless ⊢
    split at flawless
    · rename_i aborted
      have first := grown.flawless (flawless _ (List.mem_singleton_self _))
      exact absurd first (c.error_of_aborted (grown.aborted.symm.trans aborted))
    · rename_i running
      rw [if_neg running, List.map_cons, ih _ fun r mem => flawless r (List.mem_cons_of_mem _ mem)]
      exact congrArg (· :: rest) grown.input

theorem written_runInput {σ : Type} (destination : Destination σ) (files : FileTree) (path : String)
    (s : σ) (free : ¬ c.Blocked (c.runInput destination files path s).1.log.diagnostics) :
    (c.runInput destination files path s).1.written =
      (c.runInput destination files path s).1.programs.map c.layout.path := by
  by_cases blocked : c.Blocked (c.preprocess files path).log.diagnostics
  · rw [c.runInput_of_blocked blocked] at free
    exact absurd blocked free
  · rw [c.runInput_of_not_blocked blocked] at free ⊢
    have done := fun p mem => ((c.orderly_preprocess files path).1 p mem).1
    have flawless : (writePrograms destination c.layout (c.preprocess files path) s).1.Flawless :=
      fun d mem => Bool.eq_false_iff.mpr fun error => free (.inl ⟨d, mem, error⟩)
    rw [written_writePrograms destination c.layout done s flawless, writePrograms_programs]
    rfl

theorem written_runInputs (paths : List String) (tree : FileTree) :
    ∀ r ∈ (c.runInputs paths tree).1, ¬ c.Blocked r.log.diagnostics →
      r.written = r.programs.map c.layout.path := by
  induction paths generalizing tree with
  | nil => nofun
  | cons path rest ih =>
    have first := c.written_runInput FileTree.destination tree path tree
    unfold runInputs
    dsimp only
    split
    · exact fun r mem => List.mem_singleton.mp mem ▸ first
    · intro r mem
      rcases List.mem_cons.mp mem with rfl | mem
      · exact first
      · exact ih _ r mem

/-- Every input has its report, and nothing in the reports counts as an error. -/
structure Succeeds (tree : FileTree) : Prop where
  complete : (c.runInputs c.inputs tree).1.map Report.input = c.inputs
  errors : ∀ r ∈ (c.runInputs c.inputs tree).1, ∀ d ∈ r.log.diagnostics, d.isError = false
  warnings : c.warningsAsErrors = true →
    ∀ r ∈ (c.runInputs c.inputs tree).1, ∀ d ∈ r.log.diagnostics, d.isWarning = false

theorem runStatus_le_one (result : Except RefusedWarnings (List Report)) : runStatus result ≤ 1 := by
  unfold runStatus
  split
  · split <;> omega
  · exact Nat.le_refl 1

theorem runStatus_eq_zero_iff (tree : FileTree) : runStatus (c.run tree).1 = 0 ↔ c.Succeeds tree := by
  have counted := c.runInputs_counted c.inputs tree
  have judged : (c.run tree).1 = c.judge (c.runInputs c.inputs tree).1 := rfl
  have complete := c.inputs_of_flawless c.inputs tree
  have succeeded : (c.runInputs c.inputs tree).1.all Report.succeeded = true ↔
      ∀ r ∈ (c.runInputs c.inputs tree).1, r.Flawless := by
    rw [List.all_eq_true]
    exact forall₂_congr fun r mem => (Report.flawless_iff (counted r mem)).symm
  rw [judged]
  by_cases refused : c.Refuses (c.runInputs c.inputs tree).1
  · rw [c.judge_of_refuses refused]
    refine ⟨nofun, fun h => ?_⟩
    obtain ⟨strict, r, reported, d, mem, warning⟩ := refused
    have clean := h.warnings strict r reported d mem
    rw [warning] at clean
    cases clean
  · rw [c.judge_of_not_refuses refused, runStatus]
    constructor
    · intro zero
      have flawless := succeeded.mp (by simpa using zero)
      refine ⟨complete flawless, flawless, fun strict r reported d mem => ?_⟩
      exact Bool.eq_false_iff.mpr fun warning => refused ⟨strict, r, reported, d, mem, warning⟩
    · intro h
      rw [if_pos (succeeded.mpr h.errors)]

theorem Succeeds.not_blocked {c : Config} {tree : FileTree} (h : c.Succeeds tree) :
    ∀ r ∈ (c.runInputs c.inputs tree).1, ¬ c.Blocked r.log.diagnostics := by
  rintro r reported (⟨d, mem, error⟩ | ⟨strict, d, mem, warning⟩)
  · exact Bool.false_ne_true ((h.errors r reported d mem).symm.trans error)
  · exact Bool.false_ne_true ((h.warnings strict r reported d mem).symm.trans warning)

theorem exitStatus_perform (channel : Channel) (tree : FileTree) :
    (c.perform channel tree).exitStatus = runStatus (c.run tree).1 := by
  cases channel <;> rfl

end Config

namespace Session

variable {args : List String} {a : Arguments}

/-- The status is zero or one. It is zero exactly if the command line is valid, the channel opens, and the
run succeeds; then every program of every report has been written. -/
theorem exit_zero_iff_succeeds (accepted : Arguments.parse args = .ok a) (vars : Variables)
    (tree : FileTree) :
    ∃ outcome, start args vars tree = .ok outcome ∧
      (outcome.exitStatus = 0 ↔ ∃ c channel opened, Config.validate a vars = .ok c ∧
        Channel.ofTarget tree c.target = .ok (channel, opened) ∧ c.Succeeds opened) ∧
      (outcome.exitStatus ≠ 0 → outcome.exitStatus = 1) ∧
      ∀ c channel opened, Config.validate a vars = .ok c →
        Channel.ofTarget tree c.target = .ok (channel, opened) → outcome.exitStatus = 0 →
        ∀ r ∈ (c.runInputs c.inputs opened).1, r.written = r.programs.map c.layout.path := by
  refine ⟨ofArguments a vars tree, by rw [start, accepted]; rfl, ?_⟩
  unfold ofArguments
  cases Config.validate a vars with
  | error e => simp [Outcome.complaint]
  | ok c =>
    dsimp only
    cases opens : Channel.ofTarget tree c.target with
    | error fault =>
      refine ⟨⟨nofun, ?_⟩, fun _ => rfl, fun _ _ _ _ _ zero => nomatch zero⟩
      rintro ⟨c', channel, opened, valid, opens', -⟩
      cases valid
      cases opens.symm.trans opens'
    | ok way =>
      obtain ⟨channel, opened⟩ := way
      have zero := c.runStatus_eq_zero_iff opened
      have bound := Config.runStatus_le_one (c.run opened).1
      dsimp only
      rw [c.exitStatus_perform]
      refine ⟨⟨fun status => ⟨c, channel, opened, rfl, opens, zero.mp status⟩, ?_⟩, fun other => by omega, ?_⟩
      · rintro ⟨c', channel', opened', valid, opens', succeeds⟩
        cases valid
        cases opens.symm.trans opens'
        exact zero.mpr succeeds
      · intro c' channel' opened' valid opens' status r reported
        cases valid
        cases opens.symm.trans opens'
        exact c.written_runInputs c.inputs opened r reported ((zero.mp status).not_blocked r reported)

/-- A source with a program, one that stops the run, and one with a program that cannot be written. -/
def assorted : FileTree := ⟨[],
  [(["good.gp"], .file "@define P = 7\n@program P\nG0\n@endprogram\n".toUTF8),
   (["bad.gp"], .file "@error halt\n".toUTF8),
   (["full.gp"], .file "@define P = 8\n@program P\nG0\n@endprogram\n".toUTF8),
   (["8.nc"], .directory)]⟩

theorem accepted_of_validated {vars : Variables} {c : Config}
    (h : (Arguments.parse args).map (Config.validate · vars) = .ok (.ok c)) :
    ∃ a, Arguments.parse args = .ok a ∧ Config.validate a vars = .ok c := by
  cases parsed : Arguments.parse args with
  | error refusal => simp [parsed, Except.map] at h
  | ok a => exact ⟨a, rfl, by simpa [parsed, Except.map] using h⟩

theorem assorted_exits :
    (∃ outcome, start ["good.gp"] (fun _ => none) assorted = .ok outcome ∧ outcome.exitStatus = 0) ∧
    (∃ outcome, start ["bad.gp", "good.gp"] (fun _ => none) assorted = .ok outcome ∧
      outcome.exitStatus = 1) ∧
    ∃ outcome, start ["full.gp"] (fun _ => none) assorted = .ok outcome ∧ outcome.exitStatus = 1 := by
  refine ⟨?_, ?_, ?_⟩
  · obtain ⟨a, accepted, valid⟩ := accepted_of_validated
      (by decide +kernel : (Arguments.parse ["good.gp"]).map (Config.validate · fun _ => none) =
        .ok (.ok { plain false with inputs := ["good.gp"] }))
    obtain ⟨outcome, started, zero, -⟩ := exit_zero_iff_succeeds accepted (fun _ => none) assorted
    exact ⟨outcome, started, zero.mpr ⟨_, .stderr, assorted, valid, rfl,
      ⟨by decide +kernel, by decide +kernel, nofun⟩⟩⟩
  · obtain ⟨a, accepted, valid⟩ := accepted_of_validated
      (by decide +kernel : (Arguments.parse ["bad.gp", "good.gp"]).map (Config.validate · fun _ => none) =
        .ok (.ok { plain false with inputs := ["bad.gp", "good.gp"] }))
    obtain ⟨outcome, started, zero, one, -⟩ := exit_zero_iff_succeeds accepted (fun _ => none) assorted
    refine ⟨outcome, started, one fun status => ?_⟩
    obtain ⟨c, channel, opened, valid', opens, succeeds⟩ := zero.mp status
    cases valid.symm.trans valid'
    cases opens
    exact absurd succeeds.complete (by decide +kernel)
  · obtain ⟨a, accepted, valid⟩ := accepted_of_validated
      (by decide +kernel : (Arguments.parse ["full.gp"]).map (Config.validate · fun _ => none) =
        .ok (.ok { plain false with inputs := ["full.gp"] }))
    obtain ⟨outcome, started, zero, one, -⟩ := exit_zero_iff_succeeds accepted (fun _ => none) assorted
    refine ⟨outcome, started, one fun status => ?_⟩
    obtain ⟨c, channel, opened, valid', opens, succeeds⟩ := zero.mp status
    cases valid.symm.trans valid'
    cases opens
    exact absurd succeeds.errors (by decide +kernel)

end Session

end GcodePrep
