import GcodePrep.Proofs.BodyLines
import GcodePrep.Proofs.Outline

set_option autoImplicit false

/-!
# Switches compile to their tables in place

The preprocessor reads a body line by line and puts each jump table where its switch began only when
the switch ends. Fed with the lines of an outline, it ends with exactly the body that the outline
stands for.
-/

namespace GcodePrep

/-- The open switches are those that a part of a body may find in this scope, `depth` switches deep
and behind `index` cases of the innermost one. -/
def Scope.Fits (depth index : Nat) (switches : Switches) : Scope → Prop
  | .body => switches.length = depth
  | .switch hasDefault => ∃ sw outer, switches = sw :: outer ∧ outer.length + 1 = depth ∧
    sw.depth = depth ∧ sw.cases.length = index ∧ sw.defaultOrigin.isSome = hasDefault

theorem Scope.Fits.length_eq {depth index : Nat} {switches : Switches} {scope : Scope}
    (fits : scope.Fits depth index switches) : switches.length = depth := by
  cases scope with
  | body => exact fits
  | switch d =>
    obtain ⟨sw, outer, rfl, length, -⟩ := fits
    exact length

namespace Switches

/-- The innermost switch has got these cases and perhaps a default; all else is as before. -/
def Advances (values : List String) (gotDefault : Bool) : Switches → Switches → Prop
  | [], switches => switches = []
  | sw :: outer, switches => ∃ cases defaultOrigin,
    switches = { sw with cases := sw.cases ++ cases, defaultOrigin } :: outer ∧
      cases.map SwitchCase.value = values ∧
      defaultOrigin.isSome = (sw.defaultOrigin.isSome || gotDefault)

theorem Advances.refl (switches : Switches) : Advances [] false switches switches := by
  cases switches with
  | nil => rfl
  | cons sw outer => exact ⟨[], sw.defaultOrigin, by simp, rfl, by simp⟩

theorem Advances.case (sw : Switch) (outer : Switches) (value : String) (origin : Origin) :
    Advances [value] false (sw :: outer)
      ({ sw with cases := sw.cases ++ [⟨value, origin⟩] } :: outer) :=
  ⟨[⟨value, origin⟩], sw.defaultOrigin, rfl, rfl, by simp⟩

theorem Advances.default (sw : Switch) (outer : Switches) (origin : Origin) :
    Advances [] true (sw :: outer) ({ sw with defaultOrigin := some origin } :: outer) :=
  ⟨[], some origin, by simp, rfl, by simp⟩

theorem Advances.trans {values values' : List String} {d d' : Bool} {a b c : Switches}
    (h : Advances values d a b) (h' : Advances values' d' b c) :
    Advances (values ++ values') (d || d') a c := by
  cases a with
  | nil =>
    cases h
    exact h'
  | cons sw outer =>
    obtain ⟨cases, origin, rfl, rfl, has⟩ := h
    obtain ⟨cases', origin', rfl, rfl, has'⟩ := h'
    exact ⟨cases ++ cases', origin', by simp, by simp, by rw [has', has, Bool.or_assoc]⟩

end Switches

namespace Outline

/-- How many lines are appended for an outline, jump tables not counted. -/
def emitted : {scope : Scope} → Outline scope → Nat
  | _, .done => 0
  | _, .line _ rest | _, .leave rest | _, .case _ rest | _, .default rest => 1 + rest.emitted
  | _, .switch _ inner rest => inner.emitted + 1 + rest.emitted

/-- The labels in the order of their lines, each with the number of its line if the first line of the
outline has number `n`. -/
def labels : {scope : Scope} → (depth index n : Nat) → Outline scope → List (SwitchLabel × Nat)
  | _, _, _, _, .done => []
  | _, depth, index, n, .line _ rest | _, depth, index, n, .leave rest => rest.labels depth index (n + 1)
  | _, depth, index, n, .case _ rest =>
    (.case depth (index + 1), n) :: rest.labels depth (index + 1) (n + 1)
  | _, depth, index, n, .default rest => (.default depth, n) :: rest.labels depth index (n + 1)
  | _, depth, index, n, .switch _ inner rest =>
    inner.labels (depth + 1) 0 n ++ (.finish (depth + 1), n + inner.emitted) ::
      rest.labels depth index (n + inner.emitted + 1)

end Outline

namespace Reference

theorem caseJumps_eq (subject : String) (depth index : Nat) (cases : List SwitchCase) :
    Switch.caseJumps subject depth index cases =
      caseBranches subject depth index (cases.map SwitchCase.value) := by
  induction cases generalizing index with
  | nil => rfl
  | cons c cases ih =>
    simp only [Switch.caseJumps, List.map_cons, caseBranches, ih, List.cons.injEq, and_true]
    rw [← String.toList_inj]
    simp [Switch.caseJump, SwitchLabel.jumpLine, SwitchLabel.name]

theorem jumpLine_default (depth : Nat) :
    (SwitchLabel.default depth).jumpLine = "GOTO@__" ++ toString depth ++ "_default" := by
  rw [← String.toList_inj]
  simp [SwitchLabel.jumpLine, SwitchLabel.name]

theorem jumpLine_finish (depth : Nat) :
    (SwitchLabel.finish depth).jumpLine = "GOTO@__" ++ toString depth ++ "_endswitch" := by
  rw [← String.toList_inj]
  simp [SwitchLabel.jumpLine, SwitchLabel.name]

theorem labelLine_case (depth index : Nat) :
    (SwitchLabel.case depth index).labelLine = "N@__" ++ toString depth ++ "_" ++ toString index := by
  rw [← String.toList_inj]
  simp [SwitchLabel.labelLine, SwitchLabel.name]

theorem labelLine_default (depth : Nat) :
    (SwitchLabel.default depth).labelLine = "N@__" ++ toString depth ++ "_default" := by
  rw [← String.toList_inj]
  simp [SwitchLabel.labelLine, SwitchLabel.name]

theorem labelLine_finish (depth : Nat) :
    (SwitchLabel.finish depth).labelLine = "N@__" ++ toString depth ++ "_endswitch" := by
  rw [← String.toList_inj]
  simp [SwitchLabel.labelLine, SwitchLabel.name]

theorem jumpTable_eq (sw : Switch) :
    sw.jumpTable = table sw.subject sw.depth (sw.cases.map SwitchCase.value) sw.defaultOrigin.isSome := by
  simp only [Switch.jumpTable, table, caseJumps_eq]
  cases sw.defaultOrigin with
  | none => simp [jumpLine_finish]
  | some origin => simp [jumpLine_default]

end Reference

namespace Outline

open Preprocessor Reference

variable (includer : Includer) (file : Source) (outer : Place)

/-- The body of the open program has grown by `texts`, and its innermost switch by what goes with
them. -/
def Compiled (s : Preprocessor) (opened : OpenProgram) (s' : Preprocessor) (texts : List String)
    (count : Nat) (labels : List (SwitchLabel × Nat)) (values : List String) (gotDefault : Bool) :
    Prop :=
  ∃ switches records, Progress s opened s' switches records count labels ∧
    records.map Record.text = texts.map some ∧ s.switches.Advances values gotDefault switches

theorem Compiled.running {s s' : Preprocessor} {opened : OpenProgram} {texts values : List String}
    {count : Nat} {labels : List (SwitchLabel × Nat)} {d : Bool}
    (h : Compiled s opened s' texts count labels values d) (building : s.Building opened) :
    s'.aborted = false := by
  obtain ⟨_, _, progress, -⟩ := h
  exact (progress.building building).running

theorem Compiled.after {s s' s'' : Preprocessor} {opened : OpenProgram} {switches : Switches}
    {records : List Record} {count count' : Nat} {labels labels' : List (SwitchLabel × Nat)}
    {texts' values' : List String} {d' : Bool} (texts values : List String) (d : Bool)
    (first : Progress s opened s' switches records count labels)
    (text : records.map Record.text = texts.map some) (advances : s.switches.Advances values d switches)
    (rest : Compiled s' (opened.grow records count) s'' texts' count' labels' values' d') :
    Compiled s opened s'' (texts ++ texts') (count + count') (labels ++ labels')
      (values ++ values') (d || d') := by
  obtain ⟨switches', records', progress, text', advances'⟩ := rest
  rw [first.switches_eq] at advances'
  exact ⟨switches', records ++ records', first.trans progress,
    by rw [List.map_append, List.map_append, text, text'], advances.trans advances'⟩

theorem progress_of_compiled {s s' s'' : Preprocessor} {opened : OpenProgram} {subject : String}
    {sw : Switch} {texts values : List String} {count : Nat} {labels : List (SwitchLabel × Nat)}
    {d : Bool} (building : s.Building opened) (place : Place) (lines : Nat)
    (begins : Begins sw subject opened.program.body.length (s.switches.length + 1))
    (opening : Progress s opened s' (sw :: s.switches) [] 0 [])
    (inside : Compiled s' opened s'' texts count labels values d) :
    ∃ records, Progress s opened (processLine includer place "@endswitch" { s'' with lines })
        s.switches records (count + 1)
        (labels ++ [(.finish (s.switches.length + 1), opened.program.outLine + count)]) ∧
      records.map Record.text = (table subject (s.switches.length + 1) values d ++ texts ++
        ["N@__" ++ toString (s.switches.length + 1) ++ "_endswitch"]).map some := by
  obtain ⟨switches, records, progress, text, advances⟩ := inside
  rw [opening.switches_eq] at advances
  obtain ⟨cases, origin, rfl, values_eq, default_eq⟩ := advances
  rw [← opened.grow_nil] at progress
  have whole := opening.trans progress
  rw [List.nil_append, List.nil_append, Nat.zero_add] at whole
  have closing := progress_endswitch building includer place lines whole begins.insertAt_eq
  refine ⟨_, by rwa [begins.depth_eq] at closing, ?_⟩
  simp only [begins.cases_eq, begins.default_eq, List.nil_append, Option.isSome_none,
    Bool.false_or] at default_eq ⊢
  simp [tableRecords, jumpTable_eq, begins.subject_eq, default_eq, values_eq, text,
    nextRecord, labelLine_finish]

theorem compiled_source {scope : Scope} (o : Outline scope) (n depth index : Nat) {s : Preprocessor}
    {opened : OpenProgram} (building : s.Building opened) (fits : scope.Fits depth index s.switches) :
    Compiled s opened (processLines includer file outer n o.source s) (o.compile depth index) o.emitted
      (o.labels depth index opened.program.outLine) o.caseValues o.hasDefault := by
  induction o generalizing n depth index s opened with
  | done => exact ⟨s.switches, [], .refl building, rfl, .refl _⟩
  | line t rest ih =>
    rw [source, processLines_cons building.running]
    have step := progress_line building includer (⟨file.name, file.directory, n, t.text⟩ :: outer)
      (s.lines + 1) t
    have after := ih (n + 1) depth index (step.building building) (by rwa [step.switches_eq])
    exact .after [t.text] [] false step rfl (.refl _) after
  | leave rest ih =>
    rw [source, processLines_cons building.running]
    obtain ⟨sw, stack, top, length, rfl, -, -⟩ := id fits
    have step := progress_endcase building includer
      (⟨file.name, file.directory, n, "@endcase"⟩ :: outer) (s.lines + 1) top
    have after := ih (n + 1) sw.depth index (step.building building) (by rwa [step.switches_eq])
    exact .after [_] [] false step (by rw [← jumpLine_finish]; rfl) (.refl _) after
  | case value rest ih =>
    rw [source, processLines_cons building.running]
    obtain ⟨sw, stack, top, length, rfl, rfl, has⟩ := fits
    have step := progress_case building includer
      (⟨file.name, file.directory, n, "@case " ++ value.text⟩ :: outer) (s.lines + 1) top value
    have after := ih (n + 1) sw.depth (sw.cases.length + 1) (step.building building)
      (by rw [step.switches_eq]; exact ⟨_, stack, rfl, length, rfl, by simp, has⟩)
    exact .after [_] [value.text] false step (by rw [← labelLine_case]; rfl)
      (by rw [top]; exact .case sw stack _ _) after
  | default rest ih =>
    rw [source, processLines_cons building.running]
    obtain ⟨sw, stack, top, length, rfl, rfl, has⟩ := fits
    have first : sw.defaultOrigin = none := by simpa using has
    have step := progress_defaultcase building includer
      (⟨file.name, file.directory, n, "@defaultcase"⟩ :: outer) (s.lines + 1) top first
    have after := ih (n + 1) sw.depth sw.cases.length (step.building building)
      (by rw [step.switches_eq]; exact ⟨_, stack, rfl, length, rfl, rfl, rfl⟩)
    exact .after [_] [] true step (by rw [← labelLine_default]; rfl)
      (by rw [top]; exact .default sw stack _) after
  | switch subject inner rest ihInner ihRest =>
    rw [source, processLines_cons building.running, processLines_append]
    obtain ⟨sw, begins, opening⟩ := progress_switch building includer
      (⟨file.name, file.directory, n, "@switch " ++ subject.text⟩ :: outer) (s.lines + 1) subject
    have inBody := opening.building building
    rw [opened.grow_nil] at inBody
    have depth_eq := fits.length_eq
    subst depth_eq
    have inside := ihInner (n + 1) (s.switches.length + 1) 0 inBody (by
      rw [opening.switches_eq]
      exact ⟨sw, s.switches, rfl, rfl, begins.depth_eq, by rw [begins.cases_eq]; rfl,
        by rw [begins.default_eq]; rfl⟩)
    rw [processLines_cons (inside.running inBody)]
    obtain ⟨records, closing, texts⟩ := progress_of_compiled includer building
      (⟨file.name, file.directory, n + 1 + inner.source.length, "@endswitch"⟩ :: outer) (_ + 1)
      begins opening inside
    have after := ihRest (n + 1 + inner.source.length + 1) s.switches.length index
      (closing.building building) (by rwa [closing.switches_eq])
    have joined := Compiled.after _ [] false closing texts (.refl _) after
    simp only [List.append_assoc, List.singleton_append] at joined
    rw [compile, List.append_assoc]
    exact joined

/-- From any state that builds a program outside of switches, the lines of a body raise no error,
leave no switch open, and extend the program's records by exactly what the body compiles to. -/
theorem body_compiles_in_place (o : Outline .body) (n : Nat) {s : Preprocessor}
    {opened : OpenProgram} (building : s.Building opened) (closed : s.switches = []) :
    let s' := processLines includer file outer n o.source s
    s'.switches = s.switches ∧
      s'.log.errors = s.log.errors ∧
      (∃ ds, s'.log.diagnostics = s.log.diagnostics ++ ds ∧ ∀ d ∈ ds, d.severity = .warning) ∧
      ∃ opened' records, s'.Building opened' ∧
        opened'.program.body = opened.program.body ++ records ∧
        records.map Record.text = (o.compile 0 0).map some := by
  have fits : Scope.body.Fits 0 0 s.switches := by
    rw [closed]
    rfl
  obtain ⟨switches, records, progress, texts, advances⟩ :=
    compiled_source includer file outer o n 0 0 building fits
  rw [closed] at advances
  obtain ⟨env, log, lines, eq, binds⟩ := id progress
  obtain ⟨ds, added, warnings⟩ := binds.warned
  have noError : ds.countP Diagnostic.isError = 0 := by
    rw [List.countP_eq_zero]
    intro d mem
    simp [Diagnostic.isError, warnings d mem]
  refine ⟨by rw [progress.switches_eq, closed]; exact advances, ?_, ⟨ds, ?_, warnings⟩,
    opened.grow records o.emitted, records, progress.building building, rfl, texts⟩
  · rw [eq, added, Log.errors_addAll, noError, Nat.add_zero]
  · rw [eq, added, Log.diagnostics_addAll]

def sampleProgram : OpenProgram := ⟨Program.start "FACE" 7 ⟨"a.gp", 1⟩ [] .empty, 1⟩

def sampleState : Preprocessor := { Preprocessor.start .empty with current := some sampleProgram }

def sample : Outline .body :=
  .line ⟨"G0 X0", by decide, by decide, by decide, by decide⟩ <|
  .switch ⟨"#1", by decide, by decide⟩
    (.case ⟨"1", by decide, by decide⟩ <|
     .switch ⟨"#2", by decide, by decide⟩
       (.default <| .case ⟨"5", by decide, by decide⟩ <| .leave .done) <|
     .case ⟨"2", by decide, by decide⟩ <| .leave .done) <|
  .done

def oneCase : Outline .body :=
  .switch ⟨"#1", by decide, by decide⟩ (.case ⟨"1", by decide, by decide⟩ .done) .done

theorem sample_compiles_in_place :
    sampleState.Building sampleProgram ∧ sampleState.switches = [] ∧
    ∃ opened, (processLines (fun _ _ s => s) ⟨"a.gp", none, ""⟩ [] 2 sample.source sampleState).current =
        some opened ∧
      opened.program.body.map Record.text =
        ["G0 X0", "IF[#1 EQ 1] GOTO@__1_1", "IF[#1 EQ 2] GOTO@__1_2", "GOTO@__1_endswitch", "N@__1_1",
         "IF[#2 EQ 5] GOTO@__2_1", "GOTO@__2_default", "N@__2_default", "N@__2_1", "GOTO@__2_endswitch",
         "N@__2_endswitch", "N@__1_2", "GOTO@__1_endswitch", "N@__1_endswitch"].map some := by
  have ready : sampleState.Building sampleProgram := ⟨rfl, rfl, rfl, rfl, rfl⟩
  obtain ⟨-, -, -, opened, records, building, body, texts⟩ :=
    body_compiles_in_place (fun _ _ s => s) ⟨"a.gp", none, ""⟩ [] sample 2 ready rfl
  refine ⟨ready, rfl, opened, building.current, ?_⟩
  rw [body, List.map_append, texts]
  decide

end Outline

end GcodePrep
