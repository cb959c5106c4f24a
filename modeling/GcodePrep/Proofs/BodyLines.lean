import GcodePrep.Preprocessor.Files
import GcodePrep.Proofs.LabelNames
import GcodePrep.Proofs.LineReading
import GcodePrep.Proofs.Log

set_option autoImplicit false

/-!
# Lines of an open program

What each line of a body does while a program is built: which record it appends, which label it binds
to the number of that record, and how it changes the innermost switch.
-/

namespace GcodePrep

def OpenProgram.grow (opened : OpenProgram) (records : List Record) (count : Nat) : OpenProgram :=
  { opened with program := { opened.program with
      body := opened.program.body ++ records, outLine := opened.program.outLine + count } }

theorem OpenProgram.grow_nil (opened : OpenProgram) : opened.grow [] 0 = opened := by simp [grow]

theorem OpenProgram.grow_grow (opened : OpenProgram) (rs qs : List Record) (m n : Nat) :
    (opened.grow rs m).grow qs n = opened.grow (rs ++ qs) (m + n) := by
  simp [grow, List.append_assoc, Nat.add_assoc]

def Environment.bindLabels (env : Environment) (labels : List (SwitchLabel × Nat)) : Environment :=
  labels.foldl (fun env l => env.set l.1.name (.int (Int64.ofNat l.2))) env

/-- What the emission of lines does to bindings and log. A label whose name is not free leaves a warning;
without a warning the labels are bound to their numbers, and nothing else is. -/
structure Binds (env env' : Environment) (log log' : Log) (labels : List (SwitchLabel × Nat)) :
    Prop where
  kept : ∀ name value, env.get? name = some value → env'.get? name = some value
  warned : ∃ ds, log' = log.addAll ds ∧ ∀ d ∈ ds, d.severity = .warning
  bound : log' = log → ∀ l ∈ labels, env'.get? l.1.name = some (.int (Int64.ofNat l.2))
  env_eq : log' = log → env' = env.bindLabels labels

namespace Binds

theorem refl (env : Environment) (log : Log) : Binds env env log log [] :=
  ⟨fun _ _ h => h, ⟨[], rfl, by simp⟩, fun _ => by simp, fun _ => rfl⟩

theorem trans {env₁ env₂ env₃ : Environment} {log₁ log₂ log₃ : Log}
    {labels labels' : List (SwitchLabel × Nat)} (h : Binds env₁ env₂ log₁ log₂ labels)
    (h' : Binds env₂ env₃ log₂ log₃ labels') : Binds env₁ env₃ log₁ log₃ (labels ++ labels') := by
  obtain ⟨ds, rfl, warnings⟩ := h.warned
  obtain ⟨es, rfl, warnings'⟩ := h'.warned
  have silent : (log₁.addAll ds).addAll es = log₁ → ds = [] ∧ es = [] := by
    rw [Log.addAll_addAll, Log.addAll_eq_self_iff, List.append_eq_nil_iff]
    exact id
  refine ⟨fun name value bound => h'.kept _ _ (h.kept _ _ bound),
    ⟨ds ++ es, Log.addAll_addAll .., ?_⟩, ?_, ?_⟩
  · intro d mem
    rcases List.mem_append.mp mem with mem | mem
    · exact warnings d mem
    · exact warnings' d mem
  · intro same l mem
    obtain ⟨rfl, rfl⟩ := silent same
    rcases List.mem_append.mp mem with mem | mem
    · exact h'.kept _ _ (h.bound rfl l mem)
    · exact h'.bound rfl l mem
  · intro same
    obtain ⟨rfl, rfl⟩ := silent same
    rw [h'.env_eq rfl, h.env_eq rfl, Environment.bindLabels, Environment.bindLabels,
      Environment.bindLabels, List.foldl_append]

end Binds

namespace Preprocessor

theorem blockLabel?_plain (t : PlainLine) : blockLabel? t.text = none := by
  have rest : Text.withoutStart ['N', '@'] t.text.toList = none := by
    rw [Option.eq_none_iff_forall_ne_some]
    intro rest h
    rw [Text.withoutStart_eq_some_iff] at h
    exact t.tokenless (by simp [h])
  simp [blockLabel?, rest]

/-- A program is being built: lines are visible and go into its body. No state that can be reached has
a rejected program beside an open one. -/
structure Building (s : Preprocessor) (opened : OpenProgram) : Prop where
  current : s.current = some opened
  rejected : s.rejected = none
  header : s.header = none
  running : s.aborted = false
  visible : s.branches.isActive = true

theorem emit_unlabelled {s : Preprocessor} {opened : OpenProgram} (building : s.Building opened)
    (place : Place) {text : String} (unlabelled : blockLabel? text = none) :
    s.emit place ⟨text, false⟩ = { s with
      current := some (opened.grow [⟨place.origin, opened.program.outLine, some text, none⟩] 1) } := by
  simp [emit, building.current, bindLabel, unlabelled, withProgram, Program.append, OpenProgram.grow]

theorem emit_label {s : Preprocessor} {opened : OpenProgram} (building : s.Building opened)
    (place : Place) (l : SwitchLabel) :
    ∃ env log, s.emit place ⟨l.labelLine, true⟩ = { s with
        env, log
        current := some
          (opened.grow [⟨place.origin, opened.program.outLine, some l.labelLine, none⟩] 1) } ∧
      Binds s.env env s.log log [(l, opened.program.outLine)] := by
  cases taken : s.env.contains l.name with
  | false =>
    refine ⟨s.env.set l.name (.int (Int64.ofNat opened.program.outLine)), s.log, ?_, ?_,
      ⟨[], rfl, by simp⟩, ?_, fun _ => rfl⟩
    · simp [emit, building.current, bindLabel, blockLabel?_labelLine, taken, withProgram,
        Program.append, OpenProgram.grow]
    · intro name value bound
      have free : name ≠ l.name := by
        rintro rfl
        have h : (s.env.get? l.name).isSome = false := taken
        simp [bound] at h
      simpa [Environment.get?, Environment.set, Ne.symm free] using bound
    · intro _ label mem
      rw [List.mem_singleton.mp mem]
      simp [Environment.get?, Environment.set]
  | true =>
    have added : s.log.add (diagnosticAt place (.duplicateLabel l.name)) ≠ s.log := by
      intro same
      exact absurd ((Log.addAll_eq_self_iff s.log [_]).mp same) (by simp)
    refine ⟨s.env, s.log.add (diagnosticAt place (.duplicateLabel l.name)), ?_, fun _ _ h => h,
      ⟨[_], rfl, ?_⟩, fun same => absurd same added, fun same => absurd same added⟩
    · simp [emit, building.current, bindLabel, blockLabel?_labelLine, taken, withProgram, report,
        addDiagnostic, Program.append, OpenProgram.grow]
    · intro d mem
      rw [List.mem_singleton.mp mem]
      rfl

/-- Inside a program these lines are neither directives of a file nor conditionals. -/
def isBodyLine : Line → Bool
  | .text => true
  | .directive d _ =>
    d ∈ [.endprogram, .switch, .delay, .case_, .defaultcase, .endcase, .endswitch]
  | _ => false

theorem Building.processLine_eq {s : Preprocessor} {opened : OpenProgram}
    (building : s.Building opened) (includer : Includer) (place : Place) {text : String} {line : Line}
    (reads : Line.ofString text = line) (body : isBodyLine line = true) :
    processLine includer place text s = s.programLine place text line := by
  obtain ⟨current, rejected, header, -, visible⟩ := building
  cases line with
  | blank => cases body
  | comment => cases body
  | text =>
    simp [processLine, reads, headedLine, header, visible, visibleLine, otherLine, rejected, current]
  | directive d argument =>
    cases d <;> simp [isBodyLine] at body <;>
      simp [processLine, reads, headedLine, header, visible, visibleLine, otherLine, rejected, current]

/-- From `s` to `s'` the body of the open program has grown by `records`. -/
def Progress (s : Preprocessor) (opened : OpenProgram) (s' : Preprocessor) (switches : Switches)
    (records : List Record) (count : Nat) (labels : List (SwitchLabel × Nat)) : Prop :=
  ∃ env log lines, s' = { s with
      env, log, lines, switches, current := some (opened.grow records count) } ∧
    Binds s.env env s.log log labels

namespace Progress

variable {s s' s'' : Preprocessor} {opened : OpenProgram} {switches switches' : Switches}
  {records records' : List Record} {count count' : Nat} {labels labels' : List (SwitchLabel × Nat)}

theorem refl (building : s.Building opened) : Progress s opened s s.switches [] 0 [] := by
  refine ⟨s.env, s.log, s.lines, ?_, .refl s.env s.log⟩
  simp [OpenProgram.grow_nil, ← building.current]

theorem trans (h : Progress s opened s' switches records count labels)
    (h' : Progress s' (opened.grow records count) s'' switches' records' count' labels') :
    Progress s opened s'' switches' (records ++ records') (count + count') (labels ++ labels') := by
  obtain ⟨env, log, lines, rfl, binds⟩ := h
  obtain ⟨env', log', lines', rfl, binds'⟩ := h'
  exact ⟨env', log', lines', by rw [OpenProgram.grow_grow], binds.trans binds'⟩

theorem building (h : Progress s opened s' switches records count labels)
    (before : s.Building opened) : s'.Building (opened.grow records count) := by
  obtain ⟨env, log, lines, rfl, -⟩ := h
  exact ⟨rfl, before.rejected, before.header, before.running, before.visible⟩

theorem switches_eq (h : Progress s opened s' switches records count labels) :
    s'.switches = switches := by
  obtain ⟨env, log, lines, rfl, -⟩ := h
  rfl

end Progress

section Step

variable {s : Preprocessor} {opened : OpenProgram} (building : s.Building opened)
  (includer : Includer) (place : Place) (lines : Nat)

include building

theorem Building.update (lines : Nat) (switches : Switches) :
    Building { s with lines, switches } opened :=
  ⟨building.current, building.rejected, building.header, building.running, building.visible⟩

def nextRecord (place : Place) (opened : OpenProgram) (text : String) : Record :=
  ⟨place.origin, opened.program.outLine, some text, none⟩

theorem progress_emit_unlabelled (switches : Switches) {text : String}
    (unlabelled : blockLabel? text = none) :
    Progress s opened (emit { s with lines, switches } place ⟨text, false⟩) switches
      [nextRecord place opened text] 1 [] :=
  ⟨s.env, s.log, lines, emit_unlabelled (building.update lines switches) place unlabelled,
    .refl s.env s.log⟩

theorem progress_emit_label (switches : Switches) (l : SwitchLabel) :
    Progress s opened (emit { s with lines, switches } place ⟨l.labelLine, true⟩) switches
      [nextRecord place opened l.labelLine] 1 [(l, opened.program.outLine)] := by
  obtain ⟨env, log, eq, binds⟩ := emit_label (building.update lines switches) place l
  exact ⟨env, log, lines, eq, binds⟩

theorem progress_line (t : PlainLine) :
    Progress s opened (processLine includer place t.text { s with lines }) s.switches
      [nextRecord place opened t.text] 1 [] := by
  rw [(building.update lines s.switches).processLine_eq includer place (Line.ofString_plain t) rfl]
  exact progress_emit_unlabelled building place lines s.switches (blockLabel?_plain t)

theorem progress_endcase {sw : Switch} {outer : Switches} (top : s.switches = sw :: outer) :
    Progress s opened (processLine includer place "@endcase" { s with lines }) s.switches
      [nextRecord place opened (SwitchLabel.finish sw.depth).jumpLine] 1 [] := by
  have reads : Line.ofString "@endcase" = .directive .endcase "" := Line.ofString_word .endcase
  rw [(building.update lines s.switches).processLine_eq includer place reads rfl]
  simp only [programLine, leaveCase, top]
  exact progress_emit_unlabelled building place lines (sw :: outer) (blockLabel?_jumpLine _)

theorem progress_case {sw : Switch} {outer : Switches} (top : s.switches = sw :: outer)
    (value : Argument) :
    Progress s opened (processLine includer place ("@case " ++ value.text) { s with lines })
      ({ sw with cases := sw.cases ++ [⟨value.text, place.origin⟩] } :: outer)
      [nextRecord place opened (SwitchLabel.case sw.depth (sw.cases.length + 1)).labelLine] 1
      [(.case sw.depth (sw.cases.length + 1), opened.program.outLine)] := by
  have reads : Line.ofString ("@case " ++ value.text) = .directive .case_ value.text := by
    have h := Line.ofString_argument .case_ value.text
    rw [value.trimmed] at h
    exact h
  have given : value.text.isEmpty = false := by simp [value.nonempty]
  rw [(building.update lines s.switches).processLine_eq includer place reads rfl]
  simp only [programLine, addCase, top, given, Switch.addCase, value.trimmed, List.length_append,
    List.length_singleton]
  exact progress_emit_label building place lines _ _

theorem progress_defaultcase {sw : Switch} {outer : Switches} (top : s.switches = sw :: outer)
    (first : sw.defaultOrigin = none) :
    Progress s opened (processLine includer place "@defaultcase" { s with lines })
      ({ sw with defaultOrigin := some place.origin } :: outer)
      [nextRecord place opened (SwitchLabel.default sw.depth).labelLine] 1
      [(.default sw.depth, opened.program.outLine)] := by
  have reads : Line.ofString "@defaultcase" = .directive .defaultcase "" :=
    Line.ofString_word .defaultcase
  rw [(building.update lines s.switches).processLine_eq includer place reads rfl]
  simp only [programLine, addDefault, top, Switch.addDefault, first]
  exact progress_emit_label building place lines _ _

structure Begins (sw : Switch) (subject : String) (insertAt depth : Nat) : Prop where
  subject_eq : sw.subject = subject
  insertAt_eq : sw.insertAt = insertAt
  depth_eq : sw.depth = depth
  cases_eq : sw.cases = []
  default_eq : sw.defaultOrigin = none

theorem progress_switch (subject : Argument) :
    ∃ sw, Begins sw subject.text opened.program.body.length (s.switches.length + 1) ∧
      Progress s opened (processLine includer place ("@switch " ++ subject.text) { s with lines })
        (sw :: s.switches) [] 0 [] := by
  have reads : Line.ofString ("@switch " ++ subject.text) = .directive .switch subject.text := by
    have h := Line.ofString_argument .switch subject.text
    rw [subject.trimmed] at h
    exact h
  have given : subject.text.isEmpty = false := by simp [subject.nonempty]
  rw [(building.update lines s.switches).processLine_eq includer place reads rfl]
  refine ⟨⟨subject.text, place.origin, opened.program.body.length, opened.program.outLine,
    s.switches.length + 1, place.level, [], none⟩, ⟨rfl, rfl, rfl, rfl, rfl⟩, s.env, s.log, lines, ?_,
    .refl s.env s.log⟩
  simp [programLine, openSwitch, given, building.current, Switches.openSwitch, subject.trimmed,
    OpenProgram.grow_nil]

omit building in
theorem insertLines_grow (records : List Record) (count : Nat) (origin : Origin) (outLine : Nat)
    (table : List String) :
    { opened.grow records count with program :=
        (opened.grow records count).program.insertLines opened.program.body.length origin outLine table } =
      opened.grow (table.map (fun line => ⟨origin, outLine, some line, none⟩) ++ records) count := by
  simp [OpenProgram.grow, Program.insertLines, List.append_assoc]

def tableRecords (sw : Switch) : List Record :=
  sw.jumpTable.map fun line => ⟨sw.origin, sw.outLine, some line, none⟩

theorem progress_endswitch {s' : Preprocessor} {sw : Switch} {outer : Switches}
    {records : List Record} {count : Nat} {labels : List (SwitchLabel × Nat)}
    (inside : Progress s opened s' (sw :: outer) records count labels)
    (began : sw.insertAt = opened.program.body.length) :
    Progress s opened (processLine includer place "@endswitch" { s' with lines }) outer
      (tableRecords sw ++ records ++ [nextRecord place (opened.grow records count)
        (SwitchLabel.finish sw.depth).labelLine]) (count + 1)
      (labels ++ [(.finish sw.depth, opened.program.outLine + count)]) := by
  have reads : Line.ofString "@endswitch" = .directive .endswitch "" := Line.ofString_word .endswitch
  rw [((inside.building building).update lines s'.switches).processLine_eq includer place reads rfl]
  obtain ⟨env, log, lines', rfl, binds⟩ := inside
  -- The table goes in first; the label of the end is a line appended behind all the others.
  have spliced : Progress s opened
      { s with env, log, lines := lines', switches := outer,
               current := some (opened.grow (tableRecords sw ++ records) count) }
      outer (tableRecords sw ++ records) count labels := ⟨env, log, lines', rfl, binds⟩
  have finish := progress_emit_label (spliced.building building) place lines outer (.finish sw.depth)
  have joined := spliced.trans finish
  simp only [programLine, closeSwitch, withProgram, Option.map_some, began, insertLines_grow]
  exact joined

end Step

end Preprocessor

end GcodePrep
