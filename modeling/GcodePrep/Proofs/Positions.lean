import GcodePrep.Proofs.StepEffects

set_option autoImplicit false

/-!
# Positions do not matter

Where a line stands is remembered in origins and file levels, and nothing is decided by it except how
includes are resolved and what the end of a file closes. To forget positions is to put one and the same
origin and level everywhere. Every operation commutes with that; and it commutes with further
conditionals around those that are open, as long as it does not ask for one that is not there.
-/

namespace GcodePrep

def Origin.nowhere : Origin := ⟨"", 0⟩

def Record.forget (r : Record) : Record := { r with origin := .nowhere }

def Program.forget (p : Program) : Program :=
  { p with origin := .nowhere, body := p.body.map Record.forget }

def Catalogue.forget (c : Catalogue) : Catalogue where
  programs := c.programs.map Program.forget
  index := c.index
  indexed name := by
    rw [c.indexed, List.map_map]
    rfl

def Branch.forget (b : Branch) : Branch :=
  { b with origin := .nowhere, elseOrigin := b.elseOrigin.map fun _ => .nowhere }

def SwitchCase.forget (c : SwitchCase) : SwitchCase := { c with origin := .nowhere }

def Switch.forget (sw : Switch) : Switch :=
  { sw with
    origin := .nowhere
    fileLevel := 1
    cases := sw.cases.map SwitchCase.forget
    defaultOrigin := sw.defaultOrigin.map fun _ => .nowhere }

def OpenHeader.forget (_ : OpenHeader) : OpenHeader := ⟨.nowhere, 1⟩

def OpenProgram.forget (o : OpenProgram) : OpenProgram := ⟨o.program.forget, 1⟩

def RejectedProgram.forget (r : RejectedProgram) : RejectedProgram := ⟨.nowhere, 1, r.saved⟩

def Diagnostic.forget (d : Diagnostic) : Diagnostic :=
  { d with
    line := 0
    file := d.file.map fun _ => ""
    related := d.related.map fun related => { related with origin := .nowhere } }

def Log.forget (log : Log) : Log := { log with diagnostics := log.diagnostics.map Diagnostic.forget }

def Print.forget (p : Print) : Print := { p with origin := .nowhere }

def ResolveFailure.forget (failure : ResolveFailure) : ResolveFailure :=
  { failure with origin := .nowhere }

def SourceFrame.forget (frame : SourceFrame) : SourceFrame := ⟨"", none, 0, frame.text⟩

namespace Preprocessor

/-- The state without origins, file levels and the count of lines. -/
def forget (s : Preprocessor) : Preprocessor :=
  { s with
    branches := s.branches.map Branch.forget
    switches := s.switches.map Switch.forget
    header := s.header.map OpenHeader.forget
    current := s.current.map OpenProgram.forget
    rejected := s.rejected.map RejectedProgram.forget
    programs := s.programs.forget
    log := s.log.forget
    prints := s.prints.map Print.forget
    lines := 0 }

/-- The same with more conditionals around those that are open. -/
def forgetIn (around : Branches) (s : Preprocessor) : Preprocessor :=
  { s with branches := s.branches ++ around }.forget

end Preprocessor

namespace Program

variable (p : Program)

theorem forget_append (origin : Origin) (text comment : Option String) :
    (p.append origin text comment).forget = p.forget.append .nowhere text comment := by
  simp [forget, append, Record.forget]

theorem forget_insertLines (index : Nat) (origin : Origin) (outLine : Nat) (lines : List String) :
    (p.insertLines index origin outLine lines).forget =
      p.forget.insertLines index .nowhere outLine lines := by
  simp [forget, insertLines, Record.forget, List.map_take, List.map_drop, Function.comp_def]

end Program

theorem Record.forget_withNotes (r : Record) (line : ResolvedLine) :
    (r.withNotes line).forget = r.forget.withNotes line := by
  unfold Record.withNotes
  dsimp only
  split <;> split <;> rfl

theorem ResolveFailure.map_forget_ofPairs (origin : Origin) (failures : List (String × String)) :
    (ofPairs origin failures).map forget = ofPairs .nowhere failures := by
  simp [ofPairs, forget, Function.comp_def]

theorem Record.resolve_forget (r : Record) (env : Environment) :
    r.forget.resolve env = ((r.resolve env).1.forget, (r.resolve env).2.1.map ResolveFailure.forget,
      (r.resolve env).2.2) := by
  have same : r.forget.text = r.text := rfl
  unfold Record.resolve
  rw [same]
  cases r.text with
  | none => rfl
  | some text =>
    dsimp only
    split
    · rfl
    · generalize resolveLine text env = resolved
      rw [ResolveFailure.map_forget_ofPairs, Record.forget_withNotes]
      rfl

namespace Program

theorem resolveHeader_nowhere (origin : Origin) (lines : List String) (env : Environment) :
    resolveHeader .nowhere lines env = ((resolveHeader origin lines env).1,
      (resolveHeader origin lines env).2.1.map ResolveFailure.forget,
      (resolveHeader origin lines env).2.2) := by
  induction lines generalizing env with
  | nil => rfl
  | cons text rest ih =>
    simp only [resolveHeader, ih, List.map_append, ResolveFailure.map_forget_ofPairs]

theorem resolveBody_map_forget (records : List Record) (env : Environment) :
    resolveBody (records.map Record.forget) env = ((resolveBody records env).1.map Record.forget,
      (resolveBody records env).2.1.map ResolveFailure.forget, (resolveBody records env).2.2) := by
  induction records generalizing env with
  | nil => rfl
  | cons record rest ih =>
    simp only [List.map_cons, resolveBody, Record.resolve_forget, ih, List.map_append]

theorem resolve_forget (p : Program) (env : Environment) :
    p.forget.resolve env = ((p.resolve env).1.forget, (p.resolve env).2.1.map ResolveFailure.forget,
      (p.resolve env).2.2) := by
  simp only [resolve, forget, resolveHeader_nowhere p.origin, resolveBody_map_forget, List.map_append]

end Program

namespace Catalogue

theorem get?_forget (c : Catalogue) (name : String) :
    c.forget.get? name = (c.get? name).map Program.forget := by
  rw [get?_eq_bind, get?_eq_bind, Option.map_bind]
  simp only [forget, List.getElem?_map]
  rfl

theorem insert_forget (c : Catalogue) (p : Program) :
    (c.forget.insert p.forget).2 = (c.insert p).2.forget := by
  have sameIndex : c.forget.index.lookup p.forget.name = c.index.lookup p.name := rfl
  apply Catalogue.ext
  · change _ = (c.insert p).2.programs.map Program.forget
    rw [programs_insert, programs_insert, sameIndex]
    cases c.index.lookup p.name with
    | some i => exact List.map_set.symm
    | none => simp [forget]
  · change _ = (c.insert p).2.index
    rw [index_insert, index_insert, sameIndex]
    cases c.index.lookup p.name with
    | some i => rfl
    | none => simp [forget, Program.forget]

end Catalogue

namespace Switch

theorem caseJumps_map_forget (subject : String) (depth index : Nat) (cases : List SwitchCase) :
    caseJumps subject depth index (cases.map SwitchCase.forget) =
      caseJumps subject depth index cases := by
  induction cases generalizing index with
  | nil => rfl
  | cons c cases ih =>
    rw [List.map_cons, caseJumps, caseJumps, ih]
    rfl

theorem jumpTable_forget (sw : Switch) : sw.forget.jumpTable = sw.jumpTable := by
  simp [jumpTable, forget, caseJumps_map_forget]

end Switch

theorem Log.forget_add (log : Log) (d : Diagnostic) :
    (log.add d).forget = log.forget.add d.forget := by
  simp [forget, add, Diagnostic.forget]

theorem Branches.isActive_map_forget (branches : Branches) :
    isActive (branches.map Branch.forget) = isActive branches := by
  cases branches <;> rfl

theorem Branches.isActive_append {around : Branches} (active : isActive around = true)
    (branches : Branches) : isActive (branches ++ around) = isActive branches := by
  cases branches with
  | nil => exact active
  | cons => rfl

theorem Branches.openIf_map_forget {σ : Type} {around : Branches} (active : isActive around = true)
    (branches : Branches) (origin : Origin) (condition : σ → Bool × σ) (s : σ) :
    openIf ((branches ++ around).map Branch.forget) .nowhere condition s =
      (((branches.openIf origin condition s).1 ++ around).map Branch.forget,
        (branches.openIf origin condition s).2) := by
  unfold openIf
  rw [isActive_map_forget, isActive_append active]
  split <;> rfl

namespace Preprocessor

variable (around : Branches) (s : Preprocessor) (frame : SourceFrame) (outer : Place)

theorem forgetIn_addDiagnostic (d : Diagnostic) :
    (s.addDiagnostic d).forgetIn around = (s.forgetIn around).addDiagnostic d.forget := by
  simp [forgetIn, forget, addDiagnostic, Log.forget_add]

theorem forgetIn_report (p : Problem) :
    (s.report (frame :: outer) p).forgetIn around = (s.forgetIn around).report [frame.forget] p :=
  forgetIn_addDiagnostic around s _

theorem forgetIn_reportFault (p : Problem) (fault : Fault) :
    (s.reportFault (frame :: outer) p fault).forgetIn around =
      (s.forgetIn around).reportFault [frame.forget] p fault :=
  forgetIn_addDiagnostic around s _

theorem forgetIn_foldl {α β : Type} {f : Preprocessor → α → Preprocessor}
    {g : Preprocessor → β → Preprocessor} {h : α → β}
    (each : ∀ s a, (f s a).forgetIn around = g (s.forgetIn around) (h a)) (as : List α) :
    (as.foldl f s).forgetIn around = (as.map h).foldl g (s.forgetIn around) := by
  induction as generalizing s with
  | nil => rfl
  | cons a as ih => rw [List.foldl_cons, ih, each, List.map_cons, List.foldl_cons]

theorem forgetIn_reportSwitches (switches : Switches) :
    (s.reportSwitches switches).forgetIn around =
      (s.forgetIn around).reportSwitches (switches.map Switch.forget) := by
  unfold reportSwitches
  refine forgetIn_foldl around s (fun s sw => ?_) switches
  exact forgetIn_addDiagnostic around s _

theorem forgetIn_reportFailures (failures : List ResolveFailure) :
    (s.reportFailures failures).forgetIn around =
      (s.forgetIn around).reportFailures (failures.map ResolveFailure.forget) := by
  unfold reportFailures
  refine forgetIn_foldl around s (fun s failure => ?_) failures
  exact forgetIn_addDiagnostic around s _

section Conditionals

variable {around}

theorem isActive_forgetIn (active : around.isActive = true) :
    (s.forgetIn around).branches.isActive = s.branches.isActive :=
  (Branches.isActive_map_forget _).trans (Branches.isActive_append active _)

theorem forgetIn_openIf (active : around.isActive = true) (expr : String) :
    (s.openIf (frame :: outer) expr).forgetIn around =
      (s.forgetIn around).openIf [frame.forget] expr := by
  have reported : (if s.branches.isActive && expr.isEmpty then
        s.report (frame :: outer) .ifWithoutExpression else s).forgetIn around =
      if (s.forgetIn around).branches.isActive && expr.isEmpty then
        (s.forgetIn around).report [frame.forget] .ifWithoutExpression else s.forgetIn around := by
    rw [isActive_forgetIn s active]
    split
    · exact forgetIn_report around s frame outer _
    · rfl
  unfold openIf
  dsimp only
  rw [← reported]
  generalize (if s.branches.isActive && expr.isEmpty then
    s.report (frame :: outer) .ifWithoutExpression else s) = t
  have here : Place.origin [frame.forget] = .nowhere := rfl
  simp only [forgetIn, forget]
  rw [here, Branches.openIf_map_forget active t.branches (Place.origin (frame :: outer))]

theorem forgetIn_flipElse
    (own : around = [] ∨ s.flipElse (frame :: outer) ≠ s.report (frame :: outer) .elseWithoutIf) :
    (s.flipElse (frame :: outer)).forgetIn around = (s.forgetIn around).flipElse [frame.forget] := by
  cases branches : s.branches with
  | nil =>
    have stray : s.flipElse (frame :: outer) = s.report (frame :: outer) .elseWithoutIf := by
      simp [flipElse, branches, Branches.flipElse?]
    have alone : around = [] := own.resolve_right fun other => other stray
    have stray' : (s.forgetIn around).flipElse [frame.forget] =
        (s.forgetIn around).report [frame.forget] .elseWithoutIf := by
      simp [flipElse, forgetIn, forget, branches, alone, Branches.flipElse?]
    rw [stray, stray']
    exact forgetIn_report around s frame outer _
  | cons branch rest =>
    simp [flipElse, forgetIn, forget, branches, Branches.flipElse?, Branch.forget, Place.origin,
      Origin.nowhere, SourceFrame.forget]

theorem forgetIn_closeIf
    (own : around = [] ∨ s.closeIf (frame :: outer) ≠ s.report (frame :: outer) .endifWithoutIf) :
    (s.closeIf (frame :: outer)).forgetIn around = (s.forgetIn around).closeIf [frame.forget] := by
  cases branches : s.branches with
  | nil =>
    have stray : s.closeIf (frame :: outer) = s.report (frame :: outer) .endifWithoutIf := by
      simp [closeIf, branches, Branches.close?]
    have alone : around = [] := own.resolve_right fun other => other stray
    have stray' : (s.forgetIn around).closeIf [frame.forget] =
        (s.forgetIn around).report [frame.forget] .endifWithoutIf := by
      simp [closeIf, forgetIn, forget, branches, alone, Branches.close?]
    rw [stray, stray']
    exact forgetIn_report around s frame outer _
  | cons branch rest => simp [closeIf, forgetIn, forget, branches, Branches.close?]

end Conditionals

theorem forgetIn_withProgram {f g : Program → Program} (each : ∀ p, (f p).forget = g p.forget) :
    (s.withProgram f).forgetIn around = (s.forgetIn around).withProgram g := by
  cases current : s.current with
  | none => simp [forgetIn, forget, withProgram, current]
  | some o => simp [forgetIn, forget, withProgram, current, OpenProgram.forget, each]

theorem forgetIn_append (origin : Origin) (text comment : Option String) :
    (s.withProgram (·.append origin text comment)).forgetIn around =
      (s.forgetIn around).withProgram (·.append .nowhere text comment) :=
  forgetIn_withProgram around s fun p => p.forget_append origin text comment

theorem forgetIn_insertLines (index : Nat) (origin : Origin) (outLine : Nat) (lines : List String) :
    (s.withProgram (·.insertLines index origin outLine lines)).forgetIn around =
      (s.forgetIn around).withProgram (·.insertLines index .nowhere outLine lines) :=
  forgetIn_withProgram around s fun p => p.forget_insertLines index origin outLine lines

theorem forgetIn_comment (active : around.isActive = true) (text : String) :
    (s.comment (frame :: outer) text).forgetIn around =
      (s.forgetIn around).comment [frame.forget] text := by
  have rejected : (s.forgetIn around).rejected.isNone = s.rejected.isNone := Option.isNone_map
  unfold comment
  rw [isActive_forgetIn s active, rejected]
  split
  · exact forgetIn_append around s _ _ _
  · rfl

theorem forgetIn_captureHeader (line : String) :
    (s.captureHeader line).forgetIn around = (s.forgetIn around).captureHeader line := by
  cases rejected : s.rejected with
  | some r => simp [captureHeader, rejected, forgetIn, forget]
  | none =>
    cases current : s.current with
    | some o =>
      have kept := forgetIn_withProgram around s (f := (·.addHeader line)) (g := (·.addHeader line))
        fun _ => rfl
      simpa [captureHeader, rejected, current, forgetIn, forget] using kept
    | none => simp [captureHeader, rejected, current, forgetIn, forget]

theorem forgetIn_closeHeader :
    (s.closeHeader (frame :: outer)).forgetIn around =
      (s.forgetIn around).closeHeader [frame.forget] := by
  unfold closeHeader
  cases header : s.header with
  | some h => simp [forgetIn, forget, header]
  | none =>
    have unheaded : (s.forgetIn around).header = none := by simp [forgetIn, forget, header]
    rw [unheaded]
    exact forgetIn_report around s frame outer _

theorem forgetIn_print (expr : String) :
    (s.print (frame :: outer) expr).forgetIn around =
      (s.forgetIn around).print [frame.forget] expr := by
  simp [print, eval, forgetIn, forget, Print.forget, Place.origin, SourceFrame.forget, Origin.nowhere]

theorem forgetIn_stop (reason : String) :
    (s.stop (frame :: outer) reason).forgetIn around =
      (s.forgetIn around).stop [frame.forget] reason :=
  congrArg (fun s : Preprocessor => { s with aborted := true })
    (forgetIn_report around s frame outer (.stopped reason))

theorem forgetIn_evalStatement (expr : String) :
    (s.evalStatement (frame :: outer) expr).forgetIn around =
      (s.forgetIn around).evalStatement [frame.forget] expr := by
  have same : (s.forgetIn around).env = s.env := rfl
  unfold evalStatement eval
  rw [same]
  obtain ⟨result, env⟩ := s.env.eval expr
  cases result with
  | ok v => rfl
  | error fault => exact forgetIn_reportFault around { s with env } frame outer _ fault

theorem forgetIn_define (assignment : String) :
    (s.define (frame :: outer) assignment).forgetIn around =
      (s.forgetIn around).define [frame.forget] assignment := by
  have same : (s.forgetIn around).env = s.env := rfl
  unfold define
  rw [same]
  split
  · exact forgetIn_report around s frame outer _
  · obtain ⟨result, env⟩ := s.env.define assignment
    cases result with
    | ok v => rfl
    | error fault => exact forgetIn_reportFault around { s with env } frame outer _ fault

theorem forgetIn_delay (expr : String) :
    (s.delay (frame :: outer) expr).forgetIn around =
      (s.forgetIn around).delay [frame.forget] expr := by
  have same : (s.forgetIn around).env = s.env := rfl
  unfold delay eval
  rw [same]
  obtain ⟨result, env⟩ := s.env.eval expr
  cases result with
  | ok v => exact forgetIn_append around { s with env } _ _ _
  | error fault => exact forgetIn_reportFault around { s with env } frame outer _ fault

theorem forgetIn_closeRejected :
    s.closeRejected.forgetIn around = (s.forgetIn around).closeRejected := by
  cases rejected : s.rejected with
  | none => simp [closeRejected, rejected, forgetIn, forget]
  | some r => simp [closeRejected, rejected, forgetIn, forget, RejectedProgram.forget]

theorem forgetIn_restoreSaved (saved : Option Bindings) :
    (s.restoreSaved saved).forgetIn around = (s.forgetIn around).restoreSaved saved := by
  cases saved <;> rfl

theorem forgetIn_warnOverwriting (name : String) :
    (s.warnOverwriting (frame :: outer) name).forgetIn around =
      (s.forgetIn around).warnOverwriting [frame.forget] name := by
  have found : (s.forgetIn around).programs.get? name = (s.programs.get? name).map Program.forget :=
    s.programs.get?_forget name
  unfold warnOverwriting
  rw [found]
  cases s.programs.get? name with
  | none => rfl
  | some previous => exact forgetIn_addDiagnostic around s _

theorem enclosing?_forgetIn :
    (s.forgetIn around).enclosing? = s.enclosing?.map fun _ => .nowhere := by
  simp only [enclosing?, forgetIn, forget]
  cases s.current <;> cases s.rejected <;> rfl

theorem forgetIn_openProgram (argument : String) :
    (s.openProgram (frame :: outer) argument).forgetIn around =
      (s.forgetIn around).openProgram [frame.forget] argument := by
  have same : (s.forgetIn around).env = s.env := rfl
  unfold openProgram
  dsimp only
  rw [enclosing?_forgetIn, same]
  split
  · exact forgetIn_report around s frame outer _
  · cases s.enclosing? with
    | some enclosing => exact forgetIn_addDiagnostic around s _
    | none =>
      dsimp only [Option.map_none]
      cases programNumber s.env (Text.leadingWord argument) with
      | error problem =>
        exact congrArg (fun u : Preprocessor =>
            { u with rejected := some ⟨.nowhere, 1, s.env.bindings⟩ })
          (forgetIn_report around s frame outer problem)
      | ok number =>
        exact congrArg (fun u : Preprocessor => { u with current := some ⟨Program.start
            (Text.leadingWord argument) number .nowhere s.globalHeader s.env.bindings, 1⟩ })
          (forgetIn_warnOverwriting around s frame outer (Text.leadingWord argument))

def store (p : Program) : Preprocessor := { s with programs := (s.programs.insert p).2 }

theorem forgetIn_store (p : Program) :
    (s.store p).forgetIn around = (s.forgetIn around).store p.forget :=
  congrArg (fun programs => { s.forgetIn around with programs }) (s.programs.insert_forget p).symm

/-- What `@endprogram` does once program and switches are taken out of the state. -/
def keepProgram (p : Program) : Preprocessor :=
  let resolved := p.resolve s.env
  let s := { s with env := resolved.2.2 }.reportFailures resolved.2.1
  (s.restoreSaved p.saved).store { resolved.1 with saved := none, done := true }

theorem forgetIn_keepProgram (p : Program) :
    (s.keepProgram p).forgetIn around = (s.forgetIn around).keepProgram p.forget := by
  have same : (s.forgetIn around).env = s.env := rfl
  unfold keepProgram
  rw [same, p.resolve_forget s.env]
  generalize p.resolve s.env = resolved
  dsimp only
  rw [forgetIn_store, forgetIn_restoreSaved, forgetIn_reportFailures]
  rfl

theorem forgetIn_closeProgram :
    (s.closeProgram (frame :: outer)).forgetIn around =
      (s.forgetIn around).closeProgram [frame.forget] := by
  cases current : s.current with
  | none =>
    have vacant : (s.forgetIn around).current = none := by simp [forgetIn, forget, current]
    simp only [closeProgram, current, vacant]
    exact forgetIn_report around s frame outer _
  | some opened =>
    have current' : (s.forgetIn around).current = some opened.forget := by
      simp [forgetIn, forget, current]
    have closed : s.closeProgram (frame :: outer) =
        ({ s with current := none, switches := [] }.reportSwitches s.switches).keepProgram
          opened.program :=
      closeProgram_eq current (frame :: outer)
    have closed' : (s.forgetIn around).closeProgram [frame.forget] =
        (({ s with current := none, switches := [] }.forgetIn around).reportSwitches
          (s.switches.map Switch.forget)).keepProgram opened.program.forget :=
      closeProgram_eq current' [frame.forget]
    rw [closed, closed', forgetIn_keepProgram, forgetIn_reportSwitches]

theorem forgetIn_bindLabel (e : Emission) (outLine : Nat) :
    (s.bindLabel (frame :: outer) e outLine).forgetIn around =
      (s.forgetIn around).bindLabel [frame.forget] e outLine := by
  have same : (s.forgetIn around).env = s.env := rfl
  unfold bindLabel
  rw [same]
  split
  · rfl
  · split
    · rfl
    · split
      · exact forgetIn_report around s frame outer _
      · rfl

theorem forgetIn_emit (e : Emission) :
    (s.emit (frame :: outer) e).forgetIn around = (s.forgetIn around).emit [frame.forget] e := by
  have current' : (s.forgetIn around).current = s.current.map OpenProgram.forget := rfl
  unfold emit
  rw [current']
  cases s.current with
  | none =>
    dsimp only [Option.map_none]
    split
    · rfl
    · exact forgetIn_report around s frame outer _
  | some opened =>
    dsimp only [Option.map_some]
    rw [forgetIn_append, forgetIn_bindLabel]
    rfl

theorem forgetIn_openSwitch (subject : String) :
    (s.openSwitch (frame :: outer) subject).forgetIn around =
      (s.forgetIn around).openSwitch [frame.forget] subject := by
  have reported : (if subject.isEmpty then s.report (frame :: outer) .switchWithoutExpression
        else s).forgetIn around =
      if subject.isEmpty then (s.forgetIn around).report [frame.forget] .switchWithoutExpression
        else s.forgetIn around := by
    split
    · exact forgetIn_report around s frame outer _
    · rfl
  unfold openSwitch
  dsimp only
  rw [← reported]
  generalize (if subject.isEmpty then s.report (frame :: outer) .switchWithoutExpression else s) = t
  have current' : (t.forgetIn around).current = t.current.map OpenProgram.forget := rfl
  rw [current']
  cases t.current with
  | none => rfl
  | some opened =>
    simp [forgetIn, forget, Switches.openSwitch, Switch.forget, OpenProgram.forget, Program.forget,
      Place.origin, Place.level, SourceFrame.forget, Origin.nowhere]

theorem forgetIn_addCase (value : String) :
    (s.addCase (frame :: outer) value).forgetIn around =
      (s.forgetIn around).addCase [frame.forget] value := by
  have switches' : (s.forgetIn around).switches = s.switches.map Switch.forget := rfl
  unfold addCase
  rw [switches']
  cases s.switches with
  | nil => exact forgetIn_report around s frame outer _
  | cons sw rest =>
    dsimp only [List.map_cons]
    split
    · exact forgetIn_report around s frame outer _
    · rw [forgetIn_emit]
      simp [forgetIn, forget, Switch.addCase, Switch.forget, SwitchCase.forget, Place.origin,
        SourceFrame.forget, Origin.nowhere]

theorem forgetIn_addDefault :
    (s.addDefault (frame :: outer)).forgetIn around =
      (s.forgetIn around).addDefault [frame.forget] := by
  have switches' : (s.forgetIn around).switches = s.switches.map Switch.forget := rfl
  unfold addDefault
  rw [switches']
  cases s.switches with
  | nil => exact forgetIn_report around s frame outer _
  | cons sw rest =>
    cases first : sw.defaultOrigin with
    | some origin =>
      simp only [List.map_cons, Switch.addDefault, Switch.forget, first, Option.map_some]
      exact forgetIn_addDiagnostic around s _
    | none =>
      simp only [List.map_cons, Switch.addDefault, Switch.forget, first, Option.map_none]
      rw [forgetIn_emit]
      rfl

theorem forgetIn_leaveCase :
    (s.leaveCase (frame :: outer)).forgetIn around =
      (s.forgetIn around).leaveCase [frame.forget] := by
  have switches' : (s.forgetIn around).switches = s.switches.map Switch.forget := rfl
  unfold leaveCase
  rw [switches']
  cases s.switches with
  | nil => exact forgetIn_report around s frame outer _
  | cons sw rest => exact forgetIn_emit around s frame outer _

theorem forgetIn_closeSwitch :
    (s.closeSwitch (frame :: outer)).forgetIn around =
      (s.forgetIn around).closeSwitch [frame.forget] := by
  have switches' : (s.forgetIn around).switches = s.switches.map Switch.forget := rfl
  unfold closeSwitch
  rw [switches']
  cases s.switches with
  | nil => exact forgetIn_report around s frame outer _
  | cons sw rest =>
    dsimp only [List.map_cons]
    rw [forgetIn_emit, forgetIn_insertLines, ← Switch.jumpTable_forget]
    rfl

theorem forgetIn_outsideLine (line : Line) :
    (s.outsideLine (frame :: outer) line).forgetIn around =
      (s.forgetIn around).outsideLine [frame.forget] line := by
  unfold outsideLine
  split
  · exact forgetIn_report around s frame outer _
  · rfl
  · exact forgetIn_report around s frame outer _

theorem forgetIn_programLine (text : String) (line : Line) :
    (s.programLine (frame :: outer) text line).forgetIn around =
      (s.forgetIn around).programLine [frame.forget] text line := by
  unfold programLine
  split
  · exact forgetIn_closeProgram around s frame outer
  · exact forgetIn_openSwitch around s frame outer _
  · exact forgetIn_delay around s frame outer _
  · exact forgetIn_addCase around s frame outer _
  · exact forgetIn_addDefault around s frame outer
  · exact forgetIn_leaveCase around s frame outer
  · exact forgetIn_closeSwitch around s frame outer
  · exact forgetIn_emit around s frame outer _

theorem forgetIn_otherLine (text : String) (line : Line) :
    (s.otherLine (frame :: outer) text line).forgetIn around =
      (s.forgetIn around).otherLine [frame.forget] text line := by
  have rejected' : (s.forgetIn around).rejected = s.rejected.map RejectedProgram.forget := rfl
  have current' : (s.forgetIn around).current = s.current.map OpenProgram.forget := rfl
  unfold otherLine
  rw [rejected', current']
  cases s.rejected with
  | some r =>
    dsimp only [Option.map_some]
    split
    · exact forgetIn_closeRejected around s
    · rfl
  | none =>
    cases s.current with
    | none => exact forgetIn_outsideLine around s frame outer line
    | some o => exact forgetIn_programLine around s frame outer text line

theorem forgetIn_visibleLine {line : Line} (simple : ∀ argument, line ≠ .directive .include_ argument)
    (includer includer' : Includer) (text : String) :
    (visibleLine includer s (frame :: outer) text line).forgetIn around =
      visibleLine includer' (s.forgetIn around) [frame.forget] text line := by
  unfold visibleLine
  split
  · exact forgetIn_print around s frame outer _
  · exact forgetIn_stop around s frame outer _
  · rfl
  · exact forgetIn_openProgram around s frame outer _
  · exact absurd rfl (simple _)
  · exact forgetIn_evalStatement around s frame outer _
  · exact forgetIn_define around s frame outer _
  · exact forgetIn_otherLine around s frame outer text _

theorem forgetIn_headedLine {around : Branches} (active : around.isActive = true) {line : Line}
    (simple : ∀ argument, line ≠ .directive .include_ argument) (includer includer' : Includer)
    (text : String)
    (own : around = [] ∨ ∀ p, p = .elseWithoutIf ∨ p = .endifWithoutIf →
      headedLine includer s (frame :: outer) text line ≠ s.report (frame :: outer) p) :
    (headedLine includer s (frame :: outer) text line).forgetIn around =
      headedLine includer' (s.forgetIn around) [frame.forget] text line := by
  have header' : (s.forgetIn around).header.isSome = s.header.isSome := Option.isSome_map
  unfold headedLine at own ⊢
  rw [isActive_forgetIn s active, header']
  by_cases captured : (s.branches.isActive && s.header.isSome) = true
  · rw [if_pos captured, if_pos captured]
    exact forgetIn_captureHeader around s text
  · rw [if_neg captured] at own
    rw [if_neg captured, if_neg captured]
    split
    · exact forgetIn_openIf s frame outer active _
    · exact forgetIn_flipElse s frame outer (own.imp_right fun other => other _ (.inl rfl))
    · exact forgetIn_closeIf s frame outer (own.imp_right fun other => other _ (.inr rfl))
    · split
      · exact forgetIn_visibleLine around s frame outer simple includer includer' text
      · rfl

/-- A line that is no `@include` does the same wherever it stands and whatever conditionals are open
around, unless it asks for one of these. -/
theorem forgetIn_processLine {around : Branches} (active : around.isActive = true) {text : String}
    (simple : ∀ argument, Line.ofString text ≠ .directive .include_ argument)
    (includer includer' : Includer)
    (own : around = [] ∨ ∀ p, p = .elseWithoutIf ∨ p = .endifWithoutIf →
      processLine includer (frame :: outer) text s ≠ s.report (frame :: outer) p) :
    (processLine includer (frame :: outer) text s).forgetIn around =
      processLine includer' [frame.forget] text (s.forgetIn around) := by
  unfold processLine at own ⊢
  split at own
  · rfl
  · exact forgetIn_comment around s frame outer active _
  · rw [isActive_forgetIn s active]
    split
    · exact forgetIn_closeHeader around s frame outer
    · rfl
  · exact forgetIn_headedLine s frame outer active simple includer includer' text own

end Preprocessor

end GcodePrep
