import GcodePrep.Proofs.IncludeDepth

set_option autoImplicit false

/-!
# Where diagnostics and records come from

A diagnostic that quotes a line names the file and the number of that line, and every record of an open
program names the line that it comes of. The lines of a jump table are written long after their
`@switch`, maybe in another file; it is the `@switch` that they name. So what an open switch remembers
has to be followed along the run as well.
-/

namespace GcodePrep

open Preprocessor

theorem Line.starts_of_comment {line note : String} (reads : Line.ofString line = .comment note) :
    ∃ cs, line.toList = '/' :: '/' :: cs ∧ note = String.ofList (Text.trimmed cs) := by
  unfold Line.ofString Line.ofChars at reads
  split at reads
  · cases reads
  · rename_i cs starts
    cases reads
    exact ⟨cs, starts, rfl⟩
  · dsimp only at reads
    split at reads <;> cases reads

namespace Preprocessor

def OpensSwitch (switches : Switches) (line : String) (sw : Switch) : Prop :=
  ∃ subject, Line.ofString line = .directive .switch subject ∧ sw.subject = Text.trim subject ∧
    sw.depth = switches.length + 1

/-- Text and comment of a record that comes of a line, with the bindings and the open switches that the
line finds. -/
inductive Written (env : Environment) (switches : Switches) (line : String) :
    Option String → Option String → Prop where
  | text : Written env switches line (some line) none
  | comment (note : List Char) (starts : line.toList = '/' :: '/' :: note) :
      Written env switches line none (some (String.ofList (Text.trimmed note)))
  | delay (expr : String) (v : Value) (directive : Line.ofString line = .directive .delay expr)
      (value : (env.eval expr).1 = .ok v) :
      Written env switches line (some ("G04 P" ++ v.text ++ " ;")) (some expr)
  | case (value : String) (sw : Switch) (directive : Line.ofString line = .directive .case_ value)
      (innermost : switches.head? = some sw) :
      Written env switches line (some (SwitchLabel.case sw.depth (sw.cases.length + 1)).labelLine) none
  | default (argument : String) (sw : Switch)
      (directive : Line.ofString line = .directive .defaultcase argument)
      (innermost : switches.head? = some sw) :
      Written env switches line (some (SwitchLabel.default sw.depth).labelLine) none
  | leave (argument : String) (sw : Switch)
      (directive : Line.ofString line = .directive .endcase argument)
      (innermost : switches.head? = some sw) :
      Written env switches line (some (SwitchLabel.finish sw.depth).jumpLine) none
  | finish (argument : String) (sw : Switch)
      (directive : Line.ofString line = .directive .endswitch argument)
      (innermost : switches.head? = some sw) :
      Written env switches line (some (SwitchLabel.finish sw.depth).labelLine) none
  | jump (sw : Switch) (text : String) (opens : OpensSwitch switches line sw) (mem : text ∈ sw.jumpTable) :
      Written env switches line (some text) none

/-- All diagnostics, open switches and records of the open program are as the three predicates say. -/
structure Justified (D : Diagnostic → Prop) (S : Switch → Prop) (R : Record → Prop)
    (s : Preprocessor) : Prop where
  diagnostics : ∀ d ∈ s.log.diagnostics, D d
  switches : ∀ sw ∈ s.switches, S sw
  records : ∀ o, s.current = some o → ∀ r ∈ o.program.body, R r

def AllowsAt (D : Diagnostic → Prop) (place : Place) : Prop :=
  ∀ d, d.file = some place.origin.file → d.line = place.origin.line → d.source = place.source? → D d

/-- What the predicates have to allow for a line that is read at `place`, in the state `s`. -/
structure Accepts (D : Diagnostic → Prop) (S : Switch → Prop) (R : Record → Prop) (s : Preprocessor)
    (place : Place) (line : String) : Prop where
  unsourced : ∀ d, d.source = none → D d
  here : AllowsAt D place
  opened : ∀ sw, sw.origin = place.origin → OpensSwitch s.switches line sw → S sw
  continued : ∀ sw cases defaultOrigin, S sw → S { sw with cases, defaultOrigin }
  jumps : ∀ sw outLine text, S sw → text ∈ sw.jumpTable → R ⟨sw.origin, outLine, some text, none⟩
  written : ∀ outLine text comment, Written s.env s.switches line text comment →
    R ⟨place.origin, outLine, text, comment⟩

namespace Justified

variable {D : Diagnostic → Prop} {S : Switch → Prop} {R : Record → Prop} {s s' : Preprocessor}

theorem of_same (h : Justified D S R s) (log : s'.log = s.log) (switches : s'.switches = s.switches)
    (current : s'.current = s.current) : Justified D S R s' :=
  ⟨log ▸ h.diagnostics, switches ▸ h.switches, current ▸ h.records⟩

theorem mono {D' : Diagnostic → Prop} {S' : Switch → Prop} {R' : Record → Prop}
    (h : Justified D S R s) (diagnostics : ∀ d, D d → D' d) (switches : ∀ sw, S sw → S' sw)
    (records : ∀ r, R r → R' r) : Justified D' S' R' s :=
  ⟨fun d mem => diagnostics d (h.diagnostics d mem), fun sw mem => switches sw (h.switches sw mem),
    fun o current r mem => records r (h.records o current r mem)⟩

theorem addDiagnostic (h : Justified D S R s) {d : Diagnostic} (allowed : D d) :
    Justified D S R (s.addDiagnostic d) := by
  refine ⟨fun e mem => ?_, h.switches, h.records⟩
  rcases List.mem_append.mp mem with mem | mem
  · exact h.diagnostics e mem
  · exact List.mem_singleton.mp mem ▸ allowed

theorem withSwitches (h : Justified D S R s) {switches : Switches} (allowed : ∀ sw ∈ switches, S sw) :
    Justified D S R { s with switches } :=
  ⟨h.diagnostics, allowed, h.records⟩

theorem withCurrent (h : Justified D S R s) {o : OpenProgram} (fresh : o.program.body = []) :
    Justified D S R { s with current := some o } := by
  refine ⟨h.diagnostics, h.switches, fun o' current r mem => ?_⟩
  cases current
  rw [fresh] at mem
  cases mem

theorem vacate (h : Justified D S R s) : Justified D S R { s with current := none, switches := [] } :=
  ⟨h.diagnostics, nofun, nofun⟩

theorem withProgram (h : Justified D S R s) {f : Program → Program}
    (allowed : ∀ p : Program, (∀ r ∈ p.body, R r) → ∀ r ∈ (f p).body, R r) :
    Justified D S R (s.withProgram f) := by
  refine ⟨h.diagnostics, h.switches, fun o' current => ?_⟩
  obtain ⟨o, before, rfl⟩ := Option.map_eq_some_iff.mp current
  exact allowed o.program (h.records o before)

theorem append (h : Justified D S R s) {origin : Origin} {text comment : Option String}
    (allowed : ∀ outLine, R ⟨origin, outLine, text, comment⟩) :
    Justified D S R (s.withProgram (·.append origin text comment)) := by
  refine h.withProgram fun p body r mem => ?_
  rcases List.mem_append.mp mem with mem | mem
  · exact body r mem
  · exact List.mem_singleton.mp mem ▸ allowed p.outLine

theorem insertLines (h : Justified D S R s) {index outLine : Nat} {origin : Origin}
    {lines : List String} (allowed : ∀ line ∈ lines, R ⟨origin, outLine, some line, none⟩) :
    Justified D S R (s.withProgram (·.insertLines index origin outLine lines)) := by
  refine h.withProgram fun p body r mem => ?_
  rcases List.mem_append.mp mem with mem | mem
  · rcases List.mem_append.mp mem with mem | mem
    · exact body r (List.mem_of_mem_take mem)
    · obtain ⟨line, given, rfl⟩ := List.mem_map.mp mem
      exact allowed line given
  · exact body r (List.mem_of_mem_drop mem)

theorem foldl {α : Type} {f : Preprocessor → α → Preprocessor}
    (each : ∀ s a, Justified D S R s → Justified D S R (f s a)) (as : List α)
    (h : Justified D S R s) : Justified D S R (as.foldl f s) := by
  induction as generalizing s with
  | nil => exact h
  | cons a as ih => exact ih (each s a h)

section Unsourced

variable (h : Justified D S R s) (unsourced : ∀ d, d.source = none → D d)

include h unsourced

theorem reportSwitches (switches : Switches) : Justified D S R (s.reportSwitches switches) :=
  foldl (fun _ _ h => h.addDiagnostic (unsourced _ rfl)) switches h

theorem reportFailures (failures : List ResolveFailure) :
    Justified D S R (s.reportFailures failures) :=
  foldl (fun _ _ h => h.addDiagnostic (unsourced _ rfl)) failures h

theorem reportBranches (branches : Branches) : Justified D S R (s.reportBranches branches) := by
  refine foldl (fun _ branch h => h.addDiagnostic (unsourced _ ?_)) branches h
  cases branch.elseOrigin <;> rfl

omit unsourced in
theorem restoreSaved (saved : Option Bindings) : Justified D S R (s.restoreSaved saved) := by
  cases saved <;> exact h.of_same rfl rfl rfl

omit unsourced in
theorem closeRejected : Justified D S R s.closeRejected := by
  unfold Preprocessor.closeRejected
  split <;> exact h.of_same rfl rfl rfl

theorem endHeader (level : Nat) : Justified D S R (s.endHeader level) := by
  unfold Preprocessor.endHeader
  split
  · exact h
  · split
    · have closed : Justified D S R { s with header := none } := h.of_same rfl rfl rfl
      exact closed.addDiagnostic (unsourced _ rfl)
    · exact h

theorem endProgram (level : Nat) : Justified D S R (s.endProgram level).1 := by
  unfold Preprocessor.endProgram
  split
  · exact h
  · split
    · exact addDiagnostic (h.vacate.restoreSaved _) (unsourced _ rfl)
    · exact h

omit unsourced in
theorem endRejected (level : Nat) : Justified D S R (s.endRejected level) := by
  unfold Preprocessor.endRejected
  split
  · exact h
  · split
    · exact h.closeRejected
    · exact h

theorem endFile (level : Nat) : Justified D S R (s.endFile level) := by
  have branches : Justified D S R { s with branches := [] } := h.of_same rfl rfl rfl
  have headed := (branches.reportBranches unsourced s.branches).endHeader unsourced level
  unfold Preprocessor.endFile
  dsimp only
  generalize ({ s with branches := [] }.reportBranches s.branches).endHeader level = s at headed ⊢
  have kept : Justified D S R { s with switches := (s.switches.splitFromLevel level).2 } :=
    headed.withSwitches fun sw mem => headed.switches sw ((List.dropWhile_sublist _).mem mem)
  exact endRejected ((kept.endProgram unsourced level).reportSwitches unsourced _) level

end Unsourced

variable {place : Place} {line : String}

section Here

variable (h : Justified D S R s) (here : AllowsAt D place)

include h here

theorem report (p : Problem) : Justified D S R (s.report place p) :=
  h.addDiagnostic (here _ rfl rfl rfl)

theorem openIf (expr : String) : Justified D S R (s.openIf place expr) := by
  have reported : Justified D S R
      (if s.branches.isActive && expr.isEmpty then s.report place .ifWithoutExpression else s) := by
    split
    · exact h.report here _
    · exact h
  exact reported.of_same rfl rfl rfl

theorem flipElse : Justified D S R (s.flipElse place) := by
  unfold Preprocessor.flipElse
  split
  · exact h.of_same rfl rfl rfl
  · exact h.report here _

theorem closeIf : Justified D S R (s.closeIf place) := by
  unfold Preprocessor.closeIf
  split
  · exact h.of_same rfl rfl rfl
  · exact h.report here _

theorem closeHeader : Justified D S R (s.closeHeader place) := by
  unfold Preprocessor.closeHeader
  split
  · exact h.of_same rfl rfl rfl
  · exact h.report here _

omit here in
theorem captureHeader (text : String) : Justified D S R (s.captureHeader text) := by
  unfold Preprocessor.captureHeader
  split
  · exact h
  · exact h.withProgram fun p body => body
  · exact h.of_same rfl rfl rfl

omit here in
theorem eval (expr : String) : Justified D S R (s.eval expr).2 := h.of_same rfl rfl rfl

theorem evalStatement (expr : String) : Justified D S R (s.evalStatement place expr) := by
  have evaluated := h.eval expr
  unfold Preprocessor.evalStatement
  split <;> rename_i eq <;> rw [eq] at evaluated
  · exact evaluated
  · exact evaluated.addDiagnostic (here _ rfl rfl rfl)

theorem define (assignment : String) : Justified D S R (s.define place assignment) := by
  unfold Preprocessor.define
  split
  · exact h.report here _
  · split
    · exact h.of_same rfl rfl rfl
    · rename_i env _
      have bound : Justified D S R { s with env } := h.of_same rfl rfl rfl
      exact bound.addDiagnostic (here _ rfl rfl rfl)

theorem warnOverwriting (name : String) : Justified D S R (s.warnOverwriting place name) := by
  unfold Preprocessor.warnOverwriting
  split
  · exact h
  · exact h.addDiagnostic (here _ rfl rfl rfl)

theorem openProgram (argument : String) : Justified D S R (s.openProgram place argument) := by
  unfold Preprocessor.openProgram
  dsimp only
  split
  · exact h.report here _
  · split
    · exact h.addDiagnostic (here _ rfl rfl rfl)
    · split
      · exact (h.report here _).of_same rfl rfl rfl
      · exact (h.warnOverwriting here _).withCurrent rfl

theorem bindLabel (e : Emission) (outLine : Nat) : Justified D S R (s.bindLabel place e outLine) := by
  unfold Preprocessor.bindLabel
  split
  · exact h
  · split
    · exact h.of_same rfl rfl rfl
    · split
      · exact h.report here _
      · exact h

theorem emit (e : Emission) (written : ∀ outLine, R ⟨place.origin, outLine, some e.text, none⟩) :
    Justified D S R (s.emit place e) := by
  unfold Preprocessor.emit
  split
  · split
    · exact h
    · exact h.report here _
  · exact (h.bindLabel here e _).append written

theorem outsideLine (l : Line) : Justified D S R (s.outsideLine place l) := by
  unfold Preprocessor.outsideLine
  split
  · exact h.report here _
  · exact h
  · exact h.report here _

theorem refuse (inclusion : Inclusion) (tree : FileTree) (unsourced : ∀ d, d.source = none → D d)
    (argument : String) : Justified D S R (Traversal.refuse inclusion tree place argument s) := by
  unfold Traversal.refuse includeFile
  dsimp only
  split
  · exact h.report here _
  · split
    · exact h.addDiagnostic (here _ rfl rfl rfl)
    · rename_i enter given
      split at given <;> cases given
      unfold readFile reportUnreadable
      split
      · exact h
      · dsimp only
        split
        · exact h.addDiagnostic (unsourced _ rfl)
        · exact h.report here _

end Here

section Operations

variable (h : Justified D S R s) (a : Accepts D S R s place line)

include h a

theorem comment {note : String} (reads : Line.ofString line = .comment note) :
    Justified D S R (s.comment place note) := by
  unfold Preprocessor.comment
  split
  · obtain ⟨cs, starts, rfl⟩ := Line.starts_of_comment reads
    exact h.append fun outLine => a.written outLine _ _ (.comment cs starts)
  · exact h

theorem closeProgram : Justified D S R (s.closeProgram place) := by
  cases current : s.current with
  | none =>
    simp only [Preprocessor.closeProgram, current]
    exact h.report a.here _
  | some opened =>
    rw [closeProgram_eq current]
    dsimp only
    have reported := h.vacate.reportSwitches a.unsourced s.switches
    generalize { s with current := none, switches := [] }.reportSwitches s.switches = t at reported ⊢
    have resolved : Justified D S R { t with env := (opened.program.resolve t.env).2.2 } :=
      reported.of_same rfl rfl rfl
    have failed := resolved.reportFailures a.unsourced (opened.program.resolve t.env).2.1
    exact (failed.restoreSaved opened.program.saved).of_same rfl rfl rfl

theorem delay {expr : String} (reads : Line.ofString line = .directive .delay expr) :
    Justified D S R (s.delay place expr) := by
  have evaluated := h.eval expr
  unfold Preprocessor.delay
  split <;> rename_i eq <;> rw [eq] at evaluated
  · rename_i v _
    have value : (s.env.eval expr).1 = .ok v := congrArg Prod.fst eq
    exact evaluated.append fun outLine => a.written outLine _ _ (.delay expr v reads value)
  · exact evaluated.addDiagnostic (a.here _ rfl rfl rfl)

theorem openSwitch {subject : String} (reads : Line.ofString line = .directive .switch subject) :
    Justified D S R (s.openSwitch place subject) := by
  have opened (insertAt outLine fileLevel : Nat) : ∀ sw ∈ s.switches.openSwitch subject place.origin
      insertAt outLine fileLevel, S sw := by
    intro sw mem
    rcases List.mem_cons.mp mem with rfl | mem
    · exact a.opened _ rfl ⟨subject, reads, rfl, rfl⟩
    · exact h.switches sw mem
  have reported : Justified D S R
      (if subject.isEmpty then s.report place .switchWithoutExpression else s) := by
    split
    · exact h.report a.here _
    · exact h
  have same : (if subject.isEmpty then s.report place .switchWithoutExpression else s).switches =
      s.switches := by
    split <;> rfl
  unfold Preprocessor.openSwitch
  generalize (if subject.isEmpty then s.report place .switchWithoutExpression else s) = t
    at reported same ⊢
  dsimp only
  split
  · exact reported
  · rw [same]
    exact reported.withSwitches (opened _ _ _)

theorem withInnermost {sw : Switch} {outer : Switches} (switches : s.switches = sw :: outer)
    (cases : List SwitchCase) (defaultOrigin : Option Origin) :
    Justified D S R { s with switches := { sw with cases, defaultOrigin } :: outer } := by
  have before := h.switches
  rw [switches] at before
  refine h.withSwitches fun other mem => ?_
  rcases List.mem_cons.mp mem with rfl | mem
  · exact a.continued sw cases defaultOrigin (before sw List.mem_cons_self)
  · exact before other (List.mem_cons_of_mem _ mem)

theorem addCase {value : String} (reads : Line.ofString line = .directive .case_ value) :
    Justified D S R (s.addCase place value) := by
  unfold Preprocessor.addCase
  split
  · exact h.report a.here _
  · rename_i sw outer switches
    split
    · exact h.report a.here _
    · have innermost : s.switches.head? = some sw := congrArg List.head? switches
      refine emit (h.withInnermost a switches _ sw.defaultOrigin) a.here _ fun outLine => ?_
      simp only [List.length_append, List.length_singleton]
      exact a.written outLine _ _ (.case value sw reads innermost)

theorem addDefault {argument : String} (reads : Line.ofString line = .directive .defaultcase argument) :
    Justified D S R (s.addDefault place) := by
  unfold Preprocessor.addDefault
  split
  · exact h.report a.here _
  · rename_i sw outer switches
    have innermost : s.switches.head? = some sw := congrArg List.head? switches
    unfold Switch.addDefault
    cases sw.defaultOrigin with
    | some first => exact h.addDiagnostic (a.here _ rfl rfl rfl)
    | none =>
      exact emit (h.withInnermost a switches sw.cases _) a.here _ fun outLine =>
        a.written outLine _ _ (.default argument sw reads innermost)

theorem leaveCase {argument : String} (reads : Line.ofString line = .directive .endcase argument) :
    Justified D S R (s.leaveCase place) := by
  unfold Preprocessor.leaveCase
  split
  · exact h.report a.here _
  · rename_i sw outer switches
    have innermost : s.switches.head? = some sw := congrArg List.head? switches
    exact h.emit a.here _ fun outLine => a.written outLine _ _ (.leave argument sw reads innermost)

theorem closeSwitch {argument : String} (reads : Line.ofString line = .directive .endswitch argument) :
    Justified D S R (s.closeSwitch place) := by
  unfold Preprocessor.closeSwitch
  split
  · exact h.report a.here _
  · rename_i sw outer switches
    have innermost : s.switches.head? = some sw := congrArg List.head? switches
    have before := h.switches
    rw [switches] at before
    have closed : Justified D S R { s with switches := outer } :=
      h.withSwitches fun other mem => before other (List.mem_cons_of_mem _ mem)
    have inserted : Justified D S R ({ s with switches := outer }.withProgram
        (·.insertLines sw.insertAt sw.origin sw.outLine sw.jumpTable)) :=
      closed.insertLines fun text mem => a.jumps sw sw.outLine text (before sw List.mem_cons_self) mem
    exact inserted.emit a.here _ fun outLine => a.written outLine _ _ (.finish argument sw reads innermost)

theorem programLine : Justified D S R (s.programLine place line (Line.ofString line)) := by
  unfold Preprocessor.programLine
  split
  · exact h.closeProgram a
  · rename_i reads
    exact h.openSwitch a reads
  · rename_i reads
    exact h.delay a reads
  · rename_i reads
    exact h.addCase a reads
  · rename_i reads
    exact h.addDefault a reads
  · rename_i reads
    exact h.leaveCase a reads
  · rename_i reads
    exact h.closeSwitch a reads
  · exact h.emit a.here _ fun outLine => a.written outLine _ _ .text

theorem otherLine : Justified D S R (s.otherLine place line (Line.ofString line)) := by
  unfold Preprocessor.otherLine
  split
  · split
    · exact h.closeRejected
    · exact h
  · exact h.outsideLine a.here _
  · exact h.programLine a

theorem visibleLine {includer : Includer}
    (included : ∀ argument, Justified D S R (includer place argument s)) :
    Justified D S R (visibleLine includer s place line (Line.ofString line)) := by
  unfold Preprocessor.visibleLine
  split
  · exact h.of_same rfl rfl rfl
  · exact (h.report a.here _).of_same rfl rfl rfl
  · exact h.of_same rfl rfl rfl
  · exact h.openProgram a.here _
  · exact included _
  · exact h.evalStatement a.here _
  · exact h.define a.here _
  · exact h.otherLine a

theorem headedLine {includer : Includer}
    (included : ∀ argument, Justified D S R (includer place argument s)) :
    Justified D S R (headedLine includer s place line (Line.ofString line)) := by
  unfold Preprocessor.headedLine
  split
  · exact h.captureHeader line
  · split
    · exact h.openIf a.here _
    · exact h.flipElse a.here
    · exact h.closeIf a.here
    · split
      · exact h.visibleLine a included
      · exact h

theorem processLine {includer : Includer}
    (included : ∀ argument, Justified D S R (includer place argument s)) :
    Justified D S R (processLine includer place line s) := by
  unfold Preprocessor.processLine
  split
  · exact h
  · rename_i reads
    exact h.comment a reads
  · split
    · exact h.closeHeader a.here
    · exact h
  · exact h.headedLine a included

end Operations

end Justified

end Preprocessor

def FileTree.Stands (tree : FileTree) (origin : Origin) (line : String) : Prop :=
  1 ≤ origin.line ∧ ∃ text, tree.read origin.file = .ok text ∧
    (Text.sourceLines text)[origin.line - 1]? = some line

namespace Traversal

section

variable (inclusion : Inclusion) (tree : FileTree)

/-- A step, or the beginning of another file when none is open. -/
def Advances (t t' : Traversal) : Prop :=
  Step inclusion tree t t' ∨ ∃ path, t.files = [] ∧ t' = beginFile tree path t.state

/-- Files processed one after the other, up to any point in the last one. -/
def Leads : Traversal → Traversal → Prop := Relation.ReflTransGen (Advances inclusion tree)

/-- What is left to read in a file is what stands in it after the line read last. -/
def Faithful (files : List OpenFile) : Prop :=
  ∀ file ∈ files, ∃ text, tree.read file.frame.name = .ok text ∧
    file.rest = (Text.sourceLines text).drop file.frame.line

end

variable {inclusion : Inclusion} {tree : FileTree} {t t' u : Traversal}

theorem Runs.leads (run : Runs inclusion tree t t') : Leads inclusion tree t t' :=
  Relation.ReflTransGen.mono (fun _ _ => Or.inl) _ _ run

theorem leads_processFile {s : Preprocessor} (led : Leads inclusion tree t ⟨[], s⟩) (path : String) :
    Leads inclusion tree t ⟨[], processFile inclusion tree path s⟩ := by
  have begun : Leads inclusion tree t (beginFile tree path s) := led.tail (.inr ⟨path, rfl, rfl⟩)
  exact begun.trans (runs_processFile inclusion tree path s).leads

theorem read_of_included? {place : Place} {argument : String} {source : Source}
    (found : included? inclusion tree place argument = some source) :
    tree.read source.name = .ok source.text := by
  unfold included? at found
  dsimp only at found
  generalize resolvePath inclusion tree place (includePath argument) = path at found
  split at found
  · cases found
  · cases read : tree.read path with
    | ok text =>
      rw [read] at found
      cases found
      exact read
    | error fault =>
      rw [read] at found
      cases found

theorem Faithful.cons {file : OpenFile} {files : List OpenFile} {text : String}
    (read : tree.read file.frame.name = .ok text)
    (left : file.rest = (Text.sourceLines text).drop file.frame.line)
    (faithful : Faithful tree files) : Faithful tree (file :: files) := by
  intro other mem
  rcases List.mem_cons.mp mem with rfl | mem
  · exact ⟨text, read, left⟩
  · exact faithful other mem

theorem faithful_beginFile (path : String) (s : Preprocessor) :
    Faithful tree (beginFile tree path s).files := by
  unfold beginFile
  cases read : tree.read path with
  | ok text => exact Faithful.cons read rfl nofun
  | error fault => exact nofun

theorem Reads.stands {files : List OpenFile} {line : String} (reads : t.Reads files line)
    (faithful : Faithful tree t.files) :
    Faithful tree files ∧ tree.Stands (Place.origin (files.map OpenFile.frame)) line := by
  obtain ⟨-, file, outer, rest, before, left, rfl⟩ := reads
  rw [before] at faithful
  obtain ⟨text, read, lines⟩ := faithful file List.mem_cons_self
  rw [left] at lines
  refine ⟨Faithful.cons read ?_ fun other mem => faithful other (List.mem_cons_of_mem _ mem),
    Nat.le_add_left _ _, text, read, ?_⟩
  · have later := congrArg List.tail lines
    rwa [List.tail_cons, List.tail_drop] at later
  · have first := congrArg List.head? lines
    rw [List.head?_cons, List.head?_drop] at first
    exact first.symm

theorem Step.faithful (h : Step inclusion tree t t') (faithful : Faithful tree t.files) :
    Faithful tree t'.files := by
  rcases h.cases with ⟨file, outer, files, rfl⟩ | ⟨files, line, reads, rfl⟩
  · exact fun other mem => faithful other (files ▸ List.mem_cons_of_mem _ mem)
  · have read := (reads.stands faithful).1
    rcases readLine_cases inclusion tree files line { t.state with lines := t.state.lines + 1 } with
      ⟨s, same⟩ | ⟨argument, source, found, entered⟩
    · rw [same]
      exact read
    · rw [entered]
      exact Faithful.cons (read_of_included? found) rfl read

theorem Leads.faithful (led : Leads inclusion tree t t') (faithful : Faithful tree t.files) :
    Faithful tree t'.files := by
  induction led with
  | refl => exact faithful
  | tail _ next ih =>
    rcases next with step | ⟨path, -, rfl⟩
    · exact step.faithful ih
    · exact faithful_beginFile path _

variable (inclusion tree) in
/-- Between two points a line was read, at `u`, and it stands where `origin` says. -/
structure ReadAt (start t u : Traversal) (origin : Origin) (line : String) : Prop where
  before : Leads inclusion tree start u
  after : Leads inclusion tree u t
  reads : ∃ files, u.Reads files line ∧ origin = Place.origin (files.map OpenFile.frame)
  stands : tree.Stands origin line

variable (inclusion tree) in
def Quotes (start t : Traversal) (d : Diagnostic) : Prop :=
  ∀ source, d.source = some source → ∃ u origin, ReadAt inclusion tree start t u origin source ∧
    d.file = some origin.file ∧ d.line = origin.line

variable (inclusion tree) in
def Remembers (start t : Traversal) (sw : Switch) : Prop :=
  ∃ u line, ReadAt inclusion tree start t u sw.origin line ∧ OpensSwitch u.state.switches line sw

variable (inclusion tree) in
def Traces (start t : Traversal) (r : Record) : Prop :=
  ∃ u line, ReadAt inclusion tree start t u r.origin line ∧
    Written u.state.env u.state.switches line r.text r.comment

variable (inclusion tree) in
def Accounted (start t : Traversal) (s : Preprocessor) : Prop :=
  Justified (Quotes inclusion tree start t) (Remembers inclusion tree start t)
    (Traces inclusion tree start t) s

variable {start : Traversal}

theorem ReadAt.onward {origin : Origin} {line : String} (h : ReadAt inclusion tree start t u origin line)
    (led : Leads inclusion tree t t') : ReadAt inclusion tree start t' u origin line :=
  ⟨h.before, h.after.trans led, h.reads, h.stands⟩

theorem Accounted.onward {s : Preprocessor} (h : Accounted inclusion tree start t s)
    (led : Leads inclusion tree t t') : Accounted inclusion tree start t' s := by
  refine Justified.mono h ?_ ?_ ?_
  · intro d quotes source quoted
    obtain ⟨u, origin, read, position⟩ := quotes source quoted
    exact ⟨u, origin, read.onward led, position⟩
  · rintro sw ⟨u, line, read, opens⟩
    exact ⟨u, line, read.onward led, opens⟩
  · rintro r ⟨u, line, read, written⟩
    exact ⟨u, line, read.onward led, written⟩

theorem quotes_of_unsourced {d : Diagnostic} (unsourced : d.source = none) :
    Quotes inclusion tree start t d := by
  intro source quoted
  cases unsourced.symm.trans quoted

theorem Reads.accepts {files : List OpenFile} {line : String} (reads : u.Reads files line)
    (before : Leads inclusion tree start u) (after : Leads inclusion tree u t)
    (faithful : Faithful tree u.files) :
    Accepts (Quotes inclusion tree start t) (Remembers inclusion tree start t)
      (Traces inclusion tree start t) { u.state with lines := u.state.lines + 1 }
      (files.map OpenFile.frame) line := by
  have read : ReadAt inclusion tree start t u (Place.origin (files.map OpenFile.frame)) line :=
    ⟨before, after, ⟨files, reads, rfl⟩, (reads.stands faithful).2⟩
  have shown : Place.source? (files.map OpenFile.frame) = some line := by
    obtain ⟨-, file, outer, rest, -, -, rfl⟩ := reads
    rfl
  constructor
  · exact fun d unsourced => quotes_of_unsourced unsourced
  · intro d file number quoted source given
    obtain rfl : line = source := Option.some.inj ((quoted.trans shown).symm.trans given)
    exact ⟨u, _, read, file, number⟩
  · intro sw origin opens
    exact ⟨u, line, origin ▸ read, opens⟩
  · intro sw cases defaultOrigin remembers
    exact remembers
  · rintro sw outLine text ⟨v, line, read, opens⟩ mem
    exact ⟨v, line, read, .jump sw text opens mem⟩
  · intro outLine text comment written
    exact ⟨u, line, read, written⟩

theorem Accounted.readLine {files : List OpenFile} {line : String} {s : Preprocessor}
    (h : Accounted inclusion tree start t s)
    (accepts : Accepts (Quotes inclusion tree start t) (Remembers inclusion tree start t)
      (Traces inclusion tree start t) s (files.map OpenFile.frame) line) :
    Accounted inclusion tree start t (readLine inclusion tree files line s).state := by
  have refused (argument : String) : Accounted inclusion tree start t
      (refuse inclusion tree (files.map OpenFile.frame) argument s) :=
    Justified.refuse h accepts.here inclusion tree accepts.unsourced argument
  unfold Traversal.readLine
  cases includeArgument? line s with
  | none => exact Justified.processLine h accepts refused
  | some argument =>
    cases found : included? inclusion tree (files.map OpenFile.frame) argument with
    | none =>
      simp only [found]
      exact refused argument
    | some source =>
      simp only [found]
      exact Justified.of_same h rfl rfl rfl

theorem Accounted.leaveFile {s : Preprocessor} (h : Accounted inclusion tree start t s)
    (saved : Branches) (outer : List OpenFile) :
    Accounted inclusion tree start t (leaveFile saved outer s).state := by
  cases aborted : s.aborted with
  | true =>
    rw [leaveFile_of_aborted aborted]
    exact Justified.of_same h rfl rfl rfl
  | false =>
    rw [leaveFile_of_running aborted]
    have ended := Justified.endFile h (fun d unsourced => quotes_of_unsourced unsourced) (outer.length + 1)
    exact ended.of_same rfl rfl rfl

theorem Accounted.beginFile {s : Preprocessor} (h : Accounted inclusion tree start t s) (path : String) :
    Accounted inclusion tree start t (beginFile tree path s).state := by
  unfold Traversal.beginFile
  split
  · exact Justified.of_same h rfl rfl rfl
  · dsimp only
    split
    · exact h
    · exact Justified.addDiagnostic h (quotes_of_unsourced rfl)

theorem Advances.accounted (next : Advances inclusion tree t t') (before : Leads inclusion tree start t)
    (faithful : Faithful tree t.files) (h : Accounted inclusion tree start t t.state) :
    Accounted inclusion tree start t' t'.state := by
  have led : Leads inclusion tree t t' := .single next
  have h := h.onward led
  rcases next with step | ⟨path, -, rfl⟩
  · rcases step.cases with ⟨file, outer, -, rfl⟩ | ⟨files, line, reads, rfl⟩
    · exact h.leaveFile file.saved outer
    · have counted : Accounted inclusion tree start _ { t.state with lines := t.state.lines + 1 } :=
        Justified.of_same h rfl rfl rfl
      exact counted.readLine (reads.accepts before led faithful)
  · exact h.beginFile path

theorem Leads.accounted (led : Leads inclusion tree start t) (faithful : Faithful tree start.files)
    (fresh : Accounted inclusion tree start start start.state) :
    Accounted inclusion tree start t t.state := by
  induction led with
  | refl => exact fresh
  | tail before next ih => exact next.accounted before (Leads.faithful before faithful) ih

/-- However files are processed from a fresh state on, whatever point is reached: a diagnostic that
quotes a line was reported when that line was read, at the position that it names; and each record of the
open program was written for the line at its origin, a jump for the `@switch` there. -/
theorem positions_are_of_lines_read (inclusion : Inclusion) (tree : FileTree) (env : Environment)
    (t : Traversal) (led : Leads inclusion tree ⟨[], .start env⟩ t) :
    (∀ d ∈ t.state.log.diagnostics, ∀ source, d.source = some source →
      ∃ u origin, ReadAt inclusion tree ⟨[], .start env⟩ t u origin source ∧
        d.file = some origin.file ∧ d.line = origin.line) ∧
    (∀ o, t.state.current = some o → ∀ r ∈ o.program.body,
      ∃ u line, ReadAt inclusion tree ⟨[], .start env⟩ t u r.origin line ∧
        Written u.state.env u.state.switches line r.text r.comment) ∧
    (t.files = [] → ∀ path, Leads inclusion tree ⟨[], .start env⟩
      ⟨[], processFile inclusion tree path t.state⟩) := by
  have fresh : Accounted inclusion tree ⟨[], .start env⟩ ⟨[], .start env⟩ (.start env) := by
    constructor
    · exact fun d mem => absurd mem List.not_mem_nil
    · exact fun sw mem => absurd mem List.not_mem_nil
    · intro o current
      cases current
  have accounted := led.accounted nofun fresh
  refine ⟨accounted.diagnostics, accounted.records, fun left path => ?_⟩
  obtain ⟨files, s⟩ := t
  cases left
  exact leads_processFile led path

/-- A program with a switch whose case stands in another file, and a line that is reported. -/
def spread : FileTree := ⟨[],
  [(["main.gp"], .file
      "@define P = 7\n@program P\n// on\n@switch #1\n@include in.gp\n@endswitch\n@else".toUTF8),
   (["in.gp"], .file "@case 1\n@delay 2\nG1".toUTF8)]⟩

def spreadPoint : Traversal :=
  after ⟨[], 1⟩ spread 11 (beginFile spread "main.gp" (.start .empty))

def spreadRecords : List (String × Option String × Option String) :=
  [("main.gp:3", none, some "on"),
   ("main.gp:4", some "IF[#1 EQ 1] GOTO@__1_1", none),
   ("main.gp:4", some "GOTO@__1_endswitch", none),
   ("in.gp:1", some "N@__1_1", none),
   ("in.gp:2", some "G04 P2 ;", some "2"),
   ("in.gp:3", some "G1", none),
   ("main.gp:6", some "N@__1_endswitch", none)]

theorem spread_positions :
    (∀ d ∈ spreadPoint.state.log.diagnostics, ∀ source, d.source = some source →
      ∃ u origin, ReadAt ⟨[], 1⟩ spread ⟨[], .start .empty⟩ spreadPoint u origin source ∧
        d.file = some origin.file ∧ d.line = origin.line) ∧
    (spreadPoint.state.log.diagnostics.map fun d => (d.file, d.line, d.source)) =
      [(some "main.gp", 7, some "@else")] ∧
    ∃ o, spreadPoint.state.current = some o ∧
      (o.program.body.map fun r => (r.origin.text, r.text, r.comment)) = spreadRecords ∧
      ∀ r ∈ o.program.body,
        ∃ u line, ReadAt ⟨[], 1⟩ spread ⟨[], .start .empty⟩ spreadPoint u r.origin line ∧
          Written u.state.env u.state.switches line r.text r.comment := by
  have begun : Leads ⟨[], 1⟩ spread ⟨[], .start .empty⟩ (beginFile spread "main.gp" (.start .empty)) :=
    .single (.inr ⟨"main.gp", rfl, rfl⟩)
  have led : Leads ⟨[], 1⟩ spread ⟨[], .start .empty⟩ spreadPoint :=
    begun.trans (runs_after ⟨[], 1⟩ spread 11 _).leads
  obtain ⟨quoted, written, -⟩ := positions_are_of_lines_read ⟨[], 1⟩ spread .empty spreadPoint led
  have point : (spreadPoint.state.log.diagnostics.map fun d => (d.file, d.line, d.source)) =
        [(some "main.gp", 7, some "@else")] ∧
      (spreadPoint.state.current.map fun o =>
        o.program.body.map fun r => (r.origin.text, r.text, r.comment)) = some spreadRecords := by
    decide +kernel
  obtain ⟨o, current, records⟩ := Option.map_eq_some_iff.mp point.2
  exact ⟨quoted, point.1, o, current, records, written o current⟩

end Traversal

end GcodePrep
