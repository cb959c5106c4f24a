import GcodePrep.Proofs.Coherence
import GcodePrep.Proofs.Positions

set_option autoImplicit false

/-!
# Includes as inlining

A file that closes what it opens, and asks for no conditional that it has not opened, can be written in the
place of the line that includes it: up to positions, the state afterwards is the same. The lines are the
same in both runs; what differs is the file they are read in, the conditionals around them and the end
of the file, which finds nothing to close.
-/

namespace GcodePrep

open Preprocessor Skeleton Traversal

/-- A block that is not closed, or a conditional that is asked for and not open. -/
def Problem.isImbalance : Problem → Bool
  | .unterminatedHeader | .unterminatedIf | .unterminatedProgram _ | .unterminatedSwitch
  | .elseWithoutIf | .endifWithoutIf => true
  | _ => false

def Diagnostic.Imbalance (d : Diagnostic) : Prop :=
  ∃ p : Problem, p.isImbalance = true ∧ d.category = p.category ∧ d.message = p.message

def Preprocessor.reportedSince (s s' : Preprocessor) : List Diagnostic :=
  s'.log.diagnostics.drop s.log.diagnostics.length

theorem Preprocessor.reportedSince_eq {s s' : Preprocessor} {ds : List Diagnostic}
    (added : s'.log = s.log.addAll ds) : s.reportedSince s' = ds := by
  rw [reportedSince, added, Log.diagnostics_addAll, List.drop_left]

/-- From `log` to `log'` nothing but such blocks is reported. -/
def Imbalances (log log' : Log) : Prop :=
  ∃ ds, log' = log.addAll ds ∧ ∀ d ∈ ds, d.Imbalance

namespace Imbalances

theorem refl (log : Log) : Imbalances log log := ⟨[], rfl, List.forall_mem_nil _⟩

theorem trans {a b c : Log} (h : Imbalances a b) (h' : Imbalances b c) : Imbalances a c := by
  obtain ⟨ds, added, each⟩ := h
  obtain ⟨es, added', each'⟩ := h'
  refine ⟨ds ++ es, by rw [added', added, Log.addAll_addAll], fun d mem => ?_⟩
  rcases List.mem_append.mp mem with mem | mem
  · exact each d mem
  · exact each' d mem

theorem add (log : Log) {d : Diagnostic} (h : d.Imbalance) : Imbalances log (log.add d) :=
  ⟨[d], rfl, by simpa using h⟩

theorem foldl {α : Type} {f : Preprocessor → α → Preprocessor}
    (h : ∀ s a, Imbalances s.log (f s a).log) (as : List α) (s : Preprocessor) :
    Imbalances s.log (as.foldl f s).log := by
  induction as generalizing s with
  | nil => exact refl s.log
  | cons a as ih => exact (h s a).trans (ih (f s a))

variable (s : Preprocessor) (level : Nat)

theorem reportBranches (branches : Branches) :
    Imbalances s.log (s.reportBranches branches).log := by
  refine foldl (fun s branch => add s.log ⟨.unterminatedIf, rfl, ?_⟩) branches s
  cases branch.elseOrigin <;> exact ⟨rfl, rfl⟩

theorem reportSwitches (switches : Switches) :
    Imbalances s.log (s.reportSwitches switches).log :=
  foldl (fun s _ => add s.log ⟨.unterminatedSwitch, rfl, rfl, rfl⟩) switches s

theorem endHeader : Imbalances s.log (s.endHeader level).log := by
  unfold Preprocessor.endHeader
  split
  · exact refl s.log
  · split
    · exact add s.log ⟨.unterminatedHeader, rfl, rfl, rfl⟩
    · exact refl s.log

theorem endProgram : Imbalances s.log (s.endProgram level).1.log := by
  unfold Preprocessor.endProgram
  split
  · exact refl s.log
  · rename_i opened _
    split
    · have restored : ({ s with current := none, switches := [] }.restoreSaved
          opened.program.saved).log = s.log := by
        cases opened.program.saved <;> rfl
      exact trans ⟨[], restored, List.forall_mem_nil _⟩
        (add _ ⟨.unterminatedProgram opened.program.name, rfl, rfl, rfl⟩)
    · exact refl s.log

theorem endFile (height : Nat) : Imbalances s.log (s.endFile (height + 1)).log := by
  unfold Preprocessor.endFile
  dsimp only
  have closed := (reportBranches { s with branches := [] } s.branches).trans (endHeader _ (height + 1))
  generalize ({ s with branches := [] }.reportBranches s.branches).endHeader (height + 1) = t
    at closed ⊢
  generalize t.switches.splitFromLevel (height + 1) = split
  have ended := endProgram { t with switches := split.2 } (height + 1)
  generalize { t with switches := split.2 }.endProgram (height + 1) = u at ended ⊢
  have reported := reportSwitches u.1 (split.1 ++ u.2)
  rw [(endRejected_closes (u.1.reportSwitches (split.1 ++ u.2)) height).2]
  exact (closed.trans ended).trans reported

end Imbalances

namespace Preprocessor

theorem endFile_of_closed {s : Preprocessor} {height : Nat} (branches : s.branches = [])
    (header : s.header = none) (current : ∀ o ∈ s.current, o.fileLevel ≤ height)
    (switches : ∀ sw ∈ s.switches, sw.fileLevel ≤ height)
    (rejected : ∀ r ∈ s.rejected, r.fileLevel ≤ height) : s.endFile (height + 1) = s := by
  have split : s.switches.splitFromLevel (height + 1) = ([], s.switches) := by
    unfold Switches.splitFromLevel
    cases opened : s.switches with
    | nil => rfl
    | cons sw rest =>
      have low := switches sw (by simp [opened])
      have shallow : ¬ height + 1 ≤ sw.fileLevel := by omega
      rw [List.takeWhile_cons, List.dropWhile_cons, decide_eq_false shallow]
      rfl
  have program : s.endProgram (height + 1) = (s, []) := by
    unfold endProgram
    split
    · rfl
    · rename_i opened at_
      have := current opened at_
      rw [if_neg (by omega)]
  have refused : s.endRejected (height + 1) = s := by
    unfold endRejected
    split
    · rfl
    · rename_i r at_
      have := rejected r at_
      rw [if_neg (by omega)]
  have headed : s.endHeader (height + 1) = s := by simp [endHeader, header]
  have branched : { s with branches := [] }.reportBranches s.branches = s := by
    rw [branches]
    exact congrArg (fun branches => { s with branches }) branches.symm
  unfold endFile
  dsimp only
  rw [branched, headed, split]
  change ((s.endProgram (height + 1)).1.reportSwitches
    ([] ++ (s.endProgram (height + 1)).2)).endRejected (height + 1) = s
  rw [program]
  exact refused

theorem endFile_of_balanced {s : Preprocessor} {height : Nat}
    (nested : Nested (height + 1) s.skeleton)
    (balanced : ∀ d ∈ s.reportedSince (s.endFile (height + 1)), ¬ d.Imbalance)
    (rejected : ∀ r ∈ s.rejected, r.fileLevel ≤ height) :
    s.branches = [] ∧ s.endFile (height + 1) = s := by
  obtain ⟨ds, added, reported⟩ := (endFile_closes nested).2
  obtain ⟨es, added', imbalanced⟩ := Imbalances.endFile s height
  have same : ds = es := (reportedSince_eq added).symm.trans (reportedSince_eq added')
  have nothing : es = [] := by
    rw [reportedSince_eq added'] at balanced
    exact List.eq_nil_iff_forall_not_mem.mpr fun d mem => balanced d mem (imbalanced d mem)
  rw [same, nothing, List.forall₂_nil_right_iff] at reported
  have low : ∀ x ∈ s.skeleton.openings (height + 1), x.site.level ≤ height := by
    intro x mem
    have level := nested.level_le x mem
    have other : ¬ x.site.level = height + 1 := by
      simpa using (List.filter_eq_nil_iff.mp reported) x mem
    omega
  have branches : s.branches = [] := by
    refine List.eq_nil_iff_forall_not_mem.mpr fun branch mem => ?_
    have opened : ⟨.if_, branch.origin, height + 1⟩ ∈ s.skeleton.openings (height + 1) :=
      List.mem_append_left _ (mem_conditionalsAt.mpr ⟨_, List.mem_map_of_mem mem, rfl⟩)
    exact absurd (low _ opened) (Nat.not_succ_le_self height)
  have inBlocks {x : Opening} (mem : x ∈ s.skeleton.blocks) : x.site.level ≤ height :=
    low x (List.mem_append_right _ mem)
  have header : s.header = none := by
    refine Option.eq_none_iff_forall_not_mem.mpr fun h mem => ?_
    have outer : h.site.level ≤ height :=
      inBlocks (mem_blocks.mpr (.inl ⟨_, site_mem_header mem, rfl⟩))
    have inner := (nested.header _ (site_mem_header mem)).2
    omega
  refine ⟨branches, endFile_of_closed branches header (fun o mem => ?_) (fun sw mem => ?_) rejected⟩
  · exact inBlocks (mem_blocks.mpr (.inr (.inl ⟨_, site_mem_accepted mem, rfl⟩)))
  · exact inBlocks (mem_blocks.mpr (.inr (.inr ⟨_, site_mem_switches mem, rfl⟩)))

section Lines

variable {includer : Includer} {s : Preprocessor}

variable (includer) in
theorem effect_processLine_of_simple {text : String}
    (simple : ∀ argument, Line.ofString text ≠ .directive .include_ argument) (place : Place)
    (exclusive : s.Exclusive) : Effect s (processLine includer place text s) := by
  have unheard : includeArgument? text s = none := by
    unfold includeArgument?
    split
    · rename_i argument reads
      exact absurd reads (simple argument)
    · rfl
  rw [processLine_of_not_include unheard includer fun _ _ s => s]
  exact effect_processLine (fun _ _ s => s) exclusive place (fun _ => .steady (.refl s)) text

variable (includer) in
theorem log_processLines (source : Source) (outer : Place) (n : Nat) (lines : List String)
    (simple : ∀ line ∈ lines, ∀ argument, Line.ofString line ≠ .directive .include_ argument)
    (exclusive : s.Exclusive) :
    ∃ ds, (processLines includer source outer n lines s).log = s.log.addAll ds := by
  induction lines generalizing n s with
  | nil => exact ⟨[], rfl⟩
  | cons line rest ih =>
    cases aborted : s.aborted with
    | true =>
      rw [processLines_of_aborted aborted]
      exact ⟨[], rfl⟩
    | false =>
      rw [processLines_cons aborted]
      have simple := List.forall_mem_cons.mp simple
      have effect := effect_processLine_of_simple includer simple.1
        (⟨source.name, source.directory, n, line⟩ :: outer)
        (s := { s with lines := s.lines + 1 }) exclusive
      obtain ⟨ds, added⟩ := effect.frame.log
      obtain ⟨es, added'⟩ := ih (n + 1) simple.2 (effect.exclusive exclusive)
      exact ⟨ds ++ es, by rw [added', added, Log.addAll_addAll]⟩

theorem forget_processLine {around : Branches} (active : around.isActive = true) {text : String}
    (simple : ∀ argument, Line.ofString text ≠ .directive .include_ argument) {a b : Preprocessor}
    (same : a.forgetIn around = b.forget) (includer includer' : Includer)
    {frame frame' : SourceFrame} (shown : frame.text = frame'.text) (outer outer' : Place)
    (own : ∀ p, p = .elseWithoutIf ∨ p = .endifWithoutIf →
      processLine includer (frame :: outer) text a ≠ a.report (frame :: outer) p) :
    (processLine includer (frame :: outer) text a).forgetIn around =
      (processLine includer' (frame' :: outer') text b).forget := by
  have flat (s : Preprocessor) : s.forgetIn [] = s.forget := by rw [forgetIn, List.append_nil]
  have here : frame.forget = frame'.forget := by rw [SourceFrame.forget, SourceFrame.forget, shown]
  have inner := forgetIn_processLine a frame outer active simple includer includer' (.inr own)
  have outer : (processLine includer' (frame' :: outer') text b).forgetIn [] =
      processLine includer' [frame'.forget] text (b.forgetIn []) :=
    forgetIn_processLine b frame' outer' rfl simple includer' includer' (.inl rfl)
  rw [flat, flat] at outer
  rw [inner, outer, same, here]

theorem forget_processLines {around : Branches} (active : around.isActive = true)
    {lines : List String}
    (simple : ∀ line ∈ lines, ∀ argument, Line.ofString line ≠ .directive .include_ argument)
    {a b : Preprocessor} (exclusive : a.Exclusive) (same : a.forgetIn around = b.forget)
    (includer includer' : Includer) (source source' : Source) (outer outer' : Place) (n n' : Nat)
    (balanced : ∀ d ∈ a.reportedSince (processLines includer source outer n lines a), ¬ d.Imbalance) :
    (processLines includer source outer n lines a).forgetIn around =
      (processLines includer' source' outer' n' lines b).forget := by
  induction lines generalizing n n' a b with
  | nil => exact same
  | cons line rest ih =>
    have together : (a.forgetIn around).aborted = b.forget.aborted := congrArg _ same
    change a.aborted = b.aborted at together
    cases aborted : a.aborted with
    | true => rw [processLines_of_aborted aborted, processLines_of_aborted (together ▸ aborted), same]
    | false =>
      rw [processLines_cons aborted] at balanced ⊢
      rw [processLines_cons (together ▸ aborted)]
      have simple := List.forall_mem_cons.mp simple
      have effect := effect_processLine_of_simple includer simple.1
        (⟨source.name, source.directory, n, line⟩ :: outer)
        (s := { a with lines := a.lines + 1 }) exclusive
      obtain ⟨ds, added⟩ := effect.frame.log
      obtain ⟨es, added'⟩ := log_processLines includer source outer (n + 1) rest simple.2
        (effect.exclusive exclusive)
      have whole := added'
      rw [added, Log.addAll_addAll] at whole
      rw [reportedSince_eq (s := a) whole] at balanced
      refine ih simple.2 (effect.exclusive exclusive) ?_ (n + 1) (n' + 1) ?_
      · have counted : { a with lines := a.lines + 1 }.forgetIn around =
            { b with lines := b.lines + 1 }.forget := same
        -- A stray `@else` or `@endif` would be among the diagnostics of the line.
        refine forget_processLine active simple.1 counted includer includer' (by rfl) outer outer' ?_
        intro p stray reported
        have only : ds = [diagnosticAt (⟨source.name, source.directory, n, line⟩ :: outer) p] := by
          rw [reported] at added
          exact (reportedSince_eq added).symm.trans (reportedSince_eq rfl)
        refine balanced _ (List.mem_append_left _ (only ▸ List.mem_singleton_self _)) ⟨p, ?_, rfl, rfl⟩
        rcases stray with rfl | rfl <;> rfl
      · rw [reportedSince_eq added']
        exact fun d mem => balanced d (List.mem_append_right _ mem)

end Lines

theorem active_of_includeArgument? {text argument : String} {s : Preprocessor}
    (h : includeArgument? text s = some argument) : s.branches.isActive = true := by
  unfold includeArgument? at h
  split at h
  · split at h
    · rename_i heard
      simp only [Bool.and_eq_true] at heard
      exact heard.1
    · cases h
  · cases h

end Preprocessor

namespace Traversal

variable (inclusion : Inclusion) (tree : FileTree)

/-- The state after the last line of a file that is included by the line being read, before the file
ends. -/
def lastLine (files : List OpenFile) (source : Source) (s : Preprocessor) : Preprocessor :=
  processLines (includerIn inclusion tree (inclusion.maxDepth - files.length)) source
    (files.map OpenFile.frame) 1 (Text.sourceLines source.text)
    { s with branches := [], lines := s.lines + 1 }

def afterInclude (files : List OpenFile) (source : Source) (s : Preprocessor) : Preprocessor :=
  enter inclusion tree (inclusion.maxDepth - files.length) source (files.map OpenFile.frame)
    { s with lines := s.lines + 1 }

def inline (t : Traversal) (lines : List String) : Traversal :=
  match t.files with
  | [] => t
  | file :: outer => ⟨{ file with rest := lines ++ file.rest.tail } :: outer, t.state⟩

variable {inclusion tree}

theorem runs_afterInclude {t : Traversal} {files : List OpenFile} {line argument : String}
    {source : Source} (reads : t.Reads files line)
    (heard : includeArgument? line t.state = some argument)
    (found : included? inclusion tree (files.map OpenFile.frame) argument = some source) :
    Runs inclusion tree t ⟨files, afterInclude inclusion tree files source t.state⟩ := by
  have shallow := level_of_included? found
  rw [Place.level, List.length_map] at shallow
  have step : Step inclusion tree t
      (readLine inclusion tree files line { t.state with lines := t.state.lines + 1 }) :=
    step_of_reads reads
  have heard' : includeArgument? line { t.state with lines := t.state.lines + 1 } = some argument := heard
  simp only [readLine, heard', found] at step
  exact .head step (runs_enter inclusion tree _ source files _ (by omega))

variable (inclusion tree) in
theorem afterInclude_eq (files : List OpenFile) (source : Source) (s : Preprocessor) :
    afterInclude inclusion tree files source s =
      { (if (lastLine inclusion tree files source s).aborted then lastLine inclusion tree files source s
          else (lastLine inclusion tree files source s).endFile (files.length + 1)) with
        branches := s.branches } := by
  rw [afterInclude, enter_eq_processText, processText, Place.level, List.length_map]
  rfl

/-- A file that closes what it opens leaves the state as its last line does, up to the conditionals, which
are those around the include again. -/
theorem afterInclude_eq_lastLine {files : List OpenFile} {source : Source} {s : Preprocessor}
    (nested : Nested files.length s.skeleton) (unheaded : s.header = none) (exclusive : s.Exclusive)
    (simple : ∀ line ∈ Text.sourceLines source.text, ∀ argument,
      Line.ofString line ≠ .directive .include_ argument)
    (running : (afterInclude inclusion tree files source s).aborted = false)
    (balanced : ∀ d ∈ s.reportedSince (afterInclude inclusion tree files source s), ¬ d.Imbalance)
    (refused : ∀ r ∈ (lastLine inclusion tree files source s).rejected, r.fileLevel ≤ files.length) :
    (∀ d ∈ s.reportedSince (lastLine inclusion tree files source s), ¬ d.Imbalance) ∧
      afterInclude inclusion tree files source s =
        { lastLine inclusion tree files source s with
          branches := (lastLine inclusion tree files source s).branches ++ s.branches } := by
  have tidy (frame : SourceFrame) := tidy_includerIn inclusion tree (inclusion.maxDepth - files.length)
    (frame :: files.map OpenFile.frame)
  have nested' : Nested (Place.level (files.map OpenFile.frame) + 1)
      { s with branches := [], lines := s.lines + 1 }.skeleton := by
    rw [Place.level, List.length_map]
    exact (nested.enter (by simp [skeleton, unheaded])).withConditionals []
  have inside := nested_processLines tidy source 1 (Text.sourceLines source.text) nested'
  have eq := afterInclude_eq inclusion tree files source s
  obtain ⟨ds, added⟩ : ∃ ds, (lastLine inclusion tree files source s).log = s.log.addAll ds :=
    log_processLines _ source _ 1 _ simple (s := { s with branches := [], lines := s.lines + 1 })
      exclusive
  change (lastLine inclusion tree files source s).aborted = false → Nested _
    (lastLine inclusion tree files source s).skeleton ∧ _ at inside
  generalize lastLine inclusion tree files source s = last at *
  cases aborted : last.aborted with
  | true =>
    rw [eq, if_pos aborted] at running
    cases aborted.symm.trans running
  | false =>
    rw [if_neg (by simp [aborted])] at eq
    have nested'' := (inside aborted).1
    rw [Place.level, List.length_map] at nested''
    obtain ⟨es, added', -⟩ := Imbalances.endFile last files.length
    have whole : (afterInclude inclusion tree files source s).log = s.log.addAll (ds ++ es) := by
      rw [eq, ← Log.addAll_addAll, ← added]
      exact added'
    rw [reportedSince_eq whole] at balanced
    have own : ∀ d ∈ last.reportedSince (last.endFile (files.length + 1)), ¬ d.Imbalance := by
      rw [reportedSince_eq added']
      exact fun d mem => balanced d (List.mem_append_right _ mem)
    obtain ⟨branches, closed⟩ := endFile_of_balanced nested'' own refused
    constructor
    · rw [reportedSince_eq added]
      exact fun d mem => balanced d (List.mem_append_left _ mem)
    · rw [eq, closed, branches]
      rfl

variable (inclusion tree) in
theorem runs_inline {t : Traversal} {files : List OpenFile} {line : String} (reads : t.Reads files line)
    (lines : List String) :
    ∃ includer source outer n files',
      Runs inclusion tree (t.inline lines) ⟨files', processLines includer source outer n lines t.state⟩ ∧
        files'.tail = files.tail ∧
        ((processLines includer source outer n lines t.state).aborted = false →
          files'.map OpenFile.rest = files.map OpenFile.rest) := by
  obtain ⟨-, file, outer, rest, before, left, rfl⟩ := reads
  obtain ⟨includer, follows⟩ := exists_follows inclusion tree outer
  obtain ⟨host, run, -, ended⟩ := runs_processLines inclusion tree
    ⟨file.frame.name, file.frame.directory, ""⟩ file.saved follows lines rest file.frame.line
    file.frame.text t.state
  have start : t.inline lines = ⟨{ file with rest := lines ++ rest } :: outer, t.state⟩ := by
    simp only [inline, before, left, List.tail_cons]
  refine ⟨includer, _, _, _, host :: outer, start ▸ run, rfl, fun running => ?_⟩
  have left : host.rest = rest := ended.resolve_right (by simp [running])
  simp [left, OpenFile.advance]

/-- Up to positions, including a file does what its lines do in the place of the line that includes it: a
file without includes that runs to its end, closes the blocks it opens and asks for no conditional that it
has not opened. -/
theorem include_inlines {env : Environment} {t : Traversal} {files : List OpenFile}
    {line argument : String} {source : Source} (reached : Reached inclusion tree env t)
    (reads : t.Reads files line) (heard : includeArgument? line t.state = some argument)
    (found : included? inclusion tree (files.map OpenFile.frame) argument = some source)
    (simple : ∀ line ∈ Text.sourceLines source.text, ∀ argument,
      Line.ofString line ≠ .directive .include_ argument)
    (running : (afterInclude inclusion tree files source t.state).aborted = false)
    (balanced : ∀ d ∈ t.state.reportedSince (afterInclude inclusion tree files source t.state),
      ¬ d.Imbalance)
    (refused : ∀ r ∈ (lastLine inclusion tree files source t.state).rejected,
      r.fileLevel ≤ files.length) :
    Runs inclusion tree t ⟨files, afterInclude inclusion tree files source t.state⟩ ∧
      ∃ files' w, Runs inclusion tree (t.inline (Text.sourceLines source.text)) ⟨files', w⟩ ∧
        files'.map OpenFile.rest = files.map OpenFile.rest ∧ files'.tail = files.tail ∧
        (afterInclude inclusion tree files source t.state).forget = w.forget := by
  refine ⟨runs_afterInclude reads heard found, ?_⟩
  have nested := reached.sound reads.1
  rw [← reads.length.2] at nested
  obtain ⟨balanced', eq⟩ := afterInclude_eq_lastLine nested (header_of_includeArgument? heard)
    reached.exclusive simple running balanced refused
  obtain ⟨includer, host, outer, n, files', run, outside, left⟩ :=
    runs_inline inclusion tree reads (Text.sourceLines source.text)
  have same : (afterInclude inclusion tree files source t.state).forget =
      (processLines includer host outer n (Text.sourceLines source.text) t.state).forget := by
    rw [eq]
    exact forget_processLines (active_of_includeArgument? heard) simple
      (a := { t.state with branches := [], lines := t.state.lines + 1 }) (b := t.state)
      reached.exclusive rfl _ includer source host _ outer 1 n balanced'
  have together : (afterInclude inclusion tree files source t.state).forget.aborted =
      (processLines includer host outer n (Text.sourceLines source.text) t.state).forget.aborted :=
    congrArg _ same
  exact ⟨files', _, run, left (together.symm.trans running), outside, same⟩

/-- A file that ends the switch and the program of the file around it, with a conditional of its own. -/
def remainder : Source :=
  ⟨"in.gp", some "", "G1\n@endswitch\n@if 0\n@else\n@eval A\n@endif\n@endprogram"⟩

def divided : FileTree := ⟨[], [(["in.gp"], .file remainder.text.toUTF8)]⟩

def dividedPoint : Traversal :=
  after ⟨[], 1⟩ divided 3
    (enterFile ⟨"main.gp", none, "@if 1\n@program P\n@switch X\n@include in.gp\n@endif"⟩ []
      (.start (Environment.empty.set "P" (.int 7))))

def dividedFiles : List OpenFile := dividedPoint.files.map (·.advance "@include in.gp" ["@endif"])

/-- The included file completes the program; one of its lines is reported. -/
theorem remainder_inlined :
    (afterInclude ⟨[], 1⟩ divided dividedFiles remainder dividedPoint.state).programs.programs.map
        Program.name = ["P"] ∧
      ∃ files' w,
        Runs ⟨[], 1⟩ divided (dividedPoint.inline (Text.sourceLines remainder.text)) ⟨files', w⟩ ∧
          (afterInclude ⟨[], 1⟩ divided dividedFiles remainder dividedPoint.state).forget =
            w.forget := by
  have reached : Reached ⟨[], 1⟩ divided (Environment.empty.set "P" (.int 7)) dividedPoint :=
    (Reached.enter _ .fresh).runs (runs_after ⟨[], 1⟩ divided 3 _)
  have point : dividedPoint.files.map OpenFile.rest = [["@include in.gp", "@endif"]] ∧
      dividedPoint.state.aborted = false ∧
      includeArgument? "@include in.gp" dividedPoint.state = some "in.gp" ∧
      included? ⟨[], 1⟩ divided (dividedFiles.map OpenFile.frame) "in.gp" = some remainder := by
    decide +kernel
  obtain ⟨left, running, heard, found⟩ := point
  have simple : ∀ line ∈ Text.sourceLines remainder.text, ∀ argument,
      Line.ofString line ≠ .directive .include_ argument := by
    have read : (Text.sourceLines remainder.text).map Line.ofString =
        [.text, .directive .endswitch "", .directive .if_ "0", .directive .else_ "",
          .directive .eval "A", .directive .endif "", .directive .endprogram ""] := by
      decide +kernel
    intro line mem argument
    have read_line := List.mem_map_of_mem (f := Line.ofString) mem
    rw [read] at read_line
    rintro eq
    simp [eq] at read_line
  have ended : (afterInclude ⟨[], 1⟩ divided dividedFiles remainder dividedPoint.state).aborted = false ∧
      (afterInclude ⟨[], 1⟩ divided dividedFiles remainder dividedPoint.state).programs.programs.map
        Program.name = ["P"] ∧
      (dividedPoint.state.reportedSince
        (afterInclude ⟨[], 1⟩ divided dividedFiles remainder dividedPoint.state)).map
          Diagnostic.category = [.expression] ∧
      (lastLine ⟨[], 1⟩ divided dividedFiles remainder dividedPoint.state).rejected.isNone = true := by
    decide +kernel
  obtain ⟨finished, names, reported, accepted⟩ := ended
  have balanced : ∀ d ∈ dividedPoint.state.reportedSince
      (afterInclude ⟨[], 1⟩ divided dividedFiles remainder dividedPoint.state), ¬ d.Imbalance := by
    rintro d mem ⟨p, imbalance, category, -⟩
    have expression := List.mem_map_of_mem (f := Diagnostic.category) mem
    rw [reported, List.mem_singleton] at expression
    rw [expression] at category
    cases p <;> cases category <;> cases imbalance
  have refused : ∀ r ∈ (lastLine ⟨[], 1⟩ divided dividedFiles remainder dividedPoint.state).rejected,
      r.fileLevel ≤ dividedFiles.length := by
    rw [Option.isNone_iff_eq_none.mp accepted]
    nofun
  have reads : dividedPoint.Reads dividedFiles "@include in.gp" := by
    obtain ⟨file, outer, files⟩ : ∃ file outer, dividedPoint.files = file :: outer :=
      List.exists_cons_of_ne_nil fun none_open => by simp [none_open] at left
    simp only [files, List.map_cons, List.cons.injEq, List.map_eq_nil_iff] at left
    refine ⟨running, file, outer, ["@endif"], files, left.1, ?_⟩
    rw [dividedFiles, files, left.2]
    rfl
  obtain ⟨-, files', w, run, -, -, same⟩ :=
    include_inlines reached reads heard found simple finished balanced refused
  exact ⟨names, files', w, run, same⟩

end Traversal

end GcodePrep
