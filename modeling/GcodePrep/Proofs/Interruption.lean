import GcodePrep.Proofs.FileEdits
import GcodePrep.Proofs.IncludeDepth
import GcodePrep.Proofs.OutputGate

set_option autoImplicit false

/-!
# What comes after `@error` does not matter

An `@error` ends the run at once, at every level of inclusion. So the lines after it in its file are
never looked at, nor those after the `@include` lines that have led there, unless one of these files has
been read before. Two trees of files that differ in such lines only are told apart by no step.
-/

namespace GcodePrep

open Preprocessor FileTree

/-- The line that was read last. -/
def OpenFile.mark (file : OpenFile) : Origin := ⟨file.frame.name, file.frame.line⟩

def FileTree.sameFile (tree : FileTree) (path other : String) : Bool :=
  decide (tree.fileAt? path = tree.fileAt? other)

namespace Traversal

def entered (t t' : Traversal) : List String :=
  (t'.files.take (t'.files.length - t.files.length)).map fun file => file.frame.name

inductive Loads (inclusion : Inclusion) (tree : FileTree) :
    Traversal → List String → Traversal → Prop where
  | done (t : Traversal) : Loads inclusion tree t [] t
  | step {t u v : Traversal} {paths : List String} (first : Step inclusion tree t u)
      (more : Loads inclusion tree u paths v) : Loads inclusion tree t (entered t u ++ paths) v

variable {inclusion : Inclusion} {tree tree' : FileTree} {paths : List String} {t u v : Traversal}
  {files : List OpenFile} {line : String}

theorem Loads.runs (h : Loads inclusion tree t paths u) : Runs inclusion tree t u := by
  induction h with
  | done => exact .refl
  | step first _ ih => exact .head first ih

/-- How many of the files that are open, or are going to be, have a name in `p`. -/
def tally (p : String → Bool) (t : Traversal) (paths : List String) : Nat :=
  t.files.countP (fun file => p file.frame.name) + paths.countP p

theorem Step.tally_cases (h : Step inclusion tree t u) (p : String → Bool) (paths : List String) :
    ∃ file outer, t.files = file :: outer ∧ (∀ other ∈ outer, other ∈ u.files) ∧
      (u.tally p paths + (if p file.frame.name then 1 else 0) = t.tally p (entered t u ++ paths) ∨
        u.tally p paths = t.tally p (entered t u ++ paths) ∧
          ∃ line rest, file.advance line rest ∈ u.files) := by
  obtain ⟨file, outer, before, after⟩ := h.files_cases
  refine ⟨file, outer, before, ?_⟩
  rcases after with after | ⟨line, rest, -, after | ⟨-, source, saved, after⟩⟩
  · refine ⟨fun other mem => after ▸ mem, .inl ?_⟩
    have none_entered : entered t u = [] := by
      simp [entered, before, after]
    simp only [tally, none_entered, before, after, List.countP_cons, List.nil_append]
    omega
  · refine ⟨fun other mem => after ▸ List.mem_cons_of_mem _ mem, .inr ⟨?_, line, rest, ?_⟩⟩
    · have none_entered : entered t u = [] := by
        simp [entered, before, after]
      simp only [tally, none_entered, before, after, List.countP_cons, List.nil_append]
      rfl
    · exact after ▸ List.mem_cons_self
  · refine ⟨fun other mem => ?_, .inr ⟨?_, line, rest, ?_⟩⟩
    · exact after ▸ List.mem_cons_of_mem _ (List.mem_cons_of_mem _ mem)
    · have one_entered : entered t u = [source.name] := by
        simp [entered, before, after, OpenFile.ofSource]
      simp only [tally, one_entered, before, after, List.countP_cons, List.countP_append,
        List.countP_nil, OpenFile.ofSource, OpenFile.advance]
      omega
    · exact after ▸ List.mem_cons_of_mem _ List.mem_cons_self

theorem Step.tally_le (h : Step inclusion tree t u) (p : String → Bool) (paths : List String) :
    u.tally p paths ≤ t.tally p (entered t u ++ paths) := by
  obtain ⟨file, outer, -, -, counted | ⟨counted, -⟩⟩ := h.tally_cases p paths
  all_goals omega

theorem Loads.countP_le (h : Loads inclusion tree t paths u) (p : String → Bool) :
    u.files.countP (fun file => p file.frame.name) ≤ t.tally p paths := by
  induction h with
  | done => exact Nat.le_add_right _ _
  | @step _ _ _ paths first _ ih => exact Nat.le_trans ih (first.tally_le p paths)

theorem eq_of_countP_le_one {α : Type} {p : α → Bool} {xs : List α} (single : xs.countP p ≤ 1)
    {x y : α} (hx : x ∈ xs) (hy : y ∈ xs) (px : p x = true) (py : p y = true) : x = y := by
  rw [List.countP_eq_length_filter] at single
  have hx : x ∈ xs.filter p := List.mem_filter.mpr ⟨hx, px⟩
  have hy : y ∈ xs.filter p := List.mem_filter.mpr ⟨hy, py⟩
  match found : xs.filter p with
  | [] => simp [found] at hx
  | [z] =>
    rw [found, List.mem_singleton] at hx hy
    exact hx.trans hy.symm
  | _ :: _ :: _ => simp [found] at single

theorem Reads.line_le (reads : t.Reads files line) {p : String → Bool}
    (single : t.files.countP (fun file => p file.frame.name) ≤ 1) {f g : OpenFile} (hf : f ∈ t.files)
    (hg : g ∈ files) (pf : p f.frame.name = true) (pg : p g.frame.name = true) :
    f.frame.line ≤ g.frame.line ∧ (t.files.head? = some f → f.frame.line < g.frame.line) := by
  obtain ⟨-, file, outer, rest, before, -, rfl⟩ := reads
  rw [before, List.countP_cons] at single
  have positive (other : OpenFile) (mem : other ∈ outer) (named : p other.frame.name = true) :
      0 < outer.countP (fun file => p file.frame.name) :=
    List.countP_pos_iff.mpr ⟨other, mem, named⟩
  rw [before] at hf ⊢
  rcases List.mem_cons.mp hf with rfl | hf
  · rcases List.mem_cons.mp hg with rfl | hg
    · exact ⟨Nat.le_succ _, fun _ => Nat.lt_succ_self _⟩
    · have := positive g hg pg
      rw [if_pos pf] at single
      omega
  · have := positive f hf pf
    have elsewhere : ¬ p file.frame.name = true := by
      intro named
      rw [if_pos named] at single
      omega
    rw [if_neg elsewhere] at single
    rcases List.mem_cons.mp hg with rfl | hg
    · exact absurd pg elsewhere
    · obtain rfl := eq_of_countP_le_one single hf hg pf pg
      refine ⟨Nat.le_refl _, fun innermost => ?_⟩
      cases innermost
      exact absurd pf elsewhere

/-- A file that is open at the end and was opened only once is nowhere on the way read further than at
the end. -/
theorem Loads.line_le (loads : Loads inclusion tree u paths t) (reads : t.Reads files line)
    {p : String → Bool} (once : u.tally p paths ≤ 1) {f g : OpenFile} (hf : f ∈ u.files) (hg : g ∈ files)
    (pf : p f.frame.name = true) (pg : p g.frame.name = true) :
    f.frame.line ≤ g.frame.line ∧ (u.files.head? = some f → f.frame.line < g.frame.line) := by
  induction loads generalizing f with
  | done => exact reads.line_le once hf hg pf pg
  | @step u v t paths first more ih =>
    have open_at_end : 0 < t.files.countP (fun file => p file.frame.name) := by
      obtain ⟨-, file, outer, rest, before, -, rfl⟩ := reads
      rw [before, List.countP_pos_iff]
      rcases List.mem_cons.mp hg with rfl | hg
      · exact ⟨file, List.mem_cons_self, pg⟩
      · exact ⟨g, List.mem_cons_of_mem _ hg, pg⟩
    have bounded := more.countP_le p
    obtain ⟨file, outer, before, kept, counted⟩ := first.tally_cases p paths
    have once' : v.tally p paths ≤ 1 := Nat.le_trans (first.tally_le p paths) once
    -- Left, the innermost file would count no more, and none of its name could be open at the end.
    have stays (named : p file.frame.name = true) : file.frame.line < g.frame.line := by
      rcases counted with counted | ⟨-, line, rest, advanced⟩
      · rw [if_pos named] at counted
        omega
      · exact (ih reads once' advanced named).1
    rw [before] at hf ⊢
    rcases List.mem_cons.mp hf with rfl | hf
    · have later := stays pf
      exact ⟨Nat.le_of_lt later, fun _ => later⟩
    · refine ⟨(ih reads once' (kept f hf) pf).1, fun innermost => ?_⟩
      cases innermost
      exact stays pf

/-- Where each file on the way to a line is read once, the line that is read next lies before all of
their marks. -/
theorem Loads.unmarked (loads : Loads inclusion tree u paths t) (reads : t.Reads files line)
    (once : ∀ file ∈ files, u.tally (tree.sameFile file.frame.name) paths ≤ 1) :
    ∀ file ∈ u.files.head?, Unmarked (files.map OpenFile.mark) tree file.frame.name file.frame.line := by
  intro file innermost mark mem same
  obtain ⟨g, hg, rfl⟩ := List.mem_map.mp mem
  have named : tree.sameFile g.frame.name file.frame.name = true := decide_eq_true same
  have self : tree.sameFile g.frame.name g.frame.name = true := decide_eq_true rfl
  exact (loads.line_le reads (once g hg) (List.mem_of_mem_head? innermost) hg named self).2 innermost

/-- The same file in two trees, read up to the same line; up to the marks the same lines are left. -/
structure Twin (marks : List Origin) (tree : FileTree) (file file' : OpenFile) : Prop where
  frame : file'.frame = file.frame
  saved : file'.saved = file.saved
  rest : ∀ n, Unmarked marks tree file.frame.name (file.frame.line + n) → file'.rest[n]? = file.rest[n]?

structure Parallel (marks : List Origin) (tree : FileTree) (t t' : Traversal) : Prop where
  state : t'.state = t.state
  files : List.Forall₂ (Twin marks tree) t.files t'.files

variable {marks : List Origin}

theorem Twin.advance {file file' : OpenFile} (twin : Twin marks tree file file') {line : String}
    {rest rest' : List String} (left : file.rest = line :: rest) (left' : file'.rest = line :: rest') :
    Twin marks tree (file.advance line rest) (file'.advance line rest') where
  frame := by simp only [OpenFile.advance, twin.frame]
  saved := twin.saved
  rest n unmarked := by
    have unmarked : Unmarked marks tree file.frame.name (file.frame.line + (n + 1)) := by
      rw [← Nat.add_assoc, Nat.add_right_comm]
      exact unmarked
    have same := twin.rest (n + 1) unmarked
    rw [left, left', List.getElem?_cons_succ, List.getElem?_cons_succ] at same
    exact same

theorem map_frame_eq {files files' : List OpenFile} (twins : List.Forall₂ (Twin marks tree) files files') :
    files'.map OpenFile.frame = files.map OpenFile.frame := by
  induction twins with
  | nil => rfl
  | cons twin _ ih => rw [List.map_cons, List.map_cons, twin.frame, ih]

section Edited

variable (edited : EditedAfter marks tree tree')

include edited

theorem included?_edited (inclusion : Inclusion) (place : Place) (argument : String) :
    (included? inclusion tree place argument = none ∧ included? inclusion tree' place argument = none ∧
      ∀ s, refuse inclusion tree' place argument s = refuse inclusion tree place argument s) ∨
    ∃ source text', included? inclusion tree place argument = some source ∧
      included? inclusion tree' place argument = some { source with text := text' } ∧
      ∀ n, Unmarked marks tree source.name n →
        (Text.sourceLines text')[n]? = (Text.sourceLines source.text)[n]? := by
  have resolved (path : String) :
      resolvePath inclusion tree' place path = resolvePath inclusion tree place path := by
    unfold resolvePath
    rw [funext edited.sameShape.isFile]
  unfold included? refuse includeFile readFile
  dsimp only
  rw [resolved]
  generalize resolvePath inclusion tree place (includePath argument) = path
  by_cases barred : ((includePath argument).isEmpty ||
      decide (inclusion.maxDepth < place.level)) = true
  · refine .inl ⟨if_pos barred, if_pos barred, fun s => ?_⟩
    cases given : (includePath argument).isEmpty with
    | true => rfl
    | false =>
      have deep : inclusion.maxDepth < place.level := by simpa [given] using barred
      simp only [deep, if_true]
  · rw [if_neg barred, if_neg barred]
    rcases edited.read path with same | ⟨text, text', read, read', lines⟩
    · rw [same]
      cases read : tree.read path with
      | error fault => exact .inl ⟨rfl, rfl, fun s => rfl⟩
      | ok text => exact .inr ⟨_, text, rfl, rfl, fun _ _ => rfl⟩
    · rw [read, read']
      exact .inr ⟨_, text', rfl, rfl, lines⟩

omit edited in
theorem Parallel.enterFile (source : Source) {text' : String}
    (lines : ∀ n, Unmarked marks tree source.name n →
      (Text.sourceLines text')[n]? = (Text.sourceLines source.text)[n]?)
    {files files' : List OpenFile} (twins : List.Forall₂ (Twin marks tree) files files')
    (s : Preprocessor) :
    Parallel marks tree (enterFile source files s) (enterFile { source with text := text' } files' s) := by
  refine ⟨rfl, .cons ⟨rfl, rfl, fun n unmarked => lines n ?_⟩ twins⟩
  rw [← Nat.zero_add n]
  exact unmarked

theorem Parallel.readLine {files files' : List OpenFile}
    (twins : List.Forall₂ (Twin marks tree) files files') (line : String) (s : Preprocessor) :
    Parallel marks tree (readLine inclusion tree files line s)
      (readLine inclusion tree' files' line s) := by
  unfold Traversal.readLine
  rw [map_frame_eq twins]
  cases heard : includeArgument? line s with
  | none =>
    refine ⟨?_, twins⟩
    dsimp only
    rw [processLine_of_not_include heard (refuse inclusion tree') (refuse inclusion tree)]
  | some argument =>
    rcases included?_edited edited inclusion (files.map OpenFile.frame) argument with
      ⟨unfound, unfound', refused⟩ | ⟨source, text', found, found', lines⟩
    · simp only [unfound, unfound', refused]
      exact ⟨rfl, twins⟩
    · simp only [found, found']
      exact .enterFile source lines twins s

theorem Parallel.step {t' : Traversal} (same : Parallel marks tree t t')
    (early : ∀ file ∈ t.files.head?, Unmarked marks tree file.frame.name file.frame.line)
    (step : Step inclusion tree t u) :
    ∃ u', Step inclusion tree' t' u' ∧ Parallel marks tree u u' := by
  obtain ⟨files, s⟩ := t
  obtain ⟨files', s'⟩ := t'
  obtain ⟨state, twins⟩ := same
  cases state
  cases twins with
  | nil => cases step
  | @cons file file' outer outer' twin twins =>
    refine ⟨_, rfl, ?_⟩
    have eq : u = _ := (Option.some.inj step).symm
    have left : Parallel marks tree (leaveFile file.saved outer s) (leaveFile file'.saved outer' s) := by
      unfold leaveFile
      rw [twin.saved, twins.length_eq]
      exact ⟨rfl, twins⟩
    have first := twin.rest 0 (early file rfl)
    subst eq
    cases rest : file.rest with
    | nil =>
      have rest' : file'.rest = [] := by simpa [rest] using first
      simpa only [rest'] using left
    | cons line rest =>
      have head : file'.rest.head? = some line := by
        rw [List.head?_eq_getElem?, first]
        simp [*]
      obtain ⟨rest', left'⟩ := List.head?_eq_some_iff.mp head
      simp only [left']
      cases aborted : s.aborted with
      | true => simpa using left
      | false =>
        simp only [Bool.false_eq_true, if_false]
        exact .readLine edited (.cons (twin.advance ‹_› left') twins) line _

theorem parallel_beginFile (path : String) (s : Preprocessor) :
    Parallel marks tree (beginFile tree path s) (beginFile tree' path s) := by
  unfold beginFile
  rcases edited.read path with same | ⟨text, text', read, read', lines⟩
  · rw [same]
    cases tree.read path with
    | ok text => exact .enterFile ⟨path, Path.parent? path, text⟩ (fun _ _ => rfl) .nil s
    | error fault => exact ⟨rfl, .nil⟩
  · rw [read, read']
    exact .enterFile ⟨path, Path.parent? path, text⟩ lines .nil s

end Edited

/-- Up to a line, and over it, a run is the same on a tree with other lines after it, if the files on the
way to the line are read once. -/
theorem Loads.parallel {t' : Traversal} (loads : Loads inclusion tree t paths u)
    (reads : u.Reads files line)
    (once : ∀ file ∈ files, t.tally (tree.sameFile file.frame.name) paths ≤ 1)
    (edited : EditedAfter (files.map OpenFile.mark) tree tree')
    (same : Parallel (files.map OpenFile.mark) tree t t') (next : Step inclusion tree u v) :
    ∃ v', Runs inclusion tree' t' v' ∧ Parallel (files.map OpenFile.mark) tree v v' := by
  induction loads generalizing t' with
  | done u =>
    have here : Loads inclusion tree u [] u := .done u
    obtain ⟨v', step, same⟩ := same.step edited (here.unmarked reads once) next
    exact ⟨v', .single step, same⟩
  | @step t _ _ paths first more ih =>
    have early := (Loads.step first more).unmarked reads once
    obtain ⟨w', step, same⟩ := same.step edited early first
    have once' := fun file mem => Nat.le_trans (first.tally_le _ paths) (once file mem)
    obtain ⟨v', run, same⟩ := ih reads once' same next
    exact ⟨v', .head step run, same⟩

theorem tally_beginFile_le (tree : FileTree) (path : String) (s : Preprocessor) (p : String → Bool)
    (paths : List String) : (beginFile tree path s).tally p paths ≤ (path :: paths).countP p := by
  unfold tally beginFile
  rw [List.countP_cons]
  split
  · rw [enterFile, List.countP_singleton]
    exact Nat.le_of_eq (Nat.add_comm _ _)
  · rw [List.countP_nil, Nat.zero_add]
    exact Nat.le_add_right _ _

theorem Runs.state_of_aborted (run : Runs inclusion tree t u) (aborted : t.state.aborted = true) :
    ∃ branches, u.state = { t.state with branches } := by
  induction run with
  | refl => exact ⟨_, rfl⟩
  | @tail v w _ step ih =>
    obtain ⟨_, state⟩ := ih
    have aborted' : v.state.aborted = true := by rwa [state]
    obtain ⟨branches, state'⟩ := step.passage.state_of_aborted aborted'
    exact ⟨branches, by rw [state', state]⟩

theorem branches_processFile (inclusion : Inclusion) (tree : FileTree) (path : String)
    (s : Preprocessor) : (processFile inclusion tree path s).branches = s.branches := by
  unfold processFile readFile
  split
  · rfl
  · split
    · rw [enter_eq_processText]
      rfl
    · rfl

/-- Once a run is aborted, all that still happens is that the conditionals around it come back. -/
theorem processFile_of_aborted {path : String} {s : Preprocessor}
    (run : Runs inclusion tree (beginFile tree path s) t) (aborted : t.state.aborted = true) :
    processFile inclusion tree path s = { t.state with branches := s.branches } := by
  obtain ⟨branches, state⟩ :=
    ((runs_processFile inclusion tree path s).to_end run).state_of_aborted aborted
  have state : processFile inclusion tree path s = { t.state with branches } := state
  have kept := branches_processFile inclusion tree path s
  rw [state] at kept ⊢
  exact congrArg (fun branches => { t.state with branches }) kept

def haltedAt (s : Preprocessor) (place : Place) (reason : String) : Preprocessor :=
  { s with
    lines := s.lines + 1
    log := s.log.add (diagnosticAt place (.stopped reason))
    aborted := true }

theorem processLine_error {s : Preprocessor} {reason : String}
    (directive : Line.ofString line = .directive .error reason) (visible : s.branches.isActive = true)
    (unheaded : s.header = none) (includer : Includer) (place : Place) :
    processLine includer place line s = s.stop place reason := by
  simp [processLine, directive, headedLine, visible, unheaded, visibleLine]

theorem step_of_error {reason : String} (reads : t.Reads files line)
    (directive : Line.ofString line = .directive .error reason)
    (visible : t.state.branches.isActive = true) (unheaded : t.state.header = none) :
    Step inclusion tree t ⟨files, haltedAt t.state (files.map OpenFile.frame) reason⟩ := by
  have step : Step inclusion tree t
      (readLine inclusion tree files line { t.state with lines := t.state.lines + 1 }) :=
    step_of_reads reads
  have unheard (s : Preprocessor) : includeArgument? line s = none := by
    simp only [includeArgument?, directive]
  have visible' : { t.state with lines := t.state.lines + 1 }.branches.isActive = true := visible
  simp only [readLine, unheard, processLine_error directive visible' unheaded] at step
  exact step

end Traversal

namespace Config

variable (c : Config)

theorem run_with_inputs (inputs : List String) (tree : FileTree) :
    { c with inputs := inputs }.run tree =
      (c.judge (c.runInputs inputs tree).1, (c.runInputs inputs tree).2) := by
  have same (paths : List String) (tree : FileTree) :
      { c with inputs := inputs }.runInputs paths tree = c.runInputs paths tree := by
    induction paths generalizing tree with
    | nil => rfl
    | cons path rest ih =>
      unfold runInputs
      simp only [ih]
      rfl
  unfold run
  rw [same]
  rfl

theorem runInputs_of_aborted {path : String} (before later : List String) (tree : FileTree)
    (aborted : (c.preprocess (c.runInputs before tree).2 path).aborted = true)
    (blocked : c.Blocked (c.preprocess (c.runInputs before tree).2 path).log.diagnostics) :
    c.runInputs (before ++ path :: later) tree = c.runInputs (before ++ [path]) tree := by
  induction before generalizing tree with
  | nil =>
    have alone : c.runInput FileTree.destination tree path tree = (c.preprocess tree path, tree) :=
      c.runInput_of_blocked blocked _ _
    have aborted : (c.preprocess tree path).aborted = true := aborted
    simp only [List.nil_append, runInputs, alone, aborted, if_true]
  | cons first before ih =>
    unfold runInputs at aborted blocked
    unfold runInputs
    dsimp only [List.cons_append] at aborted blocked ⊢
    split
    · rfl
    · rename_i running
      rw [if_neg running] at aborted blocked
      rw [ih _ aborted blocked]

end Config

namespace Traversal

variable {inclusion : Inclusion} {tree : FileTree} {paths : List String} {t : Traversal}
  {files : List OpenFile} {line : String}

/-- Let a run come to an `@error` that is heard, each file on the way to it having been opened once. Then
the file is processed to the state after that line, and to the same state on every tree that differs only
in later lines of these files. That state is not changed any more, and no later input is looked at. -/
theorem error_freezes_run {path reason : String} {s : Preprocessor}
    (loads : Loads inclusion tree (beginFile tree path s) paths t) (reads : t.Reads files line)
    (directive : Line.ofString line = .directive .error reason)
    (visible : t.state.branches.isActive = true) (unheaded : t.state.header = none)
    (once : ∀ file ∈ files, (path :: paths).countP (tree.sameFile file.frame.name) = 1) :
    let halted := haltedAt { t.state with branches := s.branches } (files.map OpenFile.frame) reason
    processFile inclusion tree path s = halted ∧
    (∀ tree', EditedAfter (files.map OpenFile.mark) tree tree' →
      processFile inclusion tree' path s = halted) ∧
    (∀ inclusion tree, (∀ path, processFile inclusion tree path halted = halted) ∧
      ∀ source, processSource inclusion tree source halted = halted) ∧
    ∀ (c : Config) (before later : List String) (files : FileTree),
      c.inclusion = inclusion → .start c.environment = s → (c.runInputs before files).2 = tree →
        { c with inputs := before ++ path :: later }.run files =
          { c with inputs := before ++ [path] }.run files := by
  have next : Step inclusion tree t ⟨files, haltedAt t.state (files.map OpenFile.frame) reason⟩ :=
    step_of_error reads directive visible unheaded
  intro halted
  have result : processFile inclusion tree path s = halted :=
    processFile_of_aborted (loads.runs.tail next) rfl
  refine ⟨result, fun tree' edited => ?_, fun inclusion tree => ⟨fun path => rfl, fun source => rfl⟩, ?_⟩
  · have once' : ∀ file ∈ files,
        (beginFile tree path s).tally (tree.sameFile file.frame.name) paths ≤ 1 :=
      fun file mem => once file mem ▸ tally_beginFile_le tree path s _ paths
    have begun := parallel_beginFile edited path s
    obtain ⟨⟨files', s'⟩, run, same⟩ := loads.parallel reads once' edited begun next
    obtain rfl : s' = haltedAt t.state (files.map OpenFile.frame) reason := same.state
    exact processFile_of_aborted run rfl
  · rintro c before later files rfl rfl rfl
    have report : c.preprocess (c.runInputs before files).2 path = halted.toReport path :=
      congrArg (fun s => s.toReport path) result
    have aborted : (c.preprocess (c.runInputs before files).2 path).aborted = true := by rw [report]; rfl
    have blocked : c.Blocked (c.preprocess (c.runInputs before files).2 path).log.diagnostics := by
      rw [report]
      exact .inl ⟨_, List.mem_append_right _ List.mem_cons_self, rfl⟩
    rw [c.run_with_inputs, c.run_with_inputs, c.runInputs_of_aborted before later files aborted blocked]

variable (inclusion tree) in
def loadedAfter : Nat → Traversal → List String
  | 0, _ => []
  | n + 1, t =>
    let u := (next? inclusion tree t).getD t
    entered t u ++ loadedAfter n u

variable (inclusion tree) in
theorem loads_after (n : Nat) (t : Traversal) :
    Loads inclusion tree t (loadedAfter inclusion tree n t) (after inclusion tree n t) := by
  induction n generalizing t with
  | zero => exact .done t
  | succ n ih =>
    rw [loadedAfter, after]
    cases next : next? inclusion tree t with
    | none => simpa [entered] using ih t
    | some u => exact .step next (ih u)

/-- A file that includes one in which the run is stopped. -/
def interrupted : FileTree := ⟨[],
  [(["main.gp"], .file "@print 1\n@if 1\n@include in.gp\n@endif\n@print 2".toUTF8),
   (["in.gp"], .file "@error halt\n@print 3".toUTF8)]⟩

def interruptedElsewise : FileTree := ⟨[],
  [(["main.gp"], .file "@print 1\n@if 1\n@include in.gp\n@header".toUTF8),
   (["in.gp"], .file "@error halt\n@if 1\nG0".toUTF8)]⟩

theorem fileAt?_interrupted : interrupted.fileAt? "in.gp" = some ["in.gp"] ∧
    interrupted.fileAt? "main.gp" = some ["main.gp"] := by
  decide +kernel

theorem editedAfter_interrupted :
    EditedAfter [⟨"in.gp", 1⟩, ⟨"main.gp", 3⟩] interrupted interruptedElsewise where
  home := rfl
  others location unmarked := by
    have inner : location ≠ ["in.gp"] := by
      rintro rfl
      exact unmarked ⟨"in.gp", 1⟩ List.mem_cons_self fileAt?_interrupted.1
    have outer : location ≠ ["main.gp"] := by
      rintro rfl
      exact unmarked ⟨"main.gp", 3⟩ (List.mem_cons_of_mem _ List.mem_cons_self) fileAt?_interrupted.2
    unfold entry?
    simp [interrupted, interruptedElsewise, List.lookup_cons, inner, outer, beq_false_of_ne]
  texts mark mem location found := by
    simp only [List.mem_cons, List.not_mem_nil, or_false] at mem
    rcases mem with rfl | rfl
    · cases found.symm.trans fileAt?_interrupted.1
      exact ⟨"@error halt\n@print 3", "@error halt\n@if 1\nG0", by decide +kernel⟩
    · cases found.symm.trans fileAt?_interrupted.2
      exact ⟨"@print 1\n@if 1\n@include in.gp\n@endif\n@print 2",
        "@print 1\n@if 1\n@include in.gp\n@header", by decide +kernel⟩

def interruptedPoint : Traversal := after (Config.plain true).inclusion interrupted 3
  (beginFile interrupted "main.gp" (.start (Config.plain true).environment))

theorem interrupted_frozen :
    processFile (Config.plain true).inclusion interruptedElsewise "main.gp"
        (.start (Config.plain true).environment) =
      processFile (Config.plain true).inclusion interrupted "main.gp"
        (.start (Config.plain true).environment) ∧
    { Config.plain true with inputs := ["main.gp", "main.gp"] }.run interrupted =
      { Config.plain true with inputs := ["main.gp"] }.run interrupted := by
  have point : interruptedPoint.files.map OpenFile.frame =
        [⟨"in.gp", some "", 0, ""⟩, ⟨"main.gp", some "", 3, "@include in.gp"⟩] ∧
      interruptedPoint.files.map OpenFile.rest =
        [["@error halt", "@print 3"], ["@endif", "@print 2"]] ∧
      interruptedPoint.state.aborted = false ∧ interruptedPoint.state.branches.isActive = true ∧
      interruptedPoint.state.header = none := by decide +kernel
  have paths : loadedAfter (Config.plain true).inclusion interrupted 3
      (beginFile interrupted "main.gp" (.start (Config.plain true).environment)) = ["in.gp"] := by
    decide +kernel
  have loads : Loads (Config.plain true).inclusion interrupted
      (beginFile interrupted "main.gp" (.start (Config.plain true).environment)) ["in.gp"]
      interruptedPoint := by
    rw [← paths]
    exact loads_after (Config.plain true).inclusion interrupted 3 _
  generalize interruptedPoint = t at point loads
  obtain ⟨files, s⟩ := t
  obtain ⟨frames, rests, running, visible, unheaded⟩ := point
  cases files with
  | nil => cases frames
  | cons file outer =>
    simp only [List.map_cons, List.cons.injEq] at frames rests
    have marks : (file.advance "@error halt" ["@print 3"] :: outer).map OpenFile.mark =
        [⟨"in.gp", 1⟩, ⟨"main.gp", 3⟩] := by
      have later := congrArg (List.map fun frame => (⟨frame.name, frame.line⟩ : Origin)) frames.2
      rw [List.map_map] at later
      simpa [OpenFile.mark, OpenFile.advance, frames.1] using later
    have once : ∀ opened ∈ file.advance "@error halt" ["@print 3"] :: outer,
        ["main.gp", "in.gp"].countP (interrupted.sameFile opened.frame.name) = 1 := by
      intro opened mem
      have marked : opened.mark ∈ [⟨"in.gp", 1⟩, ⟨"main.gp", 3⟩] := marks ▸ List.mem_map_of_mem mem
      have all : ∀ mark ∈ [(⟨"in.gp", 1⟩ : Origin), ⟨"main.gp", 3⟩],
          ["main.gp", "in.gp"].countP (interrupted.sameFile mark.file) = 1 := by decide +kernel
      exact all opened.mark marked
    have directive : Line.ofString "@error halt" = .directive .error "halt" := by decide +kernel
    have reads : Reads ⟨file :: outer, s⟩ (file.advance "@error halt" ["@print 3"] :: outer)
        "@error halt" :=
      ⟨running, file, outer, ["@print 3"], rfl, rests.1, rfl⟩
    obtain ⟨result, same, -, alone⟩ := error_freezes_run loads reads directive visible unheaded once
    rw [marks] at same
    exact ⟨(same _ editedAfter_interrupted).trans result.symm,
      alone (Config.plain true) [] ["main.gp"] interrupted rfl rfl rfl⟩

end Traversal

end GcodePrep
