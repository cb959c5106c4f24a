import GcodePrep.Proofs.BlockLifetimes
import GcodePrep.Proofs.Dispatch

set_option autoImplicit false

/-!
# The state between two lines

What every line finds when its processing begins: how the open program, a refused one, the switches,
the header and the conditionals stand to each other and to the open files, and what is known of the
programs that are complete. Levels and nesting are those of `Skeleton.Nested`; here the depths of the
switches, the conditionals around a header and the programs themselves are added.
-/

namespace GcodePrep

open Preprocessor Skeleton

namespace Preprocessor

/-- Open programs are unfinished and remember bindings, completed ones are finished and remember none;
all have positive numbers. -/
structure Filed (s : Preprocessor) : Prop where
  live : ∀ o, s.current = some o →
    o.program.done = false ∧ o.program.saved.isSome = true ∧ 0 < o.program.number.toInt
  stored : ∀ p ∈ s.programs.programs, p.done = true ∧ p.saved = none ∧ 0 < p.number.toInt

theorem Effect.filed {s s' : Preprocessor} (h : Effect s s') (filed : s.Filed) : s'.Filed := by
  obtain ⟨live, stored⟩ := filed
  cases h with
  | steady h =>
    refine ⟨fun o' current => ?_, h.programs ▸ stored⟩
    obtain ⟨o, before, _, _, _, rfl⟩ := h.exists_current current
    exact live o before
  | opens _ _ o current _ programs saved _ _ number unfinished =>
    refine ⟨fun o' current' => ?_, programs ▸ stored⟩
    rw [current, Option.some.injEq] at current'
    exact current' ▸ ⟨unfinished, by rw [saved]; rfl, number⟩
  | refuses _ _ _ unopened _ programs => exact ⟨by simp [unopened], programs ▸ stored⟩
  | completes _ o program before _ outside programs _ done _ _ number unsaved =>
    refine ⟨by simp [outside.1], fun p mem => ?_⟩
    rw [programs] at mem
    rcases Catalogue.mem_of_mem_insert mem with rfl | mem
    · exact ⟨done, unsaved, number ▸ (live o before).2.2⟩
    · exact stored p mem
  | abandons _ _ _ _ outside programs | leaves _ _ _ _ outside programs =>
    exact ⟨by simp [outside.1], programs ▸ stored⟩

structure SameBlocks (s s' : Preprocessor) : Prop where
  branches : s'.branches = s.branches
  header : s'.header = s.header
  depths : s'.switches.map Switch.depth = s.switches.map Switch.depth

namespace SameBlocks

theorem refl (s : Preprocessor) : SameBlocks s s := ⟨rfl, rfl, rfl⟩

theorem trans {a b c : Preprocessor} (h : SameBlocks a b) (h' : SameBlocks b c) : SameBlocks a c :=
  ⟨h'.branches.trans h.branches, h'.header.trans h.header, h'.depths.trans h.depths⟩

theorem foldl {α : Type} {f : Preprocessor → α → Preprocessor} (h : ∀ s a, SameBlocks s (f s a))
    (as : List α) (s : Preprocessor) : SameBlocks s (as.foldl f s) := by
  induction as generalizing s with
  | nil => exact refl s
  | cons a as ih => exact (h s a).trans (ih _)

theorem addDiagnostic (s : Preprocessor) (d : Diagnostic) : SameBlocks s (s.addDiagnostic d) :=
  ⟨rfl, rfl, rfl⟩

theorem withEnv (s : Preprocessor) (env : Environment) : SameBlocks s { s with env } :=
  ⟨rfl, rfl, rfl⟩

theorem restoreSaved (s : Preprocessor) (saved : Option Bindings) :
    SameBlocks s (s.restoreSaved saved) := by
  cases saved <;> exact ⟨rfl, rfl, rfl⟩

theorem reportSwitches (s : Preprocessor) (switches : Switches) :
    SameBlocks s (s.reportSwitches switches) :=
  foldl (fun s _ => addDiagnostic s _) switches s

theorem reportFailures (s : Preprocessor) (failures : List ResolveFailure) :
    SameBlocks s (s.reportFailures failures) :=
  foldl (fun s _ => addDiagnostic s _) failures s

variable (s : Preprocessor) (place : Place)

theorem comment (text : String) : SameBlocks s (s.comment place text) := by
  unfold Preprocessor.comment
  split <;> exact ⟨rfl, rfl, rfl⟩

theorem captureHeader (line : String) : SameBlocks s (s.captureHeader line) := by
  unfold Preprocessor.captureHeader
  split <;> exact ⟨rfl, rfl, rfl⟩

theorem evalStatement (expr : String) : SameBlocks s (s.evalStatement place expr) := by
  have evaluated : SameBlocks s (s.eval expr).2 := ⟨rfl, rfl, rfl⟩
  unfold Preprocessor.evalStatement
  split <;> rename_i h <;> rw [h] at evaluated
  · exact evaluated
  · exact evaluated.trans ⟨rfl, rfl, rfl⟩

theorem define (assignment : String) : SameBlocks s (s.define place assignment) := by
  unfold Preprocessor.define
  split
  · exact ⟨rfl, rfl, rfl⟩
  · split <;> exact ⟨rfl, rfl, rfl⟩

theorem openProgram (argument : String) : SameBlocks s (s.openProgram place argument) := by
  unfold Preprocessor.openProgram warnOverwriting
  dsimp only
  split
  · exact ⟨rfl, rfl, rfl⟩
  · split
    · exact ⟨rfl, rfl, rfl⟩
    · split
      · exact ⟨rfl, rfl, rfl⟩
      · split <;> exact ⟨rfl, rfl, rfl⟩

theorem closeRejected : SameBlocks s s.closeRejected := by
  unfold Preprocessor.closeRejected
  split <;> exact ⟨rfl, rfl, rfl⟩

theorem outsideLine (line : Line) : SameBlocks s (s.outsideLine place line) := by
  unfold Preprocessor.outsideLine
  split <;> exact ⟨rfl, rfl, rfl⟩

theorem delay (expr : String) : SameBlocks s (s.delay place expr) := by
  have evaluated : SameBlocks s (s.eval expr).2 := ⟨rfl, rfl, rfl⟩
  unfold Preprocessor.delay
  split <;> rename_i h <;> rw [h] at evaluated <;> exact evaluated.trans ⟨rfl, rfl, rfl⟩

theorem bindLabel (e : Emission) (outLine : Nat) : SameBlocks s (s.bindLabel place e outLine) := by
  unfold Preprocessor.bindLabel
  split
  · exact refl s
  · split
    · exact ⟨rfl, rfl, rfl⟩
    · split <;> exact ⟨rfl, rfl, rfl⟩

theorem emit (e : Emission) : SameBlocks s (s.emit place e) := by
  unfold Preprocessor.emit
  split
  · split <;> exact ⟨rfl, rfl, rfl⟩
  · exact (bindLabel s place e _).trans ⟨rfl, rfl, rfl⟩

theorem addCase (value : String) : SameBlocks s (s.addCase place value) := by
  unfold Preprocessor.addCase
  split
  · exact ⟨rfl, rfl, rfl⟩
  · rename_i sw outer switches
    split
    · exact ⟨rfl, rfl, rfl⟩
    · have added : SameBlocks s
          { s with switches := (sw.addCase value place.origin).1 :: outer } :=
        ⟨rfl, rfl, by simp [switches, Switch.addCase]⟩
      exact added.trans (emit _ place _)

theorem addDefault : SameBlocks s (s.addDefault place) := by
  unfold Preprocessor.addDefault
  split
  · exact ⟨rfl, rfl, rfl⟩
  · rename_i sw outer switches
    unfold Switch.addDefault
    cases sw.defaultOrigin with
    | some first => exact ⟨rfl, rfl, rfl⟩
    | none =>
      have added : SameBlocks s
          { s with switches := { sw with defaultOrigin := some place.origin } :: outer } :=
        ⟨rfl, rfl, by simp [switches]⟩
      exact added.trans (emit _ place _)

theorem leaveCase : SameBlocks s (s.leaveCase place) := by
  unfold Preprocessor.leaveCase
  split
  · exact ⟨rfl, rfl, rfl⟩
  · exact emit s place _

theorem refuse (inclusion : Inclusion) (tree : FileTree) (argument : String) :
    SameBlocks s (Traversal.refuse inclusion tree place argument s) := by
  unfold Traversal.refuse
  rcases includeFile_cases inclusion tree
    (if inclusion.maxDepth < place.level then none else some fun _ _ s => s) place argument s with
    ⟨d, eq⟩ | ⟨enter, source, given, eq⟩
  · rw [eq]
    exact ⟨rfl, rfl, rfl⟩
  · rw [eq]
    split at given <;> cases given
    exact refl s

end SameBlocks

/-- A switch with `n` others around it has depth `n + 1`. A header is open only where lines are
visible. -/
structure Ranked (s : Preprocessor) : Prop where
  depths : ∀ depth outer, depth :: outer <:+ s.switches.map Switch.depth → depth = outer.length + 1
  header : s.header ≠ none → s.branches.isActive = true

namespace Ranked

variable {s s' : Preprocessor}

theorem of_same (h : s.Ranked) (same : SameBlocks s s') : s'.Ranked :=
  ⟨same.depths ▸ h.depths, same.branches ▸ same.header ▸ h.header⟩

theorem of_suffix (h : s.Ranked)
    (switches : s'.switches.map Switch.depth <:+ s.switches.map Switch.depth)
    (header : s'.header ≠ none → s'.branches.isActive = true) : s'.Ranked :=
  ⟨fun depth outer inner => h.depths depth outer (inner.trans switches), header⟩

theorem unheaded (h : s.Ranked)
    (notCaptured : ¬ (s.branches.isActive && s.header.isSome) = true) : s.header = none := by
  by_contra headed
  refine notCaptured ?_
  rw [h.header headed, Bool.true_and]
  exact Option.isSome_iff_ne_none.mpr headed

section Operations

variable (h : s.Ranked) (place : Place)

include h

theorem openIf (unheaded : s.header = none) (expr : String) : (s.openIf place expr).Ranked := by
  unfold Preprocessor.openIf
  cases active : s.branches.isActive <;> cases given : expr.isEmpty <;>
    exact ⟨h.depths, fun headed => absurd unheaded headed⟩

theorem flipElse (unheaded : s.header = none) : (s.flipElse place).Ranked := by
  unfold Preprocessor.flipElse
  split <;> exact ⟨h.depths, fun headed => absurd unheaded headed⟩

theorem closeIf (unheaded : s.header = none) : (s.closeIf place).Ranked := by
  unfold Preprocessor.closeIf
  split <;> exact ⟨h.depths, fun headed => absurd unheaded headed⟩

theorem closeHeader : (s.closeHeader place).Ranked := by
  unfold Preprocessor.closeHeader
  split
  · exact ⟨h.depths, fun headed => absurd rfl headed⟩
  · exact h.of_same ⟨rfl, rfl, rfl⟩

theorem closeProgram : (s.closeProgram place).Ranked := by
  cases current : s.current with
  | none =>
    simp only [Preprocessor.closeProgram, current]
    exact h.of_same (.addDiagnostic s _)
  | some opened =>
    have vacated : Ranked { s with current := none, switches := [] } :=
      ⟨fun depth outer inner => absurd inner (by simp), h.header⟩
    rw [closeProgram_eq current]
    dsimp only
    have reported := SameBlocks.reportSwitches { s with current := none, switches := [] } s.switches
    generalize { s with current := none, switches := [] }.reportSwitches s.switches = t at reported ⊢
    have failed := SameBlocks.reportFailures { t with env := (opened.program.resolve t.env).2.2 }
      (opened.program.resolve t.env).2.1
    have whole := ((reported.trans (.withEnv t _)).trans failed).trans
      (.restoreSaved _ opened.program.saved)
    exact vacated.of_same ⟨whole.branches, whole.header, whole.depths⟩

theorem openSwitch (subject : String) : (s.openSwitch place subject).Ranked := by
  have reported : SameBlocks s
      (if subject.isEmpty then s.report place .switchWithoutExpression else s) := by
    split <;> exact ⟨rfl, rfl, rfl⟩
  have h := h.of_same reported
  unfold Preprocessor.openSwitch
  generalize (if subject.isEmpty then s.report place .switchWithoutExpression else s) = s at h
  dsimp only
  split
  · exact h
  · refine ⟨fun depth outer inner => ?_, h.header⟩
    rw [Switches.openSwitch, List.map_cons, List.suffix_cons_iff] at inner
    rcases inner with top | below
    · obtain ⟨rfl, rfl⟩ := List.cons.inj top
      simp
    · exact h.depths depth outer below

theorem closeSwitch : (s.closeSwitch place).Ranked := by
  unfold Preprocessor.closeSwitch
  split
  · exact h.of_same ⟨rfl, rfl, rfl⟩
  · rename_i sw outer switches
    have closed : Ranked { s with switches := outer } := by
      refine h.of_suffix ?_ h.header
      rw [switches]
      exact List.suffix_cons _ _
    have inserted : Ranked ({ s with switches := outer }.withProgram
        (·.insertLines sw.insertAt sw.origin sw.outLine sw.jumpTable)) :=
      closed.of_same ⟨rfl, rfl, rfl⟩
    exact inserted.of_same (.emit _ place _)

theorem programLine (text : String) (line : Line) : (s.programLine place text line).Ranked := by
  unfold Preprocessor.programLine
  split
  · exact h.closeProgram place
  · exact h.openSwitch place _
  · exact h.of_same (.delay s place _)
  · exact h.of_same (.addCase s place _)
  · exact h.of_same (.addDefault s place)
  · exact h.of_same (.leaveCase s place)
  · exact h.closeSwitch place
  · exact h.of_same (.emit s place _)

theorem otherLine (text : String) (line : Line) : (s.otherLine place text line).Ranked := by
  unfold Preprocessor.otherLine
  split
  · split
    · exact h.of_same (.closeRejected s)
    · exact h
  · exact h.of_same (.outsideLine s place line)
  · exact h.programLine place text line

variable (includer : Includer)
  (included : ∀ argument, SameBlocks s (includer place argument s)) (text : String)

include included

theorem visibleLine (active : s.branches.isActive = true) (line : Line) :
    (visibleLine includer s place text line).Ranked := by
  unfold Preprocessor.visibleLine
  split
  · exact h.of_same ⟨rfl, rfl, rfl⟩
  · exact h.of_same ⟨rfl, rfl, rfl⟩
  · exact ⟨h.depths, fun _ => active⟩
  · exact h.of_same (.openProgram s place _)
  · exact h.of_same (included _)
  · exact h.of_same (.evalStatement s place _)
  · exact h.of_same (.define s place _)
  · exact h.otherLine place text _

theorem headedLine (line : Line) : (headedLine includer s place text line).Ranked := by
  unfold Preprocessor.headedLine
  split
  · exact h.of_same (.captureHeader s text)
  · rename_i notCaptured
    have unheaded := h.unheaded notCaptured
    split
    · exact h.openIf place unheaded _
    · exact h.flipElse place unheaded
    · exact h.closeIf place unheaded
    · split
      · rename_i active
        exact h.visibleLine place includer included text active _
      · exact h

theorem processLine : (processLine includer place text s).Ranked := by
  unfold Preprocessor.processLine
  split
  · exact h
  · exact h.of_same (.comment s place _)
  · split
    · exact h.closeHeader place
    · exact h
  · exact h.headedLine place includer included text _

end Operations

end Ranked

theorem switches_endHeader (s : Preprocessor) (level : Nat) :
    (s.endHeader level).switches = s.switches := by
  unfold endHeader
  split
  · rfl
  · split <;> rfl

theorem depths_endProgram (s : Preprocessor) (level : Nat) :
    (s.endProgram level).1.switches.map Switch.depth <:+ s.switches.map Switch.depth := by
  unfold endProgram
  split
  · exact List.suffix_refl _
  · rename_i opened _
    split
    · have restored :=
        (SameBlocks.restoreSaved { s with current := none, switches := [] } opened.program.saved).depths
      have none_left := restored.trans List.map_nil
      rw [List.map_eq_nil_iff] at none_left
      simp [reportAt, Preprocessor.addDiagnostic, Program.abandon, none_left]
    · exact List.suffix_refl _

theorem SameBlocks.endRejected (s : Preprocessor) (level : Nat) :
    SameBlocks s (s.endRejected level) := by
  unfold Preprocessor.endRejected
  split
  · exact refl s
  · split
    · exact closeRejected s
    · exact refl s

theorem depths_endFile (s : Preprocessor) (level : Nat) :
    (s.endFile level).switches.map Switch.depth <:+ s.switches.map Switch.depth := by
  have branches : SameBlocks { s with branches := [] }
      ({ s with branches := [] }.reportBranches s.branches) :=
    SameBlocks.foldl (fun s _ => .addDiagnostic s _) s.branches _
  unfold endFile
  dsimp only
  generalize { s with branches := [] }.reportBranches s.branches = t at branches ⊢
  have header := switches_endHeader t level
  generalize t.endHeader level = u at header ⊢
  have program := depths_endProgram { u with switches := (u.switches.splitFromLevel level).2 } level
  have reported := (SameBlocks.reportSwitches
    ({ u with switches := (u.switches.splitFromLevel level).2 }.endProgram level).1
    ((u.switches.splitFromLevel level).1 ++
      ({ u with switches := (u.switches.splitFromLevel level).2 }.endProgram level).2)).trans
        (.endRejected _ level)
  rw [reported.depths, ← branches.depths, ← header]
  exact program.trans ((List.dropWhile_suffix _).map _)

theorem Ranked.endFile {s : Preprocessor} (h : s.Ranked) {height : Nat}
    (nested : Nested (height + 1) s.skeleton) (branches : Branches) :
    Ranked { s.endFile (height + 1) with branches } := by
  refine h.of_suffix (depths_endFile s (height + 1)) fun headed => absurd ?_ headed
  -- The file that ends is the innermost one, so a header that is open was opened in it.
  have closed := congrArg Skeleton.header (endFile_closes nested).1
  have unheaded : (s.skeleton.upTo height).header = none := by
    refine Option.eq_none_iff_forall_not_mem.mpr fun site mem => ?_
    obtain ⟨opened, low⟩ := mem_low.mp mem
    have := (nested.header site opened).2
    omega
  rw [unheaded] at closed
  simpa [skeleton] using closed

end Preprocessor

namespace Traversal

variable {inclusion : Inclusion} {tree : FileTree}

theorem Step.cases {t t' : Traversal} (h : Step inclusion tree t t') :
    (∃ file outer, t.files = file :: outer ∧ t' = leaveFile file.saved outer t.state) ∨
      ∃ files line, t.Reads files line ∧
        t' = readLine inclusion tree files line { t.state with lines := t.state.lines + 1 } := by
  obtain ⟨files, s⟩ := t
  cases files with
  | nil => cases h
  | cons file outer =>
    simp only [Step, next?, Option.some.injEq] at h
    subst h
    split
    · exact .inl ⟨file, outer, rfl, rfl⟩
    · rename_i line rest left
      split
      · exact .inl ⟨file, outer, rfl, rfl⟩
      · rename_i running
        exact .inr ⟨_, line, ⟨by simpa using running, file, outer, rest, rfl, left, rfl⟩, rfl⟩

theorem ranked_readLine (files : List OpenFile) (line : String) {s : Preprocessor} (ranked : s.Ranked) :
    (readLine inclusion tree files line s).state.Ranked := by
  have refused (argument : String) :=
    SameBlocks.refuse s (files.map OpenFile.frame) inclusion tree argument
  unfold readLine
  cases heard : includeArgument? line s with
  | none => exact ranked.processLine _ (refuse inclusion tree) refused line
  | some argument =>
    dsimp only
    split
    · dsimp only
      exact ranked.of_same (refused argument)
    · exact ⟨ranked.depths, fun _ => rfl⟩

theorem Step.ranked {t t' : Traversal} (h : Step inclusion tree t t') (sound : t.Sound)
    (ranked : t.state.aborted = false → t.state.Ranked) (running : t'.state.aborted = false) :
    t'.state.Ranked := by
  have before := h.passage.running running
  rcases h.cases with ⟨file, outer, files, rfl⟩ | ⟨files, line, -, rfl⟩
  · have nested := sound before
    rw [files, List.length_cons] at nested
    rw [leaveFile_of_running before]
    exact (ranked before).endFile nested file.saved
  · exact ranked_readLine files line ((ranked before).of_same ⟨rfl, rfl, rfl⟩)

namespace Reached

variable {env : Environment} {t : Traversal}

theorem sound (h : Reached inclusion tree env t) : t.Sound := by
  induction h with
  | fresh => exact fun _ => (atRest_iff.mp ⟨rfl, rfl, rfl, rfl, rfl⟩).2
  | enter source _ ih =>
    intro running
    have nested := ih running
    exact (nested.enter nested.closed.1).withConditionals []
  | unreadable _ _ _ ih => exact ih
  | step _ next ih => exact next.passage.sound ih

theorem ranked (h : Reached inclusion tree env t) : t.state.aborted = false → t.state.Ranked := by
  induction h with
  | fresh => exact fun _ => ⟨fun depth outer inner => absurd inner (by simp [start]), nofun⟩
  | enter source _ ih => exact fun running => ⟨(ih running).depths, fun _ => rfl⟩
  | unreadable _ _ _ ih => exact fun running => (ih running).of_same (.addDiagnostic _ _)
  | step h next ih => exact next.ranked h.sound ih

theorem filed (h : Reached inclusion tree env t) : t.state.Filed := by
  induction h with
  | fresh => exact ⟨nofun, nofun⟩
  | enter _ _ ih => exact ⟨ih.live, ih.stored⟩
  | unreadable _ _ _ ih => exact ⟨ih.live, ih.stored⟩
  | step h next ih => exact (next.effect h.exclusive).filed ih

end Reached

end Traversal

namespace Preprocessor

section Sites

variable {s : Preprocessor}

theorem site_mem_header {h : OpenHeader} (mem : h ∈ s.header) : h.site ∈ s.skeleton.header :=
  Option.mem_map_of_mem _ mem

theorem site_mem_accepted {o : OpenProgram} (mem : o ∈ s.current) : o.site ∈ s.skeleton.accepted :=
  Option.mem_map_of_mem _ mem

theorem site_mem_refused {r : RejectedProgram} (mem : r ∈ s.rejected) : r.site ∈ s.skeleton.refused :=
  Option.mem_map_of_mem _ mem

theorem site_mem_switches {sw : Switch} (mem : sw ∈ s.switches) : sw.site ∈ s.skeleton.switches :=
  List.mem_map_of_mem mem

end Sites

/-- How the fields of the state stand to each other while a line is processed and `height` files are
open. -/
structure Coherent (height : Nat) (s : Preprocessor) : Prop where
  exclusive : s.current = none ∨ s.rejected = none
  accepted : ∀ o ∈ s.current, 1 ≤ o.fileLevel ∧ o.fileLevel ≤ height
  refused : ∀ r ∈ s.rejected, 1 ≤ r.fileLevel ∧ r.fileLevel ≤ height
  inside : s.switches ≠ [] → s.current ≠ none
  /-- Counted from the outermost switch on. -/
  depths : ∀ i sw, s.switches.reverse[i]? = some sw → sw.depth = i + 1
  ordered : s.switches.reverse.Pairwise fun outer inner => outer.fileLevel ≤ inner.fileLevel
  levels : ∀ sw ∈ s.switches, sw.fileLevel ≤ height ∧ ∀ o ∈ s.current, o.fileLevel ≤ sw.fileLevel
  header : ∀ h ∈ s.header, s.branches.isActive = true ∧ h.fileLevel = height
  live : ∀ o ∈ s.current, o.program.done = false ∧ o.program.saved.isSome = true
  stored : ∀ p ∈ s.programs.programs, p.done = true ∧ p.saved = none ∧ 0 < p.number.toInt
  distinct : (s.programs.programs.map Program.name).Nodup

theorem Ranked.depth_reverse {s : Preprocessor} (h : s.Ranked) {i : Nat} {sw : Switch}
    (found : s.switches.reverse[i]? = some sw) : sw.depth = i + 1 := by
  obtain ⟨bound, at_i⟩ := List.getElem?_eq_some_iff.mp found
  have split : s.switches.reverse = s.switches.reverse.take i ++ sw :: s.switches.reverse.drop (i + 1) := by
    rw [← at_i, List.getElem_cons_drop, List.take_append_drop]
  have outer : sw :: (s.switches.reverse.take i).reverse <:+ s.switches :=
    ⟨(s.switches.reverse.drop (i + 1)).reverse, by
      have := congrArg List.reverse split
      simpa using this.symm⟩
  have depth := h.depths _ _ (List.map_cons ▸ outer.map Switch.depth)
  rw [depth, List.length_map, List.length_reverse, List.length_take]
  omega

theorem coherent_of {height : Nat} {s : Preprocessor} (exclusive : s.Exclusive)
    (nested : Nested height s.skeleton) (ranked : s.Ranked) (filed : s.Filed) (orderly : s.Orderly) :
    Coherent height s where
  exclusive := exclusive
  accepted _ mem := nested.accepted _ (site_mem_accepted mem)
  refused _ mem := nested.refused _ (site_mem_refused mem)
  inside opened vacant := by
    have := nested.idle (by simp [skeleton, vacant])
    simp [skeleton, opened] at this
  depths i sw found := ranked.depth_reverse found
  ordered := by
    have ordered := nested.ordered
    rw [skeleton, List.pairwise_map] at ordered
    exact List.pairwise_reverse.mpr ordered
  levels _ mem := ⟨nested.switches _ (site_mem_switches mem), fun _ current =>
    nested.inside _ (site_mem_accepted current) _ (site_mem_switches mem)⟩
  header _ mem := ⟨ranked.header (by simp [Option.mem_def.mp mem]),
    (nested.header _ (site_mem_header mem)).2⟩
  live o mem := ⟨(filed.live o mem).1, (filed.live o mem).2.1⟩
  stored := filed.stored
  distinct := orderly.distinct

end Preprocessor

open Traversal

/-- Whenever a line is read, the state is coherent; and no line needs to be told what to do where a program
is missing. -/
theorem coherent_before_lines {inclusion : Inclusion} {tree : FileTree} {env : Environment}
    {t : Traversal} {files : List OpenFile} {line : String} (reached : Reached inclusion tree env t)
    (reads : t.Reads files line) :
    Coherent files.length { t.state with lines := t.state.lines + 1 } ∧
      ∀ (fallbacks : Fallbacks) (includer : Includer),
        processLineWith fallbacks.programLine includer (files.map OpenFile.frame) line
            { t.state with lines := t.state.lines + 1 } =
          processLine includer (files.map OpenFile.frame) line
            { t.state with lines := t.state.lines + 1 } := by
  have nested := reached.sound reads.1
  rw [← reads.length.2] at nested
  have ranked : Ranked { t.state with lines := t.state.lines + 1 } :=
    (reached.ranked reads.1).of_same ⟨rfl, rfl, rfl⟩
  have filed := reached.filed
  have orderly := reached.orderly
  exact ⟨coherent_of reached.exclusive nested ranked ⟨filed.live, filed.stored⟩
      ⟨orderly.opened, orderly.stored, orderly.distinct⟩,
    fun fallbacks includer => processLine_without_fallbacks fallbacks includer _ line _⟩

/-- An open header inside of an included file, after a completed program and with a switch open in
another one. -/
def layered : FileTree := ⟨[], [(["in.gp"], .file "@switch Y\n@header\nG21".toUTF8)]⟩

def layeredSource : Source :=
  ⟨"main.gp", none, "@program P\n@endprogram\n@program Q\n@switch X\n@include in.gp"⟩

def layeredEnv : Environment := (Environment.empty.set "P" (.int 7)).set "Q" (.int 8)

def layeredPoint : Traversal :=
  after ⟨[], 1⟩ layered 7 (enterFile layeredSource [] (.start layeredEnv))

theorem layered_coherent :
    layeredPoint.state.switches.map Switch.depth = [2, 1] ∧
      layeredPoint.state.programs.programs.map Program.name = ["P"] ∧
      ∃ files, layeredPoint.Reads files "G21" ∧
        Coherent files.length { layeredPoint.state with lines := layeredPoint.state.lines + 1 } := by
  have reached : Reached ⟨[], 1⟩ layered layeredEnv layeredPoint :=
    (Reached.enter layeredSource .fresh).runs (runs_after ⟨[], 1⟩ layered 7 _)
  have point : (layeredPoint.files.map OpenFile.rest = [["G21"], []] ∧
      layeredPoint.state.aborted = false) ∧
      layeredPoint.state.switches.map Switch.depth = [2, 1] ∧
      layeredPoint.state.programs.programs.map Program.name = ["P"] := by
    decide +kernel
  obtain ⟨⟨left, running⟩, depths, names⟩ := point
  refine ⟨depths, names, ?_⟩
  cases files : layeredPoint.files with
  | nil => simp [files] at left
  | cons file outer =>
    simp only [files, List.map_cons, List.cons.injEq] at left
    have reads : layeredPoint.Reads (file.advance "G21" [] :: outer) "G21" :=
      ⟨running, file, outer, [], files, left.1, rfl⟩
    exact ⟨_, reads, (coherent_before_lines reached reads).1⟩

end GcodePrep
