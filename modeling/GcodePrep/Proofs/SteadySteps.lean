import GcodePrep.Proofs.Log
import GcodePrep.Proofs.Traversal

set_option autoImplicit false

/-!
# Steps inside and outside of programs

Most of what a line does leaves the open program open, if there is one, and the catalogue alone. Such
steps change no depth limit and only add to the log; those that are quiet change no binding either.
-/

namespace GcodePrep

namespace Environment

theorem eval_maxDepth (env : Environment) (src : String) : (env.eval src).2.maxDepth = env.maxDepth :=
  rfl

theorem define_maxDepth (env : Environment) (src : String) :
    (env.define src).2.maxDepth = env.maxDepth := by
  unfold define
  dsimp only
  split
  · rfl
  · split
    · rfl
    · split <;> rfl

end Environment

theorem Branches.openIf_maxDepth (branches : Branches) (origin : Origin)
    {condition : Environment → Bool × Environment}
    (depth : ∀ env, (condition env).2.maxDepth = env.maxDepth) (env : Environment) :
    (branches.openIf origin condition env).2.maxDepth = env.maxDepth := by
  unfold openIf
  split
  · exact depth env
  · rfl

theorem Resolution.ofSegments_maxDepth (segments : List Segment) (env : Environment) :
    (ofSegments segments env).2.maxDepth = env.maxDepth := by
  induction segments generalizing env with
  | nil => rfl
  | cons segment rest ih =>
    cases segment with
    | plain c => exact ih env
    | token source expr =>
      have eval := env.eval_maxDepth (String.ofList expr)
      unfold ofSegments
      dsimp only
      split <;> rename_i h <;> rw [h] at eval <;> exact (ih _).trans eval

theorem Resolution.pass_maxDepth (form : TokenForm) (s : String) (env : Environment) :
    (pass form s env).2.maxDepth = env.maxDepth :=
  ofSegments_maxDepth _ env

theorem resolveLine_maxDepth (s : String) (env : Environment) :
    (resolveLine s env).2.maxDepth = env.maxDepth := by
  unfold resolveLine
  dsimp only
  rw [Resolution.pass_maxDepth, Resolution.pass_maxDepth]

theorem Record.resolve_maxDepth (r : Record) (env : Environment) :
    (r.resolve env).2.2.maxDepth = env.maxDepth := by
  unfold resolve
  split
  · rfl
  · split
    · rfl
    · dsimp only
      rw [resolveLine_maxDepth]

namespace Program

theorem resolveHeader_maxDepth (origin : Origin) (header : List String) (env : Environment) :
    (resolveHeader origin header env).2.2.maxDepth = env.maxDepth := by
  induction header generalizing env with
  | nil => rfl
  | cons line rest ih =>
    unfold resolveHeader
    dsimp only
    rw [ih, resolveLine_maxDepth]

theorem resolveBody_maxDepth (body : List Record) (env : Environment) :
    (resolveBody body env).2.2.maxDepth = env.maxDepth := by
  induction body generalizing env with
  | nil => rfl
  | cons record rest ih =>
    unfold resolveBody
    dsimp only
    rw [ih, record.resolve_maxDepth]

theorem resolve_maxDepth (p : Program) (env : Environment) :
    (p.resolve env).2.2.maxDepth = env.maxDepth := by
  unfold resolve
  dsimp only
  rw [resolveBody_maxDepth, resolveHeader_maxDepth]

end Program

def OpenProgram.Continues (o o' : OpenProgram) : Prop :=
  ∃ header body outLine, o' = { o with program := { o.program with header, body, outLine } }

theorem OpenProgram.Continues.refl (o : OpenProgram) : o.Continues o := ⟨_, _, _, rfl⟩

theorem OpenProgram.Continues.trans {a b c : OpenProgram} (h : a.Continues b) (h' : b.Continues c) :
    a.Continues c := by
  obtain ⟨_, _, _, rfl⟩ := h
  obtain ⟨header, body, outLine, rfl⟩ := h'
  exact ⟨header, body, outLine, rfl⟩

namespace Preprocessor

def Idle (s : Preprocessor) : Prop := s.current = none → s.switches = []

/-- What every step respects. -/
structure Frame (s s' : Preprocessor) : Prop where
  depth : s'.env.maxDepth = s.env.maxDepth
  log : ∃ ds, s'.log = s.log.addAll ds
  idle : s.Idle → s'.Idle

theorem Frame.trans {a b c : Preprocessor} (h : Frame a b) (h' : Frame b c) : Frame a c := by
  obtain ⟨ds, log⟩ := h.log
  obtain ⟨es, log'⟩ := h'.log
  exact ⟨h'.depth.trans h.depth, ⟨ds ++ es, by rw [log', log, Log.addAll_addAll]⟩, h'.idle ∘ h.idle⟩

theorem Frame.log_eq {a b c : Preprocessor} (h : Frame a b) (h' : Frame b c) (same : c.log = a.log) :
    b.log = a.log ∧ c.log = b.log := by
  obtain ⟨ds, log⟩ := h.log
  obtain ⟨es, log'⟩ := h'.log
  rw [log', log, Log.addAll_addAll, Log.addAll_eq_self_iff, List.append_eq_nil_iff] at same
  obtain ⟨rfl, rfl⟩ := same
  exact ⟨log, log'⟩

/-- Neither bindings nor programs change. -/
structure Quiet (s s' : Preprocessor) : Prop where
  frame : Frame s s'
  env : s'.env = s.env
  current : s'.current = s.current
  rejected : s'.rejected = s.rejected
  programs : s'.programs = s.programs

/-- Bindings may change, and the open program may grow. -/
structure Steady (s s' : Preprocessor) : Prop where
  frame : Frame s s'
  current : Option.Rel OpenProgram.Continues s.current s'.current
  rejected : s'.rejected = s.rejected
  programs : s'.programs = s.programs

theorem continues_refl (current : Option OpenProgram) :
    Option.Rel OpenProgram.Continues current current := by
  cases current with
  | none => exact .none
  | some o => exact .some (.refl o)

theorem continues_trans {a b c : Option OpenProgram} (h : Option.Rel OpenProgram.Continues a b)
    (h' : Option.Rel OpenProgram.Continues b c) : Option.Rel OpenProgram.Continues a c := by
  cases h with
  | none => exact h'
  | some h =>
    cases h' with
    | some h' => exact .some (h.trans h')

namespace Quiet

theorem update (s : Preprocessor) (branches : Branches) (header : Option OpenHeader)
    (globalHeader : List String) (prints : List Print) (lines : Nat) (aborted : Bool) :
    Quiet s { s with branches, header, globalHeader, prints, lines, aborted } :=
  ⟨⟨rfl, ⟨[], rfl⟩, id⟩, rfl, rfl, rfl, rfl⟩

theorem refl (s : Preprocessor) : Quiet s s := update s _ _ _ _ _ _

theorem trans {a b c : Preprocessor} (h : Quiet a b) (h' : Quiet b c) : Quiet a c :=
  ⟨h.frame.trans h'.frame, h'.env.trans h.env, h'.current.trans h.current,
    h'.rejected.trans h.rejected, h'.programs.trans h.programs⟩

theorem steady {s s' : Preprocessor} (h : Quiet s s') : Steady s s' :=
  ⟨h.frame, h.current ▸ continues_refl _, h.rejected, h.programs⟩

theorem addDiagnostic (s : Preprocessor) (d : Diagnostic) : Quiet s (s.addDiagnostic d) :=
  ⟨⟨rfl, ⟨[d], rfl⟩, id⟩, rfl, rfl, rfl, rfl⟩

theorem foldl {α : Type} {f : Preprocessor → α → Preprocessor} (h : ∀ s a, Quiet s (f s a))
    (as : List α) (s : Preprocessor) : Quiet s (as.foldl f s) := by
  induction as generalizing s with
  | nil => exact refl s
  | cons a as ih => exact (h s a).trans (ih _)

theorem reportSwitches (s : Preprocessor) (switches : Switches) :
    Quiet s (s.reportSwitches switches) :=
  foldl (fun s _ => addDiagnostic s _) switches s

theorem reportFailures (s : Preprocessor) (failures : List ResolveFailure) :
    Quiet s (s.reportFailures failures) :=
  foldl (fun s _ => addDiagnostic s _) failures s

theorem reportBranches (s : Preprocessor) (branches : Branches) :
    Quiet s (s.reportBranches branches) :=
  foldl (fun s _ => addDiagnostic s _) branches s

theorem endHeader (s : Preprocessor) (level : Nat) : Quiet s (s.endHeader level) := by
  unfold Preprocessor.endHeader
  split
  · exact refl s
  · split
    · exact (update s _ none _ _ _ _).trans (addDiagnostic _ _)
    · exact refl s

theorem refuse (inclusion : Inclusion) (tree : FileTree) (place : Place) (argument : String)
    (s : Preprocessor) : Quiet s (Traversal.refuse inclusion tree place argument s) := by
  have unreadable (path : String) (fault : FileFault) :
      Quiet s (s.reportUnreadable place path fault) := by
    unfold reportUnreadable
    dsimp only
    split <;> exact addDiagnostic s _
  unfold Traversal.refuse includeFile
  by_cases deep : inclusion.maxDepth < place.level
  · simp only [deep, if_true]
    split <;> exact addDiagnostic s _
  · simp only [deep, if_false, readFile]
    split
    · exact addDiagnostic s _
    · split
      · exact refl s
      · exact unreadable _ _

end Quiet

namespace Steady

theorem refl (s : Preprocessor) : Steady s s := (Quiet.refl s).steady

theorem trans {a b c : Preprocessor} (h : Steady a b) (h' : Steady b c) : Steady a c :=
  ⟨h.frame.trans h'.frame, continues_trans h.current h'.current, h'.rejected.trans h.rejected,
    h'.programs.trans h.programs⟩

theorem exists_current {s s' : Preprocessor} (h : Steady s s') {o' : OpenProgram}
    (current : s'.current = some o') : ∃ o, s.current = some o ∧ o.Continues o' := by
  have rel := h.current
  rw [current] at rel
  generalize s.current = before at rel
  cases rel with
  | some continues => exact ⟨_, rfl, continues⟩

theorem current_eq_none {s s' : Preprocessor} (h : Steady s s') (vacant : s.current = none) :
    s'.current = none := by
  rw [Option.eq_none_iff_forall_ne_some]
  intro o' current
  obtain ⟨o, before, -⟩ := h.exists_current current
  simp [vacant] at before

theorem addDiagnostic (s : Preprocessor) (d : Diagnostic) : Steady s (s.addDiagnostic d) :=
  (Quiet.addDiagnostic s d).steady

theorem update (s : Preprocessor) (branches : Branches) (header : Option OpenHeader)
    (globalHeader : List String) (prints : List Print) (lines : Nat) (aborted : Bool) :
    Steady s { s with branches, header, globalHeader, prints, lines, aborted } :=
  (Quiet.update s branches header globalHeader prints lines aborted).steady

theorem withEnv (s : Preprocessor) {env : Environment} (depth : env.maxDepth = s.env.maxDepth) :
    Steady s { s with env } :=
  ⟨⟨depth, ⟨[], rfl⟩, id⟩, continues_refl _, rfl, rfl⟩

theorem withProgram (s : Preprocessor) {f : Program → Program}
    (h : ∀ p, ∃ header body outLine, f p = { p with header, body, outLine }) :
    Steady s (s.withProgram f) := by
  refine ⟨⟨rfl, ⟨[], rfl⟩, fun idle none => idle (by simpa [Preprocessor.withProgram] using none)⟩,
    ?_, rfl, rfl⟩
  cases current : s.current with
  | none => simp only [Preprocessor.withProgram, current, Option.map_none, Option.Rel.none]
  | some o =>
    obtain ⟨header, body, outLine, eq⟩ := h o.program
    simp only [Preprocessor.withProgram, current, Option.map_some]
    exact .some ⟨header, body, outLine, by rw [eq]⟩

theorem append (s : Preprocessor) (origin : Origin) (text comment : Option String) :
    Steady s (s.withProgram (·.append origin text comment)) :=
  withProgram s fun _ => ⟨_, _, _, rfl⟩

theorem withSwitches {s : Preprocessor} {o : OpenProgram} (current : s.current = some o)
    (switches : Switches) : Steady s { s with switches } :=
  ⟨⟨rfl, ⟨[], rfl⟩, fun _ none => by simp [current] at none⟩, continues_refl _, rfl, rfl⟩

variable (s : Preprocessor) (place : Place)

theorem reportFault (p : Problem) (fault : Fault) : Steady s (s.reportFault place p fault) :=
  addDiagnostic s _

theorem eval (expr : String) : Steady s (s.eval expr).2 := withEnv s (s.env.eval_maxDepth expr)

theorem openIf (expr : String) : Steady s (s.openIf place expr) := by
  have reported : Steady s
      (if s.branches.isActive && expr.isEmpty then s.report place .ifWithoutExpression else s) := by
    split
    · exact addDiagnostic s _
    · exact refl s
  unfold Preprocessor.openIf
  refine reported.trans ?_
  generalize (if s.branches.isActive && expr.isEmpty then s.report place .ifWithoutExpression
    else s) = s
  extract_lets _ condition
  have depth : ∀ env, (condition env).2.maxDepth = env.maxDepth := by
    intro env
    have eval := env.eval_maxDepth expr
    unfold condition
    split
    · rfl
    · split <;> rename_i h <;> rw [h] at eval <;> exact eval
  have kept := s.branches.openIf_maxDepth place.origin depth s.env
  exact (withEnv s kept).trans (update _ _ _ _ _ _ _)

theorem flipElse : Steady s (s.flipElse place) := by
  unfold Preprocessor.flipElse
  split
  · exact update _ _ _ _ _ _ _
  · exact addDiagnostic s _

theorem closeIf : Steady s (s.closeIf place) := by
  unfold Preprocessor.closeIf
  split
  · exact update _ _ _ _ _ _ _
  · exact addDiagnostic s _

theorem closeHeader : Steady s (s.closeHeader place) := by
  unfold Preprocessor.closeHeader
  split
  · exact update _ _ _ _ _ _ _
  · exact addDiagnostic s _

theorem captureHeader (line : String) : Steady s (s.captureHeader line) := by
  unfold Preprocessor.captureHeader
  split
  · exact refl s
  · exact withProgram s fun _ => ⟨_, _, _, rfl⟩
  · exact update _ _ _ _ _ _ _

theorem print (expr : String) : Steady s (s.print place expr) :=
  (eval s expr).trans (update _ _ _ _ _ _ _)

theorem stop (reason : String) : Steady s (s.stop place reason) :=
  (addDiagnostic s _).trans (update _ _ _ _ _ _ _)

theorem evalStatement (expr : String) : Steady s (s.evalStatement place expr) := by
  have evaluated := eval s expr
  unfold Preprocessor.evalStatement
  split <;> rename_i h <;> rw [h] at evaluated
  · exact evaluated
  · exact evaluated.trans (reportFault _ place _ _)

theorem define (assignment : String) : Steady s (s.define place assignment) := by
  have depth := s.env.define_maxDepth assignment
  unfold Preprocessor.define
  split
  · exact addDiagnostic s _
  · split <;> rename_i h <;> rw [h] at depth
    · exact withEnv s depth
    · exact (withEnv s depth).trans (reportFault _ place _ _)

theorem comment (text : String) : Steady s (s.comment place text) := by
  unfold Preprocessor.comment
  split
  · exact append s _ _ _
  · exact refl s

theorem delay (expr : String) : Steady s (s.delay place expr) := by
  have evaluated := eval s expr
  unfold Preprocessor.delay
  split <;> rename_i h <;> rw [h] at evaluated
  · exact evaluated.trans (append _ _ _ _)
  · exact evaluated.trans (reportFault _ place _ _)

theorem bindLabel (e : Emission) (outLine : Nat) : Steady s (s.bindLabel place e outLine) := by
  unfold Preprocessor.bindLabel
  split
  · exact refl s
  · split
    · exact withEnv s rfl
    · split
      · exact addDiagnostic s _
      · exact refl s

theorem emit (e : Emission) : Steady s (s.emit place e) := by
  unfold Preprocessor.emit
  split
  · split
    · exact refl s
    · exact addDiagnostic s _
  · exact (bindLabel s place e _).trans (append _ _ _ _)

theorem openSwitch (subject : String) : Steady s (s.openSwitch place subject) := by
  have reported : Steady s
      (if subject.isEmpty then s.report place .switchWithoutExpression else s) := by
    split
    · exact addDiagnostic s _
    · exact refl s
  unfold Preprocessor.openSwitch
  refine reported.trans ?_
  generalize (if subject.isEmpty then s.report place .switchWithoutExpression else s) = s
  dsimp only
  split
  · exact refl s
  · rename_i opened current
    exact withSwitches current _

theorem outsideLine (line : Line) : Steady s (s.outsideLine place line) := by
  unfold Preprocessor.outsideLine
  split
  · exact addDiagnostic s _
  · exact refl s
  · exact addDiagnostic s _

theorem leaveCase : Steady s (s.leaveCase place) := by
  unfold Preprocessor.leaveCase
  split
  · exact addDiagnostic s _
  · exact emit _ _ _

section Switches

variable {s} {o : OpenProgram} (current : s.current = some o)

include current

theorem addCase (value : String) : Steady s (s.addCase place value) := by
  unfold Preprocessor.addCase
  split
  · exact addDiagnostic s _
  · split
    · exact addDiagnostic s _
    · exact (withSwitches current _).trans (emit _ _ _)

theorem addDefault : Steady s (s.addDefault place) := by
  unfold Preprocessor.addDefault
  split
  · exact addDiagnostic s _
  · split
    · exact (withSwitches current _).trans (emit _ _ _)
    · exact addDiagnostic s _

theorem closeSwitch : Steady s (s.closeSwitch place) := by
  unfold Preprocessor.closeSwitch
  split
  · exact addDiagnostic s _
  · exact ((withSwitches current _).trans (withProgram _ fun _ => ⟨_, _, _, rfl⟩)).trans (emit _ _ _)

end Switches

end Steady

end Preprocessor

end GcodePrep
