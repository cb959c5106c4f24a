import GcodePrep.Proofs.SteadySteps

set_option autoImplicit false

/-!
# What a step can do

Most steps leave the open program open and the catalogue alone. The others open a program, refuse one,
complete one, give one up, or leave a refused one. `Effect` says what each of these does to bindings,
programs and log; everything about whole runs is derived from it.
-/

namespace GcodePrep

namespace Preprocessor

def IsProgramName (name : String) : Prop :=
  name ≠ "" ∧ ∀ c ∈ name.toList, Text.isWordChar c = true

/-- No program is open, neither an accepted one nor a refused one. -/
def Outside (s : Preprocessor) : Prop := s.current = none ∧ s.rejected = none

instance (s : Preprocessor) : Decidable s.Outside :=
  inferInstanceAs (Decidable (s.current = none ∧ s.rejected = none))

def Exclusive (s : Preprocessor) : Prop := s.current = none ∨ s.rejected = none

/-- What a step does with programs. -/
inductive Effect (s s' : Preprocessor) : Prop where
  | steady (h : Steady s s')
  /-- A program is opened; it remembers the bindings and shares its name with a completed one only if
  that is reported. -/
  | opens (frame : Frame s s') (outside : s.Outside) (opened : OpenProgram)
      (current : s'.current = some opened) (rejected : s'.rejected = none)
      (programs : s'.programs = s.programs) (saved : opened.program.saved = some s.env.bindings)
      (named : IsProgramName opened.program.name)
      (fresh : s'.log = s.log → s.programs.get? opened.program.name = none)
      (number : 0 < opened.program.number.toInt) (unfinished : opened.program.done = false)
  /-- A program is refused; the bindings are remembered all the same. -/
  | refuses (frame : Frame s s') (outside : s.Outside) (refused : RejectedProgram)
      (current : s'.current = none) (rejected : s'.rejected = some refused)
      (programs : s'.programs = s.programs) (saved : refused.saved = s.env.bindings)
  /-- The open program is completed. -/
  | completes (frame : Frame s s') (opened : OpenProgram) (program : Program)
      (before : s.current = some opened) (accepted : s.rejected = none) (outside : s'.Outside)
      (programs : s'.programs = (s.programs.insert program).2)
      (name : program.name = opened.program.name) (done : program.done = true)
      (restored : ∀ saved, opened.program.saved = some saved → s'.env.bindings = saved)
      (origin : program.origin = opened.program.origin)
      (number : program.number = opened.program.number) (unsaved : program.saved = none)
  /-- The open program is given up. -/
  | abandons (frame : Frame s s') (opened : OpenProgram) (before : s.current = some opened)
      (accepted : s.rejected = none) (outside : s'.Outside) (programs : s'.programs = s.programs)
      (restored : ∀ saved, opened.program.saved = some saved → s'.env.bindings = saved)
  /-- The refused program ends. -/
  | leaves (frame : Frame s s') (refused : RejectedProgram) (before : s.rejected = some refused)
      (unopened : s.current = none) (outside : s'.Outside) (programs : s'.programs = s.programs)
      (restored : s'.env.bindings = refused.saved)

namespace Effect

variable {s s' s'' : Preprocessor}

theorem frame (h : Effect s s') : Frame s s' := by
  cases h with
  | steady h => exact h.frame
  | opens frame | refuses frame | completes frame | abandons frame | leaves frame => exact frame

theorem exclusive (h : Effect s s') (exclusive : s.Exclusive) : s'.Exclusive := by
  cases h with
  | steady h =>
    rcases exclusive with unopened | accepted
    · exact .inl (h.current_eq_none unopened)
    · exact .inr (h.rejected.trans accepted)
  | opens _ _ _ _ accepted => exact .inr accepted
  | refuses _ _ _ unopened => exact .inl unopened
  | completes _ _ _ _ _ outside | abandons _ _ _ _ outside | leaves _ _ _ _ outside =>
    exact .inl outside.1

theorem after_quiet (q : Quiet s s') (h : Effect s' s'') : Effect s s'' := by
  have frame := q.frame.trans h.frame
  cases h with
  | steady h => exact .steady (q.steady.trans h)
  | opens frame' outside opened current rejected programs saved named fresh number unfinished =>
    exact .opens frame ⟨q.current ▸ outside.1, q.rejected ▸ outside.2⟩ opened current rejected
      (programs.trans q.programs) (q.env ▸ saved) named
      (fun same => q.programs ▸ fresh (q.frame.log_eq frame' same).2) number unfinished
  | refuses _ outside refused current rejected programs saved =>
    exact .refuses frame ⟨q.current ▸ outside.1, q.rejected ▸ outside.2⟩ refused current rejected
      (programs.trans q.programs) (q.env ▸ saved)
  | completes _ opened program before accepted outside programs name done restored origin number
      unsaved =>
    exact .completes frame opened program (q.current ▸ before) (q.rejected ▸ accepted) outside
      (q.programs ▸ programs) name done restored origin number unsaved
  | abandons _ opened before accepted outside programs restored =>
    exact .abandons frame opened (q.current ▸ before) (q.rejected ▸ accepted) outside
      (programs.trans q.programs) restored
  | leaves _ refused before unopened outside programs restored =>
    exact .leaves frame refused (q.rejected ▸ before) (q.current ▸ unopened) outside
      (programs.trans q.programs) restored

theorem before_quiet (h : Effect s s') (q : Quiet s' s'') : Effect s s'' := by
  have frame := h.frame.trans q.frame
  cases h with
  | steady h => exact .steady (h.trans q.steady)
  | opens frame' outside opened current rejected programs saved named fresh number unfinished =>
    exact .opens frame outside opened (q.current.trans current) (q.rejected.trans rejected)
      (q.programs.trans programs) saved named (fun same => fresh (frame'.log_eq q.frame same).1)
      number unfinished
  | refuses _ outside refused current rejected programs saved =>
    exact .refuses frame outside refused (q.current.trans current) (q.rejected.trans rejected)
      (q.programs.trans programs) saved
  | completes _ opened program before accepted outside programs name done restored origin number
      unsaved =>
    exact .completes frame opened program before accepted
      ⟨q.current.trans outside.1, q.rejected.trans outside.2⟩ (q.programs.trans programs) name done
      (fun saved h => q.env ▸ restored saved h) origin number unsaved
  | abandons _ opened before accepted outside programs restored =>
    exact .abandons frame opened before accepted ⟨q.current.trans outside.1, q.rejected.trans outside.2⟩
      (q.programs.trans programs) fun saved h => q.env ▸ restored saved h
  | leaves _ refused before unopened outside programs restored =>
    exact .leaves frame refused before unopened
      ⟨q.current.trans outside.1, q.rejected.trans outside.2⟩ (q.programs.trans programs)
      (q.env ▸ restored)

end Effect

theorem isProgramName_leadingWord {argument : String}
    (given : (Text.leadingWord argument).isEmpty = false) :
    IsProgramName (Text.leadingWord argument) := by
  refine ⟨by simpa using given, fun c mem => ?_⟩
  rw [Text.leadingWord, String.toList_ofList] at mem
  exact List.all_eq_true.mp List.all_takeWhile c mem

theorem Quiet.warnOverwriting (s : Preprocessor) (place : Place) (name : String) :
    Quiet s (s.warnOverwriting place name) := by
  unfold Preprocessor.warnOverwriting
  split
  · exact refl s
  · exact addDiagnostic s _

theorem get?_eq_none_of_unwarned {s : Preprocessor} {place : Place} {name : String}
    (unwarned : (s.warnOverwriting place name).log = s.log) : s.programs.get? name = none := by
  unfold warnOverwriting at unwarned
  split at unwarned
  · assumption
  · exact absurd ((Log.addAll_eq_self_iff s.log [_]).mp unwarned) (by simp)

theorem programNumber_pos {env : Environment} {name : String} {number : Int64}
    (granted : programNumber env name = .ok number) : 0 < number.toInt := by
  unfold programNumber at granted
  split at granted
  · cases granted
  · split at granted
    · cases granted
    · split at granted
      · cases granted
      · rename_i n positive
        cases granted
        omega

theorem effect_openProgram (s : Preprocessor) (place : Place) (argument : String) :
    Effect s (s.openProgram place argument) := by
  unfold openProgram
  dsimp only
  split
  · exact .steady (.addDiagnostic s _)
  · rename_i given
    split
    · exact .steady (.addDiagnostic s _)
    · rename_i outside
      simp only [enclosing?, Option.or_eq_none_iff, Option.map_eq_none_iff] at outside
      split
      · exact .refuses ⟨rfl, ⟨[_], rfl⟩, id⟩ outside _ outside.1 rfl rfl rfl
      · rename_i number granted
        have warned := Quiet.warnOverwriting s place (Text.leadingWord argument)
        exact .opens ⟨warned.frame.depth, warned.frame.log, nofun⟩ outside _ rfl
          (warned.rejected.trans outside.2) warned.programs rfl
          (isProgramName_leadingWord (by simpa using given)) get?_eq_none_of_unwarned
          (programNumber_pos granted) rfl

theorem closeProgram_eq {s : Preprocessor} {opened : OpenProgram} (current : s.current = some opened)
    (place : Place) :
    let t := { s with current := none, switches := [] }.reportSwitches s.switches
    let resolved := opened.program.resolve t.env
    let u := { t with env := resolved.2.2 }.reportFailures resolved.2.1
    let v := u.restoreSaved opened.program.saved
    s.closeProgram place = { v with
      programs := (v.programs.insert { resolved.1 with saved := none, done := true }).2 } := by
  unfold closeProgram
  rw [current]
  rfl

theorem Steady.restoreSaved (s : Preprocessor) (saved : Option Bindings) :
    Steady s (s.restoreSaved saved) := by
  cases saved with
  | none => exact refl s
  | some saved => exact withEnv s rfl

theorem effect_closeProgram {s : Preprocessor} (accepted : s.rejected = none) (place : Place) :
    Effect s (s.closeProgram place) := by
  cases current : s.current with
  | none =>
    unfold closeProgram
    rw [current]
    exact .steady (.addDiagnostic s _)
  | some opened =>
    have eq := closeProgram_eq current place
    -- All that follows the removal of the program from the state is steady, up to the catalogue.
    have reported := Quiet.reportSwitches { s with current := none, switches := [] } s.switches
    generalize { s with current := none, switches := [] }.reportSwitches s.switches = t at eq reported
    have resolved := Steady.withEnv t (opened.program.resolve_maxDepth t.env)
    have failed := Quiet.reportFailures { t with env := (opened.program.resolve t.env).2.2 }
      (opened.program.resolve t.env).2.1
    have restored := Steady.restoreSaved ({ t with env := (opened.program.resolve t.env).2.2 }.reportFailures
      (opened.program.resolve t.env).2.1) opened.program.saved
    have whole := ((reported.steady.trans resolved).trans failed.steady).trans restored
    rw [eq]
    refine .completes ⟨whole.frame.depth, whole.frame.log, fun _ => whole.frame.idle fun _ => rfl⟩ opened
      { (opened.program.resolve t.env).1 with saved := none, done := true } current accepted
      ⟨whole.current_eq_none rfl, whole.rejected.trans accepted⟩ ?_ rfl rfl ?_ rfl rfl rfl
    · rw [whole.programs]
    · intro saved h
      rw [h]
      rfl

theorem effect_closeRejected {s : Preprocessor} (unopened : s.current = none) :
    Effect s s.closeRejected := by
  unfold closeRejected
  split
  · exact .steady (.refl s)
  · rename_i refused rejected
    exact .leaves ⟨rfl, ⟨[], rfl⟩, id⟩ refused rejected unopened ⟨unopened, rfl⟩ rfl rfl

theorem effect_programLine {s : Preprocessor} {opened : OpenProgram} (current : s.current = some opened)
    (accepted : s.rejected = none) (place : Place) (text : String) (line : Line) :
    Effect s (s.programLine place text line) := by
  unfold programLine
  split
  · exact effect_closeProgram accepted place
  · exact .steady (.openSwitch s place _)
  · exact .steady (.delay s place _)
  · exact .steady (.addCase place current _)
  · exact .steady (.addDefault place current)
  · exact .steady (.leaveCase s place)
  · exact .steady (.closeSwitch place current)
  · exact .steady (.emit s place _)

theorem effect_otherLine {s : Preprocessor} (exclusive : s.Exclusive) (place : Place) (text : String)
    (line : Line) : Effect s (s.otherLine place text line) := by
  unfold otherLine
  split
  · rename_i rejected
    have unopened : s.current = none := exclusive.resolve_right (by simp [rejected])
    split
    · exact effect_closeRejected unopened
    · exact .steady (.refl s)
  · exact .steady (.outsideLine s place line)
  · rename_i accepted current
    exact effect_programLine current accepted place text line

section Line

variable (includer : Includer) {s : Preprocessor} (exclusive : s.Exclusive) (place : Place)
  (included : ∀ argument, Effect s (includer place argument s)) (text : String)

include exclusive included

theorem effect_visibleLine (line : Line) : Effect s (visibleLine includer s place text line) := by
  unfold visibleLine
  split
  · exact .steady (.print s place _)
  · exact .steady (.stop s place _)
  · exact .steady (.update s _ _ _ _ _ _)
  · exact effect_openProgram s place _
  · exact included _
  · exact .steady (.evalStatement s place _)
  · exact .steady (.define s place _)
  · exact effect_otherLine exclusive place text _

theorem effect_headedLine (line : Line) : Effect s (headedLine includer s place text line) := by
  unfold headedLine
  split
  · exact .steady (.captureHeader s text)
  · split
    · exact .steady (.openIf s place _)
    · exact .steady (.flipElse s place)
    · exact .steady (.closeIf s place)
    · split
      · exact effect_visibleLine includer exclusive place included text _
      · exact .steady (.refl s)

theorem effect_processLine : Effect s (processLine includer place text s) := by
  unfold processLine
  split
  · exact .steady (.refl s)
  · exact .steady (.comment s place _)
  · split
    · exact .steady (.closeHeader s place)
    · exact .steady (.refl s)
  · exact effect_headedLine includer exclusive place included text _

end Line

theorem effect_endProgram {s : Preprocessor} (accepted : s.rejected = none) (level : Nat) :
    Effect s (s.endProgram level).1 := by
  unfold endProgram
  split
  · exact .steady (.refl s)
  · rename_i opened current
    split
    · have restored := Steady.restoreSaved { s with current := none, switches := [] } opened.program.saved
      have whole := restored.trans (.addDiagnostic _ ((Problem.unterminatedProgram opened.program.name).atOrigin
        opened.program.origin))
      refine .abandons ⟨whole.frame.depth, whole.frame.log, fun _ => whole.frame.idle fun _ => rfl⟩ opened
        current accepted ⟨whole.current_eq_none rfl, whole.rejected.trans accepted⟩ whole.programs ?_
      intro saved h
      simp only [Program.abandon, h]
      rfl
    · exact .steady (.refl s)

theorem effect_endRejected {s : Preprocessor} (unopened : s.current = none) (level : Nat) :
    Effect s (s.endRejected level) := by
  unfold endRejected
  split
  · exact .steady (.refl s)
  · split
    · exact effect_closeRejected unopened
    · exact .steady (.refl s)

theorem Quiet.keepSwitches (s : Preprocessor) (level : Nat) :
    Quiet s { s with switches := (s.switches.splitFromLevel level).2 } := by
  refine ⟨⟨rfl, ⟨[], rfl⟩, fun idle vacant => ?_⟩, rfl, rfl, rfl, rfl⟩
  simp [Switches.splitFromLevel, idle vacant]

theorem endProgram_rejected (s : Preprocessor) (level : Nat) :
    (s.endProgram level).1.rejected = s.rejected := by
  unfold endProgram
  split
  · rfl
  · split
    · exact (Steady.restoreSaved { s with current := none, switches := [] } _).rejected
    · rfl

theorem effect_endFile {s : Preprocessor} (exclusive : s.Exclusive) (level : Nat) :
    Effect s (s.endFile level) := by
  have closed : Quiet s (({ s with branches := [] }.reportBranches s.branches).endHeader level) :=
    ((Quiet.update s [] _ _ _ _ _).trans (.reportBranches _ _)).trans (.endHeader _ level)
  unfold endFile
  dsimp only
  generalize ({ s with branches := [] }.reportBranches s.branches).endHeader level = t at closed ⊢
  have kept := closed.trans (.keepSwitches t level)
  generalize (t.switches.splitFromLevel level).1 = inner
  generalize { t with switches := (t.switches.splitFromLevel level).2 } = u at kept ⊢
  rcases exclusive with unopened | accepted
  · have unopened' : u.current = none := kept.current.trans unopened
    have nothing : u.endProgram level = (u, []) := by simp [endProgram, unopened']
    rw [nothing]
    have reported := Quiet.reportSwitches u (inner ++ [])
    exact .after_quiet (kept.trans reported) (effect_endRejected (reported.current.trans unopened') level)
  · have accepted' : u.rejected = none := kept.rejected.trans accepted
    have reported := Quiet.reportSwitches (u.endProgram level).1 (inner ++ (u.endProgram level).2)
    have effect := (effect_endProgram accepted' level).before_quiet reported
    have outside := (reported.rejected.trans (endProgram_rejected u level)).trans accepted'
    rw [endRejected, outside]
    exact .after_quiet kept effect

end Preprocessor

namespace Traversal

open Preprocessor

variable {inclusion : Inclusion} {tree : FileTree}

theorem effect_readLine (files : List OpenFile) (line : String) {s : Preprocessor}
    (exclusive : s.Exclusive) : Effect s (readLine inclusion tree files line s).state := by
  have refused (argument : String) :
      Effect s (refuse inclusion tree (files.map OpenFile.frame) argument s) :=
    .steady (Quiet.refuse inclusion tree _ argument s).steady
  unfold readLine
  cases includeArgument? line s with
  | none => exact effect_processLine (refuse inclusion tree) exclusive _ refused line
  | some argument =>
    dsimp only
    cases included? inclusion tree (files.map OpenFile.frame) argument with
    | none =>
      dsimp only
      exact refused argument
    | some source => exact .steady (.update s [] _ _ _ _ _)

theorem effect_leaveFile (saved : Branches) (outer : List OpenFile) {s : Preprocessor}
    (exclusive : s.Exclusive) : Effect s (leaveFile saved outer s).state := by
  unfold leaveFile
  dsimp only
  split
  · exact .steady (.update s _ _ _ _ _ _)
  · exact (effect_endFile exclusive _).before_quiet (.update _ _ _ _ _ _ _)

theorem Step.effect {t t' : Traversal} (h : Step inclusion tree t t') (exclusive : t.state.Exclusive) :
    Effect t.state t'.state := by
  obtain ⟨files, s⟩ := t
  cases files with
  | nil => cases h
  | cons file outer =>
    simp only [Step, next?, Option.some.injEq] at h
    subst h
    split
    · exact effect_leaveFile _ outer exclusive
    · split
      · exact effect_leaveFile _ outer exclusive
      · exact .after_quiet (.update s _ _ _ _ _ _) (effect_readLine _ _ exclusive)

theorem Runs.exclusive {t t' : Traversal} (run : Runs inclusion tree t t')
    (exclusive : t.state.Exclusive) : t'.state.Exclusive := by
  induction run with
  | refl => exact exclusive
  | tail _ step ih => exact (step.effect ih).exclusive ih

theorem Runs.frame {t t' : Traversal} (run : Runs inclusion tree t t') (exclusive : t.state.Exclusive) :
    Frame t.state t'.state := by
  induction run with
  | refl => exact (Quiet.refl _).frame
  | tail run step ih => exact ih.trans (step.effect (Runs.exclusive run exclusive)).frame

theorem Reached.exclusive {env : Environment} {t : Traversal} (h : Reached inclusion tree env t) :
    t.state.Exclusive := by
  induction h with
  | fresh => exact .inl rfl
  | enter _ _ ih => exact ih
  | unreadable _ _ _ ih => exact ih
  | step _ next ih => exact (next.effect ih).exclusive ih

theorem Reached.idle {env : Environment} {t : Traversal} (h : Reached inclusion tree env t) :
    t.state.Idle := by
  induction h with
  | fresh => exact fun _ => rfl
  | enter _ _ ih => exact ih
  | unreadable _ _ _ ih => exact ih
  | step h next ih => exact (next.effect h.exclusive).frame.idle ih

end Traversal

end GcodePrep
