import GcodePrep.Proofs.Traversal

set_option autoImplicit false

/-!
# Open blocks

Conditionals, headers, programs and switches are blocks: a line opens them, and a line or the end of
their file closes them. The skeleton of a state keeps of every open block where it begins and how many
files were open there. A line changes the skeleton by at most one move, so what the moves respect holds
of all lines: blocks are nested in the files in which they were opened.
-/

namespace GcodePrep

/-- Where a block begins, and how many files were open there. -/
structure Site where
  origin : Origin
  level : Nat
  deriving DecidableEq, Repr

/-- What is open. The conditionals are those of the innermost file. -/
structure Skeleton where
  conditionals : List Origin
  header : Option Site
  accepted : Option Site
  refused : Option Site
  switches : List Site
  deriving DecidableEq, Repr

namespace Skeleton

inductive Move (here : Site) (line : Line) (b : Skeleton) : Skeleton → Prop where
  | stay : Move here line b b
  | openIf (argument : String) (reads : line = .directive .if_ argument) :
      Move here line b { b with conditionals := here.origin :: b.conditionals }
  | closeIf : Move here line b { b with conditionals := b.conditionals.tail }
  | openHeader (argument : String) (reads : line = .directive .header argument) :
      Move here line b { b with header := some here }
  | closeHeader : Move here line b { b with header := none }
  | openProgram (argument : String) (reads : line = .directive .program argument)
      (outside : b.accepted = none) : Move here line b { b with accepted := some here }
  | refuseProgram (argument : String) (reads : line = .directive .program argument) :
      Move here line b { b with refused := some here }
  | closeProgram : Move here line b { b with accepted := none, switches := [] }
  | leaveRefused : Move here line b { b with refused := none }
  | openSwitch (argument : String) (reads : line = .directive .switch argument)
      (inside : b.accepted ≠ none) : Move here line b { b with switches := here :: b.switches }
  | closeSwitch : Move here line b { b with switches := b.switches.tail }

end Skeleton

def OpenHeader.site (h : OpenHeader) : Site := ⟨h.origin, h.fileLevel⟩

def OpenProgram.site (o : OpenProgram) : Site := ⟨o.program.origin, o.fileLevel⟩

def RejectedProgram.site (r : RejectedProgram) : Site := ⟨r.origin, r.fileLevel⟩

def Switch.site (sw : Switch) : Site := ⟨sw.origin, sw.fileLevel⟩

def Place.site (place : Place) : Site := ⟨place.origin, place.level⟩

namespace Preprocessor

open Skeleton

def skeleton (s : Preprocessor) : Skeleton where
  conditionals := s.branches.map Branch.origin
  header := s.header.map OpenHeader.site
  accepted := s.current.map OpenProgram.site
  refused := s.rejected.map RejectedProgram.site
  switches := s.switches.map Switch.site

theorem skeleton_addDiagnostic (s : Preprocessor) (d : Diagnostic) :
    (s.addDiagnostic d).skeleton = s.skeleton :=
  rfl

theorem skeleton_foldl {α : Type} {f : Preprocessor → α → Preprocessor}
    (h : ∀ s a, (f s a).skeleton = s.skeleton) (as : List α) (s : Preprocessor) :
    (as.foldl f s).skeleton = s.skeleton := by
  induction as generalizing s with
  | nil => rfl
  | cons a as ih => rw [List.foldl_cons, ih, h]

theorem skeleton_withProgram (s : Preprocessor) {f : Program → Program}
    (h : ∀ p, (f p).origin = p.origin) : (s.withProgram f).skeleton = s.skeleton := by
  unfold skeleton withProgram
  cases current : s.current with
  | none => rfl
  | some o => simp [OpenProgram.site, h]

theorem skeleton_append (s : Preprocessor) (origin : Origin) (text comment : Option String) :
    (s.withProgram (·.append origin text comment)).skeleton = s.skeleton :=
  skeleton_withProgram s fun _ => rfl

theorem skeleton_insertLines (s : Preprocessor) (index : Nat) (origin : Origin) (outLine : Nat)
    (lines : List String) :
    (s.withProgram (·.insertLines index origin outLine lines)).skeleton = s.skeleton :=
  skeleton_withProgram s fun _ => rfl

section Still

variable (s : Preprocessor) (place : Place)

theorem skeleton_reportSwitches (switches : Switches) :
    (s.reportSwitches switches).skeleton = s.skeleton :=
  skeleton_foldl (fun s _ => skeleton_addDiagnostic s _) switches s

theorem skeleton_reportFailures (failures : List ResolveFailure) :
    (s.reportFailures failures).skeleton = s.skeleton :=
  skeleton_foldl (fun s _ => skeleton_addDiagnostic s _) failures s

theorem skeleton_restoreSaved (saved : Option Bindings) :
    (s.restoreSaved saved).skeleton = s.skeleton := by
  cases saved <;> rfl

theorem skeleton_warnOverwriting (name : String) :
    (s.warnOverwriting place name).skeleton = s.skeleton := by
  unfold warnOverwriting
  split <;> rfl

theorem skeleton_flipElse : (s.flipElse place).skeleton = s.skeleton := by
  unfold flipElse
  cases branches : s.branches with
  | nil => rfl
  | cons branch outer => simp [Branches.flipElse?, skeleton, branches]

theorem skeleton_captureHeader (line : String) : (s.captureHeader line).skeleton = s.skeleton := by
  unfold captureHeader
  split
  · rfl
  · exact skeleton_withProgram s fun _ => rfl
  · rfl

theorem skeleton_evalStatement (expr : String) :
    (s.evalStatement place expr).skeleton = s.skeleton := by
  have evaluated : (s.eval expr).2.skeleton = s.skeleton := rfl
  unfold evalStatement
  split <;> rename_i h <;> rw [h] at evaluated <;> exact evaluated

theorem skeleton_define (assignment : String) : (s.define place assignment).skeleton = s.skeleton := by
  unfold define
  split
  · rfl
  · split <;> rfl

theorem skeleton_comment (text : String) : (s.comment place text).skeleton = s.skeleton := by
  unfold comment
  split
  · exact skeleton_withProgram s fun _ => rfl
  · rfl

theorem skeleton_delay (expr : String) : (s.delay place expr).skeleton = s.skeleton := by
  have evaluated : (s.eval expr).2.skeleton = s.skeleton := rfl
  unfold delay
  split <;> rename_i h <;> rw [h] at evaluated
  · exact (skeleton_append _ _ _ _).trans evaluated
  · exact evaluated

theorem skeleton_bindLabel (e : Emission) (outLine : Nat) :
    (s.bindLabel place e outLine).skeleton = s.skeleton := by
  unfold bindLabel
  split
  · rfl
  · split
    · rfl
    · split <;> rfl

theorem skeleton_emit (e : Emission) : (s.emit place e).skeleton = s.skeleton := by
  unfold emit
  split
  · split <;> rfl
  · exact (skeleton_append _ _ _ _).trans (skeleton_bindLabel s place e _)

theorem skeleton_outsideLine (line : Line) : (s.outsideLine place line).skeleton = s.skeleton := by
  unfold outsideLine
  split <;> rfl

theorem skeleton_leaveCase : (s.leaveCase place).skeleton = s.skeleton := by
  unfold leaveCase
  split
  · rfl
  · exact skeleton_emit _ _ _

theorem skeleton_addCase (value : String) : (s.addCase place value).skeleton = s.skeleton := by
  unfold addCase
  split
  · rfl
  · rename_i switches
    split
    · rfl
    · rw [skeleton_emit]
      simp [skeleton, switches, Switch.addCase, Switch.site]

theorem skeleton_addDefault : (s.addDefault place).skeleton = s.skeleton := by
  unfold addDefault
  split
  · rfl
  · rename_i sw outer switches
    unfold Switch.addDefault
    cases sw.defaultOrigin with
    | some first => rfl
    | none =>
      dsimp only
      rw [skeleton_emit]
      simp [skeleton, switches, Switch.site]

end Still

section Moves

variable (s : Preprocessor) (place : Place) {line : Line}

theorem move_of_eq {s' : Preprocessor} (same : s'.skeleton = s.skeleton) :
    Move place.site line s.skeleton s'.skeleton :=
  same ▸ .stay

theorem move_openIf {expr : String} (reads : line = .directive .if_ expr) :
    Move place.site line s.skeleton (s.openIf place expr).skeleton := by
  have opened : (s.openIf place expr).skeleton =
      { s.skeleton with conditionals := place.origin :: s.skeleton.conditionals } := by
    unfold openIf
    cases active : s.branches.isActive <;> cases given : expr.isEmpty <;>
      simp [Branches.openIf, active, skeleton, report, addDiagnostic]
  rw [opened]
  exact .openIf expr reads

theorem move_closeIf : Move place.site line s.skeleton (s.closeIf place).skeleton := by
  unfold closeIf
  cases branches : s.branches with
  | nil => exact .stay
  | cons branch outer =>
    have closed : { s with branches := outer }.skeleton =
        { s.skeleton with conditionals := s.skeleton.conditionals.tail } := by
      simp [skeleton, branches]
    exact closed ▸ .closeIf

theorem move_closeHeader : Move place.site line s.skeleton (s.closeHeader place).skeleton := by
  unfold closeHeader
  split
  · exact .closeHeader
  · exact .stay

theorem move_openProgram {argument : String} (reads : line = .directive .program argument) :
    Move place.site line s.skeleton (s.openProgram place argument).skeleton := by
  unfold openProgram
  dsimp only
  split
  · exact .stay
  · split
    · exact .stay
    · rename_i outside
      simp only [enclosing?, Option.or_eq_none_iff, Option.map_eq_none_iff] at outside
      split
      · exact .refuseProgram argument reads
      · rename_i number _
        have opened : { s.warnOverwriting place (Text.leadingWord argument) with
            current := some ⟨Program.start (Text.leadingWord argument) number place.origin
              s.globalHeader s.env.bindings, place.level⟩ }.skeleton =
              { s.skeleton with accepted := some place.site } :=
          congrArg (fun b => { b with accepted := some place.site })
            (skeleton_warnOverwriting s place (Text.leadingWord argument))
        rw [opened]
        exact .openProgram argument reads (by simp [skeleton, outside.1])

theorem move_closeProgram : Move place.site line s.skeleton (s.closeProgram place).skeleton := by
  unfold closeProgram
  split
  · exact .stay
  · dsimp only
    have closed (u : Preprocessor) (saved : Option Bindings) (program : Program) :
        { u.restoreSaved saved with
          programs := ((u.restoreSaved saved).programs.insert program).2 }.skeleton = u.skeleton :=
      skeleton_restoreSaved u saved
    rw [closed, skeleton_reportFailures]
    have reported := skeleton_reportSwitches { s with current := none, switches := [] } s.switches
    exact reported ▸ .closeProgram

theorem move_openSwitch {subject : String} (reads : line = .directive .switch subject) :
    Move place.site line s.skeleton (s.openSwitch place subject).skeleton := by
  have reported : (if subject.isEmpty then s.report place .switchWithoutExpression else s).skeleton =
      s.skeleton := by
    split <;> rfl
  unfold openSwitch
  rw [← reported]
  generalize (if subject.isEmpty then s.report place .switchWithoutExpression else s) = s
  dsimp only
  split
  · exact .stay
  · rename_i opened current
    exact .openSwitch subject reads (by simp [skeleton, current])

theorem move_closeSwitch : Move place.site line s.skeleton (s.closeSwitch place).skeleton := by
  unfold closeSwitch
  split
  · exact .stay
  · rename_i sw outer switches
    dsimp only
    rw [skeleton_emit, skeleton_insertLines]
    have closed : { s with switches := outer }.skeleton =
        { s.skeleton with switches := s.skeleton.switches.tail } := by
      simp [skeleton, switches]
    exact closed ▸ .closeSwitch

theorem move_closeRejected : Move place.site line s.skeleton s.closeRejected.skeleton := by
  unfold closeRejected
  split
  · exact .stay
  · exact .leaveRefused

theorem move_programLine (text : String) :
    Move place.site line s.skeleton (s.programLine place text line).skeleton := by
  unfold programLine
  split
  · exact move_closeProgram s place
  · exact move_openSwitch s place rfl
  · exact move_of_eq s place (skeleton_delay s place _)
  · exact move_of_eq s place (skeleton_addCase s place _)
  · exact move_of_eq s place (skeleton_addDefault s place)
  · exact move_of_eq s place (skeleton_leaveCase s place)
  · exact move_closeSwitch s place
  · exact move_of_eq s place (skeleton_emit s place _)

theorem move_otherLine (text : String) :
    Move place.site line s.skeleton (s.otherLine place text line).skeleton := by
  unfold otherLine
  split
  · split
    · exact move_closeRejected s place
    · exact .stay
  · exact move_of_eq s place (skeleton_outsideLine s place line)
  · exact move_programLine s place text

variable (includer : Includer)
  (included : ∀ argument, (includer place argument s).skeleton = s.skeleton) (text : String)

include included

theorem move_visibleLine :
    Move place.site line s.skeleton (visibleLine includer s place text line).skeleton := by
  unfold visibleLine
  split
  · exact .stay
  · exact .stay
  · exact .openHeader _ rfl
  · exact move_openProgram s place rfl
  · exact move_of_eq s place (included _)
  · exact move_of_eq s place (skeleton_evalStatement s place _)
  · exact move_of_eq s place (skeleton_define s place _)
  · exact move_otherLine s place text

theorem move_headedLine :
    Move place.site line s.skeleton (headedLine includer s place text line).skeleton := by
  unfold headedLine
  split
  · exact move_of_eq s place (skeleton_captureHeader s text)
  · split
    · exact move_openIf s place rfl
    · exact move_of_eq s place (skeleton_flipElse s place)
    · exact move_closeIf s place
    · split
      · exact move_visibleLine s place includer included text
      · exact .stay

theorem move_processLine :
    Move place.site (Line.ofString text) s.skeleton (processLine includer place text s).skeleton := by
  unfold processLine
  split
  · exact .stay
  · exact move_of_eq s place (skeleton_comment s place _)
  · split
    · exact move_closeHeader s place
    · exact .stay
  · exact move_headedLine s place includer included text

end Moves

end Preprocessor

namespace Skeleton

/-- Every block was opened in one of the `height` open files, headers in the innermost. Switches are
inside of the program, inner ones in no outer file. -/
structure Nested (height : Nat) (b : Skeleton) : Prop where
  header : ∀ site ∈ b.header, 1 ≤ site.level ∧ site.level = height
  accepted : ∀ site ∈ b.accepted, 1 ≤ site.level ∧ site.level ≤ height
  refused : ∀ site ∈ b.refused, 1 ≤ site.level ∧ site.level ≤ height
  switches : ∀ site ∈ b.switches, site.level ≤ height
  ordered : b.switches.Pairwise fun inner outer => outer.level ≤ inner.level
  inside : ∀ program ∈ b.accepted, ∀ site ∈ b.switches, program.level ≤ site.level
  idle : b.accepted = none → b.switches = []

/-- What is left when the files above `height` are closed. -/
def upTo (height : Nat) (b : Skeleton) : Skeleton where
  conditionals := []
  header := b.header.filter (·.level ≤ height)
  accepted := b.accepted.filter (·.level ≤ height)
  refused := b.refused.filter (·.level ≤ height)
  switches := b.switches.filter (·.level ≤ height)

theorem mem_low {height : Nat} {o : Option Site} {site : Site} :
    site ∈ o.filter (·.level ≤ height) ↔ site ∈ o ∧ site.level ≤ height := by
  simp [Option.filter_eq_some_iff]

/-- Apart from conditionals, all that is open in `b'` is open in `b`. -/
structure Within (b b' : Skeleton) : Prop where
  header : ∀ site ∈ b'.header, site ∈ b.header
  accepted : ∀ site ∈ b'.accepted, site ∈ b.accepted
  refused : ∀ site ∈ b'.refused, site ∈ b.refused
  switches : b'.switches <:+ b.switches

namespace Within

variable {b b' b'' : Skeleton}

theorem refl (b : Skeleton) : Within b b :=
  ⟨fun _ => id, fun _ => id, fun _ => id, List.suffix_refl _⟩

theorem trans (h : Within b b') (h' : Within b' b'') : Within b b'' where
  header site mem := h.header site (h'.header site mem)
  accepted site mem := h.accepted site (h'.accepted site mem)
  refused site mem := h.refused site (h'.refused site mem)
  switches := h'.switches.trans h.switches

theorem upTo (h : Within b b') (height : Nat) : Within (b.upTo height) (b'.upTo height) where
  header site mem := mem_low.mpr ((mem_low.mp mem).imp_left (h.header site))
  accepted site mem := mem_low.mpr ((mem_low.mp mem).imp_left (h.accepted site))
  refused site mem := mem_low.mpr ((mem_low.mp mem).imp_left (h.refused site))
  switches := h.switches.filter _

end Within

namespace Nested

variable {height : Nat} {b b' : Skeleton}

theorem closed (h : Nested 0 b) :
    b.header = none ∧ b.accepted = none ∧ b.refused = none ∧ b.switches = [] := by
  have empty {o : Option Site} (low : ∀ site ∈ o, 1 ≤ site.level ∧ site.level ≤ 0) : o = none := by
    refine Option.eq_none_iff_forall_not_mem.mpr fun site mem => ?_
    have := low site mem
    omega
  have header := empty fun site mem => (h.header site mem).imp_right Nat.le_of_eq
  have accepted := empty h.accepted
  exact ⟨header, accepted, empty h.refused, h.idle accepted⟩

theorem withConditionals (h : Nested height b) (conditionals : List Origin) :
    Nested height { b with conditionals } :=
  ⟨h.header, h.accepted, h.refused, h.switches, h.ordered, h.inside, h.idle⟩

theorem enter (h : Nested height b) (unheaded : b.header = none) : Nested (height + 1) b where
  header site mem := by simp [unheaded] at mem
  accepted site mem := (h.accepted site mem).imp_right Nat.le_succ_of_le
  refused site mem := (h.refused site mem).imp_right Nat.le_succ_of_le
  switches site mem := Nat.le_succ_of_le (h.switches site mem)
  ordered := h.ordered
  inside := h.inside
  idle := h.idle

theorem upTo (h : Nested (height + 1) b) : Nested height (b.upTo height) where
  header site mem := by
    have := h.header site (mem_low.mp mem).1
    have := (mem_low.mp mem).2
    omega
  accepted site mem := ⟨(h.accepted site (mem_low.mp mem).1).1, (mem_low.mp mem).2⟩
  refused site mem := ⟨(h.refused site (mem_low.mp mem).1).1, (mem_low.mp mem).2⟩
  switches site mem := by simpa using (List.mem_filter.mp mem).2
  ordered := h.ordered.filter _
  inside program mem site mem' := h.inside program (mem_low.mp mem).1 site (List.mem_filter.mp mem').1
  idle vacant := by
    refine List.filter_eq_nil_iff.mpr fun site mem low => ?_
    cases accepted : b.accepted with
    | none => simp [h.idle accepted] at mem
    | some program =>
      -- A switch in a file that stays open is inside a program whose file stays open.
      have outer := h.inside program accepted site mem
      have kept : program ∈ (b.upTo height).accepted :=
        mem_low.mpr ⟨accepted, Nat.le_trans outer (by simpa using low)⟩
      simp [vacant] at kept

theorem within_upTo (h : Nested height b) : Within b (b.upTo height) where
  header _ mem := (mem_low.mp mem).1
  accepted _ mem := (mem_low.mp mem).1
  refused _ mem := (mem_low.mp mem).1
  switches := by
    have all : b.switches.filter (·.level ≤ height) = b.switches :=
      List.filter_eq_self.mpr fun site mem => decide_eq_true (h.switches site mem)
    exact ⟨[], all⟩

end Nested

namespace Move

variable {here : Site} {line : Line} {b b' : Skeleton}

theorem nested (h : Move here line b b') (inside : 1 ≤ here.level) (nested : Nested here.level b) :
    Nested here.level b' := by
  obtain ⟨header, accepted, refused, switches, ordered, inner, idle⟩ := nested
  cases h with
  | stay | openIf | closeIf => constructor <;> assumption
  | openHeader => exact ⟨by simp [inside], accepted, refused, switches, ordered, inner, idle⟩
  | closeHeader => exact ⟨nofun, accepted, refused, switches, ordered, inner, idle⟩
  | openProgram _ _ outside =>
    exact ⟨header, by simp [inside], refused, switches, ordered, by simp [idle outside], nofun⟩
  | refuseProgram => exact ⟨header, accepted, by simp [inside], switches, ordered, inner, idle⟩
  | closeProgram => exact ⟨header, nofun, refused, nofun, .nil, nofun, fun _ => rfl⟩
  | leaveRefused => exact ⟨header, accepted, nofun, switches, ordered, inner, idle⟩
  | openSwitch _ _ opened =>
    refine ⟨header, accepted, refused, ?_, ?_, ?_, fun vacant => absurd vacant opened⟩
    · exact List.forall_mem_cons.mpr ⟨Nat.le_refl _, switches⟩
    · exact List.pairwise_cons.mpr ⟨switches, ordered⟩
    · intro program mem
      exact List.forall_mem_cons.mpr ⟨(accepted program mem).2, inner program mem⟩
  | closeSwitch =>
    refine ⟨header, accepted, refused, fun site mem => switches site (List.mem_of_mem_tail mem),
      ordered.tail, fun program mem site mem' => inner program mem site (List.mem_of_mem_tail mem'),
      fun vacant => ?_⟩
    simp [idle vacant]

/-- A line leaves alone what was opened in the files around its own, or closes it. -/
theorem within {height : Nat} (h : Move here line b b') (deeper : height < here.level) :
    Within (b.upTo height) (b'.upTo height) := by
  have high : ¬ here.level ≤ height := Nat.not_le_of_lt deeper
  cases h with
  | stay | openIf | closeIf => exact .refl _
  | openHeader => exact ⟨by simp [upTo, high], fun _ => id, fun _ => id, List.suffix_refl _⟩
  | closeHeader => exact ⟨nofun, fun _ => id, fun _ => id, List.suffix_refl _⟩
  | openProgram => exact ⟨fun _ => id, by simp [upTo, high], fun _ => id, List.suffix_refl _⟩
  | refuseProgram => exact ⟨fun _ => id, fun _ => id, by simp [upTo, high], List.suffix_refl _⟩
  | closeProgram => exact ⟨fun _ => id, nofun, fun _ => id, List.nil_suffix⟩
  | leaveRefused => exact ⟨fun _ => id, fun _ => id, nofun, List.suffix_refl _⟩
  | openSwitch => exact ⟨fun _ => id, fun _ => id, fun _ => id, by simp [upTo, high]⟩
  | closeSwitch =>
    exact ⟨fun _ => id, fun _ => id, fun _ => id, (List.tail_suffix _).filter _⟩

end Move

/-- The directive that has opened a block, and where it stands. -/
structure Opening where
  directive : Directive
  site : Site
  deriving DecidableEq, Repr

def conditionalsAt (height : Nat) (origins : List Origin) : List Opening :=
  origins.map fun origin => ⟨.if_, origin, height⟩

/-- The blocks besides conditionals that have to be closed. Refused programs are not among them. -/
def blocks (b : Skeleton) : List Opening :=
  b.header.toList.map (.mk .header) ++ b.accepted.toList.map (.mk .program) ++
    b.switches.map (.mk .switch)

def openings (height : Nat) (b : Skeleton) : List Opening :=
  conditionalsAt height b.conditionals ++ b.blocks

section Openings

variable {height : Nat} {b b' : Skeleton} {x : Opening}

theorem mem_conditionalsAt {origins : List Origin} :
    x ∈ conditionalsAt height origins ↔ ∃ origin ∈ origins, ⟨.if_, origin, height⟩ = x := by
  simp [conditionalsAt]

theorem mem_blocks : x ∈ b.blocks ↔ (∃ site ∈ b.header, ⟨.header, site⟩ = x) ∨
    (∃ site ∈ b.accepted, ⟨.program, site⟩ = x) ∨ ∃ site ∈ b.switches, ⟨.switch, site⟩ = x := by
  simp [blocks]

theorem program_mem_openings {site : Site} :
    ⟨.program, site⟩ ∈ b.openings height ↔ site ∈ b.accepted := by
  rw [openings, List.mem_append, mem_conditionalsAt, mem_blocks]
  constructor
  · rintro (⟨_, -, eq⟩ | ⟨_, -, eq⟩ | ⟨_, opened, eq⟩ | ⟨_, -, eq⟩) <;> cases eq
    exact opened
  · exact fun opened => .inr (.inr (.inl ⟨site, opened, rfl⟩))

theorem blocks_upTo_subset (height : Nat) (b : Skeleton) : (b.upTo height).blocks ⊆ b.blocks := by
  intro x mem
  rw [mem_blocks] at mem ⊢
  rcases mem with ⟨site, mem, eq⟩ | ⟨site, mem, eq⟩ | ⟨site, mem, eq⟩
  · exact .inl ⟨site, (mem_low.mp mem).1, eq⟩
  · exact .inr (.inl ⟨site, (mem_low.mp mem).1, eq⟩)
  · exact .inr (.inr ⟨site, (List.mem_filter.mp mem).1, eq⟩)

theorem Nested.level_le (h : Nested height b) : ∀ x ∈ b.openings height, x.site.level ≤ height := by
  intro x mem
  rcases List.mem_append.mp mem with mem | mem
  · obtain ⟨origin, -, rfl⟩ := mem_conditionalsAt.mp mem
    exact Nat.le_refl _
  · rcases mem_blocks.mp mem with ⟨site, opened, rfl⟩ | ⟨site, opened, rfl⟩ | ⟨site, opened, rfl⟩
    · exact Nat.le_of_eq (h.header site opened).2
    · exact (h.accepted site opened).2
    · exact h.switches site opened

theorem Move.openings {here : Site} {line : Line} (h : Move here line b b') :
    ∀ x ∈ b'.openings here.level, x ∈ b.openings here.level ∨
      x.site = here ∧ ∃ argument, line = .directive x.directive argument := by
  intro x mem
  simp only [Skeleton.openings, List.mem_append, mem_conditionalsAt, mem_blocks] at mem ⊢
  cases h with
  | stay => exact .inl mem
  | openIf argument reads =>
    rcases mem with ⟨origin, mem, rfl⟩ | mem
    · rcases List.mem_cons.mp mem with rfl | mem
      · exact .inr ⟨rfl, argument, reads⟩
      · exact .inl (.inl ⟨origin, mem, rfl⟩)
    · exact .inl (.inr mem)
  | closeIf => exact .inl (mem.imp_left fun ⟨origin, mem, eq⟩ => ⟨origin, List.mem_of_mem_tail mem, eq⟩)
  | openHeader argument reads => grind
  | closeHeader => grind
  | openProgram argument reads => grind
  | refuseProgram => exact .inl mem
  | closeProgram => grind
  | leaveRefused => exact .inl mem
  | openSwitch argument reads => grind
  | closeSwitch => grind [List.mem_of_mem_tail]

end Openings

end Skeleton

end GcodePrep
