import GcodePrep.Branch
import Mathlib.Data.List.Basic

set_option autoImplicit false

/-!
# The innermost branch speaks for all

Whether lines are visible is read off the innermost branch alone. Along every sequence of operations
that starts with no branch open, this is what a stack says that remembers, of each level, the condition
it was opened with and how often it was turned over, and that asks all of its levels.
-/

namespace GcodePrep

namespace Branches

inductive Operation (σ : Type) where
  | openIf (origin : Origin) (condition : σ → Bool × σ)
  | flipElse (origin : Origin)
  | close

variable {σ : Type}

def perform? (now : Branches × σ) : Operation σ → Option (Branches × σ)
  | .openIf origin condition => some (now.1.openIf origin condition now.2)
  | .flipElse origin => (now.1.flipElse? origin).map (·, now.2)
  | .close => now.1.close?.map fun closed => (closed.2, now.2)

def perform (now : Branches × σ) (operation : Operation σ) : Branches × σ :=
  (perform? now operation).getD now

def run (operations : List (Operation σ)) (s : σ) : Branches × σ := operations.foldl perform ([], s)

def tallied (condition : σ → Bool × σ) : σ × Nat → Bool × σ × Nat :=
  fun (s, n) => ((condition s).1, (condition s).2, n + 1)

theorem openIf_of_active {b : Branches} (active : b.isActive = true) (origin : Origin)
    (condition : σ → Bool × σ) (s : σ) :
    b.openIf origin condition s =
      (⟨if (condition s).1 then .active else .inactive, origin, none⟩ :: b, (condition s).2) :=
  if_pos active

theorem openIf_of_hidden {b : Branches} (hidden : ¬ b.isActive = true) (origin : Origin)
    (condition : σ → Bool × σ) (s : σ) :
    b.openIf origin condition s = (⟨.shadowed, origin, none⟩ :: b, s) :=
  if_neg hidden

theorem openIf_tallied (b : Branches) (origin : Origin) (condition : σ → Bool × σ) (s : σ) (n : Nat) :
    b.openIf origin (tallied condition) (s, n) =
      ((b.openIf origin condition s).1, (b.openIf origin condition s).2,
        if b.isActive = true then n + 1 else n) := by
  by_cases active : b.isActive = true
  · rw [openIf_of_active active, openIf_of_active active, if_pos active]
    rfl
  · rw [openIf_of_hidden active, openIf_of_hidden active, if_neg active]

theorem flipElse?_eq_none_iff (b : Branches) (origin : Origin) : b.flipElse? origin = none ↔ b = [] := by
  cases b <;> simp [flipElse?]

theorem close?_eq_none_iff (b : Branches) : b.close? = none ↔ b = [] := by
  cases b <;> simp [close?]

/-- Innermost first: nothing but active branches lies around one that is not shadowed, and a shadowed one
lies right inside of one that is not active. -/
def Layered : List Visibility → Prop
  | [] => True
  | .shadowed :: outer => (∃ v rest, outer = v :: rest ∧ v ≠ .active) ∧ Layered outer
  | _ :: outer => ∀ v ∈ outer, v = .active

theorem layered_of_active {outer : List Visibility} (all : ∀ v ∈ outer, v = .active) :
    Layered outer := by
  cases outer with
  | nil => trivial
  | cons v rest =>
    obtain rfl := all v List.mem_cons_self
    exact fun w mem => all w (List.mem_cons_of_mem _ mem)

theorem Layered.tail {v : Visibility} {outer : List Visibility} (h : Layered (v :: outer)) :
    Layered outer := by
  cases v with
  | active => exact layered_of_active h
  | inactive => exact layered_of_active h
  | shadowed => exact h.2

theorem Layered.flip {v : Visibility} {outer : List Visibility} (h : Layered (v :: outer)) :
    Layered (v.flip :: outer) := by
  cases v <;> exact h

theorem Layered.reverse_eq {vs : List Visibility} (h : Layered vs) :
    ∃ active inactive shadowed, inactive ≤ 1 ∧ (0 < shadowed → inactive = 1) ∧
      vs.reverse = List.replicate active .active ++ List.replicate inactive .inactive ++
        List.replicate shadowed .shadowed := by
  induction vs with
  | nil => exact ⟨0, 0, 0, by simp⟩
  | cons v outer ih =>
    obtain ⟨active, inactive, shadowed, one, shade, eq⟩ := ih h.tail
    cases v with
    | active =>
      have all : outer = List.replicate outer.length .active := List.eq_replicate_iff.mpr ⟨rfl, h⟩
      refine ⟨outer.length + 1, 0, 0, by omega, by omega, ?_⟩
      rw [List.reverse_cons, all, List.reverse_replicate]
      simp [List.replicate_succ']
    | inactive =>
      have all : outer = List.replicate outer.length .active := List.eq_replicate_iff.mpr ⟨rfl, h⟩
      refine ⟨outer.length, 1, 0, by omega, by omega, ?_⟩
      rw [List.reverse_cons, all, List.reverse_replicate]
      simp
    | shadowed =>
      refine ⟨active, inactive, shadowed + 1, one, fun _ => ?_, ?_⟩
      · -- The branch right around is not active, so it is the inactive one or a shadowed one.
        obtain ⟨⟨v, rest, rfl, other⟩, -⟩ := h
        by_contra none_inactive
        have zero : inactive = 0 ∧ shadowed = 0 := by omega
        rw [zero.1, zero.2, List.reverse_eq_iff] at eq
        have mem : v ∈ List.replicate active .active := by
          have first : v ∈ v :: rest := List.mem_cons_self
          rw [eq] at first
          simpa using first
        exact other (List.eq_of_mem_replicate mem)
      · rw [List.reverse_cons, eq, List.replicate_succ', List.append_assoc _ _ [Visibility.shadowed]]

theorem isActive_iff_of_layered {b : Branches} (h : Layered (b.map Branch.visibility)) :
    b.isActive = true ↔ ∀ branch ∈ b, branch.visibility = .active := by
  cases b with
  | nil => simp [isActive]
  | cons branch outer =>
    rw [isActive, decide_eq_true_eq, List.forall_mem_cons]
    refine ⟨fun active => ⟨active, ?_⟩, And.left⟩
    rw [List.map_cons, active] at h
    exact List.forall_mem_map.mp h

/-- An open level: the condition it was opened with, unless lines were not visible there, and how many
`@else` it has seen. -/
structure Level where
  condition : Option Bool
  elses : Nat
  deriving DecidableEq, Repr

namespace Level

def isVisible (level : Level) : Bool :=
  match level.condition with
  | none => false
  | some holds => holds != decide (level.elses % 2 = 1)

def perform (now : List Level × σ) : Operation σ → List Level × σ
  | .openIf _ condition =>
    if now.1.all isVisible then (⟨some (condition now.2).1, 0⟩ :: now.1, (condition now.2).2)
    else (⟨none, 0⟩ :: now.1, now.2)
  | .flipElse _ => match now.1 with
    | [] => now
    | level :: outer => ({ level with elses := level.elses + 1 } :: outer, now.2)
  | .close => (now.1.tail, now.2)

def run (operations : List (Operation σ)) (s : σ) : List Level × σ := operations.foldl perform ([], s)

def visibility (level : Level) : Visibility :=
  match level.condition with
  | none => .shadowed
  | some _ => if level.isVisible then .active else .inactive

theorem isVisible_iff (level : Level) : level.isVisible = true ↔ level.visibility = .active := by
  obtain ⟨condition, elses⟩ := level
  cases condition with
  | none => simp [isVisible, visibility]
  | some holds =>
    unfold visibility
    dsimp only
    split_ifs with visible <;> simp [visible]

theorem visibility_flip (level : Level) :
    { level with elses := level.elses + 1 }.visibility = level.visibility.flip := by
  obtain ⟨condition, elses⟩ := level
  cases condition with
  | none => rfl
  | some holds =>
    have parity : elses % 2 = 1 ∧ (elses + 1) % 2 = 0 ∨ elses % 2 = 0 ∧ (elses + 1) % 2 = 1 := by
      omega
    rcases parity with ⟨before, after⟩ | ⟨before, after⟩
    all_goals cases holds <;> simp [visibility, isVisible, before, after, Visibility.flip]

end Level

/-- The branches show the levels, in a stack of the right shape, and the states are the same. -/
structure Mirrors (now : Branches × σ) (levels : List Level × σ) : Prop where
  shown : now.1.map Branch.visibility = levels.1.map Level.visibility
  state : now.2 = levels.2
  layered : Layered (now.1.map Branch.visibility)

theorem Mirrors.isActive_eq {now : Branches × σ} {levels : List Level × σ} (h : Mirrors now levels) :
    now.1.isActive = levels.1.all Level.isVisible := by
  rw [Bool.eq_iff_iff, isActive_iff_of_layered h.layered, List.all_eq_true]
  simp only [Level.isVisible_iff]
  rw [← List.forall_mem_map (P := (· = Visibility.active)), h.shown, List.forall_mem_map]

theorem layered_openIf {b : Branches} (h : Layered (b.map Branch.visibility)) (origin : Origin)
    (condition : σ → Bool × σ) (s : σ) :
    Layered ((b.openIf origin condition s).1.map Branch.visibility) := by
  by_cases active : b.isActive = true
  · have all : ∀ v ∈ b.map Branch.visibility, v = .active :=
      List.forall_mem_map.mpr ((isActive_iff_of_layered h).mp active)
    rw [openIf_of_active active]
    cases (condition s).1 <;> exact all
  · rw [openIf_of_hidden active]
    refine ⟨?_, h⟩
    cases b with
    | nil => simp [isActive] at active
    | cons branch outer => exact ⟨_, _, rfl, by simpa [isActive] using active⟩

theorem Mirrors.perform {now : Branches × σ} {levels : List Level × σ} (h : Mirrors now levels)
    (operation : Operation σ) :
    Mirrors (Branches.perform now operation) (Level.perform levels operation) := by
  obtain ⟨b, s⟩ := now
  obtain ⟨ls, s'⟩ := levels
  obtain rfl : s = s' := h.state
  have shown : b.map Branch.visibility = ls.map Level.visibility := h.shown
  have layered : Layered (b.map Branch.visibility) := h.layered
  cases operation with
  | openIf origin condition =>
    have same : b.isActive = ls.all Level.isVisible := h.isActive_eq
    have shape := layered_openIf layered origin condition s
    rw [Branches.perform, perform?, Option.getD_some, Level.perform]
    dsimp only
    rw [← same]
    by_cases active : b.isActive = true
    · rw [openIf_of_active active] at shape ⊢
      rw [if_pos active]
      refine ⟨?_, rfl, shape⟩
      cases (condition s).1 <;> simp [Level.visibility, Level.isVisible, shown]
    · rw [openIf_of_hidden active] at shape ⊢
      rw [if_neg active]
      exact ⟨by simp [Level.visibility, shown], rfl, shape⟩
  | flipElse origin =>
    cases b with
    | nil =>
      obtain rfl : ls = [] := by simpa using shown.symm
      exact h
    | cons branch outer =>
      cases ls with
      | nil => simp at shown
      | cons level rest =>
        simp only [List.map_cons, List.cons.injEq] at shown
        refine ⟨?_, rfl, layered.flip⟩
        simp only [Branches.perform, perform?, flipElse?, Level.perform, Option.map_some,
          Option.getD_some, List.map_cons, Level.visibility_flip, shown]
  | close =>
    cases b with
    | nil =>
      obtain rfl : ls = [] := by simpa using shown.symm
      exact h
    | cons branch outer =>
      cases ls with
      | nil => simp at shown
      | cons level rest =>
        simp only [List.map_cons, List.cons.injEq] at shown
        exact ⟨shown.2, rfl, layered.tail⟩

theorem mirrors_run (operations : List (Operation σ)) (s : σ) :
    Mirrors (run operations s) (Level.run operations s) := by
  have along : ∀ (now : Branches × σ) (levels : List Level × σ), Mirrors now levels →
      Mirrors (operations.foldl Branches.perform now) (operations.foldl Level.perform levels) := by
    induction operations with
    | nil => exact fun now levels h => h
    | cons operation rest ih => exact fun now levels h => ih _ _ (h.perform operation)
  exact along _ _ ⟨rfl, rfl, trivial⟩

/-- After any operations: around the inactive branch, of which there is at most one, lie active branches,
inside of it shadowed ones; lines are visible exactly where all branches are active, and that is where all
levels are visible; a condition is consulted, once, exactly there; and what needs an open branch fails
exactly without one and changes nothing. -/
theorem innermost_speaks_for_all (operations : List (Operation σ)) (s : σ) :
    let now := run operations s
    let levels := Level.run operations s
    (∃ active inactive shadowed, inactive ≤ 1 ∧ (0 < shadowed → inactive = 1) ∧
      now.1.reverse.map Branch.visibility = List.replicate active .active ++
        List.replicate inactive .inactive ++ List.replicate shadowed .shadowed) ∧
    (now.1.isActive = true ↔ ∀ branch ∈ now.1, branch.visibility = .active) ∧
    (now.1.isActive = true ↔ ∀ level ∈ levels.1, level.isVisible = true) ∧
    (now.1.length = levels.1.length ∧ now.2 = levels.2) ∧
    (∀ origin condition n, now.1.openIf origin (tallied condition) (now.2, n) =
      ((now.1.openIf origin condition now.2).1, (now.1.openIf origin condition now.2).2,
        if now.1.isActive = true then n + 1 else n)) ∧
    (∀ origin, (now.1.flipElse? origin = none ↔ now.1 = []) ∧
      (now.1 = [] → run (operations ++ [.flipElse origin]) s = now)) ∧
    (now.1.close? = none ↔ now.1 = []) ∧ (now.1 = [] → run (operations ++ [.close]) s = now) := by
  intro now levels
  have mirrors : Mirrors now levels := mirrors_run operations s
  have next (operation : Operation σ) :
      run (operations ++ [operation]) s = Branches.perform now operation := by
    rw [run, List.foldl_append]
    rfl
  refine ⟨?_, isActive_iff_of_layered mirrors.layered, ?_, ⟨?_, mirrors.state⟩,
    fun origin condition n => openIf_tallied now.1 origin condition now.2 n,
    fun origin => ⟨flipElse?_eq_none_iff now.1 origin, fun empty => ?_⟩, close?_eq_none_iff now.1,
    fun empty => ?_⟩
  · rw [List.map_reverse]
    exact mirrors.layered.reverse_eq
  · rw [mirrors.isActive_eq, List.all_eq_true]
  · simpa using congrArg List.length mirrors.shown
  · rw [next, Branches.perform, perform?, (flipElse?_eq_none_iff now.1 origin).mpr empty]
    rfl
  · rw [next, Branches.perform, perform?, (close?_eq_none_iff now.1).mpr empty]
    rfl

end Branches

end GcodePrep
