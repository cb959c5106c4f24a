import GcodePrep.Proofs.Chaining

set_option autoImplicit false

/-!
# Paths through parsed trees

A path leads from the root of a tree to one of its leaves, and each of its steps enters a part of one
kind. Give every kind a weight, left operands the weight zero. What the parser then allows between two
steps that use up room is one condition and one right operand on each level of the binary operators; so
the depth limit bounds the weight of every path.
-/

namespace GcodePrep

namespace Expr

inductive Step where
  | operand
  | left
  | right
  | condition
  | branch
  | value
  | argument
  | statement
  deriving DecidableEq, Repr

/-- The steps from the root of a tree to one of its leaves. -/
inductive Path : Expr → List Step → Prop where
  | literal (v : Value) (offset : Nat) : Path (.literal v offset) []
  | symbol (name : String) (offset : Nat) : Path (.symbol name offset) []
  | emptyCall (name : String) (offset : Nat) : Path (.call name [] offset) []
  | emptyChain : Path (.chain []) []
  | operand {e : Expr} {steps : List Step} (op : UnaryOp) (offset : Nat) (h : Path e steps) :
      Path (.unary op e offset) (.operand :: steps)
  | left {l : Expr} {steps : List Step} (op : BinaryOp) (r : Expr) (offset : Nat) (h : Path l steps) :
      Path (.binary op l r offset) (.left :: steps)
  | right {r : Expr} {steps : List Step} (op : BinaryOp) (l : Expr) (offset : Nat) (h : Path r steps) :
      Path (.binary op l r offset) (.right :: steps)
  | condition {c : Expr} {steps : List Step} (yes no : Expr) (h : Path c steps) :
      Path (.choice c yes no) (.condition :: steps)
  | yes {yes : Expr} {steps : List Step} (c no : Expr) (h : Path yes steps) :
      Path (.choice c yes no) (.branch :: steps)
  | no {no : Expr} {steps : List Step} (c yes : Expr) (h : Path no steps) :
      Path (.choice c yes no) (.branch :: steps)
  | value {e : Expr} {steps : List Step} (op : AssignOp) (name : String) (offset : Nat)
      (h : Path e steps) : Path (.assign op name e offset) (.value :: steps)
  | argument {e : Expr} {args : List Expr} {steps : List Step} (name : String) (offset : Nat)
      (mem : e ∈ args) (h : Path e steps) : Path (.call name args offset) (.argument :: steps)
  | statement {e : Expr} {items : List Expr} {steps : List Step} (mem : e ∈ items) (h : Path e steps) :
      Path (.chain items) (.statement :: steps)

/-- The steps that use up room: the operand of a sign, the value of an assignment, an argument of a call
and the branches of a choice. -/
def Step.isEntered : Step → Bool
  | operand | branch | value | argument => true
  | left | right | condition | statement => false

structure Weighting where
  of : Step → Nat
  left : of .left = 0
  entered (s : Step) : s.isEntered = true → of s ≤ 1

/-- The most a path can weigh between two steps that use up room. -/
def Weighting.stretch (w : Weighting) : Nat := w.of .condition + Parser.binaryLevels.length * w.of .right

def Weighting.weight (w : Weighting) : List Step → Nat
  | [] => 0
  | s :: steps => w.of s + w.weight steps

def Lighter (w : Weighting) (bound : Nat) (e : Expr) : Prop :=
  ∀ steps, e.Path steps → w.weight steps < bound

variable {w : Weighting} {bound bound' : Nat}

@[simp] theorem Weighting.weight_cons (s : Step) (steps : List Step) :
    w.weight (s :: steps) = w.of s + w.weight steps := rfl

theorem Weighting.weight_entered {s : Step} (h : s.isEntered = true) {steps : List Step}
    (light : w.weight steps < bound) : w.weight (s :: steps) < bound + 1 := by
  have entered := w.entered s h
  rw [weight_cons]
  omega

namespace Lighter

variable {e l r c yes no : Expr}

theorem mono (h : Lighter w bound e) (le : bound ≤ bound') : Lighter w bound' e :=
  fun steps path => Nat.lt_of_lt_of_le (h steps path) le

theorem literal (v : Value) (offset : Nat) : Lighter w (bound + 1) (.literal v offset) := by
  rintro _ ⟨⟩
  exact Nat.succ_pos bound

theorem symbol (name : String) (offset : Nat) : Lighter w (bound + 1) (.symbol name offset) := by
  rintro _ ⟨⟩
  exact Nat.succ_pos bound

theorem unary (op : UnaryOp) (offset : Nat) (h : Lighter w bound e) :
    Lighter w (bound + 1) (.unary op e offset) := by
  intro _ path
  cases path with
  | operand op offset path => exact Weighting.weight_entered rfl (h _ path)

theorem assign (op : AssignOp) (name : String) (offset : Nat) (h : Lighter w bound e) :
    Lighter w (bound + 1) (.assign op name e offset) := by
  intro _ path
  cases path with
  | value op name offset path => exact Weighting.weight_entered rfl (h _ path)

theorem call (name : String) (offset : Nat) {args : List Expr} (h : ∀ e ∈ args, Lighter w bound e) :
    Lighter w (bound + 1) (.call name args offset) := by
  intro _ path
  cases path with
  | emptyCall => exact Nat.succ_pos bound
  | argument name offset mem path => exact Weighting.weight_entered rfl (h _ mem _ path)

theorem choice (condition : Lighter w bound c) (first : Lighter w bound' yes)
    (second : Lighter w bound' no) :
    Lighter w (max (w.of .condition + bound) (bound' + 1)) (.choice c yes no) := by
  intro _ path
  cases path with
  | condition yes no path =>
    rw [Weighting.weight_cons]
    exact Nat.lt_of_lt_of_le (Nat.add_lt_add_left (condition _ path) _) (Nat.le_max_left _ _)
  | yes c no path =>
    exact Nat.lt_of_lt_of_le (Weighting.weight_entered rfl (first _ path)) (Nat.le_max_right _ _)
  | no c yes path =>
    exact Nat.lt_of_lt_of_le (Weighting.weight_entered rfl (second _ path)) (Nat.le_max_right _ _)

/-- Operators of one level grow a tree to the left, where a path gets no heavier. -/
theorem binary (op : BinaryOp) (offset : Nat) (left : Lighter w (w.of .right + bound) l)
    (right : Lighter w bound r) : Lighter w (w.of .right + bound) (.binary op l r offset) := by
  intro _ path
  cases path with
  | left op r offset path =>
    rw [Weighting.weight_cons, w.left, Nat.zero_add]
    exact left _ path
  | right op l offset path =>
    rw [Weighting.weight_cons]
    exact Nat.add_lt_add_left (right _ path) _

theorem chain {items : List Expr} (some_items : items ≠ []) (h : ∀ e ∈ items, Lighter w bound e) :
    Lighter w (w.of .statement + bound) (.chain items) := by
  intro _ path
  cases path with
  | emptyChain => exact absurd rfl some_items
  | statement mem path =>
    rw [Weighting.weight_cons]
    exact Nat.add_lt_add_left (h _ mem _ path) _

end Lighter

end Expr

namespace Parser

open GcodePrep.Expr

def Yields (w : Weighting) (bound : Nat) (p : Parse Expr) : Prop :=
  ∀ ts e rest, p ts = .ok (e, rest) → Lighter w bound e

variable {w : Weighting} {bound bound' : Nat}

theorem Yields.mono {p : Parse Expr} (h : Yields w bound p) (le : bound ≤ bound') : Yields w bound' p :=
  fun ts e rest read => (h ts e rest read).mono le

theorem operands_lighter {op? : Mark → Option BinaryOp} {operand : Parse Expr}
    (yields : Yields w bound operand) (n : Nat) {ts rest : List Lexeme} {left e : Expr}
    (light : Lighter w (w.of .right + bound) left) (h : operands op? operand n left ts = .ok (e, rest)) :
    Lighter w (w.of .right + bound) e := by
  induction n generalizing left ts with
  | zero =>
    cases h
    exact light
  | succ n ih =>
    cases ts with
    | nil =>
      cases h
      exact light
    | cons t ts =>
      obtain ⟨token, offset⟩ := t
      cases token with
      | value | quoted | word =>
        cases h
        exact light
      | mark m =>
        simp only [operands] at h
        split at h
        · cases h
          exact light
        · obtain ⟨⟨right, after⟩, read, h⟩ := bind_eq_ok_iff.mp h
          exact ih (.binary _ offset light (yields _ _ _ read)) h

theorem binary_yields {unary : Parse Expr} (yields : Yields w bound unary)
    (levels : List (Mark → Option BinaryOp)) :
    Yields w (levels.length * w.of .right + bound) (binary unary levels) := by
  induction levels with
  | nil =>
    rw [List.length_nil, Nat.zero_mul, Nat.zero_add]
    exact yields
  | cons op? levels ih =>
    intro ts e rest h
    obtain ⟨⟨left, after⟩, read, h⟩ := bind_eq_ok_iff.mp h
    have light := operands_lighter ih _ ((ih _ _ _ read).mono (Nat.le_add_left _ _)) h
    refine light.mono (Nat.le_of_eq ?_)
    rw [List.length_cons, Nat.succ_mul]
    omega

section

variable {scope : Scope}

theorem arguments_lighter {argument : Parse Expr} (yields : Yields w bound argument) (n : Nat)
    {ts rest : List Lexeme} {es : List Expr} (h : arguments scope argument n ts = .ok (es, rest)) :
    ∀ e ∈ es, Lighter w bound e := by
  induction n generalizing ts es with
  | zero => cases h
  | succ n ih =>
    obtain ⟨⟨first, after⟩, read, h⟩ := bind_eq_ok_iff.mp h
    have light := yields _ _ _ read
    dsimp only at h
    split at h
    · cases h
      exact List.forall_mem_singleton.mpr light
    · split at h
      · cases h
      · obtain ⟨⟨others, after⟩, read, h⟩ := bind_eq_ok_iff.mp h
        cases h
        exact List.forall_mem_cons.mpr ⟨light, ih read⟩

theorem primary_yields {nested : Parse Expr} (yields : Yields w bound nested) :
    Yields w (bound + 1) (primary scope nested) := by
  intro ts e rest h
  unfold primary at h
  split at h
  · cases h
    exact .literal _ _
  · cases h
    exact .literal _ _
  · split at h
    · cases h
      exact .symbol _ _
    · split at h
      · cases h
        exact .call _ _ (List.forall_mem_nil _)
      · obtain ⟨⟨args, after⟩, read, h⟩ := bind_eq_ok_iff.mp h
        cases h
        exact .call _ _ (arguments_lighter yields _ read)
  · obtain ⟨⟨inner, after⟩, read, h⟩ := bind_eq_ok_iff.mp h
    dsimp only at h
    split at h
    · cases h
      exact (yields _ _ _ read).mono (Nat.le_succ _)
    · cases h
  · cases h

theorem signed_yields {operand primary : Parse Expr} (yields : Yields w bound operand)
    (primary_yields : Yields w (bound + 1) primary) : Yields w (bound + 1) (signed operand primary) := by
  intro ts e rest h
  unfold signed at h
  split at h
  · split at h
    · obtain ⟨⟨inner, after⟩, read, h⟩ := bind_eq_ok_iff.mp h
      cases h
      exact .unary _ _ (yields _ _ _ read)
    · exact primary_yields _ _ _ h
  · exact primary_yields _ _ _ h

variable {nested unary : Parse Expr} (yields : Yields w bound nested) (unary_yields : Yields w (bound + 1) unary)

include yields unary_yields

theorem choice_yields : Yields w (bound + w.stretch + 1) (choice scope nested unary) := by
  intro ts e rest h
  obtain ⟨⟨condition, after⟩, read, h⟩ := bind_eq_ok_iff.mp h
  have light := binary_yields unary_yields binaryLevels _ _ _ read
  unfold Weighting.stretch
  dsimp only at h
  split at h
  · cases h
    exact light.mono (by omega)
  · obtain ⟨⟨yes, after⟩, read_yes, h⟩ := bind_eq_ok_iff.mp h
    dsimp only at h
    split at h
    · cases h
    · obtain ⟨⟨no, after⟩, read_no, h⟩ := bind_eq_ok_iff.mp h
      cases h
      exact (light.choice (yields _ _ _ read_yes) (yields _ _ _ read_no)).mono (by omega)

theorem assignment_yields : Yields w (bound + w.stretch + 1) (assignment scope nested unary) := by
  intro ts e rest h
  unfold assignment at h
  split at h
  · split at h
    · obtain ⟨⟨value, after⟩, read, h⟩ := bind_eq_ok_iff.mp h
      cases h
      exact (Lighter.assign _ _ _ (yields _ _ _ read)).mono (by omega)
    · exact choice_yields yields unary_yields _ _ _ h
  · exact choice_yields yields unary_yields _ _ _ h

end

variable (scope : Scope)

theorem statement_and_unary_yields (w : Weighting) (room : Nat) :
    Yields w (room * (w.stretch + 1)) (statement scope room) ∧
      Yields w (room * (w.stretch + 1) + 1) (unary scope room) := by
  have tooDeep (bound : Nat) : Yields w bound (fun ts => .error (scope.tooDeep ts)) :=
    fun _ _ _ h => nomatch h
  induction room with
  | zero =>
    constructor
    · intro ts e rest h
      simp only [statement] at h
      cases h
    · intro ts e rest h
      simp only [unary] at h
      exact signed_yields (tooDeep _) (primary_yields (tooDeep _)) _ _ _ h
  | succ room ih =>
    have size : (room + 1) * (w.stretch + 1) = room * (w.stretch + 1) + w.stretch + 1 := by
      rw [Nat.succ_mul, Nat.add_assoc]
    have assigned : Yields w ((room + 1) * (w.stretch + 1))
        (assignment scope (statement scope room) (unary scope room)) :=
      size ▸ assignment_yields ih.1 ih.2
    constructor
    · intro ts e rest h
      simp only [statement] at h
      exact assigned _ _ _ h
    · intro ts e rest h
      simp only [unary] at h
      exact signed_yields (ih.2.mono (by omega)) (primary_yields assigned) _ _ _ h

theorem chainOf_lighter {item : Parse Expr} (yields : Yields w bound item) (n : Nat)
    {ts rest : List Lexeme} {es : List Expr} (h : chainOf item n ts = .ok (es, rest)) :
    ∀ e ∈ es, Lighter w bound e := by
  induction n generalizing ts es with
  | zero =>
    cases h
    exact List.forall_mem_nil _
  | succ n ih =>
    unfold chainOf at h
    split at h
    · cases h
      exact List.forall_mem_nil _
    · obtain ⟨⟨first, after⟩, read, h⟩ := bind_eq_ok_iff.mp h
      have light := yields _ _ _ read
      dsimp only at h
      split at h
      · cases h
        exact List.forall_mem_singleton.mpr light
      · obtain ⟨⟨others, after⟩, read, h⟩ := bind_eq_ok_iff.mp h
        cases h
        exact List.forall_mem_cons.mpr ⟨light, ih read⟩

theorem ofLexemes_lighter (w : Weighting) {ts : List Lexeme} {e : Expr} (h : ofLexemes scope ts = .ok e) :
    Lighter w (w.of .statement + scope.depth * (w.stretch + 1)) e := by
  obtain ⟨items, some_items, rfl, read⟩ := ofLexemes_eq_ok_iff.mp h
  have light := chainOf_lighter (statement_and_unary_yields scope w scope.depth).1 _ read
  match items, some_items with
  | [item], _ => exact (light item List.mem_cons_self).mono (Nat.le_add_left _ _)
  | _ :: _ :: _, some_items => exact .chain some_items light

end Parser

theorem Expr.parse_lighter (w : Weighting) {src : String} {depth : Nat} {e : Expr}
    (h : parse src depth = .ok e) : Lighter w (w.of .statement + depth * (w.stretch + 1)) e := by
  obtain ⟨ts, -, parsed⟩ := parse_eq_ok_iff.mp h
  exact Parser.ofLexemes_lighter _ w parsed

end GcodePrep
