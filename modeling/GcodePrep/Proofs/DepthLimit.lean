import GcodePrep.Proofs.TreePaths

set_option autoImplicit false

/-!
# The depth limit only cuts

Two parsers that differ in their depth limits read the same tokens step by step, until the one with less
room has none left. So a lower limit gives the answer of a higher one, a tree or a fault, or the fault
that the limit was met.
-/

namespace GcodePrep

namespace Parser

open GcodePrep.Expr

/-- The outcome `x` is `y`, unless `limit` was met on the way to it. -/
def Cut (limit : Nat) {α : Type} (x y : Except Fault α) : Prop :=
  x = y ∨ ∃ offset, x = .error (.atOffset (.tooDeep limit) offset)

namespace Cut

variable {limit : Nat} {α β : Type} {x y : Except Fault α}

theorem refl (x : Except Fault α) : Cut limit x x := .inl rfl

theorem tooDeep (offset : Nat) (y : Except Fault α) :
    Cut limit (.error (.atOffset (.tooDeep limit) offset)) y := .inr ⟨offset, rfl⟩

theorem bind (h : Cut limit x y) {f g : α → Except Fault β} (next : ∀ a, Cut limit (f a) (g a)) :
    Cut limit (x >>= f) (y >>= g) := by
  rcases h with rfl | ⟨offset, rfl⟩
  · cases x with
    | error fault => exact refl _
    | ok a => exact next a
  · exact tooDeep offset _

theorem eq_ok (h : Cut limit x y) {a : α} (ok : x = .ok a) : y = .ok a := by
  rcases h with rfl | ⟨offset, rfl⟩
  · exact ok
  · cases ok

theorem eq_error (h : Cut limit x y) {fault : Fault} (failed : x = .error fault)
    (other : fault.cause ≠ .tooDeep limit) : y = .error fault := by
  rcases h with rfl | ⟨offset, rfl⟩
  · exact failed
  · cases failed
    exact absurd rfl other

end Cut

variable {limit : Nat} {p q : Parse Expr}

theorem operands_cut (cut : ∀ ts, Cut limit (p ts) (q ts)) (op? : Mark → Option BinaryOp) (n : Nat)
    (left : Expr) (ts : List Lexeme) :
    Cut limit (operands op? p n left ts) (operands op? q n left ts) := by
  induction n generalizing left ts with
  | zero => exact .refl _
  | succ n ih =>
    cases ts with
    | nil => exact .refl _
    | cons t ts =>
      obtain ⟨token, offset⟩ := t
      cases token with
      | value | quoted | word => exact .refl _
      | mark m =>
        simp only [operands]
        cases op? m with
        | none => exact .refl _
        | some op => exact (cut ts).bind fun read => ih _ read.2

theorem binary_cut (cut : ∀ ts, Cut limit (p ts) (q ts)) (levels : List (Mark → Option BinaryOp))
    (ts : List Lexeme) : Cut limit (binary p levels ts) (binary q levels ts) := by
  induction levels generalizing ts with
  | nil => exact cut ts
  | cons op? levels ih => exact (ih ts).bind fun read => operands_cut ih op? _ read.1 read.2

theorem signed_cut {primary primary' : Parse Expr} (cut : ∀ ts, Cut limit (p ts) (q ts))
    (primary_cut : ∀ ts, Cut limit (primary ts) (primary' ts)) (ts : List Lexeme) :
    Cut limit (signed p primary ts) (signed q primary' ts) := by
  cases ts with
  | nil => exact primary_cut []
  | cons t ts =>
    obtain ⟨token, offset⟩ := t
    cases token with
    | value | quoted | word => exact primary_cut _
    | mark m =>
      simp only [signed]
      cases unaryOp? m with
      | none => exact primary_cut _
      | some op => exact (cut ts).bind fun _ => .refl _

section

variable (limit' stop : Nat)

theorem expected_eq (m : Mark) (ts : List Lexeme) :
    (Scope.mk limit stop).expected m ts = (Scope.mk limit' stop).expected m ts := by
  cases ts <;> rfl

theorem unexpected_eq (ts : List Lexeme) :
    (Scope.mk limit stop).unexpected ts = (Scope.mk limit' stop).unexpected ts := by
  cases ts <;> rfl

theorem arguments_cut (cut : ∀ ts, Cut limit (p ts) (q ts)) (n : Nat) (ts : List Lexeme) :
    Cut limit (arguments ⟨limit, stop⟩ p n ts) (arguments ⟨limit', stop⟩ q n ts) := by
  induction n generalizing ts with
  | zero => exact .inl (congrArg Except.error (unexpected_eq limit' stop ts))
  | succ n ih =>
    refine (cut ts).bind ?_
    rintro ⟨first, after⟩
    dsimp only
    cases afterMark? .closeParen after with
    | some rest => exact .refl _
    | none =>
      cases afterMark? .comma after with
      | none => exact .inl (congrArg Except.error (expected_eq limit' stop .comma after))
      | some rest => exact (ih rest).bind fun _ => .refl _

theorem primary_cut (cut : ∀ ts, Cut limit (p ts) (q ts)) (ts : List Lexeme) :
    Cut limit (primary ⟨limit, stop⟩ p ts) (primary ⟨limit', stop⟩ q ts) := by
  fun_cases primary ⟨limit, stop⟩ p ts with
  | case1 v offset ts => exact .refl _
  | case2 s offset ts => exact .refl _
  | case3 name offset ts alone =>
    rw [primary, alone]
    exact .refl _
  | case4 name offset ts ts' opened ts'' closed =>
    rw [primary, opened]
    dsimp only
    rw [closed]
    exact .refl _
  | case5 name offset ts ts' opened given =>
    rw [primary, opened]
    dsimp only
    rw [given]
    exact (arguments_cut limit' stop cut _ _).bind fun _ => .refl _
  | case6 offset ts =>
    refine (cut ts).bind ?_
    rintro ⟨inner, after⟩
    dsimp only
    cases afterMark? .closeParen after with
    | some rest => exact .refl _
    | none => exact .inl (congrArg Except.error (expected_eq limit' stop .closeParen after))
  | case7 ts value quoted word openParen =>
    rw [primary.eq_5 _ _ ts value quoted word openParen]
    exact .inl (congrArg Except.error (unexpected_eq limit' stop ts))

theorem choice_cut {u v : Parse Expr} (cut : ∀ ts, Cut limit (p ts) (q ts))
    (unary_cut : ∀ ts, Cut limit (u ts) (v ts)) (ts : List Lexeme) :
    Cut limit (choice ⟨limit, stop⟩ p u ts) (choice ⟨limit', stop⟩ q v ts) := by
  refine (binary_cut unary_cut binaryLevels ts).bind ?_
  rintro ⟨condition, after⟩
  dsimp only
  cases afterMark? .question after with
  | none => exact .refl _
  | some rest =>
    refine (cut rest).bind ?_
    rintro ⟨yes, after⟩
    dsimp only
    cases afterMark? .colon after with
    | none => exact .inl (congrArg Except.error (expected_eq limit' stop .colon after))
    | some rest => exact (cut rest).bind fun _ => .refl _

theorem assignment_cut {u v : Parse Expr} (cut : ∀ ts, Cut limit (p ts) (q ts))
    (unary_cut : ∀ ts, Cut limit (u ts) (v ts)) (ts : List Lexeme) :
    Cut limit (assignment ⟨limit, stop⟩ p u ts) (assignment ⟨limit', stop⟩ q v ts) := by
  have other := choice_cut limit' stop cut unary_cut
  fun_cases assignment ⟨limit, stop⟩ p u ts with
  | case1 name offset m place ts op found =>
    rw [assignment, found]
    exact (cut ts).bind fun _ => .refl _
  | case2 name offset m place ts found =>
    rw [assignment, found]
    exact other _
  | case3 ts plain =>
    rw [assignment_eq_choice fun name offset m place tail eq => (plain name offset m place tail eq).elim]
    exact other ts

theorem statement_and_unary_cut (room room' : Nat) (le : room ≤ room') :
    (∀ ts, Cut limit (statement ⟨limit, stop⟩ room ts) (statement ⟨limit', stop⟩ room' ts)) ∧
      ∀ ts, Cut limit (unary ⟨limit, stop⟩ room ts) (unary ⟨limit', stop⟩ room' ts) := by
  induction room generalizing room' with
  | zero =>
    have tooDeep (q : Parse Expr) (ts : List Lexeme) :
        Cut limit (.error ((Scope.mk limit stop).tooDeep ts)) (q ts) := .tooDeep _ _
    constructor
    · intro ts
      rw [statement]
      exact tooDeep _ ts
    · intro ts
      cases room' <;>
      · simp only [unary]
        exact signed_cut (tooDeep _) (primary_cut limit' stop (tooDeep _)) ts
  | succ room ih =>
    obtain ⟨room', rfl⟩ : ∃ i, room' = i + 1 := ⟨room' - 1, by omega⟩
    have smaller := ih room' (Nat.le_of_succ_le_succ le)
    have assigned := assignment_cut limit' stop smaller.1 smaller.2
    constructor
    · intro ts
      simp only [statement]
      exact assigned ts
    · intro ts
      simp only [unary]
      exact signed_cut smaller.2 (primary_cut limit' stop assigned) ts

theorem chainOf_cut (cut : ∀ ts, Cut limit (p ts) (q ts)) (n : Nat) (ts : List Lexeme) :
    Cut limit (chainOf p n ts) (chainOf q n ts) := by
  induction n generalizing ts with
  | zero => exact .refl _
  | succ n ih =>
    simp only [chainOf]
    cases skipSemicolons ts with
    | nil => exact .refl _
    | cons t ts =>
      refine (cut (t :: ts)).bind ?_
      rintro ⟨first, after⟩
      dsimp only
      cases (afterMark? .comma after).or (afterMark? .semicolon after) with
      | none => exact .refl _
      | some rest => exact (ih rest).bind fun _ => .refl _

theorem ofLexemes_cut (le : limit ≤ limit') (ts : List Lexeme) :
    Cut limit (ofLexemes ⟨limit, stop⟩ ts) (ofLexemes ⟨limit', stop⟩ ts) := by
  have cut (ts : List Lexeme) : Cut limit (statement ⟨limit, stop⟩ limit ts)
      (statement ⟨limit', stop⟩ limit' ts) :=
    (statement_and_unary_cut limit' stop limit limit' le).1 ts
  refine (chainOf_cut cut (ts.length + 1) ts).bind ?_
  rintro ⟨items, rest⟩
  rcases rest with _ | ⟨t, rest⟩
  · exact .refl _
  · exact .inl (congrArg Except.error (unexpected_eq limit' stop (t :: rest)))

end

end Parser

namespace Expr

theorem parse_cut (src : String) {depth depth' : Nat} (le : depth ≤ depth') :
    Parser.Cut depth (parse src depth) (parse src depth') := by
  unfold parse
  cases Token.lexemes src with
  | error defect => exact .refl _
  | ok ts => exact Parser.ofLexemes_cut depth' src.utf8ByteSize le ts

def entries : Weighting where
  of s := if s.isEntered then 1 else 0
  left := rfl
  entered _ h := Nat.le_of_eq (if_pos h)

theorem weight_entries (steps : List Step) : entries.weight steps = steps.countP Step.isEntered := by
  induction steps with
  | nil => rfl
  | cons s steps ih => rw [Weighting.weight_cons, ih, List.countP_cons, Nat.add_comm]; rfl

/-- A higher depth limit changes neither a tree nor a fault, unless the fault is that the limit was met.
Along every path of a tree, the statement itself and the operands of signs, values of assignments,
arguments and branches entered below it are no more than the limit. -/
theorem depth_limit_only_cuts (src : String) (depth depth' : Nat) (le : depth ≤ depth') :
    (∀ e, parse src depth = .ok e → parse src depth' = .ok e) ∧
    (∀ fault, parse src depth = .error fault → fault.cause ≠ .tooDeep depth →
      parse src depth' = .error fault) ∧
    ∀ e, parse src depth = .ok e → ∀ steps, e.Path steps → 1 + steps.countP Step.isEntered ≤ depth := by
  have cut := parse_cut src le
  refine ⟨fun e => cut.eq_ok, fun fault => cut.eq_error, fun e parsed steps path => ?_⟩
  have light := parse_lighter entries parsed steps path
  have unit : entries.stretch + 1 = 1 := rfl
  have free : entries.of .statement = 0 := rfl
  rw [weight_entries, unit, free] at light
  omega

/-- A limit of five is the least for the first source, whose deepest path enters a value, an operand, an
argument and a branch; the second ends too early under every limit above two. -/
theorem depth_five_suffices :
    (∃ e, parse "a = -f(b ? 1 : 2)" 5 = .ok e ∧ parse "a = -f(b ? 1 : 2)" 64 = .ok e ∧
      e.Path [.value, .operand, .argument, .branch] ∧
      1 + [Step.value, .operand, .argument, .branch].countP Step.isEntered ≤ 5) ∧
    parse "a = -f(b ? 1 : 2)" 4 = .error (.atOffset (.tooDeep 4) 11) ∧
    parse "((1" 3 = .error (.atOffset (.expected .closeParen none) 3) ∧
    parse "((1" 64 = .error (.atOffset (.expected .closeParen none) 3) := by
  have limits : 5 ≤ 64 := by decide
  obtain ⟨same, -, short⟩ := depth_limit_only_cuts "a = -f(b ? 1 : 2)" 5 64 limits
  have path : Path (.assign .set "a" (.unary .minus
      (.call "f" [.choice (.symbol "b" 7) (.literal (.int 1) 11) (.literal (.int 2) 15)] 5) 4) 0)
      [.value, .operand, .argument, .branch] :=
    .value _ _ _ (.operand _ _ (.argument _ _ List.mem_cons_self (.yes _ _ (.literal _ _))))
  obtain ⟨-, kept, -⟩ := depth_limit_only_cuts "((1" 3 64 (by decide)
  exact ⟨⟨_, rfl, same _ rfl, path, short _ rfl _ path⟩, rfl, rfl, kept _ rfl nofun⟩

end Expr

end GcodePrep
