import GcodePrep.Proofs.TreePaths

set_option autoImplicit false

/-!
# How high parsed trees are

The height of a tree is the depth of the recursion that evaluates it. All that adds to it is counted
against the depth limit or happens a fixed number of times between two counted steps, with one exception:
each further operator of a level puts what stands before it one step deeper, as its left operand. Sums of
any length pass the lowest limit, and they are as high as they are long.
-/

namespace GcodePrep

namespace Expr

mutual

/-- The number of nodes on a longest path. -/
def height : Expr → Nat
  | literal .. | symbol .. => 1
  | unary _ e _ => e.height + 1
  | binary _ l r _ => max l.height r.height + 1
  | choice c yes no => max c.height (max yes.height no.height) + 1
  | assign _ _ e _ => e.height + 1
  | call _ args _ => heightAll args + 1
  | chain items => heightAll items + 1

def heightAll : List Expr → Nat
  | [] => 0
  | e :: es => max e.height (heightAll es)

end

def Reaches (e : Expr) (n : Nat) : Prop := ∃ steps, e.Path steps ∧ steps.length + 1 = n

theorem Reaches.step {e e' : Expr} {s : Step} {n : Nat} (h : e.Reaches n)
    (enter : ∀ steps, e.Path steps → e'.Path (s :: steps)) : e'.Reaches (n + 1) := by
  obtain ⟨steps, path, rfl⟩ := h
  exact ⟨s :: steps, enter steps path, rfl⟩

theorem Reaches.sup {e : Expr} {m n : Nat} (h : e.Reaches m) (h' : e.Reaches n) : e.Reaches (max m n) := by
  have greater : max m n = m ∨ max m n = n := Std.max_eq_or
  rcases greater with eq | eq
  · rwa [eq]
  · rwa [eq]

mutual

theorem reaches_height (e : Expr) : e.Reaches e.height := by
  match e with
  | literal v offset => exact ⟨[], .literal v offset, rfl⟩
  | symbol name offset => exact ⟨[], .symbol name offset, rfl⟩
  | unary op e offset => exact (reaches_height e).step fun _ => .operand op offset
  | binary op l r offset =>
    have left := (reaches_height l).step fun _ => Path.left op r offset
    have right := (reaches_height r).step fun _ => Path.right op l offset
    rw [height, ← Nat.add_max_add_right]
    exact left.sup right
  | choice c yes no =>
    have condition := (reaches_height c).step fun _ => Path.condition yes no
    have first := (reaches_height yes).step fun _ => Path.yes c no
    have second := (reaches_height no).step fun _ => Path.no c yes
    rw [height, ← Nat.add_max_add_right, ← Nat.add_max_add_right]
    exact condition.sup (first.sup second)
  | assign op name e offset => exact (reaches_height e).step fun _ => .value op name offset
  | call name args offset =>
    rcases reaches_heightAll args with rfl | ⟨e, mem, reached⟩
    · exact ⟨[], .emptyCall name offset, rfl⟩
    · exact reached.step fun _ => .argument name offset mem
  | chain items =>
    rcases reaches_heightAll items with rfl | ⟨e, mem, reached⟩
    · exact ⟨[], .emptyChain, rfl⟩
    · exact reached.step fun _ => .statement mem

theorem reaches_heightAll (es : List Expr) : es = [] ∨ ∃ e ∈ es, e.Reaches (heightAll es) := by
  match es with
  | [] => exact .inl rfl
  | first :: es =>
    have reached := reaches_height first
    rcases reaches_heightAll es with rfl | ⟨e, mem, reached'⟩
    · rw [heightAll, heightAll, Nat.max_zero]
      exact .inr ⟨first, List.mem_cons_self, reached⟩
    · rw [heightAll]
      have greater : max first.height (heightAll es) = first.height ∨
          max first.height (heightAll es) = heightAll es := Std.max_eq_or
      rcases greater with eq | eq
      · rw [eq]
        exact .inr ⟨first, List.mem_cons_self, reached⟩
      · rw [eq]
        exact .inr ⟨e, List.mem_cons_of_mem _ mem, reached'⟩

end

/-- Counts all steps but those to left operands. -/
def flat : Weighting where
  of s := if s = .left then 0 else 1
  left := rfl
  entered s _ := by cases s <;> decide

theorem weight_flat (steps : List Step) : flat.weight steps + steps.count .left = steps.length := by
  induction steps with
  | nil => rfl
  | cons s steps ih =>
    rw [Weighting.weight_cons, List.count_cons, List.length_cons, ← ih]
    cases s <;> simp [flat] <;> omega

theorem length_le_of_path {src : String} {depth : Nat} {e : Expr} (h : parse src depth = .ok e)
    {steps : List Step} (path : e.Path steps) : steps.length ≤ 8 * depth + steps.count .left := by
  have light := parse_lighter flat h steps path
  have unit : flat.stretch + 1 = 8 := rfl
  have counted : flat.of .statement = 1 := rfl
  rw [unit, counted] at light
  have length := weight_flat steps
  omega

end Expr

namespace Parser

def plusOnes : Nat → List Char
  | 0 => []
  | n + 1 => '+' :: '1' :: plusOnes n

def plusOneTokens (offset : Nat) : Nat → List Lexeme
  | 0 => []
  | n + 1 => ⟨.mark .plus, offset⟩ :: ⟨.value (.int 1), offset + 1⟩ :: plusOneTokens (offset + 2) n

def plusOneTree (left : Expr) (offset : Nat) : Nat → Expr
  | 0 => left
  | n + 1 => plusOneTree (.binary .add left (.literal (.int 1) (offset + 1)) offset) (offset + 2) n

theorem read_one (n : Nat) : Token.read '1' (plusOnes n) = .ok (.value (.int 1), 1) := by
  cases n <;> rfl

theorem lexemesFrom_one {offset n : Nat}
    (later : Token.lexemesFrom 0 (offset + 1) (plusOnes n) = .ok (plusOneTokens (offset + 1) n)) :
    Token.lexemesFrom 0 offset ('1' :: plusOnes n) =
      .ok (⟨.value (.int 1), offset⟩ :: plusOneTokens (offset + 1) n) := by
  rw [Token.lexemesFrom, if_neg (by decide), read_one]
  exact congrArg (Except.map _) later

theorem lexemesFrom_plusOnes (offset n : Nat) :
    Token.lexemesFrom 0 offset (plusOnes n) = .ok (plusOneTokens offset n) := by
  induction n generalizing offset with
  | zero => rfl
  | succ n ih => exact congrArg (Except.map _) (lexemesFrom_one (ih (offset + 2)))

section

variable (scope : Scope) (room : Nat)

theorem operand_one (offset place n : Nat) :
    binary (unary scope room) (binaryLevels.drop 5)
      (⟨.value (.int 1), offset⟩ :: plusOneTokens place n) =
      .ok (.literal (.int 1) offset, plusOneTokens place n) := by
  cases room <;> cases n <;> rfl

/-- The loop over the operators of the additive level takes all that is there. -/
theorem operands_plusOnes (n rounds : Nat) (enough : n ≤ rounds) (left : Expr) (offset : Nat) :
    operands (fun | .plus => some .add | .minus => some .sub | _ => none)
      (binary (unary scope room) (binaryLevels.drop 5)) rounds left (plusOneTokens offset n) =
      .ok (plusOneTree left offset n, []) := by
  induction n generalizing rounds left offset with
  | zero => cases rounds <;> rfl
  | succ n ih =>
    obtain ⟨rounds, rfl⟩ : ∃ i, rounds = i + 1 := ⟨rounds - 1, by omega⟩
    rw [plusOneTokens, operands]
    dsimp only
    rw [operand_one]
    exact ih rounds (by omega) _ _

theorem binary_of_end {unary : Parse Expr} {levels : List (Mark → Option BinaryOp)} {ts : List Lexeme}
    {e : Expr} (h : binary unary levels ts = .ok (e, [])) (op? : Mark → Option BinaryOp) :
    binary unary (op? :: levels) ts = .ok (e, []) := by
  rw [binary, h]
  rfl

theorem length_plusOneTokens (offset n : Nat) : (plusOneTokens offset n).length = 2 * n := by
  induction n generalizing offset with
  | zero => rfl
  | succ n ih =>
    rw [plusOneTokens, List.length_cons, List.length_cons, ih]
    omega

theorem statement_sum (n : Nat) :
    statement scope (room + 1) (⟨.value (.int 1), 0⟩ :: plusOneTokens 1 n) =
      .ok (plusOneTree (.literal (.int 1) 0) 1 n, []) := by
  have additive : binary (unary scope room) (binaryLevels.drop 4)
      (⟨.value (.int 1), 0⟩ :: plusOneTokens 1 n) =
      .ok (plusOneTree (.literal (.int 1) 0) 1 n, []) := by
    change (binary (unary scope room) (binaryLevels.drop 5) _ >>= _) = _
    rw [operand_one]
    exact operands_plusOnes scope room n _ (by rw [length_plusOneTokens]; omega) _ _
  have whole : binary (unary scope room) binaryLevels (⟨.value (.int 1), 0⟩ :: plusOneTokens 1 n) =
      .ok (plusOneTree (.literal (.int 1) 0) 1 n, []) :=
    binary_of_end (binary_of_end (binary_of_end (binary_of_end additive _) _) _) _
  simp only [statement, assignment, choice]
  rw [whole]
  rfl

end

theorem height_plusOneTree (left : Expr) (some_height : 1 ≤ left.height) (offset n : Nat) :
    (plusOneTree left offset n).height = left.height + n := by
  induction n generalizing left offset with
  | zero => rfl
  | succ n ih =>
    rw [plusOneTree, ih _ (by simp [Expr.height]), Expr.height, Expr.height]
    omega

end Parser

namespace Expr

def sumOfOnes (n : Nat) : String := String.ofList ('1' :: Parser.plusOnes n)

theorem parse_sumOfOnes (room n : Nat) :
    parse (sumOfOnes n) (room + 1) = .ok (Parser.plusOneTree (literal (.int 1) 0) 1 n) := by
  have lexed : Token.lexemes (sumOfOnes n) =
      .ok (⟨.value (.int 1), 0⟩ :: Parser.plusOneTokens 1 n) := by
    rw [Token.lexemes, sumOfOnes, String.toList_ofList]
    exact Parser.lexemesFrom_one (Parser.lexemesFrom_plusOnes 1 n)
  refine parse_eq_ok_iff.mpr ⟨_, lexed, Parser.ofLexemes_eq_ok_iff.mpr
    ⟨[_], List.cons_ne_nil _ _, rfl, ?_⟩⟩
  rw [Parser.chainOf_read rfl (Parser.statement_sum _ room n)]
  rfl

theorem height_sumOfOnes (n : Nat) :
    (Parser.plusOneTree (literal (.int 1) 0) 1 n).height = n + 1 := by
  have leaf : 1 ≤ (literal (.int 1) 0).height := by decide
  rw [Parser.height_plusOneTree _ leaf, height, Nat.add_comm]

/-- A path through a tree read under a depth limit has at most eight steps per unit of the limit, steps to
left operands apart. So the limit bounds the height of the tree as far as paths have few left operands,
with seven of them by eight times the next limit; but under no limit that accepts anything is there a
height that no tree exceeds. -/
theorem height_bounded_but_for_left_operands (depth : Nat) :
    (∀ src e, parse src depth = .ok e →
      (∀ steps, e.Path steps → steps.length ≤ 8 * depth + steps.count .left) ∧
        ∀ lefts, (∀ steps, e.Path steps → steps.count .left ≤ lefts) →
          e.height ≤ 8 * depth + (lefts + 1)) ∧
    (0 < depth → ∀ n, ∃ src e, parse src depth = .ok e ∧ n < e.height) := by
  refine ⟨fun src e parsed => ⟨fun steps => length_le_of_path parsed, fun lefts few => ?_⟩,
    fun positive n => ?_⟩
  · obtain ⟨steps, path, eq⟩ := reaches_height e
    have length := length_le_of_path parsed path
    have bounded := few steps path
    omega
  · obtain ⟨room, rfl⟩ : ∃ i, depth = i + 1 := ⟨depth - 1, by omega⟩
    refine ⟨sumOfOnes n, _, parse_sumOfOnes room n, ?_⟩
    rw [height_sumOfOnes]
    exact Nat.lt_succ_self n

/-- No path of this tree has more than one left operand, so that eight times the next limit bounds its
height. -/
theorem short_sum_within_bound :
    ∃ e, parse "-a + 2 ? 3 : 4" 2 = .ok e ∧ e.Path [.condition, .left, .operand] ∧ e.height = 4 ∧
      e.height ≤ 8 * (2 + 1) ∧ ∃ src e', parse src 2 = .ok e' ∧ 8 * (2 + 1) < e'.height := by
  obtain ⟨bounded, unbounded⟩ := height_bounded_but_for_left_operands 2
  have parsed : parse "-a + 2 ? 3 : 4" 2 =
      .ok (choice (binary .add (unary .minus (symbol "a" 1) 0) (literal (.int 2) 5) 3)
        (literal (.int 3) 9) (literal (.int 4) 13)) := rfl
  have path := Path.condition (literal (.int 3) 9) (literal (.int 4) 13)
    (.left .add (literal (.int 2) 5) 3 (.operand .minus 0 (.symbol "a" 1)))
  refine ⟨_, parsed, path, rfl, (bounded _ _ parsed).2 7 fun steps path => ?_, unbounded (by decide) _⟩
  cases path with
  | condition yes no path =>
    cases path with
    | left op r offset path =>
      cases path with
      | operand op offset path =>
        cases path
        decide
    | right op l offset path =>
      cases path
      decide
  | yes c no path =>
    cases path
    decide
  | no c yes path =>
    cases path
    decide

/-- The sum of eighteen ones is accepted under a limit of one, and higher than eight times two. -/
theorem long_sum_exceeds_bound :
    ∃ e, parse "1+1+1+1+1+1+1+1+1+1+1+1+1+1+1+1+1+1" 1 = .ok e ∧ ¬ e.height ≤ 8 * (1 + 1) := by
  refine ⟨_, parse_sumOfOnes 0 17, ?_⟩
  rw [height_sumOfOnes]
  decide

end Expr

end GcodePrep
