import GcodePrep.Proofs.ParserSoundness

set_option autoImplicit false

/-!
# What is in the grammar the parser accepts

A phrase is read in full wherever the mark behind it binds less tightly than the phrase does. The room a
parser needs is bounded by the length of the phrase, so a depth limit of that length is never felt. As
the parser gives one answer only, the grammar gives every sentence one tree.
-/

namespace GcodePrep.Grammar

def strength : Mark → Nat
  | .assign | .plusAssign | .minusAssign | .timesAssign | .divideAssign => 1
  | .question => 2
  | .either => 3
  | .both => 4
  | .equal | .unequal | .strictlyEqual | .strictlyUnequal => 5
  | .less | .greater | .atMost | .atLeast => 6
  | .plus | .minus => 7
  | .times | .divide | .percent => 8
  | .openParen => 9
  | .bang | .colon | .closeParen | .comma | .semicolon => 0

namespace Nonterminal

def rank : Nonterminal → Nat
  | assignment | ternary => 1
  | level .or => 3
  | level .and => 4
  | level .equality => 5
  | level .relational => 6
  | level .additive => 7
  | level .multiplicative => 8
  | unary | primary => 9

end Nonterminal

theorem strength_of_operator {l : Level} {m : Mark} {op : BinaryOp} (h : (m, op) ∈ l.operators) :
    strength m = (Nonterminal.level l).rank := by
  have all : ∀ p ∈ l.operators, strength p.1 = (Nonterminal.level l).rank := by
    cases l <;> decide
  exact all _ h

theorem strength_of_assignment {m : Mark} {op : AssignOp} (h : (m, op) ∈ assignments) :
    strength m = 1 := by
  have all : ∀ p ∈ assignments, strength p.1 = 1 := by decide
  exact all _ h

theorem rank_operand (l : Level) : (Nonterminal.level l).rank < l.operand.rank := by
  cases l <;> decide

theorem rank_level (l : Level) : 3 ≤ (Nonterminal.level l).rank := by
  cases l <;> decide

/-- What follows does not belong to a phrase of `c`. -/
def Stops (c : Nonterminal) (rest : List Lexeme) : Prop :=
  ∀ m offset tail, rest = ⟨.mark m, offset⟩ :: tail → strength m < c.rank

namespace Stops

variable {c c' : Nonterminal} {rest : List Lexeme}

theorem mono (h : Stops c rest) (le : c.rank ≤ c'.rank) : Stops c' rest :=
  fun m offset tail eq => Nat.lt_of_lt_of_le (h m offset tail eq) le

theorem nil : Stops c [] := fun _ _ _ eq => nomatch eq

theorem cons {m : Mark} (weak : strength m < c.rank) (offset : Nat) (tail : List Lexeme) :
    Stops c (⟨.mark m, offset⟩ :: tail) := by
  intro m' offset' tail' eq
  cases eq
  exact weak

theorem separator (h : Separator rest) (tail : List Lexeme) : Stops .assignment (rest ++ tail) := by
  cases h with
  | comma offset => exact cons (by decide) offset _
  | semicolon offset => exact cons (by decide) offset _

end Stops

/-- An operand, a sign or an opening parenthesis. -/
def Starts (t : Lexeme) : Prop :=
  ∀ m, t.token = .mark m → m = .openParen ∨ ∃ op, (m, op) ∈ signs

theorem Starts.ne {t : Lexeme} (h : Starts t) {m : Mark} (weak : strength m = 0) (other : m ≠ .bang) :
    t.token ≠ .mark m := by
  intro eq
  rcases h m eq with rfl | ⟨op, mem⟩
  · cases weak
  · have all : ∀ p ∈ signs, strength p.1 = 0 → p.1 = .bang := by decide
    exact other (all _ mem weak)

/-- A phrase other than an assignment: after a name at its start there is no assignment either. -/
def Opening (us : List Lexeme) : Prop :=
  ∃ t tail, us = t :: tail ∧ Starts t ∧
    ∀ name m offset others, t.token = .word name → tail = ⟨.mark m, offset⟩ :: others → strength m ≠ 1

theorem Opening.append {us : List Lexeme} (h : Opening us) {m : Mark} (other : strength m ≠ 1)
    (offset : Nat) (vs : List Lexeme) : Opening (us ++ ⟨.mark m, offset⟩ :: vs) := by
  obtain ⟨t, tail, rfl, first, second⟩ := h
  refine ⟨t, tail ++ ⟨.mark m, offset⟩ :: vs, rfl, first, ?_⟩
  intro name m' offset' others word eq
  cases tail with
  | nil =>
    cases eq
    exact other
  | cons t' tail =>
    cases eq
    exact second name m' offset' tail word rfl

theorem opening_unary {us : List Lexeme} {e : Expr} (h : Derives .unary us e) : Opening us := by
  cases h with
  | sign offset operator =>
    exact ⟨_, _, rfl, fun m eq => .inr ⟨_, by cases eq; exact operator⟩, nofun⟩
  | primary h =>
    cases h with
    | value | quoted => exact ⟨_, _, rfl, nofun, nofun⟩
    | symbol => exact ⟨_, _, rfl, nofun, nofun⟩
    | emptyCall name offset opening =>
      refine ⟨_, _, rfl, nofun, fun _ m _ _ _ eq => ?_⟩
      cases eq
      decide
    | call name offset opening =>
      refine ⟨_, _, rfl, nofun, fun _ m _ _ _ eq => ?_⟩
      cases eq
      decide
    | parenthesised => exact ⟨_, _, rfl, fun m eq => .inl (by cases eq; rfl), nofun⟩

theorem opening_level {l : Level} {us : List Lexeme} {e : Expr} (h : Derives (.level l) us e) :
    Opening us := by
  refine Level.induction (P := fun us _ => Opening us) (fun _ _ h => opening_unary h) ?_ l h
  intro l us left m op opening operator offset vs right _
  have stronger := rank_level l
  rw [← strength_of_operator operator] at stronger
  exact opening.append (by omega) offset vs

theorem opening_ternary {us : List Lexeme} {e : Expr} (h : Derives .ternary us e) : Opening us := by
  cases h with
  | choice question colon h => exact (opening_level h).append (by decide) question _
  | condition h => exact opening_level h

theorem exists_cons_of_assignment {us : List Lexeme} {e : Expr} (h : Derives .assignment us e) :
    ∃ t tail, us = t :: tail ∧ Starts t := by
  cases h with
  | assign => exact ⟨_, _, rfl, nofun⟩
  | ternary h =>
    obtain ⟨t, tail, eq, first, -⟩ := opening_ternary h
    exact ⟨t, tail, eq, first⟩

theorem exists_cons_of_arguments {us : List Lexeme} {es : List Expr}
    (h : ArgumentList (Derives .assignment) us es) : ∃ t tail, us = t :: tail ∧ Starts t := by
  cases h with
  | last h => exact exists_cons_of_assignment h
  | more comma h others =>
    obtain ⟨t, tail, rfl, starts⟩ := exists_cons_of_assignment h
    exact ⟨t, _, rfl, starts⟩

end GcodePrep.Grammar

namespace GcodePrep.Parser

open Grammar

theorem afterMark?_eq_none {c : Nonterminal} {rest : List Lexeme} (stops : Stops c rest) {m : Mark}
    (strong : c.rank ≤ strength m) : afterMark? m rest = none := by
  cases found : afterMark? m rest with
  | none => rfl
  | some tail =>
    obtain ⟨offset, rfl⟩ := afterMark?_eq_some_iff.mp found
    have weak := stops m offset tail rfl
    omega

theorem afterMark?_cons (m : Mark) (offset : Nat) (rest : List Lexeme) :
    afterMark? m (⟨.mark m, offset⟩ :: rest) = some rest :=
  afterMark?_eq_some_iff.mpr ⟨offset, rfl⟩

def Complete (p : Parse Expr) (c : Nonterminal) (size : Nat) : Prop :=
  ∀ us e rest, Derives c us e → us.length ≤ size → Stops c rest → p (us ++ rest) = .ok (e, rest)

theorem operands_stop {op? : Mark → Option BinaryOp} {rest : List Lexeme}
    (stops : ∀ m offset tail, rest = ⟨.mark m, offset⟩ :: tail → op? m = none) (operand : Parse Expr)
    (n : Nat) (left : Expr) : operands op? operand n left rest = .ok (left, rest) := by
  cases n with
  | zero => rfl
  | succ n =>
    cases rest with
    | nil => rfl
    | cons t tail =>
      obtain ⟨token, offset⟩ := t
      cases token with
      | mark m => simp only [operands, stops m offset tail rfl]
      | value | quoted | word => rfl

theorem binary_complete {unary : Parse Expr} {size : Nat} (l : Level)
    (complete : Complete (binary unary (tablesFrom l).tail) l.operand size) :
    Complete (binary unary (tablesFrom l)) (.level l) size := by
  obtain ⟨op?, tables, table⟩ := exists_table l
  -- After a phrase of the level, the loop stands behind it with the tree of the phrase.
  have loop (us : List Lexeme) (e : Expr) (h : LeftAssociative (Derives l.operand) l.operators us e)
      (rest : List Lexeme) (short : us.length ≤ size) (stops : Stops l.operand rest) :
      ∃ n, rest.length ≤ n ∧ binary unary (tablesFrom l) (us ++ rest) =
        operands op? (binary unary (tablesFrom l).tail) n e rest := by
    induction h generalizing rest with
    | first h =>
      refine ⟨rest.length, Nat.le_refl _, ?_⟩
      rw [tables, binary, ← tables, complete _ _ _ h short stops]
      rfl
    | @next ts vs left right m op offset before operator after ih =>
      rw [List.length_append, List.length_cons] at short
      have weak : strength m < l.operand.rank := strength_of_operator operator ▸ rank_operand l
      obtain ⟨n, enough, eq⟩ := ih (⟨.mark m, offset⟩ :: (vs ++ rest)) (by omega) (.cons weak offset _)
      rw [List.length_cons, List.length_append] at enough
      cases n with
      | zero => omega
      | succ n =>
        refine ⟨n, by omega, ?_⟩
        have read := complete vs right rest after (by omega) stops
        rw [List.append_assoc, List.cons_append, eq, operands, (table m op).mpr operator]
        dsimp only
        rw [read]
        rfl
  intro us e rest h short stops
  obtain ⟨n, -, eq⟩ := loop us e (l.derives_iff.mp h) rest short
    (stops.mono (Nat.le_of_lt (rank_operand l)))
  rw [eq]
  refine operands_stop (fun m offset tail follows => ?_) _ n e
  cases found : op? m with
  | none => rfl
  | some op =>
    have weak := stops m offset tail follows
    have strong := strength_of_operator ((table m op).mp found)
    omega

theorem levels_complete {unary : Parse Expr} {size : Nat} (complete : Complete unary .unary size) :
    Complete (binary unary binaryLevels) (.level .or) size := by
  have multiplicative : Complete (binary unary (tablesFrom .multiplicative)) (.level .multiplicative)
      size :=
    binary_complete .multiplicative complete
  have additive := binary_complete .additive multiplicative
  have relational := binary_complete .relational additive
  have equality := binary_complete .equality relational
  have and := binary_complete .and equality
  exact binary_complete .or and

section

variable {scope : Scope}

theorem arguments_complete {argument : Parse Expr} {size : Nat}
    (complete : Complete argument .assignment size) {us : List Lexeme} {es : List Expr}
    (h : ArgumentList (Derives .assignment) us es) (short : us.length ≤ size) {n : Nat}
    (enough : us.length < n) (closing : Nat) (rest : List Lexeme) :
    arguments scope argument n (us ++ ⟨.mark .closeParen, closing⟩ :: rest) = .ok (es, rest) := by
  induction h generalizing n with
  | @last ts e h =>
    have read := complete ts e (⟨.mark .closeParen, closing⟩ :: rest) h short
      (.cons (by decide) closing rest)
    cases n with
    | zero => omega
    | succ n =>
      rw [arguments, read]
      simp [bind, Except.bind, afterMark?_cons]
  | @more ts vs e es comma h others ih =>
    rw [List.length_append, List.length_cons] at short enough
    have read := complete ts e (⟨.mark .comma, comma⟩ :: (vs ++ ⟨.mark .closeParen, closing⟩ :: rest)) h
      (by omega) (.cons (by decide) comma _)
    cases n with
    | zero => omega
    | succ n =>
      rw [List.append_assoc, List.cons_append, arguments, read]
      have later := ih (by omega) (n := n) (by omega)
      have more_to_come : afterMark? .closeParen
          (⟨.mark .comma, comma⟩ :: (vs ++ ⟨.mark .closeParen, closing⟩ :: rest)) = none := rfl
      simp [bind, Except.bind, afterMark?_cons, more_to_come, later]

theorem primary_complete {nested : Parse Expr} {size size' : Nat}
    (complete : Complete nested .assignment size') (bound : size ≤ size' + 2) :
    Complete (primary scope nested) .primary size := by
  intro us e rest h short stops
  cases h with
  | value v offset => rfl
  | quoted s offset => rfl
  | symbol name offset =>
    have alone : afterMark? .openParen rest = none := afterMark?_eq_none stops (by decide)
    simp [primary, alone]
  | emptyCall name offset opening closing => simp [primary, afterMark?_cons]
  | @call ts es name offset opening closing h =>
    simp only [List.length_cons, List.length_append, List.length_nil] at short
    obtain ⟨t, tail, rfl, starts⟩ := exists_cons_of_arguments h
    have given : afterMark? .closeParen (t :: tail ++ ⟨.mark .closeParen, closing⟩ :: rest) = none := by
      refine Option.eq_none_iff_forall_ne_some.mpr fun after found => ?_
      obtain ⟨place, eq⟩ := afterMark?_eq_some_iff.mp found
      cases eq
      exact starts.ne rfl (by decide) rfl
    have read : arguments scope nested ((t :: tail ++ ⟨.mark .closeParen, closing⟩ :: rest).length + 1)
        (t :: tail ++ ⟨.mark .closeParen, closing⟩ :: rest) = .ok (es, rest) :=
      arguments_complete complete h (by omega)
        (by simp only [List.length_append, List.length_cons]; omega) closing rest
    simp only [List.cons_append, List.append_assoc, List.nil_append] at given read ⊢
    simp only [primary, afterMark?_cons, given, read, bind, Except.bind]
  | @parenthesised ts e opening closing h =>
    simp only [List.length_cons, List.length_append, List.length_nil] at short
    have read := complete ts e (⟨.mark .closeParen, closing⟩ :: rest) h (by omega)
      (.cons (by decide) closing rest)
    simp [primary, read, bind, Except.bind, afterMark?_cons]

theorem signed_complete {operand primary : Parse Expr} {size size' : Nat}
    (complete : Complete operand .unary size') (bound : size ≤ size' + 1)
    (primary_complete : Complete primary .primary size) :
    Complete (signed operand primary) .unary size := by
  intro us e rest h short stops
  cases h with
  | @sign ts e m op offset operator h =>
    rw [List.length_cons] at short
    have read := complete ts e rest h (by omega) stops
    simp [signed, unaryOp?_eq_some_iff.mpr operator, read, bind, Except.bind]
  | primary h =>
    rw [← primary_complete us e rest h short stops]
    cases h <;> rfl

variable {nested unary : Parse Expr} {size size' : Nat}

theorem choice_complete (complete : Complete nested .assignment size') (bound : size ≤ size' + 1)
    (unary_complete : Complete unary .unary size) :
    Complete (choice scope nested unary) .ternary size := by
  intro us e rest h short stops
  cases h with
  | @choice ts vs ws condition yes no question colon h first second =>
    simp only [List.length_cons, List.length_append] at short
    have read := levels_complete unary_complete ts condition
      (⟨.mark .question, question⟩ :: (vs ++ ⟨.mark .colon, colon⟩ :: (ws ++ rest))) h (by omega)
      (.cons (by decide) question _)
    have read_yes := complete vs yes (⟨.mark .colon, colon⟩ :: (ws ++ rest)) first (by omega)
      (.cons (by decide) colon _)
    have read_no := complete ws no rest second (by omega) (stops.mono (by decide))
    simp only [List.append_assoc, List.cons_append, choice, read, bind, Except.bind, afterMark?_cons,
      read_yes, read_no]
  | condition h =>
    have read := levels_complete unary_complete us e rest h short (stops.mono (by decide))
    have alone : afterMark? .question rest = none := afterMark?_eq_none stops (by decide)
    simp only [choice, read, bind, Except.bind, alone]

theorem assignment_eq_choice {ts : List Lexeme}
    (plain : ∀ name offset m place tail, ts = ⟨.word name, offset⟩ :: ⟨.mark m, place⟩ :: tail →
      strength m ≠ 1) :
    assignment scope nested unary ts = choice scope nested unary ts := by
  unfold assignment
  split
  · rename_i name offset m place tail
    split
    · rename_i op found
      have one := strength_of_assignment (assignOp?_eq_some_iff.mp found)
      exact absurd one (plain name offset m place tail rfl)
    · rfl
  · rfl

theorem assignment_complete (complete : Complete nested .assignment size') (bound : size ≤ size' + 1)
    (unary_complete : Complete unary .unary size) :
    Complete (assignment scope nested unary) .assignment size := by
  intro us e rest h short stops
  cases h with
  | @assign ts value m op name offset place operator h =>
    simp only [List.length_cons] at short
    have read := complete ts value rest h (by omega) stops
    simp only [List.cons_append, assignment, assignOp?_eq_some_iff.mpr operator, read, bind, Except.bind]
  | ternary h =>
    rw [assignment_eq_choice, choice_complete complete bound unary_complete us e rest h short
      (stops.mono (by decide))]
    obtain ⟨t, tail, rfl, -, second⟩ := opening_ternary h
    intro name offset m place others eq
    cases tail with
    | nil =>
      cases eq
      have weak := stops m place others rfl
      exact Nat.ne_of_lt weak
    | cons t' tail =>
      cases eq
      exact second name m place tail rfl rfl

end

variable (scope : Scope)

/-- A phrase of `n` tokens needs no more room than `n` for a statement, and one less for an operand. -/
theorem statement_and_unary_complete (room : Nat) :
    Complete (statement scope room) .assignment room ∧
      Complete (unary scope room) .unary (room + 1) := by
  have tooDeep : Complete (fun ts => .error (scope.tooDeep ts)) .assignment 0 ∧
      Complete (fun ts => .error (scope.tooDeep ts)) .unary 0 := by
    constructor
    · intro us e rest h short
      obtain ⟨t, tail, rfl, -⟩ := exists_cons_of_assignment h
      cases short
    · intro us e rest h short
      obtain ⟨t, tail, rfl, -⟩ := opening_unary h
      cases short
  induction room with
  | zero =>
    constructor
    · intro us e rest h short stops
      simpa only [statement] using tooDeep.1 us e rest h short stops
    · intro us e rest h short stops
      rw [unary]
      exact signed_complete tooDeep.2 (Nat.le_refl _) (primary_complete tooDeep.1 (by omega)) us e rest h
        short stops
  | succ room ih =>
    have assigned : Complete (assignment scope (statement scope room) (unary scope room)) .assignment
        (room + 1) :=
      assignment_complete ih.1 (Nat.le_refl _) ih.2
    constructor
    · intro us e rest h short stops
      rw [statement]
      exact assigned us e rest h short stops
    · intro us e rest h short stops
      rw [unary]
      exact signed_complete ih.2 (Nat.le_refl _) (primary_complete assigned (by omega)) us e rest h short
        stops

theorem skipSemicolons_append {lead : List Lexeme} (leading : Semicolons lead) {t : Lexeme}
    (other : t.token ≠ .mark .semicolon) (rest : List Lexeme) :
    skipSemicolons (lead ++ t :: rest) = t :: rest := by
  induction lead with
  | nil =>
    unfold skipSemicolons
    split
    · rename_i eq
      cases eq
      exact absurd rfl other
    · rfl
  | cons s lead ih =>
    obtain ⟨first, others⟩ := List.forall_mem_cons.mp leading
    obtain ⟨token, offset⟩ := s
    cases first
    exact ih others

theorem skipSemicolons_eq_nil {ts : List Lexeme} (h : Semicolons ts) : skipSemicolons ts = [] := by
  induction ts with
  | nil => rfl
  | cons s ts ih =>
    obtain ⟨first, others⟩ := List.forall_mem_cons.mp h
    obtain ⟨token, offset⟩ := s
    cases first
    exact ih others

theorem exists_of_separator {seps : List Lexeme} (h : Separator seps) :
    ∃ t more, seps = t :: more ∧ Semicolons more ∧ ∀ rest,
      (afterMark? .comma (t :: rest)).or (afterMark? .semicolon (t :: rest)) = some rest := by
  cases h with
  | comma offset all => exact ⟨_, _, rfl, all, fun rest => by simp [afterMark?]⟩
  | semicolon offset all => exact ⟨_, _, rfl, all, fun rest => by simp [afterMark?]⟩

theorem chainOf_succ {item : Parse Expr} {size : Nat} (complete : Complete item .assignment size)
    {lead us rest : List Lexeme} {e : Expr} (leading : Semicolons lead)
    (h : Derives .assignment us e) (short : us.length ≤ size) (stops : Stops .assignment rest) (n : Nat) :
    chainOf item (n + 1) (lead ++ (us ++ rest)) =
      (match (afterMark? .comma rest).or (afterMark? .semicolon rest) with
      | none => .ok ([e], rest)
      | some rest => chainOf item n rest >>= fun read => .ok (e :: read.1, read.2)) := by
  have read := complete us e rest h short stops
  obtain ⟨t, tail, rfl, starts⟩ := exists_cons_of_assignment h
  have skipped := skipSemicolons_append leading (starts.ne (m := .semicolon) rfl (by decide)) (tail ++ rest)
  rw [List.cons_append] at read ⊢
  rw [chainOf, skipped]
  dsimp only
  rw [read]
  rfl

theorem chainOf_complete {item : Parse Expr} {size : Nat} (complete : Complete item .assignment size)
    {body : List Lexeme} {es : List Expr} (h : Statements body es) (short : body.length ≤ size)
    {lead tail : List Lexeme} (leading : Semicolons lead) (ending : tail = [] ∨ Separator tail) {n : Nat}
    (enough : body.length < n) :
    chainOf item n (lead ++ (body ++ tail)) = .ok (es, []) := by
  induction h generalizing lead n with
  | @one us e h =>
    obtain ⟨t, others, eq, -⟩ := exists_cons_of_assignment h
    rw [eq, List.length_cons] at enough
    cases n with
    | zero => omega
    | succ n =>
      rcases ending with rfl | separator
      · rw [chainOf_succ complete leading h short .nil]
        rfl
      · have stops := Stops.separator separator []
        rw [List.append_nil] at stops
        rw [chainOf_succ complete leading h short stops]
        obtain ⟨t, more, rfl, all, follows⟩ := exists_of_separator separator
        rw [follows more]
        cases n with
        | zero => omega
        | succ n => simp only [chainOf, skipSemicolons_eq_nil all, bind, Except.bind]
  | @more us seps vs e es h separator others ih =>
    simp only [List.length_append] at short enough
    cases n with
    | zero => omega
    | succ n =>
      rw [List.append_assoc, List.append_assoc, chainOf_succ complete leading h (by omega)
        (.separator separator _)]
      obtain ⟨t, more, rfl, all, follows⟩ := exists_of_separator separator
      rw [List.cons_append, follows]
      rw [List.length_cons] at enough
      have later := ih (by omega) all (n := n) (by omega)
      simp only [later, bind, Except.bind]

theorem ofLexemes_complete {ts : List Lexeme} {e : Expr} (h : Sentence ts e)
    (deep : ts.length ≤ scope.depth) : ofLexemes scope ts = .ok e := by
  have accepted {lead body tail : List Lexeme} {es : List Expr} (leading : Semicolons lead)
      (statements : Statements body es) (ending : tail = [] ∨ Separator tail)
      (deep : (lead ++ (body ++ tail)).length ≤ scope.depth) :
      ofLexemes scope (lead ++ (body ++ tail)) = .ok (sequenceTree es) := by
    have complete := (statement_and_unary_complete scope scope.depth).1
    simp only [List.length_append] at deep
    have read := chainOf_complete complete statements (by omega) leading ending
      (n := (lead ++ (body ++ tail)).length + 1) (by simp only [List.length_append]; omega)
    rw [ofLexemes, read]
    cases statements with
    | one => rfl
    | more _ _ others => cases others <;> rfl
  cases h with
  | @plain lead body es leading statements =>
    have accepted : (lead ++ (body ++ [])).length ≤ scope.depth →
        ofLexemes scope (lead ++ (body ++ [])) = .ok (sequenceTree es) :=
      accepted leading statements (.inl rfl)
    rw [List.append_nil] at accepted
    exact accepted deep
  | separated leading statements separator => exact accepted leading statements (.inr separator) deep

theorem ne_chain {us : List Lexeme} {e : Expr} (h : Derives .assignment us e) (items : List Expr) :
    e ≠ .chain items := by
  induction size : us.length using Nat.strongRecOn generalizing us e with
  | ind n ih =>
    have unary (vs : List Lexeme) (e : Expr) (h : Derives .unary vs e) :
        vs.length ≤ n → e ≠ .chain items := by
      intro short
      cases h with
      | sign => nofun
      | primary h =>
        cases h with
        | parenthesised opening closing h =>
          simp only [List.length_cons, List.length_append, List.length_nil] at short
          exact ih _ (by omega) h rfl
        | value | quoted | symbol | emptyCall | call => nofun
    cases h with
    | assign => nofun
    | ternary h =>
      cases h with
      | choice => nofun
      | condition h =>
        exact Level.induction (P := fun us e => us.length ≤ n → e ≠ .chain items) unary
          (fun _ _ _ _ _ _ _ _ _ _ _ _ => nofun) .or h (Nat.le_of_eq size)

theorem length_of_sentence {ts : List Lexeme} {items : List Expr} (h : Sentence ts (.chain items)) :
    2 ≤ items.length := by
  have long {us : List Lexeme} {es : List Expr} (statements : Statements us es)
      (tree : sequenceTree es = .chain items) : 2 ≤ items.length := by
    cases statements with
    | one h => exact absurd tree (ne_chain h items)
    | more _ _ others =>
      cases others <;>
      · cases tree
        simp
  generalize tree : Expr.chain items = e at h
  cases h with
  | plain _ statements => exact long statements tree.symm
  | separated _ statements => exact long statements tree.symm

/-- Under a depth limit that is at least the number of the tokens, the parser accepts the sentences of the
grammar and nothing else, each with its only tree; a chain is a tree of at least two statements. -/
theorem accepts_exactly_sentences {ts : List Lexeme} (deep : ts.length ≤ scope.depth) :
    (∀ e, ofLexemes scope ts = .ok e ↔ Sentence ts e) ∧
      (∀ e e', Sentence ts e → Sentence ts e' → e = e') ∧
      ∀ items, Sentence ts (.chain items) → 2 ≤ items.length := by
  refine ⟨fun e => ⟨ofLexemes_sound scope, fun h => ofLexemes_complete scope h deep⟩, ?_,
    fun items => length_of_sentence⟩
  intro e e' h h'
  have parsed := ofLexemes_complete scope h deep
  rw [ofLexemes_complete scope h' deep] at parsed
  exact (Except.ok.inj parsed).symm

def sampleTokens : List Lexeme :=
  [⟨.mark .semicolon, 0⟩, ⟨.word "a", 1⟩, ⟨.mark .assign, 3⟩, ⟨.mark .minus, 5⟩, ⟨.value (.int 1), 6⟩,
   ⟨.mark .plus, 8⟩, ⟨.word "b", 10⟩, ⟨.mark .times, 12⟩, ⟨.value (.int 2), 14⟩, ⟨.mark .comma, 15⟩,
   ⟨.word "c", 17⟩, ⟨.mark .semicolon, 18⟩]

def sampleTree : Expr :=
  .chain
    [.assign .set "a"
      (.binary .add (.unary .minus (.literal (.int 1) 6) 5)
        (.binary .mul (.symbol "b" 10) (.literal (.int 2) 14) 12) 8) 1,
     .symbol "c" 17]

theorem sample_is_sentence :
    Token.lexemes ";a = -1 + b * 2, c;" = .ok sampleTokens ∧
      Sentence sampleTokens sampleTree ∧ ∀ e, Sentence sampleTokens e → e = sampleTree := by
  have deep : sampleTokens.length ≤ (Scope.mk 12 19).depth := by decide
  obtain ⟨accepted, unique, -⟩ := accepts_exactly_sentences ⟨12, 19⟩ deep
  have sentence := (accepted sampleTree).mp rfl
  exact ⟨rfl, sentence, fun e h => unique e sampleTree h sentence⟩

end GcodePrep.Parser
