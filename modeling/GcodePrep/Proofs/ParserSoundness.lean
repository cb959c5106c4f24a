import GcodePrep.Proofs.Grammar

set_option autoImplicit false

/-!
# What the parser accepts is in the grammar

A parser reads a phrase off the front of the tokens. Every combinator hands on this property from its
parts to the whole; the recursion on the room left then gives it to statements and operands.
-/

namespace GcodePrep.Parser

open Grammar

theorem assignOp?_eq_some_iff {m : Mark} {op : AssignOp} :
    assignOp? m = some op ↔ (m, op) ∈ assignments := by
  cases m <;> cases op <;> decide

theorem unaryOp?_eq_some_iff {m : Mark} {op : UnaryOp} :
    unaryOp? m = some op ↔ (m, op) ∈ signs := by
  cases m <;> cases op <;> decide

def tablesFrom : Level → List (Mark → Option BinaryOp)
  | .or => binaryLevels
  | .and => binaryLevels.drop 1
  | .equality => binaryLevels.drop 2
  | .relational => binaryLevels.drop 3
  | .additive => binaryLevels.drop 4
  | .multiplicative => binaryLevels.drop 5

theorem exists_table (l : Level) : ∃ op?, tablesFrom l = op? :: (tablesFrom l).tail ∧
    ∀ m op, op? m = some op ↔ (m, op) ∈ l.operators := by
  cases l <;> refine ⟨_, rfl, fun m op => ?_⟩ <;> cases m <;> simp [Level.operators, eq_comm]

theorem afterMark?_eq_some_iff {m : Mark} {ts rest : List Lexeme} :
    afterMark? m ts = some rest ↔ ∃ offset, ts = ⟨.mark m, offset⟩ :: rest := by
  constructor
  · intro h
    unfold afterMark? at h
    split at h
    · rename_i found offset rest'
      split at h
      · rename_i same
        cases h
        exact ⟨offset, by rw [same]⟩
      · cases h
    · cases h
  · rintro ⟨offset, rfl⟩
    simp [afterMark?]

theorem bind_eq_ok_iff {α β : Type} {x : Except Fault α} {f : α → Except Fault β} {b : β} :
    (x >>= f) = .ok b ↔ ∃ a, x = .ok a ∧ f a = .ok b := by
  cases x <;> simp [bind, Except.bind]

def Sound (p : Parse Expr) (c : Nonterminal) : Prop :=
  ∀ ts e rest, p ts = .ok (e, rest) → ∃ us, ts = us ++ rest ∧ Derives c us e

theorem operands_sound {l : Level} {op? : Mark → Option BinaryOp}
    (table : ∀ m op, op? m = some op ↔ (m, op) ∈ l.operators) {operand : Parse Expr}
    (sound : Sound operand l.operand) (n : Nat) {before ts rest : List Lexeme} {left e : Expr}
    (derived : Derives (.level l) before left) (h : operands op? operand n left ts = .ok (e, rest)) :
    ∃ us, ts = us ++ rest ∧ Derives (.level l) (before ++ us) e := by
  induction n generalizing before left ts with
  | zero =>
    cases h
    exact ⟨[], rfl, by rwa [List.append_nil]⟩
  | succ n ih =>
    have stays : (Except.ok (left, ts) : Except Fault (Expr × List Lexeme)) = .ok (e, rest) →
        ∃ us, ts = us ++ rest ∧ Derives (.level l) (before ++ us) e := by
      intro h
      cases h
      exact ⟨[], rfl, by rwa [List.append_nil]⟩
    cases ts with
    | nil => exact stays h
    | cons t ts =>
      obtain ⟨token, offset⟩ := t
      cases token with
      | value v => exact stays h
      | quoted s => exact stays h
      | word name => exact stays h
      | mark m =>
        simp only [operands] at h
        cases found : op? m with
        | none =>
          rw [found] at h
          exact stays h
        | some op =>
          rw [found] at h
          replace h := bind_eq_ok_iff.mp h
          obtain ⟨⟨right, rest'⟩, read, h⟩ := h
          obtain ⟨us, rfl, right_derived⟩ := sound _ _ _ read
          have longer : Derives (.level l) (before ++ ⟨.mark m, offset⟩ :: us)
              (.binary op left right offset) :=
            l.derives_iff.mpr (.next offset (l.derives_iff.mp derived) ((table m op).mp found)
              right_derived)
          obtain ⟨vs, rfl, whole⟩ := ih longer h
          refine ⟨⟨.mark m, offset⟩ :: us ++ vs, by simp, ?_⟩
          rwa [List.append_assoc] at whole

theorem binary_sound {unary : Parse Expr} (l : Level)
    (sound : Sound (binary unary (tablesFrom l).tail) l.operand) :
    Sound (binary unary (tablesFrom l)) (.level l) := by
  intro ts e rest h
  obtain ⟨op?, tables, table⟩ := exists_table l
  rw [tables] at h
  replace h := bind_eq_ok_iff.mp h
  obtain ⟨⟨left, rest'⟩, read, h⟩ := h
  obtain ⟨us, rfl, derived⟩ := sound _ _ _ read
  obtain ⟨vs, rfl, whole⟩ :=
    operands_sound table sound _ (l.derives_iff.mpr (.first derived)) h
  exact ⟨us ++ vs, (List.append_assoc ..).symm, whole⟩

theorem levels_sound {unary : Parse Expr} (sound : Sound unary .unary) :
    Sound (binary unary binaryLevels) (.level .or) := by
  have multiplicative : Sound (binary unary (tablesFrom .multiplicative)) (.level .multiplicative) :=
    binary_sound .multiplicative sound
  have additive := binary_sound .additive multiplicative
  have relational := binary_sound .relational additive
  have equality := binary_sound .equality relational
  have and := binary_sound .and equality
  exact binary_sound .or and

section

variable {scope : Scope}

theorem arguments_sound {argument : Parse Expr} (sound : Sound argument .assignment) (n : Nat)
    {ts rest : List Lexeme} {es : List Expr} (h : arguments scope argument n ts = .ok (es, rest)) :
    ∃ us closing, ts = us ++ ⟨.mark .closeParen, closing⟩ :: rest ∧
      ArgumentList (Derives .assignment) us es := by
  induction n generalizing ts es with
  | zero => cases h
  | succ n ih =>
    replace h := bind_eq_ok_iff.mp h
    obtain ⟨⟨first, after⟩, read, h⟩ := h
    obtain ⟨us, rfl, derived⟩ := sound _ _ _ read
    dsimp only at h
    split at h
    · rename_i closed
      obtain ⟨closing, rfl⟩ := afterMark?_eq_some_iff.mp closed
      cases h
      exact ⟨us, closing, rfl, .last derived⟩
    · split at h
      · cases h
      · rename_i continued
        obtain ⟨comma, rfl⟩ := afterMark?_eq_some_iff.mp continued
        replace h := bind_eq_ok_iff.mp h
        obtain ⟨⟨others, after⟩, read, h⟩ := h
        cases h
        obtain ⟨vs, closing, rfl, others_derived⟩ := ih read
        exact ⟨us ++ ⟨.mark .comma, comma⟩ :: vs, closing, by simp,
          .more comma derived others_derived⟩

theorem primary_sound {nested : Parse Expr} (sound : Sound nested .assignment) :
    Sound (primary scope nested) .primary := by
  intro ts e rest h
  unfold primary at h
  split at h
  · cases h
    exact ⟨[_], rfl, .value _ _⟩
  · cases h
    exact ⟨[_], rfl, .quoted _ _⟩
  · rename_i name offset ts
    split at h
    · cases h
      exact ⟨[_], rfl, .symbol _ _⟩
    · rename_i opened
      obtain ⟨opening, rfl⟩ := afterMark?_eq_some_iff.mp opened
      split at h
      · rename_i closed
        obtain ⟨closing, rfl⟩ := afterMark?_eq_some_iff.mp closed
        cases h
        exact ⟨[_, _, _], rfl, .emptyCall name offset opening closing⟩
      · replace h := bind_eq_ok_iff.mp h
        obtain ⟨⟨args, after⟩, read, h⟩ := h
        obtain ⟨us, closing, rfl, derived⟩ := arguments_sound sound _ read
        cases h
        exact ⟨_, by simp, .call name offset opening closing derived⟩
  · rename_i opening ts
    replace h := bind_eq_ok_iff.mp h
    obtain ⟨⟨inner, after⟩, read, h⟩ := h
    obtain ⟨us, rfl, derived⟩ := sound _ _ _ read
    dsimp only at h
    split at h
    · rename_i closed
      obtain ⟨closing, rfl⟩ := afterMark?_eq_some_iff.mp closed
      cases h
      exact ⟨_, by simp, .parenthesised opening closing derived⟩
    · cases h
  · cases h

theorem signed_sound {operand primary : Parse Expr} (sound : Sound operand .unary)
    (primary_sound : Sound primary .primary) : Sound (signed operand primary) .unary := by
  have other {ts rest : List Lexeme} {e : Expr} (h : primary ts = .ok (e, rest)) :
      ∃ us, ts = us ++ rest ∧ Derives .unary us e := by
    obtain ⟨us, eq, derived⟩ := primary_sound _ _ _ h
    exact ⟨us, eq, .primary derived⟩
  intro ts e rest h
  unfold signed at h
  split at h
  · rename_i m offset ts
    split at h
    · rename_i op found
      replace h := bind_eq_ok_iff.mp h
      obtain ⟨⟨inner, after⟩, read, h⟩ := h
      obtain ⟨us, rfl, derived⟩ := sound _ _ _ read
      cases h
      exact ⟨_ :: us, rfl, .sign offset (unaryOp?_eq_some_iff.mp found) derived⟩
    · exact other h
  · exact other h

variable {nested unary : Parse Expr} (sound : Sound nested .assignment)
  (unary_sound : Sound unary .unary)

include sound unary_sound

theorem choice_sound : Sound (choice scope nested unary) .ternary := by
  intro ts e rest h
  replace h := bind_eq_ok_iff.mp h
  obtain ⟨⟨condition, after⟩, read, h⟩ := h
  obtain ⟨us, rfl, derived⟩ := levels_sound unary_sound _ _ _ read
  dsimp only at h
  split at h
  · cases h
    exact ⟨us, rfl, .condition derived⟩
  · rename_i asked
    obtain ⟨question, rfl⟩ := afterMark?_eq_some_iff.mp asked
    replace h := bind_eq_ok_iff.mp h
    obtain ⟨⟨yes, after⟩, read, h⟩ := h
    obtain ⟨vs, rfl, first⟩ := sound _ _ _ read
    dsimp only at h
    split at h
    · cases h
    · rename_i answered
      obtain ⟨colon, rfl⟩ := afterMark?_eq_some_iff.mp answered
      replace h := bind_eq_ok_iff.mp h
      obtain ⟨⟨no, after⟩, read, h⟩ := h
      obtain ⟨ws, rfl, second⟩ := sound _ _ _ read
      cases h
      exact ⟨_, by simp, .choice question colon derived first second⟩

theorem assignment_sound : Sound (assignment scope nested unary) .assignment := by
  have other {ts rest : List Lexeme} {e : Expr} (h : choice scope nested unary ts = .ok (e, rest)) :
      ∃ us, ts = us ++ rest ∧ Derives .assignment us e := by
    obtain ⟨us, eq, derived⟩ := choice_sound sound unary_sound _ _ _ h
    exact ⟨us, eq, .ternary derived⟩
  intro ts e rest h
  unfold assignment at h
  split at h
  · rename_i name offset m place ts
    split at h
    · rename_i op found
      replace h := bind_eq_ok_iff.mp h
      obtain ⟨⟨value, after⟩, read, h⟩ := h
      obtain ⟨us, rfl, derived⟩ := sound _ _ _ read
      cases h
      exact ⟨_ :: _ :: us, rfl, .assign name offset place (assignOp?_eq_some_iff.mp found) derived⟩
    · exact other h
  · exact other h

end

variable (scope : Scope)

theorem statement_and_unary_sound (room : Nat) :
    Sound (statement scope room) .assignment ∧ Sound (unary scope room) .unary := by
  have tooDeep (c : Nonterminal) : Sound (fun ts => .error (scope.tooDeep ts)) c := by
    intro ts e rest h
    cases h
  induction room with
  | zero =>
    constructor
    · intro ts e rest h
      simp only [statement] at h
      cases h
    · intro ts e rest h
      simp only [unary] at h
      exact signed_sound (tooDeep _) (primary_sound (tooDeep _)) _ _ _ h
  | succ room ih =>
    have assigned : Sound (assignment scope (statement scope room) (unary scope room)) .assignment :=
      assignment_sound ih.1 ih.2
    constructor
    · intro ts e rest h
      simp only [statement] at h
      exact assigned _ _ _ h
    · intro ts e rest h
      simp only [unary] at h
      exact signed_sound ih.2 (primary_sound assigned) _ _ _ h

theorem skipSemicolons_split (ts : List Lexeme) :
    ∃ skipped, ts = skipped ++ skipSemicolons ts ∧ Semicolons skipped := by
  fun_induction skipSemicolons ts with
  | case1 offset ts ih =>
    obtain ⟨skipped, eq, all⟩ := ih
    exact ⟨⟨.mark .semicolon, offset⟩ :: skipped, by rw [List.cons_append, ← eq],
      List.forall_mem_cons.mpr ⟨rfl, all⟩⟩
  | case2 ts => exact ⟨[], rfl, List.forall_mem_nil _⟩

theorem separator_of_or {ts rest : List Lexeme}
    (h : (afterMark? .comma ts).or (afterMark? .semicolon ts) = some rest) :
    ∃ t, ts = t :: rest ∧ ∀ more, Semicolons more → Separator (t :: more) := by
  rcases Option.or_eq_some_iff.mp h with comma | ⟨-, semicolon⟩
  · obtain ⟨offset, rfl⟩ := afterMark?_eq_some_iff.mp comma
    exact ⟨_, rfl, fun more all => .comma offset all⟩
  · obtain ⟨offset, rfl⟩ := afterMark?_eq_some_iff.mp semicolon
    exact ⟨_, rfl, fun more all => .semicolon offset all⟩

/-- Up to the end of the tokens there are statements, with separators between them and perhaps behind, or
nothing but semicolons. -/
theorem chainOf_sound {item : Parse Expr} (sound : Sound item .assignment) (n : Nat)
    {ts : List Lexeme} {es : List Expr} (h : chainOf item n ts = .ok (es, [])) :
    (es = [] ∧ Semicolons ts) ∨ ∃ lead body tail, Semicolons lead ∧ Statements body es ∧
      (tail = [] ∨ Separator tail) ∧ ts = lead ++ (body ++ tail) := by
  induction n generalizing ts es with
  | zero =>
    cases h
    exact .inl ⟨rfl, List.forall_mem_nil _⟩
  | succ n ih =>
    obtain ⟨lead, split, leading⟩ := skipSemicolons_split ts
    unfold chainOf at h
    cases skipped : skipSemicolons ts with
    | nil =>
      rw [skipped] at h split
      cases h
      rw [List.append_nil] at split
      exact .inl ⟨rfl, split ▸ leading⟩
    | cons t rest =>
      rw [skipped] at h split
      replace h := bind_eq_ok_iff.mp h
      obtain ⟨⟨first, after⟩, read, h⟩ := h
      obtain ⟨us, eq, derived⟩ := sound _ _ _ read
      rw [eq] at split
      dsimp only at h
      split at h
      · cases h
        exact .inr ⟨lead, us, [], leading, .one derived, .inl rfl, split⟩
      · rename_i rest' follows
        obtain ⟨sep, rfl, separates⟩ := separator_of_or follows
        replace h := bind_eq_ok_iff.mp h
        obtain ⟨⟨others, rest''⟩, read', h⟩ := h
        cases h
        rcases ih read' with ⟨rfl, all⟩ | ⟨lead', body, tail, leading', statements, ending, rfl⟩
        · exact .inr ⟨lead, us, sep :: rest', leading, .one derived, .inr (separates _ all), split⟩
        · refine .inr ⟨lead, us ++ (sep :: lead' ++ body), tail, leading,
            .more derived (separates _ leading') statements, ending, ?_⟩
          rw [split]
          simp

theorem ofLexemes_sound {ts : List Lexeme} {e : Expr} (h : ofLexemes scope ts = .ok e) :
    Sentence ts e := by
  replace h := bind_eq_ok_iff.mp h
  obtain ⟨⟨items, rest⟩, read, h⟩ := h
  cases rest with
  | cons t rest => cases h
  | nil =>
    have tree : items ≠ [] ∧ e = sequenceTree items := by
      match items, h with
      | [], h => cases h
      | [item], h => cases h; simp [sequenceTree]
      | _ :: _ :: _, h => cases h; simp [sequenceTree]
    obtain ⟨some_items, rfl⟩ := tree
    have sound := (statement_and_unary_sound scope scope.depth).1
    rcases chainOf_sound sound _ read with ⟨none_read, -⟩ |
      ⟨lead, body, tail, leading, statements, ending, rfl⟩
    · exact absurd none_read some_items
    · rcases ending with rfl | separator
      · rw [List.append_nil]
        exact .plain leading statements
      · exact .separated leading statements separator

end GcodePrep.Parser
