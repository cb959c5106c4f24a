import GcodePrep.Proofs.ParserCompleteness
import GcodePrep.Proofs.Relocation

set_option autoImplicit false

/-!
# Statements on both sides of a semicolon

What a parser reads off some tokens it also reads when they stand further along in the source and a
semicolon follows them. Every combinator hands on this property; the depth limit is the same on both
sides, so the room left is the same too. The statements of two token lists with a semicolon between them
are then those of the first and those of the second, moved.
-/

namespace GcodePrep.Parser

open Grammar

inductive Ending : List Lexeme → Prop where
  | nil : Ending []
  | semicolon (offset : Nat) (ts : List Lexeme) : Ending (⟨.mark .semicolon, offset⟩ :: ts)

def embed (n : Nat) (tail ts : List Lexeme) : List Lexeme := ts.map (Lexeme.shift n) ++ tail

section

variable {n : Nat} {tail : List Lexeme}

theorem length_embed (ts : List Lexeme) : (embed n tail ts).length = ts.length + tail.length := by
  simp [embed]

theorem embed_zero (ts : List Lexeme) : embed 0 tail ts = ts ++ tail := by
  have same : Lexeme.shift 0 = id := rfl
  simp [embed, same]

variable (ending : Ending tail)

include ending

theorem afterMark?_embed {m : Mark} (other : m ≠ .semicolon) (ts : List Lexeme) :
    afterMark? m (embed n tail ts) = (afterMark? m ts).map (embed n tail) := by
  cases ts with
  | nil =>
    cases ending with
    | nil => rfl
    | semicolon offset us => exact if_neg other.symm
  | cons t ts =>
    obtain ⟨token, offset⟩ := t
    cases token with
    | mark found => by_cases same : found = m <;> simp [embed, afterMark?, Lexeme.shift, same]
    | value | quoted | word => rfl

theorem of_embed_eq_mark {m : Mark} {offset : Nat} {ts us : List Lexeme}
    (h : embed n tail ts = ⟨.mark m, offset⟩ :: us) :
    m = .semicolon ∨ ∃ place vs, ts = ⟨.mark m, place⟩ :: vs := by
  cases ts with
  | nil =>
    cases ending with
    | nil => cases h
    | semicolon => cases h; exact .inl rfl
  | cons t ts =>
    obtain ⟨token, place⟩ := t
    cases h
    exact .inr ⟨place, ts, rfl⟩

end

/-- The parser `p` reads phrases of `c`, and `q` reads the same phrases off the moved tokens with `tail`
behind them. -/
structure Carries (n : Nat) (tail : List Lexeme) (p q : Parse Expr) (c : Nonterminal) : Prop where
  sound : Sound p c
  moved : ∀ ts e rest, p ts = .ok (e, rest) →
    q (embed n tail ts) = .ok (e.shift n, embed n tail rest)

section

variable {n : Nat} {tail : List Lexeme}

theorem Sound.length_le {p : Parse Expr} {c : Nonterminal} (sound : Sound p c) {ts rest : List Lexeme}
    {e : Expr} (h : p ts = .ok (e, rest)) : rest.length ≤ ts.length := by
  obtain ⟨us, rfl, -⟩ := sound ts e rest h
  rw [List.length_append]
  omega

variable (ending : Ending tail)

include ending

section Level

variable {l : Level} {op? : Mark → Option BinaryOp}
  (table : ∀ m op, op? m = some op ↔ (m, op) ∈ l.operators)

include table

theorem operands_stop_embed (ts : List Lexeme)
    (stops : ∀ m offset us, ts = ⟨.mark m, offset⟩ :: us → op? m = none) (operand : Parse Expr)
    (k : Nat) (left : Expr) :
    operands op? operand k left (embed n tail ts) = .ok (left, embed n tail ts) := by
  refine operands_stop (fun m offset us eq => ?_) operand k left
  rcases of_embed_eq_mark ending eq with rfl | ⟨place, vs, follows⟩
  · refine Option.eq_none_iff_forall_ne_some.mpr fun op found => ?_
    have strong := rank_level l
    rw [← strength_of_operator ((table _ op).mp found)] at strong
    exact absurd strong (by decide)
  · exact stops m place vs follows

theorem operands_moved {operand operand' : Parse Expr}
    (carries : Carries n tail operand operand' l.operand) {k K : Nat} {left e : Expr}
    {ts rest : List Lexeme} (enough : ts.length ≤ k) (enough' : ts.length ≤ K)
    (h : operands op? operand k left ts = .ok (e, rest)) :
    operands op? operand' K (left.shift n) (embed n tail ts) = .ok (e.shift n, embed n tail rest) := by
  -- Both loops are given as many rounds as there are tokens, so neither stops for want of rounds.
  induction k generalizing K left ts with
  | zero =>
    obtain rfl : ts = [] := List.eq_nil_of_length_eq_zero (Nat.le_zero.mp enough)
    cases h
    exact operands_stop_embed ending table [] nofun operand' K _
  | succ k ih =>
    have stays (stops : ∀ m offset us, ts = ⟨.mark m, offset⟩ :: us → op? m = none) :
        operands op? operand' K (left.shift n) (embed n tail ts) =
          .ok (e.shift n, embed n tail rest) := by
      rw [operands_stop stops] at h
      cases h
      exact operands_stop_embed ending table _ stops operand' K _
    cases ts with
    | nil => exact stays nofun
    | cons t ts =>
      obtain ⟨token, offset⟩ := t
      cases token with
      | value | quoted | word => exact stays nofun
      | mark m =>
        cases found : op? m with
        | none =>
          refine stays fun _ _ _ eq => ?_
          cases eq
          exact found
        | some op =>
          simp only [operands, found] at h
          replace h := bind_eq_ok_iff.mp h
          obtain ⟨⟨right, after⟩, read, h⟩ := h
          have shorter := carries.sound.length_le read
          rw [List.length_cons] at enough enough'
          cases K with
          | zero => omega
          | succ K =>
            have later := ih (K := K) (by dsimp only; omega) (by dsimp only; omega) h
            have front : embed n tail (⟨.mark m, offset⟩ :: ts) =
                ⟨.mark m, offset + n⟩ :: embed n tail ts := rfl
            rw [front, operands, found]
            dsimp only
            rw [carries.moved _ _ _ read]
            exact later

end Level

theorem binary_carries {unary unary' : Parse Expr} (l : Level)
    (carries : Carries n tail (binary unary (tablesFrom l).tail) (binary unary' (tablesFrom l).tail)
      l.operand) :
    Carries n tail (binary unary (tablesFrom l)) (binary unary' (tablesFrom l)) (.level l) := by
  obtain ⟨op?, tables, table⟩ := exists_table l
  refine ⟨binary_sound l carries.sound, fun ts e rest h => ?_⟩
  rw [tables] at h ⊢
  replace h := bind_eq_ok_iff.mp h
  obtain ⟨⟨left, after⟩, read, h⟩ := h
  rw [binary, carries.moved _ _ _ read]
  refine operands_moved ending table carries (Nat.le_refl _) ?_ h
  rw [length_embed]
  exact Nat.le_add_right _ _

theorem levels_carries {unary unary' : Parse Expr} (carries : Carries n tail unary unary' .unary) :
    Carries n tail (binary unary binaryLevels) (binary unary' binaryLevels) (.level .or) := by
  have multiplicative : Carries n tail (binary unary (tablesFrom .multiplicative))
      (binary unary' (tablesFrom .multiplicative)) (.level .multiplicative) :=
    binary_carries ending .multiplicative carries
  have additive := binary_carries ending .additive multiplicative
  have relational := binary_carries ending .relational additive
  have equality := binary_carries ending .equality relational
  have and := binary_carries ending .and equality
  exact binary_carries ending .or and

variable {scope scope' : Scope}

theorem arguments_moved {argument argument' : Parse Expr}
    (carries : Carries n tail argument argument' .assignment) {k K : Nat} (enough : k ≤ K)
    {ts rest : List Lexeme} {es : List Expr} (h : arguments scope argument k ts = .ok (es, rest)) :
    arguments scope' argument' K (embed n tail ts) = .ok (Expr.shiftAll n es, embed n tail rest) := by
  induction k generalizing K ts es with
  | zero => cases h
  | succ k ih =>
    obtain ⟨K, rfl⟩ : ∃ i, K = i + 1 := ⟨K - 1, by omega⟩
    replace h := bind_eq_ok_iff.mp h
    obtain ⟨⟨first, after⟩, read, h⟩ := h
    rw [arguments, carries.moved _ _ _ read]
    dsimp only [bind, Except.bind] at h ⊢
    rw [afterMark?_embed ending (by decide), afterMark?_embed ending (by decide)]
    cases closed : afterMark? .closeParen after with
    | some others =>
      rw [closed] at h
      cases h
      rfl
    | none =>
      rw [closed] at h
      cases continued : afterMark? .comma after with
      | none =>
        rw [continued] at h
        cases h
      | some others =>
        rw [continued] at h
        replace h := bind_eq_ok_iff.mp h
        obtain ⟨⟨args, after'⟩, read', h⟩ := h
        cases h
        dsimp only [Option.map_none, Option.map_some]
        rw [ih (by omega) read']
        rfl

theorem primary_carries {nested nested' : Parse Expr}
    (carries : Carries n tail nested nested' .assignment) :
    Carries n tail (primary scope nested) (primary scope' nested') .primary := by
  refine ⟨primary_sound carries.sound, fun ts e rest h => ?_⟩
  unfold primary at h
  split at h
  · cases h
    rfl
  · cases h
    rfl
  · rename_i name offset ts
    have front : embed n tail (⟨.word name, offset⟩ :: ts) =
        ⟨.word name, offset + n⟩ :: embed n tail ts := rfl
    rw [front, primary, afterMark?_embed ending (by decide)]
    split at h
    · rename_i alone
      cases h
      rw [alone]
      rfl
    · rename_i ts' opened
      rw [opened]
      dsimp only [Option.map_some]
      rw [afterMark?_embed ending (by decide)]
      split at h
      · rename_i closed
        cases h
        rw [closed]
        rfl
      · rename_i given
        replace h := bind_eq_ok_iff.mp h
        obtain ⟨⟨args, after⟩, read, h⟩ := h
        cases h
        rw [given, length_embed]
        dsimp only [Option.map_none]
        rw [arguments_moved ending carries (by omega) read]
        rfl
  · rename_i opening ts
    replace h := bind_eq_ok_iff.mp h
    obtain ⟨⟨inner, after⟩, read, h⟩ := h
    dsimp only at h
    have front : embed n tail (⟨.mark .openParen, opening⟩ :: ts) =
        ⟨.mark .openParen, opening + n⟩ :: embed n tail ts := rfl
    rw [front, primary, carries.moved _ _ _ read]
    dsimp only [bind, Except.bind]
    rw [afterMark?_embed ending (by decide)]
    split at h
    · rename_i closed
      cases h
      rw [closed]
      rfl
    · cases h
  · cases h

theorem signed_carries {operand operand' primary primary' : Parse Expr}
    (carries : Carries n tail operand operand' .unary)
    (primary_carries : Carries n tail primary primary' .primary) :
    Carries n tail (signed operand primary) (signed operand' primary') .unary := by
  refine ⟨signed_sound carries.sound primary_carries.sound, fun ts e rest h => ?_⟩
  cases ts with
  | nil =>
    have read := primary_carries.moved _ _ _ h
    cases ending <;> exact read
  | cons t ts =>
    obtain ⟨token, offset⟩ := t
    cases token with
    | value | quoted | word => exact primary_carries.moved _ _ _ h
    | mark m =>
      have front : embed n tail (⟨.mark m, offset⟩ :: ts) =
          ⟨.mark m, offset + n⟩ :: embed n tail ts := rfl
      cases found : unaryOp? m with
      | none =>
        simp only [signed, found] at h
        have read := primary_carries.moved _ _ _ h
        rw [front] at read ⊢
        simpa only [signed, found] using read
      | some op =>
        simp only [signed, found] at h
        replace h := bind_eq_ok_iff.mp h
        obtain ⟨⟨inner, after⟩, read, h⟩ := h
        cases h
        rw [front, signed, found]
        dsimp only
        rw [carries.moved _ _ _ read]
        rfl

variable {nested nested' unary unary' : Parse Expr}
  (carries : Carries n tail nested nested' .assignment) (unary_carries : Carries n tail unary unary' .unary)
  (scope scope')

include carries unary_carries

theorem choice_carries :
    Carries n tail (choice scope nested unary) (choice scope' nested' unary') .ternary := by
  refine ⟨choice_sound carries.sound unary_carries.sound, fun ts e rest h => ?_⟩
  replace h := bind_eq_ok_iff.mp h
  obtain ⟨⟨condition, after⟩, read, h⟩ := h
  rw [choice, (levels_carries ending unary_carries).moved _ _ _ read]
  dsimp only [bind, Except.bind]
  rw [afterMark?_embed ending (by decide)]
  dsimp only at h
  split at h
  · rename_i alone
    cases h
    rw [alone]
    rfl
  · rename_i asked
    replace h := bind_eq_ok_iff.mp h
    obtain ⟨⟨yes, after'⟩, read', h⟩ := h
    rw [asked]
    dsimp only [Option.map_some]
    rw [carries.moved _ _ _ read']
    dsimp only
    rw [afterMark?_embed ending (by decide)]
    dsimp only at h
    split at h
    · cases h
    · rename_i answered
      replace h := bind_eq_ok_iff.mp h
      obtain ⟨⟨no, after''⟩, read'', h⟩ := h
      cases h
      rw [answered]
      dsimp only [Option.map_some]
      rw [carries.moved _ _ _ read'']
      rfl

theorem assignment_carries :
    Carries n tail (assignment scope nested unary) (assignment scope' nested' unary') .assignment := by
  refine ⟨assignment_sound carries.sound unary_carries.sound, fun ts e rest h => ?_⟩
  have other := (choice_carries ending scope scope' carries unary_carries).moved
  unfold assignment at h
  split at h
  · rename_i name offset m place ts
    have front : embed n tail (⟨.word name, offset⟩ :: ⟨.mark m, place⟩ :: ts) =
        ⟨.word name, offset + n⟩ :: ⟨.mark m, place + n⟩ :: embed n tail ts := rfl
    split at h
    · rename_i op found
      replace h := bind_eq_ok_iff.mp h
      obtain ⟨⟨value, after⟩, read, h⟩ := h
      cases h
      rw [front, assignment, found]
      dsimp only
      rw [carries.moved _ _ _ read]
      rfl
    · rename_i found
      have read := other _ _ _ h
      rw [front] at read ⊢
      simpa only [assignment, found] using read
  · rename_i plain
    -- The tail may not turn a name at the very end into the target of an assignment.
    rw [assignment_eq_choice]
    · exact other _ _ _ h
    intro name offset m place us eq
    cases ts with
    | nil => cases ending <;> cases eq
    | cons t ts =>
      obtain ⟨token, offset'⟩ := t
      rcases of_embed_eq_mark ending (List.cons.inj eq).2 with rfl | ⟨place', vs, rfl⟩
      · decide
      · cases eq
        exact (plain name offset' m place' vs rfl).elim

end

section

variable {n : Nat} {tail : List Lexeme} (ending : Ending tail) (scope scope' : Scope)

include ending

theorem statement_and_unary_carries (room : Nat) :
    Carries n tail (statement scope room) (statement scope' room) .assignment ∧
      Carries n tail (unary scope room) (unary scope' room) .unary := by
  have tooDeep (c : Nonterminal) : Carries n tail (fun ts => .error (scope.tooDeep ts))
      (fun ts => .error (scope'.tooDeep ts)) c :=
    ⟨fun _ _ _ h => (nomatch h), fun _ _ _ h => (nomatch h)⟩
  have sound := statement_and_unary_sound scope room
  induction room with
  | zero =>
    refine ⟨⟨sound.1, fun ts e rest h => ?_⟩, ⟨sound.2, fun ts e rest h => ?_⟩⟩
    · simp only [statement] at h
      cases h
    · simp only [unary] at h ⊢
      exact (signed_carries ending (tooDeep _) (primary_carries ending (tooDeep _))).moved _ _ _ h
  | succ room ih =>
    have smaller := ih (statement_and_unary_sound scope room)
    have assigned := assignment_carries ending scope scope' smaller.1 smaller.2
    refine ⟨⟨sound.1, fun ts e rest h => ?_⟩, ⟨sound.2, fun ts e rest h => ?_⟩⟩
    · simp only [statement] at h ⊢
      exact assigned.moved _ _ _ h
    · simp only [unary] at h ⊢
      exact (signed_carries ending smaller.2 (primary_carries ending assigned)).moved _ _ _ h

end

theorem skipSemicolons_embed (n : Nat) (tail ts : List Lexeme) :
    skipSemicolons (embed n tail ts) = match skipSemicolons ts with
      | [] => skipSemicolons tail
      | t :: us => embed n tail (t :: us) := by
  fun_induction skipSemicolons ts with
  | case1 offset ts ih => exact ih
  | case2 ts other =>
    cases ts with
    | nil => rfl
    | cons t us =>
      refine @skipSemicolons_append [] (List.forall_mem_nil _) (t.shift n) ?_ (embed n tail us)
      intro same
      obtain ⟨token, offset⟩ := t
      cases same
      exact other offset us rfl

theorem chainOf_read {item : Parse Expr} {ts us after : List Lexeme} {t : Lexeme} {first : Expr}
    (skipped : skipSemicolons ts = t :: us) (read : item (t :: us) = .ok (first, after)) (k : Nat) :
    chainOf item (k + 1) ts = match (afterMark? .comma after).or (afterMark? .semicolon after) with
      | none => .ok ([first], after)
      | some rest => chainOf item k rest >>= fun others => .ok (first :: others.1, others.2) := by
  rw [chainOf, skipped]
  dsimp only
  rw [read]
  rfl

theorem separator_embed {n : Nat} {tail ts rest : List Lexeme}
    (h : (afterMark? .comma ts).or (afterMark? .semicolon ts) = some rest) :
    (afterMark? .comma (embed n tail ts)).or (afterMark? .semicolon (embed n tail ts)) =
      some (embed n tail rest) := by
  rcases Option.or_eq_some_iff.mp h with comma | ⟨-, semicolon⟩
  · obtain ⟨offset, rfl⟩ := afterMark?_eq_some_iff.mp comma
    rfl
  · obtain ⟨offset, rfl⟩ := afterMark?_eq_some_iff.mp semicolon
    rfl

section Chain

variable {n : Nat} {tail : List Lexeme} {item' : Parse Expr} {items' : List Expr}
  (later : ∀ K, tail.length < K → chainOf item' K tail = .ok (items', []))

include later

theorem chainOf_embed_skipped {ts : List Lexeme} (skipped : skipSemicolons ts = []) {K : Nat}
    (enough : tail.length < K + 1) : chainOf item' (K + 1) (embed n tail ts) = .ok (items', []) := by
  have same : chainOf item' (K + 1) (embed n tail ts) = chainOf item' (K + 1) tail := by
    rw [chainOf, chainOf, skipSemicolons_embed, skipped]
  rw [same]
  exact later (K + 1) enough

theorem chainOf_read_last (ending : Ending tail) {ts us : List Lexeme} {t : Lexeme} {last : Expr}
    (skipped : skipSemicolons ts = t :: us) (read : item' (t :: us) = .ok (last, tail)) {K : Nat}
    (enough : tail.length < K) : chainOf item' (K + 1) ts = .ok (last :: items', []) := by
  rw [chainOf_read skipped read]
  cases ending with
  | nil =>
    cases later 1 (by decide)
    rfl
  | semicolon offset rest =>
    obtain ⟨K, rfl⟩ : ∃ i, K = i + 1 := ⟨K - 1, by omega⟩
    have others : chainOf item' (K + 1) rest = .ok (items', []) := later (K + 1) enough
    exact bind_eq_ok_iff.mpr ⟨_, others, rfl⟩

end Chain

/-- The statements of some tokens, and then those of the tail behind them. Any number of rounds above the
number of the tokens will do. -/
theorem chainOf_embed {n : Nat} {tail : List Lexeme} (ending : Ending tail) {item item' : Parse Expr}
    (carries : Carries n tail item item' .assignment) {items items' : List Expr}
    (later : ∀ K, tail.length < K → chainOf item' K tail = .ok (items', [])) {k K : Nat}
    {ts : List Lexeme} (h : chainOf item k ts = .ok (items, [])) (enough : (embed n tail ts).length < K) :
    chainOf item' K (embed n tail ts) = .ok (Expr.shiftAll n items ++ items', []) := by
  induction k generalizing ts items K with
  | zero =>
    cases h
    exact later K enough
  | succ k ih =>
    obtain ⟨K, rfl⟩ : ∃ i, K = i + 1 := ⟨K - 1, by omega⟩
    rw [length_embed] at enough
    cases skipped : skipSemicolons ts with
    | nil =>
      rw [chainOf, skipped] at h
      cases h
      exact chainOf_embed_skipped later skipped (by omega)
    | cons t us =>
      have skipped' := skipSemicolons_embed n tail ts
      obtain ⟨lead, split, -⟩ := skipSemicolons_split ts
      have total := congrArg List.length split
      rw [skipped, List.length_append, List.length_cons] at total
      rw [skipped] at skipped'
      obtain ⟨first, after, read⟩ : ∃ first after, item (t :: us) = .ok (first, after) := by
        rw [chainOf, skipped] at h
        obtain ⟨⟨first, after⟩, read, -⟩ := bind_eq_ok_iff.mp h
        exact ⟨first, after, read⟩
      have shorter := carries.sound.length_le read
      have read' := carries.moved _ _ _ read
      rw [chainOf_read skipped read] at h
      cases after with
      | nil =>
        cases h
        exact chainOf_read_last later ending skipped' read' (by omega)
      | cons sep after =>
        -- A statement that ends before the tail is followed by a separator, or the rest would be left.
        cases follows : (afterMark? .comma (sep :: after)).or (afterMark? .semicolon (sep :: after)) with
        | none =>
          rw [follows] at h
          cases h
        | some rest =>
          rw [follows] at h
          replace h := bind_eq_ok_iff.mp h
          obtain ⟨⟨others, left⟩, behind, h⟩ := h
          cases h
          obtain ⟨sep, eq, -⟩ := separator_of_or follows
          cases eq
          simp only [List.length_cons] at shorter
          have moved := ih (K := K) behind (by rw [length_embed]; omega)
          rw [chainOf_read skipped' read', separator_embed follows]
          exact bind_eq_ok_iff.mpr ⟨_, moved, rfl⟩

theorem ofLexemes_eq_ok_iff {scope : Scope} {ts : List Lexeme} {e : Expr} :
    ofLexemes scope ts = .ok e ↔ ∃ items, items ≠ [] ∧ e = sequenceTree items ∧
      chainOf (statement scope scope.depth) (ts.length + 1) ts = .ok (items, []) := by
  constructor
  · intro h
    obtain ⟨⟨items, rest⟩, read, h⟩ := bind_eq_ok_iff.mp h
    rcases rest with _ | ⟨t, rest⟩
    · rcases items with _ | ⟨first, _ | ⟨second, others⟩⟩ <;> cases h
      · exact ⟨_, by simp, rfl, read⟩
      · exact ⟨_, by simp, rfl, read⟩
    · rcases items with _ | ⟨first, _ | ⟨second, others⟩⟩ <;> cases h
  · rintro ⟨items, some_items, rfl, read⟩
    rw [ofLexemes, read]
    rcases items with _ | ⟨first, _ | ⟨second, others⟩⟩
    · exact absurd rfl some_items
    · rfl
    · rfl

theorem ofLexemes_join {depth stop stop' : Nat} {ts us : List Lexeme} {e e' : Expr}
    (h : ofLexemes ⟨depth, stop⟩ ts = .ok e) (h' : ofLexemes ⟨depth, stop'⟩ us = .ok e')
    (stop'' place n : Nat) :
    ∃ items items', items ≠ [] ∧ items' ≠ [] ∧ e = sequenceTree items ∧ e' = sequenceTree items' ∧
      ofLexemes ⟨depth, stop''⟩ (ts ++ ⟨.mark .semicolon, place⟩ :: us.map (Lexeme.shift n)) =
        .ok (sequenceTree (items ++ Expr.shiftAll n items')) := by
  obtain ⟨items, some_items, rfl, read⟩ := ofLexemes_eq_ok_iff.mp h
  obtain ⟨items', some_items', rfl, read'⟩ := ofLexemes_eq_ok_iff.mp h'
  refine ⟨items, items', some_items, some_items', rfl, rfl, ofLexemes_eq_ok_iff.mpr
    ⟨_, by simp [some_items], rfl, ?_⟩⟩
  have alone := (statement_and_unary_carries (n := n) .nil ⟨depth, stop'⟩ ⟨depth, stop''⟩ depth).1
  have second (K : Nat) (enough : us.length < K) :
      chainOf (statement ⟨depth, stop''⟩ depth) K (us.map (Lexeme.shift n)) =
        .ok (Expr.shiftAll n items', []) := by
    have nothing (K : Nat) (h : 0 < K) :
        chainOf (statement ⟨depth, stop''⟩ depth) K [] = .ok ([], []) := by
      cases K <;> rfl
    have moved := chainOf_embed .nil alone nothing read' (K := K) (by rw [length_embed]; exact enough)
    simpa only [embed, List.append_nil] using moved
  have ending : Ending (⟨.mark .semicolon, place⟩ :: us.map (Lexeme.shift n)) := .semicolon ..
  have before := (statement_and_unary_carries (n := 0) ending ⟨depth, stop⟩ ⟨depth, stop''⟩ depth).1
  have later (K : Nat) (enough : us.length + 1 < K) :
      chainOf (statement ⟨depth, stop''⟩ depth) K
        (⟨.mark .semicolon, place⟩ :: us.map (Lexeme.shift n)) = .ok (Expr.shiftAll n items', []) := by
    cases K with
    | zero => omega
    | succ K => exact second (K + 1) (by omega)
  rw [← List.length_map (Lexeme.shift n)] at later
  have whole := chainOf_embed ending before later read (Nat.lt_succ_self _)
  rwa [Expr.shiftAll_zero, embed_zero] at whole

end GcodePrep.Parser
