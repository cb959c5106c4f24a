import GcodePrep.Proofs.FaultPlaces
import GcodePrep.Proofs.ParserCompleteness
import GcodePrep.Proofs.TokenSpans

set_option autoImplicit false

/-!
# Faults point into the source

A parser blames the token it has come to, or the end of the source when there is none left, and the trees
it builds note offsets of tokens only. So every fault of an evaluation points at a token, at a defect or
at the end; none has no place, unless there is nothing to evaluate.
-/

namespace GcodePrep

namespace Parser

/-- A fault found where the tokens that are left begin. -/
inductive Blames (scope : Scope) (all : List Lexeme) : Fault → Prop where
  | unexpected {ts : List Lexeme} (left : ts <:+ all) : Blames scope all (scope.unexpected ts)
  | expected (m : Mark) {ts : List Lexeme} (left : ts <:+ all) : Blames scope all (scope.expected m ts)
  | tooDeep {ts : List Lexeme} (left : ts <:+ all) : Blames scope all (scope.tooDeep ts)

/-- What is read satisfies `Good` and leaves tokens from the end; a fault blames one of them. -/
def Outcome (scope : Scope) (all : List Lexeme) {α : Type} (Good : α → Prop) :
    Except Fault (α × List Lexeme) → Prop
  | .ok (a, rest) => Good a ∧ rest <:+ all
  | .error fault => Blames scope all fault

def Blaming (scope : Scope) (all : List Lexeme) {α : Type} (Good : α → Prop) (p : Parse α) : Prop :=
  ∀ ts, ts <:+ all → Outcome scope all Good (p ts)

def Notes (all : List Lexeme) (e : Expr) : Prop := ∀ n ∈ e.offsets, n ∈ all.map Lexeme.offset

def NotesAll (all : List Lexeme) (es : List Expr) : Prop :=
  ∀ n ∈ Expr.offsetsAll es, n ∈ all.map Lexeme.offset

variable {scope : Scope} {all : List Lexeme}

theorem Outcome.bind {α β : Type} {Good : α → Prop} {Good' : β → Prop}
    {x : Except Fault (α × List Lexeme)} {f : α × List Lexeme → Except Fault (β × List Lexeme)}
    (h : Outcome scope all Good x)
    (next : ∀ a rest, Good a → rest <:+ all → Outcome scope all Good' (f (a, rest))) :
    Outcome scope all Good' (x >>= f) := by
  cases x with
  | error fault => exact h
  | ok read => exact next read.1 read.2 h.1 h.2

theorem behind {t : Lexeme} {ts : List Lexeme} (left : t :: ts <:+ all) : ts <:+ all :=
  (List.suffix_cons _ _).trans left

theorem suffix_of_afterMark? {m : Mark} {ts rest : List Lexeme} (h : afterMark? m ts = some rest)
    (left : ts <:+ all) : rest <:+ all := by
  obtain ⟨offset, rfl⟩ := afterMark?_eq_some_iff.mp h
  exact behind left

theorem offset_mem {t : Lexeme} {ts : List Lexeme} (left : t :: ts <:+ all) :
    t.offset ∈ all.map Lexeme.offset :=
  List.mem_map_of_mem (left.subset List.mem_cons_self)

variable {p : Parse Expr}

theorem operands_blaming (blaming : Blaming scope all (Notes all) p) (op? : Mark → Option BinaryOp) (n : Nat)
    {first : Expr} (notes : Notes all first) {ts : List Lexeme} (left : ts <:+ all) :
    Outcome scope all (Notes all) (operands op? p n first ts) := by
  induction n generalizing first ts with
  | zero => exact ⟨notes, left⟩
  | succ n ih =>
    cases ts with
    | nil => exact ⟨notes, left⟩
    | cons t ts =>
      obtain ⟨token, offset⟩ := t
      cases token with
      | value | quoted | word => exact ⟨notes, left⟩
      | mark m =>
        simp only [operands]
        cases op? m with
        | none => exact ⟨notes, left⟩
        | some op =>
          refine (blaming ts (behind left)).bind fun second rest notes' left' => ih ?_ left'
          exact List.forall_mem_cons.mpr ⟨offset_mem left, List.forall_mem_append.mpr ⟨notes, notes'⟩⟩

theorem binary_blaming (blaming : Blaming scope all (Notes all) p)
    (levels : List (Mark → Option BinaryOp)) : Blaming scope all (Notes all) (binary p levels) := by
  induction levels with
  | nil => exact blaming
  | cons op? levels ih =>
    intro ts left
    exact (ih ts left).bind fun first rest notes left' => operands_blaming ih op? _ notes left'

theorem arguments_blaming (blaming : Blaming scope all (Notes all) p) (n : Nat) :
    Blaming scope all (NotesAll all) (arguments scope p n) := by
  induction n with
  | zero => exact fun ts left => .unexpected left
  | succ n ih =>
    intro ts left
    refine (blaming ts left).bind fun first rest notes left => ?_
    dsimp only
    split
    · rename_i closed
      exact ⟨List.forall_mem_append.mpr ⟨notes, List.forall_mem_nil _⟩, suffix_of_afterMark? closed left⟩
    · split
      · exact .expected .comma left
      · rename_i continued
        refine (ih _ (suffix_of_afterMark? continued left)).bind fun others rest notes' left' => ?_
        exact ⟨List.forall_mem_append.mpr ⟨notes, notes'⟩, left'⟩

theorem primary_blaming (blaming : Blaming scope all (Notes all) p) :
    Blaming scope all (Notes all) (primary scope p) := by
  intro ts left
  unfold primary
  split
  · exact ⟨List.forall_mem_nil _, behind left⟩
  · exact ⟨List.forall_mem_nil _, behind left⟩
  · rename_i name offset ts
    have place := offset_mem left
    split
    · exact ⟨List.forall_mem_singleton.mpr place, behind left⟩
    · rename_i opened
      have inside := suffix_of_afterMark? opened (behind left)
      split
      · rename_i closed
        exact ⟨List.forall_mem_singleton.mpr place, suffix_of_afterMark? closed inside⟩
      · refine (arguments_blaming blaming _ _ inside).bind fun args rest notes left' => ?_
        exact ⟨List.forall_mem_cons.mpr ⟨place, notes⟩, left'⟩
  · refine (blaming _ (behind left)).bind fun inner rest notes left' => ?_
    dsimp only
    split
    · rename_i closed
      exact ⟨notes, suffix_of_afterMark? closed left'⟩
    · exact .expected .closeParen left'
  · exact .unexpected left

theorem signed_blaming {primary : Parse Expr} (blaming : Blaming scope all (Notes all) p)
    (primary_blaming : Blaming scope all (Notes all) primary) :
    Blaming scope all (Notes all) (signed p primary) := by
  intro ts left
  unfold signed
  split
  · split
    · refine (blaming _ (behind left)).bind fun inner rest notes left' => ?_
      exact ⟨List.forall_mem_cons.mpr ⟨offset_mem left, notes⟩, left'⟩
    · exact primary_blaming _ left
  · exact primary_blaming _ left

section

variable {nested unary : Parse Expr} (blaming : Blaming scope all (Notes all) nested)
  (unary_blaming : Blaming scope all (Notes all) unary)

include blaming unary_blaming

theorem choice_blaming : Blaming scope all (Notes all) (choice scope nested unary) := by
  intro ts left
  refine (binary_blaming unary_blaming _ ts left).bind fun condition rest notes left => ?_
  dsimp only
  split
  · exact ⟨notes, left⟩
  · rename_i asked
    refine (blaming _ (suffix_of_afterMark? asked left)).bind fun yes rest notes' left => ?_
    dsimp only
    split
    · exact .expected .colon left
    · rename_i answered
      refine (blaming _ (suffix_of_afterMark? answered left)).bind fun no rest notes'' left => ?_
      exact ⟨List.forall_mem_append.mpr ⟨notes, List.forall_mem_append.mpr ⟨notes', notes''⟩⟩, left⟩

theorem assignment_blaming : Blaming scope all (Notes all) (assignment scope nested unary) := by
  intro ts left
  unfold assignment
  split
  · split
    · refine (blaming _ (behind (behind left))).bind fun value rest notes left' => ?_
      exact ⟨List.forall_mem_cons.mpr ⟨offset_mem left, notes⟩, left'⟩
    · exact choice_blaming blaming unary_blaming _ left
  · exact choice_blaming blaming unary_blaming _ left

end

theorem room_blaming (scope : Scope) (all : List Lexeme) (room : Nat) :
    Blaming scope all (Notes all) (statement scope room) ∧
      Blaming scope all (Notes all) (unary scope room) := by
  have none_left : Blaming scope all (Notes all) fun ts => .error (scope.tooDeep ts) :=
    fun ts left => .tooDeep left
  induction room with
  | zero => exact ⟨none_left, signed_blaming none_left (primary_blaming none_left)⟩
  | succ room ih =>
    have assignment := assignment_blaming ih.1 ih.2
    exact ⟨assignment, signed_blaming ih.2 (primary_blaming assignment)⟩

theorem skipSemicolons_suffix (ts : List Lexeme) : skipSemicolons ts <:+ ts := by
  obtain ⟨skipped, eq, -⟩ := skipSemicolons_split ts
  exact ⟨skipped, eq.symm⟩

theorem chainOf_blaming (blaming : Blaming scope all (Notes all) p) (n : Nat) :
    Blaming scope all (NotesAll all) (chainOf p n) := by
  induction n with
  | zero => exact fun ts left => ⟨List.forall_mem_nil _, left⟩
  | succ n ih =>
    intro ts left
    unfold chainOf
    have left' := (skipSemicolons_suffix ts).trans left
    split
    · exact ⟨List.forall_mem_nil _, List.nil_suffix⟩
    · rename_i skipped
      rw [skipped] at left'
      refine (blaming _ left').bind fun first rest notes left => ?_
      dsimp only
      split
      · exact ⟨List.forall_mem_append.mpr ⟨notes, List.forall_mem_nil _⟩, left⟩
      · rename_i separated
        obtain ⟨t, rfl, -⟩ := separator_of_or separated
        refine (ih _ (behind left)).bind fun others rest notes' left => ?_
        exact ⟨List.forall_mem_append.mpr ⟨notes, notes'⟩, left⟩

/-- The tree of a token list notes offsets of its tokens. A list without a tree has a token or its end to
blame, unless there are only semicolons in it. -/
theorem ofLexemes_blaming (scope : Scope) (all : List Lexeme) :
    match ofLexemes scope all with
    | .ok e => Notes all e
    | .error fault => Blames scope all fault ∨ (Grammar.Semicolons all ∧ fault = ⟨.empty, none⟩) := by
  have outcome := chainOf_blaming (room_blaming scope all scope.depth).1 (all.length + 1) all
    List.suffix_rfl
  unfold ofLexemes
  cases read : chainOf (statement scope scope.depth) (all.length + 1) all with
  | error fault =>
    rw [read] at outcome
    exact .inl outcome
  | ok result =>
    obtain ⟨items, rest⟩ := result
    rw [read] at outcome
    obtain ⟨notes, left⟩ := outcome
    match rest, items with
    | t :: ts, _ => exact .inl (.unexpected left)
    | [], [] =>
      -- Statements that were read have left a tree each.
      have sound := (statement_and_unary_sound scope scope.depth).1
      rcases chainOf_sound sound _ read with ⟨-, semicolons⟩ | ⟨_, _, _, _, statements, _⟩
      · exact .inr ⟨semicolons, rfl⟩
      · cases statements
    | [], [e] => exact (List.forall_mem_append.mp notes).1
    | [], _ :: _ :: _ => exact notes

theorem ofLexemes_semicolons (scope : Scope) {ts : List Lexeme} (h : Grammar.Semicolons ts) :
    ofLexemes scope ts = .error ⟨.empty, none⟩ := by
  simp only [ofLexemes, chainOf, skipSemicolons_eq_nil h]
  rfl

end Parser

namespace Fault

/-- What a fault says it has found at its place; nothing is the end of the source. -/
def Cause.found? : Cause → Option (Option Token)
  | unexpected found => some found
  | expected _ found => some found
  | _ => none

/-- The fault is at a token and names no other, or it is at the end and names none. -/
def PointsInto (fault : Fault) (ts : List Lexeme) (stop : Nat) : Prop :=
  (∃ t ∈ ts, fault.offset = some t.offset ∧
      ∀ found, fault.cause.found? = some found → found = some t.token) ∨
    (fault.offset = some stop ∧ ∀ found, fault.cause.found? = some found → found = none)

end Fault

theorem Parser.Blames.pointsInto {scope : Scope} {all : List Lexeme} {fault : Fault}
    (h : Blames scope all fault) : fault.PointsInto all scope.stop := by
  have first {t : Lexeme} {ts : List Lexeme} (left : t :: ts <:+ all) : t ∈ all :=
    left.subset List.mem_cons_self
  cases h with
  | @unexpected ts left | @expected m ts left =>
    cases ts with
    | nil => exact .inr ⟨rfl, fun found eq => (Option.some.inj eq).symm⟩
    | cons t ts => exact .inl ⟨t, first left, rfl, fun found eq => (Option.some.inj eq).symm⟩
  | @tooDeep ts left =>
    cases ts with
    | nil => exact .inr ⟨rfl, nofun⟩
    | cons t ts => exact .inl ⟨t, first left, rfl, nofun⟩

def IsVoid (s : String) : Prop := ∃ ts, Token.lexemes s = .ok ts ∧ Grammar.Semicolons ts

theorem isBoundary_end (s : String) : IsBoundary s s.utf8ByteSize :=
  String.Pos.Raw.isValid_rawEndPos

theorem isBoundary_of_mem {s : String} {ts : List Lexeme} (tokens : Token.lexemes s = .ok ts)
    {offset : Nat} (mem : offset ∈ ts.map Lexeme.offset) : IsBoundary s offset := by
  obtain ⟨spans, rfl, covers⟩ := Token.covers_of_lexemes tokens
  rw [List.map_map] at mem
  obtain ⟨p, among, rfl⟩ := List.mem_map.mp mem
  obtain ⟨-, rest, stands, -⟩ := covers.spelt p among
  exact stands.first

theorem Fault.PointsInto.isBoundary {fault : Fault} {s : String} {ts : List Lexeme}
    (tokens : Token.lexemes s = .ok ts) (h : fault.PointsInto ts s.utf8ByteSize) :
    ∃ offset, fault.offset = some offset ∧ IsBoundary s offset := by
  rcases h with ⟨t, mem, place, -⟩ | ⟨place, -⟩
  · exact ⟨t.offset, place, isBoundary_of_mem tokens (List.mem_map_of_mem mem)⟩
  · exact ⟨_, place, isBoundary_end s⟩

namespace Expr

theorem parse_of_tokens {s : String} {ts : List Lexeme} (tokens : Token.lexemes s = .ok ts) (depth : Nat) :
    match parse s depth with
    | .ok e => Parser.Notes ts e
    | .error fault =>
      fault.PointsInto ts s.utf8ByteSize ∨ (Grammar.Semicolons ts ∧ fault = ⟨.empty, none⟩) := by
  have outcome := Parser.ofLexemes_blaming ⟨depth, s.utf8ByteSize⟩ ts
  unfold parse
  rw [tokens]
  dsimp only
  cases parsed : Parser.ofLexemes ⟨depth, s.utf8ByteSize⟩ ts with
  | ok e =>
    rw [parsed] at outcome
    exact outcome
  | error fault =>
    rw [parsed] at outcome
    exact outcome.imp_left Parser.Blames.pointsInto

theorem parse_void {s : String} (void : IsVoid s) (depth : Nat) : parse s depth = .error ⟨.empty, none⟩ := by
  obtain ⟨ts, tokens, semicolons⟩ := void
  unfold parse
  rw [tokens]
  exact Parser.ofLexemes_semicolons _ semicolons

theorem evaluate_fault {s : String} {depth : Nat} {b : Bindings} {fault : Fault}
    (failed : ((evaluate s depth).on b).1 = .error fault) :
    IsVoid s ∨ ∃ offset, fault.offset = some offset ∧ IsBoundary s offset := by
  cases tokens : Token.lexemes s with
  | error found =>
    obtain ⟨defect, offset⟩ := found
    obtain ⟨text, rest, stands, -⟩ := Token.standsAt_of_defect tokens
    simp only [evaluate, parse, tokens] at failed
    cases failed
    exact .inr ⟨offset, rfl, stands.first⟩
  | ok ts =>
    have outcome := parse_of_tokens tokens depth
    unfold evaluate at failed
    cases parsed : parse s depth with
    | error fault' =>
      rw [parsed] at outcome failed
      cases failed
      rcases outcome with points | ⟨semicolons, -⟩
      · exact .inr (points.isBoundary tokens)
      · exact .inl ⟨ts, tokens, semicolons⟩
    | ok e =>
      rw [parsed] at outcome failed
      -- A tree fails only where it has noted an offset, and it was read from these tokens.
      obtain ⟨offset, place, noted⟩ := located_eval_of e (parse_filled parsed) outcome b fault failed
      exact .inr ⟨offset, place, isBoundary_of_mem tokens noted⟩

end Expr

/-- The tokens of a source are pieces of it that stand apart in their order with only blanks outside them,
each word and each mark as long as it can be; where no token can be read, the defect is of the piece that
stands there. A source that has no tree has a fault at one of its tokens, which the fault names, or at its
end. Whatever is bound and however deep expressions may be nested, every fault of an evaluation is at a
boundary between characters, with the one exception of a source of nothing but semicolons, which always
has the fault without a place. -/
theorem tokens_cover_and_faults_point_into_source (s : String) :
    (∀ ts, Token.lexemes s = .ok ts →
      (∃ spans : List Token.Span, ts = spans.map Token.Span.lexeme ∧ Covers s spans) ∧
      ∀ depth fault, Expr.parse s depth = .error fault → fault.offset ≠ none →
        fault.PointsInto ts s.utf8ByteSize) ∧
    (∀ defect offset, Token.lexemes s = .error (defect, offset) →
      ∃ text rest, StandsAt s offset text rest ∧ Token.Halts text rest defect) ∧
    ∀ (env : Environment) (depth : Nat),
      (IsVoid s → env.run (Expr.evaluate s depth) = (.error ⟨.empty, none⟩, env)) ∧
      ∀ fault, (env.run (Expr.evaluate s depth)).1 = .error fault →
        (fault.offset = none ↔ IsVoid s) ∧
        ∀ offset, fault.offset = some offset → IsBoundary s offset ∧ offset ≤ s.utf8ByteSize := by
  refine ⟨fun ts tokens => ⟨Token.covers_of_lexemes tokens, fun depth fault failed placed => ?_⟩,
    fun defect offset => Token.standsAt_of_defect, fun env depth => ?_⟩
  · have outcome := Expr.parse_of_tokens tokens depth
    rw [failed] at outcome
    rcases outcome with points | ⟨-, rfl⟩
    · exact points
    · exact absurd rfl placed
  · have nothing (void : IsVoid s) : env.run (Expr.evaluate s depth) = (.error ⟨.empty, none⟩, env) := by
      rw [Expr.evaluate, Expr.parse_void void]
      rfl
    refine ⟨nothing, fun fault failed => ⟨⟨fun unplaced => ?_, fun void => ?_⟩, fun offset placed => ?_⟩⟩
    · rcases Expr.evaluate_fault failed with void | ⟨offset, place, -⟩
      · exact void
      · rw [unplaced] at place
        cases place
    · rw [nothing void] at failed
      cases failed
      rfl
    · rcases Expr.evaluate_fault failed with void | ⟨offset', place, boundary⟩
      · rw [nothing void] at failed
        cases failed
        cases placed
      · rw [placed] at place
        cases place
        exact ⟨boundary, boundary.le_utf8ByteSize⟩

def accented : String := "'é'!==Ax;;"

theorem accented_fails_behind_text :
    (Environment.empty.run (Expr.evaluate accented 2)).1 = .error (.atOffset (.undefined "Ax") 7) ∧
      IsBoundary accented 7 ∧ ¬ IsBoundary accented 2 ∧ ¬ IsVoid accented ∧
      ∃ spans : List Token.Span, spans.map Token.Span.start = [0, 4, 7, 9, 10] ∧ Covers accented spans := by
  have tokens : Token.lexemes accented = .ok [⟨.quoted "é", 0⟩, ⟨.mark .strictlyUnequal, 4⟩, ⟨.word "Ax", 7⟩,
      ⟨.mark .semicolon, 9⟩, ⟨.mark .semicolon, 10⟩] := rfl
  have parsed : Expr.parse accented 2 =
      .ok (.binary .ne (.literal (.str "é") 0) (.symbol "Ax" 7) 4) := rfl
  have failed : (Environment.empty.run (Expr.evaluate accented 2)).1 =
      .error (.atOffset (.undefined "Ax") 7) := by
    rw [Expr.evaluate, parsed]
    rfl
  obtain ⟨covered, -, faults⟩ := tokens_cover_and_faults_point_into_source accented
  obtain ⟨placed, bounded⟩ := (faults .empty 2).2 _ failed
  obtain ⟨⟨spans, eq, covers⟩, -⟩ := covered _ tokens
  refine ⟨failed, (bounded 7 rfl).1, by decide, fun void => ?_, spans, ?_, covers⟩
  · cases placed.mpr void
  · have starts := congrArg (List.map Lexeme.offset) eq
    rw [List.map_map] at starts
    exact starts.symm

end GcodePrep
