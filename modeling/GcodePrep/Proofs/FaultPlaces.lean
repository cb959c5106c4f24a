import GcodePrep.Proofs.EvaluationRuns
import GcodePrep.Proofs.ParserSoundness

set_option autoImplicit false

/-!
# Every fault of an evaluation has a place

An empty chain is the only tree whose evaluation fails at no place of the source, and the parser never
builds one. The places are the offsets that the tree has noted.
-/

namespace GcodePrep

namespace Expr

mutual

def Filled : Expr → Prop
  | literal .. | symbol .. => True
  | unary _ e _ => e.Filled
  | binary _ l r _ => l.Filled ∧ r.Filled
  | choice c yes no => c.Filled ∧ yes.Filled ∧ no.Filled
  | assign _ _ e _ => e.Filled
  | call _ args _ => FilledAll args
  | chain items => items ≠ [] ∧ FilledAll items

def FilledAll : List Expr → Prop
  | [] => True
  | e :: es => e.Filled ∧ FilledAll es

end

mutual

def offsets : Expr → List Nat
  | literal .. => []
  | symbol _ offset => [offset]
  | unary _ e offset => offset :: e.offsets
  | binary _ l r offset => offset :: (l.offsets ++ r.offsets)
  | choice c yes no => c.offsets ++ (yes.offsets ++ no.offsets)
  | assign _ _ e offset => offset :: e.offsets
  | call _ args offset => offset :: offsetsAll args
  | chain items => offsetsAll items

def offsetsAll : List Expr → List Nat
  | [] => []
  | e :: es => e.offsets ++ offsetsAll es

end

end Expr

namespace Grammar

def FilledBelow (n : Nat) : Prop :=
  ∀ c ts e, ts.length < n → Derives c ts e → e.Filled

namespace FilledBelow

variable {n : Nat} (below : FilledBelow n) {ts : List Lexeme} {e : Expr}

include below

theorem arguments {es : List Expr} (h : ArgumentList (Derives .assignment) ts es)
    (short : ts.length < n) : Expr.FilledAll es := by
  induction h with
  | last h => exact ⟨below _ _ _ short h, trivial⟩
  | more comma h others ih =>
    rw [List.length_append, List.length_cons] at short
    exact ⟨below _ _ _ (by omega) h, ih (by omega)⟩

theorem primary (h : Derives .primary ts e) (short : ts.length < n + 1) : e.Filled := by
  cases h with
  | value | quoted | symbol | emptyCall => exact trivial
  | call name offset opening closing h =>
    simp only [List.length_cons, List.length_append, List.length_nil] at short
    exact below.arguments h (by omega)
  | parenthesised opening closing h =>
    simp only [List.length_cons, List.length_append, List.length_nil] at short
    exact below _ _ _ (by omega) h

theorem unary (h : Derives .unary ts e) (short : ts.length < n + 1) : e.Filled := by
  cases h with
  | sign offset operator h =>
    have operand := below _ _ _ (Nat.lt_of_succ_lt_succ short) h
    exact operand
  | primary h => exact below.primary h short

theorem level {l : Level} (h : Derives (.level l) ts e) (short : ts.length < n + 1) : e.Filled := by
  refine Level.induction (P := fun ts e => ts.length < n + 1 → e.Filled)
    (fun _ _ => below.unary) ?_ l h short
  intro l ts left m op filled operator offset us right filled' short
  rw [List.length_append, List.length_cons] at short
  exact ⟨filled (by omega), filled' (by omega)⟩

theorem ternary (h : Derives .ternary ts e) (short : ts.length < n + 1) : e.Filled := by
  cases h with
  | condition h => exact below.level h short
  | choice question colon h first second =>
    simp only [List.length_cons, List.length_append] at short
    exact ⟨below.level h (by omega), below _ _ _ (by omega) first, below _ _ _ (by omega) second⟩

theorem assignment (h : Derives .assignment ts e) (short : ts.length < n + 1) : e.Filled := by
  cases h with
  | ternary h => exact below.ternary h short
  | assign name offset place operator h =>
    simp only [List.length_cons] at short
    have value := below _ _ _ (by omega) h
    exact value

end FilledBelow

theorem filledBelow (n : Nat) : FilledBelow n := by
  induction n with
  | zero => exact fun _ _ _ short => absurd short (Nat.not_lt_zero _)
  | succ n below =>
    intro c ts e short h
    cases c with
    | assignment => exact below.assignment h short
    | ternary => exact below.ternary h short
    | level l => exact below.level h short
    | unary => exact below.unary h short
    | primary => exact below.primary h short

theorem Derives.filled {c : Nonterminal} {ts : List Lexeme} {e : Expr} (h : Derives c ts e) : e.Filled :=
  filledBelow _ c ts e (Nat.lt_succ_self _) h

theorem Statements.filled {ts : List Lexeme} {es : List Expr} (h : Statements ts es) :
    (sequenceTree es).Filled := by
  have all : es ≠ [] ∧ Expr.FilledAll es := by
    induction h with
    | one h => exact ⟨by simp, h.filled, trivial⟩
    | more h _ _ ih => exact ⟨by simp, h.filled, ih.2⟩
  match es, all with
  | [e], all => exact all.2.1
  | _ :: _ :: _, all => exact all

theorem Sentence.filled {ts : List Lexeme} {e : Expr} (h : Sentence ts e) : e.Filled := by
  cases h with
  | plain _ statements => exact statements.filled
  | separated _ statements _ => exact statements.filled

end Grammar

theorem Expr.parse_filled {s : String} {depth : Nat} {e : Expr} (h : parse s depth = .ok e) : e.Filled := by
  unfold parse at h
  split at h
  · cases h
  · exact (Parser.ofLexemes_sound _ h).filled

namespace Eval

variable {α β : Type} {P : Nat → Prop}

/-- The computation fails only at places of the source that satisfy `P`. -/
def Located (P : Nat → Prop) (m : Eval α) : Prop :=
  ∀ (b : Bindings) (fault : Fault), (m.on b).1 = .error fault →
    ∃ offset, fault.offset = some offset ∧ P offset

theorem located_pure (a : α) : Located P (pure a) := fun _ _ failed => nomatch failed

theorem located_lookup (name : String) {offset : Nat} (place : P offset) :
    Located P (lookup name offset) := by
  intro b fault failed
  rw [on_lookup] at failed
  cases found : b.get? name with
  | some v =>
    rw [found] at failed
    cases failed
  | none =>
    rw [found] at failed
    cases failed
    exact ⟨offset, rfl, place⟩

theorem located_assign (name : String) (v : Value) : Located P (assign name v) :=
  fun _ _ failed => nomatch failed

theorem located_placed {outcome : Nat → Except Fault α} (h : Placed outcome) {offset : Nat}
    (place : P offset) : Located P (liftExcept (outcome offset)) := by
  intro b fault failed
  rw [on_liftExcept] at failed
  exact ⟨offset, h.offset_eq failed, place⟩

theorem Located.ite {c : Prop} [Decidable c] {m k : Eval α} (h : Located P m) (h' : Located P k) :
    Located P (if c then m else k) := by
  split
  · exact h
  · exact h'

theorem Located.bind_of {m : Eval α} {f : α → Eval β} (h : Located P m)
    (next : ∀ a b, (m.on b).1 = .ok a → Located P (f a)) : Located P (m >>= f) := by
  intro b fault failed
  rw [on_bind] at failed
  rcases eq : m.on b with ⟨first | a, c⟩ <;> rw [eq] at failed
  · cases failed
    exact h b fault (by rw [eq])
  · exact next a b (by rw [eq]) c fault failed

theorem Located.bind {m : Eval α} {f : α → Eval β} (h : Located P m) (next : ∀ a, Located P (f a)) :
    Located P (m >>= f) := h.bind_of fun a _ _ => next a

end Eval

namespace Expr

open Eval

theorem evalAll_ne_nil {es : List Expr} (some_items : es ≠ []) {b : Bindings} {vs : List Value}
    (h : ((evalAll es).on b).1 = .ok vs) : vs ≠ [] := by
  cases es with
  | nil => exact absurd rfl some_items
  | cons e es =>
    rw [evalAll, on_bind] at h
    rcases first : e.eval.on b with ⟨fault | v, c⟩ <;> rw [first] at h
    · cases h
    · dsimp only at h
      rw [on_bind] at h
      rcases later : (evalAll es).on c with ⟨fault | others, c'⟩ <;> rw [later] at h <;> cases h
      exact List.cons_ne_nil v others

variable {P : Nat → Prop}

mutual

theorem located_eval_of : (e : Expr) → e.Filled → (∀ n ∈ e.offsets, P n) → Located P e.eval
  | literal v _, _, _ => located_pure v
  | symbol name offset, _, places => located_lookup name (places offset (by simp [offsets]))
  | unary op e offset, filled, places => by
    obtain ⟨place, inner⟩ := List.forall_mem_cons.mp places
    exact (located_eval_of e filled inner).bind fun v => located_placed (op.placed_apply v) place
  | binary op l r offset, filled, places => by
    obtain ⟨place, inner⟩ := List.forall_mem_cons.mp places
    obtain ⟨first, second⟩ := List.forall_mem_append.mp inner
    have left := located_eval_of l filled.1 first
    have right := located_eval_of r filled.2 second
    cases op with
    | and => exact left.bind fun v => right.ite (located_pure v)
    | or => exact left.bind fun v => (located_pure v).ite right
    | add | sub | mul | div | mod | eq | ne | lt | le | gt | ge =>
      exact left.bind fun a => right.bind fun b => located_placed (BinaryOp.placed_apply _ a b) place
  | choice c yes no, filled, places => by
    obtain ⟨condition, answers⟩ := List.forall_mem_append.mp places
    obtain ⟨first, second⟩ := List.forall_mem_append.mp answers
    exact (located_eval_of c filled.1 condition).bind fun _ =>
      (located_eval_of yes filled.2.1 first).ite (located_eval_of no filled.2.2 second)
  | assign op name e offset, filled, places => by
    obtain ⟨place, inner⟩ := List.forall_mem_cons.mp places
    have stored (result : Value) := (located_assign (P := P) name result).bind fun _ => located_pure result
    refine (located_eval_of e filled inner).bind fun new => ?_
    dsimp only
    cases op.operator? with
    | none => exact (located_pure new).bind stored
    | some op =>
      exact (located_lookup name place).bind fun old =>
        (located_placed (op.placed_apply old new) place).bind stored
  | call name args offset, filled, places => by
    obtain ⟨place, inner⟩ := List.forall_mem_cons.mp places
    exact (located_evalAll_of args filled inner).bind fun values =>
      located_placed (Function.placed_call name values) place
  | chain items, filled, places => by
    refine (located_evalAll_of items filled.2 places).bind_of fun values b yielded => ?_
    -- The fault without a place needs a chain that yields no value.
    have some_values := evalAll_ne_nil filled.1 yielded
    rw [List.getLast?_eq_some_getLast some_values]
    exact located_pure _

theorem located_evalAll_of : (es : List Expr) → FilledAll es → (∀ n ∈ offsetsAll es, P n) →
    Located P (evalAll es)
  | [], _, _ => located_pure []
  | e :: es, filled, places => by
    obtain ⟨first, others⟩ := List.forall_mem_append.mp places
    exact (located_eval_of e filled.1 first).bind fun v =>
      (located_evalAll_of es filled.2 others).bind fun vs => located_pure (v :: vs)

end

theorem located_eval (e : Expr) (filled : e.Filled) (b : Bindings) (fault : Fault)
    (failed : (e.eval.on b).1 = .error fault) : ∃ offset, fault.offset = some offset := by
  obtain ⟨offset, eq, -⟩ := located_eval_of (P := fun _ => True) e filled (fun _ _ => trivial) b fault failed
  exact ⟨offset, eq⟩

end Expr

end GcodePrep
