import GcodePrep.Proofs.EvaluationRuns

set_option autoImplicit false

/-!
# Assignments completed by an evaluation

The rules of evaluation, told by the assignments that are completed on the way. A tree ends with a value or
with a fault, and either way the bindings it leaves are those it was started with and the completed
assignments, made one after the other. An assignment is completed when its value is known and has been
combined with the old one; a fault on the way to that leaves the assignments before it.
-/

namespace GcodePrep

def Bindings.after (b : Bindings) (made : List (String × Value)) : Bindings :=
  made.foldl (fun b assignment => b.set assignment.1 assignment.2) b

theorem Bindings.after_append (b : Bindings) (made made' : List (String × Value)) :
    b.after (made ++ made') = (b.after made).after made' :=
  List.foldl_append

def BinaryOp.settledBy : BinaryOp → Value → Bool
  | .and, v => !v.isTruthy
  | .or, v => v.isTruthy
  | _, _ => false

/-- What an assignment stores: the new value, or the old one combined with it. -/
def AssignOp.stored (op : AssignOp) (name : String) (offset : Nat) (b : Bindings) (new : Value) :
    Except Fault Value :=
  match op.operator? with
  | none => .ok new
  | some operator => match b.get? name with
    | none => .error (.atOffset (.undefined name) offset)
    | some old => operator.apply old new offset

namespace Expr

/-- The part that is evaluated before all others. Arguments and statements are evaluated as a list. -/
def first? : Expr → Option Expr
  | unary _ e _ => some e
  | binary _ l _ _ => some l
  | choice c _ _ => some c
  | assign _ _ e _ => some e
  | literal .. | symbol .. | call .. | chain .. => none

mutual

/-- From the bindings `b` the tree completes the assignments `made` and ends with the outcome. -/
inductive Performs : Bindings → Expr → List (String × Value) → Except Fault Value → Prop where
  | literal (b : Bindings) (v : Value) (offset : Nat) : Performs b (literal v offset) [] (.ok v)
  | symbol {b : Bindings} {name : String} {v : Value} (offset : Nat) (bound : b.get? name = some v) :
      Performs b (symbol name offset) [] (.ok v)
  | unbound {b : Bindings} {name : String} (offset : Nat) (free : b.get? name = none) :
      Performs b (symbol name offset) [] (.error (.atOffset (.undefined name) offset))
  | stops {b : Bindings} {e first : Expr} {made : List (String × Value)} {fault : Fault}
      (begins : e.first? = some first) (fails : Performs b first made (.error fault)) :
      Performs b e made (.error fault)
  | unary {b : Bindings} {e : Expr} {made : List (String × Value)} {v : Value} (op : UnaryOp)
      (offset : Nat) (h : Performs b e made (.ok v)) :
      Performs b (unary op e offset) made (op.apply v offset)
  | settled {b : Bindings} {l : Expr} {made : List (String × Value)} {v : Value} {op : BinaryOp}
      (r : Expr) (offset : Nat) (left : Performs b l made (.ok v)) (settles : op.settledBy v = true) :
      Performs b (binary op l r offset) made (.ok v)
  | binary {b : Bindings} {l r : Expr} {made made' : List (String × Value)} {v w : Value} {op : BinaryOp}
      (offset : Nat) (left : Performs b l made (.ok v)) (opens : op.settledBy v = false)
      (right : Performs (b.after made) r made' (.ok w)) :
      Performs b (binary op l r offset) (made ++ made') (op.apply v w offset)
  | rightStops {b : Bindings} {l r : Expr} {made made' : List (String × Value)} {v : Value}
      {op : BinaryOp} {fault : Fault} (offset : Nat) (left : Performs b l made (.ok v))
      (opens : op.settledBy v = false) (fails : Performs (b.after made) r made' (.error fault)) :
      Performs b (binary op l r offset) (made ++ made') (.error fault)
  | choice {b : Bindings} {c yes no : Expr} {made made' : List (String × Value)} {v : Value}
      {outcome : Except Fault Value} (condition : Performs b c made (.ok v))
      (branch : Performs (b.after made) (if v.isTruthy then yes else no) made' outcome) :
      Performs b (choice c yes no) (made ++ made') outcome
  | assign {b : Bindings} {e : Expr} {made : List (String × Value)} {v w : Value} {op : AssignOp}
      {name : String} {offset : Nat} (h : Performs b e made (.ok v))
      (stored : op.stored name offset (b.after made) v = .ok w) :
      Performs b (assign op name e offset) (made ++ [(name, w)]) (.ok w)
  | assignStops {b : Bindings} {e : Expr} {made : List (String × Value)} {v : Value} {op : AssignOp}
      {name : String} {offset : Nat} {fault : Fault} (h : Performs b e made (.ok v))
      (fails : op.stored name offset (b.after made) v = .error fault) :
      Performs b (assign op name e offset) made (.error fault)
  | call {b : Bindings} {args : List Expr} {made : List (String × Value)} {values : List Value}
      (name : String) (offset : Nat) (h : PerformsAll b args made (.ok values)) :
      Performs b (call name args offset) made (Function.call name values offset)
  | callStops {b : Bindings} {args : List Expr} {made : List (String × Value)} {fault : Fault}
      (name : String) (offset : Nat) (fails : PerformsAll b args made (.error fault)) :
      Performs b (call name args offset) made (.error fault)
  | chain {b : Bindings} {items : List Expr} {made : List (String × Value)} {values : List Value}
      {v : Value} (h : PerformsAll b items made (.ok values)) (last : values.getLast? = some v) :
      Performs b (chain items) made (.ok v)
  | chainStops {b : Bindings} {items : List Expr} {made : List (String × Value)} {fault : Fault}
      (fails : PerformsAll b items made (.error fault)) : Performs b (chain items) made (.error fault)
  | emptyChain (b : Bindings) : Performs b (chain []) [] (.error ⟨.empty, none⟩)

inductive PerformsAll : Bindings → List Expr → List (String × Value) → Except Fault (List Value) → Prop where
  | nil (b : Bindings) : PerformsAll b [] [] (.ok [])
  | cons {b : Bindings} {e : Expr} {es : List Expr} {made made' : List (String × Value)} {v : Value}
      {vs : List Value} (first : Performs b e made (.ok v))
      (rest : PerformsAll (b.after made) es made' (.ok vs)) :
      PerformsAll b (e :: es) (made ++ made') (.ok (v :: vs))
  | stops {b : Bindings} {e : Expr} {made : List (String × Value)} {fault : Fault} (es : List Expr)
      (fails : Performs b e made (.error fault)) : PerformsAll b (e :: es) made (.error fault)
  | later {b : Bindings} {e : Expr} {es : List Expr} {made made' : List (String × Value)} {v : Value}
      {fault : Fault} (first : Performs b e made (.ok v))
      (fails : PerformsAll (b.after made) es made' (.error fault)) :
      PerformsAll b (e :: es) (made ++ made') (.error fault)

end

open Eval

theorem on_binary (op : BinaryOp) (l r : Expr) (offset : Nat) (b : Bindings) :
    (binary op l r offset).eval.on b = match l.eval.on b with
      | (.error fault, c) => (.error fault, c)
      | (.ok v, c) => if op.settledBy v then (.ok v, c) else match r.eval.on c with
        | (.error fault, d) => (.error fault, d)
        | (.ok w, d) => (op.apply v w offset, d) := by
  rcases left : l.eval.on b with ⟨fault | v, c⟩
  · cases op <;> simp only [eval, on_bind, left]
  · cases op with
    | and | or =>
      simp only [eval, on_bind, left, BinaryOp.settledBy, BinaryOp.apply]
      by_cases truthy : v.isTruthy = true
      all_goals
        simp only [truthy, if_true, if_false, Bool.not_true, Bool.not_false, Bool.false_eq_true]
        rcases r.eval.on c with ⟨fault | w, d⟩ <;> rfl
    | add | sub | mul | div | mod | eq | ne | lt | le | gt | ge =>
      simp only [eval, on_bind, left, BinaryOp.settledBy, on_liftExcept]
      rcases r.eval.on c with ⟨fault | w, d⟩ <;> rfl

theorem on_assign (op : AssignOp) (name : String) (e : Expr) (offset : Nat) (b : Bindings) :
    (assign op name e offset).eval.on b = match e.eval.on b with
      | (.error fault, c) => (.error fault, c)
      | (.ok v, c) => match op.stored name offset c v with
        | .error fault => (.error fault, c)
        | .ok w => (.ok w, c.set name w) := by
  rw [eval, on_bind]
  rcases e.eval.on b with ⟨fault | v, c⟩
  · rfl
  · dsimp only
    unfold AssignOp.stored
    cases op.operator? with
    | none => rfl
    | some operator =>
      dsimp only
      rw [on_bind, on_lookup]
      cases c.get? name with
      | none => rfl
      | some old =>
        dsimp only
        rw [on_bind, on_liftExcept]
        cases operator.apply old v offset <;> rfl

theorem on_choice (c yes no : Expr) (b : Bindings) :
    (choice c yes no).eval.on b = match c.eval.on b with
      | (.error fault, d) => (.error fault, d)
      | (.ok v, d) => (if v.isTruthy then yes else no).eval.on d := by
  rw [eval, on_bind]
  rcases c.eval.on b with ⟨fault | v, d⟩
  · rfl
  · dsimp only
    cases v.isTruthy <;> rfl

theorem on_of_first_fails {e first : Expr} {b c : Bindings} {fault : Fault}
    (begins : e.first? = some first) (fails : first.eval.on b = (.error fault, c)) :
    e.eval.on b = (.error fault, c) := by
  cases e with
  | literal | symbol | call | chain => cases begins
  | unary op e offset =>
    cases begins
    rw [eval, on_bind, fails]
  | binary op l r offset =>
    cases begins
    rw [on_binary, fails]
  | choice condition yes no =>
    cases begins
    rw [on_choice, fails]
  | assign op name value offset =>
    cases begins
    rw [on_assign, fails]

mutual

theorem Performs.on_eq {b : Bindings} {e : Expr} {made : List (String × Value)}
    {outcome : Except Fault Value} : Performs b e made outcome → e.eval.on b = (outcome, b.after made)
  | .literal .. => rfl
  | .symbol offset bound => by
    rw [eval, on_lookup, bound]
    rfl
  | .unbound offset free => by
    rw [eval, on_lookup, free]
    rfl
  | .stops begins fails => on_of_first_fails begins fails.on_eq
  | .unary op offset h => by
    rw [eval, on_bind, h.on_eq]
    exact on_liftExcept _ _
  | .settled r offset left settles => by
    rw [on_binary, left.on_eq]
    exact if_pos settles
  | .binary offset left opens right => by
    rw [on_binary, left.on_eq, Bindings.after_append]
    dsimp only
    rw [opens, right.on_eq]
    rfl
  | .rightStops offset left opens fails => by
    rw [on_binary, left.on_eq, Bindings.after_append]
    dsimp only
    rw [opens, fails.on_eq]
    rfl
  | .choice condition branch => by
    rw [on_choice, condition.on_eq, Bindings.after_append]
    exact branch.on_eq
  | .assign h stored => by
    rw [on_assign, h.on_eq, Bindings.after_append]
    dsimp only
    rw [stored]
    rfl
  | .assignStops h fails => by
    rw [on_assign, h.on_eq]
    dsimp only
    rw [fails]
  | .call name offset h => by
    rw [eval, on_bind, h.on_eq]
    exact on_liftExcept _ _
  | .callStops name offset fails => by
    rw [eval, on_bind, fails.on_eq]
  | .chain h last => by
    rw [eval, on_bind, h.on_eq]
    dsimp only
    rw [last]
    rfl
  | .chainStops fails => by
    rw [eval, on_bind, fails.on_eq]
  | .emptyChain b => rfl

theorem PerformsAll.on_eq {b : Bindings} {es : List Expr} {made : List (String × Value)}
    {outcome : Except Fault (List Value)} :
    PerformsAll b es made outcome → (evalAll es).on b = (outcome, b.after made)
  | .nil b => rfl
  | .cons first rest => by
    rw [evalAll, on_bind, first.on_eq, Bindings.after_append]
    dsimp only
    rw [on_bind, rest.on_eq]
    rfl
  | .stops es fails => by
    rw [evalAll, on_bind, fails.on_eq]
  | .later first fails => by
    rw [evalAll, on_bind, first.on_eq, Bindings.after_append]
    dsimp only
    rw [on_bind, fails.on_eq]

end

mutual

theorem exists_performs (e : Expr) (b : Bindings) : ∃ made outcome, Performs b e made outcome := by
  match e with
  | .literal v offset => exact ⟨_, _, .literal b v offset⟩
  | .symbol name offset =>
    cases h : b.get? name with
    | none => exact ⟨_, _, .unbound offset h⟩
    | some v => exact ⟨_, _, .symbol offset h⟩
  | .unary op e offset =>
    obtain ⟨made, fault | v, h⟩ := exists_performs e b
    · exact ⟨_, _, .stops rfl h⟩
    · exact ⟨_, _, .unary op offset h⟩
  | .binary op l r offset =>
    obtain ⟨made, fault | v, left⟩ := exists_performs l b
    · exact ⟨_, _, .stops rfl left⟩
    · cases settles : op.settledBy v with
      | true => exact ⟨_, _, .settled r offset left settles⟩
      | false =>
        obtain ⟨made', fault | w, right⟩ := exists_performs r (b.after made)
        · exact ⟨_, _, .rightStops offset left settles right⟩
        · exact ⟨_, _, .binary offset left settles right⟩
  | .choice c yes no =>
    obtain ⟨made, fault | v, condition⟩ := exists_performs c b
    · exact ⟨_, _, .stops rfl condition⟩
    -- The branch taken is known with the value only, but both are parts of the tree.
    · have branch : ∃ made' outcome,
          Performs (b.after made) (if v.isTruthy then yes else no) made' outcome := by
        split
        · exact exists_performs yes _
        · exact exists_performs no _
      obtain ⟨made', outcome, branch⟩ := branch
      exact ⟨_, _, .choice condition branch⟩
  | .assign op name e offset =>
    obtain ⟨made, fault | v, h⟩ := exists_performs e b
    · exact ⟨_, _, .stops rfl h⟩
    · cases stored : op.stored name offset (b.after made) v with
      | error fault => exact ⟨_, _, .assignStops h stored⟩
      | ok w => exact ⟨_, _, .assign h stored⟩
  | .call name args offset =>
    obtain ⟨made, fault | values, h⟩ := exists_performsAll args b
    · exact ⟨_, _, .callStops name offset h⟩
    · exact ⟨_, _, .call name offset h⟩
  | .chain items =>
    obtain ⟨made, fault | values, h⟩ := exists_performsAll items b
    · exact ⟨_, _, .chainStops h⟩
    · cases last : values.getLast? with
      | some v => exact ⟨_, _, .chain h last⟩
      | none =>
        -- Without a last value there is no value, and so no statement.
        obtain rfl := List.getLast?_eq_none_iff.mp last
        cases h
        exact ⟨_, _, .emptyChain b⟩

theorem exists_performsAll (es : List Expr) (b : Bindings) :
    ∃ made outcome, PerformsAll b es made outcome := by
  match es with
  | [] => exact ⟨_, _, .nil b⟩
  | e :: es =>
    obtain ⟨made, fault | v, first⟩ := exists_performs e b
    · exact ⟨_, _, .stops es first⟩
    · obtain ⟨made', fault | vs, rest⟩ := exists_performsAll es (b.after made)
      · exact ⟨_, _, .later first rest⟩
      · exact ⟨_, _, .cons first rest⟩

end

/-- Trees evaluated in turn from `b` end with this fault and leave `c`: those up to some tree have values,
that tree fails, and `c` has the assignments completed by the former and inside the latter. -/
def BreaksOff (b : Bindings) (es : List Expr) (fault : Fault) (c : Bindings) : Prop :=
  ∃ done bad rest values before inner, es = done ++ bad :: rest ∧
    PerformsAll b done before (.ok values) ∧ Performs (b.after before) bad inner (.error fault) ∧
    c = (b.after before).after inner

theorem PerformsAll.breaksOff {b : Bindings} {es : List Expr} {made : List (String × Value)}
    {fault : Fault} (h : PerformsAll b es made (.error fault)) : BreaksOff b es fault (b.after made) := by
  induction es generalizing b made with
  | nil => cases h
  | cons e es ih =>
    cases h with
    | stops _ fails => exact ⟨[], e, es, [], [], made, rfl, .nil b, fails, rfl⟩
    | later first fails =>
      obtain ⟨done, bad, rest, values, before, inner, rfl, all, fails, left⟩ := ih fails
      refine ⟨e :: done, bad, rest, _, _, inner, rfl, .cons first all, ?_⟩
      rw [Bindings.after_append, Bindings.after_append]
      exact ⟨fails, left⟩

end Expr

end GcodePrep
