import GcodePrep.Proofs.EvaluationRuns

set_option autoImplicit false

/-!
# Trees moved along their source

A tree whose offsets are all moved by the same number of bytes evaluates to the same value and makes
the same assignments; its fault, if it has one, is moved with it. This holds from any two bindings that
are coupled on the names in the tree, so that it also says what else evaluation depends on: nothing. A
relation that only assignments to the tree's own targets have to preserve says what it changes.
-/

namespace GcodePrep

def Fault.shift (n : Nat) (fault : Fault) : Fault := { fault with offset := fault.offset.map (· + n) }

def Lexeme.shift (n : Nat) (x : Lexeme) : Lexeme := { x with offset := x.offset + n }

theorem Fault.shift_zero (fault : Fault) : fault.shift 0 = fault := by
  obtain ⟨cause, offset⟩ := fault
  cases offset <;> rfl

theorem Fault.mapError_shift_zero {α : Type} (result : Except Fault α) :
    result.mapError (Fault.shift 0) = result := by
  cases result with
  | ok a => rfl
  | error fault => exact congrArg Except.error fault.shift_zero

namespace Expr

mutual

def shift (n : Nat) : Expr → Expr
  | literal v offset => literal v (offset + n)
  | symbol name offset => symbol name (offset + n)
  | unary op e offset => unary op (e.shift n) (offset + n)
  | binary op l r offset => binary op (l.shift n) (r.shift n) (offset + n)
  | choice c yes no => choice (c.shift n) (yes.shift n) (no.shift n)
  | assign op name e offset => assign op name (e.shift n) (offset + n)
  | call name args offset => call name (shiftAll n args) (offset + n)
  | chain items => chain (shiftAll n items)

def shiftAll (n : Nat) : List Expr → List Expr
  | [] => []
  | e :: es => e.shift n :: shiftAll n es

end

mutual

theorem shift_zero : (e : Expr) → e.shift 0 = e
  | literal .. | symbol .. => rfl
  | unary op e offset => by rw [shift, shift_zero e, Nat.add_zero]
  | binary op l r offset => by rw [shift, shift_zero l, shift_zero r, Nat.add_zero]
  | choice c yes no => by rw [shift, shift_zero c, shift_zero yes, shift_zero no]
  | assign op name e offset => by rw [shift, shift_zero e, Nat.add_zero]
  | call name args offset => by rw [shift, shiftAll_zero args, Nat.add_zero]
  | chain items => by rw [shift, shiftAll_zero items]

theorem shiftAll_zero : (es : List Expr) → shiftAll 0 es = es
  | [] => rfl
  | e :: es => by rw [shiftAll, shift_zero e, shiftAll_zero es]

end

mutual

/-- The names in a tree, read or assigned to. The name of a function is none of them. -/
def names : Expr → List String
  | literal .. => []
  | symbol name _ => [name]
  | unary _ e _ => e.names
  | binary _ l r _ => l.names ++ r.names
  | choice c yes no => c.names ++ (yes.names ++ no.names)
  | assign _ name e _ => name :: e.names
  | call _ args _ => namesAll args
  | chain items => namesAll items

def namesAll : List Expr → List String
  | [] => []
  | e :: es => e.names ++ namesAll es

end

mutual

def targets : Expr → List String
  | literal .. | symbol .. => []
  | unary _ e _ => e.targets
  | binary _ l r _ => l.targets ++ r.targets
  | choice c yes no => c.targets ++ (yes.targets ++ no.targets)
  | assign _ name e _ => name :: e.targets
  | call _ args _ => targetsAll args
  | chain items => targetsAll items

def targetsAll : List Expr → List String
  | [] => []
  | e :: es => e.targets ++ targetsAll es

end

end Expr

/-- Bindings related by `R` have the same values for these names, and stay related when one of the
targets is assigned to on both sides. -/
structure Coupling (R : Bindings → Bindings → Prop) (names targets : List String) : Prop where
  get? : ∀ {b b'}, R b b' → ∀ name ∈ names, b.get? name = b'.get? name
  set : ∀ {b b'}, R b b' → ∀ name ∈ targets, ∀ v, R (b.set name v) (b'.set name v)

namespace Eval

variable {R : Bindings → Bindings → Prop} {n : Nat} {α β : Type}

/-- From related bindings both computations give the same value, or the second gives the fault of the
first moved by `n`; they leave related bindings. -/
def Tracks (R : Bindings → Bindings → Prop) (n : Nat) (m m' : Eval α) : Prop :=
  ∀ b b', R b b' → (m'.on b').1 = (m.on b).1.mapError (Fault.shift n) ∧ R (m.on b).2 (m'.on b').2

theorem tracks_pure (a : α) : Tracks R n (pure a) (pure a) := fun _ _ related => ⟨rfl, related⟩

theorem tracks_throw_nowhere (cause : Fault.Cause) :
    Tracks R n (throw ⟨cause, none⟩ : Eval α) (throw ⟨cause, none⟩) :=
  fun _ _ related => ⟨rfl, related⟩

theorem Tracks.ite {c : Prop} [Decidable c] {m m' k k' : Eval α} (h : Tracks R n m m')
    (h' : Tracks R n k k') : Tracks R n (if c then m else k) (if c then m' else k') := by
  split
  · exact h
  · exact h'

theorem Tracks.bind {m m' : Eval α} {f f' : α → Eval β} (h : Tracks R n m m')
    (next : ∀ a, Tracks R n (f a) (f' a)) : Tracks R n (m >>= f) (m' >>= f') := by
  intro b b' related
  obtain ⟨same, after⟩ := h b b' related
  rw [on_bind, on_bind]
  rcases eq : m.on b with ⟨fault | a, c⟩ <;> rcases eq' : m'.on b' with ⟨fault' | a', c'⟩ <;>
    rw [eq, eq'] at same after <;> cases same
  · exact ⟨rfl, after⟩
  · exact next a c c' after

theorem tracks_placed {outcome : Nat → Except Fault α} (h : Placed outcome) (offset : Nat) :
    Tracks R n (liftExcept (outcome offset)) (liftExcept (outcome (offset + n))) := by
  intro b b' related
  obtain ⟨result, eq⟩ := h
  rw [on_liftExcept, on_liftExcept, eq, eq]
  cases result <;> exact ⟨rfl, related⟩

section Names

variable {names targets : List String} (coupling : Coupling R names targets) {name : String}

include coupling

theorem tracks_lookup (mem : name ∈ names) (offset : Nat) :
    Tracks R n (lookup name offset) (lookup name (offset + n)) := by
  intro b b' related
  rw [on_lookup, on_lookup, ← coupling.get? related name mem]
  cases b.get? name <;> exact ⟨rfl, related⟩

theorem tracks_assign (mem : name ∈ targets) (v : Value) :
    Tracks R n (assign name v) (assign name v) :=
  fun _ _ related => ⟨rfl, coupling.set related name mem v⟩

end Names

end Eval

namespace Expr

open Eval

variable {R : Bindings → Bindings → Prop} {names targets : List String}

mutual

theorem tracks_eval (coupling : Coupling R names targets) (n : Nat) :
    (e : Expr) → e.names ⊆ names → e.targets ⊆ targets → Tracks R n e.eval (e.shift n).eval
  | literal v _, _, _ => tracks_pure v
  | symbol name offset, within, _ => tracks_lookup coupling (within List.mem_cons_self) offset
  | unary op e offset, within, assigned =>
    (tracks_eval coupling n e within assigned).bind fun v => tracks_placed (op.placed_apply v) offset
  | binary op l r offset, within, assigned => by
    obtain ⟨within, within'⟩ := List.append_subset.mp within
    obtain ⟨assigned, assigned'⟩ := List.append_subset.mp assigned
    have left := tracks_eval coupling n l within assigned
    have right := tracks_eval coupling n r within' assigned'
    cases op with
    | and => exact left.bind fun v => right.ite (tracks_pure v)
    | or => exact left.bind fun v => (tracks_pure v).ite right
    | add | sub | mul | div | mod | eq | ne | lt | le | gt | ge =>
      exact left.bind fun a => right.bind fun b => tracks_placed (BinaryOp.placed_apply _ a b) offset
  | choice c yes no, within, assigned => by
    obtain ⟨within, branches⟩ := List.append_subset.mp within
    obtain ⟨assigned, branches'⟩ := List.append_subset.mp assigned
    obtain ⟨first, second⟩ := List.append_subset.mp branches
    obtain ⟨first', second'⟩ := List.append_subset.mp branches'
    exact (tracks_eval coupling n c within assigned).bind fun _ =>
      (tracks_eval coupling n yes first first').ite (tracks_eval coupling n no second second')
  | assign op name e offset, within, assigned => by
    obtain ⟨read, within⟩ := List.cons_subset.mp within
    obtain ⟨written, assigned⟩ := List.cons_subset.mp assigned
    have stored (result : Value) := (tracks_assign coupling written result).bind fun _ =>
      tracks_pure (n := n) result
    refine (tracks_eval coupling n e within assigned).bind fun new => ?_
    dsimp only
    cases op.operator? with
    | none => exact (tracks_pure new).bind stored
    | some op =>
      exact (tracks_lookup coupling read offset).bind fun old =>
        (tracks_placed (op.placed_apply old new) offset).bind stored
  | call name args offset, within, assigned =>
    (tracks_evalAll coupling n args within assigned).bind fun values =>
      tracks_placed (Function.placed_call name values) offset
  | chain items, within, assigned => by
    refine (tracks_evalAll coupling n items within assigned).bind fun values => ?_
    cases values.getLast? with
    | some v => exact tracks_pure v
    | none => exact tracks_throw_nowhere _

theorem tracks_evalAll (coupling : Coupling R names targets) (n : Nat) :
    (es : List Expr) → namesAll es ⊆ names → targetsAll es ⊆ targets →
      Tracks R n (evalAll es) (evalAll (shiftAll n es))
  | [], _, _ => tracks_pure []
  | e :: es, within, assigned => by
    obtain ⟨within, within'⟩ := List.append_subset.mp within
    obtain ⟨assigned, assigned'⟩ := List.append_subset.mp assigned
    exact (tracks_eval coupling n e within assigned).bind fun v =>
      (tracks_evalAll coupling n es within' assigned').bind fun vs => tracks_pure (v :: vs)

end

end Expr

end GcodePrep
