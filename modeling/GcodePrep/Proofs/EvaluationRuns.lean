import GcodePrep.Environment

set_option autoImplicit false

/-!
# Runs of evaluations

A computation on bindings, seen as a function from the bindings it starts with to its result and the
bindings it leaves. The operations on values use the offset they are given in one way only: as the
place of their fault.
-/

namespace GcodePrep

namespace Eval

variable {α β : Type}

def on (m : Eval α) (b : Bindings) : Except Fault α × Bindings := (m.run.run b).run

theorem on_bind (m : Eval α) (f : α → Eval β) (b : Bindings) :
    on (m >>= f) b = match on m b with
      | (.ok a, b') => on (f a) b'
      | (.error fault, b') => (.error fault, b') := by
  simp only [on, ExceptT.run_bind, StateT.run_bind, Id.run_bind]
  rcases (m.run.run b).run with ⟨fault | a, b'⟩ <;> rfl

theorem on_liftExcept (result : Except Fault α) (b : Bindings) :
    on (liftExcept result) b = (result, b) := by
  cases result <;> rfl

theorem on_lookup (name : String) (offset : Nat) (b : Bindings) :
    on (lookup name offset) b = match b.get? name with
      | some v => (.ok v, b)
      | none => (.error (.atOffset (.undefined name) offset), b) := by
  have got : on (get : Eval Bindings) b = (.ok b, b) := rfl
  rw [lookup, on_bind, got]
  dsimp only
  cases b.get? name <;> rfl

end Eval

theorem Environment.run_eq {α : Type} (env : Environment) (m : Eval α) :
    env.run m = ((m.on env.bindings).1, { env with bindings := (m.on env.bindings).2 }) := rfl

/-- An outcome that an offset enters only as the place of its fault. -/
def Placed {α : Type} (outcome : Nat → Except Fault α) : Prop :=
  ∃ result : Except Fault.Cause α, ∀ offset, outcome offset = result.mapError (Fault.atOffset · offset)

namespace Placed

variable {α β : Type}

theorem ok (a : α) : Placed fun _ => .ok a := ⟨.ok a, fun _ => rfl⟩

theorem error (cause : Fault.Cause) : Placed fun offset => (.error (.atOffset cause offset) : Except Fault α) :=
  ⟨.error cause, fun _ => rfl⟩

theorem bind {outcome : Nat → Except Fault α} {next : α → Nat → Except Fault β} (h : Placed outcome)
    (h' : ∀ a, Placed (next a)) : Placed fun offset => outcome offset >>= fun a => next a offset := by
  obtain ⟨result, eq⟩ := h
  cases result with
  | error cause =>
    refine ⟨.error cause, fun offset => ?_⟩
    dsimp only
    rw [eq]
    rfl
  | ok a =>
    obtain ⟨result', eq'⟩ := h' a
    refine ⟨result', fun offset => ?_⟩
    dsimp only
    rw [eq, ← eq']
    rfl

theorem offset_eq {outcome : Nat → Except Fault α} (h : Placed outcome) {offset : Nat} {fault : Fault}
    (failed : outcome offset = .error fault) : fault.offset = some offset := by
  obtain ⟨result, eq⟩ := h
  rw [eq] at failed
  cases result with
  | error cause =>
    cases failed
    rfl
  | ok a => cases failed

end Placed

namespace Value

theorem placed_number (v : Value) : Placed v.number := by
  unfold number
  cases v.toFloat? with
  | some x => exact .ok x
  | none => exact .error _

end Value

theorem UnaryOp.placed_apply (op : UnaryOp) (v : Value) : Placed (op.apply v) := by
  cases op with
  | not => exact .ok _
  | plus => exact v.placed_number.bind fun _ => .ok v
  | minus =>
    cases v with
    | int n => exact .ok _
    | float x => exact .ok _
    | str s => exact .error _
    | bool b => exact .error _

namespace BinaryOp

theorem placed_arithmetic (exact : Int → Int → Int) (rounded : Float → Float → Float) (l r : Value) :
    Placed (arithmetic exact rounded l r) := by
  unfold arithmetic
  dsimp only
  split
  · exact .ok _
  · exact l.placed_number.bind fun x => r.placed_number.bind fun y => .ok _

theorem placed_division (byZero : Fault.Cause) (whole? : Int64 → Int64 → Option Int64)
    (rounded : Float → Float → Float) (l r : Value) : Placed (division byZero whole? rounded l r) := by
  refine r.placed_number.bind fun divisor => l.placed_number.bind fun dividend => ?_
  by_cases zero : (divisor == 0) = true
  · simp only [zero, if_true]
    exact .error byZero
  · simp only [zero]
    exact .ok _

theorem placed_order (l r : Value) : Placed (order l r) := by
  unfold order
  split
  · exact .ok _
  · exact .ok _
  · exact Value.placed_number _ |>.bind fun x => Value.placed_number _ |>.bind fun y => .ok _

theorem placed_comparison (holds : Ordering → Bool) (l r : Value) : Placed (comparison holds l r) :=
  (placed_order l r).bind fun _ => .ok _

theorem placed_apply (op : BinaryOp) (l r : Value) : Placed (op.apply l r) := by
  cases op with
  | add =>
    unfold apply
    dsimp only
    split
    · exact .ok _
    · exact .ok _
    · exact placed_arithmetic ..
  | sub | mul => exact placed_arithmetic ..
  | div | mod => exact placed_division ..
  | eq | ne | and | or => exact .ok _
  | lt | le | gt | ge => exact placed_comparison ..

end BinaryOp

namespace Function

theorem placed_ofOne (name : String) (onInt : Int64 → Value) (onFloat : Float → Value)
    (args : List Value) : Placed (ofOne name onInt onFloat args) := by
  unfold ofOne
  split
  · exact .ok _
  · exact Value.placed_number _ |>.bind fun _ => .ok _
  · exact .error _

theorem placed_bestOf (beats : Float → Float → Bool) (best : Option Value) (args : List Value) :
    Placed fun offset => bestOf beats offset best args := by
  induction args generalizing best with
  | nil => cases best <;> exact .ok _
  | cons v rest ih =>
    cases best with
    | none => exact v.placed_number.bind fun _ => ih _
    | some best => exact v.placed_number.bind fun _ => best.placed_number.bind fun _ => ih _

theorem placed_extreme (name : String) (beats : Float → Float → Bool) (args : List Value) :
    Placed (extreme name beats args) := by
  refine (placed_bestOf beats none args).bind fun best => ?_
  cases best with
  | some v => exact .ok v
  | none => exact .error _

theorem placed_call (name : String) (args : List Value) : Placed (call name args) := by
  unfold call
  split
  iterate 5 exact placed_ofOne ..
  iterate 2 exact placed_extreme ..
  exact .error _

end Function

end GcodePrep
