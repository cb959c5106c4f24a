import GcodePrep.Expr.Basic
import GcodePrep.Expr.Fault

set_option autoImplicit false

/-!
# Operators and functions on values

Integer arithmetic is exact: a result that does not fit 64 bits is computed again in binary64. A
quotient of integers is an integer exactly when the division leaves no rest. `+` joins texts when
either side is one. The functions are `abs`, `floor`, `ceil`, `round`, `sqrt`, `min` and `max`.
-/

namespace GcodePrep

namespace Value

def number (v : Value) (offset : Nat) : Except Fault Float :=
  match v.toFloat? with
  | some x => .ok x
  | none => .error (.atOffset (.notNumber v) offset)

end Value

namespace UnaryOp

def apply (op : UnaryOp) (v : Value) (offset : Nat) : Except Fault Value :=
  match op, v with
  | .not, v => .ok (.bool (!v.isTruthy))
  | .plus, v => do
    let _ ← v.number offset
    .ok v
  | .minus, .int n => .ok (((int64? (-n.toInt)).map Value.int).getD (.float (-Float.ofInt n.toInt)))
  | .minus, .float x => .ok (.float (-x))
  | .minus, v => .error (.atOffset (.notNegatable v) offset)

end UnaryOp

namespace BinaryOp

/-- Exact on integers where the result fits, in binary64 otherwise. -/
def arithmetic (exact : Int → Int → Int) (rounded : Float → Float → Float) (l r : Value)
    (offset : Nat) : Except Fault Value := do
  let whole := match l, r with
    | .int a, .int b => int64? (exact a.toInt b.toInt)
    | _, _ => none
  match whole with
  | some n => .ok (.int n)
  | none =>
    let x ← l.number offset
    let y ← r.number offset
    .ok (.float (rounded x y))

def exactQuotient? (a b : Int64) : Option Int64 :=
  if a.toInt.tmod b.toInt = 0 then int64? (a.toInt.tdiv b.toInt) else none

def exactRest? (a b : Int64) : Option Int64 :=
  (int64? (a.toInt.tdiv b.toInt)).bind fun _ => int64? (a.toInt.tmod b.toInt)

/-- A division looks at the divisor first: at its kind, at the kind of the dividend, then at zero. -/
def division (byZero : Fault.Cause) (whole? : Int64 → Int64 → Option Int64)
    (rounded : Float → Float → Float) (l r : Value) (offset : Nat) : Except Fault Value := do
  let divisor ← r.number offset
  let dividend ← l.number offset
  if divisor == 0 then .error (.atOffset byZero offset)
  else
    let whole := match l, r with
      | .int a, .int b => whole? a b
      | _, _ => none
    .ok ((whole.map Value.int).getD (.float (rounded dividend divisor)))

def order (l r : Value) (offset : Nat) : Except Fault (Option Ordering) :=
  match l, r with
  | .str a, .str b => .ok (some (compare a b))
  | .int a, .int b => .ok (some (compare a.toInt b.toInt))
  | l, r => do
    let x ← l.number offset
    let y ← r.number offset
    .ok (if x < y then some .lt else if x == y then some .eq else if x > y then some .gt else none)

def comparison (holds : Ordering → Bool) (l r : Value) (offset : Nat) : Except Fault Value := do
  let ordering ← order l r offset
  .ok (.bool ((ordering.map holds).getD false))

def apply (op : BinaryOp) (l r : Value) (offset : Nat) : Except Fault Value :=
  match op with
  | .add => match l, r with
    | .str a, r => .ok (.str (a ++ r.text))
    | l, .str b => .ok (.str (l.text ++ b))
    | l, r => arithmetic (· + ·) (· + ·) l r offset
  | .sub => arithmetic (· - ·) (· - ·) l r offset
  | .mul => arithmetic (· * ·) (· * ·) l r offset
  | .div => division .divisionByZero exactQuotient? (· / ·) l r offset
  | .mod => division .moduloByZero exactRest? Binary64.remainder l r offset
  | .eq => .ok (.bool (l.sameAs r))
  | .ne => .ok (.bool (!l.sameAs r))
  | .lt => comparison Ordering.isLT l r offset
  | .le => comparison Ordering.isLE l r offset
  | .gt => comparison Ordering.isGT l r offset
  | .ge => comparison Ordering.isGE l r offset
  | .and => .ok (if l.isTruthy then r else l)
  | .or => .ok (if l.isTruthy then l else r)

end BinaryOp

namespace Function

/-- The magnitude of an integer; that of the least word is the least word again. -/
def absInt (n : Int64) : Int64 := if n.toInt < 0 then -n else n

/-- Floors a number; a whole result below 2^53 in magnitude becomes an integer. -/
def floor (x : Float) : Value :=
  match Binary64.dyadic? x with
  | some d => if d.floor.natAbs < exactBound then .int (Int64.ofInt d.floor) else .float x
  | none => .float x

def ceil (x : Float) : Value :=
  match Binary64.dyadic? x with
  | some d => if d.ceil.natAbs < exactBound then .int (Int64.ofInt d.ceil) else .float x
  | none => .float x

/-- A half goes up. -/
def round (x : Float) : Value := floor (x + 0.5)

def ofOne (name : String) (onInt : Int64 → Value) (onFloat : Float → Value) (args : List Value)
    (offset : Nat) : Except Fault Value :=
  match args with
  | [.int n] => .ok (onInt n)
  | [v] => do
    let x ← v.number offset
    .ok (onFloat x)
  | args => .error (.atOffset (.notOneArgument name args.length) offset)

/-- Keeps the first of the arguments that none of the others beats. -/
def bestOf (beats : Float → Float → Bool) (offset : Nat) :
    (best : Option Value) → List Value → Except Fault (Option Value)
  | best, [] => .ok best
  | none, v :: rest => do
    let _ ← v.number offset
    bestOf beats offset (some v) rest
  | some best, v :: rest => do
    let candidate ← v.number offset
    let current ← best.number offset
    bestOf beats offset (some (if beats candidate current then v else best)) rest

def extreme (name : String) (beats : Float → Float → Bool) (args : List Value) (offset : Nat) :
    Except Fault Value := do
  match ← bestOf beats offset none args with
  | some v => .ok v
  | none => .error (.atOffset (.noArguments name) offset)

def call (name : String) (args : List Value) (offset : Nat) : Except Fault Value :=
  match name with
  | "abs" => ofOne "abs" (fun n => .int (absInt n)) (fun x => Value.ofWhole x.abs) args offset
  | "floor" => ofOne "floor" .int floor args offset
  | "ceil" => ofOne "ceil" .int ceil args offset
  | "round" => ofOne "round" .int round args offset
  | "sqrt" =>
    ofOne "sqrt" (fun n => .float (Float.ofInt n.toInt).sqrt) (fun x => .float x.sqrt) args offset
  | "min" => extreme "min" (fun x y => x < y) args offset
  | "max" => extreme "max" (fun x y => x > y) args offset
  | name => .error (.atOffset (.notFunction name) offset)

end Function

end GcodePrep
