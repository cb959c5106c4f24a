import GcodePrep.Expr.Basic
import GcodePrep.Expr.Fault

set_option autoImplicit false

/-!
# From tokens to trees

The grammar has one level per binding strength: statements separated by `,` or `;`, assignments,
the choice `a ? b : c`, six levels of binary operators, signs, and primaries. `room` counts how often
an assignment or the operand of a sign may still be entered; the recursion of the parser is the
recursion on that number, so a depth limit is all it needs to end.
-/

namespace GcodePrep.Parser

/-- What a parser has to know to report a fault: the depth limit and the length of the source. -/
structure Scope where
  depth : Nat
  stop : Nat

abbrev Parse (α : Type) := List Lexeme → Except Fault (α × List Lexeme)

namespace Scope

variable (scope : Scope)

def offsetOf : List Lexeme → Nat
  | [] => scope.stop
  | x :: _ => x.offset

def unexpected (ts : List Lexeme) : Fault :=
  .atOffset (.unexpected (ts.head?.map Lexeme.token)) (scope.offsetOf ts)

def expected (m : Mark) (ts : List Lexeme) : Fault :=
  .atOffset (.expected m (ts.head?.map Lexeme.token)) (scope.offsetOf ts)

def tooDeep (ts : List Lexeme) : Fault := .atOffset (.tooDeep scope.depth) (scope.offsetOf ts)

end Scope

def afterMark? (m : Mark) : List Lexeme → Option (List Lexeme)
  | ⟨.mark found, _⟩ :: rest => if found = m then some rest else none
  | _ => none

def assignOp? : Mark → Option AssignOp
  | .assign => some .set
  | .plusAssign => some .add
  | .minusAssign => some .sub
  | .timesAssign => some .mul
  | .divideAssign => some .div
  | _ => none

def unaryOp? : Mark → Option UnaryOp
  | .minus => some .minus
  | .plus => some .plus
  | .bang => some .not
  | _ => none

def binaryLevels : List (Mark → Option BinaryOp) :=
  [fun | .either => some .or | _ => none,
   fun | .both => some .and | _ => none,
   fun
    | .strictlyEqual | .equal => some .eq
    | .strictlyUnequal | .unequal => some .ne
    | _ => none,
   fun
    | .atMost => some .le
    | .atLeast => some .ge
    | .less => some .lt
    | .greater => some .gt
    | _ => none,
   fun
    | .plus => some .add
    | .minus => some .sub
    | _ => none,
   fun
    | .times => some .mul
    | .divide => some .div
    | .percent => some .mod
    | _ => none]

/-- Further operands of one level, taken to the left. One round per remaining token is enough. -/
def operands (op? : Mark → Option BinaryOp) (operand : Parse Expr) : Nat → Expr → Parse Expr
  | 0, left, ts => .ok (left, ts)
  | _ + 1, left, [] => .ok (left, [])
  | n + 1, left, ⟨.mark m, offset⟩ :: ts =>
    match op? m with
    | none => .ok (left, ⟨.mark m, offset⟩ :: ts)
    | some op => do
      let (right, rest) ← operand ts
      operands op? operand n (.binary op left right offset) rest
  | _ + 1, left, t :: ts => .ok (left, t :: ts)

def binary (unary : Parse Expr) : List (Mark → Option BinaryOp) → Parse Expr
  | [], ts => unary ts
  | op? :: levels, ts => do
    let (left, rest) ← binary unary levels ts
    operands op? (binary unary levels) rest.length left rest

section

variable (scope : Scope)

/-- The arguments of a call up to its closing parenthesis. One round per remaining token is enough. -/
def arguments (argument : Parse Expr) : Nat → Parse (List Expr)
  | 0, ts => .error (scope.unexpected ts)
  | n + 1, ts => do
    let (first, rest) ← argument ts
    match afterMark? .closeParen rest with
    | some rest => .ok ([first], rest)
    | none => match afterMark? .comma rest with
      | none => .error (scope.expected .comma rest)
      | some rest =>
        let (others, rest) ← arguments argument n rest
        .ok (first :: others, rest)

def primary (nested : Parse Expr) : Parse Expr
  | ⟨.value v, offset⟩ :: ts => .ok (.literal v offset, ts)
  | ⟨.quoted s, offset⟩ :: ts => .ok (.literal (.str s) offset, ts)
  | ⟨.word name, offset⟩ :: ts =>
    match afterMark? .openParen ts with
    | none => .ok (.symbol name offset, ts)
    | some ts => match afterMark? .closeParen ts with
      | some ts => .ok (.call name [] offset, ts)
      | none => do
        let (args, rest) ← arguments scope nested (ts.length + 1) ts
        .ok (.call name args offset, rest)
  | ⟨.mark .openParen, _⟩ :: ts => do
    let (inner, rest) ← nested ts
    match afterMark? .closeParen rest with
    | some rest => .ok (inner, rest)
    | none => .error (scope.expected .closeParen rest)
  | ts => .error (scope.unexpected ts)

def signed (operand primary : Parse Expr) : Parse Expr
  | ⟨.mark m, offset⟩ :: ts =>
    match unaryOp? m with
    | some op => do
      let (inner, rest) ← operand ts
      .ok (.unary op inner offset, rest)
    | none => primary (⟨.mark m, offset⟩ :: ts)
  | ts => primary ts

def choice (nested unary : Parse Expr) : Parse Expr := fun ts => do
  let (condition, rest) ← binary unary binaryLevels ts
  match afterMark? .question rest with
  | none => .ok (condition, rest)
  | some rest =>
    let (yes, rest) ← nested rest
    match afterMark? .colon rest with
    | none => .error (scope.expected .colon rest)
    | some rest =>
      let (no, rest) ← nested rest
      .ok (.choice condition yes no, rest)

def assignment (nested unary : Parse Expr) : Parse Expr
  | ⟨.word name, offset⟩ :: ⟨.mark m, place⟩ :: ts =>
    match assignOp? m with
    | some op => do
      let (value, rest) ← nested ts
      .ok (.assign op name value offset, rest)
    | none => choice scope nested unary (⟨.word name, offset⟩ :: ⟨.mark m, place⟩ :: ts)
  | ts => choice scope nested unary ts

mutual

def statement : (room : Nat) → Parse Expr
  | 0, ts => .error (scope.tooDeep ts)
  | room + 1, ts => assignment scope (statement room) (unary room) ts

/-- An operand of the binary operators, read with `room` left. -/
def unary : (room : Nat) → Parse Expr
  | 0, ts =>
    let tooDeep : Parse Expr := fun ts => .error (scope.tooDeep ts)
    signed tooDeep (primary scope tooDeep) ts
  | room + 1, ts =>
    signed (unary room) (primary scope (assignment scope (statement room) (unary room))) ts

end

def skipSemicolons : List Lexeme → List Lexeme
  | ⟨.mark .semicolon, _⟩ :: ts => skipSemicolons ts
  | ts => ts

/-- Statements up to the first that no separator follows. One round per remaining token is enough. -/
def chainOf (item : Parse Expr) : Nat → Parse (List Expr)
  | 0, ts => .ok ([], ts)
  | n + 1, ts =>
    match skipSemicolons ts with
    | [] => .ok ([], [])
    | t :: ts => do
      let (first, rest) ← item (t :: ts)
      match (afterMark? .comma rest).or (afterMark? .semicolon rest) with
      | none => .ok ([first], rest)
      | some rest =>
        let (others, rest) ← chainOf item n rest
        .ok (first :: others, rest)

/-- The tree of a whole token list. A single statement is not wrapped into a chain. -/
def ofLexemes (ts : List Lexeme) : Except Fault Expr := do
  let (items, rest) ← chainOf (statement scope scope.depth) (ts.length + 1) ts
  match rest, items with
  | t :: ts, _ => .error (scope.unexpected (t :: ts))
  | [], [] => .error ⟨.empty, none⟩
  | [], [item] => .ok item
  | [], items => .ok (.chain items)

end

end GcodePrep.Parser

namespace GcodePrep

def Expr.parse (src : String) (depth : Nat) : Except Fault Expr :=
  match Token.lexemes src with
  | .error (defect, offset) => .error (.atOffset (.defect defect) offset)
  | .ok ts => Parser.ofLexemes ⟨depth, src.utf8ByteSize⟩ ts

end GcodePrep
