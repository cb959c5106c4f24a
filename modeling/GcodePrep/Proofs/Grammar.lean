import GcodePrep.Expr.Parser

set_option autoImplicit false

/-!
# The grammar of expressions

Which trees stand for which tokens, with no mention of how they are found. There is one nonterminal per
binding strength; its phrases are lists of tokens, each with a tree.
-/

namespace GcodePrep.Grammar

/-- The levels of the binary operators, the weakest first. -/
inductive Level where
  | or
  | and
  | equality
  | relational
  | additive
  | multiplicative
  deriving DecidableEq, Repr

def Level.operators : Level → List (Mark × BinaryOp)
  | or => [(.either, .or)]
  | and => [(.both, .and)]
  | equality => [(.equal, .eq), (.strictlyEqual, .eq), (.unequal, .ne), (.strictlyUnequal, .ne)]
  | relational => [(.less, .lt), (.atMost, .le), (.greater, .gt), (.atLeast, .ge)]
  | additive => [(.plus, .add), (.minus, .sub)]
  | multiplicative => [(.times, .mul), (.divide, .div), (.percent, .mod)]

def signs : List (Mark × UnaryOp) := [(.minus, .minus), (.plus, .plus), (.bang, .not)]

def assignments : List (Mark × AssignOp) :=
  [(.assign, .set), (.plusAssign, .add), (.minusAssign, .sub), (.timesAssign, .mul),
   (.divideAssign, .div)]

inductive Nonterminal where
  | assignment
  | ternary
  | level (l : Level)
  | unary
  | primary
  deriving DecidableEq, Repr

inductive LeftAssociative (Operand : List Lexeme → Expr → Prop) (operators : List (Mark × BinaryOp)) :
    List Lexeme → Expr → Prop where
  | first {ts : List Lexeme} {e : Expr} (h : Operand ts e) : LeftAssociative Operand operators ts e
  | next {ts us : List Lexeme} {left right : Expr} {m : Mark} {op : BinaryOp} (offset : Nat)
      (before : LeftAssociative Operand operators ts left) (operator : (m, op) ∈ operators)
      (after : Operand us right) :
      LeftAssociative Operand operators (ts ++ ⟨.mark m, offset⟩ :: us) (.binary op left right offset)

inductive ArgumentList (Argument : List Lexeme → Expr → Prop) : List Lexeme → List Expr → Prop where
  | last {ts : List Lexeme} {e : Expr} (h : Argument ts e) : ArgumentList Argument ts [e]
  | more {ts us : List Lexeme} {e : Expr} {es : List Expr} (comma : Nat) (h : Argument ts e)
      (others : ArgumentList Argument us es) :
      ArgumentList Argument (ts ++ ⟨.mark .comma, comma⟩ :: us) (e :: es)

inductive Derives : Nonterminal → List Lexeme → Expr → Prop where
  | assign {ts : List Lexeme} {value : Expr} {m : Mark} {op : AssignOp} (name : String)
      (offset place : Nat) (operator : (m, op) ∈ assignments) (h : Derives .assignment ts value) :
      Derives .assignment (⟨.word name, offset⟩ :: ⟨.mark m, place⟩ :: ts) (.assign op name value offset)
  | ternary {ts : List Lexeme} {e : Expr} (h : Derives .ternary ts e) : Derives .assignment ts e
  | choice {ts us vs : List Lexeme} {condition yes no : Expr} (question colon : Nat)
      (h : Derives (.level .or) ts condition) (first : Derives .assignment us yes)
      (second : Derives .assignment vs no) :
      Derives .ternary (ts ++ ⟨.mark .question, question⟩ :: (us ++ ⟨.mark .colon, colon⟩ :: vs))
        (.choice condition yes no)
  | condition {ts : List Lexeme} {e : Expr} (h : Derives (.level .or) ts e) : Derives .ternary ts e
  | or {ts : List Lexeme} {e : Expr}
      (h : LeftAssociative (Derives (.level .and)) Level.or.operators ts e) : Derives (.level .or) ts e
  | and {ts : List Lexeme} {e : Expr}
      (h : LeftAssociative (Derives (.level .equality)) Level.and.operators ts e) :
      Derives (.level .and) ts e
  | equality {ts : List Lexeme} {e : Expr}
      (h : LeftAssociative (Derives (.level .relational)) Level.equality.operators ts e) :
      Derives (.level .equality) ts e
  | relational {ts : List Lexeme} {e : Expr}
      (h : LeftAssociative (Derives (.level .additive)) Level.relational.operators ts e) :
      Derives (.level .relational) ts e
  | additive {ts : List Lexeme} {e : Expr}
      (h : LeftAssociative (Derives (.level .multiplicative)) Level.additive.operators ts e) :
      Derives (.level .additive) ts e
  | multiplicative {ts : List Lexeme} {e : Expr}
      (h : LeftAssociative (Derives .unary) Level.multiplicative.operators ts e) :
      Derives (.level .multiplicative) ts e
  | sign {ts : List Lexeme} {e : Expr} {m : Mark} {op : UnaryOp} (offset : Nat)
      (operator : (m, op) ∈ signs) (h : Derives .unary ts e) :
      Derives .unary (⟨.mark m, offset⟩ :: ts) (.unary op e offset)
  | primary {ts : List Lexeme} {e : Expr} (h : Derives .primary ts e) : Derives .unary ts e
  | value (v : Value) (offset : Nat) : Derives .primary [⟨.value v, offset⟩] (.literal v offset)
  | quoted (s : String) (offset : Nat) :
      Derives .primary [⟨.quoted s, offset⟩] (.literal (.str s) offset)
  | symbol (name : String) (offset : Nat) :
      Derives .primary [⟨.word name, offset⟩] (.symbol name offset)
  | emptyCall (name : String) (offset opening closing : Nat) :
      Derives .primary
        [⟨.word name, offset⟩, ⟨.mark .openParen, opening⟩, ⟨.mark .closeParen, closing⟩]
        (.call name [] offset)
  | call {ts : List Lexeme} {es : List Expr} (name : String) (offset opening closing : Nat)
      (h : ArgumentList (Derives .assignment) ts es) :
      Derives .primary
        (⟨.word name, offset⟩ :: ⟨.mark .openParen, opening⟩ :: (ts ++ [⟨.mark .closeParen, closing⟩]))
        (.call name es offset)
  | parenthesised {ts : List Lexeme} {e : Expr} (opening closing : Nat)
      (h : Derives .assignment ts e) :
      Derives .primary (⟨.mark .openParen, opening⟩ :: (ts ++ [⟨.mark .closeParen, closing⟩])) e

def Semicolons (ts : List Lexeme) : Prop := ∀ t ∈ ts, t.token = .mark .semicolon

inductive Separator : List Lexeme → Prop where
  | comma {ts : List Lexeme} (offset : Nat) (h : Semicolons ts) :
      Separator (⟨.mark .comma, offset⟩ :: ts)
  | semicolon {ts : List Lexeme} (offset : Nat) (h : Semicolons ts) :
      Separator (⟨.mark .semicolon, offset⟩ :: ts)

inductive Statements : List Lexeme → List Expr → Prop where
  | one {ts : List Lexeme} {e : Expr} (h : Derives .assignment ts e) : Statements ts [e]
  | more {ts seps us : List Lexeme} {e : Expr} {es : List Expr} (h : Derives .assignment ts e)
      (separator : Separator seps) (others : Statements us es) :
      Statements (ts ++ (seps ++ us)) (e :: es)

def sequenceTree : List Expr → Expr
  | [e] => e
  | es => .chain es

inductive Sentence : List Lexeme → Expr → Prop where
  | plain {lead ts : List Lexeme} {es : List Expr} (leading : Semicolons lead) (h : Statements ts es) :
      Sentence (lead ++ ts) (sequenceTree es)
  | separated {lead ts seps : List Lexeme} {es : List Expr} (leading : Semicolons lead)
      (h : Statements ts es) (separator : Separator seps) :
      Sentence (lead ++ (ts ++ seps)) (sequenceTree es)

namespace Level

def operand : Level → Nonterminal
  | or => .level .and
  | and => .level .equality
  | equality => .level .relational
  | relational => .level .additive
  | additive => .level .multiplicative
  | multiplicative => .unary

theorem derives_iff (l : Level) {ts : List Lexeme} {e : Expr} :
    Derives (.level l) ts e ↔ LeftAssociative (Derives l.operand) l.operators ts e := by
  constructor
  · intro h
    cases h <;> assumption
  · intro h
    cases l with
    | or => exact .or h
    | and => exact .and h
    | equality => exact .equality h
    | relational => exact .relational h
    | additive => exact .additive h
    | multiplicative => exact .multiplicative h

/-- What holds of unary phrases and is kept by operators holds on all levels. -/
theorem induction {P : List Lexeme → Expr → Prop} (unary : ∀ ts e, Derives .unary ts e → P ts e)
    (next : ∀ (l : Level) ts left m op, P ts left → (m, op) ∈ l.operators → ∀ offset us right,
      P us right → P (ts ++ ⟨.mark m, offset⟩ :: us) (.binary op left right offset))
    (l : Level) {ts : List Lexeme} {e : Expr} (h : Derives (.level l) ts e) : P ts e := by
  have step (l : Level) (operand : ∀ ts e, Derives l.operand ts e → P ts e) (ts : List Lexeme)
      (e : Expr) (h : Derives (.level l) ts e) : P ts e := by
    rw [l.derives_iff] at h
    induction h with
    | first h => exact operand _ _ h
    | next offset _ operator after ih => exact next l _ _ _ _ ih operator offset _ _ (operand _ _ after)
  have multiplicative := step .multiplicative unary
  have additive := step .additive multiplicative
  have relational := step .relational additive
  have equality := step .equality relational
  have and := step .and equality
  have or := step .or and
  cases l with
  | or => exact or ts e h
  | and => exact and ts e h
  | equality => exact equality ts e h
  | relational => exact relational ts e h
  | additive => exact additive ts e h
  | multiplicative => exact multiplicative ts e h

end Level

end GcodePrep.Grammar
