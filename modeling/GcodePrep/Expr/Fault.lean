import GcodePrep.Expr.Token

set_option autoImplicit false

/-!
# Faults of expressions

A fault is the reason why a source text has no value, with the byte offset it points at where there
is one.
-/

namespace GcodePrep

namespace Fault

inductive Cause where
  | defect (d : Token.Defect)
  | unexpected (found : Option Token)
  | expected (wanted : Mark) (found : Option Token)
  | tooDeep (limit : Nat)
  | empty
  | undefined (name : String)
  | notNumber (v : Value)
  | notNegatable (v : Value)
  | divisionByZero
  | moduloByZero
  | notOneArgument (function : String) (count : Nat)
  | noArguments (function : String)
  | notFunction (name : String)
  | notAssignment

def describeFound : Option Token → String
  | some token => token.describe
  | none => "end of expression"

def describeDefect : Token.Defect → String
  | .invalidNumber text => "Invalid number: " ++ text
  | .unterminatedText => "Unterminated string"
  | .unexpectedCharacter c => "Unexpected character '" ++ String.singleton c ++ "'"

def Cause.message : Cause → String
  | defect d => describeDefect d
  | unexpected found => "Unexpected " ++ describeFound found
  | expected wanted found => "Expected '" ++ wanted.text ++ "' but found " ++ describeFound found
  | tooDeep limit => "Expression nesting exceeds " ++ toString limit
  | empty => "Empty expression"
  | undefined name => name ++ " is not defined"
  | notNumber v => "Expected a number but found " ++ v.kindName ++ " '" ++ v.text ++ "'"
  | notNegatable v => "Cannot negate " ++ v.kindName ++ " '" ++ v.text ++ "'"
  | divisionByZero => "Division by zero"
  | moduloByZero => "Modulo by zero"
  | notOneArgument function count => function ++ "() expects 1 argument, got " ++ toString count
  | noArguments function => function ++ "() expects at least 1 argument"
  | notFunction name => name ++ " is not a function"
  | notAssignment => "Expected NAME = value"

end Fault

structure Fault where
  cause : Fault.Cause
  offset : Option Nat

namespace Fault

def atOffset (cause : Cause) (offset : Nat) : Fault := ⟨cause, some offset⟩

def message (fault : Fault) : String := fault.cause.message

end Fault

end GcodePrep
