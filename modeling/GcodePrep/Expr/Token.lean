import GcodePrep.Decimal.Numeral
import GcodePrep.Text.Blank
import GcodePrep.Text.Word
import GcodePrep.Value

set_option autoImplicit false

/-!
# Tokens of an expression

Numbers, quoted texts, words and punctuation marks. A token is read off the front of the text by
`Token.read`, which says how many further characters it takes; `Token.lexemes` walks the text once
and notes the byte offset of every token.
-/

namespace GcodePrep

inductive Mark where
  | strictlyEqual
  | strictlyUnequal
  | equal
  | unequal
  | atMost
  | atLeast
  | both
  | either
  | plusAssign
  | minusAssign
  | timesAssign
  | divideAssign
  | plus
  | minus
  | times
  | divide
  | percent
  | less
  | greater
  | bang
  | assign
  | question
  | colon
  | openParen
  | closeParen
  | comma
  | semicolon
  deriving DecidableEq, Repr

namespace Mark

def text : Mark → String
  | strictlyEqual => "==="
  | strictlyUnequal => "!=="
  | equal => "=="
  | unequal => "!="
  | atMost => "<="
  | atLeast => ">="
  | both => "&&"
  | either => "||"
  | plusAssign => "+="
  | minusAssign => "-="
  | timesAssign => "*="
  | divideAssign => "/="
  | plus => "+"
  | minus => "-"
  | times => "*"
  | divide => "/"
  | percent => "%"
  | less => "<"
  | greater => ">"
  | bang => "!"
  | assign => "="
  | question => "?"
  | colon => ":"
  | openParen => "("
  | closeParen => ")"
  | comma => ","
  | semicolon => ";"

/-- The mark at the front of a text and its length; of several the longest. -/
def read? : List Char → Option (Mark × Nat)
  | '=' :: '=' :: '=' :: _ => some (strictlyEqual, 3)
  | '!' :: '=' :: '=' :: _ => some (strictlyUnequal, 3)
  | '=' :: '=' :: _ => some (equal, 2)
  | '!' :: '=' :: _ => some (unequal, 2)
  | '<' :: '=' :: _ => some (atMost, 2)
  | '>' :: '=' :: _ => some (atLeast, 2)
  | '&' :: '&' :: _ => some (both, 2)
  | '|' :: '|' :: _ => some (either, 2)
  | '+' :: '=' :: _ => some (plusAssign, 2)
  | '-' :: '=' :: _ => some (minusAssign, 2)
  | '*' :: '=' :: _ => some (timesAssign, 2)
  | '/' :: '=' :: _ => some (divideAssign, 2)
  | '+' :: _ => some (plus, 1)
  | '-' :: _ => some (minus, 1)
  | '*' :: _ => some (times, 1)
  | '/' :: _ => some (divide, 1)
  | '%' :: _ => some (percent, 1)
  | '<' :: _ => some (less, 1)
  | '>' :: _ => some (greater, 1)
  | '!' :: _ => some (bang, 1)
  | '=' :: _ => some (assign, 1)
  | '?' :: _ => some (question, 1)
  | ':' :: _ => some (colon, 1)
  | '(' :: _ => some (openParen, 1)
  | ')' :: _ => some (closeParen, 1)
  | ',' :: _ => some (comma, 1)
  | ';' :: _ => some (semicolon, 1)
  | _ => none

end Mark

inductive Token where
  | value (v : Value)
  | quoted (s : String)
  | word (name : String)
  | mark (m : Mark)

structure Lexeme where
  token : Token
  offset : Nat

namespace Token

def describe : Token → String
  | value v => "value '" ++ v.text ++ "'"
  | quoted s => "string \"" ++ s ++ "\""
  | word name => "identifier '" ++ name ++ "'"
  | mark m => "'" ++ m.text ++ "'"

inductive Defect where
  | invalidNumber (text : String)
  | unterminatedText
  | unexpectedCharacter (c : Char)
  deriving DecidableEq, Repr

/-- An integer value, if the number fits one; a larger run of digits is read as a binary64 number. -/
def ofNat? (n : Nat) : Option Value := (int64? n).map Value.int

def readHex (letter : Char) (cs : List Char) : Except Defect (Value × Nat) :=
  let digits := cs.takeWhile Decimal.isHexDigit
  let value := if digits.isEmpty then none else ofNat? (Decimal.natOfHexDigits digits)
  match value with
  | some v => .ok (v, 2 + digits.length)
  | none => .error (.invalidNumber (String.ofList ('0' :: letter :: digits)))

/-- An exponent is taken only with at least one digit: its text and its value. -/
def readExponent : List Char → Option (List Char × Int)
  | [] => none
  | letter :: cs =>
    let (sign, digits) := match cs with
      | '+' :: rest => (['+'], rest.takeWhile Char.isDigit)
      | '-' :: rest => (['-'], rest.takeWhile Char.isDigit)
      | _ => ([], cs.takeWhile Char.isDigit)
    if (letter == 'e' || letter == 'E') && !digits.isEmpty then
      let size : Int := Decimal.natOfDigits digits
      some (letter :: (sign ++ digits), if sign == ['-'] then -size else size)
    else none

def decimalValue (body : List Char) (exponent : Option Int) : Option Value :=
  let whole := body.takeWhile Char.isDigit
  match body.dropWhile Char.isDigit, exponent with
  | [], none =>
    (ofNat? (Decimal.natOfDigits whole)).or (some (.float (Decimal.ofParts whole [] 0)))
  | [], some e => some (.float (Decimal.ofParts whole [] e))
  | _ :: places, e =>
    if places.all Char.isDigit then some (.float (Decimal.ofParts whole places (e.getD 0))) else none

def readDecimal (cs : List Char) : Except Defect (Value × Nat) :=
  let isBody := fun (c : Char) => c.isDigit || c == '.'
  let body := cs.takeWhile isBody
  let exponent := readExponent (cs.dropWhile isBody)
  let text := body ++ (exponent.map Prod.fst).getD []
  match decimalValue body (exponent.map Prod.snd) with
  | some v => .ok (v, text.length)
  | none => .error (.invalidNumber (String.ofList text))

def readNumber : List Char → Except Defect (Value × Nat)
  | '0' :: 'x' :: cs => readHex 'x' cs
  | '0' :: 'X' :: cs => readHex 'X' cs
  | cs => readDecimal cs

def unescape : Char → Char
  | 'n' => '\n'
  | 't' => '\t'
  | 'r' => '\r'
  | c => c

/-- The text up to the closing quote and how many characters that takes, the quote included. -/
def readQuoted (quote : Char) : List Char → Option (List Char × Nat)
  | [] => none
  | [c] => if c == quote then some ([], 1) else none
  | c :: next :: rest =>
    if c == quote then some ([], 1)
    else if c == '\\' then (readQuoted quote rest).map fun r => (unescape next :: r.1, r.2 + 2)
    else (readQuoted quote (next :: rest)).map fun r => (c :: r.1, r.2 + 1)

def ofWord (name : String) : Token :=
  if name == "true" then value (.bool true)
  else if name == "false" then value (.bool false)
  else word name

def startsNumber : List Char → Bool
  | '.' :: c :: _ => c.isDigit
  | c :: _ => c.isDigit
  | [] => false

def read (c : Char) (cs : List Char) : Except Defect (Token × Nat) :=
  if startsNumber (c :: cs) then (readNumber (c :: cs)).map fun r => (value r.1, r.2)
  else if c == '"' || c == '\'' then
    match readQuoted c cs with
    | some r => .ok (quoted (String.ofList r.1), r.2 + 1)
    | none => .error .unterminatedText
  else if Text.isWordStart c then
    let rest := cs.takeWhile Text.isWordChar
    .ok (ofWord (String.ofList (c :: rest)), rest.length + 1)
  else match Mark.read? (c :: cs) with
    | some r => .ok (mark r.1, r.2)
    | none => .error (.unexpectedCharacter c)

/-- The tokens of the text after its first `skip` characters, which belong to a token already read.
`offset` counts the bytes before the text. A defect comes with the offset at which it was found. -/
def lexemesFrom : (skip offset : Nat) → List Char → Except (Defect × Nat) (List Lexeme)
  | _, _, [] => .ok []
  | skip + 1, offset, c :: cs => lexemesFrom skip (offset + c.utf8Size) cs
  | 0, offset, c :: cs =>
    if Text.isSpace c then lexemesFrom 0 (offset + c.utf8Size) cs
    else match read c cs with
      | .error defect => .error (defect, offset)
      | .ok (token, size) =>
        (lexemesFrom (size - 1) (offset + c.utf8Size) cs).map (⟨token, offset⟩ :: ·)

def lexemes (s : String) : Except (Defect × Nat) (List Lexeme) := lexemesFrom 0 0 s.toList

end Token

end GcodePrep
