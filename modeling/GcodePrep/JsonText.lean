set_option autoImplicit false

/-!
# Compact JSON text

Objects list their members in the order given; callers give them by key. Only the quote, the backslash
and the characters below U+0020 are escaped.
-/

namespace GcodePrep.JsonText

def hexPair (n : Nat) : List Char := [Nat.digitChar (n / 16), Nat.digitChar (n % 16)]

def escape (c : Char) : List Char :=
  match c with
  | '"' => ['\\', '"']
  | '\\' => ['\\', '\\']
  | '\x08' => ['\\', 'b']
  | '\t' => ['\\', 't']
  | '\n' => ['\\', 'n']
  | '\x0c' => ['\\', 'f']
  | '\r' => ['\\', 'r']
  | c => if c.toNat < 0x20 then ['\\', 'u', '0', '0'] ++ hexPair c.toNat else [c]

def string (s : String) : String := "\"" ++ String.ofList (s.toList.flatMap escape) ++ "\""

def nat (n : Nat) : String := toString n

def bool (b : Bool) : String := if b then "true" else "false"

def nullable {α : Type} (write : α → String) : Option α → String
  | some a => write a
  | none => "null"

def array (items : List String) : String := "[" ++ ",".intercalate items ++ "]"

def object (members : List (String × String)) : String :=
  "\x7b" ++ ",".intercalate (members.map fun m => string m.1 ++ ":" ++ m.2) ++ "\x7d"

end GcodePrep.JsonText
