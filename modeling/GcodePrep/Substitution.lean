import GcodePrep.Environment
import GcodePrep.Program

set_option autoImplicit false

/-!
# Substitution of tokens

Text may hold bare tokens `@word` and quoted tokens `@"expression"`. A pass over a text splits it into
tokens of one form and the characters between them, then evaluates the tokens from left to right and
puts the text of each value in place of its token. A token that cannot be evaluated stays. A line goes
through a pass for bare tokens and then, on the result, a pass for quoted ones.
-/

namespace GcodePrep

inductive TokenForm where
  | bare
  | quoted
  deriving DecidableEq, Repr

/-- A part of a text: a character that is copied, or a token with its source and its expression. -/
inductive Segment where
  | plain (c : Char)
  | token (source expr : List Char)
  deriving DecidableEq, Repr

namespace Segment

/-- The expression of a token whose `@` stands before the text, and how many characters follow that
`@` in the token. -/
def tokenAt? : TokenForm → List Char → Option (List Char × Nat)
  | .bare, cs =>
    let word := cs.takeWhile Text.isWordChar
    if word.isEmpty then none else some (word, word.length)
  | .quoted, '"' :: cs =>
    let expr := cs.takeWhile (· != '"')
    some (expr, if expr.length < cs.length then expr.length + 2 else expr.length + 1)
  | .quoted, _ => none

/-- Splits the text after its first `skip` characters, which belong to a token already split off. -/
def splitFrom (form : TokenForm) : (skip : Nat) → List Char → List Segment
  | _, [] => []
  | skip + 1, _ :: cs => splitFrom form skip cs
  | 0, c :: cs =>
    match if c = '@' then tokenAt? form cs else none with
    | some (expr, size) => token (c :: cs.take size) expr :: splitFrom form size cs
    | none => plain c :: splitFrom form 0 cs

def split (form : TokenForm) (s : String) : List Segment := splitFrom form 0 s.toList

def source : Segment → List Char
  | plain c => [c]
  | token source _ => source

end Segment

/-- What a pass makes of a text: the new text, a note `value=expression` per substitution, and the
expressions that failed with the reason. -/
structure Resolution where
  text : List Char
  notes : List String
  failures : List (String × String)
  deriving DecidableEq, Repr

namespace Resolution

def empty : Resolution := ⟨[], [], []⟩

def ofSegments : List Segment → Environment → Resolution × Environment
  | [], env => (empty, env)
  | .plain c :: rest, env =>
    let (r, env) := ofSegments rest env
    ({ r with text := c :: r.text }, env)
  | .token source expr :: rest, env =>
    let expr := String.ofList expr
    match env.eval expr with
    | (.ok value, env) =>
      let (r, env) := ofSegments rest env
      ({ r with text := value.text.toList ++ r.text, notes := (value.text ++ "=" ++ expr) :: r.notes },
        env)
    | (.error fault, env) =>
      let (r, env) := ofSegments rest env
      ({ r with text := source ++ r.text, failures := (expr, fault.message) :: r.failures }, env)

def pass (form : TokenForm) (s : String) (env : Environment) : Resolution × Environment :=
  ofSegments (Segment.split form s) env

end Resolution

structure ResolvedLine where
  text : String
  bareNotes : List String
  quotedNotes : List String
  failures : List (String × String)
  deriving DecidableEq, Repr

def resolveLine (s : String) (env : Environment) : ResolvedLine × Environment :=
  let (bare, env) := Resolution.pass .bare s env
  let (quoted, env) := Resolution.pass .quoted (String.ofList bare.text) env
  (⟨String.ofList quoted.text, bare.notes, quoted.notes, bare.failures ++ quoted.failures⟩, env)

structure ResolveFailure where
  origin : Origin
  expr : String
  reason : String
  deriving DecidableEq, Repr

def ResolveFailure.ofPairs (origin : Origin) (failures : List (String × String)) :
    List ResolveFailure :=
  failures.map fun f => ⟨origin, f.1, f.2⟩

def Record.withNotes (r : Record) (line : ResolvedLine) : Record :=
  let bare := ",".intercalate line.bareNotes
  let quoted := ",".intercalate line.quotedNotes
  let r := if bare.isEmpty then r else r.appendComment bare ","
  if quoted.isEmpty then r else r.appendComment quoted ""

/-- A record with no text, or an empty one, stays as it is. -/
def Record.resolve (r : Record) (env : Environment) :
    Record × List ResolveFailure × Environment :=
  match r.text with
  | none => (r, [], env)
  | some text =>
    if text.isEmpty then (r, [], env)
    else
      let (line, env) := resolveLine text env
      ({ r with text := some line.text }.withNotes line, ResolveFailure.ofPairs r.origin line.failures, env)

namespace Program

def resolveHeader (origin : Origin) : List String → Environment →
    List String × List ResolveFailure × Environment
  | [], env => ([], [], env)
  | text :: rest, env =>
    let (line, env) := resolveLine text env
    let (lines, failures, env) := resolveHeader origin rest env
    (line.text :: lines, ResolveFailure.ofPairs origin line.failures ++ failures, env)

def resolveBody : List Record → Environment → List Record × List ResolveFailure × Environment
  | [], env => ([], [], env)
  | record :: rest, env =>
    let (record, failed, env) := record.resolve env
    let (records, failures, env) := resolveBody rest env
    (record :: records, failed ++ failures, env)

/-- Resolves the header, whose failures are reported at the program's own line, and then the body. -/
def resolve (p : Program) (env : Environment) : Program × List ResolveFailure × Environment :=
  let (header, inHeader, env) := resolveHeader p.origin p.header env
  let (body, inBody, env) := resolveBody p.body env
  ({ p with header, body }, inHeader ++ inBody, env)

end Program

end GcodePrep
