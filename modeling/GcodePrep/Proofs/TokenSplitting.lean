import GcodePrep.Substitution
import GcodePrep.Text.Split
import Mathlib.Data.List.Basic

set_option autoImplicit false

/-!
# A pass is the substitution of tokens

A text splits in one way only into tokens of a form and the texts between them, if no token may start
inside such a text. A pass evaluates the expressions of these tokens from left to right and puts each
value in the place of its token; a token whose expression fails stays.
-/

namespace GcodePrep

/-- `source` is a token, with the expression `expr`, where `rest` follows it. -/
inductive IsToken : TokenForm → (source expr rest : List Char) → Prop where
  | bare (word rest : List Char) (given : word ≠ []) (chars : ∀ c ∈ word, Text.isWordChar c = true)
      (maximal : ∀ c, rest.head? = some c → Text.isWordChar c = false) :
      IsToken .bare ('@' :: word) word rest
  | closed (expr rest : List Char) (inside : '"' ∉ expr) :
      IsToken .quoted ('@' :: '"' :: (expr ++ ['"'])) expr rest
  | unclosed (expr : List Char) (inside : '"' ∉ expr) :
      IsToken .quoted ('@' :: '"' :: expr) expr []

def StartsToken (form : TokenForm) (text : List Char) : Prop :=
  ∃ source expr rest, text = source ++ rest ∧ IsToken form source expr rest

/-- No token starts in `between` where `rest` follows it. -/
def TokenFree (form : TokenForm) (between rest : List Char) : Prop :=
  ∀ before after, between = before ++ after → after ≠ [] → ¬ StartsToken form (after ++ rest)

structure Piece where
  source : List Char
  expr : List Char
  after : List Char
  deriving DecidableEq, Repr

inductive Splits (form : TokenForm) : List Char → (first : List Char) → List Piece → Prop where
  | tokenless {text : List Char} (free : TokenFree form text []) : Splits form text text []
  | token {first source expr rest after : List Char} {pieces : List Piece}
      (free : TokenFree form first (source ++ rest)) (token : IsToken form source expr rest)
      (more : Splits form rest after pieces) :
      Splits form (first ++ (source ++ rest)) first (⟨source, expr, after⟩ :: pieces)

theorem ne_quote_of_mem {expr : List Char} (inside : '"' ∉ expr) :
    ∀ c ∈ expr, (c != '"') = true := by
  intro c mem
  exact bne_iff_ne.mpr fun quote => inside (quote ▸ mem)

section Token

variable {form : TokenForm} {source expr rest cs : List Char}

theorem tokenAt?_of_isToken (h : IsToken form source expr rest) :
    ∃ cs, source = '@' :: cs ∧ Segment.tokenAt? form (cs ++ rest) = some (expr, cs.length) := by
  cases h with
  | bare _ _ given chars maximal =>
    refine ⟨expr, rfl, ?_⟩
    simp [Segment.tokenAt?, Text.takeWhile_run chars maximal, given]
  | closed _ _ inside =>
    refine ⟨'"' :: (expr ++ ['"']), rfl, ?_⟩
    have run : (expr ++ '"' :: rest).takeWhile (· != '"') = expr :=
      Text.takeWhile_run (ne_quote_of_mem inside) (by simp)
    simp [Segment.tokenAt?, run]
  | unclosed _ inside =>
    refine ⟨'"' :: expr, rfl, ?_⟩
    have run : (expr ++ []).takeWhile (· != '"') = expr :=
      Text.takeWhile_run (ne_quote_of_mem inside) (by simp)
    rw [List.append_nil] at run
    simp [Segment.tokenAt?, run]

theorem startsToken_of_tokenAt? {found : List Char × Nat} (h : Segment.tokenAt? form cs = some found) :
    StartsToken form ('@' :: cs) := by
  cases form with
  | bare =>
    obtain ⟨word, rest, rfl, chars, maximal⟩ := Text.exists_run Text.isWordChar cs
    refine ⟨'@' :: word, word, rest, rfl, .bare word rest ?_ chars maximal⟩
    rintro rfl
    have nothing := Text.takeWhile_run chars maximal
    rw [List.nil_append] at h nothing
    simp [Segment.tokenAt?, nothing] at h
  | quoted =>
    cases cs with
    | nil => cases h
    | cons c cs =>
      by_cases quote : c = '"'
      · subst quote
        obtain ⟨expr, rest, rfl, chars, stop⟩ := Text.exists_run (· != '"') cs
        have inside : '"' ∉ expr := fun mem => absurd (chars _ mem) (by simp)
        cases rest with
        | nil => exact ⟨'@' :: '"' :: expr, expr, [], by simp, .unclosed expr inside⟩
        | cons d rest =>
          obtain rfl : d = '"' := by simpa using stop d rfl
          exact ⟨'@' :: '"' :: (expr ++ ['"']), expr, rest, by simp, .closed expr rest inside⟩
      · simp [Segment.tokenAt?, quote] at h

theorem isToken_of_tokenAt? {size : Nat} (h : Segment.tokenAt? form cs = some (expr, size)) :
    IsToken form ('@' :: cs.take size) expr (cs.drop size) := by
  obtain ⟨source, expr', rest, text, token⟩ := startsToken_of_tokenAt? h
  obtain ⟨cs', rfl, found⟩ := tokenAt?_of_isToken token
  obtain rfl : cs = cs' ++ rest := (List.cons.inj text).2
  rw [found, Option.some.injEq, Prod.mk.injEq] at h
  obtain ⟨rfl, rfl⟩ := h
  simpa using token

theorem IsToken.ne_nil (h : IsToken form source expr rest) : source ≠ [] := by
  cases h <;> simp

theorem IsToken.unique {source' expr' rest' : List Char} (h : IsToken form source expr rest)
    (h' : IsToken form source' expr' rest') (same : source ++ rest = source' ++ rest') :
    source = source' ∧ expr = expr' ∧ rest = rest' := by
  obtain ⟨cs, rfl, found⟩ := tokenAt?_of_isToken h
  obtain ⟨cs', rfl, found'⟩ := tokenAt?_of_isToken h'
  have tails : cs ++ rest = cs' ++ rest' := (List.cons.inj same).2
  rw [tails, found', Option.some.injEq, Prod.mk.injEq] at found
  obtain ⟨rfl, rfl⟩ := List.append_inj tails found.2.symm
  exact ⟨rfl, found.1.symm, rfl⟩

theorem not_startsToken_cons {c : Char}
    (h : (if c = '@' then Segment.tokenAt? form cs else none) = none) :
    ¬ StartsToken form (c :: cs) := by
  rintro ⟨source, expr, rest, text, token⟩
  obtain ⟨cs', rfl, found⟩ := tokenAt?_of_isToken token
  obtain ⟨rfl, rfl⟩ := List.cons.inj text
  rw [if_pos rfl] at h
  cases found.symm.trans h

end Token

namespace TokenFree

variable {form : TokenForm} {first rest first' rest' : List Char}

theorem nil (form : TokenForm) (rest : List Char) : TokenFree form [] rest := by
  intro before after split given
  exact absurd (List.append_eq_nil_iff.mp split.symm).2 given

theorem cons {c : Char} (h : TokenFree form first rest) (start : ¬ StartsToken form (c :: (first ++ rest))) :
    TokenFree form (c :: first) rest := by
  intro before after split given
  cases before with
  | nil =>
    obtain rfl : c :: first = after := split
    exact start
  | cons b before => exact h before after (List.cons.inj split).2 given

theorem length_le (h : TokenFree form first rest) (starts : StartsToken form rest')
    (same : first ++ rest = first' ++ rest') : first.length ≤ first'.length := by
  by_contra longer
  have split := List.take_append_drop first'.length first
  rw [← split, List.append_assoc] at same
  have lengths : (first.take first'.length).length = first'.length := by
    rw [List.length_take]
    omega
  obtain ⟨-, later⟩ := List.append_inj same lengths
  refine h _ _ split.symm ?_ (later ▸ starts)
  intro nothing
  have := congrArg List.length nothing
  rw [List.length_drop, List.length_nil] at this
  omega

end TokenFree

namespace Splits

variable {form : TokenForm} {text first : List Char} {pieces : List Piece}

theorem cons {c : Char} (h : Splits form text first pieces) (start : ¬ StartsToken form (c :: text)) :
    Splits form (c :: text) (c :: first) pieces := by
  cases h with
  | tokenless free => exact .tokenless (free.cons (by rwa [List.append_nil]))
  | token free token more => exact .token (free.cons start) token more

theorem unique {first' : List Char} {pieces' : List Piece} (h : Splits form text first pieces)
    (h' : Splits form text first' pieces') : first' = first ∧ pieces' = pieces := by
  induction h generalizing first' pieces' with
  | @tokenless text free =>
    generalize whole : text = other at h'
    cases h' with
    | tokenless => exact ⟨rfl, rfl⟩
    | @token _ source expr rest _ _ free' token =>
      have short := free.length_le ⟨source, expr, rest, rfl, token⟩ (by simpa using whole)
      have given := List.length_pos_iff.mpr token.ne_nil
      rw [whole] at short
      simp only [List.length_append] at short
      omega
  | @token first source expr rest after pieces free token more ih =>
    generalize whole : first ++ (source ++ rest) = other at h'
    cases h' with
    | tokenless free' =>
      have short := free'.length_le ⟨source, expr, rest, rfl, token⟩ (by simpa using whole.symm)
      have given := List.length_pos_iff.mpr token.ne_nil
      rw [← whole] at short
      simp only [List.length_append] at short
      omega
    | @token _ source' expr' rest' _ _ free' token' more' =>
      have le := free.length_le ⟨source', expr', rest', rfl, token'⟩ whole
      have ge := free'.length_le ⟨source, expr, rest, rfl, token⟩ whole.symm
      obtain ⟨rfl, later⟩ := List.append_inj whole (by omega)
      obtain ⟨rfl, rfl, rfl⟩ := token.unique token' later
      obtain ⟨rfl, rfl⟩ := ih more'
      exact ⟨rfl, rfl⟩

end Splits

namespace Segment

/-- Segments with the characters between tokens put together. -/
def gather : List Segment → List Char × List Piece
  | [] => ([], [])
  | plain c :: rest => (c :: (gather rest).1, (gather rest).2)
  | token source expr :: rest => ([], ⟨source, expr, (gather rest).1⟩ :: (gather rest).2)

theorem splitFrom_eq_drop (form : TokenForm) (skip : Nat) (cs : List Char) :
    splitFrom form skip cs = splitFrom form 0 (cs.drop skip) := by
  induction cs generalizing skip with
  | nil => simp [splitFrom]
  | cons c cs ih =>
    cases skip with
    | zero => rfl
    | succ skip => exact ih skip

theorem splits_gather (form : TokenForm) (cs : List Char) :
    Splits form cs (gather (splitFrom form 0 cs)).1 (gather (splitFrom form 0 cs)).2 := by
  match cs with
  | [] => exact .tokenless (.nil form [])
  | c :: cs =>
    unfold splitFrom
    split
    · rename_i expr size found
      obtain ⟨rfl, found⟩ : c = '@' ∧ tokenAt? form cs = some (expr, size) := by
        split_ifs at found with sign
        exact ⟨sign, found⟩
      have later := splits_gather form (cs.drop size)
      rw [← splitFrom_eq_drop] at later
      have whole := Splits.token (.nil form _) (isToken_of_tokenAt? found) later
      simpa [gather] using whole
    · rename_i none
      exact (splits_gather form cs).cons (not_startsToken_cons none)
termination_by cs.length
decreasing_by all_goals simp only [List.length_drop, List.length_cons]; omega

end Segment

namespace Piece

/-- The pieces with the outcomes of their expressions, evaluated from left to right. -/
def evaluated : List Piece → Environment → List (Piece × Except Fault Value) × Environment
  | [], env => ([], env)
  | piece :: rest, env =>
    let (outcome, env) := env.eval (String.ofList piece.expr)
    let (outcomes, env) := evaluated rest env
    ((piece, outcome) :: outcomes, env)

def replacement (piece : Piece) : Except Fault Value → List Char
  | .ok value => value.text.toList
  | .error _ => piece.source

def note? (piece : Piece) : Except Fault Value → Option String
  | .ok value => some (value.text ++ "=" ++ String.ofList piece.expr)
  | .error _ => none

def failure? (piece : Piece) : Except Fault Value → Option (String × String)
  | .ok _ => none
  | .error fault => some (String.ofList piece.expr, fault.message)

theorem evaluated_fst (pieces : List Piece) (env : Environment) :
    (evaluated pieces env).1.map Prod.fst = pieces := by
  induction pieces generalizing env with
  | nil => rfl
  | cons piece rest ih => exact congrArg (piece :: ·) (ih _)

end Piece

namespace Resolution

def assemble (first : List Char) (outcomes : List (Piece × Except Fault Value)) : Resolution where
  text := first ++ outcomes.flatMap fun (piece, outcome) => piece.replacement outcome ++ piece.after
  notes := outcomes.filterMap fun (piece, outcome) => piece.note? outcome
  failures := outcomes.filterMap fun (piece, outcome) => piece.failure? outcome

theorem ofSegments_eq_assemble (segments : List Segment) (env : Environment) :
    let outcomes := Piece.evaluated (Segment.gather segments).2 env
    ofSegments segments env = (assemble (Segment.gather segments).1 outcomes.1, outcomes.2) := by
  induction segments generalizing env with
  | nil => rfl
  | cons segment rest ih =>
    cases segment with
    | plain c =>
      simp only [ofSegments, ih env]
      rfl
    | token source expr =>
      simp only [ofSegments, Segment.gather, Piece.evaluated]
      rcases env.eval (String.ofList expr) with ⟨fault | value, env'⟩
      · simp only [ih env']
        simp [assemble, Piece.replacement, Piece.note?, Piece.failure?]
      · simp only [ih env']
        simp [assemble, Piece.replacement, Piece.note?, Piece.failure?]

end Resolution

theorem Splits.text_eq {form : TokenForm} {text first : List Char} {pieces : List Piece}
    (h : Splits form text first pieces) :
    text = first ++ pieces.flatMap fun piece => piece.source ++ piece.after := by
  induction h with
  | tokenless => simp
  | token _ _ _ ih =>
    conv_lhs => rw [ih]
    simp

theorem assemble_of_failures {form : TokenForm} {text first : List Char}
    {outcomes : List (Piece × Except Fault Value)}
    (split : Splits form text first (outcomes.map Prod.fst))
    (failed : ∀ outcome ∈ outcomes, outcome.2.isOk = false) :
    (Resolution.assemble first outcomes).text = text := by
  have kept : ∀ outcome ∈ outcomes, outcome.1.replacement outcome.2 = outcome.1.source := by
    rintro ⟨piece, outcome⟩ mem
    cases outcome with
    | ok value => cases failed _ mem
    | error fault => rfl
  rw [split.text_eq, List.flatMap_map]
  simp only [Resolution.assemble]
  congr 1
  exact List.flatMap_congr fun outcome mem => by rw [kept outcome mem]

def AllFail (form : TokenForm) (s : String) (env : Environment) : Prop :=
  ∀ first pieces, Splits form s.toList first pieces →
    ∀ outcome ∈ (Piece.evaluated pieces env).1, outcome.2.isOk = false

theorem pass_of_allFail {form : TokenForm} {s : String} {env : Environment} (fail : AllFail form s env) :
    (Resolution.pass form s env).1.text = s.toList := by
  have split := Segment.splits_gather form s.toList
  have failed := fail _ _ split
  rw [← Piece.evaluated_fst (Segment.gather (Segment.splitFrom form 0 s.toList)).2 env] at split
  rw [Resolution.pass, Segment.split, Resolution.ofSegments_eq_assemble]
  exact assemble_of_failures split failed

/-- Of each form, a text splits in one way into tokens and texts in which none starts; a pass replaces
every token by the value of its expression, evaluated in the environment that the ones before it have
left, or leaves it if there is no value. A line without any value stays as it is. -/
theorem pass_replaces_tokens (s : String) (env : Environment) :
    (∀ form, ∃ first pieces, Splits form s.toList first pieces ∧
      (∀ first' pieces', Splits form s.toList first' pieces' → first' = first ∧ pieces' = pieces) ∧
      s.toList = first ++ (pieces.flatMap fun piece => piece.source ++ piece.after) ∧
      (Piece.evaluated pieces env).1.map Prod.fst = pieces ∧
      Resolution.pass form s env =
        (Resolution.assemble first (Piece.evaluated pieces env).1, (Piece.evaluated pieces env).2)) ∧
    (∀ form, AllFail form s env → (Resolution.pass form s env).1.text = s.toList) ∧
    (AllFail .bare s env → AllFail .quoted s (Resolution.pass .bare s env).2 →
      (resolveLine s env).1.text = s) := by
  refine ⟨fun form => ?_, fun form => pass_of_allFail, fun bare quoted => ?_⟩
  · have split := Segment.splits_gather form s.toList
    exact ⟨_, _, split, fun _ _ other => split.unique other, split.text_eq, Piece.evaluated_fst _ env,
      Resolution.ofSegments_eq_assemble _ env⟩
  · simp only [resolveLine, pass_of_allFail bare, String.ofList_toList, pass_of_allFail quoted]

end GcodePrep
