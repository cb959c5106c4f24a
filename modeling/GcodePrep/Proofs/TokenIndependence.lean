import GcodePrep.Proofs.Rescanning
import GcodePrep.Proofs.TokenSplitting
import GcodePrep.Proofs.TokenSubstitution
import GcodePrep.Proofs.WordEvaluation

set_option autoImplicit false

/-!
# Bare tokens are resolved independently of each other

Where no double quote can come into a text, only bare tokens are ever resolved. Their expressions are
words, which change no binding; so every line sees the environment that the first one saw, and a token
is replaced by the same text wherever it stands.
-/

namespace GcodePrep

namespace Environment

/-- No text that a name is bound to contains a double quote. -/
def Quoteless (env : Environment) : Prop := ∀ name s, env.get? name = some (.str s) → '"' ∉ s.toList

def wordText (env : Environment) (word : List Char) : List Char :=
  match (env.eval (String.ofList word)).1 with
  | .ok value => value.text.toList
  | .error _ => '@' :: word

theorem quote_not_mem_wordText {env : Environment} (quoteless : env.Quoteless) {word : List Char}
    (chars : ∀ c ∈ word, Text.isWordChar c = true) : '"' ∉ env.wordText word := by
  obtain ⟨-, bound⟩ := env.eval_word chars
  unfold wordText
  cases outcome : (env.eval (String.ofList word)).1 with
  | error fault =>
    intro mem
    rcases List.mem_cons.mp mem with sign | mem
    · exact absurd sign (by decide)
    · exact absurd (chars _ mem) (by decide)
  | ok v =>
    cases text : v.isText with
    | false => exact (Value.inert_of_not_isText text).2.2
    | true =>
      obtain ⟨name, found⟩ := bound v outcome text
      cases v with
      | str s => exact quoteless name s found
      | int | float | bool => cases text

end Environment

/-- The text `t` is `s` with what the environment has for its word in the place of every bare token. -/
def Rewrites (env : Environment) (s t : String) : Prop :=
  ∃ first pieces, Splits .bare s.toList first pieces ∧
    t.toList = first ++ pieces.flatMap fun piece => env.wordText piece.expr ++ piece.after

theorem Splits.isToken_bare {text first : List Char} {pieces : List Piece}
    (h : Splits .bare text first pieces) :
    ∀ piece ∈ pieces, piece.source = '@' :: piece.expr ∧ ∀ c ∈ piece.expr, Text.isWordChar c = true := by
  generalize bare : TokenForm.bare = form at h
  induction h with
  | tokenless => exact List.forall_mem_nil _
  | token _ token _ ih =>
    refine List.forall_mem_cons.mpr ⟨?_, ih⟩
    cases token with
    | bare _ _ _ chars => exact ⟨rfl, chars⟩
    | closed | unclosed => cases bare

namespace Piece

theorem evaluated_eq_map {pieces : List Piece} {env : Environment}
    (words : ∀ piece ∈ pieces, ∀ c ∈ piece.expr, Text.isWordChar c = true) :
    evaluated pieces env =
      (pieces.map fun piece => (piece, (env.eval (String.ofList piece.expr)).1), env) := by
  induction pieces with
  | nil => rfl
  | cons piece rest ih =>
    obtain ⟨first, others⟩ := List.forall_mem_cons.mp words
    have kept := (env.eval_word first).1
    simp only [evaluated, kept, ih others, List.map_cons]

end Piece

theorem pass_bare (s : String) (env : Environment) : (Resolution.pass .bare s env).2 = env ∧
    Rewrites env s (String.ofList (Resolution.pass .bare s env).1.text) := by
  have split := Segment.splits_gather .bare s.toList
  have tokens := split.isToken_bare
  rw [Resolution.pass, Segment.split, Resolution.ofSegments_eq_assemble,
    Piece.evaluated_eq_map fun piece mem => (tokens piece mem).2]
  refine ⟨rfl, _, _, split, ?_⟩
  rw [String.toList_ofList, Resolution.assemble, List.flatMap_map]
  refine congrArg _ (List.flatMap_congr fun piece mem => ?_)
  have source := (tokens piece mem).1
  unfold Environment.wordText Piece.replacement
  cases (env.eval (String.ofList piece.expr)).1 <;> simp [source]

theorem Rewrites.quote_not_mem {env : Environment} (quoteless : env.Quoteless) {s t : String}
    (h : Rewrites env s t) (plain : '"' ∉ s.toList) : '"' ∉ t.toList := by
  obtain ⟨first, pieces, split, eq⟩ := h
  have tokens := split.isToken_bare
  rw [split.text_eq] at plain
  rw [eq]
  simp only [List.mem_append, List.mem_flatMap, not_or, not_exists, not_and] at plain ⊢
  refine ⟨plain.1, fun piece mem => ⟨?_, (plain.2 piece mem).2⟩⟩
  exact Environment.quote_not_mem_wordText quoteless (tokens piece mem).2

theorem resolveLine_bare {env : Environment} (quoteless : env.Quoteless) {s : String}
    (plain : '"' ∉ s.toList) : (resolveLine s env).2 = env ∧ Rewrites env s (resolveLine s env).1.text := by
  obtain ⟨kept, rewritten⟩ := pass_bare s env
  -- A quoted token would have its quote from the line or from a text that was put in.
  have free : ¬ HoldsQuoted (Resolution.pass .bare s env).1.text := by
    intro holds
    have quote := rewritten.quote_not_mem quoteless plain
    rw [String.toList_ofList] at quote
    exact quote (holds.subset (List.mem_cons_of_mem _ List.mem_cons_self))
  rw [(resolveLine_eq_bareOutcome_iff s env).mpr free]
  exact ⟨kept, rewritten⟩

namespace Record

/-- The second record is the first with another text and with something added at the end of its comment,
if anything is. -/
structure Annotates (r r' : Record) : Prop where
  origin : r'.origin = r.origin
  outLine : r'.outLine = r.outLine
  comment : r'.comment = r.comment ∨ ∃ added, r'.comment = some (r.comment.getD "" ++ added)

theorem Annotates.trans {r r' r'' : Record} (h : Annotates r r') (h' : Annotates r' r'') :
    Annotates r r'' := by
  refine ⟨h'.origin.trans h.origin, h'.outLine.trans h.outLine, ?_⟩
  rcases h'.comment with same | ⟨added, eq⟩
  · rw [same]
    exact h.comment
  · rw [eq]
    rcases h.comment with same | ⟨added', eq'⟩
    · exact .inr ⟨added, by rw [same]⟩
    · exact .inr ⟨added' ++ added, by rw [eq', Option.getD_some, String.append_assoc]⟩

theorem annotates_appendComment (r : Record) (note separator : String) :
    Annotates r (r.appendComment note separator) := by
  refine ⟨rfl, rfl, .inr ?_⟩
  unfold appendComment
  cases r.comment with
  | none => exact ⟨note, by simp⟩
  | some old =>
    by_cases empty : old.isEmpty = true
    · exact ⟨note, by simp [String.isEmpty_iff.mp empty]⟩
    · exact ⟨separator ++ note, by simp [empty, String.append_assoc]⟩

theorem annotates_withNotes (r : Record) (line : ResolvedLine) : Annotates r (r.withNotes line) := by
  have step (r : Record) (note separator : String) :
      Annotates r (if note.isEmpty then r else r.appendComment note separator) := by
    split
    · exact ⟨rfl, rfl, .inl rfl⟩
    · exact annotates_appendComment r note separator
  exact (step r _ ",").trans (step _ _ "")

theorem annotates_resolve (r : Record) (env : Environment) : Annotates r (r.resolve env).1 := by
  unfold resolve
  split
  · exact ⟨rfl, rfl, .inl rfl⟩
  · split
    · exact ⟨rfl, rfl, .inl rfl⟩
    · rename_i text _ _
      generalize resolveLine text env = outcome
      obtain ⟨line, env'⟩ := outcome
      have noted := annotates_withNotes { r with text := some line.text } line
      exact ⟨noted.origin, noted.outLine, noted.comment⟩

theorem resolve_bare {env : Environment} (quoteless : env.Quoteless) {r : Record}
    (plain : ∀ text, r.text = some text → '"' ∉ text.toList) :
    (r.resolve env).2.2 = env ∧ ∀ text, r.text = some text →
      ∃ text', (r.resolve env).1.text = some text' ∧ Rewrites env text text' := by
  unfold resolve
  cases given : r.text with
  | none => exact ⟨rfl, nofun⟩
  | some text =>
    have unquoted := plain text given
    dsimp only
    split
    · rename_i empty
      refine ⟨rfl, fun text' same => ?_⟩
      cases same
      refine ⟨text, given, [], [], ?_, ?_⟩
      · rw [String.isEmpty_iff.mp empty]
        exact .tokenless (.nil .bare [])
      · simp [String.isEmpty_iff.mp empty]
    · obtain ⟨kept, rewritten⟩ := resolveLine_bare quoteless unquoted
      generalize resolveLine text env = outcome at kept rewritten ⊢
      obtain ⟨line, env'⟩ := outcome
      refine ⟨kept, fun text' same => ?_⟩
      cases same
      exact ⟨line.text, withNotes_text _ line, rewritten⟩

end Record

namespace Program

section

variable {env : Environment} (quoteless : env.Quoteless)

include quoteless

theorem resolveHeader_eq_map (origin : Origin) {header : List String}
    (plain : ∀ line ∈ header, '"' ∉ line.toList) :
    resolveHeader origin header env =
      (header.map fun line => (resolveLine line env).1.text,
        header.flatMap fun line => ResolveFailure.ofPairs origin (resolveLine line env).1.failures,
        env) := by
  induction header with
  | nil => rfl
  | cons line rest ih =>
    obtain ⟨first, others⟩ := List.forall_mem_cons.mp plain
    have kept := (resolveLine_bare quoteless first).1
    simp only [resolveHeader, kept, ih others, List.map_cons, List.flatMap_cons]

theorem resolveBody_eq_map {body : List Record}
    (plain : ∀ r ∈ body, ∀ text, r.text = some text → '"' ∉ text.toList) :
    resolveBody body env =
      (body.map fun r => (r.resolve env).1, body.flatMap fun r => (r.resolve env).2.1, env) := by
  induction body with
  | nil => rfl
  | cons r rest ih =>
    obtain ⟨first, others⟩ := List.forall_mem_cons.mp plain
    have kept := (Record.resolve_bare quoteless first).1
    simp only [resolveBody, kept, ih others, List.map_cons, List.flatMap_cons]

end

/-- Where neither the lines of a program nor the texts bound in the environment contain a double quote,
resolution leaves the environment as it is and makes of every header line and every record what it makes
of them alone: the records may stand in any order, and each bare token becomes what the environment has
for its word. A record without text stays; of every other, the comment alone may change besides the
text, and only by an addition at its end. -/
theorem resolution_is_position_independent (p : Program) (env : Environment) (quoteless : env.Quoteless)
    (header : ∀ line ∈ p.header, '"' ∉ line.toList)
    (body : ∀ r ∈ p.body, ∀ text, r.text = some text → '"' ∉ text.toList) :
    p.resolve env =
      ({ p with
          header := p.header.map fun line => (resolveLine line env).1.text
          body := p.body.map fun r => (r.resolve env).1 },
        (p.header.flatMap fun line => ResolveFailure.ofPairs p.origin (resolveLine line env).1.failures) ++
          p.body.flatMap fun r => (r.resolve env).2.1,
        env) ∧
    (∀ body' : List Record, body'.Perm p.body →
      (body'.zip ({ p with body := body' }.resolve env).1.body).Perm
        (p.body.zip (p.resolve env).1.body)) ∧
    (∀ line ∈ p.header, Rewrites env line (resolveLine line env).1.text) ∧
    ∀ r ∈ p.body, r.Annotates (r.resolve env).1 ∧
      (r.text = none → (r.resolve env).1 = r) ∧
      ∀ text, r.text = some text →
        ∃ text', (r.resolve env).1.text = some text' ∧ Rewrites env text text' := by
  have resolved (body' : List Record)
      (plain : ∀ r ∈ body', ∀ text, r.text = some text → '"' ∉ text.toList) :
      ({ p with body := body' }.resolve env).1.body = body'.map fun r => (r.resolve env).1 := by
    simp only [resolve, resolveHeader_eq_map quoteless p.origin header, resolveBody_eq_map quoteless plain]
  refine ⟨?_, fun body' perm => ?_, fun line mem => (resolveLine_bare quoteless (header line mem)).2,
    fun r mem => ⟨r.annotates_resolve env, fun none => ?_, (Record.resolve_bare quoteless (body r mem)).2⟩⟩
  · simp only [resolve, resolveHeader_eq_map quoteless p.origin header, resolveBody_eq_map quoteless body]
  · have same := resolved p.body body
    rw [resolved body' fun r mem => body r (perm.mem_iff.mp mem), same]
    rw [← List.map_prod_left_eq_zip, ← List.map_prod_left_eq_zip]
    exact perm.map _
  · rw [Record.resolve, none]

def referring : Program where
  name := "MAIN"
  number := 7
  origin := ⟨"main.pp", 1⟩
  header := ["(@NOTE, from X@X)"]
  body :=
    [⟨⟨"main.pp", 2⟩, 0, some "G0 X@X (@NOTE)", none⟩, ⟨⟨"main.pp", 3⟩, 1, none, some "turn"⟩,
      ⟨⟨"main.pp", 4⟩, 2, some "G0 X-@X Y@12", some "back"⟩]
  outLine := 3
  saved := none
  done := false

theorem referring_resolves_in_place :
    labelled.Quoteless ∧ (referring.resolve labelled).2.2 = labelled ∧
      (referring.resolve labelled).1.header = ["(slow, from X5)"] ∧
      (referring.resolve labelled).1.body =
        [⟨⟨"main.pp", 2⟩, 0, some "G0 X5 (slow)", some "5=X,slow=NOTE"⟩,
          ⟨⟨"main.pp", 3⟩, 1, none, some "turn"⟩,
          ⟨⟨"main.pp", 4⟩, 2, some "G0 X-5 Y12", some "back,5=X,12=12"⟩] ∧
      ∀ r ∈ referring.body, r.Annotates (r.resolve labelled).1 := by
  have quoteless : labelled.Quoteless := by
    intro name s found
    simp only [labelled, Environment.get?, Environment.set, Bindings.get?_set] at found
    split at found
    · cases found
      decide
    · split at found <;> cases found
  obtain ⟨whole, -, -, records⟩ := resolution_is_position_independent referring labelled quoteless
    (by decide) (by decide)
  rw [whole]
  exact ⟨quoteless, rfl, by decide +kernel, by decide +kernel, fun r mem => (records r mem).1⟩

end Program

end GcodePrep
