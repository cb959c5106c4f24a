import GcodePrep.Environment
import GcodePrep.Proofs.TokenSpans

set_option autoImplicit false

/-!
# Every text can be quoted

A backslash before each backslash and each quote is all that a text needs to stand between quotes. The
whole source is then one token, and its value is the text.
-/

namespace GcodePrep

namespace Token

def escaped (quote : Char) (content : List Char) : List Char :=
  content.flatMap fun c => if c = quote ∨ c = '\\' then ['\\', c] else [c]

theorem IsQuote.ne_backslash {quote : Char} (h : IsQuote quote) : quote ≠ '\\' := by
  rcases h with rfl | rfl <;> decide

/-- A backslash does not change what it is put before here: none of the letters `n`, `t` and `r` gets one. -/
theorem IsQuote.unescape_eq {quote c : Char} (h : IsQuote quote) (special : c = quote ∨ c = '\\') :
    unescape c = c := by
  rcases special with rfl | rfl
  · rcases h with rfl | rfl <;> rfl
  · rfl

theorem quotedBody_escaped {quote : Char} (h : IsQuote quote) (content : List Char) :
    QuotedBody quote (escaped quote content) content := by
  induction content with
  | nil => exact .nil
  | cons c content ih =>
    by_cases special : c = quote ∨ c = '\\'
    · have body := QuotedBody.escaped c ih
      rw [h.unescape_eq special] at body
      simpa [escaped, special] using body
    · obtain ⟨other, unescaped⟩ := not_or.mp special
      simpa [escaped, special] using QuotedBody.plain other unescaped ih

theorem QuotedBody.readQuoted {quote : Char} {source content : List Char}
    (h : QuotedBody quote source content) (isQuote : IsQuote quote) (rest : List Char) :
    Token.readQuoted quote (source ++ quote :: rest) = some (content, source.length + 1) := by
  induction h with
  | nil => cases rest <;> simp [Token.readQuoted]
  | @plain c source content other unescaped h ih =>
    -- The reader looks at two characters; there are two, as the closing quote is still to come.
    obtain ⟨next, tail, eq⟩ : ∃ next tail, source ++ quote :: rest = next :: tail := by
      cases source <;> exact ⟨_, _, rfl⟩
    rw [List.cons_append, eq, Token.readQuoted, ← eq, ih]
    simp [other, unescaped]
  | @escaped source content c h ih =>
    rw [List.cons_append, List.cons_append, Token.readQuoted, ih]
    simp [isQuote.ne_backslash.symm]

/-- The text between quotes, with a backslash before each backslash and each quote. -/
def inQuotes (quote : Char) (s : String) : String :=
  String.ofList (quote :: (escaped quote s.toList ++ [quote]))

def quotedSpan (quote : Char) (s : String) : Span := ⟨.quoted s, 0, (inQuotes quote s).toList⟩

theorem stop_quotedSpan (quote : Char) (s : String) :
    (quotedSpan quote s).stop = (inQuotes quote s).utf8ByteSize := by
  rw [Span.stop, quotedSpan, byteCount_toList, Nat.zero_add]

section

variable {quote : Char} (isQuote : IsQuote quote) (s : String)

include isQuote

theorem spells_inQuotes : Spells (inQuotes quote s).toList [] (.quoted s) := by
  have spells : Spells _ [] _ := .quoted isQuote (quotedBody_escaped isQuote s.toList)
  rwa [String.ofList_toList, ← String.toList_ofList (l := quote :: _)] at spells

theorem covers_inQuotes : Covers (inQuotes quote s) [quotedSpan quote s] := by
  have tiles : Tiles 0 _ _ := .token (spells_inQuotes isQuote s) (.done _)
  rw [List.append_nil] at tiles
  exact tiles.covers

theorem lexemes_inQuotes : lexemes (inQuotes quote s) = .ok [(quotedSpan quote s).lexeme] := by
  have body := (quotedBody_escaped isQuote s.toList).readQuoted isQuote []
  have first : read quote (escaped quote s.toList ++ [quote]) =
      .ok (.quoted s, (escaped quote s.toList ++ [quote]).length + 1) := by
    rcases isQuote with rfl | rfl <;> simp [read, startsNumber, body]
  have visible : Text.isSpace quote = false := by
    rcases isQuote with rfl | rfl <;> rfl
  have behind := lexemesFrom_skip quote.utf8Size (escaped quote s.toList ++ [quote])
  rw [List.length_append, List.length_singleton] at behind
  simp [lexemes, inQuotes, lexemesFrom, visible, first, behind, Except.map, Span.lexeme, quotedSpan]

end

end Token

namespace Expr

theorem parse_inQuotes {quote : Char} (isQuote : Token.IsQuote quote) (s : String) (depth : Nat) :
    parse (Token.inQuotes quote s) (depth + 1) = .ok (.literal (.str s) 0) := by
  unfold parse
  rw [Token.lexemes_inQuotes isQuote s]
  cases depth <;> rfl

end Expr

/-- Every text `s` is the value of a source: of itself between quotes, with a backslash before each
backslash and each quote. This source is a single token from its first byte to its last, and under any
limit but zero its evaluation gives `s` and leaves the bindings as they are. -/
theorem quoted_texts_denote_every_text (s : String) (quote : Char) (isQuote : Token.IsQuote quote) :
    Token.lexemes (Token.inQuotes quote s) = .ok [(Token.quotedSpan quote s).lexeme] ∧
    (Token.quotedSpan quote s).start = 0 ∧
    (Token.quotedSpan quote s).stop = (Token.inQuotes quote s).utf8ByteSize ∧
    Covers (Token.inQuotes quote s) [Token.quotedSpan quote s] ∧
    ∀ depth, 1 ≤ depth →
      Expr.parse (Token.inQuotes quote s) depth = .ok (.literal (.str s) 0) ∧
      ∀ env : Environment,
        env.run (Expr.evaluate (Token.inQuotes quote s) depth) = (.ok (.str s), env) := by
  refine ⟨Token.lexemes_inQuotes isQuote s, rfl, Token.stop_quotedSpan quote s,
    Token.covers_inQuotes isQuote s, fun depth room => ?_⟩
  obtain ⟨depth, rfl⟩ := Nat.exists_eq_add_of_le' room
  have parsed := Expr.parse_inQuotes isQuote s depth
  refine ⟨parsed, fun env => ?_⟩
  simp only [Expr.evaluate, parsed]
  rfl

/-- A text with a quote, a letter of more than one byte, a backslash and a line break. -/
theorem awkward_text_denoted :
    Token.inQuotes '\'' "it's é\\\n" = "'it\\'s é\\\\\n'" ∧ Token.IsQuote '\'' ∧ 1 ≤ 1 ∧
      (Token.quotedSpan '\'' "it's é\\\n").stop = 13 ∧
      Environment.withConstants.run (Expr.evaluate "'it\\'s é\\\\\n'" 1) =
        (.ok (.str "it's é\\\n"), .withConstants) := by
  have isQuote : Token.IsQuote '\'' := .inr rfl
  have source : Token.inQuotes '\'' "it's é\\\n" = "'it\\'s é\\\\\n'" := by decide
  have denoted := quoted_texts_denote_every_text "it's é\\\n" '\'' isQuote
  rw [source] at denoted
  exact ⟨source, isQuote, Nat.le_refl 1, denoted.2.2.1,
    (denoted.2.2.2.2 1 (Nat.le_refl 1)).2 .withConstants⟩

end GcodePrep
