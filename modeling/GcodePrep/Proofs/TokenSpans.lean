import GcodePrep.Proofs.NameEvaluation
import GcodePrep.Proofs.TokenSeams
import Mathlib.Data.List.TakeWhile

set_option autoImplicit false

/-!
# The spans of the tokens

The tokens of a text stand one behind the other in it, with nothing but blanks between them. A word and
a mark reach as far as they can. The offset of a token counts whole characters, so the text can be cut
there and where the token ends.
-/

namespace GcodePrep

namespace Mark

theorem text_ne_nil (m : Mark) : m.text.toList ≠ [] := by
  cases m <;> decide

def Fits (m : Mark) (cs : List Char) : Prop := m.text.toList <+: cs

theorem not_fits_equals {cs : List Char} (h : ∀ tail, ¬ cs = '=' :: tail) (more : List Char) :
    ¬ '=' :: more <+: cs := by
  rintro ⟨rest, rfl⟩
  exact h _ rfl

theorem read?_longest {cs : List Char} {m : Mark} {size : Nat} (h : read? cs = some (m, size)) :
    m.Fits cs ∧ size = m.text.toList.length ∧
      ∀ other : Mark, other.Fits cs → other.text.toList.length ≤ m.text.toList.length := by
  unfold read? at h
  split at h <;> cases h
  all_goals
    refine ⟨by simp [Fits, text], rfl, fun other fits => ?_⟩
    -- A mark that begins a longer one was read because no equals sign completes that.
    cases other <;> simp_all [Fits, text, not_fits_equals]

end Mark

namespace Token

def IsNumberOutcome (text : List Char) (outcome : Except Defect (Value × Nat)) : Prop :=
  (∃ v, outcome = .ok (v, text.length)) ∨ outcome = .error (.invalidNumber (String.ofList text))

theorem readDecimal_text {cs : List Char} (starts : startsNumber cs = true) :
    ∃ text rest, cs = text ++ rest ∧ text ≠ [] ∧ IsNumberOutcome text (readDecimal cs) := by
  let isBody := fun c : Char => c.isDigit || c == '.'
  obtain ⟨first, tail, rfl, inBody⟩ : ∃ c tail, cs = c :: tail ∧ isBody c = true := by
    unfold startsNumber at starts
    split at starts
    · exact ⟨_, _, rfl, by decide⟩
    · exact ⟨_, _, rfl, by simp [isBody, starts]⟩
    · cases starts
  let exponent := readExponent ((first :: tail).dropWhile isBody)
  have behind : (exponent.map Prod.fst).getD [] <+: (first :: tail).dropWhile isBody := by
    cases found : exponent with
    | none => exact List.nil_prefix
    | some e => exact isPrefix_readExponent found
  obtain ⟨rest, split⟩ := behind
  refine ⟨(first :: tail).takeWhile isBody ++ (exponent.map Prod.fst).getD [], rest, ?_, ?_, ?_⟩
  · rw [List.append_assoc, split, List.takeWhile_append_dropWhile]
  · simp [inBody]
  · unfold readDecimal IsNumberOutcome
    dsimp only
    split
    · exact .inl ⟨_, rfl⟩
    · exact .inr rfl

theorem readHex_text (letter : Char) (cs : List Char) :
    ∃ digits rest, cs = digits ++ rest ∧ IsNumberOutcome ('0' :: letter :: digits) (readHex letter cs) := by
  refine ⟨cs.takeWhile Decimal.isHexDigit, cs.dropWhile Decimal.isHexDigit,
    (List.takeWhile_append_dropWhile ..).symm, ?_⟩
  unfold readHex IsNumberOutcome
  dsimp only
  split
  · exact .inl ⟨_, by rw [List.length_cons, List.length_cons, Nat.add_comm]⟩
  · exact .inr rfl

theorem readNumber_text {cs : List Char} (starts : startsNumber cs = true) :
    ∃ text rest, cs = text ++ rest ∧ text ≠ [] ∧ IsNumberOutcome text (readNumber cs) := by
  unfold readNumber
  split
  case h_3 => exact readDecimal_text starts
  case h_1 cs | h_2 cs =>
    obtain ⟨digits, rest, rfl, outcome⟩ := readHex_text _ cs
    exact ⟨_, rest, rfl, List.cons_ne_nil _ _, outcome⟩

/-- What stands between quotes, and the text that it is read as. -/
inductive QuotedBody (quote : Char) : (source content : List Char) → Prop where
  | nil : QuotedBody quote [] []
  | plain {c : Char} {source content : List Char} (other : c ≠ quote) (unescaped : c ≠ '\\')
      (h : QuotedBody quote source content) : QuotedBody quote (c :: source) (c :: content)
  | escaped {source content : List Char} (c : Char) (h : QuotedBody quote source content) :
      QuotedBody quote ('\\' :: c :: source) (unescape c :: content)

theorem readQuoted_body {quote : Char} {cs content : List Char} {size : Nat}
    (h : readQuoted quote cs = some (content, size)) :
    ∃ source rest, cs = source ++ quote :: rest ∧ size = source.length + 1 ∧
      QuotedBody quote source content := by
  have closed (rest : List Char) : ∃ source rest', quote :: rest = source ++ quote :: rest' ∧
      1 = source.length + 1 ∧ QuotedBody quote source [] := ⟨[], rest, rfl, rfl, .nil⟩
  fun_induction readQuoted quote cs generalizing content size with
  | case1 => cases h
  | case2 c closing =>
    cases h
    rw [beq_iff_eq.mp closing]
    exact closed _
  | case3 c other => cases h
  | case4 c next cs closing =>
    cases h
    rw [beq_iff_eq.mp closing]
    exact closed _
  | case5 c next cs other escape ih =>
    obtain ⟨found, inner, eq⟩ := Option.map_eq_some_iff.mp h
    cases eq
    obtain ⟨source, rest, rfl, size, body⟩ := ih inner
    rw [beq_iff_eq.mp escape]
    exact ⟨'\\' :: next :: source, rest, rfl, by rw [size]; rfl, .escaped next body⟩
  | case6 c next cs other plain ih =>
    obtain ⟨found, inner, eq⟩ := Option.map_eq_some_iff.mp h
    cases eq
    obtain ⟨source, rest, split, size, body⟩ := ih inner
    rw [beq_iff_eq] at other plain
    exact ⟨c :: source, rest, by rw [split]; rfl, by rw [size]; rfl, .plain other plain body⟩

def IsQuote (c : Char) : Prop := c = '"' ∨ c = '\''

/-- The characters `text`, with `rest` behind them, are a token. A word is not part of a longer one, and no
longer mark stands in the place of a mark. -/
inductive Spells : (text rest : List Char) → Token → Prop where
  | number {text rest : List Char} {v : Value} (given : text ≠ [])
      (starts : startsNumber (text ++ rest) = true)
      (read : readNumber (text ++ rest) = .ok (v, text.length)) : Spells text rest (.value v)
  | quoted {quote : Char} {source content rest : List Char} (isQuote : IsQuote quote)
      (body : QuotedBody quote source content) :
      Spells (quote :: (source ++ [quote])) rest (.quoted (String.ofList content))
  | word {text rest : List Char} (identifier : Text.isIdentifierChars text = true)
      (longest : ∀ c, rest.head? = some c → Text.isWordChar c = false) :
      Spells text rest (ofWord (String.ofList text))
  | mark {rest : List Char} (m : Mark)
      (longest : ∀ other : Mark, other.Fits (m.text.toList ++ rest) →
        other.text.toList.length ≤ m.text.toList.length) : Spells m.text.toList rest (.mark m)

theorem Spells.text_ne_nil {text rest : List Char} {token : Token} (h : Spells text rest token) :
    text ≠ [] := by
  cases h with
  | number given => exact given
  | quoted => exact List.cons_ne_nil _ _
  | word identifier =>
    rintro rfl
    cases identifier
  | mark m => exact m.text_ne_nil

/-- No token starts with the characters `text`, for the reason that the defect gives. -/
inductive Halts : (text rest : List Char) → Defect → Prop where
  | number {text rest : List Char} (starts : startsNumber (text ++ rest) = true)
      (read : readNumber (text ++ rest) = .error (.invalidNumber (String.ofList text))) :
      Halts text rest (.invalidNumber (String.ofList text))
  | quoted {quote : Char} {rest : List Char} (isQuote : IsQuote quote)
      (unclosed : readQuoted quote rest = none) : Halts [quote] rest .unterminatedText
  | character {c : Char} {rest : List Char} (unmarked : Mark.read? (c :: rest) = none) :
      Halts [c] rest (.unexpectedCharacter c)

theorem read_outcome (c : Char) (cs : List Char) :
    ∃ text rest, c :: cs = text ++ rest ∧
      ((∃ token, read c cs = .ok (token, text.length) ∧ Spells text rest token) ∨
        ∃ defect, read c cs = .error defect ∧ Halts text rest defect) := by
  unfold read
  by_cases number : startsNumber (c :: cs) = true
  · obtain ⟨text, rest, split, given, ⟨v, ok⟩ | invalid⟩ := readNumber_text number
    · rw [if_pos number, ok]
      rw [split] at number ok
      exact ⟨text, rest, split, .inl ⟨_, rfl, .number given number ok⟩⟩
    · rw [if_pos number, invalid]
      rw [split] at number invalid
      exact ⟨text, rest, split, .inr ⟨_, rfl, .number number invalid⟩⟩
  rw [if_neg number]
  by_cases quote : (c == '"' || c == '\'') = true
  · rw [if_pos quote]
    have isQuote : IsQuote c := by simpa [IsQuote] using quote
    cases found : readQuoted c cs with
    | none => exact ⟨[c], cs, rfl, .inr ⟨_, rfl, .quoted isQuote found⟩⟩
    | some r =>
      obtain ⟨source, rest, rfl, size, body⟩ := readQuoted_body found
      refine ⟨c :: (source ++ [c]), rest, by simp, .inl ⟨_, ?_, .quoted isQuote body⟩⟩
      simp [size]
  rw [if_neg quote]
  by_cases word : Text.isWordStart c = true
  · rw [if_pos word]
    refine ⟨c :: cs.takeWhile Text.isWordChar, cs.dropWhile Text.isWordChar, ?_, .inl ⟨_, rfl, .word ?_ ?_⟩⟩
    · rw [List.cons_append, List.takeWhile_append_dropWhile]
    · simp [Text.isIdentifierChars, word]
    · exact fun d next => Text.not_of_head?_dropWhile next
  rw [if_neg word]
  cases found : Mark.read? (c :: cs) with
  | none => exact ⟨[c], cs, rfl, .inr ⟨_, rfl, .character found⟩⟩
  | some r =>
    obtain ⟨⟨rest, split⟩, size, longest⟩ := Mark.read?_longest found
    rw [← split] at longest
    refine ⟨r.1.text.toList, rest, split.symm, .inl ⟨_, ?_, .mark r.1 longest⟩⟩
    rw [← size]

theorem byteCount_append (cs ds : List Char) : byteCount (cs ++ ds) = byteCount cs + byteCount ds := by
  induction cs with
  | nil => simp [byteCount]
  | cons c cs ih => simp [byteCount, ih, Nat.add_assoc]

theorem byteCount_pos {cs : List Char} (given : cs ≠ []) : 0 < byteCount cs := by
  cases cs with
  | nil => exact absurd rfl given
  | cons c cs => exact Nat.add_pos_left c.utf8Size_pos _

structure Span where
  token : Token
  start : Nat
  text : List Char

namespace Span

def stop (p : Span) : Nat := p.start + byteCount p.text

def lexeme (p : Span) : Lexeme := ⟨p.token, p.start⟩

end Span

/-- Blanks and the texts of the spans make up the characters, which begin at byte `offset`. -/
inductive Tiles : (offset : Nat) → List Char → List Span → Prop where
  | done (offset : Nat) : Tiles offset [] []
  | blank {offset : Nat} {c : Char} {cs : List Char} {spans : List Span} (space : Text.isSpace c = true)
      (h : Tiles (offset + c.utf8Size) cs spans) : Tiles offset (c :: cs) spans
  | token {offset : Nat} {text rest : List Char} {token : Token} {spans : List Span}
      (spells : Spells text rest token) (h : Tiles (offset + byteCount text) rest spans) :
      Tiles offset (text ++ rest) (⟨token, offset, text⟩ :: spans)

/-- The characters `taken`, which are skipped, belong to the token read before. -/
theorem tiles_of_lexemesFrom {skip offset : Nat} {cs : List Char} {ts : List Lexeme}
    (h : lexemesFrom skip offset cs = .ok ts) {taken rest : List Char} (split : cs = taken ++ rest)
    (size : taken.length = skip) :
    ∃ spans, ts = spans.map Span.lexeme ∧ Tiles (offset + byteCount taken) rest spans := by
  fun_induction lexemesFrom skip offset cs generalizing ts taken rest with
  | case1 skip offset =>
    cases h
    obtain ⟨rfl, rfl⟩ := List.append_eq_nil_iff.mp split.symm
    exact ⟨[], rfl, .done _⟩
  | case2 offset skip c cs ih =>
    cases taken with
    | nil => cases size
    | cons d taken =>
      cases split
      obtain ⟨spans, eq, tiles⟩ := ih h rfl (Nat.succ.inj size)
      rw [Nat.add_assoc] at tiles
      exact ⟨spans, eq, tiles⟩
  | case3 offset c cs space ih =>
    obtain rfl := List.eq_nil_of_length_eq_zero size
    cases split
    obtain ⟨spans, eq, tiles⟩ := ih h (List.nil_append cs).symm rfl
    exact ⟨spans, eq, .blank space tiles⟩
  | case4 => cases h
  | case5 offset c cs space token size' found ih =>
    obtain rfl := List.eq_nil_of_length_eq_zero size
    cases split
    cases later : lexemesFrom (size' - 1) (offset + c.utf8Size) cs with
    | error defect =>
      rw [later] at h
      cases h
    | ok others =>
      rw [later] at h
      cases h
      obtain ⟨text, rest, split, ⟨token', read, spells⟩ | ⟨defect, read, -⟩⟩ := read_outcome c cs <;>
        cases found.symm.trans read
      obtain ⟨d, text, rfl⟩ := List.exists_cons_of_ne_nil spells.text_ne_nil
      obtain ⟨rfl, behind⟩ := List.cons.inj split
      obtain ⟨spans, rfl, tiles⟩ := ih later behind rfl
      rw [Nat.add_assoc] at tiles
      rw [split]
      exact ⟨⟨token, offset, c :: text⟩ :: spans, rfl, .token spells tiles⟩

theorem halts_of_lexemesFrom {skip offset place : Nat} {cs : List Char} {defect : Defect}
    (h : lexemesFrom skip offset cs = .error (defect, place)) :
    ∃ before text rest, cs = before ++ (text ++ rest) ∧ place = offset + byteCount before ∧
      Halts text rest defect := by
  have moved {offset place : Nat} {c : Char} {cs : List Char}
      (h : ∃ before text rest, cs = before ++ (text ++ rest) ∧
        place = offset + c.utf8Size + byteCount before ∧ Halts text rest defect) :
      ∃ before text rest, c :: cs = before ++ (text ++ rest) ∧ place = offset + byteCount before ∧
        Halts text rest defect := by
    obtain ⟨before, text, rest, rfl, at_, halts⟩ := h
    exact ⟨c :: before, text, rest, rfl, by rw [at_, Nat.add_assoc]; rfl, halts⟩
  fun_induction lexemesFrom skip offset cs with
  | case1 => cases h
  | case2 offset skip c cs ih => exact moved (ih h)
  | case3 offset c cs space ih => exact moved (ih h)
  | case4 offset c cs space defect' found =>
    cases h
    obtain ⟨text, rest, split, ⟨token, read, -⟩ | ⟨defect', read, halts⟩⟩ := read_outcome c cs <;>
      cases found.symm.trans read
    exact ⟨[], text, rest, split, rfl, halts⟩
  | case5 offset c cs space token size found ih =>
    cases later : lexemesFrom (size - 1) (offset + c.utf8Size) cs with
    | error found' =>
      rw [later] at h
      cases h
      exact moved (ih later)
    | ok others =>
      rw [later] at h
      cases h

namespace Tiles

variable {offset : Nat} {cs : List Char} {spans : List Span}

theorem exists_split (h : Tiles offset cs spans) {p : Span} (mem : p ∈ spans) :
    ∃ before rest, cs = before ++ (p.text ++ rest) ∧ p.start = offset + byteCount before ∧
      Spells p.text rest p.token := by
  induction h with
  | done => cases mem
  | blank space h ih =>
    obtain ⟨before, rest, rfl, start, spells⟩ := ih mem
    exact ⟨_ :: before, rest, rfl, by rw [start, Nat.add_assoc]; rfl, spells⟩
  | @token offset text rest token spans spells h ih =>
    rcases List.mem_cons.mp mem with rfl | mem
    · exact ⟨[], rest, rfl, rfl, spells⟩
    · obtain ⟨before, rest, rfl, start, spells⟩ := ih mem
      refine ⟨text ++ before, rest, by simp, ?_, spells⟩
      rw [start, byteCount_append, Nat.add_assoc]

theorem ordered (h : Tiles offset cs spans) : spans.Pairwise fun p q => p.stop ≤ q.start := by
  induction h with
  | done => exact .nil
  | blank space h ih => exact ih
  | token spells h ih =>
    refine .cons (fun q mem => ?_) ih
    obtain ⟨before, rest, -, start, -⟩ := h.exists_split mem
    rw [start]
    exact Nat.le_add_right _ _

theorem exists_span (h : Tiles offset cs spans) {before after : List Char} {c : Char}
    (split : cs = before ++ c :: after) (visible : Text.isSpace c = false) :
    ∃ p ∈ spans, p.start ≤ offset + byteCount before ∧ offset + byteCount before < p.stop := by
  induction h generalizing before with
  | done => simp at split
  | blank space h ih =>
    cases before with
    | nil =>
      cases split
      rw [space] at visible
      cases visible
    | cons d before =>
      cases split
      obtain ⟨p, mem, within⟩ := ih rfl
      rw [Nat.add_assoc] at within
      exact ⟨p, mem, within⟩
  | @token offset text rest token spans spells h ih =>
    -- The character stands behind the token, or in it.
    rcases List.append_eq_append_iff.mp split with ⟨more, rfl, eq⟩ | ⟨more, rfl, eq⟩
    · obtain ⟨p, mem, within⟩ := ih eq
      rw [byteCount_append, ← Nat.add_assoc]
      exact ⟨p, List.mem_cons_of_mem _ mem, within⟩
    · cases more with
      | nil =>
        obtain ⟨p, mem, within⟩ := @ih [] eq.symm
        rw [List.append_nil] at within
        exact ⟨p, List.mem_cons_of_mem _ mem, within⟩
      | cons d more =>
        refine ⟨_, List.mem_cons_self, Nat.le_add_right _ _, ?_⟩
        have shorter := byteCount_pos (List.cons_ne_nil d more)
        simp only [Span.stop, byteCount_append]
        omega

end Tiles

end Token

/-- A text can be cut at this byte offset: it lies between two characters, or at an end. -/
def IsBoundary (s : String) (n : Nat) : Prop := (String.Pos.Raw.mk n).IsValid s

instance (s : String) (n : Nat) : Decidable (IsBoundary s n) :=
  inferInstanceAs (Decidable ((String.Pos.Raw.mk n).IsValid s))

/-- The source has these characters at byte `start`, with `rest` behind them, and they can be cut out. -/
structure StandsAt (s : String) (start : Nat) (text rest : List Char) : Prop where
  split : ∃ before, s.toList = before ++ (text ++ rest) ∧ start = Token.byteCount before
  first : IsBoundary s start
  last : IsBoundary s (start + Token.byteCount text)
  bytes : s.toByteArray.extract start (start + Token.byteCount text) = (String.ofList text).toByteArray

section Split

open Token

theorem byteCount_eq_size (cs : List Char) : byteCount cs = (String.ofList cs).toByteArray.size := by
  have size := byteCount_toList (String.ofList cs)
  rwa [String.toList_ofList] at size

variable {s : String} {before text rest : List Char}

theorem isBoundary_of_split (split : s.toList = before ++ rest) : IsBoundary s (byteCount before) := by
  refine String.Pos.Raw.isValid_iff_exists_append.mpr ⟨.ofList before, .ofList rest, ?_, ?_⟩
  · rw [← String.toList_inj, split, String.toList_append, String.toList_ofList, String.toList_ofList]
  · rw [byteCount_eq_size]
    rfl

theorem extract_of_split (split : s.toList = before ++ (text ++ rest)) :
    s.toByteArray.extract (byteCount before) (byteCount before + byteCount text) =
      (String.ofList text).toByteArray := by
  have whole : s = String.ofList before ++ String.ofList text ++ String.ofList rest := by
    rw [← String.toList_inj, split]
    simp
  rw [whole, String.toByteArray_append, String.toByteArray_append, byteCount_eq_size before,
    byteCount_eq_size text, ← ByteArray.size_append, ByteArray.extract_append_size_left]
  exact ByteArray.extract_append_eq_right rfl ByteArray.size_append

theorem standsAt_of_split (split : s.toList = before ++ (text ++ rest)) :
    StandsAt s (byteCount before) text rest := by
  refine ⟨⟨before, split, rfl⟩, isBoundary_of_split split, ?_, extract_of_split split⟩
  rw [← byteCount_append]
  exact isBoundary_of_split (split.trans (List.append_assoc ..).symm)

end Split

/-- The spans are non-empty pieces of the source, each behind the one before, with blanks wherever there
is none. -/
structure Covers (s : String) (spans : List Token.Span) : Prop where
  spelt : ∀ p ∈ spans, p.start < p.stop ∧
    ∃ rest, StandsAt s p.start p.text rest ∧ Token.Spells p.text rest p.token
  ordered : spans.Pairwise fun p q => p.stop ≤ q.start
  blank : ∀ before c after, s.toList = before ++ c :: after →
    (∀ p ∈ spans, Token.byteCount before < p.start ∨ p.stop ≤ Token.byteCount before) →
    Text.isSpace c = true

namespace Token

theorem Tiles.covers {s : String} {spans : List Span} (h : Tiles 0 s.toList spans) : Covers s spans := by
  refine ⟨fun p mem => ?_, h.ordered, fun before c after split outside => ?_⟩
  · obtain ⟨before, rest, split, start, spells⟩ := h.exists_split mem
    rw [Nat.zero_add] at start
    refine ⟨Nat.lt_add_of_pos_right (byteCount_pos spells.text_ne_nil), rest, ?_, spells⟩
    rw [start]
    exact standsAt_of_split split
  · by_contra visible
    obtain ⟨p, mem, first, last⟩ := h.exists_span split (eq_false_of_ne_true visible)
    rcases outside p mem with ahead | behind <;> omega

theorem covers_of_lexemes {s : String} {ts : List Lexeme} (h : lexemes s = .ok ts) :
    ∃ spans, ts = spans.map Span.lexeme ∧ Covers s spans := by
  obtain ⟨spans, eq, tiles⟩ := tiles_of_lexemesFrom h (List.nil_append _).symm rfl
  exact ⟨spans, eq, tiles.covers⟩

theorem standsAt_of_defect {s : String} {defect : Defect} {offset : Nat}
    (h : lexemes s = .error (defect, offset)) :
    ∃ text rest, StandsAt s offset text rest ∧ Halts text rest defect := by
  obtain ⟨before, text, rest, split, place, halts⟩ := halts_of_lexemesFrom h
  rw [place, Nat.zero_add]
  exact ⟨text, rest, standsAt_of_split split, halts⟩

end Token

end GcodePrep
