import GcodePrep.Proofs.Relocation

set_option autoImplicit false

/-!
# Tokens on both sides of a semicolon

A semicolon ends whatever token stands before it: no number, word or mark is longer for it, and a
quoted text that is closed stays as it is. So the tokens of two texts with a semicolon between them are
those of the first, the semicolon, and those of the second, moved behind both.
-/

namespace GcodePrep

section Run

variable {p : Char → Bool} {c : Char} (stop : p c = false) (cs rest : List Char)

include stop

theorem takeWhile_append_stop : (cs ++ c :: rest).takeWhile p = cs.takeWhile p := by
  induction cs with
  | nil => simp [stop]
  | cons d cs ih => cases taken : p d <;> simp [taken, ih]

theorem dropWhile_append_stop : (cs ++ c :: rest).dropWhile p = cs.dropWhile p ++ c :: rest := by
  induction cs with
  | nil => simp [stop]
  | cons d cs ih => cases taken : p d <;> simp [taken, ih]

end Run

namespace Mark

theorem not_lengthened {cs : List Char} (h : ∀ tail, cs = '=' :: tail → False) (rest tail : List Char) :
    ¬ cs ++ ';' :: rest = '=' :: tail := by
  cases cs with
  | nil => simp
  | cons c cs =>
    intro eq
    exact h cs (by rw [(List.cons.inj eq).1])

theorem read?_append {cs : List Char} {r : Mark × Nat} (h : read? cs = some r) (rest : List Char) :
    read? (cs ++ ';' :: rest) = some r ∧ r.2 ≤ cs.length := by
  unfold read? at h
  split at h <;> cases h <;> refine ⟨?_, by simp⟩
  -- These marks are part of a longer one, which an equals sign would complete.
  case h_3 | h_4 | h_13 | h_14 | h_15 | h_16 | h_18 | h_19 | h_20 | h_21 =>
    simp only [List.cons_append, read?, not_lengthened, *, false_imp_iff, implies_true]
  all_goals rfl

end Mark

namespace Token

theorem startsNumber_append (c : Char) (cs rest : List Char) :
    startsNumber (c :: (cs ++ ';' :: rest)) = startsNumber (c :: cs) := by
  by_cases point : c = '.'
  · subst point
    cases cs <;> rfl
  · cases cs <;> simp [startsNumber, point]

theorem readHex_append (letter : Char) (cs rest : List Char) :
    readHex letter (cs ++ ';' :: rest) = readHex letter cs := by
  simp only [readHex, takeWhile_append_stop (p := Decimal.isHexDigit) (c := ';') (by decide)]

theorem readExponent_append (cs rest : List Char) :
    readExponent (cs ++ ';' :: rest) = readExponent cs := by
  have digits := takeWhile_append_stop (p := Char.isDigit) (c := ';') (by decide)
  rcases cs with _ | ⟨letter, _ | ⟨sign, cs⟩⟩
  · simp [readExponent]
  · simp [readExponent]
  · have whole := digits (sign :: cs) rest
    rw [List.cons_append] at whole
    simp only [List.cons_append, readExponent]
    by_cases plus : sign = '+'
    · simp only [plus, digits]
    · by_cases minus : sign = '-'
      · simp only [minus, digits]
      · simp [plus, minus, whole]

theorem isPrefix_readExponent {cs : List Char} {found : List Char × Int} (h : readExponent cs = some found) :
    found.1 <+: cs := by
  rcases cs with _ | ⟨letter, cs⟩
  · cases h
  · simp only [readExponent] at h
    split at h <;> split at h <;> cases h <;> simp [List.takeWhile_prefix]

theorem readDecimal_append (cs rest : List Char) :
    readDecimal (cs ++ ';' :: rest) = readDecimal cs := by
  have body := takeWhile_append_stop (p := fun c => c.isDigit || c == '.') (c := ';') (by decide) cs rest
  have behind := dropWhile_append_stop (p := fun c => c.isDigit || c == '.') (c := ';') (by decide) cs rest
  simp only [readDecimal, body, behind, readExponent_append]

theorem readDecimal_size {cs : List Char} {r : Value × Nat} (h : readDecimal cs = .ok r) :
    r.2 ≤ cs.length := by
  simp only [readDecimal] at h
  split at h <;> cases h
  have whole := congrArg List.length
    (List.takeWhile_append_dropWhile (p := fun c : Char => c.isDigit || c == '.') (l := cs))
  rw [List.length_append] at whole
  dsimp only
  rw [List.length_append]
  cases found : readExponent (cs.dropWhile fun c : Char => c.isDigit || c == '.') with
  | none =>
    simp only [Option.map_none, Option.getD_none, List.length_nil]
    omega
  | some exponent =>
    have short := (isPrefix_readExponent found).length_le
    simp only [Option.map_some, Option.getD_some]
    omega

theorem readNumber_append (c : Char) (cs rest : List Char) :
    readNumber (c :: (cs ++ ';' :: rest)) = readNumber (c :: cs) := by
  have decimal := readDecimal_append (c :: cs) rest
  rw [List.cons_append] at decimal
  cases cs with
  | nil =>
    by_cases zero : c = '0' <;> simpa [readNumber, zero] using decimal
  | cons d cs =>
    by_cases zero : c = '0'
    · subst zero
      by_cases lower : d = 'x'
      · subst lower
        exact readHex_append 'x' cs rest
      · by_cases upper : d = 'X'
        · subst upper
          exact readHex_append 'X' cs rest
        · simpa [readNumber, lower, upper] using decimal
    · simpa [readNumber, zero] using decimal

theorem readHex_size {letter : Char} {cs : List Char} {r : Value × Nat} (h : readHex letter cs = .ok r) :
    r.2 ≤ cs.length + 2 := by
  have run := (List.takeWhile_sublist (p := Decimal.isHexDigit) (l := cs)).length_le
  simp only [readHex] at h
  split at h <;> cases h
  dsimp only
  omega

theorem readNumber_size {cs : List Char} {r : Value × Nat} (h : readNumber cs = .ok r) :
    r.2 ≤ cs.length := by
  unfold readNumber at h
  split at h
  · exact readHex_size h
  · exact readHex_size h
  · exact readDecimal_size h

theorem readQuoted_append {quote : Char} {cs : List Char} {r : List Char × Nat}
    (h : readQuoted quote cs = some r) (rest : List Char) :
    readQuoted quote (cs ++ rest) = some r ∧ r.2 ≤ cs.length := by
  fun_induction readQuoted quote cs generalizing r with
  | case1 => cases h
  | case2 c closing =>
    cases h
    cases rest <;> simp [readQuoted, closing]
  | case3 c other => cases h
  | case4 c next cs closing =>
    cases h
    simp [readQuoted, closing]
  | case5 c next cs other escape ih =>
    obtain ⟨found, inner, rfl⟩ := Option.map_eq_some_iff.mp h
    obtain ⟨same, size⟩ := ih inner
    refine ⟨by simp [readQuoted, other, escape, same], ?_⟩
    simp only [List.length_cons]
    omega
  | case6 c next cs other plain ih =>
    obtain ⟨found, inner, rfl⟩ := Option.map_eq_some_iff.mp h
    obtain ⟨same, size⟩ := ih inner
    rw [List.cons_append] at same
    refine ⟨by simp [readQuoted, other, plain, same], ?_⟩
    simp only [List.length_cons] at size ⊢
    omega

theorem read_append {c : Char} {cs : List Char} {r : Token × Nat} (h : read c cs = .ok r)
    (rest : List Char) : read c (cs ++ ';' :: rest) = .ok r ∧ r.2 ≤ cs.length + 1 := by
  unfold read at h ⊢
  rw [startsNumber_append, readNumber_append,
    takeWhile_append_stop (p := Text.isWordChar) (c := ';') (by decide)]
  by_cases number : startsNumber (c :: cs) = true
  · rw [if_pos number] at h ⊢
    refine ⟨h, ?_⟩
    cases found : readNumber (c :: cs) with
    | error defect =>
      rw [found] at h
      cases h
    | ok v =>
      rw [found] at h
      cases h
      exact readNumber_size found
  rw [if_neg number] at h ⊢
  by_cases quote : (c == '"' || c == '\'') = true
  · rw [if_pos quote] at h ⊢
    cases found : readQuoted c cs with
    | none =>
      rw [found] at h
      cases h
    | some text =>
      obtain ⟨same, size⟩ := readQuoted_append found (';' :: rest)
      rw [found] at h
      cases h
      rw [same]
      exact ⟨rfl, Nat.succ_le_succ size⟩
  rw [if_neg quote] at h ⊢
  by_cases word : Text.isWordStart c = true
  · rw [if_pos word] at h ⊢
    cases h
    exact ⟨rfl, Nat.succ_le_succ (List.takeWhile_sublist _).length_le⟩
  rw [if_neg word] at h ⊢
  cases found : Mark.read? (c :: cs) with
  | none =>
    rw [found] at h
    cases h
  | some m =>
    obtain ⟨same, size⟩ := Mark.read?_append found rest
    rw [found] at h
    cases h
    rw [List.cons_append] at same
    rw [same]
    exact ⟨rfl, size⟩

def byteCount : List Char → Nat
  | [] => 0
  | c :: cs => c.utf8Size + byteCount cs

theorem byteCount_toList (s : String) : byteCount s.toList = s.utf8ByteSize := by
  suffices h : ∀ cs, byteCount cs = (String.ofList cs).utf8ByteSize by
    rw [h, String.ofList_toList]
  intro cs
  induction cs with
  | nil => rfl
  | cons c cs ih =>
    have split : String.ofList (c :: cs) = String.singleton c ++ String.ofList cs := by
      rw [← String.toList_inj]
      simp
    rw [split, String.utf8ByteSize_append, ← ih, String.utf8ByteSize_singleton, byteCount]

theorem lexemesFrom_shift (n : Nat) {skip offset : Nat} {cs : List Char} {ts : List Lexeme}
    (h : lexemesFrom skip offset cs = .ok ts) :
    lexemesFrom skip (offset + n) cs = .ok (ts.map (Lexeme.shift n)) := by
  fun_induction lexemesFrom skip offset cs generalizing ts with
  | case1 skip offset =>
    cases h
    rfl
  | case2 offset skip c cs ih =>
    rw [lexemesFrom, Nat.add_right_comm]
    exact ih h
  | case3 offset c cs space ih =>
    rw [lexemesFrom, if_pos space, Nat.add_right_comm]
    exact ih h
  | case4 => cases h
  | case5 offset c cs space token size found ih =>
    rw [lexemesFrom, if_neg space, found, Nat.add_right_comm]
    dsimp only
    cases read : lexemesFrom (size - 1) (offset + c.utf8Size) cs with
    | error defect =>
      rw [read] at h
      cases h
    | ok others =>
      rw [read] at h
      cases h
      rw [ih read]
      rfl

theorem lexemesFrom_append {skip offset : Nat} {cs : List Char} {ts : List Lexeme}
    (h : lexemesFrom skip offset cs = .ok ts) (inside : skip ≤ cs.length) (rest : List Char) :
    lexemesFrom skip offset (cs ++ ';' :: rest) =
      (lexemesFrom 0 (offset + byteCount cs) (';' :: rest)).map (ts ++ ·) := by
  have moved (offset : Nat) (c : Char) (cs : List Char) :
      offset + byteCount (c :: cs) = offset + c.utf8Size + byteCount cs := by
    rw [byteCount, Nat.add_assoc]
  fun_induction lexemesFrom skip offset cs generalizing ts with
  | case1 skip offset =>
    cases h
    -- Without the bound the first token could reach across the semicolon.
    obtain rfl : skip = 0 := Nat.le_zero.mp inside
    cases eq : lexemesFrom 0 (offset + byteCount []) (';' :: rest) with
    | error defect => exact eq
    | ok after => exact eq
  | case2 offset skip c cs ih =>
    rw [List.cons_append, lexemesFrom, moved]
    exact ih h (Nat.le_of_succ_le_succ inside)
  | case3 offset c cs space ih =>
    rw [List.cons_append, lexemesFrom, if_pos space, moved]
    exact ih h (Nat.zero_le _)
  | case4 => cases h
  | case5 offset c cs space token size found ih =>
    obtain ⟨same, taken⟩ := read_append found rest
    dsimp only at taken
    rw [List.cons_append, lexemesFrom, if_neg space, same, moved]
    dsimp only
    cases read : lexemesFrom (size - 1) (offset + c.utf8Size) cs with
    | error defect =>
      rw [read] at h
      cases h
    | ok others =>
      rw [read] at h
      cases h
      rw [ih read (by omega)]
      cases lexemesFrom 0 (offset + c.utf8Size + byteCount cs) (';' :: rest) <;> rfl

theorem lexemes_join {s t : String} {ts us : List Lexeme} (h : lexemes s = .ok ts) (h' : lexemes t = .ok us) :
    lexemes (s ++ ";" ++ t) = .ok (ts ++ ⟨.mark .semicolon, s.utf8ByteSize⟩ ::
      us.map (Lexeme.shift (s.utf8ByteSize + 1))) := by
  have chars : (s ++ ";" ++ t).toList = s.toList ++ ';' :: t.toList := by simp
  have after := lexemesFrom_shift (s.utf8ByteSize + 1) h'
  have separator : lexemesFrom 0 s.utf8ByteSize (';' :: t.toList) =
      (lexemesFrom 0 (0 + (s.utf8ByteSize + 1)) t.toList).map (⟨.mark .semicolon, s.utf8ByteSize⟩ :: ·) := by
    rw [Nat.zero_add]
    rfl
  rw [lexemes, chars, lexemesFrom_append h (Nat.zero_le _), byteCount_toList, Nat.zero_add, separator, after]
  rfl

end Token

end GcodePrep
