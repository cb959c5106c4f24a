import GcodePrep.Proofs.NumberTexts
import GcodePrep.Substitution
import Mathlib.Data.List.Infix

set_option autoImplicit false

/-!
# What the second pass finds

The pass for quoted tokens reads the text that the pass for bare tokens has written, values included.
It does nothing exactly when that text holds no `@"`. A line that holds none itself can only come to
hold one through a text value that is empty or has `@` or `"` in it; numbers and truth values are never
scanned again.
-/

namespace GcodePrep

/-- The start of a quoted token stands somewhere in the text. -/
def HoldsQuoted (cs : List Char) : Prop := ['@', '"'] <:+: cs

instance (cs : List Char) : Decidable (HoldsQuoted cs) := inferInstanceAs (Decidable (_ <:+: _))

namespace HoldsQuoted

theorem cons_iff {c : Char} {cs : List Char} :
    HoldsQuoted (c :: cs) ↔ (c = '@' ∧ cs.head? = some '"') ∨ HoldsQuoted cs := by
  unfold HoldsQuoted
  rw [List.infix_cons_iff]
  cases cs with
  | nil => simp [List.cons_prefix_cons]
  | cons d ds => simp [List.cons_prefix_cons, eq_comm]

theorem append_iff {a b : List Char} :
    HoldsQuoted (a ++ b) ↔
      HoldsQuoted a ∨ HoldsQuoted b ∨ (a.getLast? = some '@' ∧ b.head? = some '"') := by
  induction a with
  | nil => simp [HoldsQuoted]
  | cons c cs ih =>
    cases cs with
    | nil =>
      simp only [List.cons_append, List.nil_append, cons_iff, List.head?_nil, List.getLast?_singleton,
        Option.some.injEq]
      simp only [HoldsQuoted, List.infix_nil]
      tauto
    | cons d ds =>
      rw [List.cons_append, cons_iff, ih, @cons_iff c (d :: ds), List.getLast?_cons_cons]
      simp only [List.cons_append, List.head?_cons]
      tauto

end HoldsQuoted

namespace Segment

def isToken : Segment → Bool
  | plain _ => false
  | token .. => true

theorem splitFrom_quoted {cs : List Char} (free : ¬ HoldsQuoted cs) :
    splitFrom .quoted 0 cs = cs.map plain := by
  induction cs with
  | nil => rfl
  | cons c cs ih =>
    rw [HoldsQuoted.cons_iff, not_or] at free
    have none : (if c = '@' then tokenAt? .quoted cs else none) = none := by
      by_cases sign : c = '@'
      · cases cs with
        | nil => simp [tokenAt?]
        | cons d ds =>
          have other : d ≠ '"' := fun quote => free.1 ⟨sign, by simp [quote]⟩
          simp [sign, tokenAt?, other]
      · simp [sign]
    simp [splitFrom, none, ih free.2]

theorem token_of_holdsQuoted {cs : List Char} (holds : HoldsQuoted cs) :
    ∃ segment ∈ splitFrom .quoted 0 cs, segment.isToken = true := by
  induction cs with
  | nil => simp [HoldsQuoted] at holds
  | cons c cs ih =>
    unfold splitFrom
    split
    · exact ⟨_, List.mem_cons_self, rfl⟩
    · rename_i none
      rcases HoldsQuoted.cons_iff.mp holds with ⟨rfl, quote⟩ | later
      · cases cs with
        | nil => simp at quote
        | cons d ds =>
          simp only [List.head?_cons, Option.some.injEq] at quote
          simp [quote, tokenAt?] at none
      · obtain ⟨segment, mem, token⟩ := ih later
        exact ⟨segment, List.mem_cons_of_mem _ mem, token⟩

theorem flatMap_source (form : TokenForm) (skip : Nat) (cs : List Char) :
    (splitFrom form skip cs).flatMap source = cs.drop skip := by
  induction cs generalizing skip with
  | nil => simp [splitFrom]
  | cons c cs ih =>
    cases skip with
    | succ skip => exact ih skip
    | zero =>
      unfold splitFrom
      split
      · rename_i expr size _
        simp [source, ih]
      · simp [source, ih]

end Segment

namespace Resolution

theorem length_notes_failures (segments : List Segment) (env : Environment) :
    (ofSegments segments env).1.notes.length + (ofSegments segments env).1.failures.length =
      segments.countP Segment.isToken := by
  induction segments generalizing env with
  | nil => rfl
  | cons segment rest ih =>
    cases segment with
    | plain c => simpa [ofSegments, Segment.isToken] using ih env
    | token source expr =>
      unfold ofSegments
      dsimp only
      split
      · rename_i value env' _
        have := ih env'
        simp only [List.length_cons, List.countP_cons, Segment.isToken, if_true]
        omega
      · rename_i fault env' _
        have := ih env'
        simp only [List.length_cons, List.countP_cons, Segment.isToken, if_true]
        omega

theorem ofSegments_map_plain (cs : List Char) (env : Environment) :
    ofSegments (cs.map .plain) env = (⟨cs, [], []⟩, env) := by
  induction cs with
  | nil => rfl
  | cons c cs ih => simp [ofSegments, ih]

theorem pass_quoted_eq_iff (s : String) (env : Environment) :
    pass .quoted s env = (⟨s.toList, [], []⟩, env) ↔ ¬ HoldsQuoted s.toList := by
  constructor
  · intro idle holds
    obtain ⟨segment, mem, token⟩ := Segment.token_of_holdsQuoted holds
    have evaluated := length_notes_failures (Segment.split .quoted s) env
    have one : 0 < (Segment.split .quoted s).countP Segment.isToken :=
      List.countP_pos_iff.mpr ⟨segment, mem, token⟩
    rw [pass] at idle
    simp only [idle, List.length_nil] at evaluated
    omega
  · intro free
    rw [pass, Segment.split, Segment.splitFrom_quoted free, ofSegments_map_plain]

end Resolution

namespace Value

/-- The value puts no `@"` into a text that has none, whatever stands around it. -/
def Inert (v : Value) : Prop := v.text ≠ "" ∧ '@' ∉ v.text.toList ∧ '"' ∉ v.text.toList

instance (v : Value) : Decidable v.Inert := inferInstanceAs (Decidable (_ ∧ _ ∧ _))

theorem inert_of_not_isText {v : Value} (other : v.isText = false) : v.Inert := by
  refine ⟨text_ne_empty other, fun mem => ?_, fun mem => ?_⟩
  · exact absurd (isNumberChar_of_mem_text other mem) (by decide)
  · exact absurd (isNumberChar_of_mem_text other mem) (by decide)

end Value

namespace Resolution

def values : List Segment → Environment → List Value
  | [], _ => []
  | .plain _ :: rest, env => values rest env
  | .token _ expr :: rest, env =>
    match env.eval (String.ofList expr) with
    | (.ok value, env) => value :: values rest env
    | (.error _, env) => values rest env

theorem infix_of_mem_values (segments : List Segment) (env : Environment) :
    ∀ v ∈ values segments env, v.text.toList <:+: (ofSegments segments env).1.text := by
  induction segments generalizing env with
  | nil => nofun
  | cons segment rest ih =>
    cases segment with
    | plain c =>
      intro v mem
      exact List.infix_cons (ih env v mem)
    | token source expr =>
      intro v mem
      unfold values at mem
      unfold ofSegments
      dsimp only
      generalize env.eval (String.ofList expr) = evaluated at mem ⊢
      obtain ⟨result, env'⟩ := evaluated
      cases result with
      | ok value =>
        rcases List.mem_cons.mp mem with rfl | mem
        · exact (List.prefix_append _ _).isInfix
        · exact (ih _ v mem).trans (List.suffix_append _ _).isInfix
      | error fault => exact (ih _ v mem).trans (List.suffix_append _ _).isInfix

theorem free_of_inert (segments : List Segment) (env : Environment)
    (inert : ∀ v ∈ values segments env, v.Inert)
    (free : ¬ HoldsQuoted (segments.flatMap Segment.source)) :
    ¬ HoldsQuoted (ofSegments segments env).1.text ∧
      ((ofSegments segments env).1.text.head? = some '"' →
        (segments.flatMap Segment.source).head? = some '"') := by
  induction segments generalizing env with
  | nil => exact ⟨free, id⟩
  | cons segment rest ih =>
    -- What stays as it was cannot form a pair with what follows, for it did not before.
    have keep {env' : Environment} (inert : ∀ v ∈ values rest env', v.Inert) :
        let text := segment.source ++ (ofSegments rest env').1.text
        ¬ HoldsQuoted text ∧
          (text.head? = some '"' → ((segment :: rest).flatMap Segment.source).head? = some '"') := by
      rw [List.flatMap_cons, HoldsQuoted.append_iff] at free
      push Not at free
      obtain ⟨own, later, pair⟩ := free
      obtain ⟨text, head⟩ := ih env' inert later
      refine ⟨?_, ?_⟩
      · rw [HoldsQuoted.append_iff]
        rintro (here | after | ⟨sign, quote⟩)
        · exact own here
        · exact text after
        · exact pair sign (head quote)
      · cases source : segment.source with
        | nil => simpa [source] using head
        | cons c cs => simp [source]
    cases segment with
    | plain c => exact keep inert
    | token source expr =>
      unfold values at inert
      unfold ofSegments
      dsimp only
      generalize env.eval (String.ofList expr) = evaluated at inert ⊢
      obtain ⟨result, env'⟩ := evaluated
      cases result with
      | error fault => exact keep inert
      | ok value =>
        obtain ⟨⟨given, sign, quote⟩, inert⟩ := List.forall_mem_cons.mp inert
        rw [List.flatMap_cons, HoldsQuoted.append_iff] at free
        push Not at free
        obtain ⟨text, -⟩ := ih env' inert free.2.1
        refine ⟨?_, ?_⟩
        · rw [HoldsQuoted.append_iff]
          rintro (here | after | ⟨last, -⟩)
          · exact sign (here.subset (List.mem_cons_self))
          · exact text after
          · exact sign (List.mem_of_getLast? last)
        · intro first
          rw [List.head?_append_of_ne_nil _ (by simpa using given)] at first
          exact absurd (List.mem_of_head? first) quote

end Resolution

def bareOutcome (s : String) (env : Environment) : ResolvedLine × Environment :=
  let (bare, env) := Resolution.pass .bare s env
  (⟨String.ofList bare.text, bare.notes, [], bare.failures⟩, env)

def substituted (s : String) (env : Environment) : List Value :=
  Resolution.values (Segment.split .bare s) env

theorem resolveLine_eq_bareOutcome_iff (s : String) (env : Environment) :
    resolveLine s env = bareOutcome s env ↔ ¬ HoldsQuoted (Resolution.pass .bare s env).1.text := by
  unfold resolveLine bareOutcome
  dsimp only
  generalize Resolution.pass .bare s env = bare
  obtain ⟨bare, env⟩ := bare
  have idle := Resolution.pass_quoted_eq_iff (String.ofList bare.text) env
  rw [String.toList_ofList] at idle
  rw [← idle]
  generalize Resolution.pass .quoted (String.ofList bare.text) env = quoted
  obtain ⟨⟨text, notes, failures⟩, env'⟩ := quoted
  simp only [Prod.mk.injEq, ResolvedLine.mk.injEq, Resolution.mk.injEq, true_and,
    List.append_right_eq_self, String.ofList_inj, and_assoc]

/-- The outcome of a line is that of its bare pass exactly when this pass leaves no `@"` behind. So it
is for every line without `@"` into which no empty text and no text with `@` or `"` is put; then all
values stand in the line as they are. -/
theorem line_settled_by_bare_pass (s : String) (env : Environment) :
    (resolveLine s env = bareOutcome s env ↔
      ¬ HoldsQuoted (Resolution.pass .bare s env).1.text) ∧
    (¬ HoldsQuoted s.toList → (∀ v ∈ substituted s env, v.isText = true → v.Inert) →
      resolveLine s env = bareOutcome s env ∧
        ∀ v ∈ substituted s env, v.text.toList <:+: (resolveLine s env).1.text.toList) := by
  refine ⟨resolveLine_eq_bareOutcome_iff s env, fun free texts => ?_⟩
  have inert : ∀ v ∈ substituted s env, v.Inert := by
    intro v mem
    cases text : v.isText with
    | true => exact texts v mem text
    | false => exact Value.inert_of_not_isText text
  have sources : (Segment.split .bare s).flatMap Segment.source = s.toList :=
    Segment.flatMap_source .bare 0 s.toList
  have unquoted := (Resolution.free_of_inert (Segment.split .bare s) env inert (sources ▸ free)).1
  have settled := (resolveLine_eq_bareOutcome_iff s env).mpr unquoted
  refine ⟨settled, fun v mem => ?_⟩
  have placed := Resolution.infix_of_mem_values (Segment.split .bare s) env v mem
  rw [settled]
  change v.text.toList <:+: (String.ofList (Resolution.pass .bare s env).1.text).toList
  rw [String.toList_ofList]
  exact placed

def labelled : Environment := (Environment.empty.set "X" (.int 5)).set "NOTE" (.str "slow")

theorem labelled_line_settled :
    (substituted "G0 X@X (@NOTE)" labelled).map Value.text = ["5", "slow"] ∧
      resolveLine "G0 X@X (@NOTE)" labelled = bareOutcome "G0 X@X (@NOTE)" labelled ∧
      ∀ v ∈ substituted "G0 X@X (@NOTE)" labelled,
        v.text.toList <:+: (resolveLine "G0 X@X (@NOTE)" labelled).1.text.toList :=
  ⟨by decide +kernel,
    (line_settled_by_bare_pass "G0 X@X (@NOTE)" labelled).2 (by decide) (by decide +kernel)⟩

/-- A name bound to the text of a quoted token that assigns to another name. -/
def smuggled : Environment := Environment.empty.set "X" (.str "@\"Y = 7\"")

theorem smuggled_token_evaluated :
    ¬ HoldsQuoted "G0 X@X".toList ∧
      (bareOutcome "G0 X@X" smuggled).1.text = "G0 X@\"Y = 7\"" ∧
      (bareOutcome "G0 X@X" smuggled).2.contains "Y" = false ∧
      (resolveLine "G0 X@X" smuggled).1.text = "G0 X7" ∧
      (resolveLine "G0 X@X" smuggled).2.contains "Y" = true ∧
      resolveLine "G0 X@X" smuggled ≠ bareOutcome "G0 X@X" smuggled := by
  have before : (bareOutcome "G0 X@X" smuggled).1.text = "G0 X@\"Y = 7\"" := by decide +kernel
  have after : (resolveLine "G0 X@X" smuggled).1.text = "G0 X7" := by decide +kernel
  refine ⟨by decide, before, by decide +kernel, after, by decide +kernel, fun same => ?_⟩
  rw [same, before] at after
  exact absurd after (by decide)

end GcodePrep
