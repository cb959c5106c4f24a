import GcodePrep.CommandLine.Arguments

set_option autoImplicit false

/-!
# Values that are given are kept

A value on the command line may be looked at long after it was read, and other options may come in
between. In the end an accepted command line has put every value that was given where its setting
belongs, and noted that the setting was given.
-/

namespace GcodePrep

open CommandLine

/-- The setting has this value, or has it among its values. -/
def Arguments.Holds (a : Arguments) (v : String) : Setting → Prop
  | .format => checkedFormat v = .ok a.format
  | .style => checkedStyle v = .ok a.style
  | .errorFile => a.errorFile = some v
  | .output => a.output = some v
  | .controller => a.controller = some v
  | .model => a.model = some v
  | .leader => a.leader = some v
  | .trailer => a.trailer = some v
  | .extension => a.extension = some v
  | .define => v ∈ a.defines
  | .includePath => v ∈ a.includePaths
  | .includeDepth => natural? v = some a.includeDepth
  | .exprDepth => natural? v = some a.exprDepth
  | .infile => v ∈ a.infiles

namespace Text

theorem cutAtFirst_eq_none {sep : Char} {cs : List Char} (h : sep ∉ cs) : cutAtFirst sep cs = none := by
  induction cs with
  | nil => rfl
  | cons c cs ih =>
    obtain ⟨first, rest⟩ := not_or.mp (mt List.mem_cons.mpr h)
    simp [cutAtFirst, ih rest, Ne.symm first]

theorem cutAtFirst_append {sep : Char} {cs : List Char} (h : sep ∉ cs) (rest : List Char) :
    cutAtFirst sep (cs ++ sep :: rest) = some (cs, rest) := by
  induction cs with
  | nil => simp [cutAtFirst]
  | cons c cs ih =>
    obtain ⟨first, later⟩ := not_or.mp (mt List.mem_cons.mpr h)
    simp [cutAtFirst, ih later, Ne.symm first]

end Text

namespace CommandLine

theorem bind_eq_ok_iff {ε α β : Type} {x : Except ε α} {f : α → Except ε β} {b : β} :
    (x >>= f) = .ok b ↔ ∃ a, x = .ok a ∧ f a = .ok b := by
  cases x <;> simp [bind, Except.bind]

theorem map_eq_ok_iff {ε α β : Type} {x : Except ε α} {f : α → β} {b : β} :
    x.map f = .ok b ↔ ∃ a, x = .ok a ∧ f a = b := by
  cases x <;> simp [Except.map]

theorem eq_of_checkedPath {s path : String} (h : checkedPath s = .ok path) : path = s := by
  unfold checkedPath at h
  split at h <;> cases h
  rfl

theorem natural?_of_checkedNatural {s : String} {n : Nat} (h : checkedNatural s = .ok n) :
    natural? s = some n := by
  unfold checkedNatural at h
  split at h <;> cases h
  assumption

theorem holds_setValue {a a' : Arguments} {s : Setting} {v : String} (h : setValue a s v = .ok a') :
    a'.Holds v s := by
  cases s with
  | controller | model | leader | trailer | extension =>
    cases h
    rfl
  | define =>
    cases h
    exact List.mem_append_right _ List.mem_cons_self
  | format | style =>
    obtain ⟨x, checked, rfl⟩ := map_eq_ok_iff.mp h
    exact checked
  | errorFile | output =>
    obtain ⟨x, checked, rfl⟩ := map_eq_ok_iff.mp h
    exact congrArg some (eq_of_checkedPath checked)
  | includePath | infile =>
    obtain ⟨x, checked, rfl⟩ := map_eq_ok_iff.mp h
    rw [eq_of_checkedPath checked]
    exact List.mem_append_right _ List.mem_cons_self
  | includeDepth | exprDepth =>
    obtain ⟨x, checked, rfl⟩ := map_eq_ok_iff.mp h
    exact natural?_of_checkedNatural checked

theorem holds_of_setValue {a a' : Arguments} {s s' : Setting} {v v' : String}
    (h : setValue a s' v' = .ok a') (apart : s' ≠ s ∨ s.isRepeatable = true) (holds : a.Holds v s) :
    a'.Holds v s := by
  by_cases same : s' = s
  · subst same
    cases s' <;> simp [Setting.isRepeatable] at apart
    · cases h
      exact List.mem_append_left _ holds
    all_goals
      obtain ⟨x, -, rfl⟩ := map_eq_ok_iff.mp h
      exact List.mem_append_left _ holds
  · cases s' with
    | controller | model | leader | trailer | extension | define =>
      cases h
      cases s <;> first | exact absurd rfl same | exact holds
    | format | style | errorFile | output | includePath | infile | includeDepth | exprDepth =>
      obtain ⟨x, -, rfl⟩ := map_eq_ok_iff.mp h
      cases s <;> first | exact absurd rfl same | exact holds

theorem holds_of_setFlag {a a' : Arguments} {f : Flag} (h : setFlag a f = .ok a') {s : Setting}
    {v : String} (holds : a.Holds v s) : a'.Holds v s := by
  cases f <;> cases h <;> cases s <;> exact holds

theorem addInputs_eq {a a' : Arguments} {values : List String} (h : addInputs a values = .ok a') :
    ∃ inputs, a' = { a with inputs } := by
  induction values generalizing a with
  | nil =>
    cases h
    exact ⟨_, rfl⟩
  | cons value rest ih =>
    obtain ⟨path, -, h⟩ := bind_eq_ok_iff.mp h
    obtain ⟨inputs, rfl⟩ := ih h
    exact ⟨inputs, rfl⟩

namespace Reader

structure Took (s : Setting) (v : String) (r : Reader) : Prop where
  given : .setting s ∈ r.given
  holds : r.arguments.Holds v s

/-- `--no-error` does not go unnoticed. -/
def Noted (r : Reader) : Prop := r.arguments.noError = true → .flag .noError ∈ r.given

/-- What applying an option to a reader without pending values keeps. -/
structure Kept (I : Reader → Prop) : Prop where
  pending : ∀ {r : Reader} (pending : Pending), I r → I { r with pending }
  value : ∀ {r r' : Reader} {s : Setting} {v : String}, r.applyValue s v = .ok r' → I r → I r'
  flag : ∀ {r r' : Reader} {f : Flag} {a : Arguments}, setFlag r.arguments f = .ok a →
    r.note (.flag f) false = .ok r' → I r → I { r' with arguments := a }
  inputs : ∀ {r : Reader} (inputs : List String),
    I r → I { r with arguments := { r.arguments with inputs } }

theorem note_eq {r r' : Reader} {key : Key} {repeatable : Bool} (h : r.note key repeatable = .ok r') :
    r' = { r with given := key :: r.given } ∧ (repeatable = true ∨ key ∉ r.given) := by
  unfold note at h
  split at h
  · cases h
  · rename_i free
    cases h
    refine ⟨rfl, ?_⟩
    cases repeatable with
    | true => exact .inl rfl
    | false => exact .inr (by simpa using free)

theorem took_applyValue {r r' : Reader} {s : Setting} {v : String} (h : r.applyValue s v = .ok r') :
    Took s v r' := by
  obtain ⟨noted, note, h⟩ := bind_eq_ok_iff.mp h
  obtain ⟨a, set, h⟩ := bind_eq_ok_iff.mp h
  obtain ⟨rfl, -⟩ := note_eq note
  cases h
  exact ⟨List.mem_cons_self, holds_setValue set⟩

theorem kept_took (s : Setting) (v : String) : Kept (Took s v) where
  pending _ took := ⟨took.given, took.holds⟩
  value {r r' s' v'} h took := by
    obtain ⟨noted, note, h⟩ := bind_eq_ok_iff.mp h
    obtain ⟨a, set, h⟩ := bind_eq_ok_iff.mp h
    obtain ⟨rfl, free⟩ := note_eq note
    cases h
    have apart : s' ≠ s ∨ s.isRepeatable = true := by
      by_cases same : s' = s
      · subst same
        exact .inr (free.resolve_right (not_not_intro took.given))
      · exact .inl same
    exact ⟨List.mem_cons_of_mem _ took.given, holds_of_setValue set apart took.holds⟩
  flag set note took := by
    obtain ⟨rfl, -⟩ := note_eq note
    exact ⟨List.mem_cons_of_mem _ took.given, holds_of_setFlag set took.holds⟩
  inputs _ took := ⟨took.given, by cases s <;> exact took.holds⟩

theorem kept_noted : Kept Noted where
  pending _ noted := noted
  value {r r' s v} h noted := by
    obtain ⟨r₁, note, h⟩ := bind_eq_ok_iff.mp h
    obtain ⟨a, set, h⟩ := bind_eq_ok_iff.mp h
    obtain ⟨rfl, -⟩ := note_eq note
    cases h
    have same : a.noError = r.arguments.noError := by
      cases s with
      | controller | model | leader | trailer | extension | define =>
        cases set
        rfl
      | format | style | errorFile | output | includePath | infile | includeDepth | exprDepth =>
        obtain ⟨x, -, rfl⟩ := map_eq_ok_iff.mp set
        rfl
    intro set
    exact List.mem_cons_of_mem _ (noted (same ▸ set))
  flag {r r' f a} set note noted := by
    obtain ⟨rfl, -⟩ := note_eq note
    intro silent
    by_cases same : f = .noError
    · subst same
      exact List.mem_cons_self
    · have before : r.arguments.noError = true := by
        cases f <;> cases set <;> first | exact absurd rfl same | exact silent
      exact List.mem_cons_of_mem _ (noted before)
  inputs _ noted := noted

/-- `I` holds, or is going to hold when the value that was read last is looked at. -/
def Carries (I : Reader → Prop) (r : Reader) : Prop :=
  I r ∨ (∃ s v, r.pending = .value s v) ∧ ∀ r', r.settle = .ok r' → I r'

variable {I : Reader → Prop} (kept : Kept I) {r r' : Reader}

include kept

theorem Carries.settle (c : Carries I r) (h : r.settle = .ok r') : I r' := by
  rcases c with holds | ⟨-, soon⟩
  · unfold Reader.settle at h
    dsimp only at h
    split at h
    · cases h
      exact kept.pending _ holds
    · cases h
    · exact kept.value h (kept.pending _ holds)
    · obtain ⟨a, added, rfl⟩ := map_eq_ok_iff.mp h
      obtain ⟨inputs, rfl⟩ := addInputs_eq added
      exact kept.pending .nothing (kept.inputs inputs holds)
  · exact soon r' h

theorem Carries.applyFlag (c : Carries I r) {f : Flag} (h : r.applyFlag f = .ok r') : I r' := by
  obtain ⟨settled, settle, h⟩ := bind_eq_ok_iff.mp h
  obtain ⟨a, set, h⟩ := bind_eq_ok_iff.mp h
  obtain ⟨noted, note, h⟩ := bind_eq_ok_iff.mp h
  cases h
  exact kept.flag set note (c.settle kept settle)

theorem Carries.applySetting (c : Carries I r) {s : Setting} {attached : Option String}
    (h : r.applySetting s attached = .ok r') : I r' := by
  obtain ⟨settled, settle, h⟩ := bind_eq_ok_iff.mp h
  have holds := c.settle kept settle
  cases attached with
  | some v => exact kept.value h holds
  | none =>
    cases h
    exact kept.pending _ holds

theorem Carries.long (c : Carries I r) {cs : List Char} (h : r.long cs = .ok r') : I r' := by
  unfold Reader.long at h
  dsimp only at h
  split at h
  · cases h
  · exact c.applyFlag kept h
  · cases h
  · exact c.applySetting kept h

theorem Carries.short (c : Carries I r) {cs : List Char} (h : r.short cs = .ok r') :
    Carries I r' := by
  induction cs generalizing r with
  | nil =>
    cases h
    exact c
  | cons char cs ih =>
    unfold Reader.short at h
    split at h
    · cases h
    · obtain ⟨flagged, flag, h⟩ := bind_eq_ok_iff.mp h
      exact ih (.inl (c.applyFlag kept flag)) h
    · split at h <;> exact .inl (c.applySetting kept h)

theorem Carries.input (c : Carries I r) {value : String} (h : r.input value = .ok r') : I r' := by
  unfold Reader.input at h
  split at h
  · rename_i values pending
    cases h
    refine kept.pending _ (c.resolve_right ?_)
    rintro ⟨⟨s, v, other⟩, -⟩
    cases pending.symm.trans other
  · obtain ⟨settled, settle, h⟩ := bind_eq_ok_iff.mp h
    cases h
    exact kept.pending _ (c.settle kept settle)

theorem Carries.plain (c : Carries I r) {value : String} (h : r.plain value = .ok r') : I r' := by
  unfold Reader.plain at h
  split at h
  · rename_i s pending
    cases h
    refine kept.pending _ (c.resolve_right ?_)
    rintro ⟨⟨s, v, other⟩, -⟩
    cases pending.symm.trans other
  · exact c.input kept h

theorem Carries.readInputs (c : Carries I r) {values : List String} (h : r.readInputs values = .ok r') :
    Carries I r' := by
  induction values generalizing r with
  | nil =>
    cases h
    exact c
  | cons value rest ih =>
    obtain ⟨added, input, h⟩ := bind_eq_ok_iff.mp h
    exact ih (.inl (c.input kept input)) h

theorem Carries.read (c : Carries I r) {args : List String} (h : r.read args = .ok r') :
    Carries I r' := by
  induction args generalizing r with
  | nil =>
    cases h
    exact c
  | cons arg rest ih =>
    unfold Reader.read at h
    split at h
    · exact c.readInputs kept h
    · obtain ⟨next, step, h⟩ := bind_eq_ok_iff.mp h
      exact ih (.inl (c.long kept step)) h
    · obtain ⟨next, step, h⟩ := bind_eq_ok_iff.mp h
      exact ih (.inl (c.plain kept step)) h
    · obtain ⟨next, step, h⟩ := bind_eq_ok_iff.mp h
      exact ih (c.short kept step) h
    · obtain ⟨next, step, h⟩ := bind_eq_ok_iff.mp h
      exact ih (.inl (c.plain kept step)) h

omit kept

def argument (r : Reader) (arg : String) : Except Refusal Reader :=
  match arg.toList with
  | '-' :: '-' :: cs => r.long cs
  | ['-'] => r.plain arg
  | '-' :: cs => r.short cs
  | _ => r.plain arg

theorem read_cons {arg : String} (option : arg ≠ "--") (r : Reader) (rest : List String) :
    r.read (arg :: rest) = r.argument arg >>= fun r => r.read rest := by
  have dashes : arg.toList ≠ ['-', '-'] := fun h => option (String.toList_injective h)
  unfold argument
  rw [read]
  split
  · exact absurd ‹_› dashes
  · simp [*]
  · simp [*]
  · simp [*]
  · simp [*]

theorem read_append {before : List String} (options : "--" ∉ before) (r : Reader) (after : List String) :
    r.read (before ++ after) = r.read before >>= fun r => r.read after := by
  induction before generalizing r with
  | nil => rfl
  | cons arg before ih =>
    obtain ⟨first, options⟩ := not_or.mp (mt List.mem_cons.mpr options)
    rw [List.cons_append, read_cons (Ne.symm first), read_cons (Ne.symm first)]
    cases r.argument arg with
    | error refusal => rfl
    | ok r => exact ih options r

end Reader

def attachment : List Char → Option String
  | [] => none
  | '=' :: value => some (String.ofList value)
  | value => some (String.ofList value)

/-- The argument names the setting, with the value that is attached to it or none. -/
inductive Names (s : Setting) : String → Option String → Prop where
  | long (name : String) (named : longKey? name = some (.setting s)) : Names s ("--" ++ name) none
  | longWith (name v : String) (named : longKey? name = some (.setting s)) :
      Names s ("--" ++ name ++ "=" ++ v) (some v)
  | short (flags : List Char) (c : Char) (rest : List Char)
      (joined : ∀ f ∈ flags, ∃ flag, shortKey? f = some (.flag flag))
      (named : shortKey? c = some (.setting s)) :
      Names s (String.ofList ('-' :: (flags ++ c :: rest))) (attachment rest)

/-- The setting is given with this value: attached to its name, or as the argument after it. -/
inductive Given (s : Setting) (v : String) : List String → Prop where
  | attached (before : List String) (arg : String) (after : List String) (options : "--" ∉ before)
      (names : Names s arg (some v)) : Given s v (before ++ arg :: after)
  | next (before : List String) (arg : String) (after : List String) (options : "--" ∉ before)
      (names : Names s arg none) (value : v = "-" ∨ v.toList.head? ≠ some '-') :
      Given s v (before ++ arg :: v :: after)

theorem noEquals_of_longKey? {name : String} {key : Key} (named : longKey? name = some key) :
    '=' ∉ name.toList := by
  unfold longKey? at named
  split at named <;> first | decide | cases named

namespace Reader

theorem short_flags {flags : List Char}
    (joined : ∀ f ∈ flags, ∃ flag, shortKey? f = some (.flag flag)) {r r' : Reader} {rest : List Char}
    (h : r.short (flags ++ rest) = .ok r') : ∃ r₀ : Reader, r₀.short rest = .ok r' := by
  induction flags generalizing r with
  | nil => exact ⟨r, h⟩
  | cons f flags ih =>
    obtain ⟨flag, key⟩ := joined f List.mem_cons_self
    rw [List.cons_append, Reader.short, key] at h
    obtain ⟨flagged, -, h⟩ := bind_eq_ok_iff.mp h
    exact ih (fun f mem => joined f (List.mem_cons_of_mem _ mem)) h

theorem argument_joined {c : Char} (undashed : c ≠ '-') (r : Reader) (cs : List Char) :
    r.argument (String.ofList ('-' :: c :: cs)) = r.short (c :: cs) := by
  simp [argument, undashed]

theorem argument_plain {v : String} (value : v = "-" ∨ v.toList.head? ≠ some '-') (r : Reader) :
    v ≠ "--" ∧ r.argument v = r.plain v := by
  rcases value with rfl | start
  · exact ⟨by decide, rfl⟩
  · constructor
    · rintro rfl
      exact start rfl
    · unfold argument
      split
      · simp [*] at start
      · simp [*] at start
      · simp [*] at start
      · rfl

theorem short_setting {c : Char} {s : Setting} (named : shortKey? c = some (.setting s)) (r : Reader)
    (rest : List Char) : r.short (c :: rest) = r.applySetting s (attachment rest) := by
  rw [Reader.short, named]
  unfold attachment
  dsimp only
  split <;> simp

end Reader

theorem Names.ne_dashes {s : Setting} {arg : String} {attached : Option String}
    (names : Names s arg attached) : arg ≠ "--" := by
  intro eq
  have chars := congrArg String.toList eq
  cases names with
  | long name named =>
    have empty : name = "" := by simpa using chars
    rw [empty] at named
    cases named
  | longWith name v named => simp at chars
  | short flags c rest joined named =>
    have single : flags ++ c :: rest = ['-'] := by simpa using chars
    rcases List.append_eq_singleton_iff.mp single with ⟨-, last⟩ | ⟨-, last⟩
    · cases last
      cases named
    · cases last

theorem Names.applySetting {s : Setting} {arg : String} {attached : Option String}
    (names : Names s arg attached) {r r' : Reader} (h : r.argument arg = .ok r') :
    ∃ r₀ : Reader, r₀.applySetting s attached = .ok r' := by
  cases names with
  | long name named =>
    have chars : ("--" ++ name).toList = '-' :: '-' :: name.toList := by simp
    have cut := Text.cutAtFirst_eq_none (noEquals_of_longKey? named)
    simp only [Reader.argument, chars, Reader.long, cut, Option.map_none, Option.getD_none,
      String.ofList_toList, named] at h
    exact ⟨r, h⟩
  | longWith name v named =>
    have chars : ("--" ++ name ++ "=" ++ v).toList = '-' :: '-' :: (name.toList ++ '=' :: v.toList) := by
      simp
    have cut := Text.cutAtFirst_append (noEquals_of_longKey? named) v.toList
    simp only [Reader.argument, chars, Reader.long, cut, Option.map_some, Option.getD_some,
      String.ofList_toList, named] at h
    exact ⟨r, h⟩
  | short flags c rest joined named =>
    have undashed : ∃ d ds, flags ++ c :: rest = d :: ds ∧ d ≠ '-' := by
      cases flags with
      | nil =>
        refine ⟨c, rest, rfl, ?_⟩
        rintro rfl
        cases named
      | cons f flags =>
        refine ⟨f, flags ++ c :: rest, rfl, ?_⟩
        rintro rfl
        obtain ⟨flag, key⟩ := joined '-' List.mem_cons_self
        cases key
    obtain ⟨d, ds, chars, undashed⟩ := undashed
    rw [chars, Reader.argument_joined undashed, ← chars] at h
    obtain ⟨r₀, h⟩ := Reader.short_flags joined h
    exact ⟨r₀, Reader.short_setting named r₀ rest ▸ h⟩

theorem Given.took {s : Setting} {v : String} {args : List String} (given : Given s v args)
    {r r' settled : Reader} (read : r.read args = .ok r') (settle : r'.settle = .ok settled) :
    settled.Took s v := by
  have kept := Reader.kept_took s v
  cases given with
  | attached before arg after options names =>
    rw [Reader.read_append options] at read
    obtain ⟨r₀, -, read⟩ := bind_eq_ok_iff.mp read
    rw [Reader.read_cons names.ne_dashes] at read
    obtain ⟨r₁, argument, read⟩ := bind_eq_ok_iff.mp read
    obtain ⟨_, applied⟩ := names.applySetting argument
    obtain ⟨_, -, applied⟩ := bind_eq_ok_iff.mp applied
    have took : r₁.Took s v := Reader.took_applyValue applied
    exact Reader.Carries.settle kept (Reader.Carries.read kept (.inl took) read) settle
  | next before arg after options names value =>
    rw [Reader.read_append options] at read
    obtain ⟨r₀, -, read⟩ := bind_eq_ok_iff.mp read
    rw [Reader.read_cons names.ne_dashes] at read
    obtain ⟨r₁, argument, read⟩ := bind_eq_ok_iff.mp read
    obtain ⟨_, applied⟩ := names.applySetting argument
    obtain ⟨r₂, -, applied⟩ := bind_eq_ok_iff.mp applied
    have awaiting : r₁.pending = .awaiting s := by
      cases applied
      rfl
    obtain ⟨undashed, plain⟩ := Reader.argument_plain value r₁
    have waits : r₁.plain v = .ok { r₁ with pending := .value s v } := by
      simp only [Reader.plain, awaiting]
    rw [Reader.read_cons undashed, plain, waits] at read
    have carries : Reader.Carries (Reader.Took s v) { r₁ with pending := .value s v } :=
      .inr ⟨⟨s, v, rfl⟩, fun r' settle => Reader.took_applyValue settle⟩
    exact Reader.Carries.settle kept (Reader.Carries.read kept carries read) settle

end CommandLine

theorem Arguments.holds_of_parse {args : List String} {a : Arguments} (parsed : Arguments.parse args = .ok a)
    {s : Setting} {v : String} (given : Given s v args) :
    a.Holds v s ∧ (s = .errorFile → a.noError = false) := by
  obtain ⟨r, read, parsed⟩ := bind_eq_ok_iff.mp parsed
  obtain ⟨settled, settle, checked⟩ := bind_eq_ok_iff.mp parsed
  have took := given.took read settle
  have noted : settled.Noted := by
    refine Reader.Carries.settle Reader.kept_noted ?_ settle
    have start : Reader.start.Noted := fun silent => absurd silent (by decide)
    exact Reader.Carries.read Reader.kept_noted (.inl start) read
  unfold Reader.check at checked
  dsimp only at checked
  split at checked
  · cases checked
  · rename_i compatible
    split at checked
    · cases checked
    · cases checked
      refine ⟨took.holds, fun file => ?_⟩
      subst file
      refine Bool.eq_false_iff.mpr fun silent => compatible ?_
      simp [Reader.has, noted silent, took.given]

end GcodePrep
