import GcodePrep.CommandLine.Config
import GcodePrep.Proofs.ArgumentReading

set_option autoImplicit false

/-!
# Options and environment variables

What is given on the command line is meant to win over the environment. It does for all settings but the
two depth limits: a limit that is given and happens to be the default one is taken for not given, and
the variable wins.
-/

namespace GcodePrep

open CommandLine

namespace Config

/-- The configuration works with the value that was given for the setting. -/
def Honours (c : Config) (v : String) : Setting → Prop
  | .format => checkedFormat v = .ok c.format
  | .style => checkedStyle v = .ok c.style
  | .errorFile => ∃ append, c.target = .file v append
  | .output => c.layout.directory = v
  | .controller => c.controller = some v
  | .model => c.model = some v
  | .leader => c.layout.leader = v
  | .trailer => c.layout.trailer = v
  | .extension => c.layout.extension = cleanExtension v
  | .define => ∃ d ∈ c.defines, Define.parse v = .ok d
  | .includePath => v ∈ c.inclusion.paths
  | .includeDepth => natural? v = some c.inclusion.maxDepth
  | .exprDepth => natural? v = some c.exprDepth
  | .infile => v ∈ c.inputs

structure Completes (a : Arguments) (d : Defaults) (c : Config) : Prop where
  defines : (d.defines ++ a.defines).mapM Define.parse = .ok c.defines
  inputs : chooseInputs a = .ok c.inputs
  directory : c.layout.directory = (a.output.or d.output).getD ""
  leader : c.layout.leader = (a.leader.or d.leader).getD "%"
  trailer : c.layout.trailer = (a.trailer.or d.trailer).getD "%"
  extension : c.layout.extension = cleanExtension ((a.extension.or d.extension).getD "nc")
  controller : c.controller = a.controller.or d.controller
  model : c.model = a.model.or d.model
  paths : c.inclusion.paths = d.includePaths ++ a.includePaths
  maxDepth : c.inclusion.maxDepth = chooseDepth a.includeDepth Inclusion.defaultDepth d.includeDepth
  exprDepth : c.exprDepth = chooseDepth a.exprDepth defaultExprDepth d.exprDepth
  format : c.format = a.format
  style : c.style = a.style
  target : c.target = chooseTarget a d

theorem completes_of_ofDefaults {a : Arguments} {d : Defaults} {c : Config}
    (h : ofDefaults a d = .ok c) : Completes a d c := by
  unfold ofDefaults at h
  obtain ⟨defines, parsed, h⟩ := bind_eq_ok_iff.mp h
  dsimp only at h
  split at h
  · cases h
  · obtain ⟨inputs, chosen, h⟩ := bind_eq_ok_iff.mp h
    split at h
    · cases h
    · split at h
      · cases h
      · cases h
        exact ⟨parsed, chosen, rfl, rfl, rfl, rfl, rfl, rfl, rfl, rfl, rfl, rfl, rfl, rfl⟩

theorem depths_of_read {vars : Variables} {d : Defaults} (h : Defaults.read vars = .ok d) :
    vars.natural "GPLUS_INCLUDE_DEPTH" = .ok d.includeDepth ∧
      vars.natural "GPLUS_EXPR_DEPTH" = .ok d.exprDepth := by
  unfold Defaults.read at h
  obtain ⟨progName, -, h⟩ := bind_eq_ok_iff.mp h
  obtain ⟨verbose, -, h⟩ := bind_eq_ok_iff.mp h
  obtain ⟨includeDepth, first, h⟩ := bind_eq_ok_iff.mp h
  obtain ⟨exprDepth, second, h⟩ := bind_eq_ok_iff.mp h
  obtain ⟨quiet, -, h⟩ := bind_eq_ok_iff.mp h
  obtain ⟨noWarn, -, h⟩ := bind_eq_ok_iff.mp h
  obtain ⟨warnError, -, h⟩ := bind_eq_ok_iff.mp h
  obtain ⟨errorAppend, -, h⟩ := bind_eq_ok_iff.mp h
  obtain ⟨noError, -, h⟩ := bind_eq_ok_iff.mp h
  cases h
  exact ⟨first, second⟩

/-- A variable takes the place of the value that was given: a depth limit equal to the default one. -/
def Overridden (v : String) (vars : Variables) : Setting → Prop
  | .includeDepth => natural? v = some Inclusion.defaultDepth ∧
      ∃ n, vars.natural "GPLUS_INCLUDE_DEPTH" = .ok (some n) ∧ n ≠ Inclusion.defaultDepth
  | .exprDepth => natural? v = some defaultExprDepth ∧
      ∃ n, vars.natural "GPLUS_EXPR_DEPTH" = .ok (some n) ∧ n ≠ defaultExprDepth
  | _ => False

theorem chooseDepth_eq_given_iff (given default : Nat) (fromVariable : Option Nat) :
    chooseDepth given default fromVariable = given ↔
      ¬ (given = default ∧ ∃ n, fromVariable = some n ∧ n ≠ default) := by
  unfold chooseDepth
  by_cases same : given = default
  · subst same
    cases fromVariable <;> simp
  · simp [same]

theorem depth_iff {v : String} {given chosen default : Nat}
    {answer : Except ConfigError (Option Nat)} {fromVariable : Option Nat}
    (holds : natural? v = some given) (read : answer = .ok fromVariable)
    (done : chosen = chooseDepth given default fromVariable) :
    natural? v = some chosen ↔
      ¬ (natural? v = some default ∧ ∃ n, answer = .ok (some n) ∧ n ≠ default) := by
  have chosen_iff := chooseDepth_eq_given_iff given default fromVariable
  rw [← done] at chosen_iff
  rw [holds, read, Option.some.injEq, Option.some.injEq, eq_comm, chosen_iff]
  simp only [Except.ok.injEq]

theorem mem_of_chooseInputs {a : Arguments} {inputs : List String} (h : chooseInputs a = .ok inputs)
    {v : String} (mem : v ∈ a.infiles) : v ∈ inputs := by
  unfold chooseInputs at h
  cases infiles : a.infiles with
  | nil =>
    rw [infiles] at mem
    cases mem
  | cons first rest =>
    rw [infiles] at h mem
    cases positional : a.inputs with
    | nil =>
      rw [positional] at h
      cases h
      exact mem
    | cons _ _ =>
      rw [positional] at h
      cases h

theorem parsed_of_mapM {texts : List String} {defines : List Define}
    (h : texts.mapM Define.parse = .ok defines) {v : String} (mem : v ∈ texts) :
    ∃ d ∈ defines, Define.parse v = .ok d := by
  induction texts generalizing defines with
  | nil => cases mem
  | cons text texts ih =>
    rw [List.mapM_cons] at h
    obtain ⟨first, parsed, h⟩ := bind_eq_ok_iff.mp h
    obtain ⟨rest, more, h⟩ := bind_eq_ok_iff.mp h
    cases h
    rcases List.mem_cons.mp mem with rfl | mem
    · exact ⟨first, List.mem_cons_self, parsed⟩
    · obtain ⟨d, mem, parsed⟩ := ih more mem
      exact ⟨d, List.mem_cons_of_mem _ mem, parsed⟩

theorem honours_iff {a : Arguments} {s : Setting} {v : String} (holds : a.Holds v s)
    (loud : s = .errorFile → a.noError = false) {vars : Variables} {c : Config}
    (valid : validate a vars = .ok c) : c.Honours v s ↔ ¬ Overridden v vars s := by
  obtain ⟨d, read, valid⟩ := bind_eq_ok_iff.mp valid
  have done := completes_of_ofDefaults valid
  obtain ⟨includeDepth, exprDepth⟩ := depths_of_read read
  cases s with
  | output | leader | trailer | extension | controller | model =>
    refine iff_of_true ?_ id
    simp only [Arguments.Holds] at holds
    simp only [Honours, done.directory, done.leader, done.trailer, done.extension, done.controller,
      done.model, holds, Option.some_or, Option.getD_some]
  | format | style =>
    refine iff_of_true ?_ id
    simp only [Honours, done.format, done.style]
    exact holds
  | define => exact iff_of_true (parsed_of_mapM done.defines (List.mem_append_right _ holds)) id
  | includePath =>
    refine iff_of_true ?_ id
    simp only [Honours, done.paths]
    exact List.mem_append_right _ holds
  | infile => exact iff_of_true (mem_of_chooseInputs done.inputs holds) id
  | errorFile =>
    refine iff_of_true ⟨a.errorAppend || d.errorAppend.getD false, done.target.trans ?_⟩ id
    simp [chooseTarget, loud rfl, show a.errorFile = some v from holds]
  | includeDepth => exact depth_iff holds includeDepth done.maxDepth
  | exprDepth => exact depth_iff holds exprDepth done.exprDepth

/-- Two environments under which a command line makes a configuration: in both the value that was given
is the one that counts, except for a depth limit that was given as the default one, where a variable with
another number takes its place. -/
theorem given_values_win_iff {args : List String} {a : Arguments} (parsed : Arguments.parse args = .ok a)
    {s : Setting} {v : String} (given : Given s v args) {vars vars' : Variables} {c c' : Config}
    (valid : validate a vars = .ok c) (valid' : validate a vars' = .ok c') :
    c.Honours v s ∧ c'.Honours v s ↔ ¬ (Overridden v vars s ∨ Overridden v vars' s) := by
  obtain ⟨holds, loud⟩ := Arguments.holds_of_parse parsed given
  rw [honours_iff holds loud valid, honours_iff holds loud valid', not_or]

def shallow : Variables := fun name => if name = "GPLUS_INCLUDE_DEPTH" then some "8" else none

theorem limit_of_four_wins : ∃ a c c',
    Arguments.parse ["-qo", "out", "--include-depth=4", "a.gp"] = .ok a ∧
      validate a shallow = .ok c ∧ validate a (fun _ => none) = .ok c' ∧
      c.Honours "4" .includeDepth ∧ c'.Honours "4" .includeDepth := by
  have names : Names .includeDepth "--include-depth=4" (some "4") := .longWith "include-depth" "4" rfl
  have given : Given .includeDepth "4" ["-qo", "out", "--include-depth=4", "a.gp"] :=
    .attached ["-qo", "out"] _ ["a.gp"] (by decide) names
  have parsed : ∃ a, Arguments.parse ["-qo", "out", "--include-depth=4", "a.gp"] = .ok a ∧
      (∃ c, validate a shallow = .ok c) ∧ ∃ c', validate a (fun _ => none) = .ok c' :=
    ⟨_, rfl, ⟨_, rfl⟩, ⟨_, rfl⟩⟩
  obtain ⟨a, parsed, ⟨c, valid⟩, c', valid'⟩ := parsed
  have other : natural? "4" ≠ some Inclusion.defaultDepth := by decide
  have kept : ¬ (Overridden "4" shallow .includeDepth ∨ Overridden "4" (fun _ => none) .includeDepth) := by
    rintro (overridden | overridden)
    · exact other overridden.1
    · exact other overridden.1
  exact ⟨a, c, c', parsed, valid, valid', (given_values_win_iff parsed given valid valid').mpr kept⟩

/-- A limit that is given as the default one is not kept: the variable decides. -/
theorem default_limit_overridden : ∃ a c c',
    Arguments.parse ["--include-depth", "64", "a.gp"] = .ok a ∧
      Given .includeDepth "64" ["--include-depth", "64", "a.gp"] ∧
      validate a shallow = .ok c ∧ validate a (fun _ => none) = .ok c' ∧
      c.inclusion.maxDepth = 8 ∧ c'.inclusion.maxDepth = 64 ∧ ¬ c.Honours "64" .includeDepth := by
  have names : Names .includeDepth "--include-depth" none := .long "include-depth" rfl
  have given : Given .includeDepth "64" ["--include-depth", "64", "a.gp"] :=
    .next [] _ ["a.gp"] (by decide) names (.inr (by decide))
  refine ⟨_, _, _, rfl, given, rfl, rfl, rfl, rfl, ?_⟩
  change ¬ natural? "64" = some 8
  decide

end Config

end GcodePrep
