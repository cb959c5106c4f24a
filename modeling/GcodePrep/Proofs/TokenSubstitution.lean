import GcodePrep.Proofs.NameEvaluation
import GcodePrep.Substitution
import Mathlib.Data.List.TakeWhile

set_option autoImplicit false

/-!
# Lines with at most one token

A line without `@` passes through both passes as it is. In a line that ends in a bare token, the token
is replaced by the value of its name, and the second pass finds nothing to do as long as that value
holds no `@`.
-/

namespace GcodePrep

namespace Segment

theorem splitFrom_plain (form : TokenForm) {cs : List Char} (tokenless : '@' ∉ cs) (rest : List Char) :
    splitFrom form 0 (cs ++ rest) = cs.map plain ++ splitFrom form 0 rest := by
  induction cs with
  | nil => rfl
  | cons c cs ih =>
    obtain ⟨first, others⟩ := not_or.mp (List.mem_cons.not.mp tokenless)
    simp [splitFrom, Ne.symm first, ih others]

theorem splitFrom_skip (form : TokenForm) (cs : List Char) : splitFrom form cs.length cs = [] := by
  induction cs with
  | nil => rfl
  | cons c cs ih => exact ih

theorem splitFrom_bare {word : List Char} (nonempty : word ≠ [])
    (chars : ∀ c ∈ word, Text.isWordChar c = true) :
    splitFrom .bare 0 ('@' :: word) = [token ('@' :: word) word] := by
  have whole : word.takeWhile Text.isWordChar = word := List.takeWhile_eq_self_iff.mpr chars
  simp [splitFrom, tokenAt?, whole, nonempty, splitFrom_skip]

end Segment

namespace Resolution

theorem ofSegments_plain (cs : List Char) (rest : List Segment) (env : Environment) :
    ofSegments (cs.map .plain ++ rest) env =
      ({ (ofSegments rest env).1 with text := cs ++ (ofSegments rest env).1.text },
        (ofSegments rest env).2) := by
  induction cs with
  | nil => rfl
  | cons c cs ih => simp [ofSegments, ih]

theorem pass_tokenless (form : TokenForm) {s : String} (tokenless : '@' ∉ s.toList) (env : Environment) :
    pass form s env = (⟨s.toList, [], []⟩, env) := by
  have split : Segment.split form s = s.toList.map .plain ++ [] := by
    have h := Segment.splitFrom_plain form tokenless []
    rw [List.append_nil] at h
    exact h
  rw [pass, split, ofSegments_plain]
  simp [ofSegments, empty]

section Bare

variable {start name : String} (tokenless : '@' ∉ start.toList) (isName : IsName name)

include tokenless isName

theorem split_bare : Segment.split .bare (start ++ "@" ++ name) =
    start.toList.map .plain ++ [.token ('@' :: name.toList) name.toList] := by
  have word : name.toList ≠ [] := isName.toList_ne_nil
  rw [← Segment.splitFrom_bare word isName.isWordChar_of_mem,
    ← Segment.splitFrom_plain .bare tokenless, Segment.split]
  simp

theorem pass_bare_of_ok {env env' : Environment} {value : Value}
    (ok : env.eval name = (.ok value, env')) :
    pass .bare (start ++ "@" ++ name) env =
      (⟨start.toList ++ value.text.toList, [value.text ++ "=" ++ name], []⟩, env') := by
  rw [pass, split_bare tokenless isName, ofSegments_plain]
  simp [ofSegments, ok, empty]

theorem pass_bare_of_error {env env' : Environment} {fault : Fault}
    (error : env.eval name = (.error fault, env')) :
    pass .bare (start ++ "@" ++ name) env =
      (⟨start.toList ++ '@' :: name.toList, [], [(name, fault.message)]⟩, env') := by
  rw [pass, split_bare tokenless isName, ofSegments_plain]
  simp [ofSegments, error, empty]

end Bare

end Resolution

theorem resolveLine_tokenless {s : String} (tokenless : '@' ∉ s.toList) (env : Environment) :
    resolveLine s env = (⟨s, [], [], []⟩, env) := by
  simp only [resolveLine, Resolution.pass_tokenless _ tokenless, String.ofList_toList,
    List.append_nil]

namespace Record

theorem withNotes_text (r : Record) (line : ResolvedLine) : (r.withNotes line).text = r.text := by
  unfold withNotes
  dsimp only
  split <;> split <;> rfl

theorem resolve_tokenless {r : Record} {text : String} (has : r.text = some text)
    (tokenless : '@' ∉ text.toList) (env : Environment) : r.resolve env = (r, [], env) := by
  obtain ⟨origin, outLine, _, comment⟩ := r
  cases has
  simp only [resolve, resolveLine_tokenless tokenless]
  split <;> simp [withNotes, ResolveFailure.ofPairs]

section Label

variable {r : Record} {start name : String} (has : r.text = some (start ++ "@" ++ name))
  (tokenless : '@' ∉ start.toList) (isName : IsName name) {env : Environment}

include has tokenless isName

omit tokenless isName in
theorem resolve_token :
    r.resolve env =
      let (line, env) := resolveLine (start ++ "@" ++ name) env
      ({ r with text := some line.text }.withNotes line,
        ResolveFailure.ofPairs r.origin line.failures, env) := by
  -- A line with a token is never empty, so both passes run.
  have given : (start ++ "@" ++ name).isEmpty = false := by simp
  simp [resolve, has, given]

theorem resolve_name {value : Value} (ok : env.eval name = (.ok value, env))
    (plain : '@' ∉ value.text.toList) :
    ∃ r', r.resolve env = (r', [], env) ∧ r'.text = some (start ++ value.text) := by
  have text : String.ofList (start.toList ++ value.text.toList) = start ++ value.text := by simp
  have tokenless' : '@' ∉ (start ++ value.text).toList := by simp [tokenless, plain]
  have line : resolveLine (start ++ "@" ++ name) env =
      (⟨start ++ value.text, [value.text ++ "=" ++ name], [], []⟩, env) := by
    simp only [resolveLine, Resolution.pass_bare_of_ok tokenless isName ok, text,
      Resolution.pass_tokenless _ tokenless', String.ofList_toList, List.append_nil]
  rw [resolve_token has, line]
  exact ⟨_, rfl, withNotes_text ..⟩

theorem resolve_name_of_error {fault : Fault} (error : env.eval name = (.error fault, env)) :
    (r.resolve env).2.1 ≠ [] := by
  rw [resolve_token has]
  simp [resolveLine, Resolution.pass_bare_of_error tokenless isName error, ResolveFailure.ofPairs]

end Label

end Record

end GcodePrep
