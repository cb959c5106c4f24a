import GcodePrep.Proofs.SwitchCompilation

set_option autoImplicit false

/-!
# Bodies with the ends of their jumps

`compile` writes label names, which say how deep a switch is nested but not which switch it is. An
outline is assembled into blocks that name the very case, default or end they label or jump to; the
compiled text is what these blocks look like before the names are replaced by numbers.
-/

namespace GcodePrep

/-- What a block labels or jumps to: a case of a switch, its default case, or its end. A switch is
known by its rank among the switches beside it, followed by the same for the one around it. -/
inductive Target where
  | case (switch : List Nat) (index : Nat)
  | default (switch : List Nat)
  | finish (switch : List Nat)
  deriving DecidableEq, Repr

def Target.label : Target → SwitchLabel
  | case switch index => .case switch.length index
  | default switch => .default switch.length
  | finish switch => .finish switch.length

inductive Block where
  | plain (text : String)
  | label (target : Target)
  | jump (condition : String) (target : Target)
  deriving DecidableEq, Repr

namespace Block

def render (name : Target → String) : Block → String
  | plain text => text
  | label target => "N" ++ name target
  | jump condition target => condition ++ "GOTO" ++ name target

def target? : Block → Option Target
  | plain _ => none
  | label target | jump _ target => some target

def label? : Block → Option Target
  | label target => some target
  | plain _ | jump _ _ => none

def jump? : Block → Option Target
  | jump _ target => some target
  | plain _ | label _ => none

def labels (blocks : List Block) : List Target := blocks.filterMap label?

def jumps (blocks : List Block) : List Target := blocks.filterMap jump?

/-- Nothing but the target can hold a token. -/
def Tokenless : Block → Prop
  | plain text => '@' ∉ text.toList
  | label _ => True
  | jump condition _ => '@' ∉ condition.toList

end Block

namespace Outline

def caseJumps (subject : String) (position : List Nat) : (index : Nat) → List String → List Block
  | _, [] => []
  | index, value :: values =>
    .jump ("IF[" ++ subject ++ " EQ " ++ value ++ "] ") (.case position index) ::
      caseJumps subject position (index + 1) values

def otherwise (position : List Nat) (hasDefault : Bool) : Target :=
  if hasDefault then .default position else .finish position

/-- The blocks of an outline inside of the switch at `position`, behind `index` of its cases and `count`
of the switches in it. -/
def assemble : {scope : Scope} → (position : List Nat) → (index count : Nat) → Outline scope → List Block
  | _, _, _, _, .done => []
  | _, position, index, count, .line text rest => .plain text.text :: rest.assemble position index count
  | _, position, index, count, .leave rest =>
    .jump "" (.finish position) :: rest.assemble position index count
  | _, position, index, count, .case _ rest =>
    .label (.case position (index + 1)) :: rest.assemble position (index + 1) count
  | _, position, index, count, .default rest =>
    .label (.default position) :: rest.assemble position index count
  | _, position, index, count, .switch subject inner rest =>
    caseJumps subject.text (count :: position) 1 inner.caseValues ++
      .jump "" (otherwise (count :: position) inner.hasDefault) ::
      (inner.assemble (count :: position) 0 0 ++
        .label (.finish (count :: position)) :: rest.assemble position index (count + 1))

def Tokenless : {scope : Scope} → Outline scope → Prop
  | _, .done => True
  | _, .line _ rest | _, .leave rest | _, .default rest => rest.Tokenless
  | _, .case value rest => '@' ∉ value.text.toList ∧ rest.Tokenless
  | _, .switch subject inner rest =>
    '@' ∉ subject.text.toList ∧ inner.Tokenless ∧ rest.Tokenless

instance decidableTokenless : {scope : Scope} → (o : Outline scope) → Decidable o.Tokenless
  | _, .done => .isTrue trivial
  | _, .line _ rest | _, .leave rest | _, .default rest => decidableTokenless rest
  | _, .case value rest =>
    have := decidableTokenless rest
    inferInstanceAs (Decidable ('@' ∉ value.text.toList ∧ rest.Tokenless))
  | _, .switch subject inner rest =>
    have := decidableTokenless inner
    have := decidableTokenless rest
    inferInstanceAs (Decidable ('@' ∉ subject.text.toList ∧ inner.Tokenless ∧ rest.Tokenless))

def tokenName (target : Target) : String := "@" ++ target.label.name

open Reference

theorem caseBranches_eq (subject : String) (position : List Nat) (index : Nat) (values : List String) :
    caseBranches subject position.length index values =
      (caseJumps subject position index values).map (Block.render tokenName) := by
  induction values generalizing index with
  | nil => rfl
  | cons value values ih =>
    simp only [caseBranches, caseJumps, List.map_cons, ih, List.cons.injEq, and_true]
    rw [← String.toList_inj]
    simp [Block.render, tokenName, Target.label, SwitchLabel.name]

theorem compile_eq_assemble {scope : Scope} (o : Outline scope) (position : List Nat) (index count : Nat) :
    o.compile position.length index = (o.assemble position index count).map (Block.render tokenName) := by
  induction o generalizing position index count with
  | done => rfl
  | line text rest ih => simp [compile, assemble, Block.render, ih position index count]
  | leave rest ih =>
    simp only [compile, assemble, List.map_cons, ih position index count, List.cons.injEq, and_true]
    rw [← jumpLine_finish, ← String.toList_inj]
    simp [Block.render, tokenName, Target.label, SwitchLabel.jumpLine]
  | case value rest ih =>
    simp only [compile, assemble, List.map_cons, ih position (index + 1) count, List.cons.injEq, and_true]
    rw [← labelLine_case, ← String.toList_inj]
    simp [Block.render, tokenName, Target.label, SwitchLabel.labelLine]
  | default rest ih =>
    simp only [compile, assemble, List.map_cons, ih position index count, List.cons.injEq, and_true]
    rw [← labelLine_default, ← String.toList_inj]
    simp [Block.render, tokenName, Target.label, SwitchLabel.labelLine]
  | switch subject inner rest ihInner ihRest =>
    have inner_eq := ihInner (count :: position) 0 0
    have table_eq := caseBranches_eq subject.text (count :: position) 1 inner.caseValues
    have rest_eq := ihRest position index (count + 1)
    rw [List.length_cons] at inner_eq table_eq
    have finish : "N@__" ++ toString (position.length + 1) ++ "_endswitch" =
        (Block.label (.finish (count :: position))).render tokenName := by
      rw [← labelLine_finish, ← String.toList_inj]
      simp [Block.render, tokenName, Target.label, SwitchLabel.labelLine]
    have fallback : (if inner.hasDefault then "GOTO@__" ++ toString (position.length + 1) ++ "_default"
        else "GOTO@__" ++ toString (position.length + 1) ++ "_endswitch") =
        (Block.jump "" (otherwise (count :: position) inner.hasDefault)).render tokenName := by
      rw [← jumpLine_default, ← jumpLine_finish, ← String.toList_inj]
      cases inner.hasDefault <;>
        simp [Block.render, tokenName, otherwise, Target.label, SwitchLabel.jumpLine]
    simp only [compile, table, assemble, inner_eq, table_eq, rest_eq, finish, fallback, List.map_append,
      List.map_cons, List.append_assoc, List.nil_append, List.cons_append]

theorem labels_append (xs ys : List Block) :
    Block.labels (xs ++ ys) = Block.labels xs ++ Block.labels ys :=
  List.filterMap_append

theorem jumps_append (xs ys : List Block) :
    Block.jumps (xs ++ ys) = Block.jumps xs ++ Block.jumps ys :=
  List.filterMap_append

theorem labels_caseJumps (subject : String) (position : List Nat) (index : Nat) (values : List String) :
    Block.labels (caseJumps subject position index values) = [] := by
  induction values generalizing index with
  | nil => rfl
  | cons value values ih => exact ih (index + 1)

theorem labels_assemble_switch {scope : Scope} (subject : Argument) (inner : Outline (.switch false))
    (rest : Outline scope) (position : List Nat) (index count : Nat) :
    Block.labels ((switch subject inner rest).assemble position index count) =
      Block.labels (inner.assemble (count :: position) 0 0) ++
        .finish (count :: position) :: Block.labels (rest.assemble position index (count + 1)) := by
  rw [assemble, labels_append, labels_caseJumps, List.nil_append]
  exact labels_append (inner.assemble (count :: position) 0 0) (.label (.finish (count :: position)) :: _)

theorem jumps_assemble_switch {scope : Scope} (subject : Argument) (inner : Outline (.switch false))
    (rest : Outline scope) (position : List Nat) (index count : Nat) :
    Block.jumps ((switch subject inner rest).assemble position index count) =
      Block.jumps (caseJumps subject.text (count :: position) 1 inner.caseValues) ++
        otherwise (count :: position) inner.hasDefault ::
        (Block.jumps (inner.assemble (count :: position) 0 0) ++
          Block.jumps (rest.assemble position index (count + 1))) := by
  rw [assemble, jumps_append]
  exact congrArg (_ ++ _ :: ·)
    (jumps_append (inner.assemble (count :: position) 0 0) (.label (.finish (count :: position)) :: _))

theorem labels_assemble {scope : Scope} (o : Outline scope) (position : List Nat) (index count n : Nat) :
    (Block.labels (o.assemble position index count)).map Target.label =
      (o.labels position.length index n).map Prod.fst := by
  induction o generalizing position index count n with
  | done => rfl
  | line _ rest ih | leave rest ih => exact ih position index count (n + 1)
  | case value rest ih => exact congrArg (_ :: ·) (ih position (index + 1) count (n + 1))
  | default rest ih => exact congrArg (_ :: ·) (ih position index count (n + 1))
  | switch subject inner rest ihInner ihRest =>
    have inside := ihInner (count :: position) 0 0 n
    have behind := ihRest position index (count + 1) (n + inner.emitted + 1)
    rw [labels_assemble_switch, List.map_append, inside, labels, List.map_append]
    exact congrArg (_ ++ _ :: ·) behind

theorem labels_bounds {scope : Scope} (o : Outline scope) (depth index n : Nat) :
    ∀ l ∈ o.labels depth index n, n ≤ l.2 ∧ l.2 < n + o.emitted := by
  induction o generalizing depth index n with
  | done => simp [labels]
  | line _ rest ih | leave rest ih =>
    intro l mem
    have := ih depth index (n + 1) l mem
    simp only [emitted]
    omega
  | case value rest ih =>
    intro l mem
    simp only [emitted]
    rcases List.mem_cons.mp mem with rfl | mem
    · exact ⟨Nat.le_refl n, by dsimp only; omega⟩
    · have := ih depth (index + 1) (n + 1) l mem
      omega
  | default rest ih =>
    intro l mem
    simp only [emitted]
    rcases List.mem_cons.mp mem with rfl | mem
    · exact ⟨Nat.le_refl n, by dsimp only; omega⟩
    · have := ih depth index (n + 1) l mem
      omega
  | switch subject inner rest ihInner ihRest =>
    intro l mem
    simp only [emitted]
    rcases List.mem_append.mp mem with mem | mem
    · have := ihInner (depth + 1) 0 n l mem
      omega
    · rcases List.mem_cons.mp mem with rfl | mem
      · dsimp only
        omega
      · have := ihRest depth index (n + inner.emitted + 1) l mem
        omega

theorem labels_increasing {scope : Scope} (o : Outline scope) (depth index n : Nat) :
    (o.labels depth index n).Pairwise (·.2 < ·.2) := by
  induction o generalizing depth index n with
  | done => exact .nil
  | line _ rest ih | leave rest ih => exact ih depth index (n + 1)
  | case value rest ih =>
    refine .cons (fun l mem => ?_) (ih depth (index + 1) (n + 1))
    exact (labels_bounds rest depth (index + 1) (n + 1) l mem).1
  | default rest ih =>
    refine .cons (fun l mem => ?_) (ih depth index (n + 1))
    exact (labels_bounds rest depth index (n + 1) l mem).1
  | switch subject inner rest ihInner ihRest =>
    have inside := labels_bounds inner (depth + 1) 0 n
    have behind := labels_bounds rest depth index (n + inner.emitted + 1)
    refine List.pairwise_append.mpr ⟨ihInner (depth + 1) 0 n,
      .cons (fun l mem => (behind l mem).1) (ihRest depth index (n + inner.emitted + 1)), ?_⟩
    intro l mem l' mem'
    have upper := (inside l mem).2
    rcases List.mem_cons.mp mem' with rfl | mem'
    · exact upper
    · have := (behind l' mem').1
      omega

theorem emitted_le_length {scope : Scope} (o : Outline scope) : o.emitted ≤ o.source.length := by
  induction o with
  | done => exact Nat.le_refl 0
  | line _ rest ih | leave rest ih | case _ rest ih | default rest ih =>
    simp only [emitted, source, List.length_cons]
    omega
  | switch subject inner rest ihInner ihRest =>
    simp only [emitted, source, List.length_cons, List.length_append]
    omega

theorem mem_labels_case {scope : Scope} (o : Outline scope) (position : List Nat)
    (index count k : Nat) (above : index < k) (below : k ≤ index + o.caseValues.length) :
    .case position k ∈ Block.labels (o.assemble position index count) := by
  induction o generalizing index count with
  | done => simp [caseValues] at below; omega
  | line _ rest ih | leave rest ih => exact ih index count above below
  | default rest ih => exact List.mem_cons_of_mem _ (ih index count above below)
  | case value rest ih =>
    simp only [caseValues, List.length_cons] at below
    by_cases first : k = index + 1
    · subst first
      exact List.mem_cons_self
    · exact List.mem_cons_of_mem _ (ih (index + 1) count (by omega) (by omega))
  | switch subject inner rest _ ih =>
    rw [labels_assemble_switch]
    exact List.mem_append_right _ (List.mem_cons_of_mem _ (ih index (count + 1) above below))

theorem mem_labels_default {scope : Scope} (o : Outline scope) (position : List Nat)
    (index count : Nat) (has : o.hasDefault = true) :
    .default position ∈ Block.labels (o.assemble position index count) := by
  induction o generalizing index count with
  | done => cases has
  | line _ rest ih | leave rest ih => exact ih index count has
  | case _ rest ih => exact List.mem_cons_of_mem _ (ih (index + 1) count has)
  | default rest => exact List.mem_cons_self
  | switch subject inner rest _ ih =>
    rw [labels_assemble_switch]
    exact List.mem_append_right _ (List.mem_cons_of_mem _ (ih index (count + 1) has))

theorem mem_jumps_caseJumps {subject : String} {position : List Nat} {index : Nat} {values : List String}
    {t : Target} (h : t ∈ Block.jumps (caseJumps subject position index values)) :
    ∃ k, t = .case position k ∧ index ≤ k ∧ k < index + values.length := by
  induction values generalizing index with
  | nil => cases h
  | cons value values ih =>
    rcases List.mem_cons.mp h with rfl | h
    · exact ⟨index, rfl, Nat.le_refl index, by simp⟩
    · obtain ⟨k, rfl, lower, upper⟩ := ih h
      exact ⟨k, rfl, by omega, by simp only [List.length_cons]; omega⟩

/-- Every jump ends at a label of the outline, or it leaves the switch around the outline. -/
theorem mem_labels_of_mem_jumps {scope : Scope} (o : Outline scope) (position : List Nat)
    (index count : Nat) {t : Target} (h : t ∈ Block.jumps (o.assemble position index count)) :
    t ∈ Block.labels (o.assemble position index count) ∨ scope ≠ .body ∧ t = .finish position := by
  induction o generalizing position index count with
  | done => cases h
  | line _ rest ih => exact ih position index count h
  | leave rest ih =>
    rcases List.mem_cons.mp h with rfl | h
    · exact .inr ⟨nofun, rfl⟩
    · exact ih position index count h
  | case _ rest ih => exact (ih position (index + 1) count h).imp_left (List.mem_cons_of_mem _)
  | default rest ih =>
    rcases ih position index count h with mem | ⟨-, rfl⟩
    · exact .inl (List.mem_cons_of_mem _ mem)
    · exact .inr ⟨nofun, rfl⟩
  | switch subject inner rest ihInner ihRest =>
    rw [labels_assemble_switch]
    have finish : Target.finish (count :: position) ∈
        Block.labels (inner.assemble (count :: position) 0 0) ++
          .finish (count :: position) :: Block.labels (rest.assemble position index (count + 1)) :=
      List.mem_append_right _ List.mem_cons_self
    rw [jumps_assemble_switch, List.mem_append, List.mem_cons, List.mem_append] at h
    rcases h with table | fallback | inside | behind
    · obtain ⟨k, rfl, lower, upper⟩ := mem_jumps_caseJumps table
      exact .inl (List.mem_append_left _ (inner.mem_labels_case _ 0 0 k (by omega) (by omega)))
    · subst fallback
      unfold otherwise
      split
      · rename_i has
        exact .inl (List.mem_append_left _ (inner.mem_labels_default _ 0 0 has))
      · exact .inl finish
    · rcases ihInner (count :: position) 0 0 inside with mem | ⟨-, rfl⟩
      · exact .inl (List.mem_append_left _ mem)
      · exact .inl finish
    · rcases ihRest position index (count + 1) behind with mem | outer
      · exact .inl (List.mem_append_right _ (List.mem_cons_of_mem _ mem))
      · exact .inr outer

theorem tokenless_caseJumps {subject : String} (tokenless : '@' ∉ subject.toList) (position : List Nat)
    (index : Nat) {values : List String} (others : ∀ value ∈ values, '@' ∉ value.toList) :
    ∀ b ∈ caseJumps subject position index values, b.Tokenless := by
  induction values generalizing index with
  | nil => nofun
  | cons value values ih =>
    have value_tokenless := others value List.mem_cons_self
    rintro b (_ | ⟨_, mem⟩)
    · simp [Block.Tokenless, tokenless, value_tokenless]
    · exact ih (index + 1) (fun v mem => others v (List.mem_cons_of_mem _ mem)) b mem

theorem Tokenless.caseValues {scope : Scope} {o : Outline scope} (h : o.Tokenless) :
    ∀ value ∈ o.caseValues, '@' ∉ value.toList := by
  induction o with
  | done => nofun
  | line _ rest ih | leave rest ih | default rest ih => exact ih h
  | case value rest ih =>
    rintro v (_ | ⟨_, mem⟩)
    · exact h.1
    · exact ih h.2 v mem
  | switch subject inner rest _ ih => exact ih h.2.2

theorem Tokenless.assemble {scope : Scope} {o : Outline scope} (h : o.Tokenless) (position : List Nat)
    (index count : Nat) : ∀ b ∈ o.assemble position index count, b.Tokenless := by
  induction o generalizing position index count with
  | done => nofun
  | line text rest ih =>
    rintro b (_ | ⟨_, mem⟩)
    · exact text.tokenless
    · exact ih h position index count b mem
  | leave rest ih =>
    rintro b (_ | ⟨_, mem⟩)
    · simp [Block.Tokenless]
    · exact ih h position index count b mem
  | case value rest ih =>
    rintro b (_ | ⟨_, mem⟩)
    · trivial
    · exact ih h.2 position (index + 1) count b mem
  | default rest ih =>
    rintro b (_ | ⟨_, mem⟩)
    · trivial
    · exact ih h position index count b mem
  | switch subject inner rest ihInner ihRest =>
    obtain ⟨plain, inside, behind⟩ := h
    intro b mem
    simp only [Outline.assemble, List.mem_append, List.mem_cons] at mem
    rcases mem with mem | rfl | mem | rfl | mem
    · exact tokenless_caseJumps plain _ 1 inside.caseValues b mem
    · simp [Block.Tokenless]
    · exact ihInner inside _ 0 0 b mem
    · trivial
    · exact ihRest behind position index (count + 1) b mem

end Outline

end GcodePrep
