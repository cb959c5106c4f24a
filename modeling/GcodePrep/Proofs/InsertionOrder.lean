import GcodePrep.Proofs.Catalogue
import Mathlib.Data.List.Induction
import Mathlib.Data.List.Nodup

set_option autoImplicit false

/-!
# The catalogue is a map in order of insertion

Programs and index are changed apart from each other: a program that replaces another leaves the index
as it is, a new one is put at the end of both. Whatever is inserted, the names stand in the order in
which they first came, each of them once, the index leads to them, and under each name is the program
that came last.
-/

namespace GcodePrep

namespace Catalogue

section

variable (c : Catalogue) (p : Program)

theorem fst_insert : (c.insert p).1 = c.get? p.name := by
  unfold insert get?
  split
  · rename_i found
    simp only [found]
    rfl
  · rename_i found
    simp only [found]
    rfl

theorem get?_insert (name : String) :
    (c.insert p).2.get? name = if p.name = name then some p else c.get? name := by
  rw [get?_eq_bind, programs_insert, index_insert, get?_eq_bind]
  cases found : c.index.lookup p.name with
  | some i =>
    obtain ⟨inside, named⟩ := c.exists_name_of_lookup found
    dsimp only
    split
    · rename_i same
      rw [← same, found, Option.bind_some, List.getElem?_set_self inside]
    · rename_i other
      cases there : c.index.lookup name with
      | none => rfl
      | some j =>
        -- Another name has another position, which the replacement does not touch.
        have apart : i ≠ j := by
          rintro rfl
          obtain ⟨_, named'⟩ := c.exists_name_of_lookup there
          exact other (named.symm.trans named')
        rw [Option.bind_some, Option.bind_some, List.getElem?_set_ne apart]
  | none =>
    dsimp only
    rw [List.lookup_append]
    split
    · rename_i same
      rw [← same, found]
      simp
    · rename_i other
      cases there : c.index.lookup name with
      | none =>
        have absent : [(p.name, c.programs.length)].lookup name = none :=
          List.lookup_eq_none_iff.mpr (by simpa using Ne.symm other)
        rw [absent]
        rfl
      | some j =>
        obtain ⟨inside, -⟩ := c.exists_name_of_lookup there
        rw [Option.some_or, Option.bind_some, Option.bind_some, List.getElem?_append_left inside]

theorem names_insert : (c.insert p).2.programs.map Program.name =
    if p.name ∈ c.programs.map Program.name then c.programs.map Program.name
    else c.programs.map Program.name ++ [p.name] := by
  obtain ⟨i, same, -, eq⟩ | ⟨new, eq⟩ := c.insert_cases p <;> rw [eq]
  · rw [if_pos (List.mem_map.mpr ⟨c.programs.get i, List.get_mem _ _, same⟩)]
    exact c.names_set same
  · rw [if_neg (by simpa using new)]
    exact List.map_append

end

theorem lookup_eq_some_iff {c : Catalogue} (distinct : (c.programs.map Program.name).Nodup) {name : String}
    {i : Nat} : c.index.lookup name = some i ↔ ∃ p, c.programs[i]? = some p ∧ p.name = name := by
  constructor
  · intro found
    obtain ⟨inside, named⟩ := c.exists_name_of_lookup found
    exact ⟨c.programs.get ⟨i, inside⟩, by simp [inside], named⟩
  · rintro ⟨p, there, rfl⟩
    obtain ⟨inside, rfl⟩ := List.getElem?_eq_some_iff.mp there
    rw [c.indexed, List.idxOf?_eq_some_iff]
    refine ⟨by rwa [List.length_map], by simp, fun j before same => ?_⟩
    have named : (c.programs.map Program.name)[i]? = some c.programs[i].name := by simp [inside]
    have named' : (c.programs.map Program.name)[j]? = some c.programs[i].name := by
      rw [← same, List.getElem?_eq_getElem]
    have equal := (List.getElem?_inj (by rw [List.length_map]; omega) distinct).mp (named'.trans named.symm)
    omega

def ofInserts (ps : List Program) : Catalogue := ps.foldl (fun c p => (c.insert p).2) empty

theorem ofInserts_concat (ps : List Program) (p : Program) :
    ofInserts (ps ++ [p]) = ((ofInserts ps).insert p).2 := by
  simp [ofInserts]

theorem nodup_names_ofInserts (ps : List Program) : ((ofInserts ps).programs.map Program.name).Nodup := by
  induction ps using List.reverseRecOn with
  | nil => exact .nil
  | append_singleton ps p ih =>
    rw [ofInserts_concat]
    exact nodup_names_insert p ih

theorem names_ofInserts (ps : List Program) :
    (ofInserts ps).programs.map Program.name = (ps.map Program.name).eraseDups := by
  induction ps using List.reverseRecOn with
  | nil => rfl
  | append_singleton ps p ih =>
    rw [ofInserts_concat, names_insert, ih, List.map_append, List.map_singleton, List.eraseDups_append]
    by_cases known : p.name ∈ ps.map Program.name
    · rw [if_pos (List.mem_eraseDups.mpr known), List.cons_removeAll, List.contains_iff_mem.mpr known]
      simp
    · rw [if_neg (mt List.mem_eraseDups.mp known), List.cons_removeAll]
      simp [known, List.eraseDups_cons]

theorem get?_ofInserts (ps : List Program) (name : String) :
    (ofInserts ps).get? name = (ps.filter (·.name = name)).getLast? := by
  induction ps using List.reverseRecOn with
  | nil => rfl
  | append_singleton ps p ih =>
    rw [ofInserts_concat, get?_insert, List.filter_append, ih]
    by_cases same : p.name = name <;> simp [same]

/-- After any insertions into the empty catalogue the names are pairwise distinct, and the index maps
them, and nothing else, to their positions. They stand in the order of their first insertion. Under each
name is the program inserted last, and the next insertion hands back what was there before it. -/
theorem insertions_keep_order_and_index (ps : List Program) :
    ((ofInserts ps).programs.map Program.name).Nodup ∧
    (∀ name i, (ofInserts ps).index.lookup name = some i ↔
      ∃ p, (ofInserts ps).programs[i]? = some p ∧ p.name = name) ∧
    (ofInserts ps).programs.map Program.name = (ps.map Program.name).eraseDups ∧
    (∀ name, (ofInserts ps).get? name = (ps.filter (·.name = name)).getLast?) ∧
    ∀ p, ((ofInserts ps).insert p).1 = (ofInserts ps).get? p.name :=
  ⟨nodup_names_ofInserts ps, fun _ _ => lookup_eq_some_iff (nodup_names_ofInserts ps),
    names_ofInserts ps, get?_ofInserts ps, fst_insert _⟩

end Catalogue

end GcodePrep
