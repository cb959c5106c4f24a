import GcodePrep.Proofs.Catalogue
import GcodePrep.Proofs.NumberTexts
import GcodePrep.Session.Run
import Mathlib.Data.List.Nodup

set_option autoImplicit false

/-!
# Files of programs

Programs are kept apart by name, their files by number unless names are asked for. So every program of
a report has a file with its own text exactly when no two of them share the key their files go by.
-/

namespace GcodePrep

open Preprocessor (IsProgramName)

namespace Collection

theorem lookup_file (path text other : String) (files : List (String × String)) :
    ((path, text) :: files).lookup other = if other = path then some text else files.lookup other := by
  rw [List.lookup_cons]
  by_cases h : other = path
  · simp [h]
  · have unequal : (other == path) = false := by simpa using h
    simp [h, unequal]

theorem lookup_place (path text other : String) (files : List (String × String)) :
    (place path text files).lookup other = if other = path then some text else files.lookup other := by
  induction files with
  | nil => exact lookup_file path text other []
  | cons file rest ih =>
    obtain ⟨key, old⟩ := file
    unfold place
    split
    · rename_i same
      subst same
      simp only [lookup_file]
      split <;> rfl
    · rename_i different
      split
      · exact lookup_file path text other _
      · rw [lookup_file, lookup_file, ih]
        by_cases h : other = key
        · simp [h, different]
        · simp [h]

theorem get?_addFile (c : Collection) (path text other : String) :
    (c.addFile path text).get? other = if other = path then some text else c.get? other :=
  lookup_place path text other c.files

def addPrograms (c : Collection) (layout : Layout) (programs : List Program) : Collection :=
  programs.foldl (fun c p => c.addFile (layout.path p) (layout.render p)) c

theorem get?_addPrograms_of_ne (c : Collection) (layout : Layout) {programs : List Program}
    {path : String} (others : ∀ p ∈ programs, path ≠ layout.path p) :
    (c.addPrograms layout programs).get? path = c.get? path := by
  induction programs generalizing c with
  | nil => rfl
  | cons p rest ih =>
    have tail := ih (c.addFile (layout.path p) (layout.render p))
      fun q mem => others q (List.mem_cons_of_mem p mem)
    rw [get?_addFile, if_neg (others p List.mem_cons_self)] at tail
    exact tail

theorem get?_addPrograms (c : Collection) (layout : Layout) {programs : List Program}
    (distinct : (programs.map layout.path).Nodup) :
    ∀ p ∈ programs, (c.addPrograms layout programs).get? (layout.path p) = some (layout.render p) := by
  induction programs generalizing c with
  | nil => nofun
  | cons p rest ih =>
    obtain ⟨new, distinct⟩ := List.nodup_cons.mp distinct
    intro q mem
    rcases List.mem_cons.mp mem with rfl | mem
    · have kept := get?_addPrograms_of_ne (c.addFile (layout.path q) (layout.render q)) layout
        fun r mem same => new (List.mem_map.mpr ⟨r, mem, same.symm⟩)
      rw [get?_addFile, if_pos rfl] at kept
      exact kept
    · exact ih _ distinct q mem

theorem writeAll_eq (layout : Layout) (programs : List Program) (r : Report) (c : Collection) :
    (writeAll destination layout programs r c).2 = c.addPrograms layout programs ∧
      (writeAll destination layout programs r c).1.programs = r.programs := by
  induction programs generalizing r c with
  | nil => exact ⟨rfl, rfl⟩
  | cons p rest ih =>
    exact ih (r.addWritten (layout.path p)) (c.addFile (layout.path p) (layout.render p))

end Collection

theorem int_eq_of_repr_eq {a b : Int} (h : a.repr = b.repr) : a = b := by
  have sign (n m : Nat) : "-" ++ m.repr ≠ n.repr := by
    intro same
    exact not_mem_repr (c := '-') (by decide) n (by rw [← same]; simp)
  rw [Int.repr_eq_if, Int.repr_eq_if] at h
  split at h <;> split at h
  · have := nat_eq_of_repr_eq h
    omega
  · exact absurd h.symm (sign _ _)
  · exact absurd h (sign _ _)
  · have := nat_eq_of_repr_eq (String.append_right_inj "-" |>.mp h)
    omega

theorem slash_not_mem_repr (a : Int) : '/' ∉ a.repr.toList := by
  intro mem
  exact absurd (Text.isNumberChar_of_mem_int mem) (by decide)

theorem Path.join_inj {dir a b : String} (relative : isAbsolute a = false)
    (relative' : isAbsolute b = false) (h : join dir a = join dir b) : a = b := by
  simp only [join, relative, relative', Bool.false_eq_true, if_false] at h
  split at h
  · exact (String.append_right_inj _).mp h
  · exact (String.append_right_inj _).mp h

theorem Path.isAbsolute_file {stem : String} (h : '/' ∉ stem.toList) (extension : String) :
    isAbsolute (stem ++ "." ++ extension) = false := by
  unfold isAbsolute
  rw [String.toList_append, String.toList_append]
  cases chars : stem.toList with
  | nil => simp
  | cons c cs =>
    rw [chars] at h
    simpa using Ne.symm (List.ne_of_not_mem_cons h)

namespace Layout

theorem path_inj (layout : Layout) {p q : Program} (name : IsProgramName p.name)
    (name' : IsProgramName q.name) (h : layout.path p = layout.path q) :
    if layout.byNumber then p.number = q.number else p.name = q.name := by
  have slash {name : String} (h : IsProgramName name) : '/' ∉ name.toList := fun mem =>
    absurd (h.2 '/' mem) (by decide)
  unfold path at h
  cases byNumber : layout.byNumber with
  | true =>
    simp only [byNumber, if_true, Int.toString_eq_repr] at h ⊢
    have file := Path.join_inj (Path.isAbsolute_file (slash_not_mem_repr _) _)
      (Path.isAbsolute_file (slash_not_mem_repr _) _) h
    have stem := (String.append_left_inj _).mp ((String.append_left_inj _).mp file)
    exact Int64.toInt_inj.mp (int_eq_of_repr_eq stem)
  | false =>
    simp only [byNumber, Bool.false_eq_true, if_false] at h ⊢
    have file := Path.join_inj (Path.isAbsolute_file (slash name) _)
      (Path.isAbsolute_file (slash name') _) h
    exact (String.append_left_inj _).mp ((String.append_left_inj _).mp file)

theorem name_eq_of_render_eq (layout : Layout) {p q : Program} (name : IsProgramName p.name)
    (name' : IsProgramName q.name) (number : p.number = q.number)
    (h : layout.render p = layout.render q) : p.name = q.name := by
  have shape (p : Program) : ∃ more, (layout.render p).toList =
      (layout.leader ++ "\r\n" ++ "O" ++ toString p.number.toInt ++ " (").toList ++
        (p.name.toList ++ ')' :: more) := by
    let rest := p.header.map (fun line => "(" ++ line ++ ") ;") ++
      p.body.filterMap (·.render layout.annotated) ++ [layout.trailer]
    have lines : layout.lines p =
        layout.leader :: ("O" ++ toString p.number.toInt ++ " (" ++ p.name ++ ") ;") :: rest := by
      simp [Layout.lines, rest]
    refine ⟨(" ;" ++ "\r\n" ++ "\r\n".intercalate rest).toList, ?_⟩
    rw [render, lines, String.intercalate_cons_cons, String.intercalate_cons_of_ne_nil (by simp [rest])]
    simp [String.append_assoc]
  obtain ⟨more, eq⟩ := shape p
  obtain ⟨more', eq'⟩ := shape q
  rw [h, eq', number] at eq
  have rest := List.append_cancel_left eq
  have word {name : String} (h : IsProgramName name) (more : List Char) :
      (name.toList ++ ')' :: more).takeWhile Text.isWordChar = name.toList :=
    Text.takeWhile_run h.2 (by simp [Text.isWordChar])
  rw [← String.toList_inj, ← word name more, ← rest, word name' more']

end Layout

namespace Config

theorem orderly_preprocess (c : Config) (files : FileTree) (path : String) :
    (∀ p ∈ (c.preprocess files path).programs, p.done = true ∧ IsProgramName p.name) ∧
      ((c.preprocess files path).programs.map Program.name).Nodup := by
  have orderly := (Traversal.Reached.fresh.processFile path :
    Traversal.Reached c.inclusion files c.environment _).orderly
  exact ⟨orderly.stored, orderly.distinct⟩

theorem runInput_collection (c : Config) {files : FileTree} {path : String}
    (permitted : c.permits (c.preprocess files path) = true) (s : Collection) :
    (c.runInput Collection.destination files path s).1.programs = (c.preprocess files path).programs ∧
      (c.runInput Collection.destination files path s).2 =
        (s.addDirectory c.layout.directory).addPrograms c.layout (c.preprocess files path).programs := by
  have done : (c.preprocess files path).programs.filter Program.done =
      (c.preprocess files path).programs :=
    List.filter_eq_self.mpr fun p mem => ((c.orderly_preprocess files path).1 p mem).1
  have written := Collection.writeAll_eq c.layout (c.preprocess files path).programs
    (c.preprocess files path) (s.addDirectory c.layout.directory)
  unfold runInput
  rw [if_pos permitted]
  simp only [writePrograms, Collection.destination, done]
  exact ⟨written.2, written.1⟩

/-- Of a permitted run, every program has a file with its own text exactly when files do not go by
number or no two programs have the same number. -/
theorem programs_have_own_files_iff (c : Config) {files : FileTree} {path : String}
    (permitted : c.permits (c.preprocess files path) = true) (s : Collection) :
    (∀ p ∈ (c.runInput Collection.destination files path s).1.programs,
      (c.runInput Collection.destination files path s).2.get? (c.layout.path p) =
        some (c.layout.render p)) ↔
      (c.layout.byNumber = true →
        ((c.runInput Collection.destination files path s).1.programs.map Program.number).Nodup) := by
  obtain ⟨programs, collection⟩ := c.runInput_collection permitted s
  obtain ⟨stored, distinct⟩ := c.orderly_preprocess files path
  rw [programs, collection]
  generalize (c.preprocess files path).programs = ps at *
  have single : ps.Nodup := .of_map _ distinct
  constructor
  · intro own byNumber
    refine single.map_on fun p mem q mem' same => ?_
    have paths : c.layout.path p = c.layout.path q := by simp [Layout.path, byNumber, same]
    have texts := own p mem
    rw [paths, own q mem', Option.some.injEq] at texts
    exact List.inj_on_of_nodup_map distinct mem mem'
      (c.layout.name_eq_of_render_eq (stored p mem).2 (stored q mem').2 same texts.symm)
  · intro numbers
    refine Collection.get?_addPrograms _ _ (single.map_on fun p mem q mem' same => ?_)
    have keys := c.layout.path_inj (stored p mem).2 (stored q mem').2 same
    split at keys
    · rename_i byNumber
      exact List.inj_on_of_nodup_map (numbers byNumber) mem mem' keys
    · exact List.inj_on_of_nodup_map distinct mem mem' keys

def plain (byNumber : Bool) : Config where
  inputs := ["main.gp"]
  layout := { byNumber }
  controller := none
  model := none
  defines := []
  inclusion := ⟨[], Inclusion.defaultDepth⟩
  exprDepth := defaultExprDepth
  quiet := false
  format := .text
  style := .rich
  target := .stderr
  showWarnings := true
  warningsAsErrors := false

def twins : FileTree :=
  ⟨[], [(["main.gp"], .file
    "@define A1 = 7\n@define B1 = 7\n@program A1\nG0\n@endprogram\n@program B1\nG1\n@endprogram\n".toUTF8)]⟩

theorem twins_have_own_files_by_name :
    (plain false).permits ((plain false).preprocess twins "main.gp") = true ∧
      ∀ p ∈ ((plain false).runInput Collection.destination twins "main.gp" .empty).1.programs,
        ((plain false).runInput Collection.destination twins "main.gp" .empty).2.get?
          ((plain false).layout.path p) = some ((plain false).layout.render p) := by
  have permitted : (plain false).permits ((plain false).preprocess twins "main.gp") = true := by
    decide +kernel
  exact ⟨permitted, ((plain false).programs_have_own_files_iff permitted .empty).mpr nofun⟩

/-- By number they share one file, which only the second program's text is left in. -/
theorem twins_share_file_by_number :
    (plain true).permits ((plain true).preprocess twins "main.gp") = true ∧
      ¬ ∀ p ∈ ((plain true).runInput Collection.destination twins "main.gp" .empty).1.programs,
        ((plain true).runInput Collection.destination twins "main.gp" .empty).2.get?
          ((plain true).layout.path p) = some ((plain true).layout.render p) := by
  decide +kernel

end Config

end GcodePrep
