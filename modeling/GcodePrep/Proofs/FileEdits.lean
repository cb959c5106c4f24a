import GcodePrep.FileTree
import GcodePrep.Origin

set_option autoImplicit false

/-!
# Trees of files with other texts

Two trees may differ in what some of their files hold. As long as these are files in both of them, all
paths lead to the same places, so that only the texts can tell the trees apart.
-/

namespace GcodePrep.FileTree

def fileAt? (t : FileTree) (path : String) : Option Location :=
  match t.find path with
  | .ok (location, .file _) => some location
  | _ => none

def textAt? (t : FileTree) (location : Location) : Option String :=
  match t.entry? location with
  | some (.file contents) => String.fromUTF8? contents
  | _ => none

/-- Two answers that differ at most in what a file holds. -/
inductive Alike : Except FileFault (Location × FileEntry) → Except FileFault (Location × FileEntry) → Prop
  | same (answer : Except FileFault (Location × FileEntry)) : Alike answer answer
  | file (location : Location) (old new : ByteArray) :
      Alike (.ok (location, .file old)) (.ok (location, .file new))

/-- The same directories at the same places, and the same files up to what they hold. -/
structure SameShape (t t' : FileTree) : Prop where
  home : t'.home = t.home
  entries : ∀ location, t'.entry? location = t.entry? location ∨
    ∃ old new, t.entry? location = some (.file old) ∧ t'.entry? location = some (.file new)

namespace SameShape

variable {t t' : FileTree} (shape : SameShape t t')

include shape

theorem entryIn (dir : Location) (name : String) : Alike (t.entryIn dir name) (t'.entryIn dir name) := by
  unfold FileTree.entryIn
  rcases shape.entries (dir ++ [name]) with entry | ⟨old, new, before, after⟩
  · rw [entry]
    exact .same _
  · rw [before, after]
    split
    · exact .same _
    · split
      · exact .same _
      · split
        · exact .same _
        · exact .file _ old new

theorem walk (dir : Location) (names : List String) : t'.walk dir names = t.walk dir names := by
  induction names generalizing dir with
  | nil => rfl
  | cons name names ih =>
    have entered := shape.entryIn dir name
    unfold FileTree.walk
    generalize t.entryIn dir name = old, t'.entryIn dir name = new at entered
    cases entered with
    | same answer => simp only [ih]
    | file location old new => rfl

theorem locate (path : String) : t'.locate path = t.locate path := by
  unfold FileTree.locate
  rw [shape.home]
  simp only [shape.walk]

theorem find (path : String) : Alike (t.find path) (t'.find path) := by
  unfold FileTree.find
  rw [shape.locate]
  cases t.locate path with
  | error fault => exact .same _
  | ok place =>
    obtain ⟨dir, _ | name⟩ := place
    · exact .same _
    · have entered := shape.entryIn dir name
      change Alike (t.entryIn dir name >>= _) (t'.entryIn dir name >>= _)
      generalize t.entryIn dir name = old, t'.entryIn dir name = new at entered
      cases entered with
      | same answer => exact .same _
      | file location old new =>
        change Alike (if endsWithSlash path then _ else _) (if endsWithSlash path then _ else _)
        split
        · exact .same _
        · exact .file location old new

theorem isFile (path : String) : t'.isFile path = t.isFile path := by
  have found := shape.find path
  unfold FileTree.isFile
  generalize t.find path = old, t'.find path = new at found
  cases found <;> rfl

theorem fileAt? (path : String) : t'.fileAt? path = t.fileAt? path := by
  have found := shape.find path
  unfold FileTree.fileAt?
  generalize t.find path = old, t'.find path = new at found
  cases found <;> rfl

end SameShape

theorem entry?_of_entryIn {t : FileTree} {dir location : Location} {name : String} {contents : ByteArray}
    (h : t.entryIn dir name = .ok (location, .file contents)) :
    t.entry? location = some (.file contents) := by
  unfold entryIn at h
  split at h
  · cases h
  · split at h
    · cases h
    · split at h
      · cases h
      · split at h
        · rename_i found
          cases h
          exact found
        · cases h

theorem entry?_of_find {t : FileTree} {path : String} {location : Location} {contents : ByteArray}
    (h : t.find path = .ok (location, .file contents)) : t.entry? location = some (.file contents) := by
  unfold find at h
  cases located : t.locate path with
  | error fault => simp [located, bind, Except.bind] at h
  | ok place =>
    obtain ⟨dir, _ | name⟩ := place
    · simp [located, bind, Except.bind] at h
    · cases entered : t.entryIn dir name with
      | error fault => simp [located, entered, bind, Except.bind] at h
      | ok found =>
        obtain ⟨location', entry⟩ := found
        cases entry with
        | directory => simp [located, entered, bind, Except.bind] at h
        | unreadable fault =>
          cases slash : endsWithSlash path <;>
            simp [located, entered, slash, bind, Except.bind] at h
        | file contents' =>
          cases slash : endsWithSlash path with
          | true => simp [located, entered, slash, bind, Except.bind] at h
          | false =>
            simp only [located, entered, slash, bind, Except.bind, Bool.false_eq_true, if_false,
              Except.ok.injEq, Prod.mk.injEq, FileEntry.file.injEq] at h
            obtain ⟨rfl, rfl⟩ := h
            exact entry?_of_entryIn entered

theorem find_of_fileAt? {t : FileTree} {path : String} {location : Location}
    (found : t.fileAt? path = some location) :
    ∃ contents, t.find path = .ok (location, .file contents) ∧
      t.entry? location = some (.file contents) := by
  unfold fileAt? at found
  split at found
  · rename_i contents h
    cases found
    exact ⟨contents, h, entry?_of_find h⟩
  · cases found

theorem entry?_of_textAt? {t : FileTree} {location : Location} {text : String}
    (read : t.textAt? location = some text) :
    ∃ contents, t.entry? location = some (.file contents) ∧ String.fromUTF8? contents = some text := by
  unfold textAt? at read
  split at read
  · rename_i contents entry
    exact ⟨contents, entry, read⟩
  · cases read

theorem read_of_fileAt? {t : FileTree} {path text : String} {location : Location}
    (found : t.fileAt? path = some location) (holds : t.textAt? location = some text) :
    t.read path = .ok text := by
  obtain ⟨contents, found, entry⟩ := find_of_fileAt? found
  obtain ⟨contents', entry', decoded⟩ := entry?_of_textAt? holds
  cases entry.symm.trans entry'
  simp [read, found, decoded, bind, Except.bind]

/-- Up to line `n`, counted from 0, the file at `path` lies before all marks in it. -/
def Unmarked (marks : List Origin) (t : FileTree) (path : String) (n : Nat) : Prop :=
  ∀ mark ∈ marks, t.fileAt? mark.file = t.fileAt? path → n < mark.line

/-- The second tree differs from the first only in the lines after the marks, in the files with marks.
These lines may be any, and any number. -/
structure EditedAfter (marks : List Origin) (t t' : FileTree) : Prop where
  home : t'.home = t.home
  others : ∀ location, (∀ mark ∈ marks, t.fileAt? mark.file ≠ some location) →
    t'.entry? location = t.entry? location
  texts : ∀ mark ∈ marks, ∀ location, t.fileAt? mark.file = some location →
    ∃ text text', t.textAt? location = some text ∧ t'.textAt? location = some text' ∧
      (Text.sourceLines text').take mark.line = (Text.sourceLines text).take mark.line

namespace EditedAfter

variable {marks : List Origin} {t t' : FileTree} (edited : EditedAfter marks t t')

include edited

theorem sameShape : SameShape t t' where
  home := edited.home
  entries location := by
    by_cases marked : ∃ mark ∈ marks, t.fileAt? mark.file = some location
    · obtain ⟨mark, mem, found⟩ := marked
      obtain ⟨text, text', before, after, -⟩ := edited.texts mark mem location found
      obtain ⟨old, entry, -⟩ := entry?_of_textAt? before
      obtain ⟨new, entry', -⟩ := entry?_of_textAt? after
      exact .inr ⟨old, new, entry, entry'⟩
    · exact .inl (edited.others location fun mark mem found => marked ⟨mark, mem, found⟩)

theorem read (path : String) : t'.read path = t.read path ∨
    ∃ text text', t.read path = .ok text ∧ t'.read path = .ok text' ∧
      ∀ n, Unmarked marks t path n → (Text.sourceLines text')[n]? = (Text.sourceLines text)[n]? := by
  by_cases marked : ∃ mark ∈ marks, ∃ location,
      t.fileAt? mark.file = some location ∧ t.fileAt? path = some location
  · obtain ⟨mark, mem, location, found, found'⟩ := marked
    obtain ⟨text, text', before, after, taken⟩ := edited.texts mark mem location found
    have moved := (edited.sameShape.fileAt? path).trans found'
    refine .inr ⟨text, text', read_of_fileAt? found' before, read_of_fileAt? moved after, ?_⟩
    intro n unmarked
    have early := unmarked mark mem (found.trans found'.symm)
    have same := congrArg (fun lines => lines[n]?) taken
    simpa only [List.getElem?_take, early, if_true] using same
  · left
    have found := edited.sameShape.find path
    unfold FileTree.read
    generalize answer : t.find path = old, answer' : t'.find path = new at found
    cases found with
    | same => rfl
    | file location old new =>
      have here : t.fileAt? path = some location := by simp [fileAt?, answer]
      have same := edited.others location fun mark mem lies => marked ⟨mark, mem, location, lies, here⟩
      rw [entry?_of_find answer, entry?_of_find answer'] at same
      cases same
      rfl

end EditedAfter

end GcodePrep.FileTree
