import GcodePrep.Bindings
import GcodePrep.Origin

set_option autoImplicit false

/-!
# Programs

A program has a number, a header and a body of records. Appending a record numbers it with the output
line counter; the lines of a jump table are inserted without moving the counter.
-/

namespace GcodePrep

/-- One line of a body: its text, a comment, or both. -/
structure Record where
  origin : Origin
  outLine : Nat
  text : Option String
  comment : Option String
  deriving DecidableEq, Repr

/-- Extends the comment; `separator` stands between the old part and the new one. -/
def Record.appendComment (r : Record) (note separator : String) : Record :=
  let comment := match r.comment with
    | some old => if old.isEmpty then note else old ++ separator ++ note
    | none => note
  { r with comment := some comment }

structure Program where
  name : String
  number : Int64
  origin : Origin
  header : List String
  body : List Record
  /-- How many records were appended: the number of the next one. -/
  outLine : Nat
  /-- The bindings to put back when the program ends. -/
  saved : Option Bindings
  done : Bool

namespace Program

def start (name : String) (number : Int64) (origin : Origin) (header : List String)
    (saved : Bindings) : Program :=
  { name, number, origin, header, body := [], outLine := 0, saved := some saved, done := false }

def addHeader (p : Program) (line : String) : Program := { p with header := p.header ++ [line] }

def append (p : Program) (origin : Origin) (text comment : Option String) : Program :=
  { p with body := p.body ++ [⟨origin, p.outLine, text, comment⟩], outLine := p.outLine + 1 }

/-- Inserts lines before the record at `index`, or at the end. -/
def insertLines (p : Program) (index : Nat) (origin : Origin) (outLine : Nat)
    (lines : List String) : Program :=
  let records := lines.map fun line => (⟨origin, outLine, some line, none⟩ : Record)
  { p with body := p.body.take index ++ records ++ p.body.drop index }

def noteAt? (p : Program) (index : Nat) (note separator : String) : Option Program :=
  p.body[index]?.map fun r => { p with body := p.body.set index (r.appendComment note separator) }

/-- Completes the program and hands back the saved bindings. -/
def complete (p : Program) : Option Bindings × Program :=
  (p.saved, { p with saved := none, done := true })

def abandon (p : Program) : Option Bindings × Program := (p.saved, { p with saved := none })

end Program

/-- Completed programs in the order in which their names first arrived, and an index from the names to
the positions of their programs. -/
@[ext]
structure Catalogue where
  programs : List Program
  index : List (String × Nat)
  indexed (name : String) : index.lookup name = (programs.map Program.name).idxOf? name

namespace Catalogue

def empty : Catalogue := ⟨[], [], fun _ => rfl⟩

section

variable (c : Catalogue)

theorem exists_name_of_lookup {name : String} {i : Nat} (found : c.index.lookup name = some i) :
    ∃ inside : i < c.programs.length, (c.programs.get ⟨i, inside⟩).name = name := by
  rw [c.indexed, List.idxOf?_eq_some_iff] at found
  obtain ⟨inside, named, -⟩ := found
  exact ⟨by rwa [List.length_map] at inside, by simpa using named⟩

def position? (name : String) : Option (Fin c.programs.length) :=
  match found : c.index.lookup name with
  | some i => some ⟨i, (c.exists_name_of_lookup found).1⟩
  | none => none

def get? (name : String) : Option Program := (c.position? name).map c.programs.get

theorem lookup_eq_position? (name : String) : c.index.lookup name = (c.position? name).map Fin.val := by
  unfold position?
  split
  · assumption
  · assumption

theorem name_of_position? {name : String} {i : Fin c.programs.length} (found : c.position? name = some i) :
    (c.programs.get i).name = name := by
  have stored := c.lookup_eq_position? name
  rw [found] at stored
  exact (c.exists_name_of_lookup stored).2

theorem get?_eq_bind (name : String) : c.get? name = (c.index.lookup name).bind (c.programs[·]?) := by
  rw [c.lookup_eq_position?, get?]
  cases c.position? name with
  | none => rfl
  | some i => simp

theorem names_set {p : Program} {i : Fin c.programs.length} (same : (c.programs.get i).name = p.name) :
    (c.programs.set i p).map Program.name = c.programs.map Program.name := by
  rw [List.map_set, ← same, ← List.map_set, List.get_eq_getElem, List.set_getElem_self]

variable (p : Program)

def replace (i : Fin c.programs.length) (same : (c.programs.get i).name = p.name) : Catalogue where
  programs := c.programs.set i p
  index := c.index
  indexed name := by rw [c.names_set same, c.indexed]

def append : Catalogue where
  programs := c.programs ++ [p]
  index := c.index ++ [(p.name, c.programs.length)]
  indexed name := by
    have alone : [(p.name, c.programs.length)].lookup name =
        ([p.name].idxOf? name).map (· + c.programs.length) := by
      by_cases same : name = p.name
      · simp [same]
      · simp [same, Ne.symm same]
    rw [List.lookup_append, c.indexed, alone, List.map_append]
    simp [List.idxOf?, List.findIdx?_append]

/-- Puts a program in the place of the one with its name, or at the end. The program it replaces
comes first. -/
def insert : Option Program × Catalogue :=
  match found : c.position? p.name with
  | some i => (some (c.programs.get i), c.replace p i (c.name_of_position? found))
  | none => (none, c.append p)

theorem programs_insert : (c.insert p).2.programs = match c.index.lookup p.name with
    | some i => c.programs.set i p
    | none => c.programs ++ [p] := by
  rw [c.lookup_eq_position?]
  unfold insert
  split
  · rename_i found
    simp only [found]
    rfl
  · rename_i found
    simp only [found]
    rfl

theorem index_insert : (c.insert p).2.index = match c.index.lookup p.name with
    | some _ => c.index
    | none => c.index ++ [(p.name, c.programs.length)] := by
  rw [c.lookup_eq_position?]
  unfold insert
  split
  · rename_i found
    simp only [found]
    rfl
  · rename_i found
    simp only [found]
    rfl

end

end Catalogue

end GcodePrep
