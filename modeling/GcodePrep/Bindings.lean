import GcodePrep.Value

set_option autoImplicit false

/-!
# Bindings

Names and the values bound to them, in the order in which the names were first bound. Binding a name
again replaces its value in place.
-/

namespace GcodePrep

structure Bindings where
  entries : List (String × Value)

namespace Bindings

def empty : Bindings := ⟨[]⟩

def lookup (name : String) : List (String × Value) → Option Value
  | [] => none
  | (key, value) :: rest => if key = name then some value else lookup name rest

def insert (name : String) (value : Value) : List (String × Value) → List (String × Value)
  | [] => [(name, value)]
  | (key, old) :: rest =>
    if key = name then (key, value) :: rest else (key, old) :: insert name value rest

def get? (b : Bindings) (name : String) : Option Value := lookup name b.entries

def contains (b : Bindings) (name : String) : Bool := (b.get? name).isSome

def set (b : Bindings) (name : String) (value : Value) : Bindings := ⟨insert name value b.entries⟩

def size (b : Bindings) : Nat := b.entries.length

/-- The bindings by name, for listings that do not depend on the order of arrival. -/
def sorted (b : Bindings) : List (String × Value) :=
  b.entries.mergeSort fun x y => decide (x.1 ≤ y.1)

theorem lookup_insert (name other : String) (value : Value) (entries : List (String × Value)) :
    lookup other (insert name value entries) =
      if name = other then some value else lookup other entries := by
  induction entries with
  | nil => rfl
  | cons entry rest ih =>
    obtain ⟨key, old⟩ := entry
    by_cases h : key = name
    · subst h
      by_cases h' : key = other <;> simp [insert, lookup, h']
    · by_cases h' : key = other
      · subst h'
        simp [insert, lookup, h, Ne.symm h]
      · simp [insert, lookup, h, h', ih]

@[simp] theorem get?_set (b : Bindings) (name other : String) (value : Value) :
    (b.set name value).get? other = if name = other then some value else b.get? other :=
  lookup_insert name other value b.entries

end Bindings

end GcodePrep
