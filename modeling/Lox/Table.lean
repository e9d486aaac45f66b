/-!
# Tables of names

A table binds names to values and keeps the order in which the names were first bound.
Scopes, fields, method tables and environments are all tables. Their one law is
`Table.get?_insert`: a name reads back as the value last bound to it.
-/

namespace Lox

/-- A finite map from names to values. -/
structure Table (α : Type) where
  entries : List (String × α)

namespace Table

variable {α : Type}

/-- The table that binds nothing. -/
def empty : Table α := ⟨[]⟩

instance : Inhabited (Table α) := ⟨empty⟩

/-- The value of the first entry for `name`. -/
def find (name : String) : List (String × α) → Option α
  | [] => none
  | (key, value) :: rest => if key = name then some value else find name rest

/-- Replaces the value of the first entry for `name`, or appends an entry. -/
def replace (name : String) (value : α) : List (String × α) → List (String × α)
  | [] => [(name, value)]
  | (key, old) :: rest =>
      if key = name then (key, value) :: rest else (key, old) :: replace name value rest

/-- The value bound to `name`, if there is one. -/
def get? (table : Table α) (name : String) : Option α :=
  find name table.entries

/-- Whether `name` is bound. -/
def contains (table : Table α) (name : String) : Bool :=
  (table.get? name).isSome

/-- Binds `name` to `value`, replacing any earlier binding. -/
def insert (table : Table α) (name : String) (value : α) : Table α :=
  ⟨replace name value table.entries⟩

/-! ## Laws -/

@[simp] theorem get?_empty (name : String) : (empty : Table α).get? name = none := rfl

/-- A name reads back as the value last bound to it, and other names are untouched. -/
theorem get?_insert (table : Table α) (name other : String) (value : α) :
    (table.insert name value).get? other =
      if name = other then some value else table.get? other := by
  obtain ⟨entries⟩ := table
  simp only [insert, get?]
  induction entries with
  | nil => rfl
  | cons entry rest ih =>
      by_cases hname : entry.1 = name
      · by_cases hother : name = other <;> simp [replace, find, hname, hother]
      · by_cases hother : entry.1 = other
        · have hne : ¬name = other := fun h => hname (hother.trans h.symm)
          simp [replace, find, hother, hne, Ne.symm hne]
        · simp [replace, find, hname, hother, ih]

@[simp] theorem get?_insert_self (table : Table α) (name : String) (value : α) :
    (table.insert name value).get? name = some value := by
  simp [get?_insert]

end Table

end Lox
