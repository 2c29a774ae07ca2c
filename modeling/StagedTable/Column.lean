import StagedTable.Column.Kind

/-!
# Columns

The columns of an existing table: look-up by name, and the primary key.

What else is known of a column is optional, and to leave it out is not the same as to say that there
is none. Columns are compared as a whole when a table is fetched anew.
-/

namespace StagedTable

/-- The foreign key constraint of a column of an existing table. -/
structure ColumnReference where
  constraintName : String
  schema : String
  table : String
  column : String
deriving DecidableEq

/-- A column of an existing table. -/
structure Column where
  name : String
  dataType : String
  nullable : Bool
  primaryKey : Bool
  unique : Option Bool := none
  foreignKey : Option (Option ColumnReference) := none
  enumValues : Option (Option (List String)) := none
  defaultText : Option (Option String) := none
deriving DecidableEq

namespace Column

/-- A column of which no more is known. -/
def bare (name dataType : String) (nullable primaryKey : Bool) : Column :=
  { name, dataType, nullable, primaryKey }

/-- The kind of the values of the column. -/
def kind (c : Column) : Kind := Kind.ofType c.dataType

/-- The column of a name; of several the last counts. -/
def find? (name : String) : List Column → Option Column
  | [] => none
  | c :: rest =>
    match find? name rest with
    | some found => some found
    | none => if c.name = name then some c else none

/-- The primary key columns, in table order. -/
def keys (columns : List Column) : List Column := columns.filter (·.primaryKey)

/-- The place of a name among the columns; a name that is none of theirs comes after all. -/
def position (columns : List Column) (name : String) : Nat :=
  columns.findIdx (·.name == name)

/-- What is found under a name has that name. -/
theorem name_of_find? {name : String} {columns : List Column} {c : Column}
    (h : find? name columns = some c) : c.name = name ∧ c ∈ columns := by
  induction columns with
  | nil => simp [find?] at h
  | cons d rest ih =>
    rw [find?] at h
    split at h
    · next found hf =>
      cases h
      exact ⟨(ih hf).1, .tail _ (ih hf).2⟩
    · split at h
      · next hd =>
        cases h
        exact ⟨hd, .head _⟩
      · simp at h

/-- At the place of a name that is found stands the column of that name. -/
theorem name_position {columns : List Column} {name : String}
    (h : position columns name < columns.length) : columns[position columns name].name = name := by
  have hfound := List.findIdx_getElem (w := h)
  exact beq_iff_eq.1 hfound

theorem position_lt {columns : List Column} {c : Column} (h : c ∈ columns) :
    position columns c.name < columns.length :=
  List.findIdx_lt_length_of_exists ⟨c, h, by simp⟩

end Column

end StagedTable
