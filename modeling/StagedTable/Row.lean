import StagedTable.Value

/-!
# Rows

A row is a list of named values in order, no name repeated. Putting a value under a known name
keeps the place of the name; a new name goes to the end.
-/

namespace StagedTable

/-- A row: named values in order, no name repeated. -/
structure Row where
  fields : List (String × Value)
  nodup : (Assoc.keys fields).Nodup

namespace Row

/-- The row without fields. -/
def empty : Row := ⟨[], List.nodup_nil⟩

/-- The column names of the row, in order. -/
def names (r : Row) : List String := Assoc.keys r.fields

/-- The value under a name. -/
def get? (r : Row) (name : String) : Option Value := Assoc.get? name r.fields

/-- Whether the row has a value under a name. -/
def has (r : Row) (name : String) : Bool := (r.get? name).isSome

/-- Whether the row has no fields. -/
def isEmpty (r : Row) : Bool := r.fields.isEmpty

/-- Puts a value under a name. -/
def put (r : Row) (name : String) (value : Value) : Row :=
  ⟨Assoc.put name value r.fields, Assoc.nodup_put r.nodup⟩

/-- Puts the values of another row over those of this one. -/
def overlay (r top : Row) : Row :=
  ⟨Assoc.putAll r.fields top.fields, Assoc.nodup_putAll r.nodup⟩

/-- The row of a list of named values; of a repeated name the last value counts. -/
def ofList (fields : List (String × Value)) : Row :=
  ⟨Assoc.putAll [] fields, Assoc.nodup_putAll List.nodup_nil⟩

/-- Equality of rows: the same names with equal values, in any order. -/
def equal (a b : Row) : Bool := (Value.document a.fields).equal (.document b.fields)

/-- Equality of lists of rows, in order. -/
def equalAll : List Row → List Row → Bool
  | [], [] => true
  | a :: as, b :: bs => a.equal b && equalAll as bs
  | _, _ => false

@[simp] theorem get?_empty (name : String) : empty.get? name = none := rfl

/-- Under the name that was put there is the new value; all other names are as before. -/
theorem get?_put (r : Row) (name key : String) (value : Value) :
    (r.put name value).get? key = if key = name then some value else r.get? key :=
  Assoc.get?_put name key value r.fields

end Row

end StagedTable
