import StagedTable.Sql.Literal
import StagedTable.Row
import StagedTable.Value.Text

/-!
# Row statements

The statements that insert, update and delete rows, as data and as text. A statement is built from
values and the columns of its table: an update sets only what changed, and its target and that of a
delete are named by the primary key if there is one, else by all values of the row.
-/

namespace StagedTable.Sql

/-- A column together with a value and the literal of that value. -/
structure Binding where
  column : String
  value : Value
  literal : Literal

/-- A statement that changes rows of a table. A condition is a list of bindings: the row holds each
of these values. -/
inductive Statement
  | insert (table : TableName) (items : List Binding)
  | update (table : TableName) (assignments condition : List Binding)
  | delete (table : TableName) (condition : List Binding)

/-- Why a statement cannot be built. -/
inductive StatementError
  | unrenderable (e : RenderError)
  | missingKeys (names : List String)
  | unidentified
  | nothingChanged (table : TableName)
  | noPreimage
deriving DecidableEq

/-- The wording of an error, if it has one of its own. -/
def StatementError.message? : StatementError → Option String
  | .unrenderable e => e.message?
  | .missingKeys names => some ("Row is missing primary key columns: " ++ ", ".intercalate names)
  | .unidentified => some "Cannot identify a row without primary keys or values"
  | .nothingChanged table =>
    some ("No changed columns to update in " ++ table.schema ++ "." ++ table.name)
  | .noPreimage => some "An update needs the original row"

namespace Binding

/-- Binds a value to a column, if the value has a literal. -/
def make (columns : List Column) (name : String) (value : Value) :
    Except StatementError Binding :=
  match Literal.ofValue ((Column.find? name columns).map (·.dataType)) value with
  | .ok literal => .ok ⟨name, value, literal⟩
  | .error e => .error (.unrenderable e)

/-- Binds each of a list of named values. -/
def makeAll (columns : List Column) (fields : List (String × Value)) :
    Except StatementError (List Binding) :=
  fields.mapM fun (name, value) => make columns name value

/-- The assignment of the value to the column. -/
def assignment (b : Binding) : List Char :=
  identifier b.column ++ " = ".toList ++ b.literal.render

/-- The predicate that the column holds the value. -/
def predicate (b : Binding) : List Char :=
  match b.value with
  | .null => identifier b.column ++ " IS NULL".toList
  | _ => b.assignment

end Binding

namespace Statement

/-- The condition that picks a row out: its primary key values if the table has a primary key, else
all its values. -/
def condition (row : Row) (columns : List Column) : Except StatementError (List Binding) :=
  match Column.keys columns with
  | [] => if row.isEmpty then .error .unidentified else Binding.makeAll columns row.fields
  | keys =>
    match keys.filter fun c => !row.has c.name with
    | [] => keys.mapM fun c =>
      match Literal.ofValue (some c.dataType) ((row.get? c.name).getD .null) with
      | .ok literal => .ok ⟨c.name, (row.get? c.name).getD .null, literal⟩
      | .error e => .error (.unrenderable e)
    | missing => .error (.missingKeys (missing.map (·.name)))

/-- The statement that inserts a row. -/
def insertRow (table : TableName) (data : Row) (columns : List Column) :
    Except StatementError Statement := do
  return .insert table (← Binding.makeAll columns data.fields)

/-- The values of a row that another row lacks or holds with other content. -/
def changed (data preimage : Row) : List (String × Value) :=
  data.fields.filter fun (name, value) =>
    match preimage.get? name with
    | none => true
    | some old => !value.alike old

/-- Whether a value has to be assigned, as the row before lacks it or holds it with other content. -/
def changes (preimage : Row) (name : String) (value : Value) : Except StatementError Bool :=
  match preimage.get? name with
  | none => .ok true
  | some old =>
    match value.compare old with
    | .ok same => .ok !same
    | .error e => .error (.unrenderable e)

/-- The assignments of those of some values that the row before lacks or holds with other content,
one after the other. -/
def assignments (columns : List Column) (preimage : Row) :
    List (String × Value) → Except StatementError (List Binding)
  | [] => return []
  | (name, value) :: rest => do
    if ← changes preimage name value then
      return (← Binding.make columns name value) :: (← assignments columns preimage rest)
    else assignments columns preimage rest

/-- The statement that brings the changed values of a row into the table. -/
def updateRow (table : TableName) (data preimage : Row) (columns : List Column) :
    Except StatementError Statement := do
  let assignments ← assignments columns preimage data.fields
  if assignments.isEmpty then throw (.nothingChanged table)
  return .update table assignments (← condition preimage columns)

/-- The statement that deletes a row. -/
def deleteRow (table : TableName) (data : Row) (columns : List Column) :
    Except StatementError Statement := do
  return .delete table (← condition data columns)

/-- The text of a condition. -/
def renderCondition (bindings : List Binding) : List Char :=
  List.intercalate " AND ".toList (bindings.map (·.predicate))

/-- Texts between parentheses, with commas. -/
def parenthesized (items : List (List Char)) : List Char :=
  '(' :: (List.intercalate ", ".toList items ++ [')'])

/-- The text of a statement. -/
def render : Statement → List Char
  | .insert table [] => "INSERT INTO ".toList ++ table.render ++ " DEFAULT VALUES".toList
  | .insert table items =>
    "INSERT INTO ".toList ++ table.render ++ ' ' :: parenthesized (items.map (identifier ·.column))
      ++ " VALUES ".toList ++ parenthesized (items.map (·.literal.render))
  | .update table assignments bindings =>
    "UPDATE ".toList ++ table.render ++ " SET ".toList
      ++ List.intercalate ", ".toList (assignments.map (·.assignment))
      ++ " WHERE ".toList ++ renderCondition bindings
  | .delete table bindings =>
    "DELETE FROM ".toList ++ table.render ++ " WHERE ".toList ++ renderCondition bindings

/-- The text of a statement as a string. -/
def sql (s : Statement) : String := String.ofList s.render

end Statement

end StagedTable.Sql
