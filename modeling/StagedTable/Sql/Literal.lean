import StagedTable.Text.Quoted
import StagedTable.Column
import StagedTable.Value.ArrayLiteral

/-!
# Names and literals

Quoted identifiers, and the literals that values are rendered as. Quotes are doubled inside
identifiers and strings; this is what keeps every value and every name inside its token.
-/

namespace StagedTable.Sql

open Text

/-- A quoted identifier. -/
def identifier (name : String) : List Char := quoted '"' name.toList

/-- A quoted string. -/
def string (cs : List Char) : List Char := quoted '\'' cs

/-- A table with its schema. -/
structure TableName where
  schema : String
  name : String
deriving DecidableEq

/-- The quoted name of a table, its schema before it. -/
def TableName.render (t : TableName) : List Char := identifier t.schema ++ '.' :: identifier t.name

/-- A literal: a word or a number that stands bare, a string, or a string cast to a JSON
document. -/
inductive Literal
  | null
  | bool (b : Bool)
  | number (text : List Char)
  | string (text : List Char)
  | json (text : List Char)
deriving DecidableEq

namespace Literal

/-- The text of a literal. -/
def render : Literal → List Char
  | .null => "NULL".toList
  | .bool b => if b then "TRUE".toList else "FALSE".toList
  | .number text => text
  | .string text => Sql.string text
  | .json text => Sql.string text ++ "::jsonb".toList

/-- The literal of a double; a value that is not finite is named in a string. -/
def ofDouble : Double → Literal
  | .finite x => .number x.text
  | .infinite false => .string "Infinity".toList
  | .infinite true => .string "-Infinity".toList
  | .nan _ => .string "NaN".toList

/-- The literal of a value in a column of a data type. Lists are array literals in an array column;
all other lists and all documents are JSON. A driver value has no literal, nor has an integer of too
many digits, wherever it is. -/
def ofValue (dataType : Option String) (v : Value) : Except RenderError Literal :=
  match v with
  | .null => .ok .null
  | .bool b => .ok (.bool b)
  | .int n => ((Value.int n).write Value.display).map .number
  | .float x => .ok (ofDouble x)
  | .text s => .ok (.string s.toList)
  | .list items =>
    match dataType.map Kind.ofType with
    | some .array => (ArrayLiteral.encode items).map .string
    | _ => v.toJson.map .json
  | .document _ => v.toJson.map .json
  | .tuple _ => .error (.noLiteral "tuple")
  | .foreign x => .error (.noLiteral x.typeName)

end Literal

end StagedTable.Sql
