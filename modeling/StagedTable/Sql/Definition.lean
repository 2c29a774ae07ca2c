import StagedTable.Text.Blank
import StagedTable.Sql.Literal

/-!
# Column definitions

The wanted state of a column, and the statement that creates a table from definitions. A key of one
column is declared with the column, a key of several at the end of the table.
-/

namespace StagedTable.Sql

open Text

/-- The target of a foreign key, with what happens to referring rows. -/
structure Reference where
  table : TableName
  column : String
  onDelete : String
  onUpdate : String
deriving DecidableEq

namespace Reference

/-- The action that a foreign key takes unless another is named. -/
def noAction : String := "NO ACTION"

/-- Whether schema, table and column are all named. -/
def isComplete (r : Reference) : Bool :=
  r.table.schema != "" && r.table.name != "" && r.column != ""

/-- The text of a foreign key target, with the actions that are named. -/
def render (r : Reference) : List Char :=
  "REFERENCES ".toList ++ r.table.render ++ '(' :: identifier r.column ++ [')']
    ++ (if r.onDelete = noAction then [] else " ON DELETE ".toList ++ r.onDelete.toList)
    ++ (if r.onUpdate = noAction then [] else " ON UPDATE ".toList ++ r.onUpdate.toList)

end Reference

/-- The wanted state of a column. The `id` stays the same when the column is renamed. -/
structure Definition where
  id : String
  name : String
  dataType : String
  nullable : Bool
  primaryKey : Bool
  unique : Bool
  defaultText : String
  references : Option Reference
  constraintName : String
deriving DecidableEq

namespace Definition

/-- The foreign key target, if it is complete. -/
def target? (d : Definition) : Option Reference :=
  match d.references with
  | some r => if r.isComplete then some r else none
  | none => none

/-- Whether a default is given. -/
def hasDefault (d : Definition) : Bool := !blankString d.defaultText

/-- The clause of the default, if one is given. -/
def defaultClause (d : Definition) : List (List Char) :=
  if d.hasDefault then ["DEFAULT ".toList ++ d.defaultText.toList] else []

/-- The clause of the foreign key, if there is one. -/
def targetClause (d : Definition) : List (List Char) :=
  match d.target? with
  | some r => [r.render]
  | none => []

/-- Name and data type. -/
def heading (d : Definition) : List (List Char) := [identifier d.name, d.dataType.toList]

/-- The clauses of nullability and uniqueness. A primary key column is not null and unique by
itself. -/
def constraintClauses (d : Definition) : List (List Char) :=
  (if !d.nullable && !d.primaryKey then ["NOT NULL".toList] else [])
    ++ (if d.unique && !d.primaryKey then ["UNIQUE".toList] else [])

/-- The text of a definition; `declaresKey` tells that a key column declares the key itself. -/
def render (declaresKey : Bool) (d : Definition) : List Char :=
  List.intercalate [' '] (d.heading
    ++ (if declaresKey && d.primaryKey then ["PRIMARY KEY".toList] else [])
    ++ d.constraintClauses ++ d.defaultClause ++ d.targetClause)

end Definition

/-- Why a table cannot be created. -/
inductive DefinitionError
  | noTableName
  | noColumns
  | noColumnName
  | noDataType (column : String)
deriving DecidableEq

/-- The wording of an error. -/
def DefinitionError.message : DefinitionError → String
  | .noTableName => "Table name is required"
  | .noColumns => "At least one column is required"
  | .noColumnName => "Column name is required"
  | .noDataType column => "Data type is required for column \"" ++ column ++ "\""

/-- The first thing that is missing in a list of definitions. -/
def firstMissing? (definitions : List Definition) : Option DefinitionError :=
  definitions.findSome? fun d =>
    if blankString d.name then some .noColumnName
    else if blankString d.dataType then some (.noDataType d.name)
    else none

/-- The statement that creates a table. -/
def createTable (table : TableName) (definitions : List Definition) :
    Except DefinitionError (List Char) :=
  if blankString table.name then .error .noTableName
  else if definitions.isEmpty then .error .noColumns
  else
    match firstMissing? definitions with
    | some e => .error e
    | none =>
      let keys := definitions.filter (·.primaryKey)
      let composite := decide (1 < keys.length)
      let key := if composite then
          ["PRIMARY KEY (".toList ++ List.intercalate ", ".toList (keys.map (identifier ·.name))
            ++ [')']]
        else []
      let body := List.intercalate ",\n  ".toList (definitions.map (·.render (!composite)) ++ key)
      .ok ("CREATE TABLE ".toList ++ table.render ++ " (\n  ".toList ++ body ++ "\n)".toList)

end StagedTable.Sql
