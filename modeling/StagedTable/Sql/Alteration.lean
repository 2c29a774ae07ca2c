import StagedTable.Sql.Definition

/-!
# Alterations

The changes that bring a table from one list of definitions to another, as data and as text. Columns
are matched by their ids, so that a renamed column is not dropped. The changes come in an order in
which they can be made one by one: the table is renamed first, then columns are dropped, then those
that stay are changed, then new ones are added.
-/

namespace StagedTable.Sql

open Text

/-- One change of a table. Columns are addressed by the names that they have at that time. -/
inductive Alteration
  | renameTable (name : String)
  | dropColumn (column : String)
  | renameColumn (column name : String)
  | setType (column dataType : String)
  | dropNotNull (column : String)
  | setNotNull (column : String)
  | setDefault (column expression : String)
  | dropDefault (column : String)
  | addPrimaryKey (column : String)
  | addUnique (column : String)
  | addForeignKey (column : String) (target : Reference)
  | dropConstraint (constraint : String)
  | addColumn (definition : Definition)
deriving DecidableEq

namespace Alteration

/-- The change of one column by its name. -/
def onColumn (column : String) (change : List Char) : List Char :=
  "ALTER COLUMN ".toList ++ identifier column ++ ' ' :: change

/-- The text of an added column. Its key is declared with it. -/
def renderAdded (d : Definition) : List Char :=
  "ADD COLUMN ".toList ++ d.render true

/-- The text of a change, without the table that it is made to. -/
def renderChange : Alteration → List Char
  | .renameTable name => "RENAME TO ".toList ++ identifier name
  | .dropColumn column => "DROP COLUMN ".toList ++ identifier column
  | .renameColumn column name =>
    "RENAME COLUMN ".toList ++ identifier column ++ " TO ".toList ++ identifier name
  | .setType column dataType =>
    onColumn column ("TYPE ".toList ++ dataType.toList ++ " USING ".toList ++ identifier column
      ++ "::".toList ++ dataType.toList)
  | .dropNotNull column => onColumn column "DROP NOT NULL".toList
  | .setNotNull column => onColumn column "SET NOT NULL".toList
  | .setDefault column expression => onColumn column ("SET DEFAULT ".toList ++ expression.toList)
  | .dropDefault column => onColumn column "DROP DEFAULT".toList
  | .addPrimaryKey column => "ADD PRIMARY KEY (".toList ++ identifier column ++ [')']
  | .addUnique column => "ADD UNIQUE (".toList ++ identifier column ++ [')']
  | .addForeignKey column target =>
    "ADD FOREIGN KEY (".toList ++ identifier column ++ ") ".toList ++ target.render
  | .dropConstraint constraint => "DROP CONSTRAINT ".toList ++ identifier constraint
  | .addColumn d => renderAdded d

/-- The statement that makes a change to a table. -/
def render (table : TableName) (a : Alteration) : List Char :=
  "ALTER TABLE ".toList ++ table.render ++ ' ' :: a.renderChange

end Alteration

namespace Definition

/-- The definition of an id; of several the last counts. -/
def find? (id : String) : List Definition → Option Definition
  | [] => none
  | d :: rest =>
    match find? id rest with
    | some found => some found
    | none => if d.id = id then some d else none

/-- The name of the primary key of a table. -/
def keyConstraint (table : String) : String := table ++ "_pkey"

/-- The name of the uniqueness constraint of a column, made when the constraint was. -/
def uniqueConstraint (table : String) (d : Definition) : String :=
  table ++ "_" ++ d.name ++ "_key"

/-- The name of the foreign key of a column: the one that is known, or the one made by default. -/
def foreignConstraint (table : String) (d : Definition) : String :=
  if d.constraintName = "" then table ++ "_" ++ d.name ++ "_fkey" else d.constraintName

/-- The changes of name, type, nullability and default. -/
def attributeChanges (old edited : Definition) : List Alteration :=
  (if edited.name = old.name then [] else [.renameColumn old.name edited.name])
    ++ (if edited.dataType = old.dataType then []
      else [.setType edited.name edited.dataType])
    ++ (if edited.nullable = old.nullable then []
      else if edited.nullable then [.dropNotNull edited.name] else [.setNotNull edited.name])
    ++ (if edited.defaultText = old.defaultText then []
      else if edited.hasDefault then [.setDefault edited.name edited.defaultText]
      else [.dropDefault edited.name])

/-- The changes of the primary key and of uniqueness. -/
def keyChanges (table : String) (old edited : Definition) : List Alteration :=
  (if edited.primaryKey = old.primaryKey then []
    else if edited.primaryKey then [.addPrimaryKey edited.name]
    else [.dropConstraint (keyConstraint table)])
  ++ (if edited.unique = old.unique then []
    else if edited.unique then [.addUnique edited.name]
    else [.dropConstraint (uniqueConstraint table old)])

/-- The changes of the foreign key: another target or another action takes a new key. -/
def foreignChanges (table : String) (old edited : Definition) : List Alteration :=
  if old.target? = edited.target? then []
  else
    (if old.target?.isSome then [.dropConstraint (foreignConstraint table old)] else [])
      ++ (match edited.target? with
        | some target => [.addForeignKey edited.name target]
        | none => [])

/-- The changes that bring a column from one definition to another; `table` is the name that the
table had when its constraints were named. Every change after the renaming addresses the column by
its new name. -/
def changes (table : String) (old edited : Definition) : List Alteration :=
  attributeChanges old edited ++ keyChanges table old edited
    ++ foreignChanges table old edited

end Definition

/-- The name of a table after an edit; an empty new name keeps the old one. -/
def finalName (table : String) (newName : Option String) : String :=
  match newName with
  | some name => if name = "" then table else name
  | none => table

/-- The changes of the columns that bring a table from one list of definitions to another. -/
def columnAlterations (table : String) (old edited : List Definition) : List Alteration :=
  (old.filterMap fun d =>
    if (Definition.find? d.id edited).isSome then none else some (.dropColumn d.name))
  ++ (edited.flatMap fun d =>
    match Definition.find? d.id old with
    | some before => before.changes table d
    | none => [])
  ++ (edited.filterMap fun d =>
    if (Definition.find? d.id old).isSome || blankString d.name then none
    else some (.addColumn d))

/-- The statements that bring a table from one list of definitions to another, under a new name if
one is given. -/
def alterTable (table : TableName) (old edited : List Definition)
    (newName : Option String) : List (List Char) :=
  let name := finalName table.name newName
  (if name = table.name then [] else [(Alteration.renameTable name).render table])
    ++ (columnAlterations table.name old edited).map (·.render { table with name := name })

end StagedTable.Sql
