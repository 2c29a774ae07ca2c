import StagedTable.Attempt
import StagedTable.Server.Commit
import StagedTable.Server.Migration
import StagedTable.Staging.View
import StagedTable.Value.Text

/-!
# Sessions

An editing session over one table: the columns and rows that were fetched, and the cell edits that
are not staged yet. A session works at a *desk*, where the staging area of its changes lies; several
sessions may share a staging area.

An operation may be refused. Operations are attempts, so that it can be said what desk a refused
operation leaves.
-/

namespace StagedTable

/-- The columns and rows of a table, as they were fetched. -/
structure TableData where
  columns : List Column
  rows : List Row

/-- Whether two fetches brought the same. -/
def TableData.equal (a b : TableData) : Bool :=
  Row.equalAll a.rows b.rows && a.columns == b.columns

/-- Why a table cannot be fetched. -/
structure LoadError where
  message : String
deriving DecidableEq

/-- Something that fetches a table: its answer to the request that comes after so many others. -/
abbrev Loader := Nat → Except LoadError TableData

/-- A session. It counts how often its loader was asked. -/
structure Session where
  table : Sql.TableName
  data : TableData
  edits : Edits
  loader : Option Loader
  loads : Nat

/-- How staged changes name their row. -/
inductive RowIdentity
  | primaryKey
  | fullRow
deriving DecidableEq

/-- The word for a way to name rows. -/
def RowIdentity.name : RowIdentity → String
  | .primaryKey => "primary_key"
  | .fullRow => "full_row"

/-- Why an operation is refused. -/
inductive SessionError
  | outOfRange (row : Int)
  | pendingDelete (row : Int)
  | unknownColumn (name : String) (table : Sql.TableName)
  | parse (e : Value.ParseError)
  | comparison (e : RenderError)
  | log (e : LogError)
  | noLoader
  | load (e : LoadError)
  | nothingStaged
  | commit (e : CommitError)
  | record (e : RenderError)
  | migration (e : MigrationError)

/-- The wording of an error, if it has one of its own; a text that cannot be parsed has none. -/
def SessionError.message? : SessionError → Option String
  | .outOfRange row => some ("Row " ++ toString row ++ " is out of range")
  | .pendingDelete row => some ("Row " ++ toString row ++ " is pending delete")
  | .unknownColumn name table =>
    some ("Unknown column " ++ name ++ " in " ++ table.schema ++ "." ++ table.name)
  | .parse _ => none
  | .comparison e => e.message?
  | .log e => e.message?
  | .noLoader => some "No loader to refresh the table from"
  | .load e => some e.message
  | .nothingStaged => some "There are no staged changes to commit"
  | .commit e => some e.message
  | .record e => e.message?
  | .migration e => some e.message

namespace Session

/-- A session on what was fetched. -/
def start (table : Sql.TableName) (data : TableData) (loader : Option Loader) : Session :=
  ⟨table, data, .empty, loader, 0⟩

/-- How staged changes name their row. -/
def identity (s : Session) : RowIdentity :=
  if (Column.keys s.data.columns).isEmpty then .fullRow else .primaryKey

/-- The edits of a row, in table order. -/
def rowEdits (s : Session) (row : Int) : Row :=
  .ofList ((s.edits.ofRow row).mergeSort fun a b =>
    decide (Column.position s.data.columns a.1 ≤ Column.position s.data.columns b.1))

/-- Changes the edits. -/
def mapEdits (f : Edits → Edits) (s : Session) : Session := { s with edits := f s.edits }

/-- Takes over what was fetched anew. Edits name their rows by number, so they are kept only if
nothing has changed. -/
def reload (s : Session) (data : TableData) : Session :=
  { s with data := data, edits := if data.equal s.data then s.edits else .empty }

end Session

/-- A session together with the staging area of its changes. -/
structure Desk where
  session : Session
  staging : Staging

namespace Desk

/-- The staged changes of the table of the session. -/
def changes (d : Desk) : List Change := d.staging.log.forTable d.session.table

/-- The fetched rows with the staged changes on top. -/
def staged (d : Desk) : View := View.reconcile d.session.data.rows d.changes .empty

/-- The fetched rows with the staged changes and the edits on top. -/
def view (d : Desk) : View := View.reconcile d.session.data.rows d.changes d.session.edits

/-- The staged content of a row that can still be changed. -/
def openRow (d : Desk) (row : Int) : Except SessionError Row :=
  match if 0 ≤ row then d.staged.rows[row.toNat]? else none with
  | none => .error (.outOfRange row)
  | some content =>
    if d.staged.isDeleted row.toNat then .error (.pendingDelete row) else .ok content

/-- The column of a name. -/
def column (d : Desk) (name : String) : Except SessionError Column :=
  match Column.find? name d.session.data.columns with
  | some c => .ok c
  | none => .error (.unknownColumn name d.session.table)

/-- Applies a function to the session. -/
def mapSession (f : Session → Session) (d : Desk) : Desk := { d with session := f d.session }

end Desk

/-- An operation at a desk, which may be refused. -/
abbrev Act := Attempt Desk SessionError

end StagedTable
