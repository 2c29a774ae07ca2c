import StagedTable.Sql.Statement

/-!
# The change log

Changes of rows that are staged but not yet committed, in the order in which they were staged. A
change keeps the statement that was built for it when it was staged. A log may hold several changes
of the same cell; they are applied in order.
-/

namespace StagedTable

open Text

/-- What a change does to its row. -/
inductive ChangeKind
  | insert
  | update
  | delete
deriving DecidableEq

/-- The word for a kind of change. -/
def ChangeKind.name : ChangeKind → String
  | .insert => "insert"
  | .update => "update"
  | .delete => "delete"

/-- The statement of a change. A delete without a pre-image is of the row itself. -/
def Sql.Statement.ofChange (kind : ChangeKind) (table : TableName) (data : Row)
    (preimage : Option Row) (columns : List Column) : Except StatementError Statement :=
  match kind, preimage with
  | .insert, _ => insertRow table data columns
  | .update, some preimage => updateRow table data preimage columns
  | .update, none => .error .noPreimage
  | .delete, preimage => deleteRow table (preimage.getD data) columns

/-- A staged change, with the statement built for it. The pre-image is the row as it was before. -/
structure Change where
  id : String
  kind : ChangeKind
  table : Sql.TableName
  data : Row
  preimage : Option Row
  statement : Sql.Statement

/-- The text of the statement of a change. -/
def Change.sql (c : Change) : String := c.statement.sql

/-- The id that a number stands for: 32 hexadecimal digits. -/
def changeId (n : Nat) : String := String.ofList (hexDigits 32 n)

/-- The changes staged so far, in order. -/
structure ChangeLog where
  changes : List Change

namespace ChangeLog

/-- The log without changes. -/
def empty : ChangeLog := ⟨[]⟩

/-- The number of changes. -/
def size (log : ChangeLog) : Nat := log.changes.length

/-- Whether there are no changes. -/
def isEmpty (log : ChangeLog) : Bool := log.changes.isEmpty

/-- The changes of one table, in order. -/
def forTable (log : ChangeLog) (table : Sql.TableName) : List Change :=
  log.changes.filter (·.table = table)

/-- The statements of all changes, in order. -/
def statements (log : ChangeLog) : List String := log.changes.map (·.sql)

/-- Puts a change at the end. -/
def append (log : ChangeLog) (c : Change) : ChangeLog := ⟨log.changes ++ [c]⟩

/-- Takes out the first change of an id. -/
def removeFrom? (id : String) : List Change → Option (Change × List Change)
  | [] => none
  | c :: rest =>
    if c.id = id then some (c, rest)
    else (removeFrom? id rest).map fun (found, rest) => (found, c :: rest)

/-- Takes out the change of an id. -/
def remove? (log : ChangeLog) (id : String) : Option (Change × ChangeLog) :=
  (removeFrom? id log.changes).map fun (c, rest) => (c, ⟨rest⟩)

@[simp] theorem changes_append (log : ChangeLog) (c : Change) :
    (log.append c).changes = log.changes ++ [c] := rfl

/-- What is taken out has the id, and all others stay in order. -/
theorem of_removeFrom? {id : String} {cs rest : List Change} {c : Change}
    (h : removeFrom? id cs = some (c, rest)) :
    c.id = id ∧ ∃ before after, cs = before ++ c :: after ∧ rest = before ++ after
      ∧ ∀ d ∈ before, d.id ≠ id := by
  induction cs generalizing rest with
  | nil => simp [removeFrom?] at h
  | cons d tail ih =>
    rw [removeFrom?] at h
    split at h
    · next hd =>
      cases h
      exact ⟨hd, [], tail, rfl, rfl, by simp⟩
    · next hd =>
      cases hr : removeFrom? id tail with
      | none => simp [hr] at h
      | some found =>
        obtain ⟨e, others⟩ := found
        simp only [hr, Option.map_some, Option.some.injEq, Prod.mk.injEq] at h
        obtain ⟨rfl, rfl⟩ := h
        obtain ⟨hid, before, after, rfl, rfl, hb⟩ := ih hr
        refine ⟨hid, d :: before, after, rfl, rfl, ?_⟩
        intro x hx
        rcases List.mem_cons.1 hx with rfl | hx
        · exact hd
        · exact hb x hx

end ChangeLog

/-- Why the log refuses an operation. -/
inductive LogError
  | statement (e : Sql.StatementError)
  | unknownChange (id : String)
deriving DecidableEq

/-- The wording of an error, if it has one of its own. -/
def LogError.message? : LogError → Option String
  | .statement e => e.message?
  | .unknownChange id => some ("No staged change with id " ++ id)

/-- A log together with the number of changes that were ever given an id. -/
structure Staging where
  log : ChangeLog
  issued : Nat

namespace Staging

/-- Nothing staged yet. -/
def empty : Staging := ⟨.empty, 0⟩

/-- Stages a change: builds its statement, and only if that succeeds gives it the next id and puts
it at the end of the log. -/
def add (s : Staging) (kind : ChangeKind) (table : Sql.TableName) (data : Row)
    (preimage : Option Row) (columns : List Column) : Except LogError (Change × Staging) :=
  match Sql.Statement.ofChange kind table data preimage columns with
  | .ok statement =>
    let c : Change := ⟨changeId (s.issued + 1), kind, table, data, preimage, statement⟩
    .ok (c, ⟨s.log.append c, s.issued + 1⟩)
  | .error e => .error (.statement e)

/-- Takes a change out of the log. -/
def remove (s : Staging) (id : String) : Except LogError (Change × Staging) :=
  match s.log.remove? id with
  | some (c, log) => .ok (c, { s with log := log })
  | none => .error (.unknownChange id)

/-- Takes all changes out of the log. -/
def clear (s : Staging) : Staging := { s with log := .empty }

end Staging

end StagedTable
