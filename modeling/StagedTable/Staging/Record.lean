import StagedTable.Staging.Log
import StagedTable.Digest.Sha256

/-!
# Commit records

What is kept of a commit: the changes in a form that can be stored, a summary of them, and an id
that is the digest of the parent, the time and the statements.
-/

namespace StagedTable

open Text

/-- A committed change, its rows as JSON. -/
structure CommittedChange where
  kind : ChangeKind
  table : Sql.TableName
  data : String
  preimage : Option String
  sql : String
  order : Nat

/-- The record of a commit. -/
structure CommitRecord where
  id : String
  parent : Option String
  message : String
  summary : String
  createdAt : String
  changes : List CommittedChange

/-- A count of things, in the plural if there are several. -/
def countText (count : Nat) (noun : String) : List Char :=
  digits count ++ ' ' :: noun.toList ++ (if 1 < count then ['s'] else [])

/-- The schema and name of a table, unquoted. -/
def Sql.TableName.plainText (t : Sql.TableName) : List Char :=
  t.schema.toList ++ '.' :: t.name.toList

/-- The members of a list in the order of their first occurrence, each once. -/
def firstOccurrences [BEq α] (xs : List α) : List α :=
  (xs.foldl (fun seen x => if seen.contains x then seen else x :: seen) []).reverse

/-- A short description of changes: how many of each kind, and on which tables. -/
def summarize (changes : List Change) : List Char :=
  let part (kind : ChangeKind) : Option (List Char) :=
    let n := (changes.filter (·.kind = kind)).length
    if n = 0 then none else some (countText n kind.name)
  match [ChangeKind.insert, .update, .delete].filterMap part with
  | [] => []
  | parts =>
    List.intercalate ", ".toList parts ++ " on ".toList
      ++ List.intercalate ", ".toList (firstOccurrences (changes.map (·.table.plainText)))

/-- What stands for the parent of a commit that has none. -/
def rootParent : String := "root"

/-- The bytes of a text in UTF-8. -/
def utf8 (s : String) : List UInt8 := s.toUTF8.toList

/-- The bytes that a commit id is the digest of: parent, time and statements, one after the
other. -/
def commitBytes (parent : Option String) (time : String) (statements : List String) :
    List UInt8 :=
  let parent := parent.getD ""
  utf8 (if parent = "" then rootParent else parent) ++ utf8 time ++ statements.flatMap utf8

/-- The id of a commit. -/
def commitId (parent : Option String) (time : String) (statements : List String) : String :=
  String.ofList (Sha256.hexDigest (commitBytes parent time statements))

/-- A row as JSON. -/
def Row.toJson (r : Row) : Except RenderError String :=
  (Value.document r.fields).toJson.map String.ofList

/-- The row before a change as JSON, if there is one. -/
def Change.preimageJson (c : Change) : Except RenderError (Option String) :=
  match c.preimage with
  | none => .ok none
  | some preimage => preimage.toJson.map some

/-- A change in the form in which it is kept, at a place of its commit. -/
def Change.committed (c : Change) (order : Nat) : Except RenderError CommittedChange := do
  return ⟨c.kind, c.table, ← c.data.toJson, ← c.preimageJson, c.sql, order⟩

/-- The changes in the form in which they are kept, numbered from `start`. -/
def committedFrom (start : Nat) : List Change → Except RenderError (List CommittedChange)
  | [] => return []
  | c :: rest => return (← c.committed start) :: (← committedFrom (start + 1) rest)

/-- The record of a commit of changes at a time. A blank message gives way to the summary. There is
none if a row cannot be written. -/
def CommitRecord.ofChanges (changes : List Change) (message parent : Option String)
    (now : DateTime) : Except RenderError CommitRecord := do
  let summary := String.ofList (summarize changes)
  let time := String.ofList now.text
  let message := trimString (message.getD "")
  return {
    id := commitId parent time (changes.map (·.sql))
    parent := parent
    message := if message = "" then summary else message
    summary := summary
    createdAt := time
    changes := ← committedFrom 0 changes }

end StagedTable
