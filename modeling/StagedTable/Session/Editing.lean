import StagedTable.Session
import StagedTable.Value.Temporal

/-!
# Editing and staging

Cell edits are collected until their row is staged; staging makes one update of them. A row can also
be staged for deletion and a new one for insertion. A row that is pending delete can be changed no
more.
-/

namespace StagedTable.Session

/-- Changes the session. -/
def change (f : Session → Session) : Act Unit := .update (·.mapSession f)

/-- Changes the edits of the session. -/
def changeEdits (f : Edits → Edits) : Act Unit := change (·.mapEdits f)

@[simp] theorem change_apply (f : Session → Session) (d : Desk) :
    change f d = (.ok (), d.mapSession f) := rfl

@[simp] theorem changeEdits_apply (f : Edits → Edits) (d : Desk) :
    changeEdits f d = (.ok (), d.mapSession (·.mapEdits f)) := rfl

/-- Edits a cell. An edit back to the staged value is forgotten. -/
def editCell (row : Int) (name : String) (value : Value) : Act Unit := do
  let content ← .look (·.openRow row)
  let c ← .look (·.column name)
  let cell : CellRef := ⟨row, name⟩
  let same ← .look fun _ =>
    (c.compare value ((content.get? name).getD .null)).mapError .comparison
  if same then changeEdits (·.erase cell) else changeEdits (·.put cell value)

/-- Edits a cell by the text of its new value. -/
def editText (row : Int) (name text : String) : Act Unit := do
  let c ← .look (·.column name)
  let value ← .look fun _ => (c.entered text).mapError .parse
  editCell row name value

/-- Stages a change of the table of the session. -/
def stage (kind : ChangeKind) (data : Row) (preimage : Option Row) : Act Change := fun d =>
  match d.staging.add kind d.session.table data preimage d.session.data.columns with
  | .ok (change, staging) => (.ok change, { d with staging := staging })
  | .error e => (.error (.log e), d)

/-- A refused change leaves the desk as it was. -/
theorem eq_of_stage_error {kind : ChangeKind} {data : Row} {preimage : Option Row} {d d' : Desk}
    {e : SessionError} (h : stage kind data preimage d = (.error e, d')) : d' = d := by
  unfold stage at h
  split at h
  · simp at h
  · exact (Prod.mk.inj h).2.symm

/-- Makes an update of the edits of a row, if there are any. -/
def stageRow (row : Int) : Act (Option Change) := do
  let content ← .look (·.openRow row)
  let data ← .read (·.session.rowEdits row)
  if data.isEmpty then return none
  else
    let change ← stage .update data (some content)
    changeEdits (·.eraseRow row)
    return some change

/-- Stages the deletion of a row. Its edits are forgotten. -/
def deleteRow (row : Int) : Act Change := do
  let content ← .look (·.openRow row)
  let change ← stage .delete content (some content)
  changeEdits (·.eraseRow row)
  return change

/-- Refuses names that are no columns. -/
def requireColumns : List String → Act Unit
  | [] => return
  | name :: rest => do
    let _ ← .look (·.column name)
    requireColumns rest

/-- Stages the insertion of a row, all of whose names must be columns. -/
def insertRow (data : Row) : Act Change := do
  requireColumns data.names
  stage .insert data none

end StagedTable.Session
