import StagedTable.Session.Editing
import StagedTable.Staging.Record

/-!
# Delivery

How staged changes leave a session: they are committed, or discarded. After a commit and after a
migration the table is fetched again. A failed commit keeps what is staged for another attempt.
-/

namespace StagedTable.Session

/-- Takes over what was fetched anew. -/
def refresh (data : TableData) : Act Unit := change (·.reload data)

/-- Asks the loader and takes over what it brings. -/
def load (loader : Loader) : Act Unit := do
  let asked ← .read (·.session.loads)
  change fun s => { s with loads := asked + 1 }
  let data ← .look fun _ => (loader asked).mapError .load
  refresh data

/-- Fetches the table again, if there is a way to do so. -/
def refetchIfPossible : Act Unit := do
  match ← .read (·.session.loader) with
  | some loader => load loader
  | none => return

/-- Fetches the table again. -/
def refetch : Act Unit := do
  match ← .read (·.session.loader) with
  | some loader => load loader
  | none => .fail .noLoader

/-- Forgets all that is staged and all edits of the session. -/
def discard : Act Unit := fun d =>
  (.ok (), { session := d.session.mapEdits fun _ => .empty, staging := d.staging.clear })

/-- What came of a commit: the statements that were run, in order, and the record or the error. -/
structure Commit where
  executed : List String
  outcome : Except SessionError CommitRecord

/-- What follows the run of all that was staged: it is forgotten, and the table fetched again. -/
def finish (record : CommitRecord) : Act CommitRecord := do
  discard
  refetchIfPossible
  return record

/-- Runs all that is staged, in order. Only when all has been run and put on record is it forgotten
and the table fetched again. -/
def commit (executor : Executor) (message parent : Option String) (now : DateTime) :
    Desk → Commit × Desk := fun d =>
  let changes := d.staging.log.changes
  if changes.isEmpty then (⟨[], .error .nothingStaged⟩, d)
  else
    let run := runStatements executor (changes.map (·.sql))
    match run.outcome with
    | .error e => (⟨run.executed, .error (.commit e)⟩, d)
    | .ok _ =>
      match CommitRecord.ofChanges changes message parent now with
      | .error e => (⟨run.executed, .error (.record e)⟩, d)
      | .ok record =>
        let (outcome, d) := finish record d
        (⟨run.executed, outcome⟩, d)

/-- Runs statements as one migration. The table is fetched again if it was committed. -/
def migrate (migrator : Migrator) (request : MigrationRequest) : Act MigrationReport := do
  let report ← .look fun _ => (runMigration migrator request).mapError .migration
  if report.committed then refetchIfPossible
  return report

end StagedTable.Session
