import StagedTable.Server.Error
import StagedTable.Settings

/-!
# Migration requests

A batch of statements that is to be run as one migration, and the report of what came of it.
-/

namespace StagedTable

/-- A batch of statements to be run as one; timeouts are in milliseconds. -/
structure MigrationRequest where
  statements : List String
  dryRun : Bool
  lockTimeout : Option Int
  statementTimeout : Option Int

/-- What came of one statement: done, with the number of rows affected where that is known, or
failed. -/
inductive StatementOutcome
  | done (rowsAffected : Option Int)
  | failed (error : ServerError)

/-- What came of one statement of a migration. -/
structure StatementReport where
  sql : String
  outcome : StatementOutcome

/-- Whether the statement was done. -/
def StatementReport.isDone (r : StatementReport) : Bool :=
  match r.outcome with
  | .done _ => true
  | .failed _ => false

/-- The report of a migration. -/
structure MigrationReport where
  succeeded : Bool
  dryRun : Bool
  committed : Bool
  statements : List StatementReport
  lockTimeout : Int
  statementTimeout : Int

/-- The first statement that failed. -/
def MigrationReport.firstFailure? (r : MigrationReport) : Option StatementReport :=
  r.statements.find? fun s => !s.isDone

/-- Why a migration is not run to its end. -/
inductive MigrationError
  | noStatements
  | driver (e : DriverError)

/-- The wording of an error. -/
def MigrationError.message : MigrationError → String
  | .noStatements => "A migration needs at least one statement"
  | .driver e => e.text

namespace MigrationRequest

/-- The lock timeout that holds for a request. -/
def lockTimeoutInForce (r : MigrationRequest) : Int :=
  r.lockTimeout.getD Settings.default.migration.lockTimeout

/-- The statement timeout that holds for a request. -/
def statementTimeoutInForce (r : MigrationRequest) : Int :=
  r.statementTimeout.getD Settings.default.migration.statementTimeout

/-- A request that names its timeouts; an empty batch is refused. -/
def prepare (r : MigrationRequest) : Except MigrationError MigrationRequest :=
  if r.statements.isEmpty then .error .noStatements
  else .ok { r with
    lockTimeout := some r.lockTimeoutInForce
    statementTimeout := some r.statementTimeoutInForce }

end MigrationRequest

/-- Something that runs migrations. -/
abbrev Migrator := MigrationRequest → Except DriverError MigrationReport

/-- Prepares a request and hands it to a migrator. -/
def runMigration (migrator : Migrator) (r : MigrationRequest) :
    Except MigrationError MigrationReport :=
  match r.prepare with
  | .error e => .error e
  | .ok request =>
    match migrator request with
    | .ok report => .ok report
    | .error e => .error (.driver e)

end StagedTable
