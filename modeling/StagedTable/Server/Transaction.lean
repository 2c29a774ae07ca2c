import StagedTable.Attempt
import StagedTable.Server.Migration
import StagedTable.Value.Decoded

/-!
# Transactions

Statements and migrations run on a database engine inside a transaction of a connection. A
transaction that is still open when its scope ends is committed, or rolled back if the scope ends by
an error; the connection is closed in either case. The events of a connection are recorded in order.
-/

namespace StagedTable

open Text

/-- What happens on a connection. -/
inductive Event
  | connect
  | begin
  | exec (sql : String)
  | commit
  | rollback
  | close
deriving DecidableEq

/-- The wording of an event. -/
def Event.text : Event → String
  | .connect => "connect"
  | .begin => "begin"
  | .exec sql => "exec " ++ sql
  | .commit => "commit"
  | .rollback => "rollback"
  | .close => "close"

/-- The answer of an engine to a statement: rows, a count of affected rows (negative when it is not
known), or a failure. -/
inductive Reply
  | rows (rows : List Row)
  | count (n : Int)
  | failure (e : DriverError)

/-- A database engine: its dialect, and its answer to a statement, given the statements that were
sent before. -/
structure Engine where
  dialect : String
  answer : List String → String → Reply

/-- A connection: what happened on it, and whether a transaction is open. -/
structure Connection where
  events : List Event
  inTransaction : Bool

namespace Connection

/-- A connection that nothing happened on. -/
def fresh : Connection := ⟨[], false⟩

/-- The statements that were sent, in order. -/
def sent (c : Connection) : List String :=
  c.events.filterMap fun
    | .exec sql => some sql
    | _ => none

/-- Records an event. -/
def record (c : Connection) (e : Event) : Connection := { c with events := c.events ++ [e] }

/-- Opens a transaction. -/
def begin (c : Connection) : Connection := { c.record .begin with inTransaction := true }

/-- Ends the transaction, if one is open. -/
def finish (c : Connection) (e : Event) : Connection :=
  if c.inTransaction then { c.record e with inTransaction := false } else c

end Connection

/-- Work on a connection, which may end by a driver error. -/
abbrev Work := Attempt Connection DriverError

namespace Work

/-- Does work on a connection and closes it, also after an error. -/
def withConnection (work : Work α) : Work α := fun c =>
  let (result, c) := work (c.record .connect)
  (result, c.record .close)

/-- Does work in a transaction. If it is still open afterwards it is committed, or rolled back after
an error. -/
def inTransaction (work : Work α) : Work α := fun c =>
  let (result, c) := work c.begin
  match result with
  | .ok a => (.ok a, c.finish .commit)
  | .error e => (.error e, c.finish .rollback)

/-- Sends a statement. -/
def send (engine : Engine) (sql : String) : Work Reply := fun c =>
  let c' := c.record (.exec sql)
  match engine.answer c.sent sql with
  | .failure e => (.error e, c')
  | reply => (.ok reply, c')

/-- Commits the open transaction. -/
def commit : Work Unit := .update (·.finish .commit)

/-- Rolls the open transaction back. -/
def rollback : Work Unit := .update (·.finish .rollback)

/-- Does work on a new connection. Yields its result and what happened. -/
def run (work : Work α) : Except DriverError α × List Event :=
  let (result, c) := work .fresh
  (result, c.events)

end Work

namespace Engine

/-- A row as the driver hands it over, with its values decoded. -/
def decodeRow (r : Row) : Row :=
  ⟨Value.decodeFields r.fields, by rw [Value.keys_decodeFields]; exact r.nodup⟩

/-- Runs one statement in a transaction of its own. Yields the decoded rows. -/
def execute (engine : Engine) (sql : String) : Work (List Row) :=
  Work.withConnection <| Work.inTransaction do
    match ← Work.send engine sql with
    | .rows rows => return rows.map decodeRow
    | _ => return []

/-- The rows of one statement, or the server's error, and what happened. -/
def query (engine : Engine) (sql : String) : Except ServerError (List Row) × List Event :=
  let (result, events) := (engine.execute sql).run
  (match result with
    | .ok rows => .ok rows
    | .error e => .error (.ofDriver e), events)

/-- The statement that sets a timeout for the open transaction. -/
def timeoutStatement (name : String) (milliseconds : Int) : String :=
  "SET LOCAL " ++ name ++ " = '" ++ String.ofList (signedDigits milliseconds) ++ "ms'"

/-- Sets the timeouts of the open transaction, in the one dialect that knows them. -/
def setTimeouts (engine : Engine) (lock statement : Int) : Work Unit := do
  if engine.dialect == "postgresql" then
    let _ ← Work.send engine (timeoutStatement "lock_timeout" lock)
    let _ ← Work.send engine (timeoutStatement "statement_timeout" statement)

/-- Runs one statement of a migration; its failure is part of the report. -/
def report (engine : Engine) (sql : String) : Work StatementReport := fun c =>
  let (result, c) := Work.send engine sql c
  let outcome := match result with
    | .ok (.count n) => .done (if 0 ≤ n then some n else none)
    | .ok _ => .done none
    | .error e => .failed (.ofDriver e)
  (.ok ⟨sql, outcome⟩, c)

/-- Runs the statements of a migration up to the first failure. -/
def reportAll (engine : Engine) : List String → Work (List StatementReport)
  | [] => return []
  | sql :: rest => do
    let r ← engine.report sql
    if r.isDone then return r :: (← engine.reportAll rest)
    else return [r]

/-- Runs a migration in one transaction. It is committed if every statement was done and it is no
dry run, and rolled back otherwise. -/
def migrate (engine : Engine) (r : MigrationRequest) : Work MigrationReport :=
  Work.withConnection <| Work.inTransaction do
    engine.setTimeouts r.lockTimeoutInForce r.statementTimeoutInForce
    let reports ← engine.reportAll r.statements
    let succeeded := reports.all (·.isDone)
    let committed := succeeded && !r.dryRun
    if committed then Work.commit else Work.rollback
    return ⟨succeeded, r.dryRun, committed, reports, r.lockTimeoutInForce,
      r.statementTimeoutInForce⟩

end Engine

end StagedTable
