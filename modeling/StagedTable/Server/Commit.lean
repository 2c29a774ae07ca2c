import StagedTable.Server.Error

/-!
# Running statements

Statements are run one by one through an executor, and the first failure ends the run. What was run
before it stays run.
-/

namespace StagedTable

/-- Something that runs statements: the answer to a statement, given the statements that were run
before it. -/
abbrev Executor := List String → String → Except ServerError (List Row)

/-- The failure of a run: which statement failed, and why. -/
structure CommitError where
  index : Nat
  sql : String
  error : ServerError

/-- The wording of an error. -/
def CommitError.message (e : CommitError) : String :=
  "Statement " ++ toString (e.index + 1) ++ " failed: " ++ e.error.message

/-- What came of a run: the statements that were run, in order, and the rows of each or the
failure. -/
structure Run where
  executed : List String
  outcome : Except CommitError (List (List Row))

/-- Runs statements after others that were run already with the given rows. -/
def runAfter (executor : Executor) (executed : List String) (rows : List (List Row)) :
    List String → Run
  | [] => ⟨executed, .ok rows⟩
  | sql :: rest =>
    match executor executed sql with
    | .ok answer => runAfter executor (executed ++ [sql]) (rows ++ [answer]) rest
    | .error e => ⟨executed, .error ⟨executed.length, sql, e⟩⟩

/-- Runs statements one by one up to the first failure. -/
def runStatements (executor : Executor) (statements : List String) : Run :=
  runAfter executor [] [] statements

end StagedTable
