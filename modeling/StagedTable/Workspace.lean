import StagedTable.Session.Delivery

/-!
# Workspaces

Several sessions at work beside each other. Each keeps its changes in one of the logs of the
workspace, which it may share with others. The ids of changes are unique in the whole workspace.
-/

namespace StagedTable

/-- Sessions, each with the number of its log, and the logs. -/
structure Workspace where
  sessions : List (Nat × Session)
  logs : List ChangeLog
  issued : Nat

namespace Workspace

/-- A workspace in which all sessions share one log. -/
def shared (sessions : List Session) : Workspace := ⟨sessions.map fun s => (0, s), [.empty], 0⟩

/-- A workspace in which every session has a log of its own. -/
def apart (sessions : List Session) : Workspace :=
  ⟨sessions.zipIdx.map fun (s, i) => (i, s), sessions.map fun _ => .empty, 0⟩

/-- The desk of a session. -/
def desk? (w : Workspace) (i : Nat) : Option Desk := do
  let (log, session) ← w.sessions[i]?
  return ⟨session, (← w.logs[log]?), w.issued⟩

/-- Puts back the desk of a session. -/
def putDesk (w : Workspace) (i : Nat) (d : Desk) : Workspace :=
  match w.sessions[i]? with
  | some (log, _) =>
    ⟨w.sessions.set i (log, d.session), w.logs.set log d.staging.log, d.staging.issued⟩
  | none => w

/-- Does something at the desk of a session. -/
def at? (w : Workspace) (i : Nat) (act : Desk → α × Desk) : Option (α × Workspace) := do
  let (result, desk) := act (← w.desk? i)
  return (result, w.putDesk i desk)

end Workspace

end StagedTable
