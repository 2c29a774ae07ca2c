import StagedTable.Server.Transaction

/-!
# Migrations are all or nothing

A migration sends its statements one by one in a transaction, behind the statements that set its
timeouts. Which of them fail is up to the engine; `Engine.firstFailure?` finds the first one that
does. The main statement is about all that happens on the connection (`run_migrate`): nothing is
sent behind the first failure, the transaction ends once, behind the last statement, and by a commit
only if all statements were done and the run was no dry one. The report says the same.
-/

namespace StagedTable

/-! ### What is to be shown -/

/-- The events of a connection on which statements were sent in one transaction, which then
ended. -/
def Event.transaction (sent : List String) (ending : Event) : List Event :=
  [.connect, .begin] ++ sent.map .exec ++ [ending, .close]

/-- The statements of a batch that are sent if the one at a place is the first to fail, or none
is. -/
def sentUpTo (failure : Option Nat) (statements : List String) : List String :=
  match failure with
  | none => statements
  | some k => statements.take (k + 1)

namespace Engine

variable (engine : Engine)

/-- The error of a statement, if it fails when it is sent behind others. -/
def failure? (before : List String) (sql : String) : Option DriverError :=
  match engine.answer before sql with
  | .failure e => some e
  | _ => none

/-- The place of the first statement of a batch that fails when the batch is sent behind other
statements. -/
def firstFailure? (before statements : List String) : Option Nat :=
  (List.range statements.length).find? fun k =>
    (engine.failure? (before ++ statements.take k) (statements.getD k "")).isSome

/-- Whether some statements are those that set the timeouts of a migration: for locks and then for
statements, each as the request names it or else by default, in the one dialect that knows them. -/
def SetTimeouts (r : MigrationRequest) (settings : List String) : Prop :=
  (engine.dialect = "postgresql" → settings = [
    "SET LOCAL lock_timeout = '"
      ++ toString (r.lockTimeout.getD Settings.default.migration.lockTimeout) ++ "ms'",
    "SET LOCAL statement_timeout = '"
      ++ toString (r.statementTimeout.getD Settings.default.migration.statementTimeout) ++ "ms'"])
  ∧ (engine.dialect ≠ "postgresql" → settings = [])

end Engine

/-- Whether a report tells what came of a request: of its statements the one at a place was the
first to fail, or none was. -/
structure MigrationReport.Tells (report : MigrationReport) (r : MigrationRequest)
    (failure : Option Nat) : Prop where
  sql : report.statements.map (·.sql) = sentUpTo failure r.statements
  isDone_iff : ∀ k s, report.statements[k]? = some s → (s.isDone = true ↔ failure ≠ some k)
  succeeded_iff : report.succeeded = true ↔ failure = none
  dryRun : report.dryRun = r.dryRun
  committed_iff : report.committed = true ↔ failure = none ∧ r.dryRun = false
  firstFailure?_eq_none_iff : report.firstFailure? = none ↔ report.succeeded = true
  firstFailure?_eq_last :
    report.succeeded = false → report.firstFailure? = report.statements.getLast?

/-! ### Sending statements -/

namespace Connection

/-- The connection after more statements were sent. -/
def after (c : Connection) (statements : List String) : Connection :=
  { c with events := c.events ++ statements.map .exec }

variable (c : Connection) (statements others : List String)

@[simp] theorem after_nil : c.after [] = c := by
  simp [after]

@[simp] theorem after_after :
    (c.after statements).after others = c.after (statements ++ others) := by
  simp [after]

@[simp] theorem sent_after : (c.after statements).sent = c.sent ++ statements := by
  show (c.events ++ statements.map Event.exec).filterMap _ = _
  rw [List.filterMap_append, List.filterMap_map]
  exact congrArg (c.sent ++ ·) List.filterMap_some

@[simp] theorem inTransaction_after : (c.after statements).inTransaction = c.inTransaction := rfl

@[simp] theorem events_after :
    (c.after statements).events = c.events ++ statements.map .exec := rfl

end Connection

namespace Engine

variable (engine : Engine) {before rest : List String} {sql : String}

theorem firstFailure?_nil : engine.firstFailure? before [] = none := rfl

theorem firstFailure?_cons :
    engine.firstFailure? before (sql :: rest)
      = if (engine.failure? before sql).isSome then some 0
        else (engine.firstFailure? (before ++ [sql]) rest).map (· + 1) := by
  unfold firstFailure?
  rw [List.length_cons, List.range_succ_eq_map, List.find?_cons, List.find?_map]
  simp only [List.take_zero, List.append_nil, List.getD_cons_zero, Function.comp_def,
    Nat.succ_eq_add_one, List.take_succ_cons, List.getD_cons_succ, List.append_assoc,
    List.singleton_append]
  cases (engine.failure? before sql).isSome <;> rfl

theorem send_of_failure {c : Connection} {e : DriverError}
    (h : engine.failure? c.sent sql = some e) :
    Work.send engine sql c = (.error e, c.after [sql]) := by
  unfold failure? at h
  unfold Work.send
  cases hanswer : engine.answer c.sent sql with
  | failure e' =>
    rw [hanswer] at h
    cases h
    rfl
  | _ => rw [hanswer] at h; cases h

theorem send_of_done {c : Connection} (h : engine.failure? c.sent sql = none) :
    ∃ reply, Work.send engine sql c = (.ok reply, c.after [sql]) := by
  unfold failure? at h
  unfold Work.send
  cases hanswer : engine.answer c.sent sql with
  | failure e' => rw [hanswer] at h; cases h
  | rows rows => exact ⟨.rows rows, rfl⟩
  | count n => exact ⟨.count n, rfl⟩

/-! ### Setting the timeouts -/

/-- Sends statements one by one; their rows are of no interest. -/
def sendAll : List String → Work Unit
  | [] => pure ()
  | sql :: rest => do
    let _ ← Work.send engine sql
    sendAll rest

theorem ofList_signedDigits (n : Int) : String.ofList (Text.signedDigits n) = toString n := by
  cases n with
  | ofNat m => rfl
  | negSucc m =>
    show String.ofList ('-' :: Text.digits (m + 1)) = "-" ++ String.ofList (Text.digits (m + 1))
    apply String.toList_inj.1
    simp

theorem timeoutStatement_eq (name : String) (milliseconds : Int) :
    timeoutStatement name milliseconds
      = "SET LOCAL " ++ name ++ " = '" ++ toString milliseconds ++ "ms'" := by
  rw [timeoutStatement, ofList_signedDigits]

/-- What sets the timeouts are statements that are sent one by one. -/
theorem exists_setTimeouts (r : MigrationRequest) :
    ∃ settings, engine.SetTimeouts r settings
      ∧ engine.setTimeouts r.lockTimeoutInForce r.statementTimeoutInForce
        = engine.sendAll settings := by
  unfold setTimeouts SetTimeouts
  by_cases hdialect : engine.dialect = "postgresql"
  · refine ⟨_, ⟨fun _ => rfl, fun h => absurd hdialect h⟩, ?_⟩
    rw [if_pos (beq_iff_eq.2 hdialect), timeoutStatement_eq, timeoutStatement_eq]
    rfl
  · refine ⟨[], ⟨fun h => absurd h hdialect, fun _ => rfl⟩, ?_⟩
    rw [if_neg (by simpa using hdialect)]
    rfl

theorem sendAll_apply (statements : List String) (c : Connection) :
    match engine.firstFailure? c.sent statements with
    | none => engine.sendAll statements c = (.ok (), c.after statements)
    | some k => ∃ e, engine.failure? (c.sent ++ statements.take k) (statements.getD k "") = some e
        ∧ engine.sendAll statements c = (.error e, c.after (statements.take (k + 1))) := by
  induction statements generalizing c with
  | nil => simp [firstFailure?_nil, sendAll]
  | cons sql rest ih =>
    rw [firstFailure?_cons]
    cases hfailure : engine.failure? c.sent sql with
    | some e =>
      refine ⟨e, ?_, ?_⟩
      · simpa using hfailure
      · exact Attempt.bind_of_error (engine.send_of_failure hfailure)
    | none =>
      obtain ⟨reply, hsend⟩ := engine.send_of_done hfailure
      have hnext : engine.sendAll (sql :: rest) c = engine.sendAll rest (c.after [sql]) :=
        Attempt.bind_of_ok hsend
      have hrest := ih (c.after [sql])
      rw [Connection.sent_after] at hrest
      rw [hnext]
      cases hfirst : engine.firstFailure? (c.sent ++ [sql]) rest with
      | none => simpa [hfirst] using hrest
      | some k => simpa [hfirst] using hrest

/-! ### Running the statements -/

@[simp] theorem sentUpTo_zero : sentUpTo (some 0) (sql :: rest) = [sql] := rfl

@[simp] theorem sentUpTo_succ (failure : Option Nat) :
    sentUpTo (failure.map (· + 1)) (sql :: rest) = sql :: sentUpTo failure rest := by
  cases failure <;> rfl

/-- Whether all reports are of statements that were done, but for the one at a place, which is the
last. -/
def EndsAt (failure : Option Nat) (reports : List StatementReport) : Prop :=
  match failure with
  | none => ∀ s ∈ reports, s.isDone = true
  | some k => ∃ done last, reports = done ++ [last] ∧ done.length = k
      ∧ (∀ s ∈ done, s.isDone = true) ∧ last.isDone = false

theorem EndsAt.cons {failure : Option Nat} {s : StatementReport} {reports : List StatementReport}
    (hs : s.isDone = true) (h : EndsAt failure reports) :
    EndsAt (failure.map (· + 1)) (s :: reports) := by
  cases failure with
  | none => exact List.forall_mem_cons.2 ⟨hs, h⟩
  | some k =>
    obtain ⟨done, last, rfl, rfl, hdone, hlast⟩ := h
    exact ⟨s :: done, last, rfl, rfl, List.forall_mem_cons.2 ⟨hs, hdone⟩, hlast⟩

theorem report_apply (sql : String) (c : Connection) :
    ∃ s : StatementReport, engine.report sql c = (.ok s, c.after [sql]) ∧ s.sql = sql
      ∧ s.isDone = (engine.failure? c.sent sql).isNone := by
  unfold report
  cases hfailure : engine.failure? c.sent sql with
  | some e =>
    rw [engine.send_of_failure hfailure]
    exact ⟨_, rfl, rfl, rfl⟩
  | none =>
    obtain ⟨reply, hsend⟩ := engine.send_of_done hfailure
    rw [hsend]
    refine ⟨_, rfl, rfl, ?_⟩
    cases reply <;> rfl

theorem reportAll_of_done {s : StatementReport} {reports : List StatementReport}
    {c c' c'' : Connection} (hs : engine.report sql c = (.ok s, c')) (hdone : s.isDone = true)
    (hrest : engine.reportAll rest c' = (.ok reports, c'')) :
    engine.reportAll (sql :: rest) c = (.ok (s :: reports), c'') := by
  rw [reportAll, Attempt.bind_of_ok hs]
  simp only [hdone, if_true]
  exact Attempt.bind_of_ok hrest

theorem reportAll_of_failed {s : StatementReport} {c c' : Connection}
    (hs : engine.report sql c = (.ok s, c')) (hdone : s.isDone = false) :
    engine.reportAll (sql :: rest) c = (.ok [s], c') := by
  rw [reportAll, Attempt.bind_of_ok hs]
  simp [hdone]

theorem reportAll_apply (statements : List String) (c : Connection) :
    ∃ reports : List StatementReport,
      engine.reportAll statements c
        = (.ok reports, c.after (sentUpTo (engine.firstFailure? c.sent statements) statements))
      ∧ reports.map (·.sql) = sentUpTo (engine.firstFailure? c.sent statements) statements
      ∧ EndsAt (engine.firstFailure? c.sent statements) reports := by
  induction statements generalizing c with
  | nil =>
    refine ⟨[], ?_, rfl, fun _ h => nomatch h⟩
    simp [reportAll, firstFailure?_nil, sentUpTo]
  | cons sql rest ih =>
    obtain ⟨s, hs, hsql, hdone⟩ := engine.report_apply sql c
    rw [firstFailure?_cons]
    cases hfailure : engine.failure? c.sent sql with
    | some e =>
      rw [hfailure] at hdone
      refine ⟨[s], engine.reportAll_of_failed hs hdone, ?_, [], s, rfl, rfl, ?_, hdone⟩
      · simp [hsql]
      · simp
    | none =>
      rw [hfailure] at hdone
      obtain ⟨reports, hreports, hsqls, hends⟩ := ih (c.after [sql])
      rw [Connection.sent_after] at hreports hsqls hends
      refine ⟨s :: reports, ?_, ?_, hends.cons hdone⟩
      · rw [engine.reportAll_of_done hs hdone hreports]
        simp
      · simp [hsql, hsqls]

/-! ### The report -/

/-- The report of a migration, from the reports of its statements. -/
def tally (r : MigrationRequest) (reports : List StatementReport) : MigrationReport :=
  let succeeded := reports.all (·.isDone)
  ⟨succeeded, r.dryRun, succeeded && !r.dryRun, reports, r.lockTimeoutInForce,
    r.statementTimeoutInForce⟩

variable {r : MigrationRequest} {reports : List StatementReport} {failure : Option Nat}

theorem tells_of_done (hsql : reports.map (·.sql) = r.statements)
    (h : ∀ s ∈ reports, s.isDone = true) : (tally r reports).Tells r none := by
  have hsucceeded : (tally r reports).succeeded = true := List.all_eq_true.2 h
  have hcommitted : (tally r reports).committed = !r.dryRun := by
    show ((tally r reports).succeeded && !r.dryRun) = !r.dryRun
    rw [hsucceeded, Bool.true_and]
  have hfirst : (tally r reports).firstFailure? = none := by
    apply List.find?_eq_none.2
    intro s hs
    simp [h s hs]
  constructor
  case sql => exact hsql
  case isDone_iff =>
    intro k s hs
    simp [h s (List.mem_of_getElem? hs)]
  case succeeded_iff => simp [hsucceeded]
  case dryRun => rfl
  case committed_iff => simp [hcommitted]
  case firstFailure?_eq_none_iff => simp [hfirst, hsucceeded]
  case firstFailure?_eq_last => simp [hsucceeded]

theorem tells_of_failed {done : List StatementReport} {last : StatementReport}
    (hsql : (done ++ [last]).map (·.sql) = sentUpTo (some done.length) r.statements)
    (hdone : ∀ s ∈ done, s.isDone = true) (hlast : last.isDone = false) :
    (tally r (done ++ [last])).Tells r (some done.length) := by
  have hsucceeded : (tally r (done ++ [last])).succeeded = false := by
    simp [tally, hlast]
  have hcommitted : (tally r (done ++ [last])).committed = false := by
    show ((tally r (done ++ [last])).succeeded && !r.dryRun) = false
    rw [hsucceeded, Bool.false_and]
  have hfirst : (tally r (done ++ [last])).firstFailure? = some last := by
    have hnone : done.find? (fun s => !s.isDone) = none := by
      apply List.find?_eq_none.2
      intro s hs
      simp [hdone s hs]
    show List.find? _ (done ++ [last]) = some last
    rw [List.find?_append, hnone]
    simp [hlast]
  constructor
  case sql => exact hsql
  case isDone_iff =>
    intro k s hs
    -- the place is among those that were done, or it is that of the last report
    rcases Nat.lt_or_ge k done.length with hk | hk
    · have hmem : s ∈ done := by
        rw [show (tally r (done ++ [last])).statements = done ++ [last] from rfl,
          List.getElem?_append_left hk] at hs
        exact List.mem_of_getElem? hs
      simp [hdone s hmem]
      omega
    · rw [show (tally r (done ++ [last])).statements = done ++ [last] from rfl,
        List.getElem?_append_right hk, List.getElem?_singleton] at hs
      split at hs
      · cases hs
        simp [hlast]
        omega
      · cases hs
  case succeeded_iff => simp [hsucceeded]
  case dryRun => rfl
  case committed_iff => simp [hcommitted]
  case firstFailure?_eq_none_iff => simp [hfirst, hsucceeded]
  case firstFailure?_eq_last =>
    intro _
    rw [hfirst]
    exact List.getLast?_concat.symm

theorem tally_tells (hsql : reports.map (·.sql) = sentUpTo failure r.statements)
    (h : EndsAt failure reports) : (tally r reports).Tells r failure := by
  cases failure with
  | none => exact tells_of_done hsql h
  | some k =>
    obtain ⟨done, last, rfl, rfl, hdone, hlast⟩ := h
    exact tells_of_failed hsql hdone hlast

/-! ### A whole migration -/

/-- A connection on which a transaction was begun. -/
def begun : Connection := (Connection.fresh.record .connect).begin

theorem sent_begun : begun.sent = [] := rfl

/-- Work that fails is rolled back. -/
theorem run_of_error {α : Type} {work : Work α} {e : DriverError} {sent : List String}
    (h : work begun = (.error e, begun.after sent)) :
    (Work.withConnection (Work.inTransaction work)).run
      = (.error e, Event.transaction sent .rollback) := by
  unfold begun at h
  simp only [Work.run, Work.withConnection, Work.inTransaction, h]
  simp [Connection.finish, Connection.after, Connection.record, Connection.begin, Connection.fresh,
    Event.transaction]

/-- A transaction that was ended by the work is not ended again. -/
theorem run_of_ended {α : Type} {work : Work α} {a : α} {sent : List String} {ending : Event}
    (h : work begun = (.ok a, (begun.after sent).finish ending)) :
    (Work.withConnection (Work.inTransaction work)).run
      = (.ok a, Event.transaction sent ending) := by
  unfold begun at h
  simp only [Work.run, Work.withConnection, Work.inTransaction, h]
  simp [Connection.finish, Connection.after, Connection.record, Connection.begin, Connection.fresh,
    Event.transaction]

variable (r)

/-- A migration sends what sets its timeouts and then its statements, up to the first failure. If a
timeout cannot be set, the error is raised. Otherwise the migration is reported, and the transaction
is committed just if the report says so. -/
theorem run_migrate :
    ∃ settings, engine.SetTimeouts r settings ∧
      match engine.firstFailure? [] settings with
      | some k => ∃ e, engine.failure? (settings.take k) (settings.getD k "") = some e
        ∧ (engine.migrate r).run
          = (.error e, Event.transaction (settings.take (k + 1)) .rollback)
      | none => ∃ report : MigrationReport,
        (engine.migrate r).run
          = (.ok report, Event.transaction
              (settings ++ sentUpTo (engine.firstFailure? settings r.statements) r.statements)
              (if report.committed then .commit else .rollback))
        ∧ report.Tells r (engine.firstFailure? settings r.statements) := by
  obtain ⟨settings, hsettings, hset⟩ := engine.exists_setTimeouts r
  have hsend := engine.sendAll_apply settings begun
  rw [← hset, sent_begun] at hsend
  refine ⟨settings, hsettings, ?_⟩
  cases hfirst : engine.firstFailure? [] settings with
  | some k =>
    simp only [hfirst, List.nil_append] at hsend ⊢
    obtain ⟨e, he, hfailed⟩ := hsend
    exact ⟨e, he, run_of_error (Attempt.bind_of_error hfailed)⟩
  | none =>
    simp only [hfirst] at hsend ⊢
    obtain ⟨reports, hreports, hsql, hends⟩ :=
      engine.reportAll_apply r.statements (begun.after settings)
    rw [Connection.sent_after, sent_begun, List.nil_append] at hreports hsql hends
    rw [Connection.after_after] at hreports
    refine ⟨tally r reports, run_of_ended ?_, tally_tells hsql hends⟩
    refine (Attempt.bind_of_ok hsend).trans ((Attempt.bind_of_ok hreports).trans ?_)
    split
    · next h =>
      have hcommitted : (tally r reports).committed = true := h
      rw [if_pos hcommitted]
      rfl
    · next h =>
      have hkept : ¬ (tally r reports).committed = true := h
      rw [if_neg hkept]
      rfl

/-- An engine that fails on the second of the statements that it is sent behind two settings. -/
def halfwayEngine : Engine :=
  ⟨"postgresql", fun sent _ =>
    if sent.length = 3 then .failure ⟨"deadlock", [], none⟩ else .count 1⟩

/-- A migration of three statements that names its lock timeout. -/
def threeStatements : MigrationRequest := ⟨["A", "B", "C"], false, some 500, none⟩

/-- Both timeouts are set first, the third statement is not sent, and all is rolled back. -/
theorem run_migrate_halfway :
    ∃ report : MigrationReport, (halfwayEngine.migrate threeStatements).run
      = (.ok report, [.connect, .begin, .exec "SET LOCAL lock_timeout = '500ms'",
          .exec "SET LOCAL statement_timeout = '30000ms'", .exec "A", .exec "B", .rollback,
          .close])
      ∧ report.committed = false := by
  obtain ⟨settings, hsettings, h⟩ := halfwayEngine.run_migrate threeStatements
  have hset : settings = ["SET LOCAL lock_timeout = '500ms'",
      "SET LOCAL statement_timeout = '30000ms'"] := hsettings.1 rfl
  rw [hset] at h
  obtain ⟨report, hrun, htells⟩ := h
  have hcommitted : report.committed = false := by
    rw [← Bool.not_eq_true, htells.committed_iff]
    rintro ⟨hnone, -⟩
    cases hnone
  rw [hcommitted] at hrun
  exact ⟨report, hrun, hcommitted⟩

end Engine

end StagedTable
