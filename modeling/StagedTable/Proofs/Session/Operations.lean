import StagedTable.Proofs.Session.Calls
import StagedTable.Session.Delivery

/-!
# Operations of a session

All that can be done in a session: the calls that edit or stage, and what brings new rows or carries
the staged changes away. An operation that is refused has changed nothing, neither what is staged
nor the edits nor what was fetched (`unchanged_of_refused`).

Fetching the table anew is the one thing that can fail behind a change: behind a commit or a
migration that has gone through, and behind the count of the requests. So the statement is about
loaders that answer behind a delivery (`Desk.Answers`).

What an operation has not renewed or carried away is still there (`Operation.extends_run`).
-/

namespace StagedTable

/-! ### Operations -/

/-- An operation of a session. -/
inductive Operation
  | call (c : Call)
  | refresh (data : TableData)
  | refetch
  | discard
  | commit (executor : Executor) (message parent : Option String) (now : DateTime)
  | migrate (migrator : Migrator) (request : MigrationRequest)

namespace Operation

/-- Does an operation, be it refused or not. -/
def perform : Operation → Act Unit
  | call c => c.perform
  | refresh data => Session.refresh data
  | refetch => Session.refetch
  | discard => Session.discard
  | commit executor message parent now => fun d =>
    let (done, d) := Session.commit executor message parent now d
    (done.outcome.map fun _ => (), d)
  | migrate migrator request => (Session.migrate migrator request).ignore

/-- Whether an operation gets something through on the server, so that the table is fetched again
behind it. -/
def delivers (d : Desk) : Operation → Bool
  | .commit executor _ _ _ =>
    !d.staging.log.isEmpty && (runStatements executor d.staging.log.statements).outcome.isOk
  | .migrate migrator request =>
    match runMigration migrator request with
    | .ok report => report.committed
    | .error _ => false
  | _ => false

end Operation

theorem Attempt.snd_bind_pure {σ ε α β : Type} (act : Attempt σ ε α) (f : α → β) (s : σ) :
    ((act >>= fun a => pure (f a)) s).2 = (act s).2 := by
  rw [bind_apply]
  split
  · next h => rw [h]; rfl
  · next h => rw [h]

/-! ### Fetching anew -/

/-- Whether the next request to the loader is answered, if there is a loader. -/
def Desk.Answers (d : Desk) : Prop :=
  ∀ loader, d.session.loader = some loader → ∃ data, loader d.session.loads = .ok data

namespace Session

variable {d d' : Desk} {e : SessionError}

/-- A request is counted, be it answered or not. -/
theorem load_apply (loader : Loader) (d : Desk) :
    load loader d = match loader d.session.loads with
      | .ok data => (.ok (), d.mapSession fun s =>
          { s with loads := d.session.loads + 1 }.reload data)
      | .error e =>
        (.error (.load e), d.mapSession fun s => { s with loads := d.session.loads + 1 }) := by
  let asked : Desk := d.mapSession fun s => { s with loads := d.session.loads + 1 }
  have hread : (Attempt.read (·.session.loads) : Act Nat) d = (.ok d.session.loads, d) := rfl
  have hasked : change (fun s => { s with loads := d.session.loads + 1 }) d = (.ok (), asked) := rfl
  unfold load
  rw [Attempt.bind_of_ok hread, Attempt.bind_of_ok hasked]
  cases hdata : loader d.session.loads with
  | error e =>
    have hlook : (Attempt.look fun _ => (Except.error e).mapError SessionError.load :
        Act TableData) asked = (.error (.load e), asked) := rfl
    rw [Attempt.bind_of_error hlook]
  | ok data =>
    have hlook : (Attempt.look fun _ => (Except.ok data).mapError SessionError.load) asked
        = (.ok data, asked) := rfl
    rw [Attempt.bind_of_ok hlook]
    rfl

theorem refetch_apply (d : Desk) :
    refetch d = match d.session.loader with
      | some loader => load loader d
      | none => (.error .noLoader, d) := by
  have hread : (Attempt.read (·.session.loader) : Act (Option Loader)) d
      = (.ok d.session.loader, d) := rfl
  rw [refetch, Attempt.bind_of_ok hread]
  cases d.session.loader <;> rfl

theorem refetchIfPossible_apply (d : Desk) :
    refetchIfPossible d = match d.session.loader with
      | some loader => load loader d
      | none => (.ok (), d) := by
  have hread : (Attempt.read (·.session.loader) : Act (Option Loader)) d
      = (.ok d.session.loader, d) := rfl
  rw [refetchIfPossible, Attempt.bind_of_ok hread]
  cases d.session.loader <;> rfl

theorem unchanged_of_load {loader : Loader} (h : load loader d = (.error e, d')) :
    d'.staging = d.staging ∧ d'.session.edits = d.session.edits
      ∧ d'.session.data = d.session.data := by
  rw [load_apply] at h
  cases hdata : loader d.session.loads with
  | error e' =>
    rw [hdata] at h
    cases h
    exact ⟨rfl, rfl, rfl⟩
  | ok data =>
    rw [hdata] at h
    cases h

theorem unchanged_of_refetch (h : refetch d = (.error e, d')) :
    d'.staging = d.staging ∧ d'.session.edits = d.session.edits
      ∧ d'.session.data = d.session.data := by
  rw [refetch_apply] at h
  cases hloader : d.session.loader with
  | none =>
    rw [hloader] at h
    cases h
    exact ⟨rfl, rfl, rfl⟩
  | some loader =>
    rw [hloader] at h
    exact unchanged_of_load h

theorem refetchIfPossible_of_answers (h : d.Answers) :
    ∃ d', refetchIfPossible d = (.ok (), d') := by
  rw [refetchIfPossible_apply]
  cases hloader : d.session.loader with
  | none => exact ⟨d, rfl⟩
  | some loader =>
    obtain ⟨data, hdata⟩ := h loader hloader
    simp only [load_apply, hdata]
    exact ⟨_, rfl⟩

/-! ### Delivery -/

/-- A commit is refused and leaves the desk as it was, or all has been run and it is finished. -/
theorem commit_cases (executor : Executor) (message parent : Option String) (now : DateTime)
    (d : Desk) :
    (∃ run e, commit executor message parent now d = (⟨run, .error e⟩, d))
    ∨ ((Operation.commit executor message parent now).delivers d = true
      ∧ ∃ run record, commit executor message parent now d
        = let (outcome, d') := finish record d
          (⟨run, outcome⟩, d')) := by
  unfold commit Operation.delivers ChangeLog.isEmpty ChangeLog.statements
  dsimp only
  split
  · exact .inl ⟨_, _, rfl⟩
  · next hlog =>
    split
    · exact .inl ⟨_, _, rfl⟩
    · next rows hrun =>
      split
      · exact .inl ⟨_, _, rfl⟩
      · exact .inr ⟨by simp [hlog, hrun, Except.isOk, Except.toBool], _, _, rfl⟩

/-- A migration is refused or not committed, or the table is fetched again behind it. -/
theorem migrate_cases (migrator : Migrator) (request : MigrationRequest) (d : Desk) :
    ((Operation.migrate migrator request).delivers d = false
      ∧ ∃ result, migrate migrator request d = (result, d))
    ∨ ((Operation.migrate migrator request).delivers d = true
      ∧ ∃ report, migrate migrator request d
        = (do refetchIfPossible; return report : Act MigrationReport) d) := by
  have hdelivers : (Operation.migrate migrator request).delivers d
      = match runMigration migrator request with
        | .ok report => report.committed
        | .error _ => false := rfl
  unfold migrate
  cases hrun : runMigration migrator request with
  | error e =>
    rw [hrun] at hdelivers
    have hlook : (Attempt.look fun _ => (Except.error e).mapError SessionError.migration :
        Act MigrationReport) d = (.error (.migration e), d) := rfl
    rw [Attempt.bind_of_error hlook]
    exact .inl ⟨hdelivers, _, rfl⟩
  | ok report =>
    rw [hrun] at hdelivers
    have hlook : (Attempt.look fun _ => (Except.ok report).mapError SessionError.migration :
        Act MigrationReport) d = (.ok report, d) := rfl
    rw [Attempt.bind_of_ok hlook, hdelivers]
    dsimp only
    cases report.committed with
    | false => exact .inl ⟨rfl, .ok report, rfl⟩
    | true => exact .inr ⟨rfl, report, rfl⟩

/-- What follows a commit that has gone through is done, if the loader answers. -/
theorem finish_of_answers (record : CommitRecord) (h : d.Answers) :
    ∃ d', finish record d = (.ok record, d') := by
  have hdiscard : discard d = (.ok (), (discard d).2) := rfl
  obtain ⟨d', hrefetch⟩ := refetchIfPossible_of_answers (d := (discard d).2) h
  exact ⟨d', (Attempt.bind_of_ok hdiscard).trans (Attempt.bind_of_ok hrefetch)⟩

end Session

/-- An operation that is refused has changed nothing, unless the loader fails behind a delivery. -/
theorem Operation.unchanged_of_refused {op : Operation} {d d' : Desk} {e : SessionError}
    (h : op.perform d = (.error e, d')) (hanswers : op.delivers d = true → d.Answers) :
    d'.staging = d.staging ∧ d'.session.edits = d.session.edits
      ∧ d'.session.data = d.session.data := by
  cases op with
  | call c =>
    rw [Call.eq_of_refused h]
    exact ⟨rfl, rfl, rfl⟩
  | refresh data => cases h
  | refetch => exact Session.unchanged_of_refetch h
  | discard => cases h
  | commit executor message parent now =>
    rcases Session.commit_cases executor message parent now d with
      ⟨run, e', hcommit⟩ | ⟨hdelivers, run, record, hcommit⟩
    · simp only [perform, hcommit] at h
      cases h
      exact ⟨rfl, rfl, rfl⟩
    · -- behind the record nothing is left that could fail
      obtain ⟨d₁, hfinish⟩ := Session.finish_of_answers record (hanswers hdelivers)
      simp only [perform, hcommit, hfinish] at h
      cases h
  | migrate migrator request =>
    have h : Session.migrate migrator request d = (.error e, d') := Attempt.ignore_of_error h
    rcases Session.migrate_cases migrator request d with
      ⟨-, result, hmigrate⟩ | ⟨hdelivers, report, hmigrate⟩
    · rw [hmigrate] at h
      cases h
      exact ⟨rfl, rfl, rfl⟩
    · obtain ⟨d₁, hrefetch⟩ := Session.refetchIfPossible_of_answers (hanswers hdelivers)
      rw [hmigrate, Attempt.bind_of_ok hrefetch] at h
      cases h

/-- A table of two articles. -/
def articles : TableData :=
  ⟨[.bare "id" "integer" false true, .bare "price" "numeric(8,2)" true false],
    [.ofList [("id", .int 1), ("price", .int 5)], .ofList [("id", .int 2), ("price", .null)]]⟩

/-- Both articles have a new price that is staged, and another one that is not staged yet. -/
def articlesDesk : Desk :=
  Call.runAll ⟨Session.start ⟨"public", "articles"⟩ articles none, .empty⟩
    [.editCell 0 "price" (.int 6), .stageRow 0, .editCell 1 "price" (.int 2), .stageRow 1,
      .editCell 0 "price" (.int 7), .editCell 1 "price" (.int 3)]

/-- Noon of a day. -/
def noon : DateTime :=
  ⟨⟨2024, 1, 1, by decide, by decide, by decide, by decide⟩,
    ⟨{ TimeOfDay.midnight with hour := 12, hour_lt := by decide }, none⟩⟩

/-- A commit of which the second statement fails. -/
def halfwayCommit : Operation :=
  .commit (fun done _ => if done.isEmpty then .ok [] else .error ⟨"deadlock", none, none, none⟩)
    none none noon

theorem unchanged_of_refused_halfway : ∃ e d', halfwayCommit.perform articlesDesk = (.error e, d')
    ∧ (halfwayCommit.delivers articlesDesk = true → articlesDesk.Answers)
    ∧ d'.staging = articlesDesk.staging ∧ d'.session.edits = articlesDesk.session.edits
    ∧ d'.session.data = articlesDesk.session.data := by
  have hrefused : (halfwayCommit.perform articlesDesk).1.isOk = false := by decide +kernel
  have hanswers : halfwayCommit.delivers articlesDesk = true → articlesDesk.Answers := by
    have hdelivers : halfwayCommit.delivers articlesDesk = false := by decide +kernel
    intro h
    rw [hdelivers] at h
    cases h
  cases hperform : halfwayCommit.perform articlesDesk with
  | mk result d' =>
    cases result with
    | ok _ =>
      rw [hperform] at hrefused
      cases hrefused
    | error e => exact ⟨e, d', rfl, hanswers, Operation.unchanged_of_refused hperform hanswers⟩

/-! ### What stays -/

/-- Whether there is a loader that answers the next request. -/
def Desk.fetches (d : Desk) : Bool :=
  match d.session.loader with
  | some loader => (loader d.session.loads).isOk
  | none => false

namespace Operation

/-- The desk that an operation leaves, be it refused or not. -/
def run (d : Desk) (op : Operation) : Desk := (op.perform d).2

/-- The desk that operations leave, one after the other. -/
def runAll (d : Desk) (ops : List Operation) : Desk := ops.foldl run d

/-- Whether an operation takes over what was fetched anew or takes staged changes away. -/
def renews (d : Desk) : Operation → Bool
  | .call _ => false
  | .refresh _ | .discard => true
  | .refetch => d.fetches
  | .commit executor message parent now => (commit executor message parent now).delivers d
  | .migrate migrator request => (migrate migrator request).delivers d && d.fetches

/-- Whether none of several operations does so, one done after the other. -/
def NoneRenews (d : Desk) : List Operation → Prop
  | [] => True
  | op :: rest => op.renews d = false ∧ NoneRenews (op.run d) rest

end Operation

namespace Session

variable {d : Desk}

theorem extends_load {loader : Loader} (h : (loader d.session.loads).isOk = false) :
    d.Extends (load loader d).2 := by
  rw [load_apply]
  cases hdata : loader d.session.loads with
  | error e => exact ⟨rfl, List.prefix_rfl⟩
  | ok data =>
    rw [hdata] at h
    cases h

theorem extends_refetch (h : d.fetches = false) : d.Extends (refetch d).2 := by
  unfold Desk.fetches at h
  rw [refetch_apply]
  cases hloader : d.session.loader with
  | none => exact .refl d
  | some loader =>
    rw [hloader] at h
    exact extends_load h

theorem extends_refetchIfPossible (h : d.fetches = false) :
    d.Extends (refetchIfPossible d).2 := by
  unfold Desk.fetches at h
  rw [refetchIfPossible_apply]
  cases hloader : d.session.loader with
  | none => exact .refl d
  | some loader =>
    rw [hloader] at h
    exact extends_load h

end Session

/-- What an operation does not renew stays, and so do the changes that it does not take away. -/
theorem Operation.extends_run {op : Operation} {d : Desk} (h : op.renews d = false) :
    d.Extends (op.run d) := by
  cases op with
  | call c =>
    rw [run, perform, c.snd_perform]
    exact c.extends_run d
  | refresh data => cases h
  | refetch => exact Session.extends_refetch h
  | discard => cases h
  | commit executor message parent now =>
    rcases Session.commit_cases executor message parent now d with
      ⟨run, e, hcommit⟩ | ⟨hdelivers, -⟩
    · simp only [Operation.run, perform, hcommit]
      exact .refl d
    · cases hdelivers.symm.trans h
  | migrate migrator request =>
    show d.Extends (Session.migrate migrator request d).2
    rcases Session.migrate_cases migrator request d with
      ⟨-, result, hmigrate⟩ | ⟨hdelivers, report, hmigrate⟩
    · rw [hmigrate]
      exact .refl d
    · have hfetches : d.fetches = false := by
        simpa [renews, hdelivers] using h
      rw [hmigrate, Attempt.snd_bind_pure]
      exact Session.extends_refetchIfPossible hfetches

theorem Operation.extends_runAll {ops : List Operation} {d : Desk} (h : NoneRenews d ops) :
    d.Extends (runAll d ops) := by
  induction ops generalizing d with
  | nil => exact .refl d
  | cons op rest ih => exact (extends_run h.1).trans (ih h.2)

end StagedTable
