import Mathlib.Data.List.Forall2
import StagedTable.Proofs.Session.Operations

/-!
# Commits

A commit that can be put on record is done as a whole or is left for another attempt. Either every
statement of the log has run, in order and once, and the log is empty, the table fetched again and
all of it on record; or the commit names the first statement that failed, those before it have run,
and nothing at the desk has changed. The rows of a change are kept as JSON, however, and are written
only when all statements have run. If one of them cannot be written, all statements have run and the
desk is left as if none had (`commit_outcomes`), so that another attempt would run them again.

Whether all statements run depends on the executor alone (`Executor.runs_or_stops`). That no
statement is tried behind the first failure is said by comparison: an executor that answers the same
up to there makes the same commit, whatever it would answer later.
-/

namespace StagedTable

open Text

/-! ### Runs of an executor -/

namespace Executor

/-- Whether all of some statements run, one after the other, behind others that have run. -/
def Runs (executor : Executor) : List String → List String → Prop
  | _, [] => True
  | done, sql :: rest => (∃ rows, executor done sql = .ok rows) ∧ executor.Runs (done ++ [sql]) rest

/-- Whether another executor answers the same to statements, one after the other, behind others that
have run. -/
def AnswersLike (executor other : Executor) : List String → List String → Prop
  | _, [] => True
  | done, sql :: rest =>
    other done sql = executor done sql ∧ executor.AnswersLike other (done ++ [sql]) rest

variable {executor other : Executor} {done before after statements : List String} {sql : String}
variable {error : ServerError}

/-- All statements run, or there is a first one that does not. -/
theorem runs_or_stops (executor : Executor) (done statements : List String) :
    executor.Runs done statements
    ∨ ∃ before sql after error, statements = before ++ sql :: after ∧ executor.Runs done before
      ∧ executor (done ++ before) sql = .error error := by
  induction statements generalizing done with
  | nil => exact .inl trivial
  | cons sql rest ih =>
    cases hanswer : executor done sql with
    | error error =>
      exact .inr ⟨[], sql, rest, error, rfl, trivial, by rw [List.append_nil, hanswer]⟩
    | ok rows =>
      rcases ih (done ++ [sql]) with hruns | ⟨before, sql', after, error, rfl, hbefore, hstop⟩
      · exact .inl ⟨⟨rows, hanswer⟩, hruns⟩
      · rw [List.append_assoc, List.singleton_append] at hstop
        exact .inr ⟨sql :: before, sql', after, error, rfl, ⟨⟨rows, hanswer⟩, hbefore⟩, hstop⟩

theorem Runs.congr (h : executor.Runs done statements)
    (hlike : executor.AnswersLike other done statements) : other.Runs done statements := by
  induction statements generalizing done with
  | nil => trivial
  | cons sql rest ih =>
    obtain ⟨⟨rows, hanswer⟩, hrest⟩ := h
    exact ⟨⟨rows, hlike.1.trans hanswer⟩, ih hrest hlike.2⟩

theorem AnswersLike.append
    (h : executor.AnswersLike other done (before ++ after)) :
    executor.AnswersLike other done before
      ∧ executor.AnswersLike other (done ++ before) after := by
  induction before generalizing done with
  | nil => exact ⟨trivial, by rwa [List.append_nil]⟩
  | cons sql rest ih =>
    obtain ⟨hrest, hafter⟩ := ih h.2
    rw [List.append_assoc] at hafter
    exact ⟨⟨h.1, hrest⟩, hafter⟩

theorem Runs.runAfter_eq (h : executor.Runs done statements) (rows : List (List Row)) :
    ∃ answers, runAfter executor done rows statements = ⟨done ++ statements, .ok answers⟩ := by
  induction statements generalizing done rows with
  | nil => exact ⟨rows, by rw [List.append_nil]; rfl⟩
  | cons sql rest ih =>
    obtain ⟨⟨answer, hanswer⟩, hrest⟩ := h
    obtain ⟨answers, hrun⟩ := ih hrest (rows ++ [answer])
    refine ⟨answers, ?_⟩
    rw [runAfter, hanswer, List.append_cons done sql rest]
    exact hrun

theorem Runs.runAfter_stop (h : executor.Runs done before)
    (hstop : executor (done ++ before) sql = .error error) (rows : List (List Row)) :
    runAfter executor done rows (before ++ sql :: after)
      = ⟨done ++ before, .error ⟨done.length + before.length, sql, error⟩⟩ := by
  induction before generalizing done rows with
  | nil =>
    rw [List.append_nil] at hstop ⊢
    rw [List.nil_append, runAfter, hstop]
    rfl
  | cons first rest ih =>
    obtain ⟨⟨answer, hanswer⟩, hrest⟩ := h
    rw [List.append_cons] at hstop
    rw [List.cons_append, runAfter, hanswer]
    show runAfter executor (done ++ [first]) (rows ++ [answer]) (rest ++ sql :: after) = _
    rw [ih hrest hstop, List.append_assoc, List.length_append]
    congr 3
    simp only [List.length_cons, List.length_nil]
    omega

end Executor

/-! ### What a commit leaves -/

/-- Whether data is what the next request to the loader brings; without a loader it stays. -/
def Desk.Fetches (d : Desk) (data : TableData) : Prop :=
  match d.session.loader with
  | some loader => loader d.session.loads = .ok data
  | none => data = d.session.data

/-- Whether all rows of a change can be written as JSON: no integer in them has too many digits. -/
structure Change.IsWritable (c : Change) : Prop where
  data : ¬ (Value.document c.data.fields).HoldsInteger Value.IsLong
  preimage : ∀ row, c.preimage = some row → ¬ (Value.document row.fields).HoldsInteger Value.IsLong

/-- Whether what is kept is a change with its rows as JSON, at a place of its commit. -/
structure CommittedChange.IsOf (kept : CommittedChange) (c : Change) (place : Nat) : Prop where
  kind : kept.kind = c.kind
  table : kept.table = c.table
  sql : kept.sql = c.statement.sql
  order : kept.order = place
  data : kept.data.toList = (Value.document c.data.fields).json
  preimage : kept.preimage.map (·.toList)
    = c.preimage.map fun row => (Value.document row.fields).json

/-- Whether a record is of changes whose statements were executed: it lists all changes in order,
each with its place, and its id is the digest of the parent, or of the word for none, of the time
and of the executed statements, one after the other. -/
structure CommitRecord.IsOf (record : CommitRecord) (parent : Option String) (now : DateTime)
    (changes : List Change) (executed : List String) : Prop where
  parent_eq : record.parent = parent
  createdAt : record.createdAt.toList = now.text
  changes : List.Forall₂ (fun kept (c, place) => kept.IsOf c place) record.changes changes.zipIdx
  id : ∃ hashedParent, (parent = none ∧ hashedParent = "root"
        ∨ parent = some "" ∧ hashedParent = "root" ∨ parent = some hashedParent ∧ hashedParent ≠ "")
    ∧ record.id.toList = Sha256.hexDigest
      (utf8 hashedParent ++ utf8 record.createdAt ++ executed.flatMap utf8)

/-- Whether a commit was done: every statement of the log has run, once and in order, all of it is
on record, and what was staged or edited is gone. -/
structure Session.Commit.IsDone (done : Session.Commit) (executor : Executor)
    (parent : Option String) (now : DateTime) (d d' : Desk) : Prop where
  runs : executor.Runs [] d.staging.log.statements
  executed : done.executed = d.staging.log.statements
  record : ∃ record, done.outcome = .ok record
    ∧ record.IsOf parent now d.staging.log.changes done.executed
  log : d'.staging.log.changes = []
  edits : d'.session.edits.entries = []
  data : d.Fetches d'.session.data

/-- Whether a commit was left at a change of the log: the statements before it have run, its own has
failed, and the desk is as it was. -/
structure Session.Commit.IsLeftAt (done : Session.Commit) (executor : Executor) (d : Desk)
    (before : List Change) (c : Change) (error : ServerError) (d' : Desk) : Prop where
  runs : executor.Runs [] (before.map (·.sql))
  stop : executor (before.map (·.sql)) c.sql = .error error
  executed : done.executed = before.map (·.sql)
  outcome : done.outcome = .error (.commit ⟨before.length, c.sql, error⟩)
  unchanged : d' = d

/-- Whether a commit was run but not put on record: every statement of the log has run, once and in
order, and the desk is as it was. -/
structure Session.Commit.IsUnrecorded (done : Session.Commit) (executor : Executor) (d d' : Desk) :
    Prop where
  runs : executor.Runs [] d.staging.log.statements
  executed : done.executed = d.staging.log.statements
  outcome : done.outcome = .error (.record .tooManyDigits)
  unchanged : d' = d

/-! ### Records -/

theorem Row.toJson_eq {r : Row} (h : ¬ (Value.document r.fields).HoldsInteger Value.IsLong) :
    r.toJson = .ok (String.ofList (Value.document r.fields).json) := by
  rw [Row.toJson, Value.toJson, Value.write, Value.holdsLong_eq_false_iff.2 h]
  rfl

theorem Row.toJson_of_holdsInteger {r : Row}
    (h : (Value.document r.fields).HoldsInteger Value.IsLong) :
    r.toJson = .error .tooManyDigits := by
  rw [Row.toJson, Value.toJson, Value.write, Value.holdsLong_iff.2 h]
  rfl

/-- A change is kept with all its rows, if they can be written. -/
theorem Change.committed_of_isWritable {c : Change} (h : c.IsWritable) (place : Nat) :
    ∃ kept, c.committed place = .ok kept ∧ kept.IsOf c place := by
  have hpreimage : c.preimageJson
      = .ok (c.preimage.map fun row => String.ofList (Value.document row.fields).json) := by
    unfold Change.preimageJson
    cases hrow : c.preimage with
    | none => rfl
    | some row =>
      dsimp only
      rw [Row.toJson_eq (h.preimage row hrow)]
      rfl
  have hkept : c.committed place = .ok ⟨c.kind, c.table,
      String.ofList (Value.document c.data.fields).json,
      c.preimage.map fun row => String.ofList (Value.document row.fields).json, c.sql, place⟩ := by
    rw [Change.committed, Row.toJson_eq h.data, hpreimage]
    rfl
  refine ⟨_, hkept, rfl, rfl, rfl, rfl, String.toList_ofList, ?_⟩
  cases c.preimage with
  | none => rfl
  | some row => exact congrArg some String.toList_ofList

theorem Change.committed_of_not_isWritable {c : Change} (h : ¬ c.IsWritable) (place : Nat) :
    c.committed place = .error .tooManyDigits := by
  rw [Change.committed]
  by_cases hdata : (Value.document c.data.fields).HoldsInteger Value.IsLong
  · rw [Row.toJson_of_holdsInteger hdata]
    rfl
  · -- the row itself can be written, so that the one before cannot
    rw [Row.toJson_eq hdata]
    cases hrow : c.preimage with
    | none =>
      refine absurd ⟨hdata, fun row e => ?_⟩ h
      rw [hrow] at e
      cases e
    | some row =>
      have hlong : (Value.document row.fields).HoldsInteger Value.IsLong := by
        by_contra hshort
        exact h ⟨hdata, fun other e => Option.some.inj (hrow.symm.trans e) ▸ hshort⟩
      have hpreimage : c.preimageJson = .error .tooManyDigits := by
        rw [Change.preimageJson, hrow]
        dsimp only
        rw [Row.toJson_of_holdsInteger hlong]
        rfl
      rw [hpreimage]
      rfl

/-- Changes that can be written are all kept, each at its place. -/
theorem committedFrom_of_isWritable {changes : List Change} (h : ∀ c ∈ changes, c.IsWritable)
    (start : Nat) : ∃ kept, committedFrom start changes = .ok kept
      ∧ List.Forall₂ (fun kept (c, place) => kept.IsOf c place) kept (changes.zipIdx start) := by
  induction changes generalizing start with
  | nil => exact ⟨[], rfl, .nil⟩
  | cons c rest ih =>
    obtain ⟨kept, hkept, hof⟩ := Change.committed_of_isWritable (h c (.head _)) start
    obtain ⟨more, hmore, hrest⟩ := ih (fun c hc => h c (.tail _ hc)) (start + 1)
    refine ⟨kept :: more, ?_, ?_⟩
    · rw [committedFrom, hkept, hmore]
      rfl
    · rw [List.zipIdx_cons]
      exact .cons hof hrest

/-- One change that cannot be written is enough for all to be refused. -/
theorem committedFrom_of_not_isWritable {changes : List Change} {c : Change} (hc : c ∈ changes)
    (h : ¬ c.IsWritable) (start : Nat) : committedFrom start changes = .error .tooManyDigits := by
  induction changes generalizing start with
  | nil => cases hc
  | cons first rest ih =>
    rw [committedFrom]
    by_cases hfirst : first.IsWritable
    · obtain ⟨kept, hkept, -⟩ := Change.committed_of_isWritable hfirst start
      have hrest : c ∈ rest := by
        rcases List.mem_cons.1 hc with rfl | hrest
        · exact absurd hfirst h
        · exact hrest
      rw [hkept, ih hrest (start + 1)]
      rfl
    · rw [Change.committed_of_not_isWritable hfirst]
      rfl

namespace CommitRecord

variable {changes : List Change} (message parent : Option String) (now : DateTime)

theorem ofChanges_of_isWritable (h : ∀ c ∈ changes, c.IsWritable) :
    ∃ record, CommitRecord.ofChanges changes message parent now = .ok record
      ∧ record.IsOf parent now changes (changes.map (·.sql)) := by
  obtain ⟨kept, hkept, hof⟩ := committedFrom_of_isWritable h 0
  have hid : ∃ hashedParent, (parent = none ∧ hashedParent = "root"
        ∨ parent = some "" ∧ hashedParent = "root" ∨ parent = some hashedParent ∧ hashedParent ≠ "")
      ∧ (commitId parent (String.ofList now.text) (changes.map (·.sql))).toList
        = Sha256.hexDigest (utf8 hashedParent ++ utf8 (String.ofList now.text)
          ++ (changes.map (·.sql)).flatMap utf8) := by
    rcases parent with _ | p
    · exact ⟨"root", .inl ⟨rfl, rfl⟩, String.toList_ofList⟩
    · by_cases hp : p = ""
      · exact ⟨"root", .inr (.inl ⟨by rw [hp], rfl⟩), by rw [hp]; exact String.toList_ofList⟩
      · refine ⟨p, .inr (.inr ⟨rfl, hp⟩), ?_⟩
        rw [commitId, String.toList_ofList, commitBytes, Option.getD_some, if_neg hp]
  refine ⟨_, by rw [CommitRecord.ofChanges, hkept]; rfl, ?_⟩
  exact ⟨rfl, String.toList_ofList, hof, hid⟩

theorem ofChanges_of_not_isWritable {c : Change} (hc : c ∈ changes) (h : ¬ c.IsWritable) :
    CommitRecord.ofChanges changes message parent now = .error .tooManyDigits := by
  rw [CommitRecord.ofChanges, committedFrom_of_not_isWritable hc h]
  rfl

end CommitRecord

/-! ### Commits -/

namespace Session

variable {executor other : Executor} {d d' : Desk} {before after : List Change} {c : Change}
variable {error : ServerError} (message parent : Option String) (now : DateTime)

/-- Fetching anew brings the data of the loader and touches nothing that is staged. -/
theorem refetchIfPossible_ok (h : refetchIfPossible d = (.ok (), d'))
    (hedits : d.session.edits = .empty) :
    d'.staging = d.staging ∧ d'.session.edits = .empty ∧ d.Fetches d'.session.data := by
  rw [refetchIfPossible_apply] at h
  cases hloader : d.session.loader with
  | none =>
    rw [hloader] at h
    cases h
    exact ⟨rfl, hedits, by rw [Desk.Fetches, hloader]⟩
  | some loader =>
    simp only [hloader, load_apply] at h
    cases hdata : loader d.session.loads with
    | error e =>
      rw [hdata] at h
      cases h
    | ok data =>
      rw [hdata] at h
      cases h
      -- there is no edit that could be kept
      have hreload : ∀ s : Session, s.edits = .empty → (s.reload data).edits = .empty := by
        intro s hs
        unfold Session.reload
        split
        · exact hs
        · rfl
      exact ⟨rfl, hreload _ hedits, by rw [Desk.Fetches, hloader]; exact hdata⟩

/-- What follows a run of all statements: the desk is cleared, and the table fetched again. -/
theorem finish_ok (record : CommitRecord) (hanswers : d.Answers) :
    ∃ d', finish record d = (.ok record, d') ∧ d'.staging.log.changes = []
      ∧ d'.session.edits.entries = [] ∧ d.Fetches d'.session.data := by
  have hdiscard : discard d = (.ok (), (discard d).2) := rfl
  obtain ⟨d', hrefetch⟩ := refetchIfPossible_of_answers (d := (discard d).2) hanswers
  obtain ⟨hstaging, hedits, hdata⟩ := refetchIfPossible_ok hrefetch rfl
  refine ⟨d', (Attempt.bind_of_ok hdiscard).trans (Attempt.bind_of_ok hrefetch), ?_, ?_, hdata⟩
  · rw [hstaging]
    rfl
  · rw [hedits]
    rfl

theorem commit_of_runs (hlog : d.staging.log.changes ≠ [])
    (hruns : executor.Runs [] d.staging.log.statements) :
    commit executor message parent now d
      = match CommitRecord.ofChanges d.staging.log.changes message parent now with
        | .error e => (⟨d.staging.log.statements, .error (.record e)⟩, d)
        | .ok record =>
          let (outcome, d') := finish record d
          (⟨d.staging.log.statements, outcome⟩, d') := by
  obtain ⟨answers, hrun⟩ := hruns.runAfter_eq []
  have hrun : runStatements executor (d.staging.log.changes.map (·.sql))
      = ⟨d.staging.log.statements, .ok answers⟩ := hrun
  unfold commit
  dsimp only
  rw [if_neg (by simpa using hlog)]
  generalize runStatements executor (d.staging.log.changes.map (·.sql)) = run at hrun ⊢
  subst hrun
  rfl

theorem commit_of_stop (hlog : d.staging.log.changes = before ++ c :: after)
    (hruns : executor.Runs [] (before.map (·.sql)))
    (hstop : executor (before.map (·.sql)) c.sql = .error error) :
    commit executor message parent now d
      = (⟨before.map (·.sql), .error (.commit ⟨before.length, c.sql, error⟩)⟩, d) := by
  have hrun : runStatements executor (d.staging.log.changes.map (·.sql))
      = ⟨before.map (·.sql), .error ⟨before.length, c.sql, error⟩⟩ := by
    rw [hlog, List.map_append, List.map_cons, runStatements, hruns.runAfter_stop hstop []]
    simp
  unfold commit
  dsimp only
  rw [if_neg (by simp [hlog]), hrun]

/-- A commit of a log that is not empty stops at the first statement that fails, and is left for
another attempt; nothing behind the failure matters. If all statements run, it is done if all
changes can be written, and else it is not put on record, and nothing at the desk tells that it was
run. -/
theorem commit_outcomes (executor : Executor) (message parent : Option String)
    (now : DateTime) (d : Desk) (hlog : d.staging.log.changes ≠ []) (hanswers : d.Answers) :
    ∃ done d', commit executor message parent now d = (done, d')
      ∧ (((∀ c ∈ d.staging.log.changes, c.IsWritable) ∧ done.IsDone executor parent now d d'
          ∧ ∀ other : Executor, executor.AnswersLike other [] d.staging.log.statements →
            commit other message parent now d = (done, d'))
        ∨ (∃ before c after error, d.staging.log.changes = before ++ c :: after
          ∧ done.IsLeftAt executor d before c error d'
          ∧ ∀ other : Executor, executor.AnswersLike other [] ((before ++ [c]).map (·.sql)) →
            commit other message parent now d = (done, d'))
        ∨ ((∃ c ∈ d.staging.log.changes, ¬ c.IsWritable) ∧ done.IsUnrecorded executor d d'
          ∧ ∀ other : Executor, executor.AnswersLike other [] d.staging.log.statements →
            commit other message parent now d = (done, d'))) := by
  rcases executor.runs_or_stops [] d.staging.log.statements with
    hruns | ⟨sqls, sql, others, error, hsplit, hruns, hstop⟩
  · by_cases hwritable : ∀ c ∈ d.staging.log.changes, c.IsWritable
    · obtain ⟨record, hrecord, hof⟩ :=
        CommitRecord.ofChanges_of_isWritable message parent now hwritable
      obtain ⟨d', hfinish, hchanges, hedits, hdata⟩ := finish_ok record hanswers
      have hcommit : ∀ other : Executor, other.Runs [] d.staging.log.statements →
          commit other message parent now d = (⟨d.staging.log.statements, .ok record⟩, d') := by
        intro other hother
        rw [commit_of_runs message parent now hlog hother, hrecord]
        dsimp only
        rw [hfinish]
      refine ⟨_, d', hcommit executor hruns, .inl ⟨hwritable, ?_, fun other hlike => ?_⟩⟩
      · exact ⟨hruns, rfl, ⟨_, rfl, hof⟩, hchanges, hedits, hdata⟩
      · exact hcommit other (hruns.congr hlike)
    · -- the record comes last, so that nothing is undone for the lack of one
      obtain ⟨c, hc, hlong⟩ : ∃ c ∈ d.staging.log.changes, ¬ c.IsWritable := by
        simpa using hwritable
      have hrecord := CommitRecord.ofChanges_of_not_isWritable message parent now hc hlong
      have hcommit : ∀ other : Executor, other.Runs [] d.staging.log.statements →
          commit other message parent now d
            = (⟨d.staging.log.statements, .error (.record .tooManyDigits)⟩, d) := by
        intro other hother
        rw [commit_of_runs message parent now hlog hother, hrecord]
      exact ⟨_, d, hcommit executor hruns, .inr (.inr ⟨⟨c, hc, hlong⟩, ⟨hruns, rfl, rfl, rfl⟩,
        fun other hlike => hcommit other (hruns.congr hlike)⟩)⟩
  · -- the statement that fails is the one of a change
    obtain ⟨before, rest, hchanges, rfl, hrest⟩ := List.map_eq_append_iff.1 hsplit
    obtain ⟨c, after, rfl, rfl, rfl⟩ := List.map_eq_cons_iff.1 hrest
    rw [List.nil_append] at hstop
    refine ⟨_, d, commit_of_stop message parent now hchanges hruns hstop,
      .inr (.inl ⟨before, c, after, error, hchanges, ⟨hruns, hstop, rfl, rfl, rfl⟩, ?_⟩)⟩
    intro other hlike
    rw [List.map_append] at hlike
    obtain ⟨hbefore, hlast⟩ := hlike.append
    have hstop' : other (before.map (·.sql)) c.sql = .error error := hlast.1.trans hstop
    exact commit_of_stop message parent now hchanges (hruns.congr hbefore) hstop'

/-- The desk of two articles with staged prices, with a loader that brings them as they were. -/
def loadedArticles : Desk :=
  articlesDesk.mapSession fun s => { s with loader := some fun _ => .ok articles }

/-- An executor that runs one statement and no further one. -/
def runsOne : Executor := fun done _ =>
  if done.isEmpty then .ok [] else .error ⟨"deadlock", some "40P01", none, none⟩

theorem commit_outcomes_articles :
    loadedArticles.staging.log.changes ≠ [] ∧ loadedArticles.Answers
    ∧ ∃ done d', commit runsOne none (some "root") noon loadedArticles = (done, d')
      ∧ ∃ before c after error, loadedArticles.staging.log.changes = before ++ c :: after
        ∧ done.IsLeftAt runsOne loadedArticles before c error d' := by
  have hlog : loadedArticles.staging.log.changes ≠ [] := by
    have hlength : loadedArticles.staging.log.changes.length = 2 := by decide +kernel
    intro hnil
    rw [hnil] at hlength
    cases hlength
  have hanswers : loadedArticles.Answers := by
    intro loader hloader
    cases hloader
    exact ⟨articles, rfl⟩
  have hstops : ¬ Executor.Runs runsOne [] loadedArticles.staging.log.statements := by
    have hlength : loadedArticles.staging.log.statements.length = 2 := by decide +kernel
    match loadedArticles.staging.log.statements, hlength with
    | [first, second], _ =>
      rintro ⟨-, ⟨rows, hrows⟩, -⟩
      cases hrows
  refine ⟨hlog, hanswers, ?_⟩
  obtain ⟨done, d', hcommit, h⟩ :=
    commit_outcomes runsOne none (some "root") noon loadedArticles hlog hanswers
  rcases h with ⟨-, hdone, -⟩ | ⟨before, c, after, error, hchanges, hleft, -⟩ | ⟨-, hrun, -⟩
  · exact absurd hdone.runs hstops
  · exact ⟨done, d', hcommit, before, c, after, error, hchanges, hleft⟩
  · exact absurd hrun.runs hstops

/-- A table of one account, with a balance. -/
def account (balance : Int) : TableData :=
  ⟨[.bare "id" "integer" false true, .bare "balance" "numeric" true false],
    [.ofList [("id", .int 1), ("balance", .int balance)]]⟩

/-- A desk at which the deletion of the account is staged. -/
def closedAccount (balance : Int) : Desk :=
  (deleteRow 0 ⟨start ⟨"public", "accounts"⟩ (account balance) none, .empty⟩).2

/-- The deletion of an account with a balance of too many digits is run, but neither is it on record
nor does it fail. -/
theorem commit_closedAccount :
    ¬ ∀ (executor : Executor) (message parent : Option String) (now : DateTime) (d : Desk),
      d.staging.log.changes ≠ [] → d.Answers →
      ∃ done d', commit executor message parent now d = (done, d')
        ∧ (done.IsDone executor parent now d d'
          ∨ ∃ before c after error, d.staging.log.changes = before ++ c :: after
            ∧ done.IsLeftAt executor d before c error d') := by
  intro hall
  obtain ⟨c, hlog, hdata⟩ : ∃ c, (closedAccount Value.longInteger).staging.log.changes = [c]
      ∧ c.data.fields = [("id", .int 1), ("balance", .int Value.longInteger)] :=
    ⟨_, rfl, rfl⟩
  have hlong : ¬ c.IsWritable := by
    intro h
    refine h.data ?_
    rw [hdata]
    exact .document (.tail _ (.head _)) (.int Value.isLong_longInteger)
  have hruns : Executor.Runs (fun _ _ => .ok []) []
      (closedAccount Value.longInteger).staging.log.statements := by
    rw [ChangeLog.statements, hlog]
    exact ⟨⟨[], rfl⟩, trivial⟩
  have hcommit := commit_of_runs none none noon (hlog ▸ List.cons_ne_nil _ _) hruns
  rw [hlog, CommitRecord.ofChanges_of_not_isWritable none none noon (.head _) hlong] at hcommit
  have hanswers : (closedAccount Value.longInteger).Answers := by
    intro loader hloader
    cases hloader
  obtain ⟨done, d', hdone, hclaim⟩ := hall (fun _ _ => .ok []) none none noon
    (closedAccount Value.longInteger) (hlog ▸ List.cons_ne_nil _ _) hanswers
  rw [hcommit] at hdone
  cases hdone
  rcases hclaim with hdone | ⟨before, c, after, error, -, hleft⟩
  · obtain ⟨record, hrecord, -⟩ := hdone.record
    cases hrecord
  · cases hleft.stop

end Session

end StagedTable
