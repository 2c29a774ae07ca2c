import StagedTable.Proofs.Session.Operations
import StagedTable.Workspace

/-!
# Sessions on a shared log

Sessions of different tables do not disturb each other when they share a log: in every interleaving
of their moves each of them fares as if it were alone with a log of its own
(`sessions_undisturbed`). Only the ids of changes tell the difference.

A session reads of the log nothing but the changes of its own table, without their ids; so a move
does the same at two desks with the same session and the same changes of its table
(`Move.related_perform`). And it leaves the changes of all other tables as they are, which the
relation of the two desks (`Desk.Twins`) keeps as well.
-/

namespace StagedTable

/-! ### Attempts on related states -/

namespace Attempt

variable {σ ε α β : Type} {R : σ → σ → Prop}

/-- Whether two outcomes are the same error, or results that are related. -/
def OutcomesRelated (S : α → α → Prop) : Except ε α → Except ε α → Prop
  | .ok a, .ok b => S a b
  | .error e, .error e' => e = e'
  | _, _ => False

/-- Whether two attempts that are made on related states have related outcomes and leave related
states. -/
def Related (R : σ → σ → Prop) (S : α → α → Prop) (act act' : Attempt σ ε α) : Prop :=
  ∀ s t, R s t → OutcomesRelated S (act s).1 (act' t).1 ∧ R (act s).2 (act' t).2

theorem Related.bind {S : α → α → Prop} {T : β → β → Prop} {act act' : Attempt σ ε α}
    {next next' : α → Attempt σ ε β} (h : Related R S act act')
    (hnext : ∀ a b, S a b → Related R T (next a) (next' b)) :
    Related R T (act >>= next) (act' >>= next') := by
  intro s t hst
  obtain ⟨houtcome, hstate⟩ := h s t hst
  rw [bind_apply, bind_apply]
  rcases hact : act s with ⟨outcome, s'⟩
  rcases hact' : act' t with ⟨outcome', t'⟩
  rw [hact, hact'] at houtcome hstate
  cases outcome <;> cases outcome'
  case ok.ok a b => exact hnext a b houtcome s' t' hstate
  case error.error e e' => exact ⟨houtcome, hstate⟩
  case ok.error | error.ok => exact houtcome.elim

/-- After equal results the attempts that follow need to be related for each of them. -/
theorem Related.bind_eq {T : β → β → Prop} {act act' : Attempt σ ε α}
    {next next' : α → Attempt σ ε β} (h : Related R Eq act act')
    (hnext : ∀ a, Related R T (next a) (next' a)) :
    Related R T (act >>= next) (act' >>= next') :=
  h.bind fun a b hab => by
    rw [← hab]
    exact hnext a

theorem Related.pure {S : α → α → Prop} {a b : α} (h : S a b) :
    Related R S (Pure.pure a : Attempt σ ε α) (Pure.pure b) := fun _ _ hst => ⟨h, hst⟩

theorem Related.fail {S : α → α → Prop} (e : ε) :
    Related R S (fail e : Attempt σ ε α) (fail e) := fun _ _ hst => ⟨rfl, hst⟩

theorem Related.look {f : σ → Except ε α} (h : ∀ s t, R s t → f s = f t) :
    Related R Eq (look f) (look f) := by
  intro s t hst
  refine ⟨?_, hst⟩
  rw [look_apply, look_apply, h s t hst]
  cases f t <;> rfl

theorem Related.read {f : σ → α} (h : ∀ s t, R s t → f s = f t) :
    Related R Eq (read f : Attempt σ ε α) (read f) := fun s t hst => ⟨h s t hst, hst⟩

theorem Related.update {f : σ → σ} (h : ∀ s t, R s t → R (f s) (f t)) :
    Related R Eq (update f : Attempt σ ε Unit) (update f) := fun s t hst => ⟨rfl, h s t hst⟩

/-- Results that are related since a function takes them to the same value. -/
theorem OutcomesRelated.map_eq {f : α → β} {outcome outcome' : Except ε α}
    (h : OutcomesRelated (fun a b => f a = f b) outcome outcome') :
    outcome.map f = outcome'.map f := by
  cases outcome <;> cases outcome'
  case ok.ok => exact congrArg Except.ok h
  case error.error => exact congrArg Except.error h
  case ok.error | error.ok => exact h.elim

end Attempt

/-! ### Changes but for their ids -/

/-- A change but for its id. -/
def Change.withoutId (c : Change) : Change := { c with id := "" }

/-- The sql of a change does not depend on its id. -/
@[simp] theorem Change.sql_withoutId (c : Change) : c.withoutId.sql = c.sql := rfl

/-- Nor does the row that a change finds, or what becomes of it. -/
@[simp] theorem View.apply_withoutId (v : View) (c : Change) : v.apply c.withoutId = v.apply c :=
  rfl

/-- Changes that are the same but for their ids are shown alike. -/
theorem View.reconcile_congr {changes changes' : List Change}
    (h : changes.map (·.withoutId) = changes'.map (·.withoutId)) (rows : List Row) (e : Edits) :
    reconcile rows changes e = reconcile rows changes' e := by
  have hids : ∀ cs : List Change,
      (cs.map (·.withoutId)).foldl apply (ofRows rows) = cs.foldl apply (ofRows rows) := by
    intro cs
    simp only [List.foldl_map, apply_withoutId]
  unfold reconcile
  rw [← hids changes, ← hids changes', h]

/-- The changes of all tables but one. -/
def ChangeLog.foreign (log : ChangeLog) (table : Sql.TableName) : List Change :=
  log.changes.filter (·.table ≠ table)

/-- The changes of a table are among those that are not of another one. -/
theorem ChangeLog.forTable_foreign (log : ChangeLog) {table other : Sql.TableName}
    (h : table ≠ other) :
    (log.foreign other).filter (·.table = table) = log.forTable table := by
  unfold foreign forTable
  rw [List.filter_filter]
  refine List.filter_congr fun c _ => ?_
  by_cases htable : c.table = table <;> simp [htable, h]

/-- A log without changes of other tables holds the changes of the table. -/
theorem ChangeLog.forTable_eq_changes {log : ChangeLog} {table : Sql.TableName}
    (h : log.foreign table = []) : log.forTable table = log.changes := by
  refine List.filter_eq_self.2 fun c hc => ?_
  simpa using List.filter_eq_nil_iff.1 h c hc

/-- The statements of changes do not depend on their ids. -/
theorem Change.map_sql_congr {changes changes' : List Change}
    (h : changes.map (·.withoutId) = changes'.map (·.withoutId)) :
    changes.map (·.sql) = changes'.map (·.sql) := by
  have hids : ∀ cs : List Change, (cs.map (·.withoutId)).map (·.sql) = cs.map (·.sql) := by
    intro cs
    simp
  rw [← hids changes, h, hids]

/-! ### Desks with the same session -/

/-- Whether two desks of a table have the same session and the same changes of the table but for
their ids, while the changes of other tables are given ones. -/
structure Desk.Twins (table : Sql.TableName) (others others' : List Change) (d d' : Desk) :
    Prop where
  session : d.session = d'.session
  table_eq : d'.session.table = table
  changes : d.changes.map (·.withoutId) = d'.changes.map (·.withoutId)
  foreign : d.staging.log.foreign table = others
  foreign' : d'.staging.log.foreign table = others'

namespace Desk.Twins

variable {table : Sql.TableName} {others others' : List Change} {d d' : Desk}

/-- A desk is as itself. -/
theorem refl (d : Desk) :
    Twins d.session.table (d.staging.log.foreign d.session.table)
      (d.staging.log.foreign d.session.table) d d := ⟨rfl, rfl, rfl, rfl, rfl⟩

theorem staged (h : Twins table others others' d d') : d.staged = d'.staged := by
  unfold Desk.staged
  rw [h.session, View.reconcile_congr h.changes]

theorem view (h : Twins table others others' d d') : d.view = d'.view := by
  unfold Desk.view
  rw [h.session, View.reconcile_congr h.changes]

theorem openRow (h : Twins table others others' d d') (row : Int) :
    d.openRow row = d'.openRow row := by
  unfold Desk.openRow
  rw [h.staged]

theorem column (h : Twins table others others' d d') (name : String) :
    d.column name = d'.column name := by
  unfold Desk.column
  rw [h.session]

/-- What changes in the session but its table changes at both desks. -/
theorem mapSession (h : Twins table others others' d d') {f : Session → Session}
    (hf : ∀ s, (f s).table = s.table) :
    Twins table others others' (d.mapSession f) (d'.mapSession f) where
  session := congrArg f h.session
  table_eq := (hf _).trans h.table_eq
  changes := by
    show (ChangeLog.forTable _ (f d.session).table).map _
      = (ChangeLog.forTable _ (f d'.session).table).map _
    rw [hf, hf]
    exact h.changes
  foreign := h.foreign
  foreign' := h.foreign'

end Desk.Twins

/-! ### Moves -/

/-- What a session may be asked to do while it shares its log: to edit or to stage, and to take over
rows that are given or are fetched by its loader. -/
inductive Move
  | call (c : Call)
  | refresh (data : Option TableData)

/-- What a move yields: the change that it has staged, if there is one, or why it is refused. -/
abbrev Move.Reply := Except SessionError (Option Change)

/-- A call, with the change that it stages. -/
def Call.reply : Call → Act (Option Change)
  | editCell row name value => do
    Session.editCell row name value
    return none
  | editText row name text => do
    Session.editText row name text
    return none
  | stageRow row => Session.stageRow row
  | deleteRow row => do return some (← Session.deleteRow row)
  | insertRow data => do return some (← Session.insertRow data)

/-- Makes a move. -/
def Move.perform : Move → Act (Option Change)
  | call c => c.reply
  | refresh (some data) => do
    Session.refresh data
    return none
  | refresh none => do
    Session.refetch
    return none

/-- Makes moves, one after the other, and collects the replies. -/
def Desk.play (d : Desk) : List Move → List Move.Reply × Desk
  | [] => ([], d)
  | m :: rest =>
    let (reply, d) := m.perform d
    let (replies, d) := d.play rest
    (reply :: replies, d)

/-- Makes the moves of several sessions, one after the other, and collects the replies. There is no
reply of a session that does not exist. -/
def Workspace.play (w : Workspace) : List (Nat × Move) → List (Nat × Move.Reply) × Workspace
  | [] => ([], w)
  | (i, m) :: rest =>
    match w.at? i m.perform with
    | some (reply, w) =>
      let (replies, w) := w.play rest
      ((i, reply) :: replies, w)
    | none => w.play rest

/-! ### A move at two desks -/

namespace Session

open Attempt

variable {table : Sql.TableName} {others others' : List Change}

theorem related_openRow (row : Int) :
    Related (Desk.Twins table others others') Eq (look (·.openRow row) : Act Row)
      (look (·.openRow row)) := .look fun _ _ h => h.openRow row

theorem related_column (name : String) :
    Related (Desk.Twins table others others') Eq (look (·.column name) : Act Column)
      (look (·.column name)) := .look fun _ _ h => h.column name

theorem related_change {f : Session → Session} (hf : ∀ s, (f s).table = s.table) :
    Related (Desk.Twins table others others') Eq (change f) (change f) :=
  .update fun _ _ h => h.mapSession hf

theorem related_changeEdits (f : Edits → Edits) :
    Related (Desk.Twins table others others') Eq (changeEdits f) (changeEdits f) :=
  related_change fun _ => rfl

theorem related_editCell (row : Int) (name : String) (value : Value) :
    Related (Desk.Twins table others others') Eq (editCell row name value)
      (editCell row name value) := by
  refine (related_openRow row).bind_eq fun content => ?_
  refine (related_column name).bind_eq fun c => ?_
  refine (Related.look fun _ _ _ => rfl).bind_eq fun same => ?_
  split
  · exact related_changeEdits _
  · exact related_changeEdits _

theorem related_editText (row : Int) (name text : String) :
    Related (Desk.Twins table others others') Eq (editText row name text)
      (editText row name text) := by
  refine (related_column name).bind_eq fun c => ?_
  refine (Related.look fun _ _ _ => rfl).bind_eq fun value => ?_
  exact related_editCell row name value

/-- A change is staged at both desks or at none, and it differs by its id only. -/
theorem related_stage (kind : ChangeKind) (data : Row) (preimage : Option Row) :
    Related (Desk.Twins table others others') (fun c c' => c.withoutId = c'.withoutId)
      (stage kind data preimage) (stage kind data preimage) := by
  intro d d' h
  unfold stage Staging.add
  rw [h.session]
  cases Sql.Statement.ofChange kind d'.session.table data preimage d'.session.data.columns with
  | error e => exact ⟨rfl, h⟩
  | ok statement =>
    -- the new change is of the table of the session: it ends its changes and is none of the others
    refine ⟨rfl, rfl, h.table_eq, ?_, ?_, ?_⟩
    · have hchanges := h.changes
      unfold Desk.changes at hchanges ⊢
      rw [h.session] at hchanges
      simp only [ChangeLog.forTable, ChangeLog.changes_append, List.filter_append,
        List.map_append] at hchanges ⊢
      rw [hchanges]
      simp [Change.withoutId]
    · rw [← h.foreign]
      simp [ChangeLog.foreign, h.table_eq]
    · rw [← h.foreign']
      simp [ChangeLog.foreign, h.table_eq]

theorem related_stageRow (row : Int) :
    Related (Desk.Twins table others others')
      (fun c c' => c.map (·.withoutId) = c'.map (·.withoutId)) (stageRow row) (stageRow row) := by
  refine (related_openRow row).bind_eq fun content => ?_
  refine (Related.read fun _ _ h => by rw [h.session]).bind_eq fun data => ?_
  split
  · exact .pure rfl
  · refine (related_stage .update data (some content)).bind fun c c' hc => ?_
    refine (related_changeEdits _).bind_eq fun _ => ?_
    exact .pure (congrArg some hc)

theorem related_deleteRow (row : Int) :
    Related (Desk.Twins table others others') (fun c c' => c.withoutId = c'.withoutId)
      (deleteRow row) (deleteRow row) := by
  refine (related_openRow row).bind_eq fun content => ?_
  refine (related_stage .delete content (some content)).bind fun c c' hc => ?_
  refine (related_changeEdits _).bind_eq fun _ => ?_
  exact .pure hc

theorem related_requireColumns (names : List String) :
    Related (Desk.Twins table others others') Eq (requireColumns names)
      (requireColumns names) := by
  induction names with
  | nil => exact .pure rfl
  | cons name rest ih => exact (related_column name).bind_eq fun _ => ih

theorem related_insertRow (data : Row) :
    Related (Desk.Twins table others others') (fun c c' => c.withoutId = c'.withoutId)
      (insertRow data) (insertRow data) :=
  (related_requireColumns data.names).bind_eq fun _ => related_stage .insert data none

theorem related_refresh (data : TableData) :
    Related (Desk.Twins table others others') Eq (refresh data) (refresh data) :=
  related_change fun _ => rfl

theorem related_load (loader : Loader) :
    Related (Desk.Twins table others others') Eq (load loader) (load loader) := by
  refine (Related.read fun _ _ h => by rw [h.session]).bind_eq fun asked => ?_
  refine (related_change (f := fun s => { s with loads := asked + 1 }) fun _ => rfl).bind_eq
    fun _ => ?_
  refine (Related.look fun _ _ _ => rfl).bind_eq fun data => ?_
  exact related_refresh data

theorem related_refetch :
    Related (Desk.Twins table others others') Eq refetch refetch := by
  refine (Related.read fun _ _ h => by rw [h.session]).bind_eq fun loader => ?_
  cases loader with
  | none => exact .fail _
  | some loader => exact related_load loader

end Session

open Attempt in
/-- A move does the same at two desks with the same session and the same changes of its table, and
leaves the changes of other tables as they are. -/
theorem Move.related_perform {table : Sql.TableName} {others others' : List Change} (m : Move) :
    Related (Desk.Twins table others others')
      (fun c c' => c.map (·.withoutId) = c'.map (·.withoutId)) m.perform m.perform := by
  cases m with
  | call c =>
    cases c with
    | editCell row name value =>
      exact (Session.related_editCell row name value).bind_eq fun _ => .pure rfl
    | editText row name text =>
      exact (Session.related_editText row name text).bind_eq fun _ => .pure rfl
    | stageRow row => exact Session.related_stageRow row
    | deleteRow row =>
      exact (Session.related_deleteRow row).bind fun c c' hc => .pure (congrArg some hc)
    | insertRow data =>
      exact (Session.related_insertRow data).bind fun c c' hc => .pure (congrArg some hc)
  | refresh data =>
    cases data with
    | some data => exact (Session.related_refresh data).bind_eq fun _ => .pure rfl
    | none => exact Session.related_refetch.bind_eq fun _ => .pure rfl

/-- A reply but for the id of the change. -/
def Move.Reply.withoutId (reply : Move.Reply) : Move.Reply := reply.map (·.map (·.withoutId))

/-- A move is answered alike at two desks that are alike, and leaves them alike. -/
theorem Desk.Twins.move {table : Sql.TableName} {others others' : List Change} {d d' : Desk}
    (h : Twins table others others' d d') (m : Move) :
    Move.Reply.withoutId (m.perform d).1 = Move.Reply.withoutId (m.perform d').1
      ∧ Twins table others others' (m.perform d).2 (m.perform d').2 := by
  obtain ⟨houtcome, hstate⟩ := m.related_perform d d' h
  exact ⟨houtcome.map_eq, hstate⟩

/-- A move leaves the changes of other tables as they are. -/
theorem Move.confined (m : Move) (d : Desk) :
    (m.perform d).2.session.table = d.session.table
      ∧ ∀ table ≠ d.session.table,
        (m.perform d).2.staging.log.forTable table = d.staging.log.forTable table := by
  obtain ⟨-, hself⟩ := (Desk.Twins.refl d).move m
  refine ⟨hself.table_eq, fun table hne => ?_⟩
  rw [← ChangeLog.forTable_foreign _ hne, hself.foreign, ChangeLog.forTable_foreign _ hne]

/-! ### Moves in a workspace -/

/-- What is of one session, in order. -/
def ofSession {α : Type} (i : Nat) (entries : List (Nat × α)) : List α :=
  (entries.filter (·.1 = i)).map (·.2)

theorem ofSession_cons_self {α : Type} (i : Nat) (a : α) (rest : List (Nat × α)) :
    ofSession i ((i, a) :: rest) = a :: ofSession i rest := by
  simp [ofSession]

theorem ofSession_cons_other {α : Type} {i j : Nat} (h : j ≠ i) (a : α) (rest : List (Nat × α)) :
    ofSession i ((j, a) :: rest) = ofSession i rest := by
  simp [ofSession, h]

namespace Workspace

variable {w : Workspace} {i j : Nat} {d : Desk}

/-- The log and the table of each session. -/
def places (w : Workspace) : List (Nat × Sql.TableName) :=
  w.sessions.map fun (log, s) => (log, s.table)

theorem desk?_eq_some_iff : w.desk? i = some d ↔ ∃ log, w.sessions[i]? = some (log, d.session)
    ∧ w.logs[log]? = some d.staging.log ∧ w.issued = d.staging.issued := by
  unfold desk?
  constructor
  · intro h
    obtain ⟨⟨log, s⟩, hs, h⟩ := Option.bind_eq_some_iff.1 h
    obtain ⟨l, hl, h⟩ := Option.bind_eq_some_iff.1 h
    cases h
    exact ⟨log, hs, hl, rfl⟩
  · rintro ⟨log, hs, hl, hissued⟩
    rw [hs]
    simp [hl, hissued]

theorem at?_eq_some_iff {α : Type} {act : Desk → α × Desk} {a : α} {w' : Workspace} :
    w.at? i act = some (a, w')
      ↔ ∃ d, w.desk? i = some d ∧ (act d).1 = a ∧ w.putDesk i (act d).2 = w' := by
  unfold at?
  constructor
  · intro h
    obtain ⟨d, hd, h⟩ := Option.bind_eq_some_iff.1 h
    cases h
    exact ⟨d, hd, rfl, rfl⟩
  · rintro ⟨d, hd, rfl, rfl⟩
    rw [hd]
    rfl

/-- What was put back is there. -/
theorem desk?_putDesk_self (h : w.desk? i = some d) (d' : Desk) :
    (w.putDesk i d').desk? i = some d' := by
  obtain ⟨log, hs, hl, -⟩ := desk?_eq_some_iff.1 h
  have hi := (List.getElem?_eq_some_iff.1 hs).1
  have hlog := (List.getElem?_eq_some_iff.1 hl).1
  unfold putDesk
  rw [hs]
  exact desk?_eq_some_iff.2
    ⟨log, by simp [List.getElem?_set_self hi], by simp [List.getElem?_set_self hlog], rfl⟩

/-- Another session is still there; its log is as it was, or it is the log that was put back. -/
theorem desk?_putDesk_other {e : Desk} (hne : j ≠ i) (hd : w.desk? i = some d)
    (he : w.desk? j = some e) (e' : Desk) :
    ∃ d', (w.putDesk j e').desk? i = some d' ∧ d'.session = d.session
      ∧ (d'.staging.log = d.staging.log
        ∨ ∃ log, w.sessions[i]? = some (log, d.session) ∧ w.sessions[j]? = some (log, e.session)
          ∧ d.staging.log = e.staging.log ∧ d'.staging.log = e'.staging.log) := by
  obtain ⟨log, hs, hl, -⟩ := desk?_eq_some_iff.1 hd
  obtain ⟨log', hs', hl', -⟩ := desk?_eq_some_iff.1 he
  have hlog' := (List.getElem?_eq_some_iff.1 hl').1
  have hsessions : (w.putDesk j e').sessions[i]? = some (log, d.session) := by
    unfold putDesk
    rw [hs']
    exact (List.getElem?_set_ne hne).trans hs
  have hlogs : (w.putDesk j e').logs = w.logs.set log' e'.staging.log := by
    unfold putDesk
    rw [hs']
  by_cases hsame : log' = log
  · subst hsame
    refine ⟨⟨d.session, ⟨e'.staging.log, (w.putDesk j e').issued⟩⟩,
      desk?_eq_some_iff.2 ⟨log', hsessions, ?_, rfl⟩, rfl, .inr ⟨log', hs, hs', ?_, rfl⟩⟩
    · rw [hlogs, List.getElem?_set_self hlog']
    · exact Option.some.inj (hl.symm.trans hl')
  · refine ⟨⟨d.session, ⟨d.staging.log, (w.putDesk j e').issued⟩⟩,
      desk?_eq_some_iff.2 ⟨log, hsessions, ?_, rfl⟩, rfl, .inl rfl⟩
    rw [hlogs, List.getElem?_set_ne hsame, hl]

/-- Where the sessions are stays. -/
theorem places_putDesk {e e' : Desk} (he : w.desk? j = some e)
    (htable : e'.session.table = e.session.table) : (w.putDesk j e').places = w.places := by
  obtain ⟨log, hs, -, -⟩ := desk?_eq_some_iff.1 he
  have hj := (List.getElem?_eq_some_iff.1 hs).1
  unfold places putDesk
  rw [hs]
  refine List.ext_getElem? fun k => ?_
  rw [List.getElem?_map, List.getElem?_map]
  by_cases hjk : j = k
  · subst hjk
    rw [List.getElem?_set_self hj, hs]
    simp [htable]
  · rw [List.getElem?_set_ne hjk]

/-- Sessions on one log are of different tables, if no place is taken twice. -/
theorem table_ne_of_nodup {log : Nat} {s s' : Session} (hplaces : w.places.Nodup) (hne : j ≠ i)
    (hs : w.sessions[i]? = some (log, s)) (hs' : w.sessions[j]? = some (log, s')) :
    s.table ≠ s'.table := by
  intro htable
  have hi : w.places[i]? = some (log, s.table) := by simp [places, hs]
  have hj : w.places[j]? = some (log, s.table) := by simp [places, hs', htable]
  exact hne ((List.getElem?_inj (List.getElem?_eq_some_iff.1 hj).1 hplaces).1 (hj.trans hi.symm))

/-- Whether a session of a workspace is as at a desk of its own, where there are no changes but
those of its table. -/
def HasTwin (w : Workspace) (i : Nat) (own : Desk) : Prop :=
  ∃ d others, w.desk? i = some d ∧ d.Twins own.session.table others [] own

variable {own : Desk}

/-- A move of the session is answered as at its own desk. -/
theorem HasTwin.move_self (h : w.HasTwin i own) (m : Move) :
    ∃ reply w', w.at? i m.perform = some (reply, w')
      ∧ Move.Reply.withoutId reply = Move.Reply.withoutId (m.perform own).1
      ∧ w'.HasTwin i (m.perform own).2 ∧ w'.places = w.places := by
  obtain ⟨d, others, hdesk, htwins⟩ := h
  obtain ⟨hreply, hmoved⟩ := htwins.move m
  refine ⟨_, _, at?_eq_some_iff.2 ⟨d, hdesk, rfl, rfl⟩, hreply, ?_, ?_⟩
  · refine ⟨_, others, desk?_putDesk_self hdesk _, ?_⟩
    rwa [hmoved.table_eq]
  · exact places_putDesk hdesk (m.confined d).1

/-- A move of another session is not noticed. -/
theorem HasTwin.move_other {m : Move} {reply : Move.Reply} {w' : Workspace} (h : w.HasTwin i own)
    (hplaces : w.places.Nodup) (hne : j ≠ i) (hat : w.at? j m.perform = some (reply, w')) :
    w'.HasTwin i own ∧ w'.places = w.places := by
  obtain ⟨e, he, -, rfl⟩ := at?_eq_some_iff.1 hat
  obtain ⟨d, others, hdesk, htwins⟩ := h
  refine ⟨?_, places_putDesk he (m.confined e).1⟩
  obtain ⟨d', hdesk', hsession, hlog⟩ := desk?_putDesk_other hne hdesk he (m.perform e).2
  have hchanges : d'.changes = d.changes := by
    unfold Desk.changes
    rw [hsession]
    rcases hlog with hsame | ⟨log, hs, hs', hbefore, hafter⟩
    · rw [hsame]
    · rw [hafter, hbefore]
      exact (m.confined e).2 _ (table_ne_of_nodup hplaces hne hs hs')
  exact ⟨d', _, hdesk', hsession.trans htwins.session, rfl, hchanges ▸ htwins.changes, rfl,
    htwins.foreign'⟩

/-- In every interleaving of moves the session has the replies that it has at its own desk, and it is
left as it is left there. -/
theorem HasTwin.play (h : w.HasTwin i own) (hplaces : w.places.Nodup) (moves : List (Nat × Move)) :
    (ofSession i (w.play moves).1).map Move.Reply.withoutId
        = (own.play (ofSession i moves)).1.map Move.Reply.withoutId
      ∧ (w.play moves).2.HasTwin i (own.play (ofSession i moves)).2 := by
  induction moves generalizing w own with
  | nil => exact ⟨rfl, h⟩
  | cons entry rest ih =>
    obtain ⟨j, m⟩ := entry
    rw [Workspace.play]
    -- a move of the session is a step at both places, any other one a step in the workspace only
    by_cases hne : j = i
    · subst hne
      obtain ⟨reply, w', hat, hreply, htwins, hstay⟩ := h.move_self m
      obtain ⟨hreplies, hleft⟩ := ih htwins (hstay ▸ hplaces)
      rw [hat]
      simp only [ofSession_cons_self, Desk.play, List.map_cons]
      exact ⟨by rw [hreply, hreplies], hleft⟩
    · rw [ofSession_cons_other hne]
      cases hat : w.at? j m.perform with
      | none => exact ih h hplaces
      | some outcome =>
        obtain ⟨reply, w'⟩ := outcome
        obtain ⟨htwins, hstay⟩ := h.move_other hplaces hne hat
        simp only [ofSession_cons_other hne]
        exact ih htwins (hstay ▸ hplaces)

/-- A workspace in which all sessions share one log, with what is in it already. -/
def sharing (log : ChangeLog) (issued : Nat) (sessions : List Session) : Workspace :=
  ⟨sessions.map fun s => (0, s), [log], issued⟩

end Workspace

/-- How a session fares among others, compared with a desk of its own where only its own moves are
made. -/
structure Undisturbed (w : Workspace) (moves : List (Nat × Move)) (i : Nat) (own : Desk) :
    Prop where
  /-- The results and the errors are the same, but for the ids of changes. -/
  replies : (ofSession i (w.play moves).1).map Move.Reply.withoutId
    = (own.play (ofSession i moves)).1.map Move.Reply.withoutId
  /-- The fetched rows, the edits and the view are the same, the changes of the table are the own
  changes but for their ids, and their statements are the own statements. -/
  desk : ∃ d, (w.play moves).2.desk? i = some d
    ∧ d.session = (own.play (ofSession i moves)).2.session
    ∧ d.view = (own.play (ofSession i moves)).2.view
    ∧ d.changes.map (·.withoutId)
      = (own.play (ofSession i moves)).2.staging.log.changes.map (·.withoutId)
    ∧ d.changes.map (·.sql) = (own.play (ofSession i moves)).2.staging.log.statements

/-- Sessions of different tables that share a log do not disturb each other, in whatever order their
moves are made: each fares as at a desk of its own, with a log that holds the changes of its table
only. -/
theorem sessions_undisturbed {sessions : List Session}
    (hdifferent : (sessions.map (·.table)).Nodup) (log : ChangeLog) (issued issued' : Nat)
    (moves : List (Nat × Move)) {i : Nat} {s : Session} (hs : sessions[i]? = some s) :
    Undisturbed (.sharing log issued sessions) moves i ⟨s, ⟨⟨log.forTable s.table⟩, issued'⟩⟩ := by
  have hplaces : (Workspace.sharing log issued sessions).places.Nodup := by
    have hmap : (Workspace.sharing log issued sessions).places
        = (sessions.map (·.table)).map (0, ·) := by
      simp [Workspace.places, Workspace.sharing]
    rw [hmap, List.Nodup, List.pairwise_map]
    exact hdifferent.imp fun hne h => hne (Prod.mk.inj h).2
  have hown : (Workspace.sharing log issued sessions).HasTwin i
      ⟨s, ⟨⟨log.forTable s.table⟩, issued'⟩⟩ := by
    refine ⟨⟨s, ⟨log, issued⟩⟩, _, Workspace.desk?_eq_some_iff.2 ⟨0, ?_, rfl, rfl⟩,
      rfl, rfl, ?_, rfl, ?_⟩
    · simp [Workspace.sharing, hs]
    · simp [Desk.changes, ChangeLog.forTable]
    · simp [ChangeLog.foreign, ChangeLog.forTable]
  obtain ⟨hreplies, d, others, hdesk, htwins⟩ := hown.play hplaces moves
  have hchanges := htwins.changes
  have hall := ChangeLog.forTable_eq_changes htwins.foreign'
  rw [Desk.changes, Desk.changes, hall] at hchanges
  exact ⟨hreplies, d, hdesk, htwins.session, htwins.view, hchanges, Change.map_sql_congr hchanges⟩

/-- Sessions of two tables of the same name in different schemas, with the same rows. -/
def sameNamed : List Session :=
  [.start ⟨"public", "articles"⟩ articles none, .start ⟨"archive", "articles"⟩ articles none]

/-- Both sessions change the same row, and one of them is refused. -/
def sameNamedMoves : List (Nat × Move) :=
  [(0, .call (.editCell 0 "price" (.int 6))), (1, .call (.deleteRow 0)), (0, .call (.stageRow 0)),
    (1, .call (.editCell 0 "price" (.int 6))), (1, .refresh (some articles)),
    (0, .call (.insertRow (.ofList [("id", .int 3)]))), (0, .call (.editText 1 "price" "7"))]

theorem sessions_undisturbed_sameNamed :
    (sameNamed.map (·.table)).Nodup
    ∧ ((Workspace.shared sameNamed).play sameNamedMoves).2.logs.map (·.size) = [3]
    ∧ Undisturbed (.shared sameNamed) sameNamedMoves 0
      ⟨.start ⟨"public", "articles"⟩ articles none, .empty⟩
    ∧ Undisturbed (.shared sameNamed) sameNamedMoves 1
      ⟨.start ⟨"archive", "articles"⟩ articles none, .empty⟩ := by
  have hdifferent : (sameNamed.map (·.table)).Nodup := by decide
  refine ⟨hdifferent, by decide +kernel, ?_, ?_⟩
  · exact sessions_undisturbed hdifferent .empty 0 0 sameNamedMoves rfl
  · exact sessions_undisturbed hdifferent .empty 0 0 sameNamedMoves rfl

end StagedTable
