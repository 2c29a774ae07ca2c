import StagedTable.Proofs.Value.Comparison
import StagedTable.Session.Editing

/-!
# Calls of a session

The calls that edit or stage, as data, and what each of them can do to a desk. A call is refused and
leaves the desk as it was, or changes the edits of one row, or stages one change at the end.
-/

namespace StagedTable

/-! ### Calls -/

/-- A call of a session that edits or stages. -/
inductive Call
  | editCell (row : Int) (name : String) (value : Value)
  | editText (row : Int) (name text : String)
  | stageRow (row : Int)
  | deleteRow (row : Int)
  | insertRow (data : Row)

namespace Call

/-- The desk that a call leaves, be it refused or not. -/
def run (d : Desk) : Call → Desk
  | editCell row name value => (Session.editCell row name value d).2
  | editText row name text => (Session.editText row name text d).2
  | stageRow row => (Session.stageRow row d).2
  | deleteRow row => (Session.deleteRow row d).2
  | insertRow data => (Session.insertRow data d).2

/-- The desk that calls leave, one after the other. -/
def runAll (d : Desk) (calls : List Call) : Desk := calls.foldl run d

/-- Whether a call brings comparable values only. -/
def IsClean (columns : List Column) : Call → Prop
  | editCell _ _ value => value.IsComparable
  | editText _ name text => ∀ c v, Column.find? name columns = some c → c.entered text = .ok v →
      v.holdsNan = false
  | stageRow _ | deleteRow _ => True
  | insertRow data => ∀ field ∈ data.fields, field.2.IsComparable

end Call

/-- Whether a desk comes of another one by edits and staging: the fetched rows are the same, and to
the changes of the table some may have been added. -/
structure Desk.Extends (d d' : Desk) : Prop where
  data : d'.session.data = d.session.data
  changes : d.changes <+: d'.changes

namespace Desk.Extends

theorem refl (d : Desk) : d.Extends d := ⟨rfl, List.prefix_rfl⟩

theorem trans {d d' d'' : Desk} (h : d.Extends d') (h' : d'.Extends d'') : d.Extends d'' :=
  ⟨h'.data.trans h.data, h.changes.trans h'.changes⟩

/-- The edits of a desk do not matter. -/
theorem mapEdits {d d' : Desk} (h : d.Extends d') (f : Edits → Edits) :
    d.Extends (d'.mapSession (·.mapEdits f)) := ⟨h.data, h.changes⟩

end Desk.Extends

namespace Session

theorem editCell_cases (row : Int) (name : String) (value : Value) (d : Desk) :
    (∃ e, editCell row name value d = (.error e, d))
    ∨ ∃ content c, d.openRow row = .ok content ∧ d.column name = .ok c
      ∧ ((c.alike value ((content.get? name).getD .null) = true
          ∧ editCell row name value d = (.ok (), d.mapSession (·.mapEdits (·.erase ⟨row, name⟩))))
        ∨ (c.alike value ((content.get? name).getD .null) = false
          ∧ editCell row name value d
            = (.ok (), d.mapSession (·.mapEdits (·.put ⟨row, name⟩ value))))) := by
  unfold editCell
  cases hrow : d.openRow row with
  | error e =>
    rw [Attempt.bind_of_error (by rw [Attempt.look_apply, hrow])]
    exact .inl ⟨e, rfl⟩
  | ok content =>
    rw [Attempt.bind_of_ok (by rw [Attempt.look_apply, hrow])]
    cases hcolumn : d.column name with
    | error e =>
      rw [Attempt.bind_of_error (by rw [Attempt.look_apply, hcolumn])]
      exact .inl ⟨e, rfl⟩
    | ok c =>
      rw [Attempt.bind_of_ok (by rw [Attempt.look_apply, hcolumn])]
      cases hcompare : c.compare value ((content.get? name).getD .null) with
      | error e =>
        rw [Attempt.bind_of_error (by rw [Attempt.look_apply]; rfl)]
        exact .inl ⟨.comparison e, rfl⟩
      | ok same =>
        have hlook : (Attempt.look fun _ => (Except.ok same).mapError SessionError.comparison) d
            = (.ok same, d) := rfl
        rw [Attempt.bind_of_ok hlook]
        refine .inr ⟨content, c, rfl, rfl, ?_⟩
        have halike := Column.alike_of_compare hcompare
        cases same with
        | true => exact .inl ⟨halike, rfl⟩
        | false => exact .inr ⟨halike, rfl⟩

/-- An edit by a text is refused or is an edit by the value that is entered. -/
theorem editText_cases (row : Int) (name text : String) (d : Desk) :
    (∃ e, editText row name text d = (.error e, d))
    ∨ ∃ c value, d.column name = .ok c ∧ c.entered text = .ok value
      ∧ editText row name text d = editCell row name value d := by
  unfold editText
  cases hcolumn : d.column name with
  | error e =>
    rw [Attempt.bind_of_error (by rw [Attempt.look_apply, hcolumn])]
    exact .inl ⟨e, rfl⟩
  | ok c =>
    rw [Attempt.bind_of_ok (by rw [Attempt.look_apply, hcolumn])]
    cases hvalue : c.entered text with
    | error e =>
      rw [Attempt.bind_of_error (by rw [Attempt.look_apply]; rfl)]
      exact .inl ⟨.parse e, rfl⟩
    | ok value =>
      have hlook : (Attempt.look fun _ => (Except.ok value).mapError SessionError.parse) d
          = (.ok value, d) := rfl
      rw [Attempt.bind_of_ok hlook]
      exact .inr ⟨c, value, rfl, hvalue, rfl⟩

/-- Whether a desk comes of another one by staging a change at the end. -/
structure Stages (d : Desk) (kind : ChangeKind) (data : Row) (preimage : Option Row) (c : Change)
    (d' : Desk) : Prop where
  kind_eq : c.kind = kind
  data_eq : c.data = data
  preimage_eq : c.preimage = preimage
  statement : Sql.Statement.ofChange kind d.session.table data preimage d.session.data.columns
    = .ok c.statement
  session : d'.session = d.session
  changes : d'.changes = d.changes ++ [c]

variable {d d' : Desk} {kind : ChangeKind} {data : Row} {preimage : Option Row} {c : Change}

theorem Stages.extends (h : Stages d kind data preimage c d') : d.Extends d' :=
  ⟨by rw [h.session], ⟨[c], h.changes.symm⟩⟩

theorem stages_of_stage (h : stage kind data preimage d = (.ok c, d')) :
    Stages d kind data preimage c d' := by
  unfold stage Staging.add at h
  cases hstatement : Sql.Statement.ofChange kind d.session.table data preimage
      d.session.data.columns with
  | error e => rw [hstatement] at h; cases h
  | ok statement =>
    rw [hstatement] at h
    cases h
    refine ⟨rfl, rfl, rfl, hstatement, rfl, ?_⟩
    show ChangeLog.forTable _ _ = _
    rw [ChangeLog.forTable, ChangeLog.changes_append, List.filter_append,
      List.filter_cons_of_pos (by simp)]
    rfl

theorem stage_cases {α : Type} (kind : ChangeKind) (data : Row) (preimage : Option Row)
    (next : Change → Act α) (d : Desk) :
    (∃ e, (stage kind data preimage >>= next) d = (.error e, d))
    ∨ ∃ c d', Stages d kind data preimage c d'
      ∧ (stage kind data preimage >>= next) d = next c d' := by
  cases hstage : stage kind data preimage d with
  | mk result d' =>
    cases result with
    | error e =>
      rw [Attempt.bind_of_error hstage, eq_of_stage_error hstage]
      exact .inl ⟨e, rfl⟩
    | ok c =>
      rw [Attempt.bind_of_ok hstage]
      exact .inr ⟨c, d', stages_of_stage hstage, rfl⟩

/-- A row without edits is staged by doing nothing. -/
theorem stageRow_cases (row : Int) (d : Desk) :
    (∃ e, stageRow row d = (.error e, d)) ∨ stageRow row d = (.ok none, d)
    ∨ ∃ content c d', d.openRow row = .ok content
      ∧ Stages d .update (d.session.rowEdits row) (some content) c d'
      ∧ stageRow row d = (.ok (some c), d'.mapSession (·.mapEdits (·.eraseRow row))) := by
  unfold stageRow
  cases hrow : d.openRow row with
  | error e =>
    rw [Attempt.bind_of_error (by rw [Attempt.look_apply, hrow])]
    exact .inl ⟨e, rfl⟩
  | ok content =>
    have hread : (Attempt.read (·.session.rowEdits row) : Act Row) d
        = (.ok (d.session.rowEdits row), d) := rfl
    rw [Attempt.bind_of_ok (by rw [Attempt.look_apply, hrow]), Attempt.bind_of_ok hread]
    cases (d.session.rowEdits row).isEmpty with
    | true => exact .inr (.inl rfl)
    | false =>
      rcases stage_cases .update (d.session.rowEdits row) (some content)
          (fun change => do changeEdits (·.eraseRow row); return some change) d with h | h
      · exact .inl h
      · obtain ⟨c, d', hstages, h⟩ := h
        exact .inr (.inr ⟨content, c, d', rfl, hstages, h⟩)

theorem deleteRow_cases (row : Int) (d : Desk) :
    (∃ e, deleteRow row d = (.error e, d))
    ∨ ∃ content c d', d.openRow row = .ok content
      ∧ Stages d .delete content (some content) c d'
      ∧ deleteRow row d = (.ok c, d'.mapSession (·.mapEdits (·.eraseRow row))) := by
  unfold deleteRow
  cases hrow : d.openRow row with
  | error e =>
    rw [Attempt.bind_of_error (by rw [Attempt.look_apply, hrow])]
    exact .inl ⟨e, rfl⟩
  | ok content =>
    rw [Attempt.bind_of_ok (by rw [Attempt.look_apply, hrow])]
    rcases stage_cases .delete content (some content)
        (fun change => do changeEdits (·.eraseRow row); return change) d with h | h
    · exact .inl h
    · obtain ⟨c, d', hstages, h⟩ := h
      exact .inr ⟨content, c, d', rfl, hstages, h⟩

theorem requireColumns_snd (names : List String) (d : Desk) :
    (requireColumns names d).2 = d := by
  induction names with
  | nil => rfl
  | cons name rest ih =>
    unfold requireColumns
    cases hcolumn : d.column name with
    | error e => rw [Attempt.bind_of_error (by rw [Attempt.look_apply, hcolumn])]
    | ok c => rw [Attempt.bind_of_ok (by rw [Attempt.look_apply, hcolumn]), ih]

theorem insertRow_cases (data : Row) (d : Desk) :
    (∃ e, insertRow data d = (.error e, d))
    ∨ ∃ c d', Stages d .insert data none c d' ∧ insertRow data d = (.ok c, d') := by
  unfold insertRow
  cases hrequire : requireColumns data.names d with
  | mk result d' =>
    have hd : d' = d := by rw [← requireColumns_snd data.names d, hrequire]
    subst hd
    cases result with
    | error e =>
      rw [Attempt.bind_of_error hrequire]
      exact .inl ⟨e, rfl⟩
    | ok _ =>
      rw [Attempt.bind_of_ok hrequire]
      cases hstage : stage .insert data none d' with
      | mk result d =>
        cases result with
        | error e => exact .inl ⟨e, by rw [eq_of_stage_error hstage]⟩
        | ok c => exact .inr ⟨c, d, stages_of_stage hstage, rfl⟩

end Session

/-! ### Every call -/

/-- Work whose result is of no interest. -/
def Attempt.ignore {σ ε α : Type} (act : Attempt σ ε α) : Attempt σ ε Unit := fun s =>
  let (result, s) := act s
  (result.map fun _ => (), s)

theorem Attempt.ignore_of_apply {σ ε α : Type} {act : Attempt σ ε α} {s t : σ}
    {result : Except ε α} (h : act s = (result, t)) :
    act.ignore s = (result.map fun _ => (), t) := by
  rw [ignore, h]

theorem Attempt.ignore_of_error {σ ε α : Type} {act : Attempt σ ε α} {s t : σ} {e : ε}
    (h : act.ignore s = (.error e, t)) : act s = (.error e, t) := by
  cases hact : act s with
  | mk result u =>
    rw [ignore_of_apply hact] at h
    cases result with
    | error e' =>
      cases h
      rfl
    | ok a => cases h

namespace Call

/-- A call, with what it yields left aside. -/
def perform : Call → Act Unit
  | editCell row name value => Session.editCell row name value
  | editText row name text => Session.editText row name text
  | stageRow row => (Session.stageRow row).ignore
  | deleteRow row => (Session.deleteRow row).ignore
  | insertRow data => (Session.insertRow data).ignore

variable {d d' : Desk}

theorem snd_perform (c : Call) (d : Desk) : (c.perform d).2 = c.run d := by
  cases c <;> rfl

/-- A call is refused and leaves the desk as it was, or takes nothing back that was staged. -/
theorem perform_cases (c : Call) (d : Desk) :
    (∃ e, c.perform d = (.error e, d)) ∨ ∃ d', c.perform d = (.ok (), d') ∧ d.Extends d' := by
  have hcell : ∀ row name value, (∃ e, Session.editCell row name value d = (.error e, d))
      ∨ ∃ d', Session.editCell row name value d = (.ok (), d') ∧ d.Extends d' := by
    intro row name value
    rcases Session.editCell_cases row name value d with h | ⟨_, _, -, -, ⟨-, h⟩ | ⟨-, h⟩⟩
    · exact .inl h
    · exact .inr ⟨_, h, (Desk.Extends.refl d).mapEdits _⟩
    · exact .inr ⟨_, h, (Desk.Extends.refl d).mapEdits _⟩
  cases c with
  | editCell row name value => exact hcell row name value
  | editText row name text =>
    rcases Session.editText_cases row name text d with h | ⟨_, value, -, -, h⟩
    · exact .inl h
    · rw [perform, h]
      exact hcell row name value
  | stageRow row =>
    rcases Session.stageRow_cases row d with ⟨e, h⟩ | h | ⟨_, c, d', -, hstages, h⟩
    · exact .inl ⟨e, Attempt.ignore_of_apply h⟩
    · exact .inr ⟨d, Attempt.ignore_of_apply h, .refl d⟩
    · exact .inr ⟨_, Attempt.ignore_of_apply h, hstages.extends.mapEdits _⟩
  | deleteRow row =>
    rcases Session.deleteRow_cases row d with ⟨e, h⟩ | ⟨_, c, d', -, hstages, h⟩
    · exact .inl ⟨e, Attempt.ignore_of_apply h⟩
    · exact .inr ⟨_, Attempt.ignore_of_apply h, hstages.extends.mapEdits _⟩
  | insertRow data =>
    rcases Session.insertRow_cases data d with ⟨e, h⟩ | ⟨c, d', hstages, h⟩
    · exact .inl ⟨e, Attempt.ignore_of_apply h⟩
    · exact .inr ⟨d', Attempt.ignore_of_apply h, hstages.extends⟩

/-- A call that is refused leaves the desk as it was. -/
theorem eq_of_refused {c : Call} {e : SessionError} (h : c.perform d = (.error e, d')) :
    d' = d := by
  rcases c.perform_cases d with ⟨e', he⟩ | ⟨d₁, hok, -⟩
  · rw [he] at h
    cases h
    rfl
  · rw [hok] at h
    cases h

/-- No call takes anything back that was staged before. -/
theorem extends_run (d : Desk) (call : Call) : d.Extends (call.run d) := by
  rw [← snd_perform]
  rcases call.perform_cases d with ⟨e, he⟩ | ⟨d', hok, hextends⟩
  · rw [he]
    exact .refl d
  · rw [hok]
    exact hextends

/-- A call leaves the staged changes as they are, or stages one: an insertion, or a change of a row
that could be changed. -/
theorem stages_cases (call : Call) (d : Desk) :
    (call.run d).changes = d.changes
    ∨ ∃ kind data preimage c d', Session.Stages d kind data preimage c d'
      ∧ (call.run d).changes = d'.changes
      ∧ (kind = .insert ∨ ∃ row content, preimage = some content ∧ d.openRow row = .ok content) := by
  have hcell : ∀ row name value, (Session.editCell row name value d).2.changes = d.changes := by
    intro row name value
    rcases Session.editCell_cases row name value d with h | ⟨_, _, -, -, ⟨-, h⟩ | ⟨-, h⟩⟩
    · obtain ⟨e, h⟩ := h
      rw [h]
    · rw [h]
      rfl
    · rw [h]
      rfl
  cases call with
  | editCell row name value => exact .inl (hcell row name value)
  | editText row name text =>
    left
    show (Session.editText row name text d).2.changes = d.changes
    rcases Session.editText_cases row name text d with ⟨e, h⟩ | ⟨_, value, -, -, h⟩ <;> rw [h]
    exact hcell row name value
  | stageRow row =>
    show (Session.stageRow row d).2.changes = d.changes ∨ _
    rcases Session.stageRow_cases row d with ⟨e, h⟩ | h | ⟨content, c, d', hopen, hstages, h⟩
    · exact .inl (by rw [h])
    · exact .inl (by rw [h])
    · refine .inr ⟨_, _, _, c, d', hstages, ?_, .inr ⟨row, content, rfl, hopen⟩⟩
      show (Session.stageRow row d).2.changes = d'.changes
      rw [h]
      rfl
  | deleteRow row =>
    show (Session.deleteRow row d).2.changes = d.changes ∨ _
    rcases Session.deleteRow_cases row d with ⟨e, h⟩ | ⟨content, c, d', hopen, hstages, h⟩
    · exact .inl (by rw [h])
    · refine .inr ⟨_, _, _, c, d', hstages, ?_, .inr ⟨row, content, rfl, hopen⟩⟩
      show (Session.deleteRow row d).2.changes = d'.changes
      rw [h]
      rfl
  | insertRow data =>
    show (Session.insertRow data d).2.changes = d.changes ∨ _
    rcases Session.insertRow_cases data d with ⟨e, h⟩ | ⟨c, d', hstages, h⟩
    · exact .inl (by rw [h])
    · refine .inr ⟨_, _, _, c, d', hstages, ?_, .inl rfl⟩
      show (Session.insertRow data d).2.changes = d'.changes
      rw [h]

end Call

end StagedTable
