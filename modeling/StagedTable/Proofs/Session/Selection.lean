import StagedTable.Proofs.Session.EditedView
import StagedTable.Proofs.Session.Matching

/-!
# The rows that a statement selects

A staged change knows its row by the pre-image alone. Its statement tests the primary key values of
the pre-image, or all its values on a table without a primary key (`Sql.Statement.meets_ofChange`),
and so selects every row that holds them. The view gives the change to the first such row that is
left.

On a table without a primary key equal rows are the same to both, and the statement selects all of
them: the view shows the first one (`keyless_shows_first`). It shows what the statement does if and
only if the row that was asked for has no duplicate.
-/

namespace StagedTable

/-! ### What a statement tests -/

namespace Sql

variable {kind : ChangeKind} {table : TableName} {data preimage r : Row} {columns : List Column}
  {s : Statement} {bs : List Binding}

/-- Tests of named values are met by a row that holds all of them. -/
theorem Statement.forall_isMet_iff_holds
    (h : List.Forall₂
      (fun field b => b.Says field.1 ((Column.find? field.1 columns).map (·.dataType)) field.2)
      preimage.fields bs) :
    bs.all (·.isMet r) = r.holds preimage := by
  rw [Row.holds]
  generalize preimage.fields = fields at h
  induction h with
  | nil => rfl
  | @cons field b _ _ hb _ ih =>
    obtain ⟨name, v⟩ := field
    rw [List.all_cons, List.all_cons, ih]
    congr 1
    rw [Bool.eq_iff_iff, isMet_iff hb]
    cases hget : r.get? name <;> simp [hget]

/-- The statement of an update or a deletion of a row has the condition that picks the row out. -/
theorem Statement.condition_ofChange (hkind : kind ≠ .insert)
    (h : ofChange kind table data (some preimage) columns = .ok s) :
    ∃ bs, condition preimage columns = .ok bs ∧ ∀ r, s.meets r = bs.all (·.isMet r) := by
  cases kind with
  | insert => exact absurd rfl hkind
  | update =>
    obtain ⟨_, bs, rfl, -, -, hcondition⟩ := updateRow_ok h
    exact ⟨bs, hcondition, fun _ => rfl⟩
  | delete =>
    obtain ⟨bs, rfl, hcondition⟩ := deleteRow_ok h
    exact ⟨bs, hcondition, fun _ => rfl⟩

/-- A row that has a condition has all primary key values. -/
theorem Statement.carries_of_condition (h : condition preimage columns = .ok bs) :
    ∀ key ∈ Column.keys columns, (preimage.get? key.name).isSome := by
  intro key hkey
  have hkeys : Column.keys columns ≠ [] := List.ne_nil_of_mem hkey
  obtain ⟨b, -, v, hv, -⟩ := exists_of_forall₂ (condition_keyed hkeys h).2.flip hkey
  rw [hv]
  rfl

/-- The rows that the statement of an update or a deletion picks out: those with the primary key
values of the pre-image, and on a table without a primary key those with all its values. -/
theorem Statement.meets_ofChange (hkind : kind ≠ .insert)
    (h : ofChange kind table data (some preimage) columns = .ok s) (r : Row) :
    s.meets r = true ↔ if Column.keys columns = [] then r.holds preimage = true
      else SameKey columns r preimage := by
  obtain ⟨bs, hcondition, hmeets⟩ := condition_ofChange hkind h
  rw [hmeets]
  split
  · next hkeyless => rw [forall_isMet_iff_holds (condition_keyless hkeyless hcondition).2]
  · next hkeys => exact meets_condition hkeys hcondition

end Sql

/-! ### Tables without a primary key -/

/-- The places of the fetched rows that the statement of a change selects. -/
def Desk.selected (d : Desk) (c : Change) : List Nat :=
  d.session.data.rows.findIdxs c.statement.meets

/-- What is found among rows none of which is skipped is the first of all that hold the
pre-image. -/
theorem findRowFrom_eq_head? (preimage : Row) (start : Nat) (rows : List Row) :
    findRowFrom (fun _ => false) preimage start rows
      = (rows.findIdxs (·.holds preimage) start).head? := by
  induction rows generalizing start with
  | nil => rfl
  | cons r rest ih =>
    rw [findRowFrom, List.findIdxs_cons, ih]
    cases r.holds preimage <;> rfl

/-- How a change of a row, the statement of which selects every row with the same values, is shown:
on the first of them. -/
structure ShowsFirst (d : Desk) (i : Int) (c : Change) (shown : Nat → Prop) : Prop where
  /-- The statement selects the rows that hold the values of the row that was asked for. -/
  selects : ∃ content, d.session.data.rows[i.toNat]? = some content
    ∧ ∀ k, k ∈ d.selected c ↔ ∃ r, d.session.data.rows[k]? = some r ∧ r.holds content = true
  own : i.toNat ∈ d.selected c
  first : ∀ k, shown k ↔ (d.selected c).head? = some k
  agrees : (∀ k, shown k ↔ k ∈ d.selected c) ↔ d.selected c = [i.toNat]

variable {d d' : Desk} {i : Int} {content data : Row} {kind : ChangeKind} {c : Change}
  {shown : Nat → Prop}

/-- The first of some places is every one of them if there is no other. -/
theorem forall_head?_iff {places : List Nat} {i : Nat} (hnodup : places.Nodup) (hi : i ∈ places) :
    (∀ k, places.head? = some k ↔ k ∈ places) ↔ places = [i] := by
  cases places with
  | nil => cases hi
  | cons j rest =>
    rw [List.nodup_cons] at hnodup
    constructor
    · intro h
      have hrest : rest = [] := by
        rw [List.eq_nil_iff_forall_not_mem]
        intro k hk
        have hjk : (j :: rest).head? = some k := (h k).2 (.tail _ hk)
        cases hjk
        exact hnodup.1 hk
      rw [hrest, List.mem_singleton] at hi
      rw [hrest, hi]
    · intro h k
      cases h
      simp [eq_comm]

theorem Desk.staged_of_none (h : d.changes = []) : d.staged = .ofRows d.session.data.rows := by
  rw [staged, h]
  rfl

/-- Nothing is staged yet and rows are named by all their values: then the change of a row is
matched to the first row that its statement selects. -/
theorem Session.Stages.target?_keyless (h : Stages d kind data (some content) c d')
    (hkind : kind ≠ .insert) (hkeyless : Column.keys d.session.data.columns = [])
    (hnone : d.changes = []) : d.staged.target? c = (d.selected c).head? := by
  have hmeets : c.statement.meets = (·.holds content) := by
    funext r
    have hiff := Sql.Statement.meets_ofChange hkind h.statement r
    rw [if_pos hkeyless] at hiff
    exact Bool.eq_iff_iff.2 hiff
  rw [View.target?_eq_findRow (by rwa [h.kind_eq]) h.preimage_eq, Desk.selected, hmeets,
    ← findRowFrom_eq_head?, Desk.staged_of_none hnone]
  rfl

theorem Session.Stages.showsFirst (h : Stages d kind data (some content) c d')
    (hkind : kind ≠ .insert) (hopen : d.openRow i = .ok content)
    (hkeyless : Column.keys d.session.data.columns = []) (hnone : d.changes = [])
    (hcomparable : ∀ r ∈ d.session.data.rows, r.IsComparable)
    (hshown : ∀ k, shown k ↔ d.staged.target? c = some k) : ShowsFirst d i c shown := by
  obtain ⟨-, hget, -⟩ := Desk.openRow_ok.1 hopen
  rw [Desk.staged_of_none hnone] at hget
  have hselects : ∀ k, k ∈ d.selected c
      ↔ ∃ r, d.session.data.rows[k]? = some r ∧ r.holds content = true := by
    intro k
    rw [Desk.selected, List.mem_findIdxs_iff_exists_getElem_pos]
    constructor
    · rintro ⟨hlt, hmeets⟩
      have hholds := (Sql.Statement.meets_ofChange hkind h.statement _).1 hmeets
      rw [if_pos hkeyless] at hholds
      exact ⟨_, List.getElem?_eq_getElem hlt, hholds⟩
    · rintro ⟨r, hr, hholds⟩
      obtain ⟨hlt, rfl⟩ := List.getElem?_eq_some_iff.1 hr
      refine ⟨hlt, (Sql.Statement.meets_ofChange hkind h.statement _).2 ?_⟩
      rwa [if_pos hkeyless]
  have hself : content.holds content = true :=
    Row.holds_self (hcomparable content (List.mem_of_getElem? hget))
  have hown : i.toNat ∈ d.selected c := (hselects _).2 ⟨content, hget, hself⟩
  have hfirst : ∀ k, shown k ↔ (d.selected c).head? = some k := by
    intro k
    rw [hshown, h.target?_keyless hkind hkeyless hnone]
  refine ⟨⟨content, hget, hselects⟩, hown, hfirst, ?_⟩
  simp only [hfirst]
  exact forall_head?_iff List.nodup_findIdxs hown

/-- A change that matches no row changes nothing that is shown. -/
theorem View.apply_of_none {v : View} (h : v.target? c = none) : v.apply c = v := by
  rw [apply, h]

/-- What is staged as an update of a row changes a cell at least. -/
theorem Session.Stages.data_nonempty (h : Stages d .update data (some content) c d') :
    ∃ name, (data.get? name).isSome := by
  obtain ⟨assignments, _, -, hne, hassignments, -⟩ := Sql.Statement.updateRow_ok h.statement
  have hchanged : Sql.Statement.changed data content ≠ [] := by
    intro hnil
    rw [hnil] at hassignments
    cases hassignments
    exact hne rfl
  obtain ⟨⟨name, value⟩, hfield⟩ := List.exists_mem_of_ne_nil _ hchanged
  have hmem := (Sql.Statement.mem_changed.1 hfield).1
  refine ⟨name, ?_⟩
  rw [Row.get?, Assoc.get?_of_mem data.nodup hmem]
  rfl

/-- The rows with a staged edit are the row that the first change was matched to. -/
theorem Session.Stages.edited_iff (h : Stages d .update data (some content) c d')
    (hnone : d.changes = []) (k : Nat) :
    (∃ name, (k, name) ∈ d'.staged.edited) ↔ d.staged.target? c = some k := by
  have hunmarked : d.staged.edited = [] := by
    rw [Desk.staged_of_none hnone]
    rfl
  rw [h.staged_eq]
  cases htarget : d.staged.target? c with
  | none => simp [View.apply_of_none htarget, hunmarked]
  | some j =>
    rw [View.apply_eq_overlay h.kind_eq htarget, h.data_eq]
    simp only [View.mem_edited_overlay, hunmarked, List.not_mem_nil, false_or]
    obtain ⟨name, hname⟩ := h.data_nonempty
    constructor
    · rintro ⟨_, rfl, -⟩
      rfl
    · intro hk
      cases hk
      exact ⟨name, rfl, hname⟩

theorem Session.Stages.deleted_iff (h : Stages d .delete data (some content) c d')
    (hnone : d.changes = []) (k : Nat) :
    k ∈ d'.staged.deleted ↔ d.staged.target? c = some k := by
  have hunmarked : d.staged.deleted = [] := by
    rw [Desk.staged_of_none hnone]
    rfl
  rw [h.staged_eq]
  cases htarget : d.staged.target? c with
  | none => simp [View.apply_of_none htarget, hunmarked]
  | some j =>
    rw [View.apply_eq_delete h.kind_eq htarget]
    simp [hunmarked, eq_comm]

/-- On a table without a primary key the statement of a deletion, or of the staged edits of a row,
selects the row that was asked for and all fetched rows with the same values. The view marks the
first of them, or shows the staged edits there, besides the edits that are still pending. -/
theorem keyless_shows_first (d : Desk) (i : Int)
    (hkeyless : Column.keys d.session.data.columns = []) (hnone : d.changes = [])
    (hcomparable : ∀ r ∈ d.session.data.rows, r.IsComparable) :
    (∀ c d', Session.deleteRow i d = (.ok c, d') → ShowsFirst d i c (· ∈ d'.view.deleted))
    ∧ ∀ c d', Session.stageRow i d = (.ok (some c), d') →
      ShowsFirst d i c (fun k => ∃ name, (k, name) ∈ d'.staged.edited)
      ∧ ∀ k name, (k, name) ∈ d'.view.edited ↔ (k, name) ∈ d'.staged.edited
        ∨ (k < d'.view.rows.length ∧ (d'.session.edits.get? ⟨k, name⟩).isSome) := by
  refine ⟨?_, ?_⟩
  · intro c d' hdelete
    rcases Session.deleteRow_cases i d with
      ⟨e, he⟩ | ⟨content, c, d₁, hopen, hstages, he⟩ <;> rw [he] at hdelete <;> cases hdelete
    apply hstages.showsFirst (by decide) hopen hkeyless hnone hcomparable
    intro k
    rw [← hstages.deleted_iff hnone]
    show k ∈ (View.withEdits d₁.staged (d₁.session.edits.eraseRow i)).deleted ↔ _
    rw [View.deleted_withEdits]
  · intro c d' hstage
    rcases Session.stageRow_cases i d with
      ⟨e, he⟩ | he | ⟨content, c, d₁, hopen, hstages, he⟩ <;> rw [he] at hstage <;> cases hstage
    refine ⟨hstages.showsFirst (by decide) hopen hkeyless hnone hcomparable
      (hstages.edited_iff hnone), ?_⟩
    intro k name
    have hview : (d₁.mapSession (·.mapEdits (·.eraseRow i))).view
        = d₁.staged.withEdits (d₁.session.edits.eraseRow i) := rfl
    rw [hview, View.mem_edited_withEdits, View.length_withEdits]
    rfl

/-- A table without a primary key, with two equal rows. -/
def readings : TableData :=
  ⟨[.bare "sensor" "text" true false, .bare "value" "integer" true false],
    [.ofList [("sensor", .text "roof"), ("value", .int 4)],
      .ofList [("sensor", .text "yard"), ("value", .null)],
      .ofList [("sensor", .text "roof"), ("value", .int 4)]]⟩

/-- Values of two rows are edited, one of which is one of the equal rows. -/
def readingsDesk : Desk :=
  Call.runAll ⟨Session.start ⟨"public", "readings"⟩ readings none, .empty⟩
    [.editCell 1 "value" (.int 7), .editCell 2 "value" (.int 5)]

theorem readings_comparable : ∀ r ∈ readings.rows, r.IsComparable := by
  have hplain : readings.rows.all (·.isPlain) = true := by decide +kernel
  intro r hr
  exact Row.cellOf_of_isPlain (List.all_eq_true.1 hplain r hr)

theorem keyless_shows_first_readings :
    Column.keys readingsDesk.session.data.columns = [] ∧ readingsDesk.changes = []
    ∧ (∀ r ∈ readingsDesk.session.data.rows, r.IsComparable)
    ∧ (∃ c d', Session.deleteRow 1 readingsDesk = (.ok c, d')
      ∧ ShowsFirst readingsDesk 1 c (· ∈ d'.view.deleted))
    ∧ ∃ c d', Session.stageRow 2 readingsDesk = (.ok (some c), d')
      ∧ ShowsFirst readingsDesk 2 c (fun k => ∃ name, (k, name) ∈ d'.staged.edited) := by
  have hkeyless : Column.keys readingsDesk.session.data.columns = [] := by decide +kernel
  have hnone : readingsDesk.changes = [] := List.isEmpty_iff.1 (by decide +kernel)
  have hdelete := (keyless_shows_first readingsDesk 1 hkeyless hnone readings_comparable).1
  have hstage := (keyless_shows_first readingsDesk 2 hkeyless hnone readings_comparable).2
  have hdeleted : (Session.deleteRow 1 readingsDesk).1.isOk = true := by decide +kernel
  have hstaged : (Session.stageRow 2 readingsDesk).1.toOption.join.isSome = true := by
    decide +kernel
  refine ⟨hkeyless, hnone, readings_comparable, ?_, ?_⟩
  · rcases Session.deleteRow_cases 1 readingsDesk with ⟨e, he⟩ | ⟨_, c, d', -, -, he⟩
    · rw [he] at hdeleted
      cases hdeleted
    · exact ⟨c, _, he, hdelete _ _ he⟩
  · rcases Session.stageRow_cases 2 readingsDesk with ⟨e, he⟩ | he | ⟨_, c, d', -, -, he⟩
    · rw [he] at hstaged
      cases hstaged
    · rw [he] at hstaged
      cases hstaged
    · exact ⟨c, _, he, (hstage _ _ he).1⟩

/-- Of two equal rows the statement of a deletion selects both, but only the first one is marked,
though the deletion of the other one was asked for. -/
theorem keyless_delete_hides_duplicate :
    Column.keys readingsDesk.session.data.columns = []
    ∧ readingsDesk.staging.log.changes = []
    ∧ (∀ r ∈ readingsDesk.session.data.rows, r.IsComparable
      ∧ ∀ c ∈ readingsDesk.session.data.columns, r.has c.name = true)
    ∧ ∃ c d', Session.deleteRow 2 readingsDesk = (.ok c, d')
      ∧ readingsDesk.selected c = [0, 2] ∧ d'.view.deleted = [0] := by
  have hcarries :
      (readings.rows.all fun r => readings.columns.all fun c => r.has c.name) = true := by
    decide +kernel
  have hselected : ((Session.deleteRow 2 readingsDesk).1.toOption.map readingsDesk.selected)
      = some [0, 2] := by decide +kernel
  have hdeleted : (Session.deleteRow 2 readingsDesk).2.view.deleted = [0] := by decide +kernel
  refine ⟨by decide +kernel, List.isEmpty_iff.1 (by decide +kernel), ?_, ?_⟩
  · intro r hr
    exact ⟨readings_comparable r hr, List.all_eq_true.1 (List.all_eq_true.1 hcarries r hr)⟩
  · cases hdelete : Session.deleteRow 2 readingsDesk with
    | mk result d' =>
      rw [hdelete] at hselected hdeleted
      cases result with
      | error e => cases hselected
      | ok c => exact ⟨c, d', rfl, Option.some.inj hselected, hdeleted⟩

end StagedTable
