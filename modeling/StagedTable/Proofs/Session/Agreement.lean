import StagedTable.Proofs.Session.EditedView
import StagedTable.Proofs.Session.Matching

/-!
# The view and the commit

The staged view of a session shows what the table will hold once the staged changes are made.
`Mirrors` is the invariant of a session behind this: the view and the table are tied together, and
the edits that are not staged yet tell the new values from those of their rows. Each call of the
session keeps it (`Mirrors.run`), as long as no two rows of the table share their key, so that it
holds after every run of calls; the upshot is `view_is_committed`.
-/

namespace StagedTable

variable {data : TableData} {d d' : Desk} {row : Int} {content : Row}
variable {kind : ChangeKind} {edits : Row} {c : Change}

/-! ### Pending edits -/

/-- Whether an edit of a cell is of a column that tells the new value from the one of the row, as
long as the row can still be changed. -/
def Desk.IsPending (d : Desk) (cell : CellRef) (value : Value) : Prop :=
  value.IsComparable ∧ ∃ c, d.column cell.column = .ok c
    ∧ ∀ content, d.openRow cell.row = .ok content →
      c.alike value ((content.get? cell.column).getD .null) = false

/-- The invariant of a session: the view and the table are tied together, and the edits are
pending. -/
structure Mirrors (data : TableData) (d : Desk) : Prop extends Matches data d where
  pending : ∀ edit ∈ d.session.edits.entries, d.IsPending edit.1 edit.2

theorem Desk.column_ok {name : String} {c : Column} (h : d.column name = .ok c) :
    c.name = name ∧ c ∈ d.session.data.columns := by
  unfold Desk.column at h
  split at h
  · next hfind =>
    cases h
    exact Column.name_of_find? hfind
  · cases h

/-- An edit stays pending when a change of another row is staged. -/
theorem Desk.IsPending.stages {cell : CellRef} {value : Value} (h : d.IsPending cell value)
    (hstages : Session.Stages d kind edits preimage c d')
    (helse : 0 ≤ cell.row → d.staged.target? c ≠ some cell.row.toNat) :
    d'.IsPending cell value := by
  obtain ⟨hvalue, column, hcolumn, hdiffer⟩ := h
  refine ⟨hvalue, column, ?_, ?_⟩
  · rw [← hcolumn, Desk.column, Desk.column, hstages.session]
  · intro content hopen
    obtain ⟨hrow, hget, hisOpen⟩ := Desk.openRow_ok.1 hopen
    obtain ⟨hrows, hdeleted⟩ := View.apply_elsewhere (helse hrow)
    rw [hstages.staged_eq, hrows] at hget
    rw [hstages.staged_eq, hdeleted] at hisOpen
    exact hdiffer content (Desk.openRow_ok.2 ⟨hrow, hget, hisOpen⟩)

namespace Mirrors

/-- The invariant is kept when the edits change, if each is an old one or pending. -/
theorem mapEdits (h : Mirrors data d) {f : Edits → Edits}
    (hf : ∀ edit ∈ (f d.session.edits).entries,
      edit ∈ d.session.edits.entries ∨ d.IsPending edit.1 edit.2) :
    Mirrors data (d.mapSession (·.mapEdits f)) where
  data_eq := h.data_eq
  shown := h.shown
  comparable := h.comparable
  agree := h.agree
  hits := h.hits
  pending edit hedit := by
    rcases hf edit hedit with hold | hnew
    · exact h.pending edit hold
    · exact hnew

/-- The invariant is kept when a change of a row is staged and its edits are forgotten. -/
theorem eraseRow (h : Mirrors data d) (hstages : Session.Stages d kind edits (some content) c d')
    (hmatches : Matches data d') (hopen : d.openRow row = .ok content)
    (htarget : d.staged.target? c = some row.toNat) :
    Mirrors data (d'.mapSession (·.mapEdits (·.eraseRow row))) where
  data_eq := hmatches.data_eq
  shown := hmatches.shown
  comparable := hmatches.comparable
  agree := hmatches.agree
  hits := hmatches.hits
  pending edit hedit := by
    obtain ⟨hmem, hother⟩ := List.mem_filter.1 hedit
    have hrow : edit.1.row ≠ row := by
      rw [Bool.not_eq_true', beq_eq_false_iff_ne] at hother
      exact hother
    rw [hstages.session] at hmem
    -- an edit of another row does not see the change
    have hpending : d'.IsPending edit.1 edit.2 := by
      apply (h.pending edit hmem).stages hstages
      intro hlow he
      rw [htarget, Option.some.injEq] at he
      have := (Desk.openRow_ok.1 hopen).1
      omega
    exact hpending

theorem editCell (h : Mirrors data d) {row : Int} {name : String} {value : Value}
    (hvalue : value.IsComparable) : Mirrors data (Session.editCell row name value d).2 := by
  rcases Session.editCell_cases row name value d with
    ⟨e, he⟩ | ⟨content, c, hopen, hcolumn, hcases⟩
  · rw [he]
    exact h
  · rcases hcases with ⟨-, he⟩ | ⟨hdiffer, he⟩
    · rw [he]
      exact h.mapEdits fun edit hedit => .inl (List.mem_filter.1 hedit).1
    · rw [he]
      apply h.mapEdits
      intro edit hedit
      rcases Assoc.mem_put hedit with hold | rfl
      · exact .inl hold
      · refine .inr ⟨hvalue, c, hcolumn, fun content' hopen' => ?_⟩
        rw [hopen] at hopen'
        cases hopen'
        exact hdiffer

theorem stageRow (h : Mirrors data d) (hkeys : Column.keys data.columns ≠ [])
    (hdiffer : KeysDiffer data.columns d.committed) (row : Int) :
    Mirrors data (Session.stageRow row d).2 := by
  rcases Session.stageRow_cases row d with ⟨e, he⟩ | he | ⟨content, c, d', hopen, hstages, he⟩
  · rw [he]
    exact h
  · rw [he]
    exact h
  · rw [he]
    obtain ⟨p⟩ := h.place hopen hdiffer
    have hcontent : content.IsShown data.columns := h.shown content (by rw [p.shown]; simp)
    have hpending : ∀ name v, (d.session.rowEdits row).get? name = some v →
        d.IsPending ⟨row, name⟩ v := fun name v hv =>
      h.pending _ (Session.mem_rowEdits.1 (Assoc.mem_of_get? hv))
    have hmatches : Matches data d' := by
      refine h.toMatches.update hkeys hdiffer hopen hstages (fun name v hv => (hpending name v hv).1)
        ?_ ?_
      · intro name v hv
        -- what is edited is a column of the table, and so of the row
        obtain ⟨-, column, hcolumn, -⟩ := hpending name v hv
        obtain ⟨hname, hmem⟩ := Desk.column_ok hcolumn
        rw [h.data_eq] at hmem
        have hcarries := hcontent.carries column hmem
        rwa [hname] at hcarries
      · intro name v w hv hw halike
        -- the column told the value apart when it was entered, as it stands in the view now
        obtain ⟨hvalue, column, -, htells⟩ := hpending name v hv
        have htells := htells content hopen
        rw [hw] at htells
        exact Column.same_of_alike hvalue (hcontent.comparable name w hw) htells halike
    exact h.eraseRow hstages hmatches hopen
      (p.target h.toMatches (by simp [hstages.kind_eq]) hstages.preimage_eq)

theorem deleteRow (h : Mirrors data d) (hkeys : Column.keys data.columns ≠ [])
    (hdiffer : KeysDiffer data.columns d.committed) (row : Int) :
    Mirrors data (Session.deleteRow row d).2 := by
  rcases Session.deleteRow_cases row d with ⟨e, he⟩ | ⟨content, c, d', hopen, hstages, he⟩
  · rw [he]
    exact h
  · rw [he]
    obtain ⟨p⟩ := h.place hopen hdiffer
    exact h.eraseRow hstages (h.toMatches.delete hkeys hdiffer hopen hstages) hopen
      (p.target h.toMatches (by simp [hstages.kind_eq]) hstages.preimage_eq)

theorem insertRow (h : Mirrors data d) {row : Row}
    (hrow : ∀ field ∈ row.fields, field.2.IsComparable) :
    Mirrors data (Session.insertRow row d).2 := by
  rcases Session.insertRow_cases row d with ⟨e, he⟩ | ⟨c, d', hstages, he⟩
  · rw [he]
    exact h
  · rw [he]
    have hmatches := h.toMatches.insert hstages (.of_fields hrow)
    refine ⟨hmatches, fun edit hedit => ?_⟩
    rw [hstages.session] at hedit
    apply (h.pending edit hedit).stages hstages
    intro _ htarget
    rw [View.target?, hstages.kind_eq] at htarget
    cases htarget

/-- Each call keeps the invariant, as long as no two rows of the table share their key. -/
theorem run (h : Mirrors data d) (hkeys : Column.keys data.columns ≠ [])
    (hdiffer : KeysDiffer data.columns d.committed) {call : Call}
    (hclean : call.IsClean data.columns) : Mirrors data (call.run d) := by
  cases call with
  | editCell row name value => exact h.editCell hclean
  | editText row name text =>
    rcases Session.editText_cases row name text d with ⟨e, he⟩ | ⟨c, value, hcolumn, hvalue, he⟩
    · rw [Call.run, he]
      exact h
    · rw [Call.run, he]
      have hfind : Column.find? name data.columns = some c := by
        rw [← h.data_eq]
        unfold Desk.column at hcolumn
        split at hcolumn
        · next hfind =>
          cases hcolumn
          exact hfind
        · cases hcolumn
      exact h.editCell ((Column.isReadable_of_entered hvalue).isProper.isComparable
        (hclean c value hfind hvalue))
  | stageRow row => exact h.stageRow hkeys hdiffer row
  | deleteRow row => exact h.deleteRow hkeys hdiffer row
  | insertRow row => exact h.insertRow hclean

end Mirrors

/-! ### Runs of calls -/

/-- Where nothing is staged or edited yet, the view and the table are the fetched rows. -/
theorem mirrors_start {table : Sql.TableName} {data : TableData} {loader : Option Loader}
    {staging : Staging} (hshown : ∀ r ∈ data.rows, r.IsShown data.columns)
    (hempty : staging.log.forTable table = []) :
    Mirrors data ⟨Session.start table data loader, staging⟩ := by
  have hchanges : Desk.changes ⟨Session.start table data loader, staging⟩ = [] := hempty
  have hstaged : Desk.staged ⟨Session.start table data loader, staging⟩ = .ofRows data.rows := by
    rw [Desk.staged, hchanges]
    rfl
  have hcommitted : Desk.committed ⟨Session.start table data loader, staging⟩ = data.rows := by
    rw [Desk.committed, hchanges]
    rfl
  refine ⟨⟨rfl, ?_, ?_, ?_, ?_⟩, ?_⟩
  · rw [hstaged]
    exact hshown
  · rw [hcommitted]
    intro r hr
    exact (hshown r hr).comparable
  -- each fetched row agrees with itself, and nothing is inserted
  · rw [hcommitted, hstaged, kept_ofRows, Desk.inserted, hchanges]
    simpa using List.forall₂_same.2 fun r hr => Row.agrees_refl (hshown r hr).comparable
  · intro before c after hsplit
    rw [hchanges] at hsplit
    simp at hsplit
  · intro edit hedit
    cases hedit

/-- The invariant holds after every run of calls during which no two rows of the table come to share
their key. -/
theorem Mirrors.runAll {data : TableData} {d : Desk} (h : Mirrors data d) {calls : List Call}
    (hkeys : Column.keys data.columns ≠ []) (hclean : ∀ call ∈ calls, call.IsClean data.columns)
    (hunique : ∀ pre, pre <+: (Call.runAll d calls).changes.map (·.statement) →
      KeysDiffer data.columns (Sql.Statement.execAll pre data.rows)) :
    Mirrors data (Call.runAll d calls) := by
  induction calls using List.reverseRecOn with
  | nil => exact h
  | append_singleton calls call ih =>
    have hrun : Call.runAll d (calls ++ [call]) = call.run (Call.runAll d calls) := by
      rw [Call.runAll, List.foldl_append]
      rfl
    rw [hrun] at hunique ⊢
    have hchanges := (Call.extends_run (Call.runAll d calls) call).changes.map (·.statement)
    rw [List.forall_mem_append] at hclean
    have hmirrors := ih hclean.1 fun pre hpre => hunique pre (hpre.trans hchanges)
    refine hmirrors.run hkeys ?_ (hclean.2 call (.head _))
    rw [Desk.committed, hmirrors.data_eq]
    exact hunique _ hchanges

/-- The view is what the commit produces. After any calls of a session on a table with a primary
key, the statements of the staged changes turn the fetched rows into those of the view that are not
pending delete and the inserted ones, and each update and deletion hits one row; provided that no
statement gives two rows the same key. -/
theorem view_is_committed (table : Sql.TableName) (data : TableData) (loader : Option Loader)
    (staging : Staging) (calls : List Call) (hkeys : Column.keys data.columns ≠ [])
    (hshown : ∀ r ∈ data.rows, r.IsShown data.columns)
    (hempty : staging.log.forTable table = [])
    (hclean : ∀ call ∈ calls, call.IsClean data.columns)
    (hunique : ∀ pre,
      pre <+: (Call.runAll ⟨Session.start table data loader, staging⟩ calls).changes.map
        (·.statement) → KeysDiffer data.columns (Sql.Statement.execAll pre data.rows)) :
    let d := Call.runAll ⟨Session.start table data loader, staging⟩ calls
    (∀ before c after, d.changes = before ++ c :: after → c.kind ≠ .insert →
      ((Sql.Statement.execAll (before.map (·.statement)) data.rows).filter
        c.statement.meets).length = 1)
    ∧ List.Forall₂ Row.Agrees
      (Sql.Statement.execAll (d.changes.map (·.statement)) data.rows)
      ((View.reconcile data.rows d.changes .empty).kept ++ d.inserted) := by
  intro d
  have hmirrors : Mirrors data d := (mirrors_start hshown hempty).runAll hkeys hclean hunique
  have hagree := hmirrors.agree
  rw [Desk.committed, Desk.staged, hmirrors.data_eq] at hagree
  exact ⟨hmirrors.hits, hagree⟩

/-- A table of two people. -/
def people : TableData :=
  ⟨[.bare "id" "integer" false true, .bare "name" "text" true false],
    [.ofList [("id", .int 1), ("name", .text "Ann")], .ofList [("id", .int 2), ("name", .null)]]⟩

/-- One of the people is renamed, the other is given another key and then deleted, and the old key
is used again. -/
def peopleCalls : List Call :=
  [.editCell 0 "name" (.text "Bob"), .editCell 1 "id" (.int 3), .stageRow 0, .stageRow 1,
    .deleteRow 1, .insertRow (.ofList [("id", .int 2)])]

theorem view_is_committed_people :
    let d := Call.runAll ⟨Session.start ⟨"public", "people"⟩ people none, .empty⟩ peopleCalls
    d.changes.map (·.kind) = [.update, .update, .delete, .insert]
    ∧ (∀ before c after, d.changes = before ++ c :: after → c.kind ≠ .insert →
      ((Sql.Statement.execAll (before.map (·.statement)) people.rows).filter
        c.statement.meets).length = 1)
    ∧ List.Forall₂ Row.Agrees
      (Sql.Statement.execAll (d.changes.map (·.statement)) people.rows)
      ((View.reconcile people.rows d.changes .empty).kept ++ d.inserted) := by
  have hshown : ∀ r ∈ people.rows, r.IsShown people.columns := by
    refine List.forall_mem_cons.2 ⟨⟨by decide, .of_fields ?_⟩,
      List.forall_mem_singleton.2 ⟨by decide, .of_fields ?_⟩⟩
    · exact List.forall_mem_cons.2 ⟨.int 1 trivial, List.forall_mem_singleton.2 (.text "Ann")⟩
    · exact List.forall_mem_cons.2 ⟨.int 2 trivial, List.forall_mem_singleton.2 .null⟩
  have hclean : ∀ call ∈ peopleCalls, call.IsClean people.columns := by
    simp only [peopleCalls, List.forall_mem_cons]
    refine ⟨.text "Bob", .int 3 trivial, trivial, trivial, trivial, ?_, List.forall_mem_nil _⟩
    exact List.forall_mem_singleton.2 (.int 2 trivial)
  have hunique : ∀ pre ∈ ((Call.runAll ⟨Session.start ⟨"public", "people"⟩ people none, .empty⟩
      peopleCalls).changes.map (·.statement)).inits,
      KeysDiffer people.columns (Sql.Statement.execAll pre people.rows) := by
    decide +kernel
  exact ⟨by decide +kernel, view_is_committed ⟨"public", "people"⟩ people none .empty peopleCalls
    (by decide) hshown rfl hclean fun pre hpre => hunique pre (List.mem_inits _ _ |>.2 hpre)⟩

end StagedTable
