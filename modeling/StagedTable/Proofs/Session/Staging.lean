import StagedTable.Proofs.Session.Operations
import StagedTable.Proofs.Session.Selection

/-!
# Staging and the view

A session knows a row by its number, but a staged change keeps only the content that the row had.
So the change has to be found again: as long as no two rows that are left share their key, it is
matched to the very row that it was staged for (`Session.Stages.target?`). Staging the edits of a row
then changes nothing that is shown, and staging its deletion marks that row and no other; the mark
stays until the staged changes are taken away or the rows are fetched anew
(`staging_keeps_view`).
-/

namespace StagedTable

/-- Whether two views show the same: rows with the same values under the same names, and the same
cells and rows marked. -/
structure View.Same (v v' : View) : Prop where
  rows : List.Forall₂ (fun r r' => ∀ name, r.get? name = r'.get? name) v.rows v'.rows
  edited : ∀ cell, cell ∈ v.edited ↔ cell ∈ v'.edited
  deleted : v.deleted = v'.deleted

variable {d d' : Desk} {i : Int} {content data : Row} {kind : ChangeKind} {c : Change}

/-! ### The row of a change -/

/-- A change names its row by the primary key, which the row must have. -/
theorem Session.Stages.carries (h : Stages d kind data (some content) c d')
    (hkind : kind ≠ .insert) :
    ∀ key ∈ Column.keys d.session.data.columns, (content.get? key.name).isSome := by
  obtain ⟨bs, hcondition, -⟩ := Sql.Statement.condition_ofChange hkind h.statement
  exact Sql.Statement.carries_of_condition hcondition

/-- A change that is staged for a row is matched to that row, if no two rows that are left share
their key. -/
theorem Session.Stages.target? (h : Stages d kind data (some content) c d')
    (hkind : kind ≠ .insert) (hopen : d.openRow i = .ok content)
    (hdiffer : KeysDiffer d.session.data.columns d.staged.kept)
    (hcomparable : ∀ r ∈ d.staged.kept, r.IsComparable) :
    d.staged.target? c = some i.toNat := by
  obtain ⟨-, hget, hisOpen⟩ := Desk.openRow_ok.1 hopen
  obtain ⟨before, after, hrows, hlength⟩ := exists_split hget
  rw [← hlength] at hisOpen ⊢
  have hkept := View.kept_split hrows hisOpen
  rw [hkept] at hdiffer hcomparable
  apply View.target?_eq hrows hisOpen (hcomparable content (by simp))
  · intro t ht
    -- a row before it that held its values would have its key
    rw [← Bool.not_eq_true]
    intro hholds
    have hother := (List.pairwise_append.1 hdiffer).2.2 t ht content (.head _)
    exact hother (Row.sameKey_of_holds (h.carries hkind) hholds)
  · rw [h.kind_eq]
    exact hkind
  · exact h.preimage_eq

/-! ### Staging the edits of a row -/

theorem forall₂_of_getElem? {α β : Type} {R : α → β → Prop} {xs : List α} {ys : List β}
    (h : ∀ j : Nat, Option.Rel R xs[j]? ys[j]?) : List.Forall₂ R xs ys := by
  induction xs generalizing ys with
  | nil =>
    cases ys with
    | nil => exact .nil
    | cons y ys => cases h 0
  | cons x xs ih =>
    cases ys with
    | nil => cases h 0
    | cons y ys =>
      cases h 0 with
      | some hxy => exact .cons hxy (ih fun j => h (j + 1))

/-- It makes no difference to what is shown whether the edits of a row lie over it as edits or as a
change of the row. -/
theorem View.same_overlay {v : View} {e : Edits} (hlow : 0 ≤ i) (hlt : i.toNat < v.rows.length)
    (hdata : ∀ name, data.get? name = e.get? ⟨i, name⟩) :
    (v.withEdits e).Same ((v.overlay i.toNat data).withEdits (e.eraseRow i)) := by
  have hplace : (i.toNat : Int) = i := Int.toNat_of_nonneg hlow
  constructor
  case rows =>
    apply forall₂_of_getElem?
    intro j
    rw [getElem?_withEdits, getElem?_withEdits, getElem?_overlay]
    cases v.rows[j]? with
    | none => exact .none
    | some r =>
      refine .some fun name => ?_
      dsimp only
      by_cases hj : j = i.toNat
      · rw [if_pos hj.symm, hj, hplace, Row.putEdits_erased, Row.get?_putEdits e.nodup,
          Row.get?_overlay, hdata]
        rfl
      · rw [if_neg fun h => hj h.symm, Row.putEdits_eraseRow (by omega)]
  case edited =>
    rintro ⟨j, name⟩
    have hlength : (v.overlay i.toNat data).rows.length = v.rows.length := List.length_modify ..
    rw [mem_edited_withEdits, mem_edited_withEdits, mem_edited_overlay, hlength, Edits.eraseRow,
      Edits.get?_forget, or_assoc]
    refine or_congr_right ?_
    dsimp only
    by_cases hj : j = i.toNat
    · simp [hj, hplace, hlt, hdata]
    · have hother : (j : Int) ≠ i := by omega
      simp [hj, hother]
  case deleted => rw [deleted_withEdits, deleted_withEdits]; rfl

/-- Staging the edits of a row takes them from one layer to the other. -/
theorem same_view_of_update (h : Session.Stages d .update (d.session.rowEdits i) (some content) c d')
    (hopen : d.openRow i = .ok content) (htarget : d.staged.target? c = some i.toNat) :
    d.view.Same (d'.mapSession (·.mapEdits (·.eraseRow i))).view := by
  obtain ⟨hlow, hget, -⟩ := Desk.openRow_ok.1 hopen
  have hlt : i.toNat < d.staged.rows.length := (List.getElem?_eq_some_iff.1 hget).1
  have hview : (d'.mapSession (·.mapEdits (·.eraseRow i))).view
      = d'.staged.withEdits (d.session.edits.eraseRow i) := by
    rw [← h.session]
    rfl
  rw [hview, h.staged_eq, View.apply_eq_overlay h.kind_eq htarget, h.data_eq]
  exact View.same_overlay hlow hlt (Session.get?_rowEdits d.session i)

/-! ### Staging the deletion of a row -/

/-- What comes of staging the deletion of a row: the row is marked and shown as it was staged, and
the other rows are as they were. -/
structure Marks (d : Desk) (i : Int) (d' : Desk) : Prop where
  unmarked : i.toNat ∉ d.view.deleted
  deleted : d'.view.deleted = d.view.deleted ++ [i.toNat]
  here : d'.view.rows[i.toNat]? = d.staged.rows[i.toNat]?
  elsewhere : ∀ j, j ≠ i.toNat → d'.view.rows[j]? = d.view.rows[j]?

theorem marks_of_delete (h : Session.Stages d .delete content (some content) c d')
    (hopen : d.openRow i = .ok content) (htarget : d.staged.target? c = some i.toNat) :
    Marks d i (d'.mapSession (·.mapEdits (·.eraseRow i))) := by
  obtain ⟨hlow, -, hisOpen⟩ := Desk.openRow_ok.1 hopen
  have hplace : (i.toNat : Int) = i := Int.toNat_of_nonneg hlow
  have hview : (d'.mapSession (·.mapEdits (·.eraseRow i))).view
      = ({ d.staged with deleted := d.staged.deleted ++ [i.toNat] } : View).withEdits
        (d.session.edits.eraseRow i) := by
    rw [← View.apply_eq_delete h.kind_eq htarget, ← h.staged_eq, ← h.session]
    rfl
  have hold : d.view = d.staged.withEdits d.session.edits := rfl
  constructor
  case unmarked =>
    rw [hold, View.deleted_withEdits]
    simpa [View.isDeleted] using hisOpen
  case deleted => rw [hview, hold, View.deleted_withEdits, View.deleted_withEdits]
  case here =>
    rw [hview, View.getElem?_withEdits, hplace]
    simp only [Row.putEdits_erased, Option.map_id']
  case elsewhere =>
    intro j hj
    have hother : (j : Int) ≠ i := by omega
    rw [hview, hold, View.getElem?_withEdits, View.getElem?_withEdits]
    simp only [Row.putEdits_eraseRow hother]

/-! ### Marks stay -/

namespace View

variable {v : View} {j : Nat}

theorem isDeleted_apply (h : v.isDeleted j = true) (c : Change) :
    (v.apply c).isDeleted j = true := by
  unfold apply
  split
  · exact h
  · show (v.deleted ++ [_]).contains j = true
    unfold isDeleted at h
    simp_all
  · exact h

theorem isDeleted_applyAll (h : v.isDeleted j = true) (changes : List Change) :
    (changes.foldl apply v).isDeleted j = true := by
  induction changes generalizing v with
  | nil => exact h
  | cons c rest ih => exact ih (isDeleted_apply h c)

theorem length_apply (v : View) (c : Change) : (v.apply c).rows.length = v.rows.length := by
  unfold apply
  split
  · exact List.length_modify ..
  · rfl
  · rfl

theorem length_applyAll (v : View) (changes : List Change) :
    (changes.foldl apply v).rows.length = v.rows.length := by
  induction changes generalizing v with
  | nil => rfl
  | cons c rest ih => exact (ih _).trans (length_apply v c)

end View

theorem Desk.length_staged (d : Desk) : d.staged.rows.length = d.session.data.rows.length :=
  View.length_applyAll _ d.changes

/-- A row that is pending delete is so for as long as changes are only added. -/
theorem Desk.Extends.isDeleted (h : d.Extends d') {j : Nat} (hdeleted : d.staged.isDeleted j = true) :
    d'.staged.isDeleted j = true := by
  obtain ⟨added, hadded⟩ := h.changes
  have hstaged : d'.staged = added.foldl View.apply d.staged := by
    show d'.changes.foldl View.apply (.ofRows d'.session.data.rows) = _
    rw [h.data, ← hadded, List.foldl_append]
    rfl
  rw [hstaged]
  exact View.isDeleted_applyAll hdeleted added

theorem Desk.openRow_of_isDeleted (hlow : 0 ≤ i) (hlt : i.toNat < d.staged.rows.length)
    (hdeleted : d.staged.isDeleted i.toNat = true) :
    d.openRow i = .error (.pendingDelete i) := by
  rw [openRow, if_pos hlow, List.getElem?_eq_getElem hlt]
  exact if_pos hdeleted

/-- A row stays marked after its deletion was staged. -/
theorem openRow_of_delete {d'' : Desk} (h : Session.Stages d .delete content (some content) c d')
    (hopen : d.openRow i = .ok content) (htarget : d.staged.target? c = some i.toNat)
    (hextends : d'.Extends d'') : d''.openRow i = .error (.pendingDelete i) := by
  obtain ⟨hlow, hget, -⟩ := Desk.openRow_ok.1 hopen
  have hlt : i.toNat < d''.staged.rows.length := by
    rw [d''.length_staged, hextends.data, h.session, ← d.length_staged]
    exact (List.getElem?_eq_some_iff.1 hget).1
  have hdeleted : d'.staged.isDeleted i.toNat = true := by
    rw [h.staged_eq, View.apply_eq_delete h.kind_eq htarget]
    simp [View.isDeleted]
  exact Desk.openRow_of_isDeleted hlow hlt (hextends.isDeleted hdeleted)

/-- A row that cannot be changed any more is refused by all calls that would change it. -/
theorem Session.refused_of_openRow {e : SessionError} (h : d.openRow i = .error e) :
    (∀ name value, editCell i name value d = (.error e, d))
      ∧ stageRow i d = (.error e, d) ∧ deleteRow i d = (.error e, d) := by
  have hlook : (Attempt.look (·.openRow i) : Act Row) d = (.error e, d) := by
    rw [Attempt.look_apply, h]
  exact ⟨fun _ _ => Attempt.bind_of_error hlook, Attempt.bind_of_error hlook,
    Attempt.bind_of_error hlook⟩

/-! ### Both together -/

/-- Staging the edits of a row leaves the view as it is, and staging a deletion marks the row that
was asked for and no other. Neither touches the edits of other rows. A marked row can be changed no
more, until the staged changes are taken away or the rows are fetched anew. -/
theorem staging_keeps_view (d : Desk) (i : Int)
    (hdiffer : KeysDiffer d.session.data.columns d.staged.kept)
    (hcomparable : ∀ r ∈ d.staged.kept, r.IsComparable) :
    (∀ c d', Session.stageRow i d = (.ok (some c), d') →
      d.view.Same d'.view
      ∧ ∀ cell, cell.row ≠ i → d'.session.edits.get? cell = d.session.edits.get? cell)
    ∧ ∀ c d', Session.deleteRow i d = (.ok c, d') →
      Marks d i d'
      ∧ (∀ cell, cell.row ≠ i → d'.session.edits.get? cell = d.session.edits.get? cell)
      ∧ ∀ ops, Operation.NoneRenews d' ops →
        (∀ name value, Session.editCell i name value (Operation.runAll d' ops)
          = (.error (.pendingDelete i), Operation.runAll d' ops))
        ∧ Session.stageRow i (Operation.runAll d' ops)
          = (.error (.pendingDelete i), Operation.runAll d' ops)
        ∧ Session.deleteRow i (Operation.runAll d' ops)
          = (.error (.pendingDelete i), Operation.runAll d' ops) := by
  have hothers : ∀ (e : Edits) (cell : CellRef), cell.row ≠ i →
      (e.eraseRow i).get? cell = e.get? cell := by
    intro e cell hcell
    rw [Edits.eraseRow, Edits.get?_forget, if_neg (by simpa using hcell)]
  refine ⟨?_, ?_⟩
  · intro c d' hstage
    rcases Session.stageRow_cases i d with
      ⟨e, he⟩ | he | ⟨content, c, d₁, hopen, hstages, he⟩ <;> rw [he] at hstage <;> cases hstage
    have htarget := hstages.target? (by decide) hopen hdiffer hcomparable
    refine ⟨same_view_of_update hstages hopen htarget, ?_⟩
    intro cell hcell
    rw [← hstages.session]
    exact hothers _ cell hcell
  · intro c d' hdelete
    rcases Session.deleteRow_cases i d with
      ⟨e, he⟩ | ⟨content, c, d₁, hopen, hstages, he⟩ <;> rw [he] at hdelete <;> cases hdelete
    have htarget := hstages.target? (by decide) hopen hdiffer hcomparable
    have hmarks := marks_of_delete hstages hopen htarget
    refine ⟨hmarks, ?_, ?_⟩
    · intro cell hcell
      rw [← hstages.session]
      exact hothers _ cell hcell
    · intro ops hops
      exact Session.refused_of_openRow (openRow_of_delete hstages hopen htarget
        ((Desk.Extends.refl d₁).mapEdits _ |>.trans (Operation.extends_runAll hops)))

theorem staging_keeps_view_articles :
    KeysDiffer articlesDesk.session.data.columns articlesDesk.staged.kept
    ∧ (∀ r ∈ articlesDesk.staged.kept, r.IsComparable)
    ∧ (∃ c d', Session.stageRow 0 articlesDesk = (.ok (some c), d') ∧ articlesDesk.view.Same d'.view)
    ∧ ∃ c d', Session.deleteRow 1 articlesDesk = (.ok c, d') ∧ Marks articlesDesk 1 d' := by
  have hdiffer : KeysDiffer articlesDesk.session.data.columns articlesDesk.staged.kept := by
    decide +kernel
  have hsimple : (articlesDesk.staged.kept.all fun r => r.fields.all fun field =>
      match field.2 with
      | .null | .int _ => true
      | _ => false) = true := by decide +kernel
  have hcomparable : ∀ r ∈ articlesDesk.staged.kept, r.IsComparable := by
    intro r hr
    apply Row.IsComparable.of_fields
    intro field hfield
    have h := List.all_eq_true.1 (List.all_eq_true.1 hsimple r hr) field hfield
    cases hv : field.2 with
    | null => exact .null
    | int n => exact .int n trivial
    | _ => simp [hv] at h
  have hstage := (staging_keeps_view articlesDesk 0 hdiffer hcomparable).1
  have hdelete := (staging_keeps_view articlesDesk 1 hdiffer hcomparable).2
  have hstaged : (Session.stageRow 0 articlesDesk).1.toOption.join.isSome = true := by decide +kernel
  have hdeleted : (Session.deleteRow 1 articlesDesk).1.isOk = true := by decide +kernel
  refine ⟨hdiffer, hcomparable, ?_, ?_⟩
  · rcases Session.stageRow_cases 0 articlesDesk with ⟨e, he⟩ | he | ⟨_, c, d', -, -, he⟩
    · rw [he] at hstaged
      cases hstaged
    · rw [he] at hstaged
      cases hstaged
    · exact ⟨c, _, he, (hstage _ _ he).1⟩
  · rcases Session.deleteRow_cases 1 articlesDesk with ⟨e, he⟩ | ⟨_, c, d', -, -, he⟩
    · rw [he] at hdeleted
      cases hdeleted
    · exact ⟨c, _, he, (hdelete _ _ he).1⟩

end StagedTable
