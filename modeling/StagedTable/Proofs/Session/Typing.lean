import StagedTable.Proofs.Session.PendingEdits
import StagedTable.Proofs.StableSort

/-!
# The order of typing

Cells may be typed into in any order, and more than once. The edits are kept in the order in which
the cells were first edited, and an edit back to the staged value is forgotten, so two runs that end
with the same values may keep them in different orders. Whether a value is an edit depends only on
the staged rows and the columns, which typing leaves as they are. So each cell has the edit that the
value typed last makes of it, whatever was typed before (`Desk.get?_enterAll`).

What is staged for a row is sorted by the columns, and sorting leaves only the order of the cells
under each number (`sorted_eq_of_filter_eq`). Under the number of a column there is one cell of a
row, and nothing can be typed where there is no column, so that sorting leaves no difference
(`Edits.Equiv.rowEdits`). The upshot for whole runs is `typing_order_irrelevant`.
-/

namespace StagedTable

/-! ### Cells and columns -/

namespace CellRef

/-- Whether a cell is of a row and of the column at a place. -/
def isAt (columns : List Column) (row : Int) (n : Nat) (cell : CellRef) : Bool :=
  decide (cell.row = row) && decide (Column.position columns cell.column = n)

/-- Whether a cell is of no column. -/
def isOutside (columns : List Column) (cell : CellRef) : Bool :=
  decide (columns.length ≤ Column.position columns cell.column)

variable {columns : List Column} {row : Int} {n : Nat} {cell : CellRef}

/-- A row has one cell in a column. -/
theorem beq_of_isAt (hn : n < columns.length) (h : cell.isAt columns row n = true) :
    (cell == ⟨row, columns[n].name⟩) = true := by
  rw [isAt, Bool.and_eq_true, decide_eq_true_eq, decide_eq_true_eq] at h
  obtain ⟨hrow, rfl⟩ := h
  rw [Column.name_position hn, ← hrow, beq_self_eq_true]

theorem isOutside_of_isAt (hn : columns.length ≤ n) (h : cell.isAt columns row n = true) :
    cell.isOutside columns = true := by
  rw [isAt, Bool.and_eq_true, decide_eq_true_eq, decide_eq_true_eq] at h
  rw [isOutside, h.2]
  exact decide_eq_true hn

theorem isOutside_eq_false (h : ∃ c ∈ columns, c.name = cell.column) :
    cell.isOutside columns = false := by
  obtain ⟨c, hc, hname⟩ := h
  have hlt := Column.position_lt hc
  rw [hname] at hlt
  exact decide_eq_false (Nat.not_le.2 hlt)

end CellRef

/-! ### Typing -/

/-- The value that was typed last into a cell, if any was. -/
def lastTyped? (typed : List (CellRef × Value)) (cell : CellRef) : Option Value :=
  Assoc.get? cell typed.reverse

theorem isSome_lastTyped?_iff {typed : List (CellRef × Value)} {cell : CellRef} :
    (lastTyped? typed cell).isSome ↔ cell ∈ Assoc.keys typed := by
  rw [lastTyped?, Assoc.isSome_get?_iff, Assoc.keys, Assoc.keys, List.map_reverse,
    List.mem_reverse]

theorem lastTyped?_eq_none {typed : List (CellRef × Value)} {cell : CellRef}
    (h : cell ∉ Assoc.keys typed) : lastTyped? typed cell = none := by
  rwa [← isSome_lastTyped?_iff, Option.not_isSome_iff_eq_none] at h

/-- Types values into cells, one after the other. -/
def Session.typeAll : List (CellRef × Value) → Act Unit
  | [] => return
  | (cell, value) :: rest => do
    editCell cell.row cell.column value
    typeAll rest

namespace Desk

/-- Whether a value is the one that is staged for a cell, so that it makes no edit. -/
def isStaged (d : Desk) (cell : CellRef) (value : Value) : Bool :=
  match d.openRow cell.row, d.column cell.column with
  | .ok content, .ok c => c.alike value ((content.get? cell.column).getD .null)
  | _, _ => false

/-- The edits after a value was typed into a cell. -/
def enter (d : Desk) (e : Edits) (entry : CellRef × Value) : Edits :=
  if d.isStaged entry.1 entry.2 then e.erase entry.1 else e.put entry.1 entry.2

variable {d : Desk} {e : Edits} {cell : CellRef} {typed : List (CellRef × Value)}

theorem get?_enter (entry : CellRef × Value) :
    (d.enter e entry).get? cell
      = if entry.1 = cell then (if d.isStaged cell entry.2 then none else some entry.2)
        else e.get? cell := by
  unfold enter
  by_cases hcell : entry.1 = cell
  · rw [if_pos hcell, hcell]
    split
    · rw [Edits.erase, Edits.get?_forget, if_pos (by simp)]
    · rw [Edits.get?_put, if_pos rfl]
  · have hother : ¬ cell = entry.1 := fun h => hcell h.symm
    rw [if_neg hcell]
    split
    · rw [Edits.erase, Edits.get?_forget, if_neg (by simpa using hother)]
    · rw [Edits.get?_put, if_neg hother]

/-- A cell that was typed into has the edit that the last value makes. -/
theorem get?_enterAll :
    (typed.foldl d.enter e).get? cell
      = match lastTyped? typed cell with
        | some value => if d.isStaged cell value then none else some value
        | none => e.get? cell := by
  induction typed using List.reverseRecOn with
  | nil => rfl
  | append_singleton before entry ih =>
    rw [List.foldl_append, List.foldl_cons, List.foldl_nil, get?_enter, ih, lastTyped?, lastTyped?,
      List.reverse_append, List.reverse_singleton, List.singleton_append, Assoc.get?]
    split <;> rfl

/-- A cell that was not typed into keeps its edit. -/
theorem get?_enterAll_of_notMem (h : cell ∉ Assoc.keys typed) :
    (typed.foldl d.enter e).get? cell = e.get? cell := by
  rw [get?_enterAll, lastTyped?_eq_none h]

end Desk

theorem Session.editCell_ok {d d' : Desk} {cell : CellRef} {value : Value}
    (h : editCell cell.row cell.column value d = (.ok (), d')) :
    cell.isOutside d.session.data.columns = false
      ∧ d' = d.mapSession (·.mapEdits (d.enter · (cell, value))) := by
  rcases editCell_cases cell.row cell.column value d with
    ⟨e, he⟩ | ⟨content, c, hopen, hcolumn, hedit⟩
  · rw [he] at h
    cases h
  · refine ⟨CellRef.isOutside_eq_false (Desk.takes_of_open hopen hcolumn).column, ?_⟩
    have hstaged : d.isStaged cell value
        = c.alike value ((content.get? cell.column).getD .null) := by
      rw [Desk.isStaged, hopen, hcolumn]
    rcases hedit with ⟨halike, hok⟩ | ⟨halike, hok⟩
    · rw [hok] at h
      cases h
      simp only [Desk.enter, hstaged, halike, if_true]
    · rw [hok] at h
      cases h
      simp only [Desk.enter, hstaged, halike, Bool.false_eq_true, if_false]

/-- What typing leaves: the edits that the values make, of columns of the table. -/
theorem Session.typeAll_ok {d d' : Desk} {typed : List (CellRef × Value)}
    (h : typeAll typed d = (.ok (), d')) :
    (∀ cell ∈ Assoc.keys typed, cell.isOutside d.session.data.columns = false)
      ∧ d' = d.mapSession (·.mapEdits (typed.foldl d.enter ·)) := by
  induction typed generalizing d with
  | nil =>
    cases h
    exact ⟨nofun, rfl⟩
  | cons entry rest ih =>
    obtain ⟨cell, value⟩ := entry
    unfold typeAll at h
    cases hedit : editCell cell.row cell.column value d with
    | mk result d₀ =>
      cases result with
      | error e =>
        rw [Attempt.bind_of_error hedit] at h
        cases h
      | ok _ =>
        rw [Attempt.bind_of_ok hedit] at h
        obtain ⟨hcolumn, rfl⟩ := editCell_ok hedit
        obtain ⟨hcolumns, hd'⟩ := ih h
        exact ⟨List.forall_mem_cons.2 ⟨hcolumn, hcolumns⟩, hd'⟩

/-! ### Edits in another order -/

namespace Edits

/-- Whether two collections of edits are the same but for the order in which the columns of a table
were edited. -/
structure Equiv (columns : List Column) (e e' : Edits) : Prop where
  get? : ∀ cell, e.get? cell = e'.get? cell
  outside : Assoc.keep (·.isOutside columns) e.entries = Assoc.keep (·.isOutside columns) e'.entries

variable {columns : List Column} {e e' : Edits}

/-- The edits of a row in some columns. -/
theorem filter_ofRow (e : Edits) (row : Int) (kept : String → Bool) :
    (e.ofRow row).filter (kept ·.1)
      = (Assoc.keep (fun cell => decide (cell.row = row) && kept cell.column) e.entries).map
        fun edit => (edit.1.column, edit.2) := by
  unfold ofRow Assoc.keep
  induction e.entries with
  | nil => rfl
  | cons edit rest ih =>
    obtain ⟨cell, value⟩ := edit
    by_cases hrow : cell.row = row <;> by_cases hkept : kept cell.column = true <;>
      simp_all

/-- At each place of the columns the edits of a row are the same. -/
theorem Equiv.keep_isAt (h : e.Equiv columns e') (row : Int) (n : Nat) :
    Assoc.keep (·.isAt columns row n) e.entries = Assoc.keep (·.isAt columns row n) e'.entries := by
  by_cases hn : n < columns.length
  · have hone : ∀ cell : CellRef, cell.isAt columns row n = true →
        (cell == ⟨row, columns[n].name⟩) = true := fun _ => CellRef.beq_of_isAt hn
    have hget := h.get? ⟨row, columns[n].name⟩
    unfold Edits.get? at hget
    rw [← Assoc.keep_keep e.entries hone, ← Assoc.keep_keep e'.entries hone,
      Assoc.keep_beq e.nodup, Assoc.keep_beq e'.nodup, hget]
  · have houtside : ∀ cell : CellRef, cell.isAt columns row n = true →
        cell.isOutside columns = true := fun _ => CellRef.isOutside_of_isAt (Nat.not_lt.1 hn)
    rw [← Assoc.keep_keep e.entries houtside, h.outside, Assoc.keep_keep e'.entries houtside]

/-- The order in which the columns were edited does not matter to what is staged for a row. -/
theorem Equiv.rowEdits {s : Session} (h : e.Equiv s.data.columns e') (row : Int) :
    (s.mapEdits fun _ => e).rowEdits row = (s.mapEdits fun _ => e').rowEdits row := by
  have hplaces : ∀ n,
      (e.ofRow row).filter (fun edit => Column.position s.data.columns edit.1 = n)
        = (e'.ofRow row).filter (fun edit => Column.position s.data.columns edit.1 = n) := by
    intro n
    have hplace := h.keep_isAt row n
    unfold CellRef.isAt at hplace
    rw [filter_ofRow e row fun name => Column.position s.data.columns name = n, hplace,
      filter_ofRow e' row fun name => Column.position s.data.columns name = n]
  exact congrArg Row.ofList (sorted_eq_of_filter_eq _ hplaces)

/-- Nothing is typed where there is no column. -/
theorem outside_enterAll {d : Desk} {typed : List (CellRef × Value)}
    (h : ∀ cell ∈ Assoc.keys typed, cell.isOutside columns = false) (e : Edits) :
    Assoc.keep (·.isOutside columns) (typed.foldl d.enter e).entries
      = Assoc.keep (·.isOutside columns) e.entries := by
  induction typed generalizing e with
  | nil => rfl
  | cons entry rest ih =>
    rw [Assoc.keys, List.map_cons, List.forall_mem_cons] at h
    rw [List.foldl_cons, ih h.2, Desk.enter]
    split
    · have hkept : ∀ cell : CellRef, cell.isOutside columns = true →
          (!(cell == entry.1)) = true := by
        intro cell hcell
        rw [Bool.not_eq_true', beq_eq_false_iff_ne]
        rintro rfl
        rw [h.1] at hcell
        cases hcell
      exact Assoc.keep_keep e.entries hkept
    · exact Assoc.keep_put h.1

/-- Typing into columns makes the same edits in another order, if the same value is typed last into
each cell. -/
theorem equiv_enterAll (d : Desk) {typed typed' : List (CellRef × Value)}
    (h : ∀ cell ∈ Assoc.keys typed, cell.isOutside columns = false)
    (h' : ∀ cell ∈ Assoc.keys typed', cell.isOutside columns = false)
    (hlast : ∀ cell, lastTyped? typed cell = lastTyped? typed' cell) (e : Edits) :
    (typed.foldl d.enter e).Equiv columns (typed'.foldl d.enter e) where
  get? cell := by rw [Desk.get?_enterAll, Desk.get?_enterAll, hlast]
  outside := by rw [outside_enterAll h, outside_enterAll h']

end Edits

/-! ### What is shown and staged -/

/-- Whether two views show the same but in some cells. -/
structure View.SameBut (touched : CellRef → Prop) (v v' : View) : Prop where
  rows : ∀ j : Nat, Option.Rel
    (fun r r' => ∀ name, ¬ touched ⟨j, name⟩ → r.get? name = r'.get? name) v.rows[j]? v'.rows[j]?
  edited : ∀ c : Nat × String, ¬ touched ⟨c.1, c.2⟩ → (c ∈ v.edited ↔ c ∈ v'.edited)
  deleted : v.deleted = v'.deleted

theorem View.SameBut.same {v v' : View} (h : v.SameBut (fun _ => False) v') : v.Same v' where
  rows := forall₂_of_getElem? fun j => by
    have hrow := h.rows j
    generalize v.rows[j]? = r, v'.rows[j]? = r' at hrow ⊢
    cases hrow with
    | none => exact .none
    | some hcells => exact .some fun name => hcells name not_false
  edited c := h.edited c not_false
  deleted := h.deleted

/-- Edits that differ in some cells make views that differ in these cells at most. -/
theorem View.sameBut_withEdits {touched : CellRef → Prop} (v : View) {e e' : Edits}
    (h : ∀ cell, ¬ touched cell → e.get? cell = e'.get? cell) :
    (v.withEdits e).SameBut touched (v.withEdits e') := by
  constructor
  case rows =>
    intro j
    rw [getElem?_withEdits, getElem?_withEdits]
    cases v.rows[j]? with
    | none => exact .none
    | some r =>
      refine .some fun name hname => ?_
      have hget := h ⟨j, name⟩ hname
      unfold Edits.get? at hget
      rw [Row.get?_putEdits e.nodup, Row.get?_putEdits e'.nodup, hget]
  case edited =>
    intro c hc
    rw [mem_edited_withEdits, mem_edited_withEdits, h _ hc]
  case deleted => rw [deleted_withEdits, deleted_withEdits]

namespace Session

/-- What comes of staging a row: of the edits only those of the row count. -/
theorem stageRow_fst (row : Int) (d : Desk) :
    (stageRow row d).1 = (d.openRow row).bind fun content =>
      if (d.session.rowEdits row).isEmpty then .ok none
      else ((d.staging.add .update d.session.table (d.session.rowEdits row) (some content)
        d.session.data.columns).mapError .log).map fun added => some added.1 := by
  unfold stageRow
  cases hrow : d.openRow row with
  | error e =>
    rw [Attempt.bind_of_error (by rw [Attempt.look_apply, hrow])]
    rfl
  | ok content =>
    rw [Attempt.bind_of_ok (by rw [Attempt.look_apply, hrow]),
      Attempt.bind_of_ok (Attempt.read_apply ..)]
    show _ = if (d.session.rowEdits row).isEmpty then _ else _
    split
    · rfl
    · rw [Attempt.bind_apply]
      unfold stage
      cases d.staging.add .update d.session.table (d.session.rowEdits row) (some content)
          d.session.data.columns with
      | error e => rfl
      | ok added => rfl

/-- An update that is staged for a row is of its edits. -/
theorem data_of_stageRow {row : Int} {d : Desk} {c : Change}
    (h : (stageRow row d).1 = .ok (some c)) : c.data = d.session.rowEdits row := by
  rcases stageRow_cases row d with ⟨e, he⟩ | hnone | ⟨content, c', d', -, hstages, hok⟩
  · rw [he] at h
    cases h
  · rw [hnone] at h
    cases h
  · rw [hok] at h
    cases h
    exact hstages.data_eq

/-- The data of an update that is staged stands in the order of the columns. -/
theorem pairwise_names_rowEdits (s : Session) (row : Int) :
    (s.rowEdits row).names.Pairwise fun a b =>
      Column.position s.data.columns a ≤ Column.position s.data.columns b := by
  rw [Row.names, fields_rowEdits, Assoc.keys, List.pairwise_map]
  exact pairwise_sorted (fun edit : String × Value => Column.position s.data.columns edit.1) _

end Session

/-- The order of typing does not matter. Two runs that type the same value last into each cell leave
the same edits and the same view, which differs from the one before in the cells typed into at most.
Whatever row is staged then, what comes of it is the same: an update with the same data, in the order
of the columns, and the same statement, or the same error. -/
theorem typing_order_irrelevant {d d₁ d₂ : Desk} {typed typed' : List (CellRef × Value)}
    (h₁ : Session.typeAll typed d = (.ok (), d₁)) (h₂ : Session.typeAll typed' d = (.ok (), d₂))
    (hlast : ∀ cell, lastTyped? typed cell = lastTyped? typed' cell) :
    (∀ cell, d₁.session.edits.get? cell = d₂.session.edits.get? cell)
    ∧ d₁.view.Same d₂.view
    ∧ d.view.SameBut (· ∈ Assoc.keys typed) d₁.view
    ∧ ∀ row, (Session.stageRow row d₁).1 = (Session.stageRow row d₂).1
      ∧ ∀ c, (Session.stageRow row d₁).1 = .ok (some c) →
        c.data.names.Pairwise fun a b => Column.position d.session.data.columns a
          ≤ Column.position d.session.data.columns b := by
  obtain ⟨hcolumns, rfl⟩ := Session.typeAll_ok h₁
  obtain ⟨hcolumns', rfl⟩ := Session.typeAll_ok h₂
  have hequiv := Edits.equiv_enterAll d hcolumns hcolumns' hlast d.session.edits
  refine ⟨hequiv.get?, ?_, ?_, ?_⟩
  · exact (View.sameBut_withEdits d.staged fun cell _ => hequiv.get? cell).same
  · apply View.sameBut_withEdits d.staged
    intro cell hcell
    exact (Desk.get?_enterAll_of_notMem hcell).symm
  · intro row
    have hrow : (d.mapSession (·.mapEdits (typed.foldl d.enter ·))).session.rowEdits row
        = (d.mapSession (·.mapEdits (typed'.foldl d.enter ·))).session.rowEdits row :=
      hequiv.rowEdits row
    constructor
    · rw [Session.stageRow_fst, Session.stageRow_fst, hrow]
      rfl
    · intro c hc
      rw [Session.data_of_stageRow hc]
      exact (d.session.mapEdits (typed.foldl d.enter ·)).pairwise_names_rowEdits row

theorem Attempt.eq_of_isOk {σ ε : Type} {act : Attempt σ ε Unit} {s : σ}
    (h : (act s).1.isOk = true) : act s = (.ok (), (act s).2) := by
  cases hact : act s with
  | mk result t =>
    rw [hact] at h
    cases result with
    | ok _ => rfl
    | error e => cases h

/-- Two ways to type the same: one price after the other, or both articles by turns, with a price
that is taken back. -/
theorem typing_order_irrelevant_articles :
    let typed : List (CellRef × Value) :=
      [(⟨0, "price"⟩, .int 8), (⟨0, "id"⟩, .int 9), (⟨1, "price"⟩, .int 2)]
    let typed' : List (CellRef × Value) :=
      [(⟨0, "price"⟩, .int 6), (⟨1, "price"⟩, .int 2), (⟨0, "id"⟩, .int 9), (⟨0, "price"⟩, .int 8)]
    ∃ d₁ d₂, Session.typeAll typed articlesDesk = (.ok (), d₁)
      ∧ Session.typeAll typed' articlesDesk = (.ok (), d₂)
      ∧ (∀ cell, lastTyped? typed cell = lastTyped? typed' cell)
      ∧ Assoc.keys d₁.session.edits.entries = [⟨0, "price"⟩, ⟨0, "id"⟩]
      ∧ Assoc.keys d₂.session.edits.entries = [⟨0, "id"⟩, ⟨0, "price"⟩]
      ∧ d₁.view.Same d₂.view
      ∧ (Session.stageRow 0 d₁).1 = (Session.stageRow 0 d₂).1 := by
  intro typed typed'
  have hok : (Session.typeAll typed articlesDesk).1.isOk = true
      ∧ (Session.typeAll typed' articlesDesk).1.isOk = true := by decide +kernel
  have h₁ := Attempt.eq_of_isOk hok.1
  have h₂ := Attempt.eq_of_isOk hok.2
  have hlast : ∀ cell, lastTyped? typed cell = lastTyped? typed' cell := by
    intro cell
    by_cases hcell : cell ∈ Assoc.keys typed
    · rcases List.mem_cons.1 hcell with rfl | hcell
      · rfl
      · rcases List.mem_pair.1 hcell with rfl | rfl <;> rfl
    · have hsubset : Assoc.keys typed' ⊆ Assoc.keys typed := by decide +kernel
      rw [lastTyped?_eq_none hcell, lastTyped?_eq_none fun hmem => hcell (hsubset hmem)]
  obtain ⟨-, hview, -, hstage⟩ := typing_order_irrelevant h₁ h₂ hlast
  exact ⟨_, _, h₁, h₂, hlast, by decide +kernel, by decide +kernel, hview, (hstage 0).1⟩

end StagedTable
