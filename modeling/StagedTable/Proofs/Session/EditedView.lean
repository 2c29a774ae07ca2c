import StagedTable.Proofs.Session.Execution
import StagedTable.Session

/-!
# Edits over a view

What the edits that are not staged yet make of a view. Each row takes the edits of its cells and of
no others (`getElem?_withEdits`, `get?_putEdits`), the cells that were edited are marked besides
those that were staged (`mem_edited_withEdits`), and no row is marked as pending delete.
-/

namespace StagedTable

/-! ### The edits of a row -/

/-- The entries of edits, put into a row one by one where they are of its cells. -/
def Row.putEdits (i : Int) (r : Row) (entries : List (CellRef × Value)) : Row :=
  entries.foldl (fun r (cell, value) => if cell.row = i then r.put cell.column value else r) r

namespace Row

variable {i : Int} {r : Row}

theorem putEdits_cons (entry : CellRef × Value) (rest : List (CellRef × Value)) :
    r.putEdits i (entry :: rest)
      = (if entry.1.row = i then r.put entry.1.column entry.2 else r).putEdits i rest := rfl

/-- A cell has the value that it was edited to, if it was. -/
theorem get?_putEdits {entries : List (CellRef × Value)} (h : (Assoc.keys entries).Nodup)
    (name : String) :
    (r.putEdits i entries).get? name = (Assoc.get? ⟨i, name⟩ entries).or (r.get? name) := by
  induction entries generalizing r with
  | nil => rfl
  | cons entry rest ih =>
    obtain ⟨⟨row, column⟩, value⟩ := entry
    rw [Assoc.keys, List.map_cons, List.nodup_cons] at h
    rw [putEdits_cons, ih h.2, Assoc.get?]
    by_cases hcell : (⟨row, column⟩ : CellRef) = ⟨i, name⟩
    · -- no later entry is of the same cell
      have hnone : Assoc.get? (⟨i, name⟩ : CellRef) rest = none := by
        rw [← Option.not_isSome_iff_eq_none, Assoc.isSome_get?_iff, ← hcell]
        exact h.1
      cases hcell
      simp [hnone, get?_put]
    · have hkeep : (if row = i then r.put column value else r).get? name = r.get? name := by
        split
        · next hrow =>
          have hname : name ≠ column := fun e => hcell (by rw [hrow, e])
          rw [get?_put, if_neg hname]
        · rfl
      simp only [hkeep, if_neg hcell]

/-- Edits of another row do not matter. -/
theorem putEdits_eraseRow {j : Int} (h : i ≠ j) (e : Edits) :
    r.putEdits i (e.eraseRow j).entries = r.putEdits i e.entries := by
  show r.putEdits i (e.entries.filter fun entry => !(entry.1.row == j)) = _
  generalize e.entries = entries
  induction entries generalizing r with
  | nil => rfl
  | cons entry rest ih =>
    by_cases hrow : entry.1.row = j
    · have hother : entry.1.row ≠ i := by rw [hrow]; exact h.symm
      rw [List.filter_cons_of_neg (by simp [hrow]), ih, putEdits_cons, if_neg hother]
    · rw [List.filter_cons_of_pos (by simp [hrow]), putEdits_cons, putEdits_cons, ih]

theorem putEdits_of_forall_ne {entries : List (CellRef × Value)}
    (h : ∀ entry ∈ entries, entry.1.row ≠ i) : r.putEdits i entries = r := by
  induction entries with
  | nil => rfl
  | cons entry rest ih =>
    rw [List.forall_mem_cons] at h
    rw [putEdits_cons, if_neg h.1, ih h.2]

/-- A row without edits stays as it is. -/
theorem putEdits_erased (e : Edits) : r.putEdits i (e.eraseRow i).entries = r := by
  apply putEdits_of_forall_ne
  intro entry hentry
  simpa using (List.mem_filter.1 hentry).2

end Row

/-- A row has one edit of a column at most. -/
theorem Edits.nodup_ofRow (e : Edits) (row : Int) : (Assoc.keys (e.ofRow row)).Nodup := by
  have hkeys : Assoc.keys (e.ofRow row)
      = (Assoc.keys e.entries).filterMap fun cell =>
        if cell.row = row then some cell.column else none := by
    rw [ofRow, Assoc.keys, Assoc.keys, List.map_filterMap, List.filterMap_map]
    congr 1
    funext entry
    dsimp only [Function.comp]
    split <;> rfl
  rw [hkeys]
  refine e.nodup.filterMap ?_
  intro cell cell' column hcell hcell'
  rw [Option.mem_def] at hcell hcell'
  split at hcell
  · next hrow =>
    split at hcell'
    · next hrow' =>
      cases hcell
      cases cell
      cases cell'
      simp_all
    · cases hcell'
  · cases hcell

/-- What is staged for a row are its edits, sorted. -/
theorem Session.fields_rowEdits (s : Session) (row : Int) :
    (s.rowEdits row).fields = (s.edits.ofRow row).mergeSort fun a b =>
      decide (Column.position s.data.columns a.1 ≤ Column.position s.data.columns b.1) := by
  have hnodup : (Assoc.keys ((s.edits.ofRow row).mergeSort fun a b =>
      decide (Column.position s.data.columns a.1 ≤ Column.position s.data.columns b.1))).Nodup :=
    ((List.mergeSort_perm _ _).map Prod.fst).nodup_iff.2 (s.edits.nodup_ofRow row)
  exact Assoc.putAll_eq_append (by rwa [List.nil_append])

theorem Session.mem_rowEdits {s : Session} {row : Int} {name : String} {v : Value} :
    (name, v) ∈ (s.rowEdits row).fields ↔ (⟨row, name⟩, v) ∈ s.edits.entries := by
  rw [fields_rowEdits, List.mem_mergeSort, Edits.ofRow, List.mem_filterMap]
  constructor
  · rintro ⟨⟨⟨row', name'⟩, v'⟩, hmem, hedit⟩
    have hedit : (if row' = row then some (name', v') else none) = some (name, v) := hedit
    by_cases hrow : row' = row
    · rw [if_pos hrow, Option.some.injEq, Prod.mk.injEq] at hedit
      obtain ⟨rfl, rfl⟩ := hedit
      exact hrow ▸ hmem
    · rw [if_neg hrow] at hedit
      cases hedit
  · intro hmem
    exact ⟨_, hmem, if_pos rfl⟩

/-- What is staged for a row is what its cells were edited to. -/
theorem Session.get?_rowEdits (s : Session) (row : Int) (name : String) :
    (s.rowEdits row).get? name = s.edits.get? ⟨row, name⟩ := by
  apply Option.ext
  intro v
  constructor
  · intro h
    exact Assoc.get?_of_mem s.edits.nodup (Session.mem_rowEdits.1 (Assoc.mem_of_get? h))
  · intro h
    exact Assoc.get?_of_mem (s.rowEdits row).nodup (Session.mem_rowEdits.2 (Assoc.mem_of_get? h))

/-! ### Rows, marks and deletions -/

namespace View

/-- The view with edits laid over it. -/
def withEdits (v : View) (e : Edits) : View :=
  e.entries.foldl (fun v (cell, value) => v.applyEdit cell value) v

variable {v : View} {cell : CellRef} {value : Value} {j : Nat}

theorem length_applyEdit : (v.applyEdit cell value).rows.length = v.rows.length := by
  unfold applyEdit
  split
  · simp
  · rfl

theorem deleted_applyEdit : (v.applyEdit cell value).deleted = v.deleted := by
  unfold applyEdit
  split <;> rfl

theorem getElem?_applyEdit : (v.applyEdit cell value).rows[j]?
    = v.rows[j]?.map fun r => if cell.row = j then r.put cell.column value else r := by
  unfold applyEdit
  split
  · next hrow =>
    have hplace : cell.row.toNat = j ↔ cell.row = j := by omega
    show (v.rows.modify cell.row.toNat (·.put cell.column value))[j]? = _
    rw [List.getElem?_modify]
    simp only [hplace]
    rfl
  · next hrow =>
    cases hget : v.rows[j]? with
    | none => rfl
    | some r =>
      -- an edit beyond the rows is of none of them
      have hlt : j < v.rows.length := (List.getElem?_eq_some_iff.1 hget).1
      have hother : cell.row ≠ j := by omega
      rw [Option.map_some, if_neg hother]

theorem mem_markCell {edited : List (Nat × String)} {c c' : Nat × String} :
    c ∈ markCell edited c' ↔ c ∈ edited ∨ c = c' := by
  unfold markCell
  split
  · next h =>
    constructor
    · exact .inl
    · rintro (hc | rfl)
      · exact hc
      · exact h
  · simp

theorem mem_markAll {edited cells : List (Nat × String)} {c : Nat × String} :
    c ∈ cells.foldl markCell edited ↔ c ∈ edited ∨ c ∈ cells := by
  induction cells generalizing edited with
  | nil => simp
  | cons c' rest ih => rw [List.foldl_cons, ih, mem_markCell, List.mem_cons, or_assoc]

theorem mem_edited_applyEdit {c : Nat × String} : c ∈ (v.applyEdit cell value).edited
    ↔ c ∈ v.edited ∨ (c.1 < v.rows.length ∧ cell = ⟨c.1, c.2⟩) := by
  obtain ⟨row, column⟩ := cell
  obtain ⟨i, name⟩ := c
  unfold applyEdit
  split
  · next hrow =>
    show (i, name) ∈ markCell v.edited (row.toNat, column) ↔ _
    rw [mem_markCell, Prod.mk.injEq, CellRef.mk.injEq]
    refine or_congr_right ?_
    dsimp only at hrow ⊢
    constructor
    · rintro ⟨rfl, rfl⟩
      exact ⟨by omega, by omega, rfl⟩
    · rintro ⟨-, rfl, rfl⟩
      simp
  · next hrow =>
    constructor
    · exact .inl
    · rintro (hc | ⟨hlt, he⟩)
      · exact hc
      · rw [CellRef.mk.injEq] at he
        dsimp only at hrow hlt
        omega

variable (v) (e : Edits) (data : Row)

theorem getElem?_overlay (i j : Nat) :
    (v.overlay i data).rows[j]? = v.rows[j]?.map fun r => if i = j then r.overlay data else r := by
  show (v.rows.modify i (·.overlay data))[j]? = _
  rw [List.getElem?_modify]
  rfl

theorem mem_edited_overlay {i : Nat} {c : Nat × String} :
    c ∈ (v.overlay i data).edited ↔ c ∈ v.edited ∨ (c.1 = i ∧ (data.get? c.2).isSome) := by
  obtain ⟨j, name⟩ := c
  rw [overlay, mem_markAll, List.mem_map, Row.get?, Assoc.isSome_get?_iff]
  refine or_congr_right ?_
  constructor
  · rintro ⟨name', hname', he⟩
    cases he
    exact ⟨rfl, hname'⟩
  · rintro ⟨rfl, hname⟩
    exact ⟨name, hname, rfl⟩

@[simp] theorem length_withEdits : (v.withEdits e).rows.length = v.rows.length := by
  unfold withEdits
  generalize e.entries = entries
  induction entries generalizing v with
  | nil => rfl
  | cons entry rest ih => exact (ih _).trans length_applyEdit

@[simp] theorem deleted_withEdits : (v.withEdits e).deleted = v.deleted := by
  unfold withEdits
  generalize e.entries = entries
  induction entries generalizing v with
  | nil => rfl
  | cons entry rest ih => exact (ih _).trans deleted_applyEdit

/-- Each row takes its own edits. -/
theorem getElem?_withEdits (j : Nat) :
    (v.withEdits e).rows[j]? = v.rows[j]?.map (·.putEdits j e.entries) := by
  unfold withEdits
  generalize e.entries = entries
  induction entries generalizing v with
  | nil => exact Option.map_id'.symm
  | cons entry rest ih =>
    refine (ih _).trans ?_
    rw [getElem?_applyEdit, Option.map_map]
    rfl

/-- The cells of rows that were edited are marked, besides those that were marked before. -/
theorem mem_edited_withEdits {c : Nat × String} : c ∈ (v.withEdits e).edited
    ↔ c ∈ v.edited ∨ (c.1 < v.rows.length ∧ (e.get? ⟨c.1, c.2⟩).isSome) := by
  rw [Edits.get?, Assoc.isSome_get?_iff, withEdits]
  generalize e.entries = entries
  induction entries generalizing v with
  | nil => simp [Assoc.keys]
  | cons entry rest ih =>
    refine (ih _).trans ?_
    rw [mem_edited_applyEdit, length_applyEdit, Assoc.keys, Assoc.keys, List.map_cons,
      List.mem_cons, or_assoc, ← and_or_left, eq_comm]

end View

end StagedTable
