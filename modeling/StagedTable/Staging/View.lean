import StagedTable.Staging.Edits
import StagedTable.Staging.Log

/-!
# The merged view

Fetched rows as they will look once the staged changes are made: updates are laid over the rows they
match, cell edits over those, and rows staged for deletion are marked. A change is matched by its
whole pre-image against the rows as the changes before it left them.
-/

namespace StagedTable

/-- Whether every value of a pre-image is the same in the row. -/
def Row.holds (r preimage : Row) : Bool :=
  preimage.fields.all fun (name, v) =>
    match r.get? name with
    | some w => w.same v
    | none => false

/-- The place of the first row from `start` on that holds a pre-image and is not skipped. -/
def findRowFrom (skipped : Nat → Bool) (preimage : Row) (start : Nat) : List Row → Option Nat
  | [] => none
  | r :: rest =>
    if !skipped start && r.holds preimage then some start
    else findRowFrom skipped preimage (start + 1) rest

/-- The place of the first row that holds a pre-image and is not skipped. -/
def findRow (skipped : Nat → Bool) (preimage : Row) (rows : List Row) : Option Nat :=
  findRowFrom skipped preimage 0 rows

/-- What is found is a row at that place that is not skipped and holds the pre-image. -/
theorem of_findRowFrom {skipped : Nat → Bool} {preimage : Row} {start i : Nat} {rows : List Row}
    (h : findRowFrom skipped preimage start rows = some i) :
    start ≤ i ∧ skipped i = false ∧ ∃ r, rows[i - start]? = some r ∧ r.holds preimage = true := by
  induction rows generalizing start with
  | nil => simp [findRowFrom] at h
  | cons r rest ih =>
    rw [findRowFrom] at h
    split at h
    · next hr =>
      cases h
      simp only [Bool.and_eq_true, Bool.not_eq_true'] at hr
      exact ⟨Nat.le_refl _, hr.1, r, by simp, hr.2⟩
    · obtain ⟨hs, hk, w, hw, hh⟩ := ih h
      refine ⟨by omega, hk, w, ?_, hh⟩
      have : i - start = (i - (start + 1)) + 1 := by omega
      rw [this]
      simpa using hw

/-- Rows as they will look after a commit, with the cells that were edited and the rows that are
pending delete, each listed once. -/
structure View where
  rows : List Row
  edited : List (Nat × String)
  deleted : List Nat

namespace View

/-- The rows as they were fetched. -/
def ofRows (rows : List Row) : View := ⟨rows, [], []⟩

/-- Marks a cell as edited. -/
def markCell (edited : List (Nat × String)) (cell : Nat × String) : List (Nat × String) :=
  if cell ∈ edited then edited else edited ++ [cell]

/-- Lays a row over the one at a place. -/
def overlay (v : View) (i : Nat) (data : Row) : View :=
  { v with
    rows := v.rows.modify i (·.overlay data)
    edited := (data.names.map fun name => (i, name)).foldl markCell v.edited }

/-- Whether a row is pending delete. -/
def isDeleted (v : View) (i : Nat) : Bool := v.deleted.contains i

/-- The row that a change is matched to: the first one not pending delete that holds the pre-image.
An insert and a change without a pre-image have none. -/
def target? (v : View) (c : Change) : Option Nat :=
  match c.kind, c.preimage with
  | .insert, _ | _, none => none
  | _, some preimage => findRow v.isDeleted preimage v.rows

/-- The view after one more change; a change that matches no row leaves it as it is. -/
def apply (v : View) (c : Change) : View :=
  match v.target? c, c.kind with
  | some i, .update => v.overlay i c.data
  | some i, .delete => { v with deleted := v.deleted ++ [i] }
  | _, _ => v

/-- The view after one more cell edit; an edit beyond the rows leaves it as it is. -/
def applyEdit (v : View) (cell : CellRef) (value : Value) : View :=
  if 0 ≤ cell.row ∧ cell.row < v.rows.length then
    { v with
      rows := v.rows.modify cell.row.toNat (·.put cell.column value)
      edited := markCell v.edited (cell.row.toNat, cell.column) }
  else v

/-- The view of fetched rows with changes and then edits on top. -/
def reconcile (rows : List Row) (changes : List Change) (edits : Edits) : View :=
  edits.entries.foldl (fun v (cell, value) => v.applyEdit cell value)
    (changes.foldl apply (ofRows rows))

/-- The order of cells by row and then by name. -/
def cellLe (a b : Nat × String) : Bool := a.1 < b.1 || (a.1 == b.1 && !decide (b.2 < a.2))

/-- The edited cells in order. -/
def sortedEdited (v : View) : List (Nat × String) := v.edited.mergeSort cellLe

/-- The rows pending delete in order. -/
def sortedDeleted (v : View) : List Nat := v.deleted.mergeSort fun a b => decide (a ≤ b)

end View

end StagedTable
