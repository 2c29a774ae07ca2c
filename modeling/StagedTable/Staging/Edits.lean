import StagedTable.Row

/-!
# Cell edits

Values typed into cells but not staged yet. Each cell has one edit at most; editing it again keeps
its place in the order in which the cells were first edited.
-/

namespace StagedTable

/-- A cell: the number of its row and the name of its column. -/
structure CellRef where
  row : Int
  column : String
deriving DecidableEq

/-- Cell edits in the order in which the cells were first edited, one to a cell. -/
structure Edits where
  entries : List (CellRef × Value)
  nodup : (Assoc.keys entries).Nodup

namespace Edits

/-- No edits. -/
def empty : Edits := ⟨[], List.nodup_nil⟩

/-- Whether there are no edits. -/
def isEmpty (e : Edits) : Bool := e.entries.isEmpty

/-- The value that a cell was edited to. -/
def get? (e : Edits) (cell : CellRef) : Option Value := Assoc.get? cell e.entries

/-- Edits a cell, in place of its edit before. -/
def put (e : Edits) (cell : CellRef) (value : Value) : Edits :=
  ⟨Assoc.put cell value e.entries, Assoc.nodup_put e.nodup⟩

/-- Forgets the edits of some cells. -/
def forget (e : Edits) (forgotten : CellRef → Bool) : Edits :=
  ⟨Assoc.keep (!forgotten ·) e.entries, Assoc.nodup_keep e.nodup⟩

/-- Forgets the edit of a cell. -/
def erase (e : Edits) (cell : CellRef) : Edits := e.forget (· == cell)

/-- Forgets the edits of a row. -/
def eraseRow (e : Edits) (row : Int) : Edits := e.forget (·.row == row)

/-- The edits of a list; of a repeated cell the last edit counts. -/
def ofList (entries : List (CellRef × Value)) : Edits :=
  ⟨Assoc.putAll [] entries, Assoc.nodup_putAll List.nodup_nil⟩

/-- The edited columns of a row with their values. -/
def ofRow (e : Edits) (row : Int) : List (String × Value) :=
  e.entries.filterMap fun (cell, value) =>
    if cell.row = row then some (cell.column, value) else none

/-- The order of edits by row and then by column name. -/
def le (a b : CellRef × Value) : Bool :=
  a.1.row < b.1.row || (a.1.row == b.1.row && !decide (b.1.column < a.1.column))

/-- The edits in order of their cells. -/
def sorted (e : Edits) : List (CellRef × Value) := e.entries.mergeSort le

@[simp] theorem get?_empty (cell : CellRef) : empty.get? cell = none := rfl

/-- A cell that was edited has the new value; all other cells are as before. -/
theorem get?_put (e : Edits) (cell other : CellRef) (value : Value) :
    (e.put cell value).get? other = if other = cell then some value else e.get? other :=
  Assoc.get?_put cell other value e.entries

/-- A forgotten edit is gone; all others are as before. -/
theorem get?_forget (e : Edits) (forgotten : CellRef → Bool) (cell : CellRef) :
    (e.forget forgotten).get? cell = if forgotten cell then none else e.get? cell := by
  cases h : forgotten cell <;> simp [forget, get?, Assoc.get?_keep, h]

/-- Where there is no edit there is none to forget. -/
theorem erase_eq_self {e : Edits} {cell : CellRef} (h : e.get? cell = none) : e.erase cell = e := by
  have hkept : Assoc.keep (fun other => !(other == cell)) e.entries = e.entries := by
    refine List.filter_eq_self.2 ?_
    intro entry hentry
    have hne : entry.1 ≠ cell := by
      rintro rfl
      have hget : e.get? entry.1 = some entry.2 := Assoc.get?_of_mem e.nodup hentry
      rw [h] at hget
      cases hget
    simp [hne]
  obtain ⟨entries, hnodup⟩ := e
  simp only [erase, forget, hkept]

end Edits

end StagedTable
