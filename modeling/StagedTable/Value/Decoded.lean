import StagedTable.Value

/-!
# Decoding driver values

The cell value that a driver value stands for: binary data as hexadecimal text, dates and times as
ISO 8601 text, decimal numbers as integers or doubles, and everything else by the text that displays
it. The main statements: the result is a cell value (`isCell_decode`), and a cell value stands for
itself (`decode_eq_self`).
-/

namespace StagedTable

/-- The cell value of a decimal number: an integer if it is one, else the nearest double; one that
is not finite is its text. -/
def decodeDecimal (s : String) : Value :=
  let d := Decimal.ofText s.toList
  match d.toInt?, d.toDouble? with
  | some n, _ => .int n
  | none, some x => .float x
  | none, none => .text s

/-- The cell value of a driver value that holds no others. -/
def Foreign.decode : Foreign → Value
  | .binary _ data => .text (String.ofList ('\\' :: 'x' :: Foreign.hexData data))
  | .dateTime d => .text (String.ofList d.text)
  | .decimal s => decodeDecimal s
  | x => .text (String.ofList x.display)

namespace Value

mutual

/-- The cell value that a value stands for. -/
def decode : Value → Value
  | .list items | .tuple items => .list (decodeItems items)
  | .document fields => .document (decodeFields fields)
  | .foreign x => x.decode
  | v => v

@[inherit_doc decode]
def decodeItems : List Value → List Value
  | [] => []
  | v :: rest => v.decode :: decodeItems rest

@[inherit_doc decode]
def decodeFields : List (String × Value) → List (String × Value)
  | [] => []
  | (name, v) :: rest => (name, v.decode) :: decodeFields rest

end

/-- Decoding leaves the names of fields as they are. -/
theorem keys_decodeFields (fields : List (String × Value)) :
    Assoc.keys (decodeFields fields) = Assoc.keys fields := by
  induction fields with
  | nil => rfl
  | cons field rest ih => simpa [decodeFields, Assoc.keys] using ih

/-- A decoded driver value is a cell value. -/
theorem isCell_foreignDecode (x : Foreign) : x.decode.isCell = true := by
  cases x with
  | decimal s =>
    simp only [Foreign.decode, decodeDecimal]
    split <;> rfl
  | _ => rfl

mutual

/-- A decoded value is a cell value at every level. -/
theorem isCell_decode : ∀ v : Value, v.decode.isCell = true
  | .null | .bool _ | .int _ | .float _ | .text _ => rfl
  | .list items | .tuple items => areCells_decodeItems items
  | .document fields => holdsCells_decodeFields fields
  | .foreign x => isCell_foreignDecode x

@[inherit_doc isCell_decode]
theorem areCells_decodeItems : ∀ items : List Value, areCells (decodeItems items) = true
  | [] => rfl
  | v :: rest => by simp [decodeItems, areCells, isCell_decode v, areCells_decodeItems rest]

@[inherit_doc isCell_decode]
theorem holdsCells_decodeFields :
    ∀ fields : List (String × Value), holdsCells (decodeFields fields) = true
  | [] => rfl
  | (_, v) :: rest => by
    simp [decodeFields, holdsCells, isCell_decode v, holdsCells_decodeFields rest]

end

mutual

/-- A cell value stands for itself. -/
theorem decode_eq_self : ∀ v : Value, v.isCell = true → v.decode = v
  | .null, _ | .bool _, _ | .int _, _ | .float _, _ | .text _, _ => rfl
  | .list items, h => by rw [decode, decodeItems_eq_self items h]
  | .document fields, h => by rw [decode, decodeFields_eq_self fields h]
  | .tuple _, h | .foreign _, h => by simp [isCell] at h

@[inherit_doc decode_eq_self]
theorem decodeItems_eq_self :
    ∀ items : List Value, areCells items = true → decodeItems items = items
  | [], _ => rfl
  | v :: rest, h => by
    simp only [areCells, Bool.and_eq_true] at h
    rw [decodeItems, decode_eq_self v h.1, decodeItems_eq_self rest h.2]

@[inherit_doc decode_eq_self]
theorem decodeFields_eq_self :
    ∀ fields : List (String × Value), holdsCells fields = true → decodeFields fields = fields
  | [], _ => rfl
  | (name, v) :: rest, h => by
    simp only [holdsCells, Bool.and_eq_true] at h
    rw [decodeFields, decode_eq_self v h.1, decodeFields_eq_self rest h.2]

end

end Value

end StagedTable
