import StagedTable.Proofs.Value.ArrayForms
import StagedTable.Sql.Literal
import StagedTable.Value.Decoded

/-!
# What drivers hand over

A driver hands over values of more classes than a cell may hold, and documents whose names need not
be texts (`DriverValue`). Decoding makes a readable cell value of each of them
(`DriverValue.IsBounded.isReadable_decode`), as long as its integers are within the limit on digits,
and such a value has an editable text, an array literal and a literal in columns of any type.
-/

namespace StagedTable

open Text

/-! ### Driver values -/

/-- A value as a driver hands it over: one whose documents have texts for names, or a list, a tuple
or a document of such, in which the names may be values of any class. -/
inductive DriverValue
  | single (v : Value)
  | list (items : List DriverValue)
  | tuple (items : List DriverValue)
  | document (fields : List (Value × DriverValue))

/-- The text that stands for a name of any class: the text itself, or the display of the value. -/
def Value.nameText : Value → String
  | .text s => s
  | .foreign x => String.ofList x.display
  | v => String.ofList v.nested

namespace DriverValue

mutual

/-- The cell value that a driver value stands for. Of fields whose names have the same text the last
one counts. -/
def decode : DriverValue → Value
  | .single v => v.decode
  | .list items | .tuple items => .list (decodeItems items)
  | .document fields => .document (Assoc.putAll [] (decodeFields fields))

@[inherit_doc decode]
def decodeItems : List DriverValue → List Value
  | [] => []
  | w :: rest => w.decode :: decodeItems rest

@[inherit_doc decode]
def decodeFields : List (Value × DriverValue) → List (String × Value)
  | [] => []
  | (name, w) :: rest => (name.nameText, w.decode) :: decodeFields rest

end

theorem decodeItems_eq_map (items : List DriverValue) : decodeItems items = items.map decode := by
  induction items with
  | nil => rfl
  | cons w rest ih => rw [decodeItems, ih, List.map_cons]

theorem decodeFields_eq_map (fields : List (Value × DriverValue)) :
    decodeFields fields = fields.map fun field => (field.1.nameText, field.2.decode) := by
  induction fields with
  | nil => rfl
  | cons field rest ih => rw [decodeFields, ih, List.map_cons]

end DriverValue

namespace Value

theorem decodeItems_eq_map (items : List Value) : decodeItems items = items.map decode := by
  induction items with
  | nil => rfl
  | cons v rest ih => rw [decodeItems, ih, List.map_cons]

theorem decodeFields_eq_map (fields : List (String × Value)) :
    decodeFields fields = fields.map fun field => (field.1, field.2.decode) := by
  induction fields with
  | nil => rfl
  | cons field rest ih => rw [decodeFields, ih, List.map_cons]

/-! ### Decoding -/

/-- Whether a value of any class is within the limit on digits: all its integers are, and all
decimal numbers in it that are integers. No document in it repeats a field name. -/
inductive IsBounded : Value → Prop
  | null : IsBounded .null
  | bool (b : Bool) : IsBounded (.bool b)
  | int (n : Int) : IsShort n → IsBounded (.int n)
  | float (x : Double) : IsBounded (.float x)
  | text (s : String) : IsBounded (.text s)
  | foreign (x : Foreign) :
      (∀ s n, x = .decimal s → (Decimal.ofText s.toList).toInt? = some n → IsShort n) →
      IsBounded (.foreign x)
  | list (items : List Value) : (∀ v ∈ items, IsBounded v) → IsBounded (.list items)
  | tuple (items : List Value) : (∀ v ∈ items, IsBounded v) → IsBounded (.tuple items)
  | document (fields : List (String × Value)) : (Assoc.keys fields).Nodup →
      (∀ field ∈ fields, IsBounded field.2) → IsBounded (.document fields)

theorem isReadable_decodeDecimal {s : String}
    (h : ∀ n, (Decimal.ofText s.toList).toInt? = some n → IsShort n) :
    (decodeDecimal s).IsReadable := by
  unfold decodeDecimal
  dsimp only
  split
  · next n hn => exact .int n (h n hn)
  · exact .float _ trivial
  · exact .text _

theorem isReadable_list {α : Type} {items : List α} {f : α → Value}
    (h : ∀ x ∈ items, (f x).IsReadable) : (Value.list (items.map f)).IsReadable := by
  refine .list _ fun v hv => ?_
  obtain ⟨x, hx, rfl⟩ := List.mem_map.1 hv
  exact h x hx

/-- What a value of any class is decoded to can be written and read back. -/
theorem IsBounded.isReadable_decode {v : Value} (h : v.IsBounded) : v.decode.IsReadable := by
  induction h with
  | null => exact .null
  | bool b => exact .bool b
  | int n hn => exact .int n hn
  | float x => exact .float x trivial
  | text s => exact .text s
  | foreign x hx =>
    cases x with
    | decimal s => exact isReadable_decodeDecimal fun n => hx s n rfl
    | _ => exact .text _
  | list items _ ih | tuple items _ ih =>
    rw [decode, decodeItems_eq_map]
    exact isReadable_list ih
  | document fields hnodup _ ih =>
    have hkeys := keys_decodeFields fields
    rw [decodeFields_eq_map] at hkeys
    rw [decode, decodeFields_eq_map]
    refine .document _ (hkeys ▸ hnodup) fun field hfield => ?_
    obtain ⟨f, hf, rfl⟩ := List.mem_map.1 hfield
    exact ih f hf

end Value

namespace DriverValue

/-- Whether a driver value is within the limit on digits, and so are the names of its documents. -/
inductive IsBounded : DriverValue → Prop
  | single (v : Value) : v.IsBounded → IsBounded (.single v)
  | list (items : List DriverValue) : (∀ w ∈ items, IsBounded w) → IsBounded (.list items)
  | tuple (items : List DriverValue) : (∀ w ∈ items, IsBounded w) → IsBounded (.tuple items)
  | document (fields : List (Value × DriverValue)) : (∀ field ∈ fields, field.1.IsBounded) →
      (∀ field ∈ fields, IsBounded field.2) → IsBounded (.document fields)

/-- What a driver value is decoded to can be written and read back. -/
theorem IsBounded.isReadable_decode {w : DriverValue} (h : w.IsBounded) :
    w.decode.IsReadable := by
  induction h with
  | single v hv => exact hv.isReadable_decode
  | list items _ ih | tuple items _ ih =>
    rw [decode, decodeItems_eq_map]
    exact Value.isReadable_list ih
  | document fields _ _ ih =>
    rw [decode, decodeFields_eq_map]
    refine .document _ (Assoc.nodup_putAll List.nodup_nil) fun field hfield => ?_
    rcases Assoc.mem_putAll hfield with hnil | hadded
    · exact nomatch hnil
    · obtain ⟨f, hf, rfl⟩ := List.mem_map.1 hadded
      exact ih f hf

end DriverValue

/-! ### Rendering -/

namespace Value

variable {v : Value}

/-- A cell value that can be written has an editable text in columns of any type. -/
theorem IsCellOf.exists_format (h : v.IsReadable) (dataType : Option String) :
    ∃ cs, v.format dataType = .ok cs := by
  unfold format
  split
  · cases h with
    | list _ hitems => exact ⟨_, ArrayLiteral.encode_eq hitems⟩
  · exact ⟨_, h.write_eq plainText⟩

/-- A cell value that can be written has a literal in columns of any type. -/
theorem IsCellOf.exists_literal (h : v.IsReadable) (dataType : Option String) :
    ∃ l, Sql.Literal.ofValue dataType v = .ok l := by
  have hwrite := h.write_eq display
  have hjson : ∃ l, v.toJson.map Sql.Literal.json = .ok l :=
    ⟨.json v.json, by rw [toJson, h.write_eq json]; rfl⟩
  cases h with
  | int n _ => exact ⟨.number (display (.int n)), by rw [Sql.Literal.ofValue, hwrite]; rfl⟩
  | list items hitems =>
    rw [Sql.Literal.ofValue]
    split
    · exact ⟨_, by rw [ArrayLiteral.encode_eq hitems]; rfl⟩
    · exact hjson
  | document fields => exact hjson
  | _ => exact ⟨_, rfl⟩

end Value

end StagedTable
