import Mathlib.Algebra.Order.Ring.Int
import StagedTable.Value.Json.Printer

/-!
# Classes of cell values

Cell values by what their integers and doubles may be, at every level. In all classes a document
repeats no field name, as a look-up table of fields cannot.
-/

namespace StagedTable

open Text

namespace Value

/-- A cell value all of whose integers and doubles satisfy a condition, with no field name repeated
in a document. -/
inductive IsCellOf (int : Int → Prop) (float : Double → Prop) : Value → Prop
  | null : IsCellOf int float .null
  | bool (b : Bool) : IsCellOf int float (.bool b)
  | int (n : Int) : int n → IsCellOf int float (.int n)
  | float (x : Double) : float x → IsCellOf int float (.float x)
  | text (s : String) : IsCellOf int float (.text s)
  | list (items : List Value) : (∀ v ∈ items, IsCellOf int float v) → IsCellOf int float (.list items)
  | document (fields : List (String × Value)) : (Assoc.keys fields).Nodup →
      (∀ field ∈ fields, IsCellOf int float field.2) → IsCellOf int float (.document fields)

/-- An integer that is within the limit on the digits that are read. -/
def IsShort (n : Int) : Prop := (digits n.natAbs).length ≤ maxIntegerDigits

/-- A cell value that JSON text gives back: its integers are within the limit on digits. -/
abbrev IsReadable : Value → Prop := IsCellOf IsShort fun _ => True

/-- A cell value that repeats no field name in a document. -/
abbrev IsProper : Value → Prop := IsCellOf (fun _ => True) fun _ => True

/-- A cell value that holds no not-a-number. -/
abbrev IsComparable : Value → Prop := IsCellOf (fun _ => True) (·.isNan = false)

variable {int : Int → Prop} {float : Double → Prop}

theorem IsCellOf.isCell {v : Value} (h : IsCellOf int float v) : v.IsCell := by
  have hitems : ∀ items : List Value, (∀ v ∈ items, v.isCell = true) → areCells items = true := by
    intro items
    induction items with
    | nil => exact fun _ => rfl
    | cons v rest ih =>
      intro h
      rw [areCells, h v (.head _), ih fun w hw => h w (.tail _ hw)]
      rfl
  have hfields : ∀ fields : List (String × Value), (∀ field ∈ fields, field.2.isCell = true) →
      holdsCells fields = true := by
    intro fields
    induction fields with
    | nil => exact fun _ => rfl
    | cons field rest ih =>
      intro h
      rw [holdsCells, h field (.head _), ih fun w hw => h w (.tail _ hw)]
      rfl
  induction h with
  | list items _ ih => exact hitems items ih
  | document fields _ _ ih => exact hfields fields ih
  | _ => rfl

theorem holdsLongItem_eq_false_iff {items : List Value} :
    holdsLongItem items = false ↔ ∀ v ∈ items, v.holdsLong = false := by
  induction items with
  | nil => exact ⟨fun _ _ hv => (nomatch hv), fun _ => rfl⟩
  | cons v rest ih => rw [holdsLongItem, Bool.or_eq_false_iff, ih, List.forall_mem_cons]

theorem holdsLongField_eq_false_iff {fields : List (String × Value)} :
    holdsLongField fields = false ↔ ∀ field ∈ fields, field.2.holdsLong = false := by
  induction fields with
  | nil => exact ⟨fun _ _ hv => (nomatch hv), fun _ => rfl⟩
  | cons field rest ih => rw [holdsLongField, Bool.or_eq_false_iff, ih, List.forall_mem_cons]

/-- What all integers of a value within the limit come to. -/
theorem IsCellOf.holdsLong {v : Value} (h : v.IsCellOf IsShort float) : v.holdsLong = false := by
  induction h with
  | int n hn => exact decide_eq_false (Nat.not_lt.2 hn)
  | list items _ ih => exact holdsLongItem_eq_false_iff.2 ih
  | document fields _ _ ih => exact holdsLongField_eq_false_iff.2 ih
  | _ => rfl

/-- The fault of such a value, if there is one, is an integer of too many digits: JSON has a form for
all that is in it. -/
theorem IsCellOf.firstFault? {v : Value} (h : IsCellOf int float v) :
    Json.firstFault? v = if v.holdsLong then some .tooManyDigits else none := by
  have hitems : ∀ items : List Value,
      (∀ v ∈ items, Json.firstFault? v = if v.holdsLong then some .tooManyDigits else none) →
      Json.firstFaultyItem? items = if holdsLongItem items then some .tooManyDigits else none := by
    intro items
    induction items with
    | nil => exact fun _ => rfl
    | cons v rest ih =>
      intro h
      rw [Json.firstFaultyItem?, h v (.head _), ih fun w hw => h w (.tail _ hw), holdsLongItem]
      cases v.holdsLong <;> rfl
  have hfields : ∀ fields : List (String × Value),
      (∀ field ∈ fields, Json.firstFault? field.2
        = if field.2.holdsLong then some .tooManyDigits else none) →
      Json.firstFaultyField? fields
        = if holdsLongField fields then some .tooManyDigits else none := by
    intro fields
    induction fields with
    | nil => exact fun _ => rfl
    | cons field rest ih =>
      intro h
      rw [Json.firstFaultyField?, h field (.head _), ih fun w hw => h w (.tail _ hw),
        holdsLongField]
      cases field.2.holdsLong <;> rfl
  induction h with
  | list items _ ih => exact hitems items ih
  | document fields _ _ ih => exact hfields fields ih
  | _ => rfl

theorem IsCellOf.isReadable {v : Value} (h : v.IsCellOf IsShort float) : v.IsReadable := by
  induction h with
  | null => exact .null
  | bool b => exact .bool b
  | int n hn => exact .int n hn
  | float x _ => exact .float x trivial
  | text s => exact .text s
  | list items _ ih => exact .list items ih
  | document fields hnodup _ ih => exact .document fields hnodup ih

theorem IsCellOf.isProper {v : Value} (h : IsCellOf int float v) : v.IsProper := by
  induction h with
  | null => exact .null
  | bool b => exact .bool b
  | int n _ => exact .int n trivial
  | float x _ => exact .float x trivial
  | text s => exact .text s
  | list items _ ih => exact .list items ih
  | document fields hnodup _ ih => exact .document fields hnodup ih

/-- The cell values that can be read back are those that can be written: none of their integers has
too many digits. -/
theorem isReadable_iff {v : Value} (h : v.IsProper) : v.IsReadable ↔ v.holdsLong = false := by
  refine ⟨IsCellOf.holdsLong, fun hlong => ?_⟩
  induction h with
  | null => exact .null
  | bool b => exact .bool b
  | int n _ => exact .int n (Nat.not_lt.1 (of_decide_eq_false hlong))
  | float x _ => exact .float x trivial
  | text s => exact .text s
  | list items _ ih =>
    exact .list items fun v hv => ih v hv (holdsLongItem_eq_false_iff.1 hlong v hv)
  | document fields hnodup _ ih =>
    exact .document fields hnodup fun field hf =>
      ih field hf (holdsLongField_eq_false_iff.1 hlong field hf)

/-- Whether a value holds, at any level, an integer that satisfies a condition. -/
inductive HoldsInteger (int : Int → Prop) : Value → Prop
  | int {n : Int} : int n → HoldsInteger int (.int n)
  | list {items : List Value} {v : Value} : v ∈ items → HoldsInteger int v →
      HoldsInteger int (.list items)
  | tuple {items : List Value} {v : Value} : v ∈ items → HoldsInteger int v →
      HoldsInteger int (.tuple items)
  | document {fields : List (String × Value)} {field : String × Value} : field ∈ fields →
      HoldsInteger int field.2 → HoldsInteger int (.document fields)

/-- An integer of more than 4300 digits. -/
def IsLong (n : Int) : Prop := 10 ^ 4300 ≤ n.natAbs

/-- An integer has too many digits from a power of ten on. -/
theorem holdsLong_int_iff {n : Int} : (Value.int n).holdsLong = true ↔ IsLong n := by
  have hpos : 0 < maxIntegerDigits := by decide
  have hshort : (digits n.natAbs).length ≤ maxIntegerDigits ↔ n.natAbs < 10 ^ maxIntegerDigits :=
    Nat.length_toDigits_le_iff (by decide) hpos
  rw [Value.holdsLong, decide_eq_true_eq, ← Nat.not_le, hshort, Nat.not_lt, IsLong,
    maxIntegerDigits]

theorem holdsLongItem_iff {items : List Value} :
    holdsLongItem items = true ↔ ∃ v ∈ items, v.holdsLong = true := by
  rw [← Bool.not_eq_false, holdsLongItem_eq_false_iff]
  simp

theorem holdsLongField_iff {fields : List (String × Value)} :
    holdsLongField fields = true ↔ ∃ field ∈ fields, field.2.holdsLong = true := by
  rw [← Bool.not_eq_false, holdsLongField_eq_false_iff]
  simp

theorem holdsInteger_of_holdsLong {v : Value} (h : v.holdsLong = true) :
    v.HoldsInteger IsLong := by
  induction hsize : sizeOf v using Nat.strongRecOn generalizing v with
  | ind size ih =>
    subst hsize
    cases v with
    | int n => exact .int (holdsLong_int_iff.1 h)
    | list items =>
      obtain ⟨v, hv, hlong⟩ := holdsLongItem_iff.1 h
      have hsize := List.sizeOf_lt_of_mem hv
      exact .list hv (ih _ (by simp only [list.sizeOf_spec]; omega) hlong rfl)
    | tuple items =>
      obtain ⟨v, hv, hlong⟩ := holdsLongItem_iff.1 h
      have hsize := List.sizeOf_lt_of_mem hv
      exact .tuple hv (ih _ (by simp only [tuple.sizeOf_spec]; omega) hlong rfl)
    | document fields =>
      obtain ⟨⟨name, v⟩, hfield, hlong⟩ := holdsLongField_iff.1 h
      have hsize := List.sizeOf_lt_of_mem hfield
      rw [Prod.mk.sizeOf_spec] at hsize
      exact .document hfield (ih _ (by simp only [document.sizeOf_spec]; omega) hlong rfl)
    | _ => cases h

/-- What keeps a value from being written is an integer of too many digits somewhere in it. -/
theorem holdsLong_iff {v : Value} : v.holdsLong = true ↔ v.HoldsInteger IsLong := by
  refine ⟨holdsInteger_of_holdsLong, fun h => ?_⟩
  induction h with
  | int hn => exact holdsLong_int_iff.2 hn
  | list hv _ ih => exact holdsLongItem_iff.2 ⟨_, hv, ih⟩
  | tuple hv _ ih => exact holdsLongItem_iff.2 ⟨_, hv, ih⟩
  | document hfield _ ih => exact holdsLongField_iff.2 ⟨_, hfield, ih⟩

theorem holdsLong_eq_false_iff {v : Value} : v.holdsLong = false ↔ ¬ v.HoldsInteger IsLong := by
  rw [← holdsLong_iff, Bool.not_eq_true]

/-- The least integer of too many digits. -/
def longInteger : Int := 10 ^ 4300

theorem isLong_longInteger : IsLong longInteger := by
  rw [IsLong, longInteger, Int.natAbs_pow]
  generalize 4300 = k
  exact Nat.le_refl _

theorem holdsLong_longInteger : (Value.int longInteger).holdsLong = true :=
  holdsLong_int_iff.2 isLong_longInteger

/-- Whether a value is null, a boolean, an integer or a text. -/
def isPlain : Value → Bool
  | .null | .bool _ | .int _ | .text _ => true
  | _ => false

theorem IsCellOf.of_isPlain {v : Value} (h : v.isPlain = true) :
    v.IsCellOf (fun _ => True) float := by
  cases v with
  | null => exact .null
  | bool b => exact .bool b
  | int n => exact .int n trivial
  | text s => exact .text s
  | _ => cases h

mutual

/-- Whether a value holds not-a-number at any level. -/
def holdsNan : Value → Bool
  | .float x => x.isNan
  | .list items => holdsNanItem items
  | .document fields => holdsNanField fields
  | _ => false

@[inherit_doc holdsNan]
def holdsNanItem : List Value → Bool
  | [] => false
  | v :: rest => v.holdsNan || holdsNanItem rest

@[inherit_doc holdsNan]
def holdsNanField : List (String × Value) → Bool
  | [] => false
  | (_, v) :: rest => v.holdsNan || holdsNanField rest

end

/-- A list that holds no not-a-number has none in an item. -/
theorem holdsNan_of_mem {items : List Value} (h : holdsNanItem items = false) :
    ∀ v ∈ items, v.holdsNan = false := by
  induction items with
  | nil => exact fun _ hv => nomatch hv
  | cons w rest ih =>
    rw [holdsNanItem, Bool.or_eq_false_iff] at h
    exact List.forall_mem_cons.2 ⟨h.1, ih h.2⟩

@[inherit_doc holdsNan_of_mem]
theorem holdsNan_of_mem_field {fields : List (String × Value)} (h : holdsNanField fields = false) :
    ∀ field ∈ fields, field.2.holdsNan = false := by
  induction fields with
  | nil => exact fun _ hv => nomatch hv
  | cons field rest ih =>
    rw [holdsNanField, Bool.or_eq_false_iff] at h
    exact List.forall_mem_cons.2 ⟨h.1, ih h.2⟩

theorem IsCellOf.isNan_eq_false {v : Value} (h : v.IsComparable) : v.isNan = false := by
  cases h with
  | float x hx => exact hx
  | _ => rfl

/-- A value without not-a-number can be compared with itself. -/
theorem IsCellOf.isComparable {v : Value} (h : v.IsProper) (hnan : v.holdsNan = false) :
    v.IsComparable := by
  induction h with
  | null => exact .null
  | bool b => exact .bool b
  | int n hn => exact .int n hn
  | text s => exact .text s
  | float x _ => exact .float x hnan
  | list items _ ih => exact .list items fun v hv => ih v hv (holdsNan_of_mem hnan v hv)
  | document fields hnodup _ ih =>
    exact .document fields hnodup fun field hf => ih field hf (holdsNan_of_mem_field hnan field hf)

end Value

namespace Json

theorem printItems_eq_map (sorted : Bool) (items : List Value) :
    printItems sorted items = items.map (print sorted) := by
  induction items with
  | nil => rfl
  | cons v rest ih => rw [printItems, ih, List.map_cons]

theorem printFields_eq_map (sorted : Bool) (fields : List (String × Value)) :
    printFields sorted fields = fields.map fun field => (field.1, print sorted field.2) := by
  induction fields with
  | nil => rfl
  | cons field rest ih => rw [printFields, ih, List.map_cons]

end Json

end StagedTable
