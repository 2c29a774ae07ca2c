import StagedTable.Calendar.Time
import StagedTable.Text.Visible
import StagedTable.Number.Double.Shortest
import StagedTable.Number.Decimal
import StagedTable.Assoc

/-!
# Values

The values that a table cell may hold, and beside them the values that a database driver hands over
before they are decoded. A *cell value* is built from null, booleans, integers, doubles, texts,
lists and documents only; `IsCell` says so.

Two notions of equality are defined here. `equal` compares numbers across kinds, a boolean counting
as zero or one; `same` tells a boolean from a number. Both hold a document equal to one with the
same fields in another order, and neither holds not-a-number equal to anything. Inside lists and
documents, however, an object is taken for equal to itself before it is compared (`equalInside`), so
that a list with not-a-number is equal to itself.
-/

namespace StagedTable

open Text

/-- The classes of binary data that a driver distinguishes. -/
inductive BinaryClass
  | bytes
  | byteArray
  | memory
deriving DecidableEq

/-- A driver value that is no cell value and holds no further values. -/
inductive Foreign
  | binary (cls : BinaryClass) (data : List UInt8)
  | date (d : Date)
  | time (t : Time)
  | dateTime (d : DateTime)
  | decimal (text : String)
  | uuid (text : String)
  | other (text : String)
deriving DecidableEq

/-- A value as a table cell or a driver may hold it. Documents keep the order of their fields. -/
inductive Value
  | null
  | bool (b : Bool)
  | int (n : Int)
  | float (x : Double)
  | text (s : String)
  | list (items : List Value)
  | document (fields : List (String × Value))
  | tuple (items : List Value)
  | foreign (x : Foreign)

namespace Foreign

/-- The name of the class of a driver value. -/
def typeName : Foreign → String
  | .binary .bytes _ => "bytes"
  | .binary .byteArray _ => "bytearray"
  | .binary .memory _ => "memoryview"
  | .date _ => "date"
  | .time _ => "time"
  | .dateTime _ => "datetime"
  | .decimal _ => "Decimal"
  | .uuid _ => "UUID"
  | .other _ => "object"

/-- Binary data in hexadecimal digits, two to a byte. -/
def hexData (data : List UInt8) : List Char := data.flatMap fun b => hexDigits 2 b.toNat

/-- One byte of binary data as it is displayed between quotes of the given kind. -/
def displayByte (quote : Char) (b : UInt8) : List Char :=
  if b.toNat < 0x80 then displayChar quote (Char.ofNat b.toNat) else hexEscape b.toNat

/-- Binary data as it is displayed. In a byte array single quotes are escaped whatever the quote. -/
def displayData (cls : BinaryClass) (data : List UInt8) : List Char :=
  let quote := displayQuote (data.map fun b => Char.ofNat b.toNat)
  let escaped := if cls = .byteArray then '\'' else quote
  'b' :: quote :: (data.flatMap (displayByte escaped) ++ [quote])

/-- The text by which a driver value is displayed. A view of memory is no literal of its bytes; its
text only tells it from views with other bytes. -/
def display : Foreign → List Char
  | .binary .byteArray data => "bytearray(".toList ++ displayData .byteArray data ++ [')']
  | .binary .memory data => "<memory at 0x".toList ++ hexData data ++ ['>']
  | .binary cls data => displayData cls data
  | .date d => d.text
  | .time t => t.text
  | .dateTime d => d.textWith ' '
  | .decimal s => s.toList
  | .uuid s => s.toList.map asciiLower
  | .other s => s.toList

/-- Times are equal if both lack an offset and show the same clock, or both have one and are equally
far from midnight UTC. Of an offset whole seconds count only, so that the fractions of the clocks
are compared as they are shown. -/
def sameTime (a b : Time) : Bool :=
  match a.offset, b.offset with
  | none, none => a.clock == b.clock
  | some o, some p =>
    (a.clock.seconds : Int) - o.wholeSeconds == (b.clock.seconds : Int) - p.wholeSeconds
      && a.clock.micro == b.clock.micro
  | _, _ => false

/-- Equality of driver values that are no numbers: binary data by its bytes, instants by their
distance. An object of unknown class equals none but itself, so no other value. -/
def equal : Foreign → Foreign → Bool
  | .binary _ a, .binary _ b => a == b
  | .date a, .date b => a == b
  | .time a, .time b => sameTime a b
  | .dateTime a, .dateTime b =>
    a.time.offset.isSome == b.time.offset.isSome && a.instant == b.instant
  | .uuid a, .uuid b => a.toList.map asciiLower == b.toList.map asciiLower
  | _, _ => false

end Foreign

/-- A number of a kind that can be compared with the others. -/
inductive Number
  | int (n : Int)
  | float (x : Double)
  | decimal (d : Decimal)

namespace Number

/-- The magnitude of a finite number, behind whether it is negative. -/
def scaled? : Number → Option (Bool × Scaled)
  | .int n => some (decide (n < 0), ⟨n.natAbs, 0⟩)
  | .float (.finite x) => some (x.negative, x.expansion)
  | .decimal (.finite negative coefficient exponent) => some (negative, ⟨coefficient, exponent⟩)
  | _ => none

/-- The signed coefficient and the exponent of a finite number in reduced form. -/
def lowest? (x : Number) : Option (Int × Int) :=
  x.scaled?.map fun (negative, d) =>
    let r := d.reduced
    (if negative then -(r.coefficient : Int) else r.coefficient, r.exponent)

/-- The sign of an infinite number. -/
def infinite? : Number → Option Bool
  | .float (.infinite negative) | .decimal (.infinite negative) => some negative
  | _ => none

/-- Equality of numbers across kinds, exact at any size: finite numbers are equal if their reduced
forms are. -/
def equal : Number → Number → Bool
  | .int m, .int n => m == n
  | .int n, .float x | .float x, .int n => x.sameInt n
  | .float x, .float y => x.same y
  | a, b =>
    match a.lowest?, b.lowest? with
    | some x, some y => x == y
    | _, _ => a.infinite?.isSome && a.infinite? == b.infinite?

end Number

namespace Value

/-- The number that a value counts as: booleans are zero or one. -/
def number? : Value → Option Number
  | .bool b => some (.int (if b then 1 else 0))
  | .int n => some (.int n)
  | .float x => some (.float x)
  | .foreign (.decimal s) => some (.decimal (.ofText s.toList))
  | _ => none

/-- Whether a value is not a number. -/
def isNan : Value → Bool
  | .float x => x.isNan
  | _ => false

/-- Whether two values are one object that is not equal to itself: the same not-a-number. -/
def sameNan : Value → Value → Bool
  | .float (.nan i), .float (.nan j) => i == j
  | _, _ => false

mutual

/-- Equality of values. Numbers are compared across kinds, lists item by item and documents field
by field in any order. -/
def equal : Value → Value → Bool
  | .null, .null => true
  | .text a, .text b => a == b
  | .list a, .list b => equalItems a b
  | .tuple a, .tuple b => equalItems a b
  | .document a, .document b => a.length == b.length && equalFields a b
  | a, b =>
    match a.number?, b.number? with
    | some x, some y => x.equal y
    | _, _ =>
      match a, b with
      | .foreign x, .foreign y => x.equal y
      | _, _ => false

/-- Equality of lists, item by item; an object is equal to itself. -/
def equalItems : List Value → List Value → Bool
  | [], [] => true
  | a :: as, b :: bs => (a.sameNan b || a.equal b) && equalItems as bs
  | _, _ => false

/-- Whether the fields of one document are found with equal values in another; an object is equal to
itself. -/
def equalFields : List (String × Value) → List (String × Value) → Bool
  | [], _ => true
  | (name, a) :: rest, fields =>
    (match Assoc.get? name fields with
      | some b => a.sameNan b || a.equal b
      | none => false) && equalFields rest fields

end

/-- Equality as it holds between what lists and documents have inside: an object is equal to
itself. -/
def equalInside (a b : Value) : Bool := a.sameNan b || a.equal b

/-- Strict equality: a boolean is the same as an equal boolean only. -/
def same : Value → Value → Bool
  | .bool a, .bool b => a == b
  | .bool _, _ => false
  | _, .bool _ => false
  | a, b => a.equal b

mutual

/-- Whether a value holds, at any level, an integer of more digits than are written. -/
def holdsLong : Value → Bool
  | .int n => decide (maxIntegerDigits < (digits n.natAbs).length)
  | .list items | .tuple items => holdsLongItem items
  | .document fields => holdsLongField fields
  | _ => false

@[inherit_doc holdsLong]
def holdsLongItem : List Value → Bool
  | [] => false
  | v :: rest => v.holdsLong || holdsLongItem rest

@[inherit_doc holdsLong]
def holdsLongField : List (String × Value) → Bool
  | [] => false
  | (_, v) :: rest => v.holdsLong || holdsLongField rest

end

mutual

/-- How many levels of lists and documents a value has. -/
def nesting : Value → Nat
  | .list items | .tuple items => itemsNesting items + 1
  | .document fields => fieldsNesting fields + 1
  | _ => 0

/-- The most levels that an item has. -/
def itemsNesting : List Value → Nat
  | [] => 0
  | v :: rest => max v.nesting (itemsNesting rest)

/-- The most levels that the value of a field has. -/
def fieldsNesting : List (String × Value) → Nat
  | [] => 0
  | (_, v) :: rest => max v.nesting (fieldsNesting rest)

end

mutual

/-- Whether a value is a cell value at every level. -/
def isCell : Value → Bool
  | .null | .bool _ | .int _ | .float _ | .text _ => true
  | .list items => areCells items
  | .document fields => holdsCells fields
  | .tuple _ | .foreign _ => false

@[inherit_doc isCell]
def areCells : List Value → Bool
  | [] => true
  | v :: rest => v.isCell && areCells rest

@[inherit_doc isCell]
def holdsCells : List (String × Value) → Bool
  | [] => true
  | (_, v) :: rest => v.isCell && holdsCells rest

end

/-- A cell value: null, booleans, integers, doubles, texts, lists and documents at every level. -/
def IsCell (v : Value) : Prop := v.isCell = true

instance (v : Value) : Decidable v.IsCell := inferInstanceAs (Decidable (v.isCell = true))

/-- The name of the class of a value that is no cell value. -/
def foreignName? : Value → Option String
  | .tuple _ => some "tuple"
  | .foreign x => some x.typeName
  | _ => none

/-- Whether a value counts as false: null, false, zero, and the empty text, list or document. -/
def isFalsy : Value → Bool
  | .null | .bool false => true
  | .int n => n == 0
  | .float x => x.isZero
  | .text s => s == ""
  | .list items | .tuple items => items.isEmpty
  | .document fields => fields.isEmpty
  | .foreign (.binary _ data) => data.isEmpty
  | .foreign (.decimal s) => (Decimal.ofText s.toList).isZero
  | _ => false

end Value

end StagedTable
