import StagedTable.Value
import StagedTable.Value.Json.Printer

/-!
# Displayed values

The text by which a value is displayed when it stands alone, and the form that it has inside a
displayed list, tuple or document, where texts are in quotes and instants name their class.
-/

namespace StagedTable

open Text

/-- The name of a class, and its arguments between parentheses. -/
def construction (className : String) (arguments : List (List Char)) : List Char :=
  className.toList ++ '(' :: (List.intercalate ", ".toList arguments ++ [')'])

namespace Offset

/-- A named part of a distance, if it is not zero. -/
def part (name : String) (n : Int) : List (List Char) :=
  if n = 0 then [] else [name.toList ++ '=' :: signedDigits n]

/-- The offset as it is displayed inside a composite. An offset to the west is a day back and a
positive rest. -/
def nested (o : Offset) : List Char :=
  if o.micros = 0 then "datetime.timezone.utc".toList
  else
    let days := Int.fdiv o.micros microsPerDay
    let rest := Int.fmod o.micros microsPerDay
    construction "datetime.timezone" [construction "datetime.timedelta"
      (part "days" days ++ part "seconds" (Int.fdiv rest microsPerSecond)
        ++ part "microseconds" (Int.fmod rest microsPerSecond))]

end Offset

/-- The arguments that make up a time: hours and minutes always, seconds and microseconds up to the
last that is not zero. -/
def TimeOfDay.arguments (t : TimeOfDay) : List Nat :=
  [t.hour, t.minute]
    ++ (if t.micro = 0 ∧ t.second = 0 then [] else [t.second])
    ++ (if t.micro = 0 then [] else [t.micro])

/-- The argument that names the offset of a time, if there is one. -/
def offsetArgument : Option Offset → List (List Char)
  | some o => ["tzinfo=".toList ++ o.nested]
  | none => []

/-- The arguments that make up a date. -/
def Date.arguments (d : Date) : List Nat := [d.year, d.month, d.day]

/-- A driver value as it is displayed inside a composite. -/
def Foreign.nested : Foreign → List Char
  | .date d => construction "datetime.date" (d.arguments.map digits)
  | .time t =>
    construction "datetime.time" (t.clock.arguments.map digits ++ offsetArgument t.offset)
  | .dateTime d =>
    construction "datetime.datetime"
      ((d.date.arguments ++ d.time.clock.arguments).map digits ++ offsetArgument d.time.offset)
  | .decimal s => construction "Decimal" [displayText s.toList]
  | .uuid s => construction "UUID" [displayText (s.toList.map asciiLower)]
  | x => x.display

namespace Value

mutual

/-- A value as it is displayed inside a composite. -/
def nested : Value → List Char
  | .null => "None".toList
  | .bool b => if b then "True".toList else "False".toList
  | .int n => signedDigits n
  | .float x => x.text
  | .text s => displayText s.toList
  | .foreign x => x.nested
  | .list items => '[' :: (List.intercalate ", ".toList (nestedItems items) ++ [']'])
  | .tuple [v] => '(' :: (v.nested ++ [',', ')'])
  | .tuple items => '(' :: (List.intercalate ", ".toList (nestedItems items) ++ [')'])
  | .document fields => '{' :: (List.intercalate ", ".toList (nestedFields fields) ++ ['}'])

@[inherit_doc nested]
def nestedItems : List Value → List (List Char)
  | [] => []
  | v :: rest => v.nested :: nestedItems rest

@[inherit_doc nested]
def nestedFields : List (String × Value) → List (List Char)
  | [] => []
  | (name, v) :: rest => (displayText name.toList ++ ':' :: ' ' :: v.nested) :: nestedFields rest

end

/-- The text by which a value is displayed when it stands alone: a text is itself, null is empty,
and a boolean is its JSON word. -/
def display : Value → List Char
  | .null => []
  | .bool b => Json.bool b
  | .text s => s.toList
  | .foreign x => x.display
  | v => v.nested

end Value

end StagedTable
