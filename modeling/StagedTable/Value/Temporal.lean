import StagedTable.Calendar.Entry
import StagedTable.Column
import StagedTable.Value.Text

/-!
# Temporal texts

One canonical text for each date, time and timestamp that can be entered, so that two spellings of
the same moment count as the same content. A time keeps neither its fraction nor its offset.
-/

namespace StagedTable

/-- The canonical text of what is entered for a data type, if it can be read. A text for a type that
is not temporal is canonical as it is. -/
def canonical? (dataType : String) (cs : List Char) : Option (List Char) :=
  match Kind.ofType dataType with
  | .date => (Entry.date? cs).map (·.text)
  | .time => (Entry.time? cs).map (·.clock.secondsText)
  | .timestamp => (Entry.timestamp? cs).map (·.text)
  | _ => some cs

namespace Column

/-- A value as its canonical text, if it has one. -/
def canonical (c : Column) (v : Value) : Value :=
  match canonical? c.dataType v.plainText with
  | some cs => .text (String.ofList cs)
  | none => v

/-- Whether two values count as the same content of the column, as far as their texts can be written.
In a temporal column the canonical texts of values are compared. -/
def alike (c : Column) (a b : Value) : Bool :=
  match c.kind.isTemporal, a, b with
  | false, a, b | _, .null, b | _, a, .null => a.alike b
  | true, a, b => (c.canonical a).alike (c.canonical b)

/-- Compares the content of two values of the column. In a temporal column the texts of both are
written, whatever they are. -/
def compare (c : Column) (a b : Value) : Except RenderError Bool :=
  match c.kind.isTemporal, a, b with
  | false, a, b | _, .null, b | _, a, .null => a.compare b
  | true, a, b =>
    if a.holdsLong || b.holdsLong then .error .tooManyDigits
    else (c.canonical a).compare (c.canonical b)

/-- The value that a text stands for when it is entered in the column: in a temporal column the
canonical text if there is one, so that what cannot be read is left to the server to reject. -/
def entered (c : Column) (text : String) : Except Value.ParseError Value :=
  match Value.parse text c.dataType with
  | .ok (.text s) => .ok (if c.kind.isTemporal then c.canonical (.text s) else .text s)
  | result => result

end Column

end StagedTable
