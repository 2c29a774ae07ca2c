import StagedTable.Column.Kind
import StagedTable.Value.ArrayLiteral
import StagedTable.Settings

/-!
# Cell texts

The editable text of a value and the value that an edited text stands for, the preview of a value,
and the comparison by which an edit is told from a repetition.
-/

namespace StagedTable

open Text

/-- A text cut to a length, with a mark of the cut. A negative length counts from the end. -/
def truncate (length : Int) (cs : List Char) : List Char :=
  if (cs.length : Int) ≤ length then cs
  else
    let kept := if 0 ≤ length then length.toNat else cs.length - length.natAbs
    cs.take kept ++ Settings.default.display.ellipsis.toList

/-- The length at which shown texts are cut. -/
def truncateLength : Int := Settings.default.display.truncateLength

/-- The kind of an optional data type: without one, values are texts. -/
def Kind.ofType? (dataType : Option String) : Kind := (dataType.map Kind.ofType).getD .text

namespace Value

/-- The editable text of a value that is no array, as far as its integers can be written: null is
empty, lists and documents are JSON. -/
def plainText : Value → List Char
  | .list items => (Value.list items).json
  | .document fields => (Value.document fields).json
  | v => v.display

/-- The editable text of a value of a data type: lists in an array column are array literals. -/
def format (dataType : Option String) (v : Value) : Except RenderError (List Char) :=
  match v, Kind.ofType? dataType with
  | .list items, .array => ArrayLiteral.encode items
  | v, _ => v.write plainText

/-- The editable text, cut to the display length. -/
def formatCut (dataType : Option String) (v : Value) : Except RenderError (List Char) :=
  (v.format dataType).map (truncate truncateLength)

/-- Whether a value is too large to be edited in place. -/
def isLarge (dataType : Option String) (v : Value) : Except RenderError Bool :=
  match v with
  | .null => .ok false
  | v => (v.format dataType).map fun cs =>
    decide (Settings.default.display.largeValueThreshold < cs.length)

/-- The inline preview of a cell. -/
structure Preview where
  text : List Char
  large : Bool

/-- The preview of a value: its cut text, and whether it needs the full editor. -/
def preview (dataType : Option String) (v : Value) : Except RenderError Preview := do
  return ⟨← v.formatCut dataType, ← v.isLarge dataType⟩

/-- Why a text is given no value: the integer that it starts with has too many digits, or it is a
JSON text that is refused. -/
inductive ParseError
  | tooManyDigits
  | refused (r : Json.Refusal)
deriving DecidableEq

/-- The integer that a text starts with, white space aside; a text that starts with none stands for
itself. -/
def parseInteger (cs : List Char) : Except ParseError Value :=
  let (negative, rest) := Numeral.readSign (cs.dropWhile isAsciiBlank)
  match digitRun rest with
  | ([], _) => .ok (.text (String.ofList cs))
  | (ds, _) =>
    match integerOfDigits? negative ds with
    | some n => .ok (.int n)
    | none => .error .tooManyDigits

/-- The double that a text starts with, white space aside; a text that starts with none, or with one
that is too large, stands for itself. -/
def parseFloat (cs : List Char) : Value :=
  match Numeral.read (cs.dropWhile isAsciiBlank) with
  | some (n, _) =>
    match n.toDouble with
    | .finite x => .float (.finite x)
    | _ => .text (String.ofList cs)
  | none => .text (String.ofList cs)

/-- The value of a JSON text; any other text stands for itself. -/
def parseJson (depths : Option ArrayLiteral.Depths) (cs : List Char) : Except ParseError Value :=
  match Json.load (depths.map (·.reading)) cs with
  | .error r => .error (.refused r)
  | .ok read => .ok (read.getD (.text (String.ofList cs)))

/-- The list of some texts. -/
def listOfTexts (texts : List (List Char)) : Value :=
  .list (texts.map fun cs => .text (String.ofList cs))

/-- The list of the elements of an array text. -/
def parseArray (depths : Option ArrayLiteral.Depths) (cs : List Char) : Except ParseError Value :=
  match ArrayLiteral.decodeText depths cs with
  | .error r => .error (.refused r)
  | .ok texts => .ok (listOfTexts texts)

/-- The value that an edited text stands for in a column of a data type, with JSON nested as deep as
it may be. The empty text and the word null stand for null, whatever the type. -/
def parseWithin (depths : Option ArrayLiteral.Depths) (text dataType : String) :
    Except ParseError Value :=
  let cs := text.toList
  if cs = [] ∨ isWord "null".toList cs then .ok .null
  else
    match Kind.ofType dataType with
    | .integer => parseInteger cs
    | .float => .ok (parseFloat cs)
    | .boolean => .ok (.bool (isWord "true".toList cs))
    | .json => parseJson depths cs
    | .array => parseArray depths cs
    | .date | .time | .timestamp | .text => .ok (.text text)

/-- The value that an edited text stands for, however deep its JSON is nested. -/
def parse (text dataType : String) : Except ParseError Value := parseWithin none text dataType

/-- Whether a value is written as JSON. -/
def isJson : Value → Bool
  | .list _ | .document _ => true
  | _ => false

/-- Whether a value is a boolean. -/
def isBool : Value → Bool
  | .bool _ => true
  | _ => false

/-- Whether two values count as the same content when an edit is looked for, as far as their texts
can be written (`compare`). Null is alike to null only. Lists and documents are compared by their
JSON with sorted fields, or by their plain JSON with a text. All else is alike if it is equal, a
boolean being equal to booleans only, or if it has the same text. -/
def alike (a b : Value) : Bool :=
  match a, b with
  | .null, .null => true
  | .null, _ | _, .null => false
  | a, b =>
    if a.isJson && b.isJson then a.sortedJson == b.sortedJson
    else
      match a, b with
      | .list items, .text s => (Value.list items).json == s.toList
      | .document fields, .text s => (Value.document fields).json == s.toList
      | .text s, .list items => s.toList == (Value.list items).json
      | .text s, .document fields => s.toList == (Value.document fields).json
      | a, b => (a.isBool == b.isBool && a.equal b) || a.plainText == b.plainText

/-- Whether the comparison of two values comes to their texts: unless one is null, it does for lists
and documents, and for other values that are not equal. -/
def comparesTexts (a b : Value) : Bool :=
  match a, b with
  | .null, _ | _, .null => false
  | a, b => a.isJson || b.isJson || !(a.isBool == b.isBool && a.equal b)

/-- Compares the content of two values, which fails if it comes to a text that cannot be written. -/
def compare (a b : Value) : Except RenderError Bool :=
  if a.comparesTexts b && (a.holdsLong || b.holdsLong) then .error .tooManyDigits
  else .ok (a.alike b)

end Value

end StagedTable
