import StagedTable.Value

/-!
# Writing JSON

Values as compact JSON text. Characters beyond ASCII stand as they are. A value that JSON has no
form for is written as the text that displays it. Integers are written here at any size; that too
many digits make writing fail is added where a text is asked for.
-/

namespace StagedTable.Json

open Text

/-- A character inside a JSON string: quotes, backslashes and the controls of ASCII are escaped. -/
def escapeChar (c : Char) : List Char :=
  match c with
  | '"' => ['\\', '"']
  | '\\' => ['\\', '\\']
  | '\n' => ['\\', 'n']
  | '\r' => ['\\', 'r']
  | '\t' => ['\\', 't']
  | '\x08' => ['\\', 'b']
  | '\x0c' => ['\\', 'f']
  | c => if c.toNat < 0x20 then '\\' :: 'u' :: hexDigits 4 c.toNat else [c]

/-- A text as a JSON string. -/
def string (cs : List Char) : List Char := '"' :: (cs.flatMap escapeChar ++ ['"'])

/-- A double as JSON, with names for the values that are not finite. -/
def float : Double → List Char
  | .finite x => x.text
  | .infinite false => "Infinity".toList
  | .infinite true => "-Infinity".toList
  | .nan _ => "NaN".toList

/-- A boolean as JSON. -/
def bool (b : Bool) : List Char := if b then "true".toList else "false".toList

/-- Written items between brackets, with commas. -/
def bracketed (items : List (List Char)) : List Char :=
  '[' :: (List.intercalate [','] items ++ [']'])

/-- Written fields between braces, with commas, each name before its value. -/
def braced (fields : List (String × List Char)) : List Char :=
  '{' :: (List.intercalate [','] (fields.map fun (name, text) => string name.toList ++ ':' :: text)
    ++ ['}'])

/-- Named things in the order of the code points of their names. -/
def sortedByName (fields : List (String × α)) : List (String × α) :=
  fields.mergeSort fun a b => !decide (b.1 < a.1)

mutual

/-- A value as JSON, the fields of documents sorted by name at every level if asked for. -/
def print (sorted : Bool) : Value → List Char
  | .null => "null".toList
  | .bool b => bool b
  | .int n => signedDigits n
  | .float x => float x
  | .text s => string s.toList
  | .list items | .tuple items => bracketed (printItems sorted items)
  | .document fields =>
    let printed := printFields sorted fields
    braced (if sorted then sortedByName printed else printed)
  | .foreign x => string x.display

/-- The items of a list as JSON. -/
def printItems (sorted : Bool) : List Value → List (List Char)
  | [] => []
  | v :: rest => print sorted v :: printItems sorted rest

/-- The fields of a document with their values as JSON. -/
def printFields (sorted : Bool) : List (String × Value) → List (String × List Char)
  | [] => []
  | (name, v) :: rest => (name, print sorted v) :: printFields sorted rest

end

/-- What keeps a value from being written: the class of a driver value that JSON has no form for, or
an integer of too many digits. -/
inductive Fault
  | noForm (typeName : String)
  | tooManyDigits
deriving DecidableEq

mutual

/-- The first fault in a value, in the order in which it is written. -/
def firstFault? : Value → Option Fault
  | .int n => if (Value.int n).holdsLong then some .tooManyDigits else none
  | .list items | .tuple items => firstFaultyItem? items
  | .document fields => firstFaultyField? fields
  | .foreign x => some (.noForm x.typeName)
  | _ => none

@[inherit_doc firstFault?]
def firstFaultyItem? : List Value → Option Fault
  | [] => none
  | v :: rest => firstFault? v <|> firstFaultyItem? rest

@[inherit_doc firstFault?]
def firstFaultyField? : List (String × Value) → Option Fault
  | [] => none
  | (_, v) :: rest => firstFault? v <|> firstFaultyField? rest

end

end StagedTable.Json

namespace StagedTable

/-- The compact JSON text of a value, as far as its integers can be written (`Value.toJson`). -/
def Value.json (v : Value) : List Char := Json.print false v

/-- The compact JSON text of a value with the fields of all documents sorted by name. -/
def Value.sortedJson (v : Value) : List Char := Json.print true v

end StagedTable
