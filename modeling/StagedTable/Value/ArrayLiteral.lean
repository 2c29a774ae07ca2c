import StagedTable.Text.Blank
import StagedTable.Value.Display
import StagedTable.Value.Json.Printer
import StagedTable.Value.Json.Reader

/-!
# Array literals

The text form of one-dimensional arrays in PostgreSQL: elements between braces, separated by commas,
each bare or in double quotes with backslash escapes. Writing quotes exactly the elements that would
not read back bare; reading also takes a JSON array or a list of values. JSON may be nested too deep
for its reader, and the items of an array for the writer of their texts.
-/

namespace StagedTable

open Text

/-- A value that cannot be written, for lack of a form for one of its parts or because an integer has
too many digits, or cannot be taken apart into items, as it has none or is a JSON text that is
refused. -/
inductive RenderError
  | noLiteral (typeName : String)
  | noJson (typeName : String)
  | noItems
  | tooManyDigits
  | refused (r : Json.Refusal)
deriving DecidableEq

namespace RenderError

/-- The wording of an error; only a missing literal has one of its own. -/
def message? : RenderError → Option String
  | .noLiteral typeName => some ("Cannot render " ++ typeName ++ " as a SQL literal")
  | .noJson _ | .noItems | .tooManyDigits | .refused _ => none

/-- The error that a fault leads to. -/
def ofFault : Json.Fault → RenderError
  | .noForm typeName => .noJson typeName
  | .tooManyDigits => .tooManyDigits

end RenderError

namespace Value

/-- Writes a value in some form, which fails if an integer in it has too many digits. -/
def write (form : Value → List Char) (v : Value) : Except RenderError (List Char) :=
  if v.holdsLong then .error .tooManyDigits else .ok (form v)

/-- The compact JSON text of a value. -/
def toJson (v : Value) : Except RenderError (List Char) := v.write json

/-- The text of an array element: lists and documents are written as JSON, which must have a form
for all that is in them. -/
def elementText (v : Value) : Except RenderError (List Char) :=
  match v with
  | .list _ | .document _ =>
    match Json.firstFault? v with
    | some fault => .error (.ofFault fault)
    | none => .ok v.json
  | v => v.write display

end Value

namespace ArrayLiteral

/-- Characters that an element may hold in quotes only. -/
def isSpecial (c : Char) : Bool :=
  c == ',' || c == '"' || c == '\\' || c == '{' || c == '}' || isBlank c

/-- Whether a text is the word that stands for a missing element, in any letter case. -/
def isNullWord (cs : List Char) : Bool := isWord "null".toList cs

/-- Whether an element must be quoted: when it is empty, looks like a missing element or holds a
special character. -/
def needsQuotes (cs : List Char) : Bool := cs.isEmpty || isNullWord cs || cs.any isSpecial

/-- Puts a backslash before each backslash and each quote. -/
def escape (cs : List Char) : List Char :=
  cs.flatMap fun c => if c == '\\' || c == '"' then ['\\', c] else [c]

/-- An element as it is written in a literal. -/
def element (cs : List Char) : List Char :=
  if needsQuotes cs then '"' :: (escape cs ++ ['"']) else cs

/-- A value as it is written in a literal; null is the bare word. -/
def valueElement (v : Value) : Except RenderError (List Char) :=
  match v with
  | .null => .ok "NULL".toList
  | v => v.elementText.map element

/-- The literal of a list of written elements. -/
def braced (elements : List (List Char)) : List Char :=
  '{' :: (List.intercalate [','] elements ++ ['}'])

/-- The array literal of a list of values. -/
def encode (items : List Value) : Except RenderError (List Char) :=
  (items.mapM valueElement).map braced

/-- The element being read: its characters so far, last one first, and whether the reading is inside
quotes, behind a backslash, or has passed a quote. -/
structure Element where
  reversed : List Char
  inQuotes : Bool
  escaped : Bool
  quoted : Bool

/-- No element read yet. -/
def Element.fresh : Element := ⟨[], false, false, false⟩

/-- The text of an element that has ended. One without quotes is trimmed, and the word for a missing
element stands for the empty text. -/
def Element.finish (e : Element) : List Char :=
  let cs := e.reversed.reverse
  if e.quoted then cs
  else
    let cs := trim cs
    if isNullWord cs then [] else cs

/-- The element after one more character of it. -/
def Element.step (e : Element) (c : Char) : Element :=
  if e.escaped then { e with reversed := c :: e.reversed, escaped := false }
  else if c = '\\' then { e with escaped := true }
  else if c = '"' then { e with inQuotes := !e.inQuotes, quoted := true }
  else { e with reversed := c :: e.reversed }

/-- Splits the inside of a literal at the commas that are neither quoted nor escaped. -/
def elements (e : Element) : List Char → List (List Char)
  | [] => [e.finish]
  | c :: rest =>
    if c = ',' ∧ ¬ e.escaped ∧ ¬ e.inQuotes then e.finish :: elements .fresh rest
    else elements (e.step c) rest

/-- The inside of a text that stands between braces; any other text stays as it is. -/
def unbraced (cs : List Char) : List Char :=
  match cs with
  | '{' :: rest => if rest.getLast? = some '}' then rest.dropLast else cs
  | cs => cs

/-- The elements of a trimmed literal; the braces may be missing. -/
def decodeLiteral (cs : List Char) : List (List Char) :=
  let inside := unbraced cs
  if allBlank inside then [] else elements .fresh inside

/-- How deep JSON may be nested where it is read, and where the items of what was read are written. -/
structure Depths where
  reading : Nat
  writing : Nat

/-- The elements of a JSON array, if the text is one. -/
def jsonItems? (limit : Option Nat) (cs : List Char) : Except Json.Refusal (Option (List Value)) :=
  match cs with
  | '[' :: _ =>
    match Json.load limit cs with
    | .error r => .error r
    | .ok (some (.list items)) => .ok (some items)
    | .ok _ => .ok none
  | _ => .ok none

/-- The texts of the items of a list. -/
def itemTexts (items : List Value) : Except RenderError (List (List Char)) :=
  items.mapM Value.elementText

/-- Whether an item is nested too deep to be written. -/
def anyTooDeep (depths : Option Depths) (items : List Value) : Bool :=
  depths.any fun d => items.any fun v => decide (d.writing < v.nesting)

/-- The elements of a text: a JSON array or an array literal. -/
def decodeText (depths : Option Depths) (cs : List Char) : Except Json.Refusal (List (List Char)) :=
  let cs := trim cs
  match jsonItems? (depths.map (·.reading)) cs with
  | .error r => .error r
  | .ok none => .ok (decodeLiteral cs)
  | .ok (some items) =>
    if anyTooDeep depths items then .error .tooDeep
    else
      match itemTexts items with
      | .ok texts => .ok texts
      | .error _ => .ok []

/-- The elements of a value: null has none, a list gives the texts of its items, a text is read as a
JSON array or an array literal, a document gives its field names and binary data its bytes. Any
other value has no items. -/
def decode (v : Value) : Except RenderError (List (List Char)) :=
  match v with
  | .null => .ok []
  | .text s => (decodeText none s.toList).mapError .refused
  | .list items | .tuple items => itemTexts items
  | .document fields => .ok (fields.map (·.1.toList))
  | .foreign (.binary _ data) => .ok (data.map fun b => digits b.toNat)
  | _ => .error .noItems

end ArrayLiteral

end StagedTable
