import StagedTable.Value

/-!
# Configuration texts

A reader for TOML documents of tables, integers, booleans and basic strings. A document is read line
by line: a header opens a table, a line with a key puts a value into the open table, and nothing is
declared or set twice. Of the faults of a text the first is reported.
-/

namespace StagedTable.ConfigText

open Text

/-- A key is a path of names. -/
abbrev Path := List String

/-- Why a text is no document: it breaks the rules of the format, or holds an integer of too many
decimal digits. -/
inductive Fault
  | malformed
  | tooManyDigits
deriving DecidableEq

/-- Something that a well-formed text has. -/
def orMalformed : Option α → Except Fault α
  | some a => .ok a
  | none => .error .malformed

/-- Spaces and tabs. -/
def isGap (c : Char) : Bool := c == ' ' || c == '\t'

/-- Drops spaces and tabs at the start. -/
def skipGap (cs : List Char) : List Char := cs.dropWhile isGap

/-- The characters of a bare name. -/
def isBare (c : Char) : Bool :=
  isDigit c || ('a' ≤ c && c ≤ 'z') || ('A' ≤ c && c ≤ 'Z') || c == '_' || c == '-'

/-- The controls that may stand nowhere: all of ASCII but the tab. -/
def isIllegal (c : Char) : Bool := (c.toNat < 0x20 && c != '\t') || c.toNat == 0x7F

/-- The character of a code point, if it is one. -/
def scalar? (n : Nat) : Option Char :=
  if n < 0xD800 ∨ (0xE000 ≤ n ∧ n < 0x110000) then some (Char.ofNat n) else none

/-- The number that hexadecimal digits stand for. -/
def ofHex? (ds : List Char) : Option Nat :=
  ds.foldlM (fun n c => (hexValue? c).map (16 * n + ·)) 0

/-- Puts a character before a text that was read. -/
def consChar (c : Char) (r : Option (List Char × List Char)) : Option (List Char × List Char) :=
  r.map fun (text, rest) => (c :: text, rest)

/-- The character that a letter stands for after a backslash. -/
def unescape? : Char → Option Char
  | 'b' => some '\x08'
  | 't' => some '\t'
  | 'n' => some '\n'
  | 'f' => some '\x0c'
  | 'r' => some '\r'
  | '"' => some '"'
  | '\\' => some '\\'
  | _ => none

/-- Reads a basic string, its opening quote being behind. -/
def readString : List Char → Option (List Char × List Char)
  | [] => none
  | '"' :: rest => some ([], rest)
  | '\\' :: 'u' :: a :: b :: c :: d :: rest =>
    match (ofHex? [a, b, c, d]).bind scalar? with
    | some x => consChar x (readString rest)
    | none => none
  | '\\' :: 'U' :: a :: b :: c :: d :: e :: f :: g :: h :: rest =>
    match (ofHex? [a, b, c, d, e, f, g, h]).bind scalar? with
    | some x => consChar x (readString rest)
    | none => none
  | '\\' :: e :: rest =>
    match unescape? e with
    | some x => consChar x (readString rest)
    | none => none
  | c :: rest => if isIllegal c then none else consChar c (readString rest)

/-- Reads a literal string, its opening quote being behind. -/
def readLiteral : List Char → Option (List Char × List Char)
  | [] => none
  | '\'' :: rest => some ([], rest)
  | c :: rest => if isIllegal c then none else consChar c (readLiteral rest)

/-- Reads one name of a key. -/
def readName (cs : List Char) : Option (String × List Char) :=
  match cs with
  | '"' :: rest => (readString rest).map fun (text, rest) => (String.ofList text, rest)
  | '\'' :: rest => (readLiteral rest).map fun (text, rest) => (String.ofList text, rest)
  | cs =>
    match cs.takeWhile isBare with
    | [] => none
    | name => some (String.ofList name, cs.dropWhile isBare)

/-- Reads a key: names separated by points. The fuel bounds the number of names. -/
def readPath : Nat → List Char → Option (Path × List Char)
  | 0, _ => none
  | fuel + 1, cs =>
    match readName cs with
    | none => none
    | some (name, rest) =>
      match skipGap rest with
      | '.' :: rest => (readPath fuel (skipGap rest)).map fun (path, rest) => (name :: path, rest)
      | rest => some ([name], rest)

/-- Reads digits that may be separated by single underscores. -/
def readSpacedDigits (isMember : Char → Bool) : List Char → List Char × List Char
  | '_' :: c :: rest =>
    if isMember c then
      let (ds, rest) := readSpacedDigits isMember rest
      (c :: ds, rest)
    else ([], '_' :: c :: rest)
  | c :: rest =>
    if isMember c then
      let (ds, rest) := readSpacedDigits isMember rest
      (c :: ds, rest)
    else ([], c :: rest)
  | [] => ([], [])

/-- Reads digits of which the first is not an underscore. -/
def readDigits (isMember : Char → Bool) (cs : List Char) : Option (List Char × List Char) :=
  match cs with
  | c :: rest =>
    if isMember c then
      let (ds, rest) := readSpacedDigits isMember rest
      some (c :: ds, rest)
    else none
  | [] => none

/-- The number that digits of a base stand for. -/
def ofBase (base : Nat) (ds : List Char) : Nat :=
  ds.foldl (fun n c => base * n + (hexValue? c).getD 0) 0

/-- Reads digits of the given base. -/
def readBased (base : Nat) (cs : List Char) : Option (Value × List Char) :=
  (readDigits (fun c => (hexValue? c).any (· < base)) cs).map fun (ds, rest) =>
    (.int (ofBase base ds), rest)

/-- Reads a decimal integer without needless leading zeros. -/
def readDecimal (cs : List Char) : Except Fault (Value × List Char) :=
  let (negative, cs) := Numeral.readSign cs
  match cs with
  | '0' :: rest => .ok (.int 0, rest)
  | cs =>
    match readDigits isDigit cs with
    | none => .error .malformed
    | some (ds, rest) =>
      match integerOfDigits? negative ds with
      | some n => .ok (.int n, rest)
      | none => .error .tooManyDigits

/-- A text that was read, as a value. -/
def textValue (r : Option (List Char × List Char)) : Except Fault (Value × List Char) :=
  orMalformed (r.map fun (text, rest) => (.text (String.ofList text), rest))

/-- Reads a value. -/
def readValue (cs : List Char) : Except Fault (Value × List Char) :=
  match cs with
  | '"' :: rest => textValue (readString rest)
  | '\'' :: rest => textValue (readLiteral rest)
  | 't' :: 'r' :: 'u' :: 'e' :: rest => .ok (.bool true, rest)
  | 'f' :: 'a' :: 'l' :: 's' :: 'e' :: rest => .ok (.bool false, rest)
  | '0' :: 'x' :: rest => orMalformed (readBased 16 rest)
  | '0' :: 'o' :: rest => orMalformed (readBased 8 rest)
  | '0' :: 'b' :: rest => orMalformed (readBased 2 rest)
  | cs => readDecimal cs

/-- Whether nothing is left of a line but a comment. -/
def endsLine (cs : List Char) : Bool :=
  match skipGap cs with
  | [] => true
  | '#' :: rest => !rest.any isIllegal
  | _ => false

/-- A line of a document. -/
inductive Line
  | empty
  | header (path : Path)
  | setting (path : Path) (value : Value)

/-- Something that was read up to the end of its line. -/
def wholeLine (result : α) (rest : List Char) : Except Fault α :=
  if endsLine rest then .ok result else .error .malformed

/-- Reads a line. -/
def readLine (line : List Char) : Except Fault Line :=
  match skipGap line with
  | '[' :: rest =>
    match readPath rest.length (skipGap rest) with
    | some (path, ']' :: rest) => wholeLine (.header path) rest
    | _ => .error .malformed
  | cs =>
    if endsLine cs then .ok .empty
    else
      match readPath cs.length cs with
      | some (path, '=' :: rest) => do
        let (value, rest) ← readValue (skipGap rest)
        wholeLine (.setting path value) rest
      | _ => .error .malformed

/-- Changes the table at a path, making the tables on the way that do not exist; a value that is no
table is in the way. -/
def atTable (f : List (String × Value) → Option (List (String × Value))) :
    Path → List (String × Value) → Option (List (String × Value))
  | [], fields => f fields
  | name :: path, fields =>
    match Assoc.get? name fields with
    | none => (atTable f path []).map fun t => Assoc.put name (.document t) fields
    | some (.document t) =>
      (atTable f path t).map fun t => Assoc.put name (.document t) fields
    | some _ => none

/-- The document read so far: its fields, the open table, the tables that may not be declared again,
and those that will join them when the next table is opened. -/
structure Reading where
  fields : List (String × Value)
  table : Path
  declared : List Path
  pending : List Path

/-- The document after one more line. -/
def Reading.step (r : Reading) : Line → Option Reading
  | .empty => some r
  | .header path =>
    let declared := r.declared ++ r.pending
    if path ∈ declared then none
    else (atTable some path r.fields).map fun fields => ⟨fields, path, path :: declared, []⟩
  | .setting path value =>
    let tables := (List.range' 1 (path.length - 1)).map fun n => r.table ++ path.take n
    if tables.any (· ∈ r.declared) then none
    else
      let name := path.getLastD ""
      let set (fields : List (String × Value)) : Option (List (String × Value)) :=
        if (Assoc.get? name fields).isSome then none else some (Assoc.put name value fields)
      (atTable set (r.table ++ path.dropLast) r.fields).map fun fields =>
        { r with fields := fields, pending := r.pending ++ tables }

/-- Splits a text into lines. -/
def lines : List Char → List (List Char)
  | [] => [[]]
  | '\r' :: '\n' :: rest => [] :: lines rest
  | c :: rest =>
    if c = '\n' then [] :: lines rest
    else
      match lines rest with
      | line :: more => (c :: line) :: more
      | [] => [[c]]

/-- Nothing read yet. -/
def Reading.start : Reading := ⟨[], [], [], []⟩

/-- The document after one more line of text. -/
def Reading.readLine (r : Reading) (line : List Char) : Except Fault Reading := do
  orMalformed (r.step (← ConfigText.readLine line))

/-- Reads a document. -/
def read (cs : List Char) : Except Fault (List (String × Value)) := do
  return (← (lines cs).foldlM Reading.readLine Reading.start).fields

end StagedTable.ConfigText
