import StagedTable.Value

/-!
# Reading JSON

JSON texts as values. Beyond the standard, the names of the doubles that are not finite are read.
A repeated field name keeps its first place and takes its last value. Integers are exact, up to a
limit on their digits. There may be a limit on how deep lists and documents are nested: reading stops
at the bracket that is nested too deep, whatever follows it.

A string may hold half of a surrogate pair as an escape. The standard allows for it, but what it
stands for is no Unicode text, so no value has a form for it. Such texts are told from texts that are
no JSON: a text is read twice (`load`), with a replacement character for each half and then without
any.
-/

namespace StagedTable

open Text

namespace Json

/-- Why a text is not read to its end: it is no JSON, or has an integer of too many digits, or it is
nested too deep. -/
inductive ReadFault
  | malformed
  | tooDeep

/-- Why a text is neither taken for JSON nor for something else: it is nested too deep, or it stands
for a value with a string that is no Unicode text. -/
inductive Refusal
  | tooDeep
  | unpaired
deriving DecidableEq

/-- The four white space characters of JSON. -/
def isSpace (c : Char) : Bool := c == ' ' || c == '\t' || c == '\n' || c == '\r'

/-- Drops white space at the start. -/
def skipSpace (cs : List Char) : List Char := cs.dropWhile isSpace

/-- The number that four hexadecimal digits stand for. -/
def hex4? (a b c d : Char) : Option Nat := do
  some (((← hexValue? a) * 16 + (← hexValue? b)) * 256 + (← hexValue? c) * 16 + (← hexValue? d))

/-- The character that a letter stands for after a backslash. -/
def unescape? : Char → Option Char
  | '"' => some '"'
  | '\\' => some '\\'
  | '/' => some '/'
  | 'b' => some '\x08'
  | 'f' => some '\x0c'
  | 'n' => some '\n'
  | 'r' => some '\r'
  | 't' => some '\t'
  | _ => none

/-- The character that two halves of a surrogate pair stand for. -/
def surrogatePair? (high low : Nat) : Option Char :=
  if 0xD800 ≤ high ∧ high < 0xDC00 ∧ 0xDC00 ≤ low ∧ low < 0xE000 then
    some (Char.ofNat (0x10000 + (high - 0xD800) * 0x400 + (low - 0xDC00)))
  else none

/-- The code units of a character in UTF-16: one, or the two halves of a surrogate pair. -/
def codeUnits (c : Char) : List Nat :=
  if c.toNat < 0x10000 then [c.toNat]
  else [0xD800 + (c.toNat - 0x10000) / 0x400, 0xDC00 + (c.toNat - 0x10000) % 0x400]

/-- The character that a code unit stands for alone. Half of a surrogate pair stands for none of its
own, and has the one that is given for it. -/
def unitChar? (half : Option Char) (unit : Nat) : Option Char :=
  if unit < 0xD800 ∨ 0xE000 ≤ unit then some (Char.ofNat unit) else half

/-- The text of some code units, with the given character for each half that is not one of a
pair. -/
def ofUnits? (half : Option Char) : List Nat → Option (List Char)
  | [] => some []
  | [u] => (unitChar? half u).map ([·])
  | u :: v :: rest =>
    match surrogatePair? u v with
    | some c => (ofUnits? half rest).map (c :: ·)
    | none => (unitChar? half u).bind fun c => (ofUnits? half (v :: rest)).map (c :: ·)

/-- Puts code units before those that were read. -/
def consUnits (us : List Nat) (r : Option (List Nat × List Char)) : Option (List Nat × List Char) :=
  r.map fun (units, rest) => (us ++ units, rest)

/-- Reads the code units of a string, its opening quote being behind. Controls must be escaped. -/
def readUnits : List Char → Option (List Nat × List Char)
  | [] => none
  | '"' :: rest => some ([], rest)
  | '\\' :: 'u' :: a :: b :: c :: d :: rest =>
    match hex4? a b c d with
    | none => none
    | some n => consUnits [n] (readUnits rest)
  | '\\' :: e :: rest =>
    match unescape? e with
    | some c => consUnits [c.toNat] (readUnits rest)
    | none => none
  | c :: rest => if c.toNat < 0x20 then none else consUnits (codeUnits c) (readUnits rest)

/-- The character that stands in the place of half of a surrogate pair. -/
def replacement : Char := Char.ofNat 0xFFFD

/-- Reads a string, its opening quote being behind. A surrogate must be one of a pair, unless there
is a character for half of one. -/
def readString (half : Option Char) (cs : List Char) : Option (List Char × List Char) :=
  (readUnits cs).bind fun (us, rest) => (ofUnits? half us).map (·, rest)

/-- Reads the digits of an integer without needless leading zeros. -/
def readWhole (cs : List Char) : Option (List Char × List Char) :=
  match cs with
  | '0' :: rest => some (['0'], rest)
  | cs =>
    match digitRun cs with
    | ([], _) => none
    | run => some run

/-- The digits of a fraction, if the text starts with a whole one. -/
def readFraction? : List Char → Option (List Char × List Char)
  | '.' :: rest =>
    match digitRun rest with
    | ([], _) => none
    | run => some run
  | _ => none

/-- Takes a minus off the start of a text. -/
def readMinus : List Char → Bool × List Char
  | '-' :: rest => (true, rest)
  | cs => (false, cs)

/-- Reads a number: an integer unless it has a fraction or an exponent. -/
def readNumber (cs : List Char) : Option (Value × List Char) := do
  let (negative, cs) := readMinus cs
  let (whole, cs) ← readWhole cs
  let (fraction, afterFraction) := (readFraction? cs).getD ([], cs)
  match fraction, Numeral.readExponent? afterFraction with
  | [], none => some (.int (← integerOfDigits? negative whole), cs)
  | fraction, exponent? =>
    let (exponent, rest) := exponent?.getD (0, afterFraction)
    some (.float (Numeral.mk negative whole fraction exponent).toDouble, rest)

/-- The one object that is read for not-a-number. -/
def notANumber : Double := .nan 0

/-- The names that stand for values. -/
def namedValues : List (List Char × Value) := [
  ("null".toList, .null), ("true".toList, .bool true), ("false".toList, .bool false),
  ("NaN".toList, .float notANumber), ("Infinity".toList, .float (.infinite false)),
  ("-Infinity".toList, .float (.infinite true))]

/-- Reads the name of a value. -/
def readName (cs : List Char) : Option (Value × List Char) :=
  namedValues.findSome? fun (name, v) =>
    if name.isPrefixOf cs then some (v, cs.drop name.length) else none

/-- Reads a field name, its opening quote and the colon after it. -/
def readFieldName (half : Option Char) : List Char → Option (String × List Char)
  | '"' :: rest =>
    match readString half rest with
    | none => none
    | some (name, rest) =>
      match skipSpace rest with
      | ':' :: rest => some (String.ofList name, skipSpace rest)
      | _ => none
  | _ => none

/-- Reads a value that holds no others. -/
def readLeaf (half : Option Char) : List Char → Option (Value × List Char)
  | '"' :: rest => (readString half rest).map fun (text, rest) => (.text (String.ofList text), rest)
  | cs => readName cs <|> readNumber cs

/-- What a limit on nesting leaves inside one more list or document, if that is not nested too
deep. -/
def inside? : Option Nat → Option (Option Nat)
  | none => some none
  | some 0 => none
  | some (n + 1) => some (some n)

/-- What was read, or else the fault that the text is no JSON. -/
def orMalformed {α : Type} (r : Option α) : Except ReadFault α := r.elim (.error .malformed) .ok

@[simp] theorem orMalformed_none {α : Type} :
    orMalformed (none : Option α) = .error .malformed := rfl

@[simp] theorem orMalformed_some {α : Type} (x : α) : orMalformed (some x) = .ok x := rfl

mutual

/-- Reads a value at the start of a text. Each value takes one unit of fuel for itself and one for
its place among others, so twice the length of the text is always enough. -/
def readValue (half : Option Char) : Nat → Option Nat → List Char →
    Except ReadFault (Value × List Char)
  | 0, _, _ => .error .malformed
  | fuel + 1, limit, cs =>
    match cs with
    | '[' :: rest =>
      match inside? limit with
      | none => .error .tooDeep
      | some inner =>
        match skipSpace rest with
        | ']' :: rest => .ok (.list [], rest)
        | rest => (readItems half fuel inner rest).map fun (items, rest) => (.list items, rest)
    | '{' :: rest =>
      match inside? limit with
      | none => .error .tooDeep
      | some inner =>
        match skipSpace rest with
        | '}' :: rest => .ok (.document [], rest)
        | rest =>
          (readFields half fuel inner rest).map fun (fields, rest) =>
            (.document (Assoc.putAll [] fields), rest)
    | cs => orMalformed (readLeaf half cs)

/-- Reads the items of a list up to the closing bracket. -/
def readItems (half : Option Char) : Nat → Option Nat → List Char →
    Except ReadFault (List Value × List Char)
  | 0, _, _ => .error .malformed
  | fuel + 1, limit, cs =>
    match readValue half fuel limit cs with
    | .error fault => .error fault
    | .ok (v, rest) =>
      match skipSpace rest with
      | ',' :: rest =>
        (readItems half fuel limit (skipSpace rest)).map fun (vs, rest) => (v :: vs, rest)
      | ']' :: rest => .ok ([v], rest)
      | _ => .error .malformed

/-- Reads the fields of a document up to the closing brace. -/
def readFields (half : Option Char) : Nat → Option Nat → List Char →
    Except ReadFault (List (String × Value) × List Char)
  | 0, _, _ => .error .malformed
  | fuel + 1, limit, cs =>
    match readFieldName half cs with
    | none => .error .malformed
    | some (name, rest) =>
      match readValue half fuel limit rest with
      | .error fault => .error fault
      | .ok (v, rest) =>
        match skipSpace rest with
        | ',' :: rest =>
          (readFields half fuel limit (skipSpace rest)).map fun (fs, rest) => ((name, v) :: fs, rest)
        | '}' :: rest => .ok ([(name, v)], rest)
        | _ => .error .malformed

end

/-- Reads a text that holds one value, white space around it aside. -/
def readText (half : Option Char) (limit : Option Nat) (cs : List Char) : Except ReadFault Value :=
  match readValue half (2 * cs.length + 1) limit (skipSpace cs) with
  | .error fault => .error fault
  | .ok (v, rest) => if skipSpace rest = [] then .ok v else .error .malformed

/-- The value of a JSON text that is nested at most to a limit; other texts have none. If a text is
read only with replacements, a half in it is unpaired. -/
def load (limit : Option Nat) (cs : List Char) : Except Refusal (Option Value) :=
  match readText (some replacement) limit cs with
  | .error .malformed => .ok none
  | .error .tooDeep => .error .tooDeep
  | .ok _ =>
    match readText none none cs with
    | .ok v => .ok (some v)
    | .error _ => .error .unpaired

/-- The value of a JSON text, nested as it may be. -/
def read (cs : List Char) : Option Value := (load none cs).toOption.join

end Json

end StagedTable
