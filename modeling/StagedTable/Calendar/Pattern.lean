import StagedTable.Calendar.Time
import StagedTable.Text.Blank
import StagedTable.Text.Letter

/-!
# Date and time patterns

Patterns for dates and times as people write them: a list of fields, separators and gaps. A field
has several spellings, tried in order; a text is read by the first way in which the pattern fits
its start, and is refused if that way leaves something over.
-/

namespace StagedTable

open Text

/-- A field of a pattern. -/
inductive Field
  | day
  | month
  | year
  | hour24
  | hour12
  | minute
  | second
  | halfDay
deriving DecidableEq

/-- A piece of a pattern: a field, one given character, or a gap of one blank or more. -/
inductive Piece
  | field (f : Field)
  | sign (c : Char)
  | gap

/-- A pattern is fitted piece by piece from the start of a text. -/
abbrev Pattern := List Piece

/-- A range of ASCII digits. -/
def digitFrom (first last : Char) (c : Char) : Bool := first ≤ c && c ≤ last

/-- The spellings of a field, each as the classes of its characters, the preferred ones first. Where
a field may hold any digit, the digits of all scripts count; the digits that bound its range are
those of ASCII. -/
def Field.spellings : Field → List (List (Char → Bool))
  | .day => [[(· == '3'), digitFrom '0' '1'], [digitFrom '1' '2', isScriptDigit],
      [(· == '0'), digitFrom '1' '9'], [digitFrom '1' '9'], [(· == ' '), digitFrom '1' '9']]
  | .month => [[(· == '1'), digitFrom '0' '2'], [(· == '0'), digitFrom '1' '9'],
      [digitFrom '1' '9']]
  | .year => [[isScriptDigit, isScriptDigit, isScriptDigit, isScriptDigit]]
  | .hour24 => [[(· == '2'), digitFrom '0' '3'], [digitFrom '0' '1', isScriptDigit],
      [isScriptDigit]]
  | .hour12 => [[(· == '1'), digitFrom '0' '2'], [(· == '0'), digitFrom '1' '9'],
      [digitFrom '1' '9']]
  | .minute => [[digitFrom '0' '5', isScriptDigit], [isScriptDigit]]
  | .second => [[(· == '6'), digitFrom '0' '1'], [digitFrom '0' '5', isScriptDigit],
      [isScriptDigit]]
  | .halfDay => [[fun c => asciiLower c == 'a', fun c => asciiLower c == 'm'],
      [fun c => asciiLower c == 'p', fun c => asciiLower c == 'm']]

/-- Fits a list of character classes to the start of a text. -/
def fitClasses : List (Char → Bool) → List Char → Option (List Char × List Char)
  | [], cs => some ([], cs)
  | p :: ps, c :: cs =>
    if p c then (fitClasses ps cs).map fun (text, rest) => (c :: text, rest) else none
  | _ :: _, [] => none

/-- The ways to leave a gap behind, the longest gap first. -/
def gapEnds : List Char → List (List Char)
  | c :: rest => if isBlank c then gapEnds rest ++ [rest] else []
  | [] => []

/-- Fits a pattern to the start of a text by the first way that succeeds. Yields the texts of the
fields and what follows. -/
def fitPattern : Pattern → List Char → Option (List (Field × List Char) × List Char)
  | [], cs => some ([], cs)
  | .field f :: rest, cs =>
    f.spellings.findSome? fun spelling =>
      match fitClasses spelling cs with
      | some (text, cs) => (fitPattern rest cs).map fun (fields, cs) => ((f, text) :: fields, cs)
      | none => none
  | .sign c :: rest, d :: cs => if c = d then fitPattern rest cs else none
  | .sign _ :: _, [] => none
  | .gap :: rest, cs => (gapEnds cs).findSome? (fitPattern rest)

/-- The texts of the fields of a pattern. -/
abbrev Fields := List (Field × List Char)

/-- Fits a pattern to a whole text. -/
def Pattern.read (p : Pattern) (cs : List Char) : Option Fields :=
  match fitPattern p cs with
  | some (fields, []) => some fields
  | _ => none

namespace Fields

/-- The number in a field, or `other` if the pattern has no such field. -/
def number (fields : Fields) (f : Field) (other : Nat) : Nat :=
  match fields.find? (·.1 == f) with
  | some (_, text) => ofScriptDigits text
  | none => other

/-- The hour: on the twelve-hour clock, twelve stands for the start of its half of the day. -/
def hour (fields : Fields) : Nat :=
  match fields.find? (·.1 == .halfDay) with
  | some (_, text) =>
    let h := fields.number .hour12 0 % 12
    if isWord "pm".toList text then h + 12 else h
  | none => fields.number .hour24 0

/-- The date that the fields make up. -/
def date? (fields : Fields) : Option Date :=
  Date.ofParts? (fields.number .year 1900) (fields.number .month 1) (fields.number .day 1)

/-- The time of day that the fields make up. -/
def clock? (fields : Fields) : Option TimeOfDay :=
  TimeOfDay.ofParts? fields.hour (fields.number .minute 0) (fields.number .second 0) 0

end Fields

end StagedTable
