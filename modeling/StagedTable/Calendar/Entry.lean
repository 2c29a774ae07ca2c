import StagedTable.Calendar.Iso
import StagedTable.Calendar.Pattern

/-!
# Dates and times as entered

Tolerant reading of dates, times and timestamps: ISO 8601 first, then the customary patterns in
order. Nothing is entered by a blank text or the word null, and what fits no form is refused.
-/

namespace StagedTable.Entry

open Text

/-- Day, month and year with a separator. -/
def dayFirst (c : Char) : Pattern := [.field .day, .sign c, .field .month, .sign c, .field .year]

/-- Month, day and year with slashes. -/
def monthFirst : Pattern := [.field .month, .sign '/', .field .day, .sign '/', .field .year]

/-- Year, month and day with slashes. -/
def yearFirst : Pattern := [.field .year, .sign '/', .field .month, .sign '/', .field .day]

/-- Hours, minutes and seconds of the whole day. -/
def wholeClock : Pattern :=
  [.field .hour24, .sign ':', .field .minute, .sign ':', .field .second]

/-- The customary forms of a date, in the order in which they are tried: a day comes before a
month where both readings are possible. -/
def datePatterns : List Pattern := [dayFirst '/', monthFirst, dayFirst '-', yearFirst]

/-- The customary forms of a time, in the order in which they are tried. -/
def timePatterns : List Pattern := [
  [.field .hour24, .sign ':', .field .minute],
  [.field .hour12, .sign ':', .field .minute, .gap, .field .halfDay],
  [.field .hour12, .sign ':', .field .minute, .sign ':', .field .second, .gap, .field .halfDay]]

/-- The customary forms of a timestamp, in the order in which they are tried. -/
def timestampPatterns : List Pattern :=
  [dayFirst '/', monthFirst, yearFirst].map (· ++ .gap :: wholeClock)

/-- The trimmed text, if something was entered. -/
def entered? (cs : List Char) : Option (List Char) :=
  let cs := trim cs
  if cs = [] ∨ isWord "null".toList cs then none else some cs

/-- The first reading of a text by a list of patterns. -/
def firstReading (patterns : List Pattern) (make : Fields → Option α) (cs : List Char) :
    Option α :=
  patterns.findSome? fun p => (p.read cs).bind make

/-- Reads a trimmed date. A timestamp names a date too. -/
def dateOf? (cs : List Char) : Option Date :=
  Iso.date? cs <|> (Iso.dateTime? cs).map (·.date) <|> firstReading datePatterns Fields.date? cs

/-- Reads a date. -/
def date? (cs : List Char) : Option Date := do dateOf? (← entered? cs)

/-- Reads a time of day. What is below a second is cut off. -/
def time? (cs : List Char) : Option Time := do
  let cs ← entered? cs
  (Iso.leadTime? cs).map (fun t => { t with clock := t.clock.wholeSecond })
    <|> (firstReading timePatterns Fields.clock? cs).map fun clock => ⟨clock, none⟩

/-- Reads a timestamp, with its offset if it has one. A date alone means its midnight. -/
def timestamp? (cs : List Char) : Option DateTime := do
  let cs ← entered? cs
  Iso.dateTime? cs
    <|> firstReading timestampPatterns
      (fun f => do some ⟨← f.date?, ← f.clock?, none⟩) cs
    <|> (dateOf? cs).map .ofDate

end StagedTable.Entry
