import StagedTable.Calendar.Time

/-!
# Reading ISO 8601 texts

Dates in the basic and the extended form, as month and day or as week and weekday; times with
optional minutes, seconds, fraction and offset; and a date and a time with any one character
between them. A NUL character counts as the end of the text.
-/

namespace StagedTable.Iso

open Text

/-- The number that two digits at the start of a text stand for. -/
def readPair : List Char → Option (Nat × List Char)
  | a :: b :: rest => if isDigit a && isDigit b then some (ofDigits [a, b], rest) else none
  | _ => none

/-- The year that four digits at the start of a text stand for. -/
def readYear (cs : List Char) : Option (Nat × List Char) := do
  let (century, cs) ← readPair cs
  let (year, cs) ← readPair cs
  some (100 * century + year, cs)

/-- The weekday that ends a week date; it is the first one when left out. What follows the digit of
the weekday is not looked at. -/
def readWeekday (hyphens : Bool) (cs : List Char) : Option Nat :=
  match cs with
  | [] => some 1
  | c :: rest =>
    let digit := if hyphens then (if c = '-' then rest.head? else none) else some c
    match digit with
    | some d => if isDigit d then some (ofDigits [d]) else none
    | none => none

/-- What follows a hyphen at the start of a text. -/
def afterHyphen? : List Char → Option (List Char)
  | '-' :: rest => some rest
  | _ => none

/-- The length of a text in bytes. -/
def byteLength (cs : List Char) : Nat := cs.foldl (fun n c => n + c.utf8Size) 0

/-- A date in a text that holds just the date, in 7, 8 or 10 bytes. The parts are separated by
hyphens throughout or not at all; without hyphens the last two of ten bytes are not looked at. -/
def date? (cs : List Char) : Option Date := do
  guard (byteLength cs = 7 ∨ byteLength cs = 8 ∨ byteLength cs = 10)
  let (year, cs) ← readYear cs
  let (hyphens, cs) := match cs with
    | '-' :: rest => (true, rest)
    | cs => (false, cs)
  match cs with
  | 'W' :: cs => do
    let (week, cs) ← readPair cs
    Date.ofIsoWeek? year week (← readWeekday hyphens cs)
  | cs => do
    let (month, cs) ← readPair cs
    let cs ← if hyphens then afterHyphen? cs else some cs
    let (day, _) ← readPair cs
    Date.ofParts? year month day

/-- The fields of a clock reading. `stray` tells that something was left over, which only an offset
that follows can excuse. -/
structure Reading where
  hour : Nat
  minute : Nat
  second : Nat
  micro : Nat
  stray : Bool

/-- What comes after a field of a clock reading: the end, with or without one stray character, a
further field or the fraction. -/
inductive Continuation
  | finished (stray : Bool)
  | field (rest : List Char)
  | fraction (rest : List Char)

/-- Decides how a clock reading goes on after a field. With colons, every further field is led in
by one; without, the next field follows at once. A point or a comma leads in the fraction. One last
ASCII character of any kind is stray. -/
def continuation? (colons : Bool) : List Char → Option Continuation
  | [] => some (.finished false)
  | [c] => if c.toNat < 0x80 then some (.finished (c.toNat != 0)) else none
  | c :: rest =>
    if colons && c == ':' then some (.field rest)
    else if c == '.' || c == ',' then some (.fraction rest)
    else if colons then none
    else some (.field (c :: rest))

/-- The microseconds of a fraction of one digit or more; digits beyond the sixth are cut off. -/
def readFraction (cs : List Char) : Option (Nat × Bool) :=
  let ds := cs.take 6
  if ds ≠ [] ∧ ds.all isDigit then
    let stray := match (cs.drop 6).dropWhile isDigit with
      | [] => false
      | c :: _ => c.toNat != 0
    some (ofDigits ds * Nat.pow 10 (6 - ds.length), stray)
  else none

/-- Reads a clock: hours, then minutes, then seconds, then a fraction, each but the first optional.
A fraction may follow any field; it always counts as a fraction of a second. -/
def readClock (cs : List Char) : Option Reading := do
  let (hour, cs) ← readPair cs
  let colons := cs.head? == some ':'
  match ← continuation? colons cs with
  | .finished stray => some ⟨hour, 0, 0, 0, stray⟩
  | .fraction cs =>
    let (micro, stray) ← readFraction cs
    some ⟨hour, 0, 0, micro, stray⟩
  | .field cs =>
    let (minute, cs) ← readPair cs
    match ← continuation? colons cs with
    | .finished stray => some ⟨hour, minute, 0, 0, stray⟩
    | .fraction cs =>
      let (micro, stray) ← readFraction cs
      some ⟨hour, minute, 0, micro, stray⟩
    | .field cs =>
      let (second, cs) ← readPair cs
      match ← continuation? colons cs with
      | .finished stray => some ⟨hour, minute, second, 0, stray⟩
      | .fraction cs | .field cs =>
        let (micro, stray) ← readFraction cs
        some ⟨hour, minute, second, micro, stray⟩

/-- The offset that a clock reading stands for. An offset of no whole second is zero. -/
def Reading.offset? (r : Reading) (negative : Bool) : Option Offset :=
  let seconds := (r.hour * 60 + r.minute) * 60 + r.second
  if seconds = 0 then some .utc
  else
    let micros : Int := seconds * microsPerSecond + r.micro
    Offset.ofMicros? (if negative then -micros else micros)

/-- Whether a character leads in an offset. -/
def startsOffset (c : Char) : Bool := c == '+' || c == '-' || c == 'Z'

/-- A time in a text that holds just the time. -/
def time? (cs : List Char) : Option Time := do
  let reading ← readClock (cs.takeWhile (!startsOffset ·))
  let clock := TimeOfDay.ofParts? reading.hour reading.minute reading.second reading.micro
  match cs.dropWhile (!startsOffset ·) with
  | [] => if reading.stray then none else some ⟨← clock, none⟩
  | 'Z' :: rest =>
    if rest.head?.all (·.toNat == 0) then some ⟨← clock, some .utc⟩ else none
  | sign :: rest =>
    let o ← readClock rest
    if o.stray then none else some ⟨← clock, some (← o.offset? (sign == '-'))⟩

/-- A time that may be led in by a `T`. -/
def leadTime? : List Char → Option Time
  | 'T' :: rest => time? rest
  | cs => time? cs

/-- How many characters of a date-time make up the date. The fifth and sixth character tell the
forms apart; a compact week date has a weekday if an even number of digits follows the week. -/
def dateLength (cs : List Char) : Nat :=
  if cs.length = 7 then 7
  else if cs[4]? = some '-' then
    if cs[5]? = some 'W' then
      if cs[8]? = some '-' ∧ ¬ (cs[10]?.any isDigit) then 10 else 8
    else 10
  else if cs[4]? = some 'W' then
    let n := 7 + ((cs.drop 7).takeWhile isDigit).length
    if n < 9 then n else if n % 2 = 0 then 7 else 8
  else 8

/-- A date-time: a date alone stands for its midnight; else one character of any kind separates
the date from the time. -/
def dateTime? (cs : List Char) : Option DateTime := do
  let n := dateLength cs
  let date ← date? (cs.take n)
  match cs.drop n with
  | [] => some (.ofDate date)
  | _ :: rest => some ⟨date, ← time? rest⟩

end StagedTable.Iso
