import StagedTable.Calendar.Date

/-!
# Times of day

Times of day down to the microsecond, the offset from UTC that a time may carry, and date-times,
with their ISO 8601 texts.
-/

namespace StagedTable

open Text

/-- A second in microseconds. -/
def microsPerSecond : Nat := 1000000

/-- A day in microseconds. -/
def microsPerDay : Nat := 86400 * microsPerSecond

/-- A time of day. -/
structure TimeOfDay where
  hour : Nat
  minute : Nat
  second : Nat
  micro : Nat
  hour_lt : hour < 24
  minute_lt : minute < 60
  second_lt : second < 60
  micro_lt : micro < microsPerSecond
deriving DecidableEq

/-- A distance from UTC of less than a day, in microseconds; east is positive. -/
structure Offset where
  micros : Int
  lt_day : micros.natAbs < microsPerDay
deriving DecidableEq

/-- A time of day with or without an offset from UTC. -/
structure Time where
  clock : TimeOfDay
  offset : Option Offset
deriving DecidableEq

/-- A date with a time of day, with or without an offset from UTC. -/
structure DateTime where
  date : Date
  time : Time
deriving DecidableEq

namespace TimeOfDay

/-- The time of day of the given parts, if there is one. -/
def ofParts? (hour minute second micro : Nat) : Option TimeOfDay :=
  if h : (hour < 24 ∧ minute < 60) ∧ second < 60 ∧ micro < microsPerSecond then
    some ⟨hour, minute, second, micro, h.1.1, h.1.2, h.2.1, h.2.2⟩
  else none

/-- The parts of a time of day make up that time. -/
@[simp] theorem ofParts?_self (t : TimeOfDay) :
    ofParts? t.hour t.minute t.second t.micro = some t := by
  simp [ofParts?, t.hour_lt, t.minute_lt, t.second_lt, t.micro_lt]

/-- The start of the day. -/
def midnight : TimeOfDay := ⟨0, 0, 0, 0, by decide, by decide, by decide, by decide⟩

/-- The time with what is below a second cut off. -/
def wholeSecond (t : TimeOfDay) : TimeOfDay := { t with micro := 0, micro_lt := by decide }

/-- The whole seconds since midnight. -/
def seconds (t : TimeOfDay) : Nat := (t.hour * 60 + t.minute) * 60 + t.second

/-- The microseconds since midnight. -/
def micros (t : TimeOfDay) : Nat := t.seconds * microsPerSecond + t.micro

end TimeOfDay

/-- A fraction of a second, in six digits behind a point, or nothing when it is zero. -/
def fractionText (micro : Nat) : List Char :=
  if micro = 0 then [] else '.' :: paddedDigits 6 micro

/-- Hours, minutes and seconds, in two digits each. -/
def TimeOfDay.secondsText (t : TimeOfDay) : List Char :=
  paddedDigits 2 t.hour ++ ':' :: paddedDigits 2 t.minute ++ ':' :: paddedDigits 2 t.second

/-- The ISO 8601 text: a fraction is written only if there is one, in six digits. -/
def TimeOfDay.text (t : TimeOfDay) : List Char := t.secondsText ++ fractionText t.micro

namespace Offset

/-- The zero offset. -/
def utc : Offset := ⟨0, by decide⟩

/-- The offset of so many microseconds, if it is less than a day. -/
def ofMicros? (micros : Int) : Option Offset :=
  if h : micros.natAbs < microsPerDay then some ⟨micros, h⟩ else none

/-- The offset in seconds, rounded to the west. -/
def wholeSeconds (o : Offset) : Int := Int.fdiv o.micros microsPerSecond

/-- The ISO 8601 text: sign, hours and minutes; seconds only if there are any below the minute,
and a fraction of them only if there is one. -/
def text (o : Offset) : List Char :=
  let n := o.micros.natAbs
  let micro := n % microsPerSecond
  let seconds := n / microsPerSecond
  let sign := if o.micros < 0 then '-' else '+'
  sign :: (paddedDigits 2 (seconds / 3600) ++ ':' :: paddedDigits 2 (seconds / 60 % 60)
    ++ (if seconds % 60 = 0 ∧ micro = 0 then []
      else ':' :: paddedDigits 2 (seconds % 60) ++ fractionText micro))

end Offset

/-- The ISO 8601 text: the time of day and the offset, if there is one. -/
def Time.text (t : Time) : List Char :=
  t.clock.text ++ (match t.offset with
    | some o => o.text
    | none => [])

namespace DateTime

/-- The text with a separator between date and time. -/
def textWith (separator : Char) (d : DateTime) : List Char :=
  d.date.text ++ separator :: d.time.text

/-- The ISO 8601 text, with a `T` between date and time. -/
def text (d : DateTime) : List Char := d.textWith 'T'

/-- The microseconds since the start of the year 1, the offset taken off. -/
def instant (d : DateTime) : Int :=
  (d.date.dayNumber * microsPerDay + d.time.clock.micros : Nat)
    - (match d.time.offset with
      | some o => o.micros
      | none => 0)

/-- Midnight of a date. -/
def ofDate (d : Date) : DateTime := ⟨d, ⟨.midnight, none⟩⟩

end DateTime

end StagedTable
