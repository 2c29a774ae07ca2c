import StagedTable.Text.Digit

/-!
# Calendar dates

Dates of the Gregorian calendar in the years 1 to 9999, also by the day of the year and by ISO
week, and their ISO 8601 text.
-/

namespace StagedTable

open Text

/-- Whether February has 29 days. -/
def isLeapYear (year : Nat) : Bool :=
  year % 4 == 0 && (year % 100 != 0 || year % 400 == 0)

/-- The number of days of a month of a year; a month beyond the twelfth has none. -/
def daysInMonth (year month : Nat) : Nat :=
  match month with
  | 1 | 3 | 5 | 7 | 8 | 10 | 12 => 31
  | 4 | 6 | 9 | 11 => 30
  | 2 => if isLeapYear year then 29 else 28
  | _ => 0

/-- The number of days of a year. -/
def daysInYear (year : Nat) : Nat := if isLeapYear year then 366 else 365

/-- A calendar date. -/
structure Date where
  year : Nat
  month : Nat
  day : Nat
  year_pos : 1 ≤ year
  year_le : year ≤ 9999
  day_pos : 1 ≤ day
  day_le : day ≤ daysInMonth year month
deriving DecidableEq

namespace Date

/-- The date of the given parts, if there is one. -/
def ofParts? (year month day : Nat) : Option Date :=
  if h : (1 ≤ year ∧ year ≤ 9999) ∧ 1 ≤ day ∧ day ≤ daysInMonth year month then
    some ⟨year, month, day, h.1.1, h.1.2, h.2.1, h.2.2⟩
  else none

/-- The parts of a date make up that date. -/
@[simp] theorem ofParts?_self (d : Date) : ofParts? d.year d.month d.day = some d := by
  simp [ofParts?, d.year_pos, d.year_le, d.day_pos, d.day_le]

/-- A month is one of the twelve, since every other has no days. -/
theorem month_le (d : Date) : 1 ≤ d.month ∧ d.month ≤ 12 := by
  have h := Nat.le_trans d.day_pos d.day_le
  unfold daysInMonth at h
  split at h <;> simp_all

/-- The date of the `n`th day counted from the first of `month`, the count running on into the
following months of the year; `months` are left before the year ends. -/
def fromMonth? (year month n : Nat) : Nat → Option Date
  | 0 => none
  | months + 1 =>
    let size := daysInMonth year month
    if n ≤ size then ofParts? year month n else fromMonth? year (month + 1) (n - size) months

/-- The date of the `n`th day of a year. A count below one reaches into the year before, one beyond
the end into the year after. -/
def ofYearDay? (year : Nat) (n : Int) : Option Date :=
  if n < 1 then fromMonth? (year - 1) 1 (n + daysInYear (year - 1)).toNat 12
  else if (daysInYear year : Int) < n then fromMonth? (year + 1) 1 (n - daysInYear year).toNat 12
  else fromMonth? year 1 n.toNat 12

/-- The weekday of the first of January, counted from Monday as zero. -/
def firstWeekday (year : Nat) : Nat :=
  let y := year - 1
  (365 * y + y / 4 - y / 100 + y / 400) % 7

/-- The number of ISO weeks of a year: 53 when it starts on a Thursday, or on a Wednesday as a leap
year. -/
def isoWeeks (year : Nat) : Nat :=
  if firstWeekday year = 3 ∨ (firstWeekday year = 2 ∧ isLeapYear year) then 53 else 52

/-- The date of a weekday, Monday being the first, of an ISO week. The first week is the one that
holds the fourth of January. -/
def ofIsoWeek? (year week weekday : Nat) : Option Date :=
  if 1 ≤ year ∧ 1 ≤ week ∧ week ≤ isoWeeks year ∧ 1 ≤ weekday ∧ weekday ≤ 7 then
    let first := firstWeekday year
    let monday : Int := if first ≤ 3 then 1 - first else 8 - first
    ofYearDay? year (monday + 7 * (week - 1) + (weekday - 1))
  else none

/-- The number of days before the date since the first day of the year 1. -/
def dayNumber (d : Date) : Nat :=
  let y := d.year - 1
  365 * y + y / 4 - y / 100 + y / 400
    + (List.range (d.month - 1)).foldl (fun n m => n + daysInMonth d.year (m + 1)) 0
    + (d.day - 1)

/-- The ISO 8601 text: year, month and day. -/
def text (d : Date) : List Char :=
  paddedDigits 4 d.year ++ '-' :: paddedDigits 2 d.month ++ '-' :: paddedDigits 2 d.day

end Date

end StagedTable
