import StagedTable.Text.Digit
import StagedTable.Number.Double

/-!
# Numerals

Decimal numerals with an optional fraction and exponent, and the double nearest to one.
-/

namespace StagedTable

open Text

/-- The double nearest to `coefficient · 10 ^ exponent`, of the given sign. Numbers far outside the
range of the format are settled by their digit count alone. -/
def Double.ofDecimal (negative : Bool) (coefficient : Nat) (exponent : Int) : Double :=
  if coefficient = 0 then .zero negative
  else
    let size := (digits coefficient).length + exponent
    if 310 < size then .infinite negative
    else if size < -400 then .zero negative
    else .nearest negative (coefficient * Nat.pow 10 exponent.toNat) (Nat.pow 10 (-exponent).toNat)

/-- A decimal numeral: its sign, the digits before and after the point, and its exponent. -/
structure Numeral where
  negative : Bool
  whole : List Char
  fraction : List Char
  exponent : Int

namespace Numeral

/-- The double nearest to the number written. -/
def toDouble (n : Numeral) : Double :=
  .ofDecimal n.negative (ofDigits (n.whole ++ n.fraction)) (n.exponent - n.fraction.length)

/-- The optional sign at the start of a text and what follows it. -/
def readSign : List Char → Bool × List Char
  | '+' :: rest => (false, rest)
  | '-' :: rest => (true, rest)
  | cs => (false, cs)

/-- The exponent part at the start of a text, if there is a whole one: an `e` in either case, an
optional sign and digits. -/
def readExponent? : List Char → Option (Int × List Char)
  | [] => none
  | e :: rest =>
    if e == 'e' || e == 'E' then
      let (negative, rest) := readSign rest
      match digitRun rest with
      | ([], _) => none
      | (ds, rest) => some (if negative then -(ofDigits ds : Int) else ofDigits ds, rest)
    else none

/-- The exponent at the start of a text. A text that does not start with a whole exponent part has
exponent zero and stays as it is. -/
def readExponent (cs : List Char) : Int × List Char := (readExponent? cs).getD (0, cs)

/-- The digits before and after the point at the start of a text. The point may have digits on
either side only, but not on neither. -/
def readPlaces (cs : List Char) : Option ((List Char × List Char) × List Char) :=
  match digitRun cs with
  | ([], '.' :: rest) =>
    match digitRun rest with
    | ([], _) => none
    | (fraction, rest) => some (([], fraction), rest)
  | ([], _) => none
  | (whole, '.' :: rest) =>
    let (fraction, rest) := digitRun rest
    some ((whole, fraction), rest)
  | (whole, rest) => some ((whole, []), rest)

/-- The longest numeral at the start of a text and what follows it. -/
def read (cs : List Char) : Option (Numeral × List Char) :=
  let (negative, rest) := readSign cs
  match readPlaces rest with
  | none => none
  | some ((whole, fraction), rest) =>
    let (exponent, rest) := readExponent rest
    some (⟨negative, whole, fraction, exponent⟩, rest)

end Numeral

end StagedTable
