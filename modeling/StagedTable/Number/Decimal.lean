import StagedTable.Number.Double.Reader
import StagedTable.Number.Scaled
import StagedTable.Text.Letter

/-!
# Decimal numbers

Decimal floating point numbers as a database hands them over: `coefficient · 10 ^ exponent` with a
sign, or a value that is not finite.
-/

namespace StagedTable

open Text

/-- A decimal number, an infinity, or not-a-number. -/
inductive Decimal
  | finite (negative : Bool) (coefficient : Nat) (exponent : Int)
  | infinite (negative : Bool)
  | nan
deriving DecidableEq

namespace Decimal

/-- Reads what is no numeral: the names of the infinities, or else not-a-number. -/
def ofName (cs : List Char) : Decimal :=
  let (negative, name) := Numeral.readSign cs
  if isWord "infinity".toList name || isWord "inf".toList name then .infinite negative else .nan

/-- Reads a decimal number. -/
def ofText (cs : List Char) : Decimal :=
  match Numeral.read cs with
  | some (n, []) =>
    .finite n.negative (ofDigits (n.whole ++ n.fraction)) (n.exponent - n.fraction.length)
  | _ => ofName cs

/-- The integer that the number is, if it is one. -/
def toInt? : Decimal → Option Int
  | .finite negative coefficient exponent =>
    (Scaled.toNat? ⟨coefficient, exponent⟩).map fun m => if negative then -(m : Int) else m
  | .infinite _ | .nan => none

/-- The double nearest to a finite number. -/
def toDouble? : Decimal → Option Double
  | .finite negative coefficient exponent => some (.ofDecimal negative coefficient exponent)
  | .infinite _ | .nan => none

/-- Whether the number is zero. -/
def isZero : Decimal → Bool
  | .finite _ coefficient _ => coefficient == 0
  | .infinite _ | .nan => false

end Decimal

end StagedTable
