import StagedTable.Number.Double.Reader
import StagedTable.Number.Scaled

/-!
# The shortest text of a double

A double is written with the fewest decimal digits that read back as the same double. The decimal
grids of one digit, two digits and so on are tried in turn: on each grid the two neighbours of the
number are the only candidates, the nearer of two that read back is taken, and a tie goes to the
even one. Every double has a finite decimal expansion, which stands for the case that no grid has
a candidate. That what is found reads back is `reads_shortest`, with `Reads` for the expansion.
-/

namespace StagedTable

open Text

namespace FiniteDouble

/-- Whether a decimal number, given the sign of `x`, reads as `x`. -/
def reads (x : FiniteDouble) (d : Scaled) : Bool :=
  Double.ofDecimal x.negative d.coefficient d.exponent == .finite x

/-- The `p` for which the magnitude of a nonzero double is below `10 ^ p` and not below the tenth
part of that. -/
def magnitude (x : FiniteDouble) : Int :=
  let n := x.numerator
  let d := x.denominator
  if d ≤ n then (digits (n / d)).length
  else
    let k := (digits (d / n)).length
    if d = n * Nat.pow 10 (k - 1) then 2 - k else 1 - k

/-- The finite decimal expansion of a double. -/
def expansion (x : FiniteDouble) : Scaled :=
  if 0 ≤ x.exponent then ⟨x.numerator, 0⟩
  else ⟨x.mantissa * Nat.pow 5 (-x.exponent).toNat, x.exponent⟩

/-- The point of the decimal grid with `n` digits that stands for a double, if one reads back. -/
def onGrid? (x : FiniteDouble) (n : Nat) : Option Scaled :=
  let k := x.magnitude - n
  let num := x.numerator * Nat.pow 10 (-k).toNat
  let den := x.denominator * Nat.pow 10 k.toNat
  let below : Scaled := ⟨num / den, k⟩
  let above : Scaled := ⟨num / den + 1, k⟩
  match x.reads below, x.reads above with
  | true, true => some (if Double.roundQuotient num den = num / den then below else above)
  | true, false => some below
  | false, true => some above
  | false, false => none

/-- The decimal number of fewest digits that reads as the double; of several the nearest. -/
def shortest (x : FiniteDouble) : Scaled :=
  ((List.range' 1 17).findSome? x.onGrid?).getD x.expansion

/-- What a grid gives reads back. -/
theorem reads_of_onGrid? {x : FiniteDouble} {n : Nat} {d : Scaled} (h : x.onGrid? n = some d) :
    x.reads d = true := by
  unfold onGrid? at h
  grind

/-- The shortest decimal number reads back, as the expansion does. -/
theorem reads_shortest (x : FiniteDouble) (h : x.reads x.expansion = true) :
    x.reads x.shortest = true := by
  unfold shortest
  cases hs : (List.range' 1 17).findSome? x.onGrid? with
  | none => simpa using h
  | some d =>
    obtain ⟨n, _, hn⟩ := List.exists_of_findSome?_eq_some hs
    simpa using reads_of_onGrid? hn

end FiniteDouble

/-- Where the positional form of a float ends: it is used while the decimal point falls between
`leastPoint` and `greatestPoint` places after the first digit. -/
structure FloatForm where
  leastPoint : Int
  greatestPoint : Int
  exponentDigits : Nat

/-- Floats are positional from 0.0001 up to, but not including, 10^16; an exponent has a sign and
at least two digits. -/
def floatForm : FloatForm := ⟨-3, 16, 2⟩

/-- Significant digits with the decimal point `point` places after the start. A whole number has one
zero behind the point. -/
def positional (ds : List Char) (point : Int) : List Char :=
  if point ≤ 0 then '0' :: '.' :: (List.replicate (-point).toNat '0' ++ ds)
  else
    let p := point.toNat
    if p < ds.length then ds.take p ++ '.' :: ds.drop p
    else ds ++ List.replicate (p - ds.length) '0' ++ ['.', '0']

/-- Significant digits in exponent form, one of them before the point. -/
def scientific (form : FloatForm) (ds : List Char) (point : Int) : List Char :=
  let exponent := point - 1
  let sign := if exponent < 0 then '-' else '+'
  let mantissa := match ds with
    | d :: e :: rest => d :: '.' :: e :: rest
    | ds => ds
  mantissa ++ 'e' :: sign :: paddedDigits form.exponentDigits exponent.natAbs

/-- The digits of a number without the zeros at their end. -/
def significantDigits (n : Nat) : List Char :=
  ((digits n).reverse.dropWhile (· == '0')).reverse

/-- The text of a decimal number without its sign. -/
def Scaled.text (d : Scaled) : List Char :=
  let ds := significantDigits d.coefficient
  let point := (digits d.coefficient).length + d.exponent
  if floatForm.leastPoint ≤ point ∧ point ≤ floatForm.greatestPoint then positional ds point
  else scientific floatForm ds point

/-- The text of a finite double: the sign of zero is kept. -/
def FiniteDouble.text (x : FiniteDouble) : List Char :=
  let magnitude := if x.isZero then ['0', '.', '0'] else x.shortest.text
  if x.negative then '-' :: magnitude else magnitude

/-- The text of a double. -/
def Double.text : Double → List Char
  | .finite x => x.text
  | .infinite false => "inf".toList
  | .infinite true => "-inf".toList
  | .nan _ => "nan".toList

/-- The double that a text names: a numeral, or one of the names of the values that are not finite.
The object of not-a-number is given. -/
def Double.ofText? (object : Nat) (cs : List Char) : Option Double :=
  if cs = "nan".toList then some (.nan object)
  else if cs = "inf".toList then some (.infinite false)
  else if cs = "-inf".toList then some (.infinite true)
  else match Numeral.read cs with
    | some (n, []) => some n.toDouble
    | _ => none

end StagedTable
