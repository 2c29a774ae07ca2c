/-!
# Double precision numbers

The numbers of the IEEE 754 binary64 format as exact values: a finite double is a signed integer
times a power of two, in the one form that the format allows. No operation here rounds except
`nearest`, which takes the double nearest to a quotient; a tie goes to the even mantissa.
-/

namespace StagedTable

/-- Two to the 53rd: all mantissas are below it. -/
def mantissaLimit : Nat := 0x20000000000000

/-- Two to the 52nd: the least mantissa of full length. -/
def fullMantissa : Nat := 0x10000000000000

/-- A finite double: the number `mantissa · 2 ^ exponent`, negated if `negative`. The mantissa has
53 bits unless the exponent is the least one, so each number but zero has one form; zero has two,
which differ in sign. -/
structure FiniteDouble where
  negative : Bool
  mantissa : Nat
  exponent : Int
  mantissa_lt : mantissa < mantissaLimit
  exponent_ge : -1074 ≤ exponent
  exponent_le : exponent ≤ 971
  normal : fullMantissa ≤ mantissa ∨ exponent = -1074
deriving DecidableEq

/-- A double: a finite number, an infinity or not a number. One not-a-number is told from another by
the object that it is, which has a number here; all of them are written alike. -/
inductive Double
  | finite (x : FiniteDouble)
  | infinite (negative : Bool)
  | nan (object : Nat)
deriving DecidableEq

namespace FiniteDouble

/-- Zero with a sign. -/
def zero (negative : Bool) : FiniteDouble :=
  ⟨negative, 0, -1074, by decide, by decide, by decide, .inr rfl⟩

/-- The magnitude is the quotient of `numerator` and `denominator`. -/
def numerator (x : FiniteDouble) : Nat := x.mantissa * Nat.pow 2 x.exponent.toNat

@[inherit_doc numerator]
def denominator (x : FiniteDouble) : Nat := Nat.pow 2 (-x.exponent).toNat

/-- Whether the number is zero, of either sign. -/
def isZero (x : FiniteDouble) : Bool := x.mantissa == 0

/-- Equality of numbers: the two zeros are equal. -/
def same (x y : FiniteDouble) : Bool := (x.isZero && y.isZero) || x == y

/-- Equality with an integer, exact at any size. -/
def sameInt (x : FiniteDouble) (n : Int) : Bool :=
  if x.isZero then n == 0
  else x.negative == decide (n < 0) && x.numerator == n.natAbs * x.denominator

end FiniteDouble

namespace Double

/-- Zero with a sign. -/
def zero (negative : Bool) : Double := .finite (.zero negative)

/-- The finite double of the given parts; parts that the format cannot hold are too large and give
an infinity. -/
def ofParts (negative : Bool) (mantissa : Nat) (exponent : Int) : Double :=
  if h : mantissa < mantissaLimit ∧ -1074 ≤ exponent ∧ exponent ≤ 971
      ∧ (fullMantissa ≤ mantissa ∨ exponent = -1074) then
    .finite ⟨negative, mantissa, exponent, h.1, h.2.1, h.2.2.1, h.2.2.2⟩
  else .infinite negative

/-- The integer nearest to a quotient; a tie goes to the even one. -/
def roundQuotient (num den : Nat) : Nat :=
  let q := num / den
  let r := num % den
  if 2 * r < den ∨ (2 * r = den ∧ q % 2 = 0) then q else q + 1

/-- The exponent of the largest power of two that is not above a positive quotient. -/
def quotientLog2 (num den : Nat) : Int :=
  let l : Int := num.log2 - den.log2
  if den * Nat.pow 2 l.toNat ≤ num * Nat.pow 2 (-l).toNat then l else l - 1

/-- The double nearest to the quotient `num / den`, of the given sign. -/
def nearest (negative : Bool) (num den : Nat) : Double :=
  if num = 0 then zero negative
  else
    let e := max (quotientLog2 num den - 52) (-1074)
    let m := roundQuotient (num * Nat.pow 2 (-e).toNat) (den * Nat.pow 2 e.toNat)
    if m = mantissaLimit then ofParts negative fullMantissa (e + 1) else ofParts negative m e

/-- Whether the number is finite. -/
def isFinite : Double → Bool
  | .finite _ => true
  | _ => false

/-- Whether the double is not a number. -/
def isNan : Double → Bool
  | .nan _ => true
  | _ => false

/-- Equality of numbers: the two zeros are equal, and not-a-number differs from itself. -/
def same : Double → Double → Bool
  | .finite x, .finite y => x.same y
  | .infinite s, .infinite t => s == t
  | _, _ => false

/-- Equality with an integer, exact at any size. -/
def sameInt : Double → Int → Bool
  | .finite x, n => x.sameInt n
  | _, _ => false

/-- Whether the number is zero, of either sign. -/
def isZero : Double → Bool
  | .finite x => x.isZero
  | _ => false

/-- Not-a-number differs from everything, itself included. -/
theorem not_same_nan (object : Nat) (x : Double) : same (.nan object) x = false := by
  cases x <;> rfl

/-- Equality of numbers is symmetric. -/
theorem same_comm (x y : Double) : same x y = same y x := by
  cases x <;> cases y <;> simp [same, FiniteDouble.same, Bool.and_comm, Bool.beq_comm]

end Double

end StagedTable
