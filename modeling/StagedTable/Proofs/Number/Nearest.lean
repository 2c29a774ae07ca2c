import Mathlib.Data.Int.Log
import Mathlib.Data.Rat.Floor
import Mathlib.Tactic.FieldSimp
import Mathlib.Tactic.Linarith
import Mathlib.Tactic.NormNum
import Mathlib.Tactic.Positivity
import Mathlib.Tactic.Ring
import StagedTable.Number.Double

/-!
# The nearest double

`Double.nearest` takes a quotient of natural numbers. Here it is shown to depend on the value of the
quotient alone (`nearest_congr`), and to give back every finite double from any quotient that has
the double's value (`nearest_eq_finite`). The first rests on a reading of the two steps of rounding
as functions of a rational number: the binary logarithm (`quotientLog2_eq_log`) and rounding to an
integer (`roundQuotient_congr`).
-/

namespace StagedTable

/-- The finite value that a quotient has, as a rational number. -/
def quotient (num den : Nat) : ℚ := (num : ℚ) / den

theorem quotient_pos {num den : Nat} (hn : 0 < num) (hd : 0 < den) : 0 < quotient num den := by
  unfold quotient
  positivity

theorem quotient_eq_iff {a b c d : Nat} (hb : 0 < b) (hd : 0 < d) :
    quotient a b = quotient c d ↔ a * d = c * b := by
  have hb' : (b : ℚ) ≠ 0 := by positivity
  have hd' : (d : ℚ) ≠ 0 := by positivity
  rw [quotient, quotient, div_eq_div_iff hb' hd']
  exact_mod_cast Iff.rfl

namespace Double

/-! ### Rounding to an integer -/

/-- Rounding depends on the value of the quotient alone. -/
theorem roundQuotient_congr {a b c d : Nat} (hb : 0 < b) (hd : 0 < d)
    (h : quotient a b = quotient c d) : roundQuotient a b = roundQuotient c d := by
  have h : a * d = c * b := (quotient_eq_iff hb hd).1 h
  have hq : a / b = c / d := by
    rw [← Nat.mul_div_mul_right a b hd, h, Nat.mul_comm b d, Nat.mul_div_mul_right c d hb]
  have hr : a % b * d = c % d * b := by
    rw [← Nat.mul_mod_mul_right d a b, h, Nat.mul_comm b d, Nat.mul_mod_mul_right b c d]
  have hlt : 2 * (a % b) < b ↔ 2 * (c % d) < d := by
    rw [← Nat.mul_lt_mul_right hd, Nat.mul_assoc, hr, ← Nat.mul_assoc, Nat.mul_comm b d,
      Nat.mul_lt_mul_right hb]
  have heq : 2 * (a % b) = b ↔ 2 * (c % d) = d := by
    rw [← Nat.mul_left_inj (Nat.ne_of_gt hd), Nat.mul_assoc, hr, ← Nat.mul_assoc,
      Nat.mul_comm b d, Nat.mul_left_inj (Nat.ne_of_gt hb)]
  unfold roundQuotient
  simp only [hq, hlt, heq]

theorem roundQuotient_mul (m : Nat) {den : Nat} (hd : 0 < den) :
    roundQuotient (m * den) den = m := by
  unfold roundQuotient
  simp [Nat.mul_div_cancel m hd, hd]

/-! ### The binary logarithm -/

theorem zpow_eq_quotient (b : Nat) (hb : 0 < b) (l : Int) :
    (b : ℚ) ^ l = quotient (Nat.pow b l.toNat) (Nat.pow b (-l).toNat) := by
  have hb' : (b : ℚ) ≠ 0 := by positivity
  have hl : l = (l.toNat : Int) - ((-l).toNat : Int) := by omega
  rw [quotient]
  conv_lhs => rw [hl]
  rw [zpow_sub₀ hb', zpow_natCast, zpow_natCast]
  norm_cast

/-- Comparison of a quotient with a power of two, in natural numbers. -/
theorem zpow_le_quotient_iff (num : Nat) {den : Nat} (hd : 0 < den) (l : Int) :
    (2 : ℚ) ^ l ≤ quotient num den
      ↔ den * Nat.pow 2 l.toNat ≤ num * Nat.pow 2 (-l).toNat := by
  have h := zpow_eq_quotient 2 (by decide) l
  have hp : (0 : ℚ) < (Nat.pow 2 (-l).toNat : Nat) := by
    exact_mod_cast Nat.pow_pos (by decide)
  have hd' : (0 : ℚ) < den := by exact_mod_cast hd
  push_cast at h
  rw [h, quotient, quotient, div_le_div_iff₀ hp hd']
  norm_cast
  rw [Nat.mul_comm den]

/-- The powers of two up to a number are those with an exponent up to its logarithm. -/
theorem zpow_le_iff_le_log {r : ℚ} (hr : 0 < r) (l : Int) :
    (2 : ℚ) ^ l ≤ r ↔ l ≤ Int.log 2 r := by
  simpa using Int.zpow_le_iff_le_log (b := 2) (x := l) (by decide) hr

@[inherit_doc zpow_le_iff_le_log]
theorem lt_zpow_iff_log_lt {r : ℚ} (hr : 0 < r) (l : Int) :
    r < (2 : ℚ) ^ l ↔ Int.log 2 r < l := by
  rw [← not_le, zpow_le_iff_le_log hr, not_le]

theorem pow_log2_le {n : Nat} (hn : n ≠ 0) : (2 : ℚ) ^ n.log2 ≤ n := by
  exact_mod_cast Nat.log2_self_le hn

theorem lt_pow_log2 (n : Nat) : (n : ℚ) < (2 : ℚ) ^ (n.log2 + 1) := by
  exact_mod_cast Nat.lt_log2_self (n := n)

theorem zpow_log2_le_quotient {num den : Nat} (hn : 0 < num) (hd : 0 < den) :
    (2 : ℚ) ^ ((num.log2 : Int) - den.log2 - 1) ≤ quotient num den := by
  have hd' : (0 : ℚ) < den := by exact_mod_cast hd
  have hnum := pow_log2_le (Nat.ne_of_gt hn)
  have hden := (lt_pow_log2 den).le
  calc (2 : ℚ) ^ ((num.log2 : Int) - den.log2 - 1)
    _ = (2 : ℚ) ^ num.log2 / (2 : ℚ) ^ (den.log2 + 1) := by
      rw [← zpow_natCast, ← zpow_natCast, ← zpow_sub₀ (by norm_num)]
      congr 1
      push_cast
      ring
    _ ≤ (num : ℚ) / den := by gcongr

theorem quotient_lt_zpow_log2 {num den : Nat} (hn : 0 < num) (hd : 0 < den) :
    quotient num den < (2 : ℚ) ^ ((num.log2 : Int) - den.log2 + 1) := by
  have hn' : (0 : ℚ) < num := by exact_mod_cast hn
  have hd' : (0 : ℚ) < den := by exact_mod_cast hd
  have hnum := lt_pow_log2 num
  have hden := pow_log2_le (Nat.ne_of_gt hd)
  calc (num : ℚ) / den
    _ < (2 : ℚ) ^ (num.log2 + 1) / (2 : ℚ) ^ den.log2 := by gcongr
    _ = (2 : ℚ) ^ ((num.log2 : Int) - den.log2 + 1) := by
      rw [← zpow_natCast, ← zpow_natCast, ← zpow_sub₀ (by norm_num)]
      congr 1
      push_cast
      ring

/-- `quotientLog2` is the integer part of the binary logarithm. -/
theorem quotientLog2_eq_log {num den : Nat} (hn : 0 < num) (hd : 0 < den) :
    quotientLog2 num den = Int.log 2 (quotient num den) := by
  have hpos := quotient_pos hn hd
  have hlow := zpow_log2_le_quotient hn hd
  have hhigh := quotient_lt_zpow_log2 hn hd
  -- the logarithm is one of two neighbours, and one comparison tells which
  rw [zpow_le_iff_le_log hpos] at hlow
  rw [lt_zpow_iff_log_lt hpos] at hhigh
  have hiff := zpow_le_quotient_iff num hd ((num.log2 : Int) - den.log2)
  rw [zpow_le_iff_le_log hpos] at hiff
  unfold quotientLog2
  dsimp only
  split
  · next h =>
    have := hiff.2 h
    omega
  · next h =>
    have := mt hiff.1 h
    omega

/-! ### Rounding to a double -/

theorem quotient_scale {a b c d p q : Nat} (hb : 0 < b) (hd : 0 < d) (hq : 0 < q)
    (h : quotient a b = quotient c d) :
    quotient (a * p) (b * q) = quotient (c * p) (d * q) := by
  have h := (quotient_eq_iff hb hd).1 h
  refine (quotient_eq_iff (Nat.mul_pos hb hq) (Nat.mul_pos hd hq)).2 ?_
  calc a * p * (d * q)
    _ = a * d * (p * q) := by ring
    _ = c * b * (p * q) := by rw [h]
    _ = c * p * (b * q) := by ring

/-- The nearest double depends on the value of the quotient alone. -/
theorem nearest_congr (negative : Bool) {a b c d : Nat} (hb : 0 < b) (hd : 0 < d)
    (h : quotient a b = quotient c d) : nearest negative a b = nearest negative c d := by
  have hmul := (quotient_eq_iff hb hd).1 h
  unfold nearest
  by_cases ha : a = 0
  · have hc : c = 0 := by
      have : c * b = 0 := by rw [← hmul, ha, Nat.zero_mul]
      exact (Nat.mul_eq_zero.1 this).resolve_right (by omega)
    simp [ha, hc]
  · have hc : c ≠ 0 := by
      rintro rfl
      have : a * d = 0 := by rw [hmul, Nat.zero_mul]
      exact ha ((Nat.mul_eq_zero.1 this).resolve_right (by omega))
    have hlog : quotientLog2 a b = quotientLog2 c d := by
      rw [quotientLog2_eq_log (by omega) hb, quotientLog2_eq_log (by omega) hd, h]
    have hround (e : Int) : roundQuotient (a * Nat.pow 2 (-e).toNat) (b * Nat.pow 2 e.toNat)
        = roundQuotient (c * Nat.pow 2 (-e).toNat) (d * Nat.pow 2 e.toNat) := by
      have hp : 0 < Nat.pow 2 e.toNat := Nat.pow_pos (by decide)
      exact roundQuotient_congr (Nat.mul_pos hb hp) (Nat.mul_pos hd hp)
        (quotient_scale hb hd hp h)
    simp only [ha, hc, hlog, hround, if_false]

end Double

namespace FiniteDouble

theorem denominator_pos (x : FiniteDouble) : 0 < x.denominator := Nat.pow_pos (by decide)

theorem numerator_pos {x : FiniteDouble} (h : x.mantissa ≠ 0) : 0 < x.numerator :=
  Nat.mul_pos (Nat.pos_of_ne_zero h) (Nat.pow_pos (by decide))

theorem quotient_eq (x : FiniteDouble) :
    quotient x.numerator x.denominator = x.mantissa * (2 : ℚ) ^ x.exponent := by
  have h := Double.zpow_eq_quotient 2 (by decide) x.exponent
  push_cast at h
  rw [h, quotient, quotient, numerator, denominator]
  push_cast
  ring

theorem quotientLog2_eq {x : FiniteDouble} (h : x.mantissa ≠ 0) :
    Double.quotientLog2 x.numerator x.denominator = x.mantissa.log2 + x.exponent := by
  have hpos : 0 < quotient x.numerator x.denominator :=
    quotient_pos (numerator_pos h) x.denominator_pos
  rw [Double.quotientLog2_eq_log (numerator_pos h) x.denominator_pos]
  have hlow := Double.pow_log2_le h
  have hhigh := Double.lt_pow_log2 x.mantissa
  have hp : (0 : ℚ) < (2 : ℚ) ^ x.exponent := zpow_pos (by norm_num) _
  have hle : (2 : ℚ) ^ ((x.mantissa.log2 : Int) + x.exponent)
      ≤ quotient x.numerator x.denominator := by
    rw [x.quotient_eq, zpow_add₀ (by norm_num), zpow_natCast]
    gcongr
  have hlt : quotient x.numerator x.denominator
      < (2 : ℚ) ^ ((x.mantissa.log2 : Int) + x.exponent + 1) := by
    have he : (x.mantissa.log2 : Int) + x.exponent + 1
        = ((x.mantissa.log2 + 1 : Nat) : Int) + x.exponent := by push_cast; ring
    rw [x.quotient_eq, he, zpow_add₀ (by norm_num), zpow_natCast]
    gcongr
  rw [Double.zpow_le_iff_le_log hpos] at hle
  rw [Double.lt_zpow_iff_log_lt hpos] at hlt
  omega

/-- The exponent that rounding picks for a finite double is its own. -/
theorem max_quotientLog2 {x : FiniteDouble} (h : x.mantissa ≠ 0) :
    max (Double.quotientLog2 x.numerator x.denominator - 52) (-1074) = x.exponent := by
  rw [quotientLog2_eq h]
  have hge := x.exponent_ge
  have hlt : x.mantissa.log2 < 53 := (Nat.log2_lt h).2 x.mantissa_lt
  -- a mantissa of full length has its exponent from the logarithm, a shorter one from the least
  rcases x.normal with hfull | hleast
  · have : 52 ≤ x.mantissa.log2 := (Nat.le_log2 h).2 hfull
    omega
  · omega

end FiniteDouble

/-- Every finite double is the nearest one to each quotient that has its value. -/
theorem Double.nearest_eq_finite (x : FiniteDouble) {num den : Nat} (hd : 0 < den)
    (h0 : x.mantissa ≠ 0) (h : quotient num den = quotient x.numerator x.denominator) :
    nearest x.negative num den = .finite x := by
  rw [nearest_congr x.negative hd x.denominator_pos h]
  have hn : x.numerator ≠ 0 := Nat.ne_of_gt (FiniteDouble.numerator_pos h0)
  have hround : roundQuotient (x.numerator * Nat.pow 2 (-x.exponent).toNat)
      (x.denominator * Nat.pow 2 x.exponent.toNat) = x.mantissa := by
    have hden : 0 < x.denominator * Nat.pow 2 x.exponent.toNat :=
      Nat.mul_pos x.denominator_pos (Nat.pow_pos (by decide))
    have : x.numerator * Nat.pow 2 (-x.exponent).toNat
        = x.mantissa * (x.denominator * Nat.pow 2 x.exponent.toNat) := by
      rw [FiniteDouble.numerator, FiniteDouble.denominator]
      ring
    rw [this, roundQuotient_mul _ hden]
  have hlimit : x.mantissa ≠ mantissaLimit := Nat.ne_of_lt x.mantissa_lt
  unfold nearest
  simp only [hn, if_false, FiniteDouble.max_quotientLog2 h0, hround, hlimit]
  unfold ofParts
  rw [dif_pos ⟨x.mantissa_lt, x.exponent_ge, x.exponent_le, x.normal⟩]

end StagedTable
