import Mathlib.Algebra.Order.Field.Power
import StagedTable.Number.Double.Shortest
import StagedTable.Proofs.Number.Nearest

/-!
# Decimal numbers as doubles

The double nearest to a decimal number depends on the value of the number alone, not on the way it
is split into a coefficient and an exponent (`ofDecimal_congr`). Since a finite double is the
nearest one to its own decimal expansion (`reads_expansion`), the shortest decimal number that is
written for it reads back (`ofDecimal_shortest`).
-/

namespace StagedTable

open Text

/-- The value of a decimal number. -/
def Scaled.value (d : Scaled) : ℚ := d.coefficient * (10 : ℚ) ^ d.exponent

/-! ### The size of a decimal number -/

/-- The number of digits tells between which powers of ten a number lies. -/
theorem digits_bounds {c : Nat} (hc : 0 < c) :
    10 ^ ((digits c).length - 1) ≤ c ∧ c < 10 ^ (digits c).length := by
  have hpos : 0 < (digits c).length := Nat.length_toDigits_pos
  have hlt := (Nat.length_toDigits_le_iff (b := 10) (n := c) (by decide) hpos).1 le_rfl
  refine ⟨?_, hlt⟩
  by_contra hcon
  rcases Nat.eq_zero_or_pos ((digits c).length - 1) with h0 | hp
  · rw [h0] at hcon
    omega
  · have := (Nat.length_toDigits_le_iff (b := 10) (n := c) (by decide) hp).2 (by omega)
    change (digits c).length ≤ _ at this
    omega

/-- The place of the decimal point of a number is one more than its decimal logarithm. -/
theorem Scaled.log_value {d : Scaled} (hd : 0 < d.coefficient) :
    Int.log 10 d.value + 1 = (digits d.coefficient).length + d.exponent := by
  have hc : (0 : ℚ) < d.coefficient := by exact_mod_cast hd
  have hp : (0 : ℚ) < (10 : ℚ) ^ d.exponent := zpow_pos (by norm_num) _
  have hpos : 0 < d.value := mul_pos hc hp
  have hlen : 0 < (digits d.coefficient).length := Nat.length_toDigits_pos
  obtain ⟨hlow, hhigh⟩ := digits_bounds hd
  have hle : ((10 : Nat) : ℚ) ^ (((digits d.coefficient).length - 1 : Nat) + d.exponent)
      ≤ d.value := by
    rw [Scaled.value, zpow_add₀ (by norm_num), zpow_natCast]
    push_cast
    gcongr
    exact_mod_cast hlow
  have hlt : d.value < ((10 : Nat) : ℚ) ^ (((digits d.coefficient).length : Int) + d.exponent) := by
    rw [Scaled.value, zpow_add₀ (by norm_num), zpow_natCast]
    push_cast
    gcongr
    exact_mod_cast hhigh
  rw [Int.zpow_le_iff_le_log (by decide) hpos] at hle
  rw [Int.lt_zpow_iff_log_lt (by decide) hpos] at hlt
  omega

/-! ### The range of the format -/

/-- The powers of ten around the format: one that is not above the least double that is not zero,
and one that is not below the first power of two beyond the greatest. -/
theorem ten_zpow_le_least : (10 : ℚ) ^ (-324 : Int) ≤ (2 : ℚ) ^ (-1074 : Int) := by
  have hleast : (2 : ℚ) ^ 1074 ≤ 10 ^ 324 := by
    exact_mod_cast (by decide +kernel : (2 : Nat) ^ 1074 ≤ 10 ^ 324)
  calc (10 : ℚ) ^ (-324 : Int)
    _ = ((10 : ℚ) ^ 324)⁻¹ := by rw [zpow_neg]; rfl
    _ ≤ ((2 : ℚ) ^ 1074)⁻¹ := by gcongr
    _ = (2 : ℚ) ^ (-1074 : Int) := by rw [zpow_neg]; rfl

@[inherit_doc ten_zpow_le_least]
theorem beyond_le_ten_zpow :
    (mantissaLimit : ℚ) * (2 : ℚ) ^ (971 : Int) ≤ (10 : ℚ) ^ (309 : Int) := by
  have hlimit : (mantissaLimit : ℚ) = 2 ^ 53 := by norm_num [mantissaLimit]
  have hbeyond : (2 : ℚ) ^ 53 * 2 ^ 971 ≤ 10 ^ 309 := by
    exact_mod_cast (by decide +kernel : (2 : Nat) ^ 53 * 2 ^ 971 ≤ 10 ^ 309)
  rw [hlimit]
  exact hbeyond

/-! ### The nearest double -/

theorem Scaled.quotient_eq_value (d : Scaled) :
    quotient (d.coefficient * Nat.pow 10 d.exponent.toNat) (Nat.pow 10 (-d.exponent).toNat)
      = d.value := by
  have h := Double.zpow_eq_quotient 10 (by decide) d.exponent
  push_cast at h
  rw [Scaled.value, h, quotient, quotient]
  push_cast
  ring

/-- The double nearest to a decimal number depends on its value alone. -/
theorem Double.ofDecimal_congr (negative : Bool) {d e : Scaled} (h : d.value = e.value) :
    ofDecimal negative d.coefficient d.exponent = ofDecimal negative e.coefficient e.exponent := by
  have hten (k : Int) : (10 : ℚ) ^ k ≠ 0 := zpow_ne_zero k (by norm_num)
  have hzero (d : Scaled) : d.value = 0 ↔ d.coefficient = 0 := by
    rw [Scaled.value, mul_eq_zero, or_iff_left (hten _)]
    exact_mod_cast Iff.rfl
  unfold ofDecimal
  by_cases hd : d.coefficient = 0
  · have he : e.coefficient = 0 := (hzero e).1 (h ▸ (hzero d).2 hd)
    rw [if_pos hd, if_pos he]
  · have he : e.coefficient ≠ 0 := fun he => hd ((hzero d).1 (h.trans ((hzero e).2 he)))
    have hsize : ((digits d.coefficient).length : Int) + d.exponent
        = (digits e.coefficient).length + e.exponent := by
      rw [← Scaled.log_value (Nat.pos_of_ne_zero hd), ← Scaled.log_value (Nat.pos_of_ne_zero he), h]
    have hnearest := nearest_congr negative (a := d.coefficient * Nat.pow 10 d.exponent.toNat)
      (c := e.coefficient * Nat.pow 10 e.exponent.toNat)
      (Nat.pow_pos (n := (-d.exponent).toNat) (by decide : 0 < 10))
      (Nat.pow_pos (n := (-e.exponent).toNat) (by decide : 0 < 10))
      (by rw [← Nat.pow_eq, ← Nat.pow_eq, d.quotient_eq_value, e.quotient_eq_value, h])
    rw [if_neg hd, if_neg he]
    dsimp only
    -- the shortcuts for what is too large or too small look at the size alone
    rw [hsize]
    split
    · rfl
    · split
      · rfl
      · exact hnearest

namespace FiniteDouble

theorem value_expansion (x : FiniteDouble) :
    x.expansion.value = quotient x.numerator x.denominator := by
  rw [x.quotient_eq]
  unfold expansion
  split
  · next h =>
    obtain ⟨k, hk⟩ := Int.eq_ofNat_of_zero_le h
    rw [Scaled.value, numerator, hk]
    simp
  · next h =>
    -- a power of two that is divided by is a power of five times one of ten
    have hk : -x.exponent = ((-x.exponent).toNat : Int) := by omega
    have hten : (10 : ℚ) ^ x.exponent = (2 : ℚ) ^ x.exponent * (5 : ℚ) ^ x.exponent := by
      rw [← mul_zpow]
      norm_num
    have hfive : ((5 : ℚ) ^ (-x.exponent).toNat) * (5 : ℚ) ^ x.exponent = 1 := by
      rw [← zpow_natCast, ← hk, ← zpow_add₀ (by norm_num)]
      simp
    calc ((x.mantissa * Nat.pow 5 (-x.exponent).toNat : Nat) : ℚ) * (10 : ℚ) ^ x.exponent
      _ = (x.mantissa : ℚ) * (5 : ℚ) ^ (-x.exponent).toNat
          * ((2 : ℚ) ^ x.exponent * (5 : ℚ) ^ x.exponent) := by
        rw [hten, Nat.pow_eq]
        push_cast
        rfl
      _ = x.mantissa * (2 : ℚ) ^ x.exponent
          * ((5 : ℚ) ^ (-x.exponent).toNat * (5 : ℚ) ^ x.exponent) := by ring
      _ = x.mantissa * (2 : ℚ) ^ x.exponent := by rw [hfive, mul_one]

theorem coefficient_expansion {x : FiniteDouble} (h : x.mantissa ≠ 0) :
    0 < x.expansion.coefficient := by
  unfold expansion
  split
  · exact numerator_pos h
  · exact Nat.mul_pos (Nat.pos_of_ne_zero h) (Nat.pow_pos (by decide))

/-- A double that is not zero lies well within the limits that the digit count sets. -/
theorem log_expansion {x : FiniteDouble} (h : x.mantissa ≠ 0) :
    -324 ≤ Int.log 10 x.expansion.value ∧ Int.log 10 x.expansion.value < 309 := by
  have hm : (1 : ℚ) ≤ x.mantissa := by exact_mod_cast Nat.pos_of_ne_zero h
  have hlimit : (x.mantissa : ℚ) < mantissaLimit := by exact_mod_cast x.mantissa_lt
  have hlow : (2 : ℚ) ^ (-1074 : Int) ≤ (2 : ℚ) ^ x.exponent :=
    zpow_le_zpow_right₀ (by norm_num) x.exponent_ge
  have hhigh : (2 : ℚ) ^ x.exponent ≤ (2 : ℚ) ^ (971 : Int) :=
    zpow_le_zpow_right₀ (by norm_num) x.exponent_le
  have hp : (0 : ℚ) < (2 : ℚ) ^ x.exponent := zpow_pos (by norm_num) _
  have hpos : 0 < x.expansion.value := by
    rw [value_expansion, quotient_eq]
    positivity
  constructor
  · rw [← Int.zpow_le_iff_le_log (b := 10) (by decide) hpos, value_expansion, quotient_eq,
      Nat.cast_ofNat]
    calc (10 : ℚ) ^ (-324 : Int)
      _ ≤ (2 : ℚ) ^ (-1074 : Int) := ten_zpow_le_least
      _ ≤ 1 * (2 : ℚ) ^ x.exponent := by rw [one_mul]; exact hlow
      _ ≤ x.mantissa * (2 : ℚ) ^ x.exponent := by gcongr
  · rw [← Int.lt_zpow_iff_log_lt (b := 10) (by decide) hpos, value_expansion, quotient_eq,
      Nat.cast_ofNat]
    calc (x.mantissa : ℚ) * (2 : ℚ) ^ x.exponent
      _ < mantissaLimit * (2 : ℚ) ^ x.exponent := by gcongr
      _ ≤ mantissaLimit * (2 : ℚ) ^ (971 : Int) :=
        mul_le_mul_of_nonneg_left hhigh (Nat.cast_nonneg _)
      _ ≤ (10 : ℚ) ^ (309 : Int) := beyond_le_ten_zpow

/-- A double that is not zero is the nearest one to its own decimal expansion. -/
theorem reads_expansion {x : FiniteDouble} (h : x.mantissa ≠ 0) :
    x.reads x.expansion = true := by
  have hc := coefficient_expansion h
  have hsize := Scaled.log_value hc
  obtain ⟨hlow, hhigh⟩ := log_expansion h
  have hq := x.expansion.quotient_eq_value.trans x.value_expansion
  unfold reads
  rw [beq_iff_eq, Double.ofDecimal, if_neg (Nat.ne_of_gt hc)]
  dsimp only
  rw [if_neg (by omega), if_neg (by omega)]
  exact Double.nearest_eq_finite x (Nat.pow_pos (by decide)) h hq

/-- The shortest decimal number that is written for a double that is not zero reads back. -/
theorem ofDecimal_shortest {x : FiniteDouble} (h : x.mantissa ≠ 0) :
    Double.ofDecimal x.negative x.shortest.coefficient x.shortest.exponent = .finite x := by
  have := reads_shortest x (reads_expansion h)
  unfold reads at this
  exact beq_iff_eq.1 this

theorem coefficient_shortest {x : FiniteDouble} (h : x.mantissa ≠ 0) :
    x.shortest.coefficient ≠ 0 := by
  intro h0
  have := ofDecimal_shortest h
  rw [h0, Double.ofDecimal, if_pos rfl, Double.zero, Double.finite.injEq] at this
  exact h (congrArg FiniteDouble.mantissa this).symm

theorem eq_zero_of_mantissa {x : FiniteDouble} (h : x.mantissa = 0) : x = zero x.negative := by
  obtain ⟨negative, mantissa, exponent, hlt, hge, hle, hnormal⟩ := x
  cases h
  rcases hnormal with hfull | rfl
  · exact absurd hfull (by decide)
  · rfl

end FiniteDouble

end StagedTable
