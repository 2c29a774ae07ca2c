import StagedTable.Proofs.Number.Expansion

/-!
# Rounding to the nearest double

A double is the nearest one to a number if no finite double is nearer and if, of two that are
equally near, it is the one whose mantissa is even; magnitudes from `overflowLimit` on are infinite
(`Double.IsNearest`). There is one such double for every number (`Double.IsNearest.unique`), and a
decimal number is read as it (`Double.ofDecimal_eq_iff`).

A number is rounded to a multiple of a power of two, a point of a grid. The finite doubles that are
not on the grid are all below its points of full length (`onGrid_or_below`), and these are not above
the number, so that it is enough to compare with points of the grid.
-/

namespace StagedTable

namespace FiniteDouble

/-- The magnitude of a finite double. -/
def absValue (x : FiniteDouble) : ℚ := x.mantissa * (2 : ℚ) ^ x.exponent

/-- Whether no finite double is nearer to a magnitude, and of two that are equally near this is the
one whose mantissa is even. -/
structure IsNearest (x : FiniteDouble) (r : ℚ) : Prop where
  nearest (y : FiniteDouble) : |r - x.absValue| ≤ |r - y.absValue|
  even (y : FiniteDouble) : |r - y.absValue| = |r - x.absValue| → y.absValue ≠ x.absValue →
    x.mantissa % 2 = 0 ∧ y.mantissa % 2 = 1

end FiniteDouble

/-- The least magnitude that is too large for a finite double: it is halfway between the greatest
one and the number that would be the next. -/
def overflowLimit : ℚ := (mantissaLimit - 1 / 2) * (2 : ℚ) ^ (971 : Int)

/-- Whether a double is the nearest one to the number of a sign and a magnitude. -/
inductive Double.IsNearest (negative : Bool) (r : ℚ) : Double → Prop
  | finite {x : FiniteDouble} : x.negative = negative → r < overflowLimit → x.IsNearest r →
      IsNearest negative r (.finite x)
  | infinite : overflowLimit ≤ r → IsNearest negative r (.infinite negative)

/-! ### Rounding to an integer -/

/-- Whether a natural number is the nearest one to a rational number, a tie going to the even
one. -/
structure RoundsTo (s : ℚ) (m : Nat) : Prop where
  near : |s - m| ≤ 1 / 2
  even : |s - m| = 1 / 2 → m % 2 = 0

theorem Double.roundsTo_roundQuotient (num : Nat) {den : Nat} (hd : 0 < den) :
    RoundsTo (quotient num den) (roundQuotient num den) := by
  have hd' : (0 : ℚ) < den := by exact_mod_cast hd
  have hlt : ((num % den : Nat) : ℚ) < den := by exact_mod_cast Nat.mod_lt num hd
  have hsplit : quotient num den = (num / den : Nat) + ((num % den : Nat) : ℚ) / den := by
    have hnum : (num : ℚ) = den * (num / den : Nat) + (num % den : Nat) := by
      exact_mod_cast (Nat.div_add_mod num den).symm
    rw [quotient, div_eq_iff (ne_of_gt hd'), add_mul, div_mul_cancel₀ _ (ne_of_gt hd'), hnum]
    ring
  have hhalf : ((num % den : Nat) : ℚ) / den = 1 / 2 ↔ 2 * (num % den) = den := by
    rw [div_eq_div_iff (ne_of_gt hd') (by norm_num), one_mul, mul_comm]
    exact_mod_cast Iff.rfl
  unfold roundQuotient
  dsimp only
  generalize num / den = q at *
  generalize num % den = r at *
  rw [hsplit]
  split
  · next hdown =>
    -- rounded down, what is lost is the fraction
    have hle : (r : ℚ) / den ≤ 1 / 2 := by
      rw [div_le_div_iff₀ hd' (by norm_num)]
      exact_mod_cast (by omega : r * 2 ≤ 1 * den)
    have habs : |(q : ℚ) + r / den - q| = r / den := by
      rw [add_sub_cancel_left, abs_of_nonneg (by positivity)]
    refine ⟨habs.trans_le hle, fun htie => ?_⟩
    have := hhalf.1 (habs.symm.trans htie)
    omega
  · next hup =>
    have hge : 1 / 2 ≤ (r : ℚ) / den := by
      rw [div_le_div_iff₀ (by norm_num) hd']
      exact_mod_cast (by omega : 1 * den ≤ r * 2)
    have hone : (r : ℚ) / den < 1 := (div_lt_one hd').2 hlt
    have habs : |(q : ℚ) + r / den - (q + 1 : Nat)| = 1 - r / den := by
      rw [abs_sub_comm, abs_of_nonneg] <;> push_cast <;> linarith
    refine ⟨habs.trans_le (by linarith), fun htie => ?_⟩
    have := hhalf.1 (by linarith)
    omega

namespace RoundsTo

variable {s : ℚ} {m : Nat} (h : RoundsTo s m)
include h

/-- Another natural number is at least half a unit away. -/
theorem half_le {k : Nat} (hk : k ≠ m) : 1 / 2 ≤ |s - k| := by
  have hone : (1 : ℚ) ≤ |(k : ℚ) - m| := by
    have hint : (1 : ℤ) ≤ |(k : ℤ) - m| := Int.one_le_abs (by omega)
    exact_mod_cast hint
  have htriangle := abs_sub_le (k : ℚ) s m
  rw [abs_sub_comm (k : ℚ) s] at htriangle
  have := h.near
  linarith

theorem le_abs_sub (k : Nat) : |s - m| ≤ |s - k| := by
  by_cases hk : k = m
  · rw [hk]
  · exact h.near.trans (h.half_le hk)

/-- Two natural numbers that are equally near are neighbours, and the even one is taken. -/
theorem parity_of_tie {k : Nat} (hk : k ≠ m) (htie : |s - k| = |s - m|) :
    m % 2 = 0 ∧ k % 2 = 1 := by
  have hhalf : |s - m| = 1 / 2 := le_antisymm h.near (htie ▸ h.half_le hk)
  have hle : |(k : ℚ) - m| ≤ 1 := by
    have htriangle := abs_sub_le (k : ℚ) s m
    rw [abs_sub_comm (k : ℚ) s, htie, hhalf] at htriangle
    linarith
  have hint : |(k : ℤ) - m| ≤ 1 := by exact_mod_cast hle
  have heven := h.even hhalf
  rw [abs_le] at hint
  omega

end RoundsTo

/-! ### Rounding to a grid -/

theorem two_zpow_pos (e : Int) : (0 : ℚ) < (2 : ℚ) ^ e := zpow_pos (by norm_num) e

theorem two_zpow_add_one (e : Int) : (2 : ℚ) ^ (e + 1) = 2 * (2 : ℚ) ^ e := by
  rw [zpow_add_one₀ (by norm_num), mul_comm]

theorem mantissaLimit_eq : (mantissaLimit : ℚ) = 2 * fullMantissa := by
  norm_num [mantissaLimit, fullMantissa]

namespace FiniteDouble

/-- A double is on the grid of an exponent, an odd point having an odd mantissa, or else its own
exponent is less and it is below the points of full length. -/
theorem onGrid_or_below (x : FiniteDouble) (e : Int) :
    (∃ k : Nat, x.absValue = k * (2 : ℚ) ^ e ∧ (k % 2 = 1 → x.mantissa % 2 = 1))
      ∨ x.exponent < e ∧ x.absValue < fullMantissa * (2 : ℚ) ^ e := by
  rcases lt_or_ge x.exponent e with hlt | hge
  · refine .inr ⟨hlt, ?_⟩
    have hmantissa : (x.mantissa : ℚ) < mantissaLimit := by exact_mod_cast x.mantissa_lt
    have hpow : (2 : ℚ) ^ x.exponent ≤ (2 : ℚ) ^ (e - 1) :=
      zpow_le_zpow_right₀ (by norm_num) (by omega)
    have hstep := two_zpow_add_one (e - 1)
    rw [sub_add_cancel] at hstep
    calc x.mantissa * (2 : ℚ) ^ x.exponent
      _ < mantissaLimit * (2 : ℚ) ^ x.exponent :=
        mul_lt_mul_of_pos_right hmantissa (two_zpow_pos _)
      _ ≤ mantissaLimit * (2 : ℚ) ^ (e - 1) :=
        mul_le_mul_of_nonneg_left hpow (Nat.cast_nonneg _)
      _ = fullMantissa * (2 : ℚ) ^ e := by
        rw [hstep, mantissaLimit_eq]
        ring
  · refine .inl ⟨x.mantissa * 2 ^ (x.exponent - e).toNat, ?_, fun hodd => ?_⟩
    · have he : x.exponent = ((x.exponent - e).toNat : Int) + e := by omega
      rw [absValue]
      conv_lhs => rw [he, zpow_add₀ (by norm_num), zpow_natCast]
      push_cast
      ring
    · rw [← Nat.odd_iff, Nat.odd_mul] at hodd
      exact Nat.odd_iff.1 hodd.1

end FiniteDouble

section

variable {r : ℚ} {e : Int} {m : Nat} (hround : RoundsTo (r / (2 : ℚ) ^ e) m)
  (hfull : fullMantissa * (2 : ℚ) ^ e ≤ r ∨ e = -1074)

theorem abs_sub_grid (r : ℚ) (e : Int) (k : Nat) :
    |r - k * (2 : ℚ) ^ e| = |r / (2 : ℚ) ^ e - k| * (2 : ℚ) ^ e := by
  have hp := two_zpow_pos e
  rw [← abs_of_pos hp, ← abs_mul, sub_mul, abs_of_pos hp, div_mul_cancel₀ _ (ne_of_gt hp)]

include hround

theorem le_abs_sub_grid (k : Nat) : |r - m * (2 : ℚ) ^ e| ≤ |r - k * (2 : ℚ) ^ e| := by
  rw [abs_sub_grid, abs_sub_grid]
  exact mul_le_mul_of_nonneg_right (hround.le_abs_sub k) (two_zpow_pos e).le

include hfull

/-- What is below the grid is farther away than the point that is rounded to. -/
theorem lt_abs_sub_below {y : FiniteDouble} (hexponent : y.exponent < e)
    (hbelow : y.absValue < fullMantissa * (2 : ℚ) ^ e) :
    |r - m * (2 : ℚ) ^ e| < |r - y.absValue| := by
  have hle : fullMantissa * (2 : ℚ) ^ e ≤ r := by
    refine hfull.resolve_right fun he => ?_
    have := y.exponent_ge
    omega
  calc |r - m * (2 : ℚ) ^ e|
    _ ≤ |r - fullMantissa * (2 : ℚ) ^ e| := le_abs_sub_grid hround fullMantissa
    _ = r - fullMantissa * (2 : ℚ) ^ e := abs_of_nonneg (by linarith)
    _ < r - y.absValue := by linarith
    _ ≤ |r - y.absValue| := le_abs_self _

/-- A double at the point of the grid that a magnitude is rounded to is the nearest one. -/
theorem FiniteDouble.isNearest_of_roundsTo {x : FiniteDouble} (hx : x.absValue = m * (2 : ℚ) ^ e)
    (heven : m % 2 = 0 → x.mantissa % 2 = 0) : x.IsNearest r := by
  refine ⟨fun y => ?_, fun y htie hne => ?_⟩
  · rw [hx]
    rcases y.onGrid_or_below e with ⟨k, hk, -⟩ | ⟨hexponent, hbelow⟩
    · rw [hk]
      exact le_abs_sub_grid hround k
    · exact (lt_abs_sub_below hround hfull hexponent hbelow).le
  · rw [hx] at htie hne
    rcases y.onGrid_or_below e with ⟨k, hk, hodd⟩ | ⟨hexponent, hbelow⟩
    · rw [hk] at htie hne
      rw [abs_sub_grid, abs_sub_grid, mul_left_inj' (ne_of_gt (two_zpow_pos e))] at htie
      have hkm : k ≠ m := fun h => hne (by rw [h])
      obtain ⟨hm, hk⟩ := hround.parity_of_tie hkm htie
      exact ⟨heven hm, hodd hk⟩
    · exact absurd htie (ne_of_gt (lt_abs_sub_below hround hfull hexponent hbelow))

end

/-! ### The nearest double -/

namespace FiniteDouble

theorem absValue_eq_zero_iff {x : FiniteDouble} : x.absValue = 0 ↔ x.mantissa = 0 := by
  rw [absValue, mul_eq_zero, or_iff_left (ne_of_gt (two_zpow_pos _)), Nat.cast_eq_zero]

/-- A double that is not zero is not below the least one above zero. -/
theorem least_le_absValue {x : FiniteDouble} (h : x.absValue ≠ 0) :
    (2 : ℚ) ^ (-1074 : Int) ≤ x.absValue := by
  have hmantissa : x.mantissa ≠ 0 := mt absValue_eq_zero_iff.2 h
  have hone : (1 : ℚ) ≤ x.mantissa := by exact_mod_cast Nat.pos_of_ne_zero hmantissa
  calc (2 : ℚ) ^ (-1074 : Int)
    _ ≤ (2 : ℚ) ^ x.exponent := zpow_le_zpow_right₀ (by norm_num) x.exponent_ge
    _ = 1 * (2 : ℚ) ^ x.exponent := (one_mul _).symm
    _ ≤ x.mantissa * (2 : ℚ) ^ x.exponent :=
      mul_le_mul_of_nonneg_right hone (two_zpow_pos _).le

/-- Doubles of one sign and one magnitude are equal. -/
theorem eq_of_absValue {x y : FiniteDouble} (hsign : x.negative = y.negative)
    (h : x.absValue = y.absValue) : x = y := by
  have hzero : x.mantissa = 0 ↔ y.mantissa = 0 := by
    rw [← absValue_eq_zero_iff, h, absValue_eq_zero_iff]
  by_cases hx : x.mantissa = 0
  · rw [eq_zero_of_mantissa hx, eq_zero_of_mantissa (hzero.1 hx), hsign]
  · have hy : y.mantissa ≠ 0 := mt hzero.2 hx
    -- both are the nearest one to the quotient that the second is
    have hquotient : quotient y.numerator y.denominator = quotient x.numerator x.denominator := by
      rw [x.quotient_eq, y.quotient_eq]
      exact h.symm
    have hreadx := Double.nearest_eq_finite x y.denominator_pos hx hquotient
    have hready := Double.nearest_eq_finite y y.denominator_pos hy rfl
    rw [hsign, hready] at hreadx
    cases hreadx
    rfl

end FiniteDouble

namespace Double

/-- There is no more than one nearest double. -/
theorem IsNearest.unique {negative : Bool} {r : ℚ} {x y : Double} (hx : x.IsNearest negative r)
    (hy : y.IsNearest negative r) : x = y := by
  cases hx with
  | infinite hx =>
    cases hy with
    | infinite _ => rfl
    | finite _ hy _ => exact absurd hy (not_lt.2 hx)
  | @finite x hxsign hx hxnear =>
    cases hy with
    | infinite hy => exact absurd hx (not_lt.2 hy)
    | @finite y hysign _ hynear =>
      have htie : |r - y.absValue| = |r - x.absValue| :=
        le_antisymm (hynear.nearest x) (hxnear.nearest y)
      have hvalue : x.absValue = y.absValue := by
        by_contra hne
        have heven := (hynear.even x htie.symm hne).1
        have hodd := (hxnear.even y htie (Ne.symm hne)).2
        omega
      rw [FiniteDouble.eq_of_absValue (hxsign.trans hysign.symm) hvalue]

theorem lt_overflowLimit {r : ℚ} {e : Int} (hr : r < mantissaLimit * (2 : ℚ) ^ e) (he : e < 971) :
    r < overflowLimit := by
  have hpow : (2 : ℚ) ^ e ≤ (2 : ℚ) ^ (970 : Int) := zpow_le_zpow_right₀ (by norm_num) (by omega)
  have hstep := two_zpow_add_one 970
  have hp := two_zpow_pos 970
  have hlimit : (1 : ℚ) ≤ mantissaLimit := by norm_num [mantissaLimit]
  calc r
    _ < mantissaLimit * (2 : ℚ) ^ e := hr
    _ ≤ mantissaLimit * (2 : ℚ) ^ (970 : Int) := mul_le_mul_of_nonneg_left hpow (Nat.cast_nonneg _)
    _ ≤ (2 * mantissaLimit - 1) * (2 : ℚ) ^ (970 : Int) :=
      mul_le_mul_of_nonneg_right (by linarith) hp.le
    _ = overflowLimit := by
      rw [overflowLimit, show (971 : Int) = 970 + 1 from rfl, hstep]
      ring

/-- The first power of two beyond the format is too large. -/
theorem overflowLimit_le_beyond : overflowLimit ≤ mantissaLimit * (2 : ℚ) ^ (971 : Int) :=
  mul_le_mul_of_nonneg_right (by linarith) (two_zpow_pos _).le

theorem overflowLimit_le {r : ℚ} {e : Int} (hr : fullMantissa * (2 : ℚ) ^ e ≤ r) (he : 971 < e) :
    overflowLimit ≤ r := by
  have hpow : (2 : ℚ) ^ (972 : Int) ≤ (2 : ℚ) ^ e := zpow_le_zpow_right₀ (by norm_num) (by omega)
  have hstep := two_zpow_add_one 971
  calc overflowLimit
    _ ≤ mantissaLimit * (2 : ℚ) ^ (971 : Int) := overflowLimit_le_beyond
    _ = fullMantissa * (2 : ℚ) ^ (972 : Int) := by
      rw [show (972 : Int) = 971 + 1 from rfl, hstep, mantissaLimit_eq]
      ring
    _ ≤ fullMantissa * (2 : ℚ) ^ e := mul_le_mul_of_nonneg_left hpow (Nat.cast_nonneg _)
    _ ≤ r := hr

/-- Zero is the nearest double to what is less than half of the least one above it. -/
theorem isNearest_zero (negative : Bool) {r : ℚ} (hr : 0 ≤ r)
    (hsmall : 2 * r < (2 : ℚ) ^ (-1074 : Int)) : (zero negative).IsNearest negative r := by
  have hzero : (FiniteDouble.zero negative).absValue = 0 := FiniteDouble.absValue_eq_zero_iff.2 rfl
  have hself : |r - (FiniteDouble.zero negative).absValue| = r := by
    rw [hzero, sub_zero, abs_of_nonneg hr]
  have hfar {y : FiniteDouble} (hy : y.absValue ≠ 0) : r < |r - y.absValue| := by
    have hleast := FiniteDouble.least_le_absValue hy
    have hle := neg_le_abs (r - y.absValue)
    linarith
  have hlimit : (1 : ℚ) ≤ mantissaLimit := by norm_num [mantissaLimit]
  have hlt : r < mantissaLimit * (2 : ℚ) ^ (-1074 : Int) := by
    have := mul_le_mul_of_nonneg_right hlimit (two_zpow_pos (-1074)).le
    linarith
  refine .finite rfl (lt_overflowLimit hlt (by decide)) ⟨fun y => ?_, fun y htie hne => ?_⟩
  · rw [hself]
    by_cases hy : y.absValue = 0
    · rw [hy, sub_zero, abs_of_nonneg hr]
    · exact (hfar hy).le
  · rw [hself] at htie
    rw [hzero] at hne
    exact absurd htie (ne_of_gt (hfar hne))

theorem isNearest_of_eq_zero (negative : Bool) {r : ℚ} (h : r = 0) :
    (zero negative).IsNearest negative r := by
  refine isNearest_zero negative h.ge ?_
  rw [h, mul_zero]
  exact two_zpow_pos _

section

variable {r : ℚ} {e : Int} {m : Nat} (hround : RoundsTo (r / (2 : ℚ) ^ e) m)
  (hfull : fullMantissa * (2 : ℚ) ^ e ≤ r ∨ e = -1074) (hlt : r < mantissaLimit * (2 : ℚ) ^ e)
include hround

include hlt in
theorem le_mantissaLimit_of_roundsTo : m ≤ mantissaLimit := by
  have hs : r / (2 : ℚ) ^ e < mantissaLimit := (div_lt_iff₀ (two_zpow_pos e)).2 hlt
  have hnear := abs_le.1 hround.near
  by_contra hm
  have hm' : (mantissaLimit : ℚ) + 1 ≤ m := by exact_mod_cast Nat.lt_of_not_le hm
  linarith

include hfull in
theorem fullMantissa_le_of_roundsTo : fullMantissa ≤ m ∨ e = -1074 := by
  refine hfull.imp_left fun hle => ?_
  have hs : (fullMantissa : ℚ) ≤ r / (2 : ℚ) ^ e := (le_div_iff₀ (two_zpow_pos e)).2 hle
  have hnear := abs_le.1 hround.near
  by_contra hm
  have hm' : (m : ℚ) + 1 ≤ fullMantissa := by exact_mod_cast Nat.lt_of_not_le hm
  linarith

include hfull hlt in
/-- What is too large shows in what it is rounded to. -/
theorem overflowLimit_le_iff : overflowLimit ≤ r ↔ 971 < e ∨ e = 971 ∧ m = mantissaLimit := by
  have hnear := abs_le.1 hround.near
  have hm := le_mantissaLimit_of_roundsTo hround hlt
  rcases lt_trichotomy e 971 with he | rfl | he
  · have := lt_overflowLimit hlt he
    exact iff_of_false (not_le.2 this) (by omega)
  · have hlimit : overflowLimit ≤ r ↔ (mantissaLimit : ℚ) - 1 / 2 ≤ r / (2 : ℚ) ^ (971 : Int) :=
      (le_div_iff₀ (two_zpow_pos 971)).symm
    rw [hlimit]
    refine ⟨fun h => .inr ⟨rfl, ?_⟩, fun h => ?_⟩
    · -- the greatest mantissa is odd, so a tie does not go to it
      by_contra hne
      have hle : (m : ℚ) + 1 ≤ mantissaLimit := by exact_mod_cast (by omega : m + 1 ≤ mantissaLimit)
      have htie : r / (2 : ℚ) ^ (971 : Int) - m = 1 / 2 := by linarith
      have heven := hround.even (by rw [htie]; norm_num)
      have hgreatest : (m : ℚ) + 1 = mantissaLimit := by linarith
      have hodd : m + 1 = mantissaLimit := by exact_mod_cast hgreatest
      rw [mantissaLimit] at hodd
      omega
    · have hm : m = mantissaLimit := by omega
      rw [hm] at hnear
      linarith
  · have hle : fullMantissa * (2 : ℚ) ^ e ≤ r := hfull.resolve_right (by omega)
    exact iff_of_true (overflowLimit_le hle he) (.inl he)

include hfull in
/-- Parts that have the value that is rounded to make the nearest double. -/
theorem isNearest_ofParts (negative : Bool) {mantissa : Nat} {exponent : Int}
    (hvalue : mantissa * (2 : ℚ) ^ exponent = m * (2 : ℚ) ^ e)
    (heven : m % 2 = 0 → mantissa % 2 = 0) (hmantissa : mantissa < mantissaLimit)
    (hge : -1074 ≤ exponent) (hnormal : fullMantissa ≤ mantissa ∨ exponent = -1074)
    (hlarge : overflowLimit ≤ r ↔ 971 < exponent) :
    (ofParts negative mantissa exponent).IsNearest negative r := by
  unfold ofParts
  by_cases hle : exponent ≤ 971
  · have hlimit : r < overflowLimit := not_le.1 fun h => absurd (hlarge.1 h) (not_lt.2 hle)
    rw [dif_pos ⟨hmantissa, hge, hle, hnormal⟩]
    exact .finite rfl hlimit (FiniteDouble.isNearest_of_roundsTo hround hfull hvalue heven)
  · rw [dif_neg fun h => hle h.2.2.1]
    exact .infinite (hlarge.2 (not_le.1 hle))

end

/-- The number on the grid of an exponent. -/
theorem quotient_grid (num den : Nat) (e : Int) :
    quotient (num * Nat.pow 2 (-e).toNat) (den * Nat.pow 2 e.toNat)
      = quotient num den / (2 : ℚ) ^ e := by
  have hpow := zpow_eq_quotient 2 (by decide) e
  push_cast at hpow
  rw [hpow, quotient, quotient, quotient]
  push_cast
  rw [div_div_div_eq]

/-- The exponent is picked so that the mantissa has full length, if it is not the least one. -/
theorem bounds_of_exponent {r : ℚ} (hr : 0 < r) {e : Int}
    (he : max (Int.log 2 r - 52) (-1074) = e) :
    (fullMantissa * (2 : ℚ) ^ e ≤ r ∨ e = -1074) ∧ r < mantissaLimit * (2 : ℚ) ^ e := by
  constructor
  · by_cases hleast : e = -1074
    · exact .inr hleast
    · have hle : 52 + e ≤ Int.log 2 r := by omega
      have hpow : (2 : ℚ) ^ (52 + e) = fullMantissa * (2 : ℚ) ^ e := by
        rw [zpow_add₀ (by norm_num)]
        norm_num [fullMantissa]
      exact .inl (hpow ▸ (zpow_le_iff_le_log hr _).2 hle)
  · have hlt : Int.log 2 r < 53 + e := by omega
    have hpow : (2 : ℚ) ^ (53 + e) = mantissaLimit * (2 : ℚ) ^ e := by
      rw [zpow_add₀ (by norm_num)]
      norm_num [mantissaLimit]
    exact hpow ▸ (lt_zpow_iff_log_lt hr _).2 hlt

/-- A quotient is taken to the nearest double. -/
theorem isNearest_nearest (negative : Bool) (num : Nat) {den : Nat} (hd : 0 < den) :
    (nearest negative num den).IsNearest negative (quotient num den) := by
  unfold nearest
  split
  · next hzero =>
    refine isNearest_of_eq_zero negative ?_
    rw [quotient, hzero, Nat.cast_zero, zero_div]
  · next hn =>
    have hn : 0 < num := Nat.pos_of_ne_zero hn
    rw [quotientLog2_eq_log hn hd]
    dsimp only
    generalize he : max (Int.log 2 (quotient num den) - 52) (-1074) = e
    have hp : 0 < Nat.pow 2 e.toNat := Nat.pow_pos (by decide)
    have hround := roundsTo_roundQuotient (num * Nat.pow 2 (-e).toNat) (Nat.mul_pos hd hp)
    rw [quotient_grid] at hround
    obtain ⟨hfull, hlt⟩ := bounds_of_exponent (quotient_pos hn hd) he
    have hge : -1074 ≤ e := by omega
    have hmantissa := le_mantissaLimit_of_roundsTo hround hlt
    have hnormal := fullMantissa_le_of_roundsTo hround hfull
    have hlarge := overflowLimit_le_iff hround hfull hlt
    generalize roundQuotient (num * Nat.pow 2 (-e).toNat) (den * Nat.pow 2 e.toNat) = m at *
    split
    · next hm =>
      -- rounded up to the next power of two
      refine isNearest_ofParts hround hfull negative ?_ (fun _ => by decide) (by decide) (by omega)
        (.inl le_rfl) (hlarge.trans (by omega))
      rw [hm, two_zpow_add_one, mantissaLimit_eq]
      ring
    · next hm =>
      exact isNearest_ofParts hround hfull negative rfl id (by omega) hge hnormal
        (hlarge.trans (by omega))

/-- A decimal number is read as the nearest double. -/
theorem isNearest_ofDecimal (negative : Bool) (d : Scaled) :
    (ofDecimal negative d.coefficient d.exponent).IsNearest negative d.value := by
  unfold ofDecimal
  split
  · next hzero =>
    refine isNearest_of_eq_zero negative ?_
    rw [Scaled.value, hzero, Nat.cast_zero, zero_mul]
  · next hc =>
    have hc : 0 < d.coefficient := Nat.pos_of_ne_zero hc
    have hpos : 0 < d.value := by
      have : (0 : ℚ) < d.coefficient := by exact_mod_cast hc
      exact mul_pos this (zpow_pos (by norm_num) _)
    have hsize := Scaled.log_value hc
    dsimp only
    rw [← hsize]
    split
    · next hlarge =>
      -- so many digits are beyond the format
      have hle : ((10 : Nat) : ℚ) ^ (309 : Int) ≤ d.value :=
        (Int.zpow_le_iff_le_log (by decide) hpos).2 (by omega)
      rw [Nat.cast_ofNat] at hle
      exact .infinite (overflowLimit_le_beyond.trans (beyond_le_ten_zpow.trans hle))
    · split
      · next hsmall =>
        have hlt : d.value < ((10 : Nat) : ℚ) ^ (-325 : Int) :=
          (Int.lt_zpow_iff_log_lt (by decide) hpos).2 (by omega)
        rw [Nat.cast_ofNat] at hlt
        refine isNearest_zero negative hpos.le (lt_of_lt_of_le ?_ ten_zpow_le_least)
        have hstep : (10 : ℚ) ^ (-324 : Int) = 10 * (10 : ℚ) ^ (-325 : Int) := by
          rw [show (-324 : Int) = -325 + 1 from rfl, zpow_add_one₀ (by norm_num), mul_comm]
        linarith
      · have hp : 0 < Nat.pow 10 (-d.exponent).toNat := Nat.pow_pos (by decide)
        have h := isNearest_nearest negative (d.coefficient * Nat.pow 10 d.exponent.toNat) hp
        rwa [d.quotient_eq_value] at h

/-- A decimal number is read as a double exactly if this is the nearest one. -/
theorem ofDecimal_eq_iff {negative : Bool} {d : Scaled} {x : Double} :
    ofDecimal negative d.coefficient d.exponent = x ↔ x.IsNearest negative d.value :=
  ⟨fun h => h ▸ isNearest_ofDecimal negative d, (isNearest_ofDecimal negative d).unique⟩

end Double

end StagedTable
