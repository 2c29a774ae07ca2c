/-!
# Scaled numbers

Natural numbers times a power of ten, and the one form that each of them has without zeros at the
end of the coefficient. The main statements: the reduced form is the same number
(`exists_coefficient_reduced`), and its coefficient is no multiple of ten (`mod_ten_reduced`). A
power of ten is never formed to reduce or to compare.
-/

namespace StagedTable

/-- The decimal number `coefficient · 10 ^ exponent`. -/
structure Scaled where
  coefficient : Nat
  exponent : Int
deriving DecidableEq

namespace Scaled

/-- The same number without zeros at the end of the coefficient. Zero has exponent zero. -/
def reduced (d : Scaled) : Scaled :=
  if d.coefficient = 0 then ⟨0, 0⟩
  else if d.coefficient % 10 = 0 then reduced ⟨d.coefficient / 10, d.exponent + 1⟩
  else d
termination_by d.coefficient
decreasing_by omega

/-- The natural number that it is, if it is one. -/
def toNat? (d : Scaled) : Option Nat :=
  let r := d.reduced
  if 0 ≤ r.exponent then some (r.coefficient * Nat.pow 10 r.exponent.toNat) else none

/-- Reducing takes as many zeros off the coefficient as it adds to the exponent. -/
theorem exists_coefficient_reduced (d : Scaled) (h : d.coefficient ≠ 0) :
    ∃ k : Nat, d.coefficient = d.reduced.coefficient * Nat.pow 10 k
      ∧ d.reduced.exponent = d.exponent + k := by
  fun_induction reduced d with
  | case1 d hd => exact absurd hd h
  | case2 d _ hm ih =>
    dsimp only at ih
    obtain ⟨k, hc, he⟩ := ih (by omega)
    refine ⟨k + 1, ?_, by omega⟩
    calc d.coefficient
      _ = d.coefficient / 10 * 10 := by omega
      _ = _ * Nat.pow 10 k * 10 := congrArg (· * 10) hc
      _ = _ * Nat.pow 10 (k + 1) := Nat.mul_assoc ..
  | case3 d _ _ => exact ⟨0, (Nat.mul_one _).symm, (Int.add_zero _).symm⟩

/-- A reduced coefficient is no multiple of ten, zero aside. -/
theorem mod_ten_reduced (d : Scaled) (h : d.coefficient ≠ 0) :
    d.reduced.coefficient % 10 ≠ 0 := by
  fun_induction reduced d with
  | case1 d hd => exact absurd hd h
  | case2 d _ hm ih =>
    dsimp only at ih
    exact ih (by omega)
  | case3 d _ hm => exact hm

end Scaled

end StagedTable
