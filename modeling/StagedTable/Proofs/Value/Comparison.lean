import StagedTable.Proofs.Value.Cell
import StagedTable.Value.Temporal

/-!
# Comparisons that come to texts

The comparison of two values fails where it comes to the text of a value that holds an integer of
too many digits; all other comparisons tell whether the values are alike (`compare_eq_ok`,
`alike_of_compare`). The same holds of the comparison in a column, which comes to the texts of both
values in a temporal column.
-/

namespace StagedTable

namespace Value

variable {a b : Value}

theorem compare_eq_ok (ha : a.holdsLong = false) (hb : b.holdsLong = false) :
    a.compare b = .ok (a.alike b) := by
  rw [compare, ha, hb, Bool.or_false, Bool.and_false, if_neg Bool.false_ne_true]

theorem alike_of_compare {r : Bool} (h : a.compare b = .ok r) : a.alike b = r := by
  unfold compare at h
  split at h
  · cases h
  · exact Except.ok.inj h

theorem comparesTexts_iff : a.comparesTexts b = true ↔ a ≠ .null ∧ b ≠ .null
    ∧ (a.isJson = true ∨ b.isJson = true ∨ ¬ (a.isBool = b.isBool ∧ a.equal b = true)) := by
  unfold comparesTexts
  split
  · simp
  · simp
  · next hnull hnull' =>
    have ha : a ≠ .null := by
      rintro rfl
      exact hnull rfl
    have hb : b ≠ .null := by
      rintro rfl
      exact hnull' rfl
    rw [Bool.or_eq_true, Bool.or_eq_true, Bool.not_eq_true', Bool.and_eq_false_imp]
    simp [ha, hb, or_assoc]

/-- A comparison fails exactly if it comes to texts and one of the values cannot be written. -/
theorem compare_eq_error_iff {e : RenderError} (ha : a.IsProper) (hb : b.IsProper) :
    a.compare b = .error e ↔ e = .tooManyDigits ∧ ¬ (a.IsReadable ∧ b.IsReadable)
      ∧ a ≠ .null ∧ b ≠ .null
      ∧ (a.isJson = true ∨ b.isJson = true ∨ ¬ (a.isBool = b.isBool ∧ a.equal b = true)) := by
  have hlong : ¬ (a.IsReadable ∧ b.IsReadable) ↔ (a.holdsLong || b.holdsLong) = true := by
    rw [isReadable_iff ha, isReadable_iff hb, ← Bool.or_eq_false_iff, Bool.not_eq_false]
  rw [hlong, ← comparesTexts_iff, compare]
  split
  · next h =>
    rw [Bool.and_eq_true] at h
    simp [h.1, h.2, eq_comm]
  · next h =>
    rw [Bool.and_eq_true] at h
    constructor
    · intro hr
      cases hr
    · rintro ⟨-, htoo, htexts⟩
      exact absurd ⟨htexts, htoo⟩ h

end Value

namespace Column

variable {c : Column} {a b : Value}

/-- A canonical text can be written, whatever value it is of. -/
theorem holdsLong_canonical (h : a.holdsLong = false) : (c.canonical a).holdsLong = false := by
  unfold canonical
  split
  · rfl
  · exact h

theorem compare_eq_ok (ha : a.holdsLong = false) (hb : b.holdsLong = false) :
    c.compare a b = .ok (c.alike a b) := by
  unfold compare alike
  split
  iterate 3 exact Value.compare_eq_ok ha hb
  rw [ha, hb, Bool.or_false, if_neg Bool.false_ne_true]
  exact Value.compare_eq_ok (holdsLong_canonical ha) (holdsLong_canonical hb)

theorem alike_of_compare {r : Bool} (h : c.compare a b = .ok r) : c.alike a b = r := by
  unfold compare at h
  unfold alike
  split at h
  iterate 3 exact Value.alike_of_compare h
  split at h
  · cases h
  · exact Value.alike_of_compare h

end Column

end StagedTable
