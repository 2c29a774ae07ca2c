import Mathlib.Order.Lattice

/-!
# Stable sorting by a key

Sorting by a key keeps the order of the items under each key (`filter_sorted`), and a list in order
of its keys is told by the items that it has under each of them (`eq_of_filter_eq`). So sorting
leaves only the order of the items under each key (`sorted_eq_of_filter_eq`).
-/

namespace StagedTable

variable {α β : Type} [LinearOrder β] {key : α → β} {l l' : List α}

theorem mem_iff_of_filter_eq (h : ∀ n, l.filter (key · = n) = l'.filter (key · = n)) {a : α} :
    a ∈ l ↔ a ∈ l' := by
  have hclass : a ∈ l.filter (key · = key a) ↔ a ∈ l'.filter (key · = key a) := by rw [h]
  simpa using hclass

/-- Lists in order of a key are the same if they are under each key. -/
theorem eq_of_filter_eq (hl : l.Pairwise (key · ≤ key ·)) (hl' : l'.Pairwise (key · ≤ key ·))
    (h : ∀ n, l.filter (key · = n) = l'.filter (key · = n)) : l = l' := by
  induction l generalizing l' with
  | nil =>
    symm
    exact List.eq_nil_iff_forall_not_mem.2 fun a ha =>
      List.not_mem_nil ((mem_iff_of_filter_eq h).2 ha)
  | cons a rest ih =>
    cases l' with
    | nil => cases (mem_iff_of_filter_eq h).1 (.head rest)
    | cons b rest' =>
      rw [List.pairwise_cons] at hl hl'
      -- either first item is in the other list too, where the first one has the least key
      have hab : key a ≤ key b := by
        rcases List.mem_cons.1 ((mem_iff_of_filter_eq h).2 (.head rest')) with rfl | hb
        · exact le_refl _
        · exact hl.1 b hb
      have hba : key b ≤ key a := by
        rcases List.mem_cons.1 ((mem_iff_of_filter_eq h).1 (.head rest)) with rfl | ha
        · exact le_refl _
        · exact hl'.1 a ha
      have hkey : key b = key a := le_antisymm hba hab
      have hfirst := h (key a)
      rw [List.filter_cons_of_pos (by simp), List.filter_cons_of_pos (by simpa using hkey)]
        at hfirst
      obtain ⟨rfl, -⟩ := List.cons.inj hfirst
      have hrest : ∀ n, rest.filter (key · = n) = rest'.filter (key · = n) := by
        intro n
        have hn := h n
        rw [List.filter_cons, List.filter_cons] at hn
        split at hn
        · exact (List.cons.inj hn).2
        · exact hn
      rw [ih hl.2 hl'.2 hrest]

variable (key) (l)

theorem le_trans_of_key (a b c : α) (hab : decide (key a ≤ key b) = true)
    (hbc : decide (key b ≤ key c) = true) : decide (key a ≤ key c) = true := by
  simp only [decide_eq_true_eq] at hab hbc ⊢
  exact le_trans hab hbc

theorem le_total_of_key (a b : α) : (decide (key a ≤ key b) || decide (key b ≤ key a)) = true := by
  simp only [Bool.or_eq_true, decide_eq_true_eq]
  exact le_total _ _

theorem pairwise_sorted :
    (l.mergeSort fun a b => decide (key a ≤ key b)).Pairwise (key · ≤ key ·) := by
  have hsorted := List.pairwise_mergeSort (le_trans_of_key key) (le_total_of_key key) l
  simpa only [decide_eq_true_eq] using hsorted

/-- Sorting by a key keeps the order of the items under each key. -/
theorem filter_sorted (n : β) :
    (l.mergeSort fun a b => decide (key a ≤ key b)).filter (key · = n) = l.filter (key · = n) := by
  have htied : (l.filter (key · = n)).Pairwise fun a b => decide (key a ≤ key b) = true := by
    refine List.pairwise_of_forall_mem_list ?_
    intro a ha b hb
    have hka : key a = n := by simpa using (List.mem_filter.1 ha).2
    have hkb : key b = n := by simpa using (List.mem_filter.1 hb).2
    exact decide_eq_true (by rw [hka, hkb])
  have hsublist := (List.sublist_mergeSort (le_trans_of_key key) (le_total_of_key key) htied
    List.filter_sublist).filter (key · = n)
  rw [List.filter_filter] at hsublist
  simp only [Bool.and_self] at hsublist
  have hlength := ((List.mergeSort_perm l fun a b => decide (key a ≤ key b)).filter
    (key · = n)).length_eq
  exact (hsublist.eq_of_length hlength.symm).symm

/-- Sorting by a key leaves only the order of the items under each key. -/
theorem sorted_eq_of_filter_eq {l l' : List α}
    (h : ∀ n, l.filter (key · = n) = l'.filter (key · = n)) :
    (l.mergeSort fun a b => decide (key a ≤ key b))
      = l'.mergeSort fun a b => decide (key a ≤ key b) := by
  apply eq_of_filter_eq (pairwise_sorted key l) (pairwise_sorted key l')
  intro n
  rw [filter_sorted, filter_sorted, h]

end StagedTable
