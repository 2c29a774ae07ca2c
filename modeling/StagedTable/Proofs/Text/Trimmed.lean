import StagedTable.Text.Blank
import Mathlib.Data.List.TakeWhile

/-!
# Trimmed texts

Trimming drops nothing but blanks (`mem_trim_iff`, `exists_padding`), it drops all those that were
put around a text (`trim_padded`), and between two other characters it drops none (`trim_enclosed`).
-/

namespace StagedTable.Text

/-- Trimming drops nothing but blanks. -/
theorem mem_trim_iff {c : Char} {cs : List Char} (hblank : isBlank c = false) :
    c ∈ trim cs ↔ c ∈ cs := by
  have hkeep : ∀ {ds : List Char}, c ∈ ds → c ∈ ds.dropWhile isBlank := by
    intro ds hds
    rw [← List.takeWhile_append_dropWhile (p := isBlank) (l := ds), List.mem_append] at hds
    refine hds.resolve_left fun htake => ?_
    rw [List.mem_takeWhile_imp htake] at hblank
    cases hblank
  refine ⟨fun h => (trim_isInfix cs).subset h, fun h => ?_⟩
  exact List.mem_reverse.2 (hkeep (List.mem_reverse.2 (hkeep h)))

/-- A text between blanks that has none at its own ends is what is left when they are trimmed. -/
theorem trim_padded {before after cs : List Char} (hbefore : allBlank before = true)
    (hafter : allBlank after = true) (hne : cs ≠ [])
    (hstart : ∀ c, cs.head? = some c → isBlank c = false)
    (hend : ∀ c, cs.getLast? = some c → isBlank c = false) :
    trim (before ++ (cs ++ after)) = cs := by
  rw [allBlank, List.all_eq_true] at hbefore hafter
  have hleft : trimStart (before ++ (cs ++ after)) = cs ++ after := by
    rw [trimStart, List.dropWhile_append_of_pos hbefore]
    cases cs with
    | nil => exact absurd rfl hne
    | cons c r => rw [List.cons_append, List.dropWhile_cons, if_neg (by simp [hstart c rfl])]
  have hright : trimEnd (cs ++ after) = cs := by
    have hreverse : ∀ c ∈ after.reverse, isBlank c = true := by simpa using hafter
    rw [trimEnd, List.reverse_append, List.dropWhile_append_of_pos hreverse]
    have hlast : cs.reverse.dropWhile isBlank = cs.reverse := by
      cases hr : cs.reverse with
      | nil => rfl
      | cons c r =>
        have hhead : cs.getLast? = some c := by rw [← List.head?_reverse, hr]; rfl
        rw [List.dropWhile_cons, if_neg (by simp [hend c hhead])]
    rw [hlast, List.reverse_reverse]
  rw [trim, hleft, hright]

/-- A text between two characters that are no blanks stays as it is. -/
theorem trim_enclosed {c d : Char} (hc : isBlank c = false) (hd : isBlank d = false)
    (cs : List Char) : trim (c :: (cs ++ [d])) = c :: (cs ++ [d]) := by
  refine trim_eq_self ?_ ?_
  · intro x hx
    cases hx
    exact hc
  · intro x hx
    rw [← List.cons_append, List.getLast?_concat] at hx
    cases hx
    exact hd

theorem allBlank_takeWhile (cs : List Char) : allBlank (cs.takeWhile isBlank) = true :=
  List.all_eq_true.2 fun _ => List.mem_takeWhile_imp

/-- A text is what is left of it with the blanks around it that were dropped. -/
theorem exists_padding (cs : List Char) : ∃ before after, allBlank before = true
    ∧ allBlank after = true ∧ cs = before ++ (trim cs ++ after) := by
  refine ⟨cs.takeWhile isBlank, ((trimStart cs).reverse.takeWhile isBlank).reverse,
    allBlank_takeWhile cs, ?_, ?_⟩
  · rw [allBlank, List.all_reverse]
    exact allBlank_takeWhile _
  · rw [trim, trimEnd, ← List.reverse_append, List.takeWhile_append_dropWhile, List.reverse_reverse,
      trimStart, List.takeWhile_append_dropWhile]

/-- Neither end of what is left is a blank. -/
theorem not_blank_trim_ends (cs : List Char) :
    (∀ c, (trim cs).head? = some c → isBlank c = false)
    ∧ ∀ c, (trim cs).getLast? = some c → isBlank c = false := by
  constructor
  · intro c hc
    obtain ⟨r, hr⟩ := List.head?_eq_some_iff.1 hc
    obtain ⟨rest, hrest⟩ := trimEnd_isPrefix (trimStart cs)
    rw [show trimEnd (trimStart cs) = c :: r from hr] at hrest
    exact head_trimStart hrest.symm
  · intro c hc
    rw [trim, trimEnd, List.getLast?_reverse] at hc
    have := List.head?_dropWhile_not isBlank (trimStart cs).reverse
    rw [hc] at this
    simpa using this

/-- Trimming the start stops at a character that is no blank. -/
theorem trimStart_append {c : Char} (hc : isBlank c = false) (cs ds : List Char) :
    trimStart (cs ++ c :: ds) = trimStart cs ++ c :: ds := by
  induction cs with
  | nil => simp [trimStart, hc]
  | cons d cs ih =>
    unfold trimStart at *
    rw [List.cons_append, List.dropWhile_cons, List.dropWhile_cons]
    split
    · exact ih
    · rfl

/-- Trimming the end stops at a character that is no blank. -/
theorem trimEnd_append {c : Char} (hc : isBlank c = false) (cs ds : List Char) :
    trimEnd (cs ++ c :: ds) = cs ++ c :: trimEnd ds := by
  have := trimStart_append hc ds.reverse cs.reverse
  unfold trimStart at this
  simp [trimEnd, this]

end StagedTable.Text
