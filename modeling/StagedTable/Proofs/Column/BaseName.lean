import StagedTable.Column.Kind
import StagedTable.Proofs.Text.LetterCase
import Mathlib.Data.List.Basic

/-!
# Reading the base name of a type

`TypeName.reading` is the base name with the small sigmas held equal, the only letters that depend
on their surroundings (`map_foldSigma_base`). So it can be read from left to right: a word gives its
small letters, modifiers give nothing, and blanks before a word give one space (`reading_word`,
`reading_modifiers`, `reading_gap`). Brackets at the end stay there, whatever stands before them
(`isSuffix_reading`).
-/

namespace StagedTable

open Text

namespace TypeName

/-! ### Modifiers -/

/-- A modifier: a text in parentheses without a closing one inside, with blanks before it. -/
structure Modifier where
  blanks : List Char
  body : List Char
  isBlank_blanks : allBlank blanks = true
  not_mem_body : ')' ∉ body

/-- How a modifier is written. -/
def Modifier.text (m : Modifier) : List Char := m.blanks ++ '(' :: (m.body ++ [')'])

/-- How modifiers in a row are written. -/
def modifiersText (modifiers : List Modifier) : List Char := modifiers.flatMap (·.text)

theorem modifiersText_cons (m : Modifier) (modifiers : List Modifier) :
    modifiersText (m :: modifiers) = m.text ++ modifiersText modifiers := rfl

theorem modifiersText_cases (modifiers : List Modifier) :
    modifiersText modifiers = [] ∨ ∃ cs, modifiersText modifiers = cs ++ [')'] := by
  induction modifiers with
  | nil => exact .inl rfl
  | cons m modifiers ih =>
    right
    rw [modifiersText_cons]
    rcases ih with h | ⟨cs, h⟩
    · exact ⟨m.blanks ++ '(' :: m.body, by simp [h, Modifier.text]⟩
    · exact ⟨m.text ++ cs, by rw [h, List.append_assoc]⟩

/-! ### Collapsing blanks -/

theorem isBlank_foldSigma (c : Char) : isBlank (foldSigma c) = isBlank c := by
  unfold foldSigma
  split
  · next h => rw [h]; rfl
  · rfl

theorem collapse_foldSigma (inRun : Bool) (cs : List Char) :
    collapse inRun (cs.map foldSigma) = (collapse inRun cs).map foldSigma := by
  induction cs generalizing inRun with
  | nil => rfl
  | cons c cs ih =>
    rw [List.map_cons, collapse, collapse, isBlank_foldSigma, ih, ih]
    split
    · split <;> rfl
    · rfl

/-- What a gap collapses to. -/
def spaceOf (g : List Char) : List Char := if g = [] then [] else [' ']

/-- Up to a character that is no blank, whatever follows it. -/
theorem collapse_append_cons (inRun : Bool) (cs : List Char) {c : Char} (hc : isBlank c = false)
    (rest : List Char) :
    collapse inRun (cs ++ c :: rest) = collapse inRun cs ++ c :: collapse false rest := by
  induction cs generalizing inRun with
  | nil => simp [collapse, hc]
  | cons d cs ih =>
    rw [List.cons_append, collapse, collapse]
    split
    · split
      · rw [ih]
      · rw [ih, List.cons_append]
    · rw [ih, List.cons_append]

theorem collapse_word {w : List Char} (hw : ∀ c ∈ w, isBlank c = false) (rest : List Char) :
    collapse false (w ++ rest) = w ++ collapse false rest := by
  induction w with
  | nil => rfl
  | cons c w ih =>
    rw [List.forall_mem_cons] at hw
    rw [List.cons_append, collapse, hw.1, ih hw.2]
    rfl

theorem collapse_blanks {g : List Char} (hg : allBlank g = true) (rest : List Char) :
    collapse true (g ++ rest) = collapse true rest := by
  induction g with
  | nil => rfl
  | cons c g ih =>
    rw [allBlank, List.all_cons, Bool.and_eq_true] at hg
    rw [List.cons_append, collapse, if_pos hg.1, if_pos rfl, ih hg.2]

theorem collapse_gap {g : List Char} (hg : allBlank g = true) {c : Char} (hc : isBlank c = false)
    (rest : List Char) :
    collapse false (g ++ c :: rest) = spaceOf g ++ c :: collapse false rest := by
  cases g with
  | nil => simp [collapse, spaceOf, hc]
  | cons d g =>
    rw [allBlank, List.all_cons, Bool.and_eq_true] at hg
    rw [List.cons_append, collapse, if_pos hg.1, if_neg (by decide), collapse_blanks hg.2]
    simp [collapse, spaceOf, hc]

theorem not_mem_collapse {c : Char} (hc : c ≠ ' ') (inRun : Bool) {cs : List Char} (h : c ∉ cs) :
    c ∉ collapse inRun cs := by
  induction cs generalizing inRun with
  | nil => exact h
  | cons d cs ih =>
    have hd := List.ne_of_not_mem_cons h
    have hcs := List.not_mem_of_not_mem_cons h
    unfold collapse
    split
    · split
      · exact ih true hcs
      · exact List.not_mem_cons_of_ne_of_not_mem hc (ih true hcs)
    · exact List.not_mem_cons_of_ne_of_not_mem hd (ih false hcs)

/-! ### Leaving out modifiers -/

theorem opensModifier_foldSigma (cs : List Char) :
    opensModifier (cs.map foldSigma) = opensModifier cs := by
  cases cs with
  | nil => rfl
  | cons c rest =>
    have hopen : foldSigma c = '(' ↔ c = '(' := foldSigma_eq_iff (by decide) (by decide)
    have hclose : ∀ d, foldSigma d = ')' ↔ d = ')' :=
      fun d => foldSigma_eq_iff (by decide) (by decide)
    rw [Bool.eq_iff_iff]
    simp [opensModifier, hopen, hclose]

theorem withoutModifiers_foldSigma (inside : Bool) (cs : List Char) :
    withoutModifiers inside (cs.map foldSigma) = (withoutModifiers inside cs).map foldSigma := by
  induction cs generalizing inside with
  | nil => rfl
  | cons c rest ih =>
    have hspace : foldSigma c = ' ' ↔ c = ' ' := foldSigma_eq_iff (by decide) (by decide)
    have hclose : (foldSigma c != ')') = (c != ')') := by
      rw [Bool.eq_iff_iff, bne_iff_ne, bne_iff_ne, ne_eq, ne_eq,
        foldSigma_eq_iff (by decide) (by decide)]
    rw [List.map_cons, withoutModifiers, withoutModifiers, ← List.map_cons, opensModifier_foldSigma,
      opensModifier_foldSigma, hclose, ih, ih, ih]
    simp only [hspace]
    split
    · rfl
    split
    · rfl
    split <;> rfl

theorem withoutModifiers_word {w : List Char} (hw : ∀ c ∈ w, c ≠ '(' ∧ c ≠ ' ') (rest : List Char) :
    withoutModifiers false (w ++ rest) = w ++ withoutModifiers false rest := by
  induction w with
  | nil => rfl
  | cons c w ih =>
    rw [List.forall_mem_cons] at hw
    simp [withoutModifiers, opensModifier, hw.1, ih hw.2]

theorem withoutModifiers_space {g : List Char} {c : Char} (hc : c ≠ '(') (rest : List Char) :
    withoutModifiers false (spaceOf g ++ c :: rest)
      = spaceOf g ++ withoutModifiers false (c :: rest) := by
  unfold spaceOf
  split
  · rfl
  · simp [withoutModifiers, opensModifier, hc]

theorem withoutModifiers_inside {body : List Char} (h : ')' ∉ body) (rest : List Char) :
    withoutModifiers true (body ++ ')' :: rest) = withoutModifiers false rest := by
  induction body with
  | nil => rfl
  | cons c body ih =>
    have hinside : (c != ')') = true := bne_iff_ne.2 (List.ne_of_not_mem_cons h).symm
    rw [List.cons_append, withoutModifiers, if_pos rfl, hinside,
      ih (List.not_mem_of_not_mem_cons h)]

theorem withoutModifiers_modifier (g : List Char) {body : List Char} (h : ')' ∉ body)
    (rest : List Char) :
    withoutModifiers false (spaceOf g ++ '(' :: (body ++ ')' :: rest))
      = withoutModifiers false rest := by
  have hopens : opensModifier ('(' :: (body ++ ')' :: rest)) = true := by simp [opensModifier]
  have hskip : withoutModifiers false ('(' :: (body ++ ')' :: rest))
      = withoutModifiers false rest := by
    rw [withoutModifiers, if_neg (by decide), if_pos hopens, withoutModifiers_inside h]
  unfold spaceOf
  split
  · exact hskip
  · rw [List.singleton_append, withoutModifiers, if_neg (by decide),
      if_neg (by simp [opensModifier]), if_pos ⟨rfl, hopens⟩, hskip]

/-! ### Reading a name -/

/-- The base name of a text without blanks around it, small sigmas held equal. -/
def reading (cs : List Char) : List Char :=
  withoutModifiers false (collapse false (cs.flatMap smallLetters))

theorem map_foldSigma_base (cs : List Char) : (base cs).map foldSigma = reading (trim cs) := by
  rw [base, ← withoutModifiers_foldSigma, ← collapse_foldSigma, map_foldSigma_lower, reading]

theorem not_blank_of_isSeparator {c : Char} (h : isSeparator c = false) : isBlank c = false := by
  simp only [isSeparator, Bool.or_eq_false_iff] at h
  exact h.1.1

theorem flatMap_blanks {g : List Char} (hg : allBlank g = true) : g.flatMap smallLetters = g := by
  induction g with
  | nil => rfl
  | cons c g ih =>
    rw [allBlank, List.all_cons, Bool.and_eq_true] at hg
    have hc : isSeparator c = true := by simp [isSeparator, hg.1]
    rw [List.flatMap_cons, smallLetters_of_isSeparator hc, ih hg.2]
    rfl

theorem reading_word {w : List Char} (hw : ∀ c ∈ w, isSeparator c = false) (rest : List Char) :
    reading (w ++ rest) = w.flatMap smallLetters ++ reading rest := by
  have hletters : ∀ c ∈ w.flatMap smallLetters, isSeparator c = false := by
    intro c hc
    obtain ⟨d, hd, hc⟩ := List.mem_flatMap.1 hc
    exact isSeparator_of_mem_smallLetters (hw d hd) hc
  have hplain : ∀ c ∈ w.flatMap smallLetters, c ≠ '(' ∧ c ≠ ' ' := by
    intro c hc
    have hseparator := hletters c hc
    constructor <;> rintro rfl <;> cases hseparator
  rw [reading, List.flatMap_append,
    collapse_word fun c hc => not_blank_of_isSeparator (hletters c hc),
    withoutModifiers_word hplain, reading]

theorem reading_modifier (m : Modifier) (rest : List Char) :
    reading (m.text ++ rest) = reading rest := by
  have hbody : ')' ∉ m.body.flatMap smallLetters := by
    intro h
    obtain ⟨d, hd, h⟩ := List.mem_flatMap.1 h
    cases hseparator : isSeparator d with
    | true =>
      rw [smallLetters_of_isSeparator hseparator, List.mem_singleton] at h
      exact m.not_mem_body (h ▸ hd)
    | false => cases isSeparator_of_mem_smallLetters hseparator h
  have htext : (m.text ++ rest).flatMap smallLetters
      = m.blanks ++ '(' :: (m.body.flatMap smallLetters ++ ')' :: rest.flatMap smallLetters) := by
    have hopen : smallLetters '(' = ['('] := rfl
    have hclose : smallLetters ')' = [')'] := rfl
    simp [Modifier.text, flatMap_blanks m.isBlank_blanks, hopen, hclose]
  rw [reading, htext, collapse_gap m.isBlank_blanks rfl, collapse_append_cons _ _ rfl,
    withoutModifiers_modifier _ (not_mem_collapse (by decide) _ hbody), reading]

theorem reading_modifiers (modifiers : List Modifier) (rest : List Char) :
    reading (modifiersText modifiers ++ rest) = reading rest := by
  induction modifiers with
  | nil => rfl
  | cons m modifiers ih =>
    rw [modifiersText_cons, List.append_assoc, reading_modifier, ih]

theorem reading_gap {g : List Char} (hg : allBlank g = true) {c : Char}
    (hc : isSeparator c = false) (rest : List Char) :
    reading (g ++ c :: rest) = spaceOf g ++ reading (c :: rest) := by
  obtain ⟨x, xs, hx⟩ := List.exists_cons_of_ne_nil (smallLetters_ne_nil c)
  have hseparator : isSeparator x = false :=
    isSeparator_of_mem_smallLetters hc (by rw [hx]; exact .head xs)
  have hblank := not_blank_of_isSeparator hseparator
  have hopen : x ≠ '(' := by
    rintro rfl
    cases hseparator
  rw [reading, List.flatMap_append, flatMap_blanks hg, List.flatMap_cons, hx, List.cons_append,
    collapse_gap hg hblank, withoutModifiers_space hopen, reading, List.flatMap_cons, hx,
    List.cons_append, collapse, hblank]
  rfl

/-! ### Brackets -/

theorem contains_brackets {cs : List Char} (h : (cs ++ "[]".toList).contains ')' = true) :
    ')' ∈ cs := by
  simpa using h

/-- Brackets at the end are behind all modifiers. -/
theorem isSuffix_withoutModifiers {inside : Bool} {cs : List Char} (h : inside = true → ')' ∈ cs) :
    "[]".toList <:+ withoutModifiers inside (cs ++ "[]".toList) := by
  induction cs generalizing inside with
  | nil =>
    cases inside with
    | true => cases h rfl
    | false => exact ⟨[], rfl⟩
  | cons c cs ih =>
    rw [List.cons_append, withoutModifiers]
    by_cases hinside : inside = true
    · rw [if_pos hinside]
      exact ih fun hc => (List.mem_cons.1 (h hinside)).resolve_left (bne_iff_ne.1 hc).symm
    rw [if_neg hinside]
    by_cases hopen : opensModifier (c :: (cs ++ "[]".toList)) = true
    · rw [if_pos hopen]
      rw [opensModifier, Bool.and_eq_true] at hopen
      exact ih fun _ => contains_brackets hopen.2
    rw [if_neg hopen]
    have houtside : "[]".toList <:+ withoutModifiers false (cs ++ "[]".toList) := ih nofun
    split
    · exact houtside
    · exact houtside.trans (List.suffix_cons c _)

theorem isSuffix_reading (cs : List Char) : "[]".toList <:+ reading (cs ++ "[]".toList) := by
  have hcollapse : collapse false ((cs ++ "[]".toList).flatMap smallLetters)
      = collapse false (cs.flatMap smallLetters) ++ "[]".toList := by
    rw [List.flatMap_append]
    exact collapse_append_cons false _ rfl _
  rw [reading, hcollapse]
  exact isSuffix_withoutModifiers nofun

end TypeName

end StagedTable
