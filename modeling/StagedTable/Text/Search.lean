import StagedTable.Text.Letter

/-!
# Looking for words

Prefixes of a text, with exact letters or in any letter case, and texts inside texts.
-/

namespace StagedTable.Text

/-- What follows `start` at the start of a text, if the text starts so. -/
def after? (start cs : List Char) : Option (List Char) :=
  if start.isPrefixOf cs then some (cs.drop start.length) else none

/-- What follows a lower-case ASCII word at the start of a text, the word in any letter case. -/
def afterWord? (word cs : List Char) : Option (List Char) :=
  if isWord word (cs.take word.length) then some (cs.drop word.length) else none

/-- Whether one of the tails of a text, the text itself and the empty text among them, passes a
test. -/
def anyTail (p : List Char → Bool) : List Char → Bool
  | [] => p []
  | c :: rest => p (c :: rest) || anyTail p rest

/-- Whether `part` occurs inside a text. -/
def holds (part cs : List Char) : Bool := anyTail part.isPrefixOf cs

/-- Whether a lower-case ASCII word occurs inside a text, in any letter case. -/
def holdsWord (word cs : List Char) : Bool := anyTail (fun t => (afterWord? word t).isSome) cs

/-- A test holds of some tail exactly if a tail that passes it can be named. -/
theorem anyTail_eq_true_iff {p : List Char → Bool} {cs : List Char} :
    anyTail p cs = true ↔ ∃ t, t <:+ cs ∧ p t = true := by
  induction cs with
  | nil => simp [anyTail]
  | cons c rest ih =>
    rw [anyTail, Bool.or_eq_true, ih]
    constructor
    · rintro (h | ⟨t, ht, hp⟩)
      · exact ⟨_, List.suffix_rfl, h⟩
      · exact ⟨t, ht.trans (List.suffix_cons c rest), hp⟩
    · rintro ⟨t, ht, hp⟩
      rcases List.suffix_cons_iff.1 ht with rfl | ht
      · exact .inl hp
      · exact .inr ⟨t, ht, hp⟩

/-- A text after a start is what remains once the start is taken off. -/
theorem after?_eq_some_iff {start cs rest : List Char} :
    after? start cs = some rest ↔ cs = start ++ rest := by
  unfold after?
  split
  · next h =>
    obtain ⟨t, rfl⟩ := List.isPrefixOf_iff_prefix.1 h
    simp
  · next h =>
    simp only [reduceCtorEq, false_iff]
    rintro rfl
    exact h (List.isPrefixOf_iff_prefix.2 (List.prefix_append _ _))

/-- What follows a word is what remains once the word, however it is written, is taken off. -/
theorem afterWord?_eq_some_iff {word cs rest : List Char} :
    afterWord? word cs = some rest ↔ ∃ w, cs = w ++ rest ∧ isWord word w = true := by
  unfold afterWord?
  constructor
  · split
    · next h =>
      rintro ⟨⟩
      exact ⟨_, (List.take_append_drop _ cs).symm, h⟩
    · rintro ⟨⟩
  · rintro ⟨w, rfl, hw⟩
    have hlength : w.length = word.length := by
      rw [← beq_iff_eq.1 hw, List.length_map]
    rw [List.take_left' hlength, List.drop_left' hlength, if_pos hw]

end StagedTable.Text
