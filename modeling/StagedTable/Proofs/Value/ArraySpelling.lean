import StagedTable.Proofs.Text.Trimmed
import StagedTable.Proofs.Value.ArrayForms

/-!
# The ways to write an array literal

A list of texts has many literals: each item may stand bare or between quotes, with backslashes
before more characters than need one, and with blanks around it. `Slot` is one element with what is
written around it, and `Spelled` a whole literal.

The reader gives back each bare item as it is. Of a quoted item it also keeps the blanks that are
written around its quotes, so it gives back the list exactly if there are none (`decode_spelled`).
-/

namespace StagedTable

open Text

namespace ArrayLiteral

/-! ### Elements -/

/-- Whether a character may be written so between quotes: behind a backslash, or by itself if it is
neither a quote nor a backslash. -/
inductive Spells : List Char → Char → Prop
  | escaped (c : Char) : Spells ['\\', c] c
  | plain (c : Char) : c ≠ '"' → c ≠ '\\' → Spells [c] c

/-- Whether an item may be written so, and whether it stands in quotes there. A bare item is not
empty, is not the word for a missing element and holds no special character. -/
inductive IsSpelling : Bool → List Char → List Char → Prop
  | bare (cs : List Char) : cs ≠ [] → isNullWord cs = false → (∀ c ∈ cs, isSpecial c = false) →
      IsSpelling false cs cs
  | quoted {parts : List (List Char)} {cs : List Char} : List.Forall₂ Spells parts cs →
      IsSpelling true ('"' :: (parts.flatten ++ ['"'])) cs

/-- An element of a literal with the blanks around it, and the item that it is written for. -/
structure Slot where
  before : List Char
  text : List Char
  after : List Char
  item : List Char
  quoted : Bool
  isBlank_before : allBlank before = true
  isBlank_after : allBlank after = true
  isSpelling : IsSpelling quoted text item

namespace Slot

/-- The element as it is written. -/
def render (s : Slot) : List Char := s.before ++ (s.text ++ s.after)

/-- What the reader takes for the item: in quotes, the blanks around them too. -/
def taken (s : Slot) : List Char :=
  if s.quoted then s.before ++ (s.item ++ s.after) else s.item

/-- A bare item is taken as it is, and so is a quoted one without blanks around it. -/
theorem taken_eq_item_iff (s : Slot) :
    s.taken = s.item ↔ (s.quoted = true → s.before = [] ∧ s.after = []) := by
  unfold taken
  cases s.quoted with
  | false => simp
  | true =>
    rw [if_pos rfl]
    constructor
    · intro h _
      have hlength := congrArg List.length h
      simp only [List.length_append] at hlength
      exact ⟨List.length_eq_zero_iff.1 (by omega), List.length_eq_zero_iff.1 (by omega)⟩
    · intro h
      rw [(h rfl).1, (h rfl).2, List.nil_append, List.append_nil]

end Slot

/-- Between quotes the reader takes each character for what it is spelled for. -/
theorem elements_quoted {parts : List (List Char)} {cs : List Char}
    (h : List.Forall₂ Spells parts cs) (reversed rest : List Char) :
    elements ⟨reversed, true, false, true⟩ (parts.flatten ++ rest)
      = elements ⟨cs.reverse ++ reversed, true, false, true⟩ rest := by
  induction h generalizing reversed with
  | nil => rfl
  | @cons w c parts cs hc _ ih =>
    have hstep : elements ⟨reversed, true, false, true⟩ (w ++ (parts.flatten ++ rest))
        = elements ⟨c :: reversed, true, false, true⟩ (parts.flatten ++ rest) := by
      cases hc with
      | escaped => simp [elements, Element.step]
      | plain _ hquote hslash => simp [elements, Element.step, hquote, hslash]
    rw [List.flatten_cons, List.append_assoc, hstep, ih, List.reverse_cons, List.append_assoc]
    rfl

/-- No blank ends an element or opens or closes quotes. -/
theorem outside_of_allBlank {cs : List Char} (h : allBlank cs = true) :
    ∀ c ∈ cs, c ≠ ',' ∧ c ≠ '"' ∧ c ≠ '\\' := by
  rw [allBlank, List.all_eq_true] at h
  intro c hc
  refine ⟨?_, ?_, ?_⟩ <;> rintro rfl <;> exact absurd (h _ hc) (by decide)

/-- What is written for an item is left as the item, with the blanks around its quotes. -/
theorem Slot.scansTo (s : Slot) : ScansTo s.render s.taken := by
  obtain ⟨before, text, after, item, quoted, hbefore, hafter, hspelling⟩ := s
  have houtside := elements_outside (outside_of_allBlank hbefore) false []
  rw [List.append_nil] at houtside
  cases hspelling with
  | bare _ hne hword hspecial =>
    refine ⟨⟨(before ++ (text ++ after)).reverse, false, false, false⟩, ?_, rfl, rfl, ?_⟩
    · have hblank := fun c hc => isBlank_of_not_special (hspecial c hc)
      have htrim : trim (before ++ (text ++ after)) = text :=
        trim_padded hbefore hafter hne (fun c hc => hblank c (List.mem_of_mem_head? hc))
          fun c hc => hblank c (List.mem_of_getLast? hc)
      simp only [Element.finish, List.reverse_reverse, htrim, hword]
      rfl
    · intro rest
      rw [Slot.render, List.append_assoc, List.append_assoc, Element.fresh, houtside,
        elements_bare hspecial, elements_outside (outside_of_allBlank hafter) false]
      simp
  | @quoted parts _ hparts =>
    refine ⟨⟨(before ++ (item ++ after)).reverse, false, false, true⟩, ?_, rfl, rfl, ?_⟩
    · simp [Element.finish, Slot.taken]
    · intro rest
      -- the opening quote
      have hopen : ∀ more, elements ⟨before.reverse, false, false, false⟩ ('"' :: more)
          = elements ⟨before.reverse, true, false, true⟩ more := by
        intro more
        simp [elements, Element.step]
      -- the closing quote
      have hclose : ∀ reversed more, elements ⟨reversed, true, false, true⟩ ('"' :: more)
          = elements ⟨reversed, false, false, true⟩ more := by
        intro reversed more
        simp [elements, Element.step]
      rw [Slot.render, List.append_assoc, List.append_assoc, Element.fresh, houtside,
        List.cons_append, hopen, List.append_assoc, elements_quoted hparts, List.singleton_append,
        hclose, elements_outside (outside_of_allBlank hafter) true]
      simp

/-- An element holds more than blanks. -/
theorem Slot.allBlank_text (s : Slot) : allBlank s.text = false := by
  obtain ⟨before, text, after, item, quoted, -, -, hspelling⟩ := s
  cases hspelling with
  | bare _ hne _ hspecial =>
    cases text with
    | nil => exact absurd rfl hne
    | cons c r =>
      rw [allBlank, List.all_cons, isBlank_of_not_special (hspecial c (.head _))]
      rfl
  | quoted => rfl

theorem allBlank_intercalate (s : Slot) (rest : List Slot) :
    allBlank (List.intercalate [','] ((s :: rest).map Slot.render)) = false := by
  have htext : s.text.all isBlank = false := s.allBlank_text
  cases rest <;>
    simp only [List.map_cons, List.map_nil, List.intercalate_singleton,
      List.intercalate_cons_cons, Slot.render, allBlank, List.all_append, htext, Bool.false_and,
      Bool.and_false]

/-! ### Literals -/

/-- A literal of a list of items: its elements between braces, with blanks around the braces. If it
has no elements, there may be blanks between the braces. -/
structure Spelled where
  before : List Char
  slots : List Slot
  gap : List Char
  after : List Char
  isBlank_before : allBlank before = true
  isBlank_gap : allBlank gap = true
  isBlank_after : allBlank after = true

namespace Spelled

/-- What stands between the braces. -/
def inside (l : Spelled) : List Char :=
  if l.slots.isEmpty then l.gap else List.intercalate [','] (l.slots.map Slot.render)

/-- The text of the literal. -/
def render (l : Spelled) : List Char := l.before ++ ('{' :: (l.inside ++ ['}']) ++ l.after)

/-- The items that the literal is written for. -/
def items (l : Spelled) : List (List Char) := l.slots.map (·.item)

variable (l : Spelled)

theorem trim_render : trim l.render = '{' :: (l.inside ++ ['}']) := by
  refine trim_padded l.isBlank_before l.isBlank_after (List.cons_ne_nil _ _) ?_ ?_
  · intro c hc
    cases hc
    rfl
  · intro c hc
    rw [← List.cons_append, List.getLast?_concat] at hc
    cases hc
    rfl

theorem decodeLiteral_inside :
    decodeLiteral ('{' :: (l.inside ++ ['}'])) = l.slots.map Slot.taken := by
  have hunbraced : unbraced ('{' :: (l.inside ++ ['}'])) = l.inside := by
    rw [unbraced, List.getLast?_concat, if_pos rfl, List.dropLast_concat]
  rw [decodeLiteral, hunbraced]
  cases hslots : l.slots with
  | nil =>
    have hinside : l.inside = l.gap := by rw [inside, hslots]; rfl
    simp only [hinside, l.isBlank_gap, if_true, List.map_nil]
  | cons s rest =>
    have hinside : l.inside = List.intercalate [','] ((s :: rest).map Slot.render) := by
      rw [inside, hslots]
      rfl
    simp only [hinside, allBlank_intercalate, Bool.false_eq_true, if_false]
    exact elements_join s rest fun t _ => t.scansTo

/-- A literal is read element by element. -/
theorem decode_render :
    decode (.text (String.ofList l.render)) = .ok (l.slots.map Slot.taken) := by
  have hjson : jsonItems? none ('{' :: (l.inside ++ ['}'])) = .ok none := rfl
  rw [decode, String.toList_ofList, decodeText, l.trim_render, Option.map_none, hjson]
  exact congrArg Except.ok l.decodeLiteral_inside

end Spelled

/-- Every literal of a list of items is read. Each item is given back that stands bare or has no
blanks around its quotes, while such blanks become part of the item. So the list is given back
exactly if there are none. -/
theorem decode_spelled (l : Spelled) :
    decode (.text (String.ofList l.render)) = .ok (l.slots.map Slot.taken)
    ∧ (decode (.text (String.ofList l.render)) = .ok l.items
      ↔ ∀ s ∈ l.slots, s.quoted = true → s.before = [] ∧ s.after = []) := by
  refine ⟨l.decode_render, ?_⟩
  rw [l.decode_render, Except.ok.injEq, Spelled.items, List.map_inj_left]
  exact forall₂_congr fun s _ => s.taken_eq_item_iff

/-- A letter in quotes, with blanks before them. -/
def quotedLetter (before : List Char) (c : Char) (hblank : allBlank before = true)
    (hplain : c ≠ '"' ∧ c ≠ '\\') : Slot where
  before := before
  text := ['"', c, '"']
  after := []
  item := [c]
  quoted := true
  isBlank_before := hblank
  isBlank_after := rfl
  isSpelling := .quoted (.cons (.plain c hplain.1 hplain.2) .nil)

/-- Two letters in quotes, with a space behind the comma between them. -/
def spacedPair : Spelled where
  before := []
  slots := [quotedLetter [] 'a' rfl (by decide), quotedLetter [' '] 'b' rfl (by decide)]
  gap := []
  after := []
  isBlank_before := rfl
  isBlank_gap := rfl
  isBlank_after := rfl

/-- The space before a quoted item is given back as part of it. -/
theorem decode_spacedPair :
    spacedPair.render = "\x7b\"a\", \"b\"\x7d".toList ∧ spacedPair.items = ["a".toList, "b".toList]
    ∧ decode (.text "\x7b\"a\", \"b\"\x7d") = .ok ["a".toList, " b".toList]
    ∧ ¬ ∀ l : Spelled, decode (.text (String.ofList l.render)) = .ok l.items := by
  have hdecode : decode (.text "\x7b\"a\", \"b\"\x7d") = .ok ["a".toList, " b".toList] := by decide
  refine ⟨rfl, rfl, hdecode, fun h => ?_⟩
  have hpair := h spacedPair
  exact absurd hpair (by decide)

end ArrayLiteral

end StagedTable
