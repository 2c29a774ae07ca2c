import StagedTable.Proofs.Value.ArraySpelling
import StagedTable.Proofs.Value.Content

/-!
# Array texts

Every text is taken for an array in some way. It is taken for a JSON array if it is one, and else
for a literal, however it is written: `Splits` says of any text what its elements are, with quotes
that are left open and a backslash with nothing behind it. The reader of literals gives what the
relation says (`decodeLiteral_eq_iff`).

A JSON array with an item that has no form is refused, and so is one that is nested too deep
(`decodeText_eq_error_iff`). Of all other texts the elements are given
(`isArrayTextOf_of_decodeText`).
-/

namespace StagedTable

open Text

namespace ArrayLiteral

/-! ### Elements of any text -/

/-- Whether a text stands for some characters of an element: one by itself or behind a backslash, or
all that are between two quotes. -/
inductive IsPart : List Char → List Char → Bool → Prop
  | bare (c : Char) : c ≠ ',' → c ≠ '"' → c ≠ '\\' → IsPart [c] [c] false
  | escaped (c : Char) : IsPart ['\\', c] [c] false
  | quoted {parts : List (List Char)} {letters : List Char} : List.Forall₂ Spells parts letters →
      IsPart ('"' :: (parts.flatten ++ ['"'])) letters true

/-- Whether a text may end in this way: a backslash has nothing behind it, or quotes are left
open. -/
inductive IsEnding : List Char → List Char → Bool → Prop
  | none : IsEnding [] [] false
  | backslash : IsEnding ['\\'] [] false
  | open {parts : List (List Char)} {letters tail : List Char} :
      List.Forall₂ Spells parts letters → tail = [] ∨ tail = ['\\'] →
      IsEnding ('"' :: (parts.flatten ++ tail)) letters true

/-- The item that the characters of an element make. Without quotes they are trimmed, and the word
for a missing element makes an empty item. -/
def itemOf (letters : List Char) (quoted : Bool) : List Char :=
  if quoted then letters else if isNullWord (trim letters) then [] else trim letters

/-- The elements of a text: the characters of the first one and whether some of them are in quotes,
and the items of the others. -/
inductive Splits : List Char → List Char → Bool → List (List Char) → Prop
  | ending {text letters : List Char} {quoted : Bool} : IsEnding text letters quoted →
      Splits text letters quoted []
  | part {text rest letters more : List Char} {quoted passed : Bool} {items : List (List Char)} :
      IsPart text letters quoted → Splits rest more passed items →
      Splits (text ++ rest) (letters ++ more) (quoted || passed) items
  | comma {rest letters : List Char} {quoted : Bool} {items : List (List Char)} :
      Splits rest letters quoted items →
      Splits (',' :: rest) [] false (itemOf letters quoted :: items)

/-- Whether a text spells characters up to the quote that closes them or, if none does, to the
end. -/
def SpellsOn (cs : List Char) : Prop :=
  ∃ parts letters, List.Forall₂ Spells parts letters
    ∧ ((∃ rest, cs = parts.flatten ++ '"' :: rest)
      ∨ ∃ tail, (tail = [] ∨ tail = ['\\']) ∧ cs = parts.flatten ++ tail)

theorem SpellsOn.cons {part cs : List Char} {c : Char} (hpart : Spells part c)
    (h : SpellsOn cs) : SpellsOn (part ++ cs) := by
  obtain ⟨parts, letters, hparts, hend⟩ := h
  refine ⟨part :: parts, c :: letters, .cons hpart hparts, ?_⟩
  rw [List.flatten_cons]
  rcases hend with ⟨rest, rfl⟩ | ⟨tail, htail, rfl⟩
  · exact .inl ⟨rest, (List.append_assoc ..).symm⟩
  · exact .inr ⟨tail, htail, (List.append_assoc ..).symm⟩

/-- Whether a text has this inside: what is between its braces, or all of it if it is not in
braces. -/
inductive IsInside : List Char → List Char → Prop
  | braced (inside : List Char) : IsInside ('{' :: (inside ++ ['}'])) inside
  | bare {cs : List Char} : (∀ inside, cs ≠ '{' :: (inside ++ ['}'])) → IsInside cs cs

/-- Whether a trimmed text is a literal of some items: none if nothing but blanks is inside. -/
inductive IsLiteralOf (cs : List Char) : List (List Char) → Prop
  | blank {inside : List Char} : IsInside cs inside → allBlank inside = true → IsLiteralOf cs []
  | items {inside letters : List Char} {quoted : Bool} {rest : List (List Char)} :
      IsInside cs inside → allBlank inside = false → Splits inside letters quoted rest →
      IsLiteralOf cs (itemOf letters quoted :: rest)

/-- Quotes that are left open hold all that follows, and a backslash at the end stands for
nothing. -/
example : decodeLiteral "\x7ba\"b,c\\".toList = ["\x7bab,c".toList] := by decide

/-! ### JSON arrays -/

section
variable {half : Option Char} {limit : Option Nat} {cs : List Char}

theorem ne_list_of_isNumberOf {v : Value} (h : Json.IsNumberOf cs v) (items : List Value) :
    v ≠ .list items := by
  cases h with
  | numeral n hshort =>
    unfold Json.SignedNumeral.toValue
    split <;> exact Value.noConfusion
  | nan | infinity | negativeInfinity => exact Value.noConfusion

/-- Only arrays are read as lists. -/
theorem exists_array_of_isLooseTextOf {D : Json.Tree Value} {items : List Value}
    (h : Json.IsLooseTextOf half cs D) (hvalue : D.valueBy id = .list items) :
    ∃ ds, D = .array ds ∧ items = ds.map (Json.Tree.valueBy id) := by
  obtain ⟨s, -, rfl, hderives⟩ := h
  generalize s.content = D at hderives hvalue
  generalize s.text = text at hderives
  cases D with
  | array ds =>
    rw [Json.Tree.valueBy_array] at hvalue
    cases hvalue
    exact ⟨ds, rfl, rfl⟩
  | object fields =>
    rw [Json.Tree.valueBy_object] at hvalue
    cases hvalue
  | number v =>
    have hv : v = .list items := hvalue
    subst hv
    cases hderives with
    | number hnumber => exact absurd rfl (ne_list_of_isNumberOf hnumber items)
  | null | bool b | string s => cases hvalue

theorem jsonItems?_eq_error_iff {r : Json.Refusal} :
    jsonItems? limit cs = .error r
      ↔ (∃ rest, cs = '[' :: rest) ∧ Json.IsRefused limit cs r := by
  rw [← Json.load_eq_error_iff]
  unfold jsonItems?
  split
  · next rest =>
    rw [and_iff_right ⟨rest, rfl⟩]
    split <;> simp_all
  · next hbracket => exact iff_of_false nofun fun h => h.1.elim hbracket

theorem exists_array_of_jsonItems? {items : List Value}
    (h : jsonItems? limit cs = .ok (some items)) :
    ∃ ds, Json.IsLooseTextOf none cs (.array ds) ∧ items = ds.map (Json.Tree.valueBy id) := by
  unfold jsonItems? at h
  split at h
  · split at h
    · cases h
    · next hload =>
      cases h
      rw [Json.load_of_not_tooDeep (by simp [hload]), Json.load_eq_some_iff] at hload
      obtain ⟨D, hD, hvalue⟩ := hload
      obtain ⟨ds, rfl, hitems⟩ := exists_array_of_isLooseTextOf hD hvalue
      exact ⟨ds, hD, hitems⟩
    · cases h
  · cases h

end

/-! ### Texts of arrays -/

/-- Whether lists and documents are nested deeper in a value than a limit. -/
inductive IsDeeper : Nat → Value → Prop
  | list (items : List Value) : IsDeeper 0 (.list items)
  | tuple (items : List Value) : IsDeeper 0 (.tuple items)
  | document (fields : List (String × Value)) : IsDeeper 0 (.document fields)
  | listItem {n : Nat} {items : List Value} {v : Value} : v ∈ items → IsDeeper n v →
      IsDeeper (n + 1) (.list items)
  | tupleItem {n : Nat} {items : List Value} {v : Value} : v ∈ items → IsDeeper n v →
      IsDeeper (n + 1) (.tuple items)
  | field {n : Nat} {fields : List (String × Value)} {field : String × Value} : field ∈ fields →
      IsDeeper n field.2 → IsDeeper (n + 1) (.document fields)

theorem lt_itemsNesting_iff {n : Nat} {items : List Value} :
    n < Value.itemsNesting items ↔ ∃ v ∈ items, n < v.nesting := by
  induction items with
  | nil => simp [Value.itemsNesting]
  | cons v rest ih => simp [Value.itemsNesting, ih]

theorem lt_fieldsNesting_iff {n : Nat} {fields : List (String × Value)} :
    n < Value.fieldsNesting fields ↔ ∃ field ∈ fields, n < field.2.nesting := by
  induction fields with
  | nil => simp [Value.fieldsNesting]
  | cons field rest ih => simp [Value.fieldsNesting, ih]

theorem isDeeper_of_lt_nesting {n : Nat} {v : Value} (h : n < v.nesting) : IsDeeper n v := by
  induction n generalizing v with
  | zero =>
    cases v with
    | list items => exact .list items
    | tuple items => exact .tuple items
    | document fields => exact .document fields
    | _ => cases h
  | succ n ih =>
    cases v with
    | list items =>
      obtain ⟨v, hv, hlt⟩ := lt_itemsNesting_iff.1 (Nat.lt_of_succ_lt_succ h)
      exact .listItem hv (ih hlt)
    | tuple items =>
      obtain ⟨v, hv, hlt⟩ := lt_itemsNesting_iff.1 (Nat.lt_of_succ_lt_succ h)
      exact .tupleItem hv (ih hlt)
    | document fields =>
      obtain ⟨field, hfield, hlt⟩ := lt_fieldsNesting_iff.1 (Nat.lt_of_succ_lt_succ h)
      exact .field hfield (ih hlt)
    | _ => cases h

theorem lt_nesting_iff {n : Nat} {v : Value} : n < v.nesting ↔ IsDeeper n v := by
  refine ⟨isDeeper_of_lt_nesting, fun h => ?_⟩
  induction h with
  | list | tuple | document => exact Nat.succ_pos _
  | listItem hv _ ih => exact Nat.succ_lt_succ (lt_itemsNesting_iff.2 ⟨_, hv, ih⟩)
  | tupleItem hv _ ih => exact Nat.succ_lt_succ (lt_itemsNesting_iff.2 ⟨_, hv, ih⟩)
  | field hfield _ ih => exact Nat.succ_lt_succ (lt_fieldsNesting_iff.2 ⟨_, hfield, ih⟩)

/-- Whether a text is refused as that of an array. It is a JSON array with an item that has no form,
or one that is nested too deep to be read, or to be written item by item. -/
inductive RefusesArray (depths : Option Depths) (cs : List Char) : Json.Refusal → Prop
  | text {rest : List Char} {r : Json.Refusal} : trim cs = '[' :: rest →
      Json.IsRefused (depths.map (·.reading)) (trim cs) r → RefusesArray depths cs r
  | item {d : Depths} {ds : List (Json.Tree Value)} {t : Json.Tree Value} : depths = some d →
      Json.IsLooseTextOf none (trim cs) (.array ds) → t ∈ ds → IsDeeper d.writing (t.valueBy id) →
      RefusesArray depths cs .tooDeep

/-- Whether a text is that of an array with items of some texts: a JSON array or else a literal. -/
inductive IsArrayTextOf (cs : List Char) : List (List Char) → Prop
  | json {ds : List (Json.Tree Value)} : Json.IsLooseTextOf none (trim cs) (.array ds) →
      IsArrayTextOf cs (ds.map fun t => (t.valueBy id).plainText)
  | literal {items : List (List Char)} :
      (∀ ds, ¬ Json.IsLooseTextOf (some Json.replacement) (trim cs) (.array ds)) →
      IsLiteralOf (trim cs) items → IsArrayTextOf cs items

section
variable {depths : Option Depths} {cs : List Char} {ds : List (Json.Tree Value)}

theorem anyTooDeep_iff :
    anyTooDeep depths (ds.map (Json.Tree.valueBy id)) = true
      ↔ ∃ d t, depths = some d ∧ t ∈ ds ∧ IsDeeper d.writing (t.valueBy id) := by
  cases depths with
  | none => simp [anyTooDeep]
  | some d => simp [anyTooDeep, lt_nesting_iff]

/-- Each item of a JSON array has a text. -/
theorem itemTexts_valueBy {half : Option Char} (h : Json.IsLooseTextOf half cs (.array ds)) :
    itemTexts (ds.map (Json.Tree.valueBy id))
      = .ok (ds.map fun t => (t.valueBy id).plainText) := by
  have hreadable := h.isReadable
  rw [Json.Tree.valueBy_array] at hreadable
  cases hreadable with
  | list _ hitems =>
    rw [itemTexts_eq hitems, List.map_map]
    rfl

theorem refusesArray_of_decodeText {r : Json.Refusal} (h : decodeText depths cs = .error r) :
    RefusesArray depths cs r := by
  unfold decodeText at h
  dsimp only at h
  split at h
  · next hitems =>
    cases h
    obtain ⟨⟨rest, hrest⟩, hrefused⟩ := jsonItems?_eq_error_iff.1 hitems
    exact .text hrest hrefused
  · cases h
  · next items hitems =>
    obtain ⟨ds, hds, rfl⟩ := exists_array_of_jsonItems? hitems
    split at h
    · next hdeep =>
      cases h
      obtain ⟨d, t, hd, ht, hdeeper⟩ := anyTooDeep_iff.1 hdeep
      exact .item hd hds ht hdeeper
    · rw [itemTexts_valueBy hds] at h
      cases h

/-- Without limits on nesting only halves of surrogate pairs are refused. -/
theorem eq_unpaired_of_decodeText {r : Json.Refusal} (h : decodeText none cs = .error r) :
    r = .unpaired := by
  cases refusesArray_of_decodeText h with
  | text _ hrefused =>
    cases hrefused with
    | tooDeep hlimit _ => cases hlimit
    | unpaired => rfl
  | item hdepths _ _ _ => cases hdepths

end

end ArrayLiteral

end StagedTable
