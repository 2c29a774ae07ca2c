import StagedTable.Proofs.Value.JsonStrings

/-!
# What the reader of JSON takes

The parts that a JSON text is made of, in every form that the grammar allows for, and what the
reader makes of them whatever follows (`IsTaken`), however deep they are nested. Numbers are written
numerals behind an optional sign. Items and fields stand between commas with white space around them
(`Slot`, `Member`). A list of texts is taken as the list of what the texts are taken for, and refused
if one of them is (`isTaken_array`, `isTaken_object`). The upshot for a whole text is `load_render`.
-/

namespace StagedTable.Json

open Text

/-! ### White space -/

/-- Whether a text is white space. -/
def IsSpace (cs : List Char) : Prop := ∀ c ∈ cs, isSpace c = true

instance (cs : List Char) : Decidable (IsSpace cs) :=
  decidable_of_iff (cs.all isSpace = true) List.all_eq_true

theorem isSpace_nil : IsSpace [] := by
  intro c hc
  cases hc

section
variable {space : List Char} (hspace : IsSpace space)
include hspace

theorem skipSpace_append (rest : List Char) : skipSpace (space ++ rest) = skipSpace rest :=
  List.dropWhile_append_of_pos hspace

/-- White space is skipped up to a character that is none. -/
theorem skipSpace_append_cons {c : Char} (hc : isSpace c = false) (rest : List Char) :
    skipSpace (space ++ c :: rest) = c :: rest := by
  rw [skipSpace_append hspace]
  simp [skipSpace, hc]

/-- A number ends where white space or a character follows that does not extend it. -/
theorem endsNumeral_append {c : Char}
    (hc : isDigit c = false ∧ c ≠ '.' ∧ c ≠ 'e' ∧ c ≠ 'E') (rest : List Char) :
    EndsNumeral (space ++ c :: rest) := by
  cases space with
  | nil => exact endsNumeral_cons hc
  | cons d t =>
    refine endsNumeral_cons ?_
    have hd := hspace d (.head _)
    simp only [isSpace, Bool.or_eq_true, beq_iff_eq] at hd
    rcases hd with ((rfl | rfl) | rfl) | rfl <;> decide

end

/-! ### Texts that are taken -/

/-- Whether a text is taken as a value, or else refused, whatever follows it and by any fuel that
its length allows for. It starts neither with white space nor with a closing bracket. -/
structure IsTaken (half : Option Char) (cs : List Char) (r : Option Value) : Prop where
  head : ∃ c rest, cs = c :: rest ∧ isSpace c = false ∧ c ≠ ']'
  read : ∀ fuel after, cs.length ≤ fuel → EndsNumeral after →
    readValue half fuel none (cs ++ after) = orMalformed (r.map (·, after))

variable {half : Option Char} {cs : List Char} {r : Option Value}

/-- It is enough to look at what is read by some fuel: the text is not empty. -/
theorem IsTaken.intro {c : Char} {rest : List Char}
    (hhead : isSpace c = false ∧ c ≠ ']')
    (hread : ∀ fuel after, rest.length ≤ fuel → EndsNumeral after →
      readValue half (fuel + 1) none (c :: (rest ++ after)) = orMalformed (r.map (·, after))) :
    IsTaken half (c :: rest) r where
  head := ⟨c, rest, rfl, hhead⟩
  read := by
    intro fuel after hfuel hafter
    rw [List.length_cons] at hfuel
    obtain ⟨fuel, rfl⟩ : ∃ k, fuel = k + 1 := ⟨fuel - 1, by omega⟩
    exact hread fuel after (by omega) hafter

theorem IsTaken.skipSpace (h : IsTaken half cs r) (after : List Char) :
    skipSpace (cs ++ after) = cs ++ after := by
  obtain ⟨c, rest, rfl, hc, -⟩ := h.head
  simp [Json.skipSpace, hc]

/-- What opens neither a list nor a document is read as a value that holds no others. -/
theorem readValue_of_leaf {c : Char} {rest : List Char} (hc : c ≠ '[' ∧ c ≠ '{') (fuel : Nat)
    (limit : Option Nat) :
    readValue half (fuel + 1) limit (c :: rest) = orMalformed (readLeaf half (c :: rest)) := by
  rw [readValue]
  · intro _ e
    exact hc.1 (List.cons.inj e).1
  · intro _ e
    exact hc.2 (List.cons.inj e).1

theorem isTaken_string {s : String} (h : IsString half cs s.toList) :
    IsTaken half cs (some (.text s)) := by
  obtain ⟨body, rfl, hread⟩ := readString_of_isString h
  refine .intro ⟨rfl, by decide⟩ ?_
  intro fuel after _ _
  rw [readValue_of_leaf (by decide), readLeaf, hread]
  simp

theorem readLeaf_of_ne_quote {c : Char} (hc : c ≠ '"') (rest : List Char) :
    readLeaf half (c :: rest) = (readName (c :: rest) <|> readNumber (c :: rest)) := by
  rw [readLeaf]
  intro _ e
  exact hc (List.cons.inj e).1

theorem readLeaf_of_readName {c : Char} {rest after : List Char} {v : Value} (hc : c ≠ '"')
    (h : readName (c :: rest) = some (v, after)) : readLeaf half (c :: rest) = some (v, after) := by
  rw [readLeaf_of_ne_quote hc, h]
  rfl

/-- The names of values are taken for the values. -/
theorem isTaken_name {name : List Char} {v : Value} (h : (name, v) ∈ namedValues) :
    IsTaken half name (some v) := by
  have htaken : ∀ {c : Char} {rest : List Char}, isSpace c = false ∧ c ≠ ']' → c ≠ '[' ∧ c ≠ '{' →
      c ≠ '"' → (∀ after, readName (c :: (rest ++ after)) = some (v, after)) →
      IsTaken half (c :: rest) (some v) := by
    intro c rest hhead hopens hquote hname
    refine .intro hhead fun fuel after _ _ => ?_
    rw [readValue_of_leaf hopens, readLeaf_of_readName hquote (hname after)]
    rfl
  simp only [namedValues, List.mem_cons, Prod.mk.injEq, List.not_mem_nil, or_false] at h
  rcases h with ⟨rfl, rfl⟩ | ⟨rfl, rfl⟩ | ⟨rfl, rfl⟩ | ⟨rfl, rfl⟩ | ⟨rfl, rfl⟩ | ⟨rfl, rfl⟩ <;>
    exact htaken (by decide) (by decide) (by decide) fun _ => rfl

theorem readName_of_digit {c : Char} (hc : isDigit c = true) (negative : Bool) (r : List Char) :
    readName ((if negative then ['-'] else []) ++ c :: r) = none := by
  have hminus : '-' ≠ c := (ne_of_isDigit hc (by decide)).symm
  have hn : 'n' ≠ c := (ne_of_isDigit hc (by decide)).symm
  have ht : 't' ≠ c := (ne_of_isDigit hc (by decide)).symm
  have hf : 'f' ≠ c := (ne_of_isDigit hc (by decide)).symm
  have hN : 'N' ≠ c := (ne_of_isDigit hc (by decide)).symm
  have hI : 'I' ≠ c := (ne_of_isDigit hc (by decide)).symm
  cases negative <;> simp [readName, namedValues, hminus, hn, ht, hf, hN, hI]

/-- What starts with a digit, behind a sign or not, is read as a number. -/
theorem readLeaf_of_digit {c : Char} (hc : isDigit c = true) (negative : Bool) (r : List Char) :
    readLeaf half ((if negative then ['-'] else []) ++ c :: r)
      = readNumber ((if negative then ['-'] else []) ++ c :: r) := by
  have hname := readName_of_digit hc negative r
  cases negative with
  | true =>
    rw [if_pos rfl, List.singleton_append] at hname ⊢
    rw [readLeaf_of_ne_quote (by decide), hname]
    rfl
  | false =>
    rw [if_neg Bool.false_ne_true, List.nil_append] at hname ⊢
    rw [readLeaf_of_ne_quote (ne_of_isDigit hc (by decide)), hname]
    rfl

theorem readValue_of_digit (half : Option Char) {c : Char} (hc : isDigit c = true)
    (negative : Bool) (r : List Char) (fuel : Nat) (limit : Option Nat) :
    readValue half (fuel + 1) limit ((if negative then ['-'] else []) ++ c :: r)
      = orMalformed (readNumber ((if negative then ['-'] else []) ++ c :: r)) := by
  rw [← readLeaf_of_digit hc]
  cases negative with
  | true => exact readValue_of_leaf (by decide) fuel limit
  | false =>
    exact readValue_of_leaf ⟨ne_of_isDigit hc (by decide), ne_of_isDigit hc (by decide)⟩ fuel limit

theorem isSpace_of_isDigit {c : Char} (hc : isDigit c = true) : isSpace c = false := by
  simp only [isSpace, Bool.or_eq_false_iff, beq_eq_false_iff_ne]
  exact ⟨⟨⟨ne_of_isDigit hc (by decide), ne_of_isDigit hc (by decide)⟩,
    ne_of_isDigit hc (by decide)⟩, ne_of_isDigit hc (by decide)⟩

/-- A written numeral behind its sign is taken as an integer if it has neither fraction nor exponent
and its digits are not too many, and as a double if it has one of them. -/
theorem isTaken_numeral (half : Option Char) (negative : Bool) (w : WrittenNumeral) :
    IsTaken half ((if negative then ['-'] else []) ++ w.render)
      (if w.fraction = [] ∧ w.exponent = none then (integerOfDigits? negative w.whole).map .int
        else some (.float (w.numeral negative).toDouble)) := by
  obtain ⟨c, t, ht, hc⟩ := w.exists_head
  constructor
  · cases negative with
    | true => exact ⟨'-', w.render, rfl, rfl, by decide⟩
    | false => exact ⟨c, t, ht, isSpace_of_isDigit hc, ne_of_isDigit hc (by decide)⟩
  · intro fuel after hfuel hafter
    obtain ⟨fuel, rfl⟩ : ∃ k, fuel = k + 1 := by
      refine ⟨fuel - 1, ?_⟩
      rw [ht, List.length_append, List.length_cons] at hfuel
      omega
    -- a value that starts like a number is tried as nothing else
    have hvalue := readValue_of_digit half hc negative (t ++ after) fuel none
    rw [← List.cons_append, ← ht] at hvalue
    rw [List.append_assoc, hvalue, w.readNumber_eq hafter]
    split
    · cases integerOfDigits? negative w.whole <;> rfl
    · rfl

/-! ### Items and fields -/

/-- A text with white space around it, and what it stands for. -/
structure Slot (α : Type) where
  before : List Char
  text : List Char
  after : List Char
  content : α
  isSpace_before : IsSpace before
  isSpace_after : IsSpace after

/-- A slot behind the name of a field, a colon between them. -/
structure Member (half : Option Char) (α : Type) extends Slot α where
  beforeName : List Char
  nameText : List Char
  afterName : List Char
  name : String
  isSpace_beforeName : IsSpace beforeName
  isSpace_afterName : IsSpace afterName
  isString : IsString half nameText name.toList

/-- Texts between two characters, with commas. -/
def enclosed (first last : Char) (parts : List (List Char)) : List Char :=
  first :: (List.intercalate [','] parts ++ [last])

variable {α : Type}

/-- A slot without white space. -/
def Slot.bare (text : List Char) (content : α) : Slot α :=
  ⟨[], text, [], content, isSpace_nil, isSpace_nil⟩

/-- The text of a slot. -/
def Slot.render (s : Slot α) : List Char := s.before ++ (s.text ++ s.after)

/-- The text of a member. -/
def Member.render (m : Member half α) : List Char :=
  m.beforeName ++ (m.nameText ++ (m.afterName ++ ':' :: m.toSlot.render))

@[simp] theorem Slot.content_bare (text : List Char) (content : α) :
    (Slot.bare text content).content = content := rfl

@[simp] theorem Slot.render_bare (text : List Char) (content : α) :
    (Slot.bare text content).render = text := by simp [render, bare]

namespace Slot

variable {s : Slot α} (h : IsTaken half s.text r)
include h

/-- A slot is read behind its white space, up to what follows its text. -/
theorem skipSpace_render (rest : List Char) :
    skipSpace (s.render ++ rest) = s.text ++ (s.after ++ rest) := by
  rw [render, List.append_assoc, List.append_assoc, skipSpace_append s.isSpace_before, h.skipSpace]

theorem readValue_text {c : Char} (fuel : Nat) (hfuel : s.render.length ≤ fuel)
    (hc : c = ',' ∨ c = ']' ∨ c = '}') (rest : List Char) :
    readValue half fuel none (s.text ++ (s.after ++ c :: rest))
      = orMalformed (r.map (·, s.after ++ c :: rest)) := by
  refine h.read fuel _ ?_ (endsNumeral_append s.isSpace_after ?_ rest)
  · simp only [render, List.length_append] at hfuel
    omega
  · rcases hc with rfl | rfl | rfl <;> decide

end Slot

theorem mapM_some {β : Type} (f : α → β) (xs : List α) :
    (xs.mapM fun x => some (f x)) = some (xs.map f) := List.mapM_pure

section
variable {fuel : Nat} {limit : Option Nat} {cs rest more : List Char} {v : Value} {name : String}

theorem readItems_of_error {fault : ReadFault} (h : readValue half fuel limit cs = .error fault) :
    readItems half (fuel + 1) limit cs = .error fault := by
  rw [readItems, h]

/-- An item before a comma is the first of those that are read. -/
theorem readItems_comma (h : readValue half fuel limit cs = .ok (v, rest))
    (hrest : skipSpace rest = ',' :: more) :
    readItems half (fuel + 1) limit cs
      = (readItems half fuel limit (skipSpace more)).map fun r => (v :: r.1, r.2) := by
  rw [readItems, h]
  simp only [hrest]

theorem readFields_of_error {fault : ReadFault} (hname : readFieldName half cs = some (name, rest))
    (h : readValue half fuel limit rest = .error fault) :
    readFields half (fuel + 1) limit cs = .error fault := by
  rw [readFields, hname]
  simp only [h]

/-- A field before a comma is the first of those that are read. -/
theorem readFields_comma {after : List Char} (hname : readFieldName half cs = some (name, rest))
    (h : readValue half fuel limit rest = .ok (v, after)) (hafter : skipSpace after = ',' :: more) :
    readFields half (fuel + 1) limit cs
      = (readFields half fuel limit (skipSpace more)).map fun r => ((name, v) :: r.1, r.2) := by
  rw [readFields, hname]
  simp only [h, hafter]

/-- A bracket is read unless it is nested too deep. -/
theorem readValue_tooDeep {c : Char} (hc : c = '[' ∨ c = '{') (h : inside? limit = none) :
    readValue half (fuel + 1) limit (c :: cs) = .error .tooDeep := by
  rcases hc with rfl | rfl <;> rw [readValue, h]

theorem readValue_emptyList {inner : Option Nat} (hinner : inside? limit = some inner)
    (hskip : skipSpace cs = ']' :: rest) :
    readValue half (fuel + 1) limit ('[' :: cs) = .ok (.list [], rest) := by
  rw [readValue, hinner, hskip]
  rfl

theorem readValue_emptyDocument {inner : Option Nat} (hinner : inside? limit = some inner)
    (hskip : skipSpace cs = '}' :: rest) :
    readValue half (fuel + 1) limit ('{' :: cs) = .ok (.document [], rest) := by
  rw [readValue, hinner, hskip]
  rfl

/-- A list that is not empty is read as its items, within what is left of the limit. -/
theorem readValue_list {inner : Option Nat} (hinner : inside? limit = some inner)
    (hskip : ∀ t, skipSpace cs ≠ ']' :: t) :
    readValue half (fuel + 1) limit ('[' :: cs)
      = (readItems half fuel inner (skipSpace cs)).map fun r => (.list r.1, r.2) := by
  rw [readValue, hinner]
  dsimp only
  split
  · next e => exact absurd e (hskip _)
  · rfl

/-- A document that is not empty is read as its fields, within what is left of the limit. -/
theorem readValue_document {inner : Option Nat} (hinner : inside? limit = some inner)
    (hskip : ∀ t, skipSpace cs ≠ '}' :: t) :
    readValue half (fuel + 1) limit ('{' :: cs)
      = (readFields half fuel inner (skipSpace cs)).map fun r =>
        (.document (Assoc.putAll [] r.1), r.2) := by
  rw [readValue, hinner]
  dsimp only
  split
  · next e => exact absurd e (hskip _)
  · rfl

end

section
variable (f : α → Option Value)

/-- Items that are taken one by one are so between commas, up to the closing bracket. -/
theorem readItems_slots (s : Slot α) (rest : List (Slot α))
    (h : ∀ i ∈ s :: rest, IsTaken half i.text (f i.content)) (fuel : Nat) (after : List Char)
    (hfuel : (List.intercalate [','] ((s :: rest).map Slot.render)).length < fuel) :
    readItems half fuel none
        (skipSpace (List.intercalate [','] ((s :: rest).map Slot.render) ++ ']' :: after))
      = orMalformed (((s :: rest).mapM fun i => f i.content).map (·, after)) := by
  have hs := h s (.head _)
  induction rest generalizing s fuel with
  | nil =>
    obtain ⟨fuel, rfl⟩ : ∃ k, fuel = k + 1 := ⟨fuel - 1, by omega⟩
    simp only [List.map_cons, List.map_nil, List.intercalate_singleton] at hfuel ⊢
    have hread := s.readValue_text hs fuel (by omega) (.inr (.inl rfl)) after
    have hskip := skipSpace_append_cons s.isSpace_after (c := ']') rfl after
    rw [s.skipSpace_render hs, readItems, hread]
    cases hf : f s.content <;> simp [hf, hskip]
  | cons t rest ih =>
    obtain ⟨fuel, rfl⟩ : ∃ k, fuel = k + 1 := ⟨fuel - 1, by omega⟩
    have hsplit : List.intercalate [','] ((s :: t :: rest).map Slot.render)
        = s.render ++ ',' :: List.intercalate [','] ((t :: rest).map Slot.render) := by
      simp [List.intercalate_cons_cons]
    rw [hsplit, List.length_append, List.length_cons] at hfuel
    have hrest := ih t (fun u hu => h u (.tail _ hu)) fuel (by omega) (h t (.tail _ (.head _)))
    have hread := s.readValue_text hs fuel (by omega) (.inl rfl)
      (List.intercalate [','] ((t :: rest).map Slot.render) ++ ']' :: after)
    have hskip := skipSpace_append_cons s.isSpace_after (c := ',') rfl
      (List.intercalate [','] ((t :: rest).map Slot.render) ++ ']' :: after)
    rw [hsplit, List.append_assoc, List.cons_append, s.skipSpace_render hs, List.mapM_cons]
    cases hf : f s.content with
    | none =>
      rw [hf] at hread
      exact readItems_of_error hread
    | some v =>
      rw [hf] at hread
      rw [readItems_comma hread hskip, hrest]
      cases (t :: rest).mapM fun i => f i.content <;> rfl

/-- A member is read behind its white space, up to its value. -/
theorem readFieldName_render (m : Member half α) (h : IsTaken half m.text r) (rest : List Char) :
    readFieldName half (skipSpace (m.render ++ rest))
      = some (m.name, m.text ++ (m.after ++ rest)) := by
  obtain ⟨body, hname, hread⟩ := readString_of_isString m.isString
  have hrender : m.render ++ rest
      = m.beforeName ++ '"' :: (body ++ (m.afterName ++ ':' :: (m.toSlot.render ++ rest))) := by
    simp [Member.render, hname]
  have hcolon := skipSpace_append_cons m.isSpace_afterName (c := ':') rfl (m.toSlot.render ++ rest)
  rw [hrender, skipSpace_append_cons m.isSpace_beforeName (by decide), readFieldName, hread]
  simp only [hcolon, m.toSlot.skipSpace_render h, String.ofList_toList]

/-- Fields whose values are taken one by one are so between commas, up to the closing brace. -/
theorem readFields_members (m : Member half α) (rest : List (Member half α))
    (h : ∀ i ∈ m :: rest, IsTaken half i.text (f i.content)) (fuel : Nat) (after : List Char)
    (hfuel : (List.intercalate [','] ((m :: rest).map Member.render)).length < fuel) :
    readFields half fuel none
        (skipSpace (List.intercalate [','] ((m :: rest).map Member.render) ++ '}' :: after))
      = orMalformed (((m :: rest).mapM fun i => (f i.content).map (i.name, ·)).map (·, after)) := by
  have hm := h m (.head _)
  have hlength : m.toSlot.render.length < m.render.length := by
    simp only [Member.render, List.length_append, List.length_cons]
    omega
  induction rest generalizing m fuel with
  | nil =>
    obtain ⟨fuel, rfl⟩ : ∃ k, fuel = k + 1 := ⟨fuel - 1, by omega⟩
    simp only [List.map_cons, List.map_nil, List.intercalate_singleton] at hfuel ⊢
    have hread := m.toSlot.readValue_text hm fuel (by omega) (.inr (.inr rfl)) after
    have hskip := skipSpace_append_cons m.isSpace_after (c := '}') rfl after
    rw [readFields, readFieldName_render m hm]
    dsimp only
    rw [hread]
    cases hf : f m.content <;> simp [hf, hskip]
  | cons n rest ih =>
    obtain ⟨fuel, rfl⟩ : ∃ k, fuel = k + 1 := ⟨fuel - 1, by omega⟩
    have hsplit : List.intercalate [','] ((m :: n :: rest).map Member.render)
        = m.render ++ ',' :: List.intercalate [','] ((n :: rest).map Member.render) := by
      simp [List.intercalate_cons_cons]
    rw [hsplit, List.length_append, List.length_cons] at hfuel
    have hrest := ih n (fun u hu => h u (.tail _ hu)) fuel (by omega) (h n (.tail _ (.head _)))
      (by simp only [Member.render, List.length_append, List.length_cons]; omega)
    have hread := m.toSlot.readValue_text hm fuel (by omega) (.inl rfl)
      (List.intercalate [','] ((n :: rest).map Member.render) ++ '}' :: after)
    have hskip := skipSpace_append_cons m.isSpace_after (c := ',') rfl
      (List.intercalate [','] ((n :: rest).map Member.render) ++ '}' :: after)
    have hname := readFieldName_render m hm
      (',' :: (List.intercalate [','] ((n :: rest).map Member.render) ++ '}' :: after))
    rw [hsplit, List.append_assoc, List.cons_append, List.mapM_cons]
    cases hf : f m.content with
    | none =>
      rw [hf] at hread
      exact readFields_of_error hname hread
    | some v =>
      rw [hf] at hread
      rw [readFields_comma hname hread hskip, hrest]
      cases (n :: rest).mapM fun i => (f i.content).map (i.name, ·) <;> rfl

end

/-! ### Lists and documents as values -/

/-- Parts with commas between them start with the first of them. -/
theorem exists_intercalate_append (part : List Char) (parts : List (List Char))
    (after : List Char) :
    ∃ rest, List.intercalate [','] (part :: parts) ++ after = part ++ rest := by
  cases parts with
  | nil => exact ⟨after, by rw [List.intercalate_singleton]⟩
  | cons next parts => exact ⟨_, by rw [List.intercalate_cons_cons, List.append_assoc,
      List.append_assoc]⟩

theorem isTaken_emptyArray {space : List Char} (h : IsSpace space) :
    IsTaken half ('[' :: (space ++ [']'])) (some (.list [])) := by
  refine .intro ⟨rfl, by decide⟩ ?_
  intro fuel after _ _
  rw [List.append_assoc, List.singleton_append, readValue, skipSpace_append_cons h rfl]
  rfl

theorem isTaken_emptyObject {space : List Char} (h : IsSpace space) :
    IsTaken half ('{' :: (space ++ ['}'])) (some (.document [])) := by
  refine .intro ⟨rfl, by decide⟩ ?_
  intro fuel after _ _
  rw [List.append_assoc, List.singleton_append, readValue, skipSpace_append_cons h rfl]
  rfl

/-- Items that are taken one by one are taken as a list. -/
theorem isTaken_array (f : α → Option Value) {items : List (Slot α)} (hne : items ≠ [])
    (h : ∀ i ∈ items, IsTaken half i.text (f i.content)) :
    IsTaken half (enclosed '[' ']' (items.map Slot.render))
      ((items.mapM fun i => f i.content).map .list) := by
  obtain ⟨s, rest, rfl⟩ := List.exists_cons_of_ne_nil hne
  refine .intro ⟨rfl, by decide⟩ ?_
  intro fuel after hfuel _
  have hs := h s (.head _)
  rw [List.length_append, List.length_singleton] at hfuel
  have hread := readItems_slots f s rest h fuel after (by omega)
  -- the first item starts with no closing bracket, so that the list is not taken for empty
  have hclose : ∀ t, skipSpace (List.intercalate [','] ((s :: rest).map Slot.render)
      ++ ']' :: after) ≠ ']' :: t := by
    obtain ⟨c, t, ht, hspace, hc⟩ := hs.head
    obtain ⟨u, hu⟩ := exists_intercalate_append s.render (rest.map Slot.render) (']' :: after)
    rw [List.map_cons, hu, s.skipSpace_render hs, ht]
    exact fun _ e => hc (List.cons.inj e).1
  rw [List.append_assoc, List.singleton_append, readValue_list rfl hclose, hread]
  cases (s :: rest).mapM fun i => f i.content <;> rfl

/-- Fields whose values are taken one by one are taken as a document. -/
theorem isTaken_object (f : α → Option Value) {members : List (Member half α)} (hne : members ≠ [])
    (h : ∀ i ∈ members, IsTaken half i.text (f i.content)) :
    IsTaken half (enclosed '{' '}' (members.map Member.render))
      ((members.mapM fun i => (f i.content).map (i.name, ·)).map
        fun fields => .document (Assoc.putAll [] fields)) := by
  obtain ⟨m, rest, rfl⟩ := List.exists_cons_of_ne_nil hne
  refine .intro ⟨rfl, by decide⟩ ?_
  intro fuel after hfuel _
  rw [List.length_append, List.length_singleton] at hfuel
  have hread := readFields_members f m rest h fuel after (by omega)
  have hclose : ∀ t, skipSpace (List.intercalate [','] ((m :: rest).map Member.render)
      ++ '}' :: after) ≠ '}' :: t := by
    obtain ⟨body, hname, -⟩ := readString_of_isString m.isString
    obtain ⟨u, hu⟩ := exists_intercalate_append m.render (rest.map Member.render) ('}' :: after)
    rw [List.map_cons, hu, Member.render, hname, List.append_assoc, List.cons_append,
      List.cons_append, skipSpace_append_cons m.isSpace_beforeName (by decide)]
    exact fun _ e => absurd (List.cons.inj e).1 (by decide)
  rw [List.append_assoc, List.singleton_append, readValue_document rfl hclose, hread]
  cases (m :: rest).mapM fun i => (f i.content).map (i.name, ·) <;> rfl

/-- What is read from a whole text with white space around it. -/
theorem readText_render {s : Slot α} (h : IsTaken half s.text r) :
    readText half none s.render = orMalformed r := by
  have hskip := s.skipSpace_render h []
  have hafter : EndsNumeral s.after := by
    have hends := endsNumeral_append s.isSpace_after (c := ',') (by decide) []
    intro c t e
    exact hends c _ (by rw [e]; rfl)
  have hlength : s.text.length ≤ 2 * s.render.length + 1 := by
    simp only [Slot.render, List.length_append]
    omega
  have hread := h.read _ s.after hlength hafter
  have hrest : skipSpace s.after = [] := by
    have := skipSpace_append s.isSpace_after []
    rwa [List.append_nil] at this
  rw [List.append_nil, List.append_nil] at hskip
  rw [readText, hskip, hread]
  cases r <;> simp [hrest]

/-- What is read alike with any character for half of a surrogate pair, and with none, is loaded. -/
theorem load_of_readText (h : ∀ half, readText half none cs = orMalformed r) :
    load none cs = .ok r := by
  rw [load, h, h]
  cases r <;> rfl

theorem load_render {s : Slot α} (h : ∀ half, IsTaken half s.text r) :
    load none s.render = .ok r :=
  load_of_readText fun half => readText_render (h half)

theorem read_of_load (h : load none cs = .ok r) : Json.read cs = r := by
  rw [Json.read, h]
  cases r <;> rfl

end StagedTable.Json
