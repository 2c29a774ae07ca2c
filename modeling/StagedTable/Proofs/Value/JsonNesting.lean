import StagedTable.Proofs.Value.JsonDerivation

/-!
# Nesting of JSON

A limit on nesting either stops the reader or does not matter to it (`obeysLimit`). It stops the
reader at a text that goes on, without a mistake, into lists and documents that are nested deeper
than the limit (`Dives`), and at no other. With the grammar, this says what becomes of every text
that is loaded (`load_cases`, `load_eq_some_iff`, `load_eq_error_iff`).
-/

namespace StagedTable.Json

open Text

variable {half : Option Char} {cs rest : List Char} {v : Value}

/-! ### Limits that do not matter -/

/-- Whether a result is the fault of too deep nesting or else another result. -/
def CutBy {α : Type} (r s : Except ReadFault α) : Prop := r = .error .tooDeep ∨ r = s

theorem CutBy.refl {α : Type} (r : Except ReadFault α) : CutBy r r := .inr rfl

theorem CutBy.map {α β : Type} {r s : Except ReadFault α} (h : CutBy r s) (f : α → β) :
    CutBy (r.map f) (s.map f) := by
  rcases h with rfl | rfl
  · exact .inl rfl
  · exact .refl _

/-- Whether a limit stops the reader or does not matter to it, for values, items and fields that are
read with some fuel. -/
structure ObeysLimit (half : Option Char) (fuel : Nat) : Prop where
  value : ∀ limit cs, CutBy (readValue half fuel limit cs) (readValue half fuel none cs)
  items : ∀ limit cs, CutBy (readItems half fuel limit cs) (readItems half fuel none cs)
  fields : ∀ limit cs, CutBy (readFields half fuel limit cs) (readFields half fuel none cs)

namespace ObeysLimit

variable {fuel : Nat} (h : ObeysLimit half fuel) (limit : Option Nat) (cs : List Char)
include h

theorem list_succ :
    CutBy (readValue half (fuel + 1) limit ('[' :: cs))
      (readValue half (fuel + 1) none ('[' :: cs)) := by
  cases hinner : inside? limit with
  | none => exact .inl (readValue_tooDeep (.inl rfl) hinner)
  | some inner =>
    by_cases hclose : ∃ t, skipSpace cs = ']' :: t
    · obtain ⟨t, ht⟩ := hclose
      rw [readValue_emptyList hinner ht, readValue_emptyList rfl ht]
      exact .refl _
    · have hskip : ∀ t, skipSpace cs ≠ ']' :: t := fun t ht => hclose ⟨t, ht⟩
      rw [readValue_list hinner hskip, readValue_list rfl hskip]
      exact (h.items inner _).map _

theorem document_succ :
    CutBy (readValue half (fuel + 1) limit ('{' :: cs))
      (readValue half (fuel + 1) none ('{' :: cs)) := by
  cases hinner : inside? limit with
  | none => exact .inl (readValue_tooDeep (.inr rfl) hinner)
  | some inner =>
    by_cases hclose : ∃ t, skipSpace cs = '}' :: t
    · obtain ⟨t, ht⟩ := hclose
      rw [readValue_emptyDocument hinner ht, readValue_emptyDocument rfl ht]
      exact .refl _
    · have hskip : ∀ t, skipSpace cs ≠ '}' :: t := fun t ht => hclose ⟨t, ht⟩
      rw [readValue_document hinner hskip, readValue_document rfl hskip]
      exact (h.fields inner _).map _

theorem value_succ :
    CutBy (readValue half (fuel + 1) limit cs) (readValue half (fuel + 1) none cs) := by
  cases cs with
  | nil => exact .refl _
  | cons c cs =>
    by_cases hlist : c = '['
    · exact hlist ▸ h.list_succ limit cs
    by_cases hdocument : c = '{'
    · exact hdocument ▸ h.document_succ limit cs
    · rw [readValue_of_leaf ⟨hlist, hdocument⟩, readValue_of_leaf ⟨hlist, hdocument⟩]
      exact .refl _

theorem items_succ :
    CutBy (readItems half (fuel + 1) limit cs) (readItems half (fuel + 1) none cs) := by
  rcases h.value limit cs with hvalue | hvalue
  · exact .inl (readItems_of_error hvalue)
  · rw [readItems, hvalue, readItems]
    split
    · exact .refl _
    · split
      · exact (h.items limit _).map _
      · exact .refl _
      · exact .refl _

theorem fields_succ :
    CutBy (readFields half (fuel + 1) limit cs) (readFields half (fuel + 1) none cs) := by
  rw [readFields, readFields]
  split
  · exact .refl _
  · next name value _ =>
    rcases h.value limit value with hvalue | hvalue
    · rw [hvalue]
      exact .inl rfl
    · rw [hvalue]
      split
      · exact .refl _
      · split
        · exact (h.fields limit _).map _
        · exact .refl _
        · exact .refl _

end ObeysLimit

/-- A limit stops the reader or does not matter to it. -/
theorem obeysLimit (half : Option Char) (fuel : Nat) : ObeysLimit half fuel := by
  induction fuel with
  | zero => exact ⟨fun _ _ => .refl _, fun _ _ => .refl _, fun _ _ => .refl _⟩
  | succ fuel ih => exact ⟨ih.value_succ, ih.items_succ, ih.fields_succ⟩

/-! ### Texts that go too deep -/

/-- Items with a comma behind each. -/
def itemsText {α : Type} (items : List (Slot α)) : List Char :=
  items.flatMap fun i => i.render ++ [',']

/-- Fields with a comma behind each. -/
def membersText {α : Type} (members : List (Member half α)) : List Char :=
  members.flatMap fun m => m.render ++ [',']

/-- Whether a text starts with lists and documents one inside the other, more of them than a limit.
Each but the last may have items or fields of any kind before the one that goes on. -/
inductive Dives (half : Option Char) : Nat → List Char → Prop
  | bracket {c : Char} (rest : List Char) : c = '[' ∨ c = '{' → Dives half 0 (c :: rest)
  | item {n : Nat} (items : List (Slot (Tree Value))) {before rest : List Char} :
      (∀ i ∈ items, DerivesBy half IsNumberOf i.text i.content) → IsSpace before →
      Dives half n rest → Dives half (n + 1) ('[' :: (itemsText items ++ (before ++ rest)))
  | field {n : Nat} (members : List (Member half (Tree Value)))
      {beforeName nameText afterName before rest : List Char} {name : String} :
      (∀ m ∈ members, DerivesBy half IsNumberOf m.text m.content) → IsSpace beforeName →
      IsString half nameText name.toList → IsSpace afterName → IsSpace before →
      Dives half n rest →
      Dives half (n + 1) ('{' :: (membersText members
        ++ (beforeName ++ (nameText ++ (afterName ++ ':' :: (before ++ rest))))))

theorem Dives.exists_head {n : Nat} (h : Dives half n cs) :
    ∃ c rest, cs = c :: rest ∧ (c = '[' ∨ c = '{') := by
  cases h with
  | bracket rest hc => exact ⟨_, rest, rfl, hc⟩
  | item items => exact ⟨_, _, rfl, .inl rfl⟩
  | field members => exact ⟨_, _, rfl, .inr rfl⟩

theorem Dives.skipSpace_append {n : Nat} (h : Dives half n rest) {space : List Char}
    (hspace : IsSpace space) : skipSpace (space ++ rest) = rest := by
  obtain ⟨c, tail, rfl, hc⟩ := h.exists_head
  refine skipSpace_append_cons hspace ?_ tail
  rcases hc with rfl | rfl <;> rfl

section
variable {n : Nat} {before : List Char}

/-- Behind items that are read, the reader is stopped where it is stopped in the next one. -/
theorem readItems_tooDeep (fuel : Nat) (items : List (Slot (Tree Value)))
    (hitems : ∀ i ∈ items, DerivesBy half IsNumberOf i.text i.content) (hbefore : IsSpace before)
    (hrest : Dives half n rest)
    (hread : ∀ fuel, 2 * rest.length ≤ fuel → readValue half fuel (some n) rest = .error .tooDeep)
    (hfuel : 2 * (itemsText items ++ (before ++ rest)).length < fuel) :
    readItems half fuel (some n) (skipSpace (itemsText items ++ (before ++ rest)))
      = .error .tooDeep := by
  induction items generalizing fuel with
  | nil =>
    obtain ⟨fuel, rfl⟩ : ∃ k, fuel = k + 1 := ⟨fuel - 1, by omega⟩
    rw [itemsText, List.flatMap_nil, List.nil_append] at hfuel ⊢
    rw [hrest.skipSpace_append hbefore]
    refine readItems_of_error (hread fuel ?_)
    rw [List.length_append] at hfuel
    omega
  | cons s items ih =>
    obtain ⟨fuel, rfl⟩ : ∃ k, fuel = k + 1 := ⟨fuel - 1, by omega⟩
    have hsplit : itemsText (s :: items) ++ (before ++ rest)
        = s.render ++ ',' :: (itemsText items ++ (before ++ rest)) := by
      simp [itemsText]
    have htaken := (hitems s (.head _)).isTaken_valueBy
    rw [hsplit, List.length_append, List.length_cons] at hfuel
    have hvalue := s.readValue_text htaken fuel (by omega) (.inl rfl)
      (itemsText items ++ (before ++ rest))
    have hskip := skipSpace_append_cons s.isSpace_after (c := ',') rfl
      (itemsText items ++ (before ++ rest))
    rw [hsplit, s.skipSpace_render htaken]
    rcases (obeysLimit half fuel).value (some n) _ with hdeep | hsame
    · exact readItems_of_error hdeep
    · rw [readItems_comma (hsame.trans hvalue) hskip,
        ih fuel (fun i hi => hitems i (.tail _ hi)) (by omega)]
      rfl

/-- Behind fields that are read, the reader is stopped where it is stopped in the next one. -/
theorem readFields_tooDeep (fuel : Nat) {beforeName nameText afterName : List Char} {name : String}
    (members : List (Member half (Tree Value)))
    (hmembers : ∀ m ∈ members, DerivesBy half IsNumberOf m.text m.content)
    (hbeforeName : IsSpace beforeName) (hname : IsString half nameText name.toList)
    (hafterName : IsSpace afterName) (hbefore : IsSpace before) (hrest : Dives half n rest)
    (hread : ∀ fuel, 2 * rest.length ≤ fuel → readValue half fuel (some n) rest = .error .tooDeep)
    (hfuel : 2 * (membersText members
      ++ (beforeName ++ (nameText ++ (afterName ++ ':' :: (before ++ rest))))).length < fuel) :
    readFields half fuel (some n) (skipSpace (membersText members
      ++ (beforeName ++ (nameText ++ (afterName ++ ':' :: (before ++ rest))))))
      = .error .tooDeep := by
  induction members generalizing fuel with
  | nil =>
    obtain ⟨fuel, rfl⟩ : ∃ k, fuel = k + 1 := ⟨fuel - 1, by omega⟩
    rw [membersText, List.flatMap_nil, List.nil_append] at hfuel ⊢
    obtain ⟨body, rfl, hstring⟩ := readString_of_isString hname
    have hcolon := skipSpace_append_cons hafterName (c := ':') rfl (before ++ rest)
    have hfield : readFieldName half
        ('"' :: (body ++ (afterName ++ ':' :: (before ++ rest)))) = some (name, rest) := by
      rw [readFieldName, hstring]
      simp only [hcolon, hrest.skipSpace_append hbefore, String.ofList_toList]
    rw [List.cons_append, skipSpace_append_cons hbeforeName (by decide)]
    refine readFields_of_error hfield (hread fuel ?_)
    simp only [List.length_append, List.length_cons] at hfuel
    omega
  | cons m members ih =>
    obtain ⟨fuel, rfl⟩ : ∃ k, fuel = k + 1 := ⟨fuel - 1, by omega⟩
    generalize htail : beforeName ++ (nameText ++ (afterName ++ ':' :: (before ++ rest))) = tail
      at ih hfuel ⊢
    have hsplit : membersText (m :: members) ++ tail
        = m.render ++ ',' :: (membersText members ++ tail) := by
      simp [membersText]
    have htaken := (hmembers m (.head _)).isTaken_valueBy
    have hlength : m.toSlot.render.length < m.render.length := by
      simp only [Member.render, List.length_append, List.length_cons]
      omega
    rw [hsplit, List.length_append, List.length_cons] at hfuel
    have hvalue := m.toSlot.readValue_text htaken fuel (by omega) (.inl rfl)
      (membersText members ++ tail)
    have hskip := skipSpace_append_cons m.isSpace_after (c := ',') rfl
      (membersText members ++ tail)
    have hfield := readFieldName_render m htaken (',' :: (membersText members ++ tail))
    rw [hsplit]
    rcases (obeysLimit half fuel).value (some n) _ with hdeep | hsame
    · exact readFields_of_error hfield hdeep
    · rw [readFields_comma hfield (hsame.trans hvalue) hskip,
        ih fuel (fun i hi => hmembers i (.tail _ hi)) (by omega)]
      rfl

end

theorem readItems_close (half : Option Char) (fuel : Nat) (limit : Option Nat) (rest : List Char) :
    readItems half fuel limit (']' :: rest) = .error .malformed := by
  rcases fuel with _ | _ | fuel <;> rfl

theorem readFields_close (half : Option Char) (fuel : Nat) (limit : Option Nat) (rest : List Char) :
    readFields half fuel limit ('}' :: rest) = .error .malformed := by
  cases fuel <;> rfl

/-- A text that goes too deep stops the reader. -/
theorem readValue_of_dives {n : Nat} (h : Dives half n cs) :
    ∀ fuel, 2 * cs.length ≤ fuel → readValue half fuel (some n) cs = .error .tooDeep := by
  induction h with
  | bracket rest hc =>
    intro fuel hfuel
    obtain ⟨fuel, rfl⟩ : ∃ k, fuel = k + 1 := ⟨fuel - 1, by rw [List.length_cons] at hfuel; omega⟩
    exact readValue_tooDeep hc rfl
  | @item n items before rest hitems hbefore hrest ih =>
    intro fuel hfuel
    rw [List.length_cons] at hfuel
    obtain ⟨fuel, rfl⟩ : ∃ k, fuel = k + 1 := ⟨fuel - 1, by omega⟩
    have hread := readItems_tooDeep fuel items hitems hbefore hrest ih (by omega)
    have hclose : ∀ t, skipSpace (itemsText items ++ (before ++ rest)) ≠ ']' :: t := by
      intro t e
      rw [e, readItems_close] at hread
      cases hread
    rw [readValue_list rfl hclose, hread]
    rfl
  | @field n members beforeName nameText afterName before rest name hmembers hbeforeName hname
      hafterName hbefore hrest ih =>
    intro fuel hfuel
    rw [List.length_cons] at hfuel
    obtain ⟨fuel, rfl⟩ : ∃ k, fuel = k + 1 := ⟨fuel - 1, by omega⟩
    have hread := readFields_tooDeep fuel members hmembers hbeforeName hname hafterName
      hbefore hrest ih (by omega)
    have hclose : ∀ t, skipSpace (membersText members
        ++ (beforeName ++ (nameText ++ (afterName ++ ':' :: (before ++ rest))))) ≠ '}' :: t := by
      intro t e
      rw [e, readFields_close] at hread
      cases hread
    rw [readValue_document rfl hclose, hread]
    rfl

/-! ### Where the reader stops -/

/-- Whether a text goes too deep in an item behind others. -/
def DivesInItems (half : Option Char) (n : Nat) (cs : List Char) : Prop :=
  ∃ (items : List (Slot (Tree Value))) (before rest : List Char),
    (∀ i ∈ items, DerivesBy half IsNumberOf i.text i.content) ∧ IsSpace before
      ∧ Dives half n rest ∧ cs = itemsText items ++ (before ++ rest)

/-- Whether a text goes too deep in a field behind others. -/
def DivesInFields (half : Option Char) (n : Nat) (cs : List Char) : Prop :=
  ∃ (members : List (Member half (Tree Value)))
      (beforeName nameText afterName before rest : List Char) (name : String),
    (∀ m ∈ members, DerivesBy half IsNumberOf m.text m.content) ∧ IsSpace beforeName
      ∧ IsString half nameText name.toList ∧ IsSpace afterName ∧ IsSpace before
      ∧ Dives half n rest ∧ cs = membersText members
        ++ (beforeName ++ (nameText ++ (afterName ++ ':' :: (before ++ rest))))

theorem DivesInItems.cons {n : Nat} {s : Slot (Tree Value)}
    (hs : DerivesBy half IsNumberOf s.text s.content) (h : DivesInItems half n cs) :
    DivesInItems half n (s.render ++ ',' :: cs) := by
  obtain ⟨items, before, rest, hitems, hbefore, hrest, rfl⟩ := h
  exact ⟨s :: items, before, rest, List.forall_mem_cons.2 ⟨hs, hitems⟩, hbefore, hrest,
    by simp [itemsText]⟩

theorem DivesInFields.cons {n : Nat} {m : Member half (Tree Value)}
    (hm : DerivesBy half IsNumberOf m.text m.content) (h : DivesInFields half n cs) :
    DivesInFields half n (m.render ++ ',' :: cs) := by
  obtain ⟨members, beforeName, nameText, afterName, before, rest, name, hmembers, hbeforeName,
    hname, hafterName, hbefore, hrest, rfl⟩ := h
  exact ⟨m :: members, beforeName, nameText, afterName, before, rest, name,
    List.forall_mem_cons.2 ⟨hm, hmembers⟩, hbeforeName, hname, hafterName, hbefore, hrest,
    by simp [membersText]⟩

theorem eq_zero_of_inside? {limit : Option Nat} (h : inside? limit = none) : limit = some 0 := by
  rcases limit with _ | _ | n <;> first | rfl | cases h

theorem eq_succ_of_inside? {limit : Option Nat} {n : Nat} (h : inside? limit = some (some n)) :
    limit = some (n + 1) := by
  rcases limit with _ | _ | m <;> cases h
  rfl

theorem map_eq_error {ε α β : Type} {f : α → β} {r : Except ε α} {e : ε}
    (h : r.map f = .error e) : r = .error e := by
  cases r with
  | error e' => exact congrArg Except.error (Except.error.inj h)
  | ok x => cases h

/-- Whether all at which the reader is stopped with some fuel goes too deep: values, and items and
fields, with white space in front of them. -/
structure StopsDeep (half : Option Char) (fuel : Nat) : Prop where
  value : ∀ {limit cs}, readValue half fuel limit cs = .error .tooDeep →
    ∃ n, limit = some n ∧ Dives half n cs
  items : ∀ {limit cs space}, readItems half fuel limit cs = .error .tooDeep → IsSpace space →
    ∃ n, limit = some n ∧ DivesInItems half n (space ++ cs)
  fields : ∀ {limit cs space}, readFields half fuel limit cs = .error .tooDeep → IsSpace space →
    ∃ n, limit = some n ∧ DivesInFields half n (space ++ cs)

namespace StopsDeep

variable {fuel : Nat} {limit : Option Nat} {space : List Char} (h : StopsDeep half fuel)
include h

theorem value_succ (hread : readValue half (fuel + 1) limit cs = .error .tooDeep) :
    ∃ n, limit = some n ∧ Dives half n cs := by
  unfold readValue at hread
  split at hread
  · next tail =>
    obtain ⟨space, hspace, htail⟩ := exists_space tail
    split at hread
    · next hinner => exact ⟨0, eq_zero_of_inside? hinner, .bracket tail (.inl rfl)⟩
    · next inner hinner =>
      split at hread
      · cases hread
      · obtain ⟨n, rfl, items, before, rest, hitems, hbefore, hrest, htext⟩ :=
          h.items (map_eq_error hread) hspace
        rw [htail, htext]
        exact ⟨n + 1, eq_succ_of_inside? hinner, .item items hitems hbefore hrest⟩
  · next tail =>
    obtain ⟨space, hspace, htail⟩ := exists_space tail
    split at hread
    · next hinner => exact ⟨0, eq_zero_of_inside? hinner, .bracket tail (.inr rfl)⟩
    · next inner hinner =>
      split at hread
      · cases hread
      · obtain ⟨n, rfl, members, beforeName, nameText, afterName, before, rest, name, hmembers,
          hbeforeName, hname, hafterName, hbefore, hrest, htext⟩ :=
          h.fields (map_eq_error hread) hspace
        rw [htail, htext]
        exact ⟨n + 1, eq_succ_of_inside? hinner,
          .field members hmembers hbeforeName hname hafterName hbefore hrest⟩
  · cases hleaf : readLeaf half cs <;> simp [hleaf] at hread

theorem items_succ (hread : readItems half (fuel + 1) limit cs = .error .tooDeep)
    (hspace : IsSpace space) : ∃ n, limit = some n ∧ DivesInItems half n (space ++ cs) := by
  rw [readItems] at hread
  split at hread
  · next hvalue =>
    cases hread
    obtain ⟨n, hlimit, hdives⟩ := h.value hvalue
    exact ⟨n, hlimit, [], space, cs, List.forall_mem_nil _, hspace, hdives, rfl⟩
  · next v after hvalue =>
    split at hread
    · next more hcomma =>
      obtain ⟨gap, hgap, hmore⟩ := exists_space more
      obtain ⟨n, hlimit, hdives⟩ := h.items (map_eq_error hread) hgap
      obtain ⟨s, hs, -, htext⟩ := ((readsDerived half fuel).value hvalue).exists_slot hspace
      rw [htext, hcomma]
      rw [← hmore] at hdives
      exact ⟨n, hlimit, hdives.cons hs⟩
    · cases hread
    · cases hread

theorem fields_succ (hread : readFields half (fuel + 1) limit cs = .error .tooDeep)
    (hspace : IsSpace space) : ∃ n, limit = some n ∧ DivesInFields half n (space ++ cs) := by
  rw [readFields] at hread
  split at hread
  · cases hread
  · next name value hname =>
    split at hread
    · next hvalue =>
      cases hread
      obtain ⟨n, hlimit, hdives⟩ := h.value hvalue
      obtain ⟨nameText, gap, before, hstring, hgap, hbefore, rfl⟩ := exists_fieldName hname
      exact ⟨n, hlimit, [], space, nameText, gap, before, value, name, List.forall_mem_nil _,
        hspace, hstring, hgap, hbefore, hdives, rfl⟩
    · next v after hvalue =>
      split at hread
      · next more hcomma =>
        obtain ⟨gap, hgap, hmore⟩ := exists_space more
        obtain ⟨n, hlimit, hdives⟩ := h.fields (map_eq_error hread) hgap
        obtain ⟨m, hm, -, htext⟩ :=
          ((readsDerived half fuel).value hvalue).exists_member hspace hname
        rw [htext, hcomma]
        rw [← hmore] at hdives
        exact ⟨n, hlimit, hdives.cons hm⟩
      · cases hread
      · cases hread

end StopsDeep

/-- The reader is stopped by its limit only where a text goes too deep. -/
theorem stopsDeep (half : Option Char) (fuel : Nat) : StopsDeep half fuel := by
  induction fuel with
  | zero =>
    constructor
    · intro _ _ h
      cases h
    · intro _ _ _ h
      cases h
    · intro _ _ _ h
      cases h
  | succ fuel ih => exact ⟨ih.value_succ, ih.items_succ, ih.fields_succ⟩

/-! ### Whole texts -/

/-- Whether a text goes too deep behind white space. -/
def GoesTooDeep (n : Nat) (cs : List Char) : Prop :=
  ∃ space rest, IsSpace space ∧ cs = space ++ rest ∧ Dives (some replacement) n rest

theorem readText_eq_tooDeep_iff {limit : Option Nat} :
    readText half limit cs = .error .tooDeep
      ↔ ∃ n, limit = some n ∧ Dives half n (skipSpace cs) := by
  unfold readText
  constructor
  · intro h
    split at h
    · next hread =>
      cases h
      exact (stopsDeep half _).value hread
    · split at h <;> cases h
  · rintro ⟨n, rfl, hdives⟩
    have hlength : (skipSpace cs).length ≤ cs.length := (List.dropWhile_suffix _).length_le
    rw [readValue_of_dives hdives _ (by omega)]

/-- A text is refused for its nesting if it goes deeper than the limit. -/
theorem load_eq_tooDeep_iff {limit : Option Nat} :
    load limit cs = .error .tooDeep ↔ ∃ n, limit = some n ∧ GoesTooDeep n cs := by
  have hload : load limit cs = .error .tooDeep
      ↔ readText (some replacement) limit cs = .error .tooDeep := by
    unfold load
    split
    · next h => simp [h]
    · next h => simp [h]
    · next h =>
      rw [h]
      split <;> simp
  rw [hload, readText_eq_tooDeep_iff]
  refine exists_congr fun n => and_congr_right fun _ => ⟨fun h => ?_, ?_⟩
  · obtain ⟨space, hspace, hcs⟩ := exists_space cs
    exact ⟨space, _, hspace, hcs, h⟩
  · rintro ⟨space, rest, hspace, rfl, hdives⟩
    rwa [hdives.skipSpace_append hspace]

/-- A limit that refuses a text for nothing else does not matter. -/
theorem load_of_not_tooDeep {limit : Option Nat} (h : load limit cs ≠ .error .tooDeep) :
    load limit cs = load none cs := by
  have hread : readText (some replacement) limit cs = .error .tooDeep
      ∨ readText (some replacement) limit cs = readText (some replacement) none cs := by
    unfold readText
    rcases (obeysLimit (some replacement) (2 * cs.length + 1)).value limit (skipSpace cs)
      with hdeep | hsame
    · rw [hdeep]
      exact .inl rfl
    · rw [hsame]
      exact .inr rfl
  rcases hread with hdeep | hsame
  · refine absurd ?_ h
    rw [load, hdeep]
  · rw [load, hsame, load]

theorem readText_error {fault : ReadFault} (h : readText half none cs = .error fault) :
    fault = .malformed := by
  cases fault with
  | malformed => rfl
  | tooDeep =>
    obtain ⟨n, hlimit, -⟩ := readText_eq_tooDeep_iff.1 h
    cases hlimit

theorem not_isLooseTextOf {fault : ReadFault} (h : readText half none cs = .error fault)
    (D : Tree Value) : ¬ IsLooseTextOf half cs D := by
  intro hD
  rw [readText_of_isLooseTextOf hD] at h
  cases h

/-- What becomes of a text that may be nested as deep as it is: it is JSON, or JSON with halves of
surrogate pairs only, or no JSON. -/
theorem load_cases (cs : List Char) :
    (∃ D, IsLooseTextOf none cs D ∧ load none cs = .ok (some (D.valueBy id)))
    ∨ ((∃ D, IsLooseTextOf (some replacement) cs D) ∧ (∀ D, ¬ IsLooseTextOf none cs D)
      ∧ load none cs = .error .unpaired)
    ∨ (∀ D, ¬ IsLooseTextOf (some replacement) cs D) ∧ load none cs = .ok none := by
  unfold load
  cases hloose : readText (some replacement) none cs with
  | error fault =>
    cases readText_error hloose
    exact .inr (.inr ⟨not_isLooseTextOf hloose, rfl⟩)
  | ok w =>
    cases hread : readText none none cs with
    | error fault =>
      obtain ⟨D, hD, -⟩ := readText_eq_ok_iff.1 hloose
      exact .inr (.inl ⟨⟨D, hD⟩, not_isLooseTextOf hread, rfl⟩)
    | ok v =>
      obtain ⟨D, hD, rfl⟩ := readText_eq_ok_iff.1 hread
      exact .inl ⟨D, hD, rfl⟩

/-- A text is given a value if it is JSON of a document of this value. -/
theorem load_eq_some_iff :
    load none cs = .ok (some v) ↔ ∃ D, IsLooseTextOf none cs D ∧ D.valueBy id = v := by
  constructor
  · intro h
    rcases load_cases cs with ⟨D, hD, hload⟩ | ⟨-, -, hload⟩ | ⟨-, hload⟩
    · rw [hload] at h
      cases h
      exact ⟨D, hD, rfl⟩
    · rw [hload] at h
      cases h
    · rw [hload] at h
      cases h
  · rintro ⟨D, hD, rfl⟩
    unfold load
    rw [readText_of_isLooseTextOf hD.mono, readText_of_isLooseTextOf hD]

/-- Whether a text is refused: it goes too deep, or else it is JSON with halves of surrogate pairs
only. -/
inductive IsRefused (limit : Option Nat) (cs : List Char) : Refusal → Prop
  | tooDeep {n : Nat} : limit = some n → GoesTooDeep n cs → IsRefused limit cs .tooDeep
  | unpaired {D : Tree Value} : (∀ n, limit = some n → ¬ GoesTooDeep n cs) →
      IsLooseTextOf (some replacement) cs D → (∀ E, ¬ IsLooseTextOf none cs E) →
      IsRefused limit cs .unpaired

theorem load_eq_error_iff {limit : Option Nat} {r : Refusal} :
    load limit cs = .error r ↔ IsRefused limit cs r := by
  by_cases hdeep : load limit cs = .error .tooDeep
  · obtain ⟨n, hlimit, hgoes⟩ := load_eq_tooDeep_iff.1 hdeep
    constructor
    · intro h
      rw [hdeep] at h
      cases h
      exact .tooDeep hlimit hgoes
    · intro h
      cases h with
      | tooDeep => exact hdeep
      | unpaired hshallow => exact absurd hgoes (hshallow n hlimit)
  · have hshallow : ∀ n, limit = some n → ¬ GoesTooDeep n cs :=
      fun n hlimit hgoes => hdeep (load_eq_tooDeep_iff.2 ⟨n, hlimit, hgoes⟩)
    rw [load_of_not_tooDeep hdeep]
    constructor
    · intro h
      rcases load_cases cs with ⟨D, -, hload⟩ | ⟨⟨D, hD⟩, hnone, hload⟩ | ⟨-, hload⟩
      · rw [hload] at h
        cases h
      · rw [hload] at h
        cases h
        exact .unpaired hshallow hD hnone
      · rw [hload] at h
        cases h
    · intro h
      cases h with
      | tooDeep hlimit hgoes => exact absurd hgoes (hshallow _ hlimit)
      | unpaired _ hD hnone =>
        rcases load_cases cs with ⟨E, hE, -⟩ | ⟨-, -, hload⟩ | ⟨hloose, -⟩
        · exact absurd hE (hnone E)
        · exact hload
        · exact absurd hD (hloose _)

end StagedTable.Json
