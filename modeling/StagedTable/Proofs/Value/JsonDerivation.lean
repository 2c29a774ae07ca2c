import StagedTable.Proofs.Value.JsonGrammar

/-!
# What is read is JSON

The reader takes nothing but the texts of documents: what it reads of a text is that of a document
of the value that it gives, and what it leaves follows it (`readsDerived`). With what the grammar
says to be taken, the reader and the grammar agree on whole texts (`readText_eq_ok_iff`).
-/

namespace StagedTable

open Text

variable {half : Option Char} {cs rest : List Char} {v : Value}

/-! ### Numbers -/

theorem WrittenExponent.exists_sign (cs : List Char) :
    ∃ sign : Option Bool, decide (sign = some true) = (Numeral.readSign cs).1
      ∧ ∀ e : WrittenExponent, e.sign = sign → cs = e.signText ++ (Numeral.readSign cs).2 := by
  unfold Numeral.readSign WrittenExponent.signText
  split
  · refine ⟨some false, rfl, fun e he => ?_⟩
    rw [he]
    rfl
  · refine ⟨some true, rfl, fun e he => ?_⟩
    rw [he]
    rfl
  · refine ⟨none, rfl, fun e he => ?_⟩
    rw [he]
    rfl

theorem Numeral.exists_writtenExponent {x : Int} (h : readExponent? cs = some (x, rest)) :
    ∃ e : WrittenExponent, e.value = x ∧ cs = e.render ++ rest := by
  cases cs with
  | nil => cases h
  | cons letter cs =>
    rw [readExponent?] at h
    split at h
    · next hletter =>
      obtain ⟨sign, hsign, htext⟩ := WrittenExponent.exists_sign cs
      generalize readSign cs = signed at h hsign htext
      obtain ⟨negative, digits⟩ := signed
      dsimp only at h hsign htext
      split at h
      · cases h
      · next ds after hne hrun =>
        cases h
        obtain ⟨rfl, hds, -⟩ := of_digitRun hrun
        refine ⟨⟨letter == 'E', sign, ds, hne, hds⟩, ?_, ?_⟩
        · rw [WrittenExponent.value, ← hsign]
          simp
        · have hcapital : (if (letter == 'E') = true then 'E' else 'e') = letter := by
            simp only [Bool.or_eq_true, beq_iff_eq] at hletter ⊢
            rcases hletter with rfl | rfl <;> rfl
          rw [WrittenExponent.render, WrittenExponent.letter, hcapital, List.cons_append,
            List.append_assoc, ← htext _ rfl]
    · cases h

namespace Json

/-- Digits are read in front of a point without a needless zero. -/
theorem exists_whole {whole : List Char} (h : readWhole cs = some (whole, rest)) :
    cs = whole ++ rest ∧ (∀ c ∈ whole, isDigit c = true)
      ∧ (whole = ['0'] ∨ ∃ c r, whole = c :: r ∧ c ≠ '0') := by
  unfold readWhole at h
  split at h
  · cases h
    exact ⟨rfl, fun c hc => List.mem_singleton.1 hc ▸ rfl, .inl rfl⟩
  · next hzero =>
    split at h
    · cases h
    · next hne =>
      rw [Option.some.injEq] at h
      obtain ⟨rfl, hdigits, -⟩ := of_digitRun h
      refine ⟨rfl, hdigits, .inr ?_⟩
      cases whole with
      | nil => exact absurd h (hne rest)
      | cons c r =>
        refine ⟨c, r, rfl, ?_⟩
        rintro rfl
        exact hzero (r ++ rest) rfl

/-- A fraction is a point with digits behind it, or nothing. -/
theorem exists_fraction {fraction : List Char}
    (h : (readFraction? cs).getD ([], cs) = (fraction, rest)) :
    cs = (if fraction = [] then [] else '.' :: fraction) ++ rest
      ∧ ∀ c ∈ fraction, isDigit c = true := by
  have hnone : ([], cs) = (fraction, rest) →
      cs = (if fraction = [] then [] else '.' :: fraction) ++ rest
        ∧ ∀ c ∈ fraction, isDigit c = true := by
    intro e
    cases e
    exact ⟨rfl, List.forall_mem_nil _⟩
  unfold readFraction? at h
  split at h
  · split at h
    · exact hnone h
    · next hne =>
      rw [Option.getD_some] at h
      obtain ⟨rfl, hdigits, -⟩ := of_digitRun h
      refine ⟨?_, hdigits⟩
      rw [if_neg]
      · rfl
      · rintro rfl
        exact hne rest h
  · exact hnone h

theorem eq_minus_append (cs : List Char) :
    cs = (if (readMinus cs).1 then ['-'] else []) ++ (readMinus cs).2 := by
  unfold readMinus
  split <;> rfl

/-- An exponent is read as it is written, or there is none. -/
theorem exists_exponent (cs : List Char) :
    ∃ e : Option WrittenExponent, (e = none ↔ Numeral.readExponent? cs = none)
      ∧ (e.map (·.value)).getD 0 = ((Numeral.readExponent? cs).getD (0, cs)).1
      ∧ cs = (e.map (·.render)).getD [] ++ ((Numeral.readExponent? cs).getD (0, cs)).2 := by
  cases hread : Numeral.readExponent? cs with
  | none => exact ⟨none, iff_of_true rfl rfl, rfl, rfl⟩
  | some read =>
    obtain ⟨e, hvalue, htext⟩ := Numeral.exists_writtenExponent hread
    exact ⟨some e, by simp, hvalue, htext⟩

/-- What is read as a number is one, and no integer of too many digits. -/
theorem exists_number (h : readNumber cs = some (v, rest)) :
    ∃ n : SignedNumeral, n.isShort = true ∧ n.toValue = v ∧ cs = n.render ++ rest := by
  have hcs := eq_minus_append cs
  unfold readNumber at h
  generalize readMinus cs = signed at h hcs
  obtain ⟨negative, signed⟩ := signed
  simp only [Option.bind_eq_bind, Option.bind_eq_some_iff] at h
  obtain ⟨⟨whole, after⟩, hwhole, h⟩ := h
  obtain ⟨rfl, hdigits, hzero⟩ := exists_whole hwhole
  generalize hplaces : (readFraction? after).getD ([], after) = places at h
  obtain ⟨ds, afterPoint⟩ := places
  obtain ⟨htext, hfraction⟩ := exists_fraction hplaces
  obtain ⟨exponent, hnone, hvalue, hexponent⟩ := exists_exponent afterPoint
  dsimp only at h hcs
  let n : SignedNumeral := ⟨⟨whole, ds, exponent, hdigits, hzero, hfraction⟩, negative⟩
  have hrender : ∀ tail, ((Numeral.readExponent? afterPoint).getD (0, afterPoint)).2 = tail →
      cs = n.render ++ tail := by
    intro tail htail
    rw [htail] at hexponent
    rw [hcs, htext, hexponent]
    cases exponent <;>
      simp [n, SignedNumeral.render, WrittenNumeral.render, WrittenNumeral.fractionText,
        WrittenNumeral.exponentText]
  have hinteger : n.isInteger = true ↔ ds = [] ∧ Numeral.readExponent? afterPoint = none :=
    n.isInteger_iff.trans (and_congr_right fun _ => hnone)
  refine ⟨n, ?_⟩
  split at h
  · -- without a fraction and an exponent it is an integer
    next hread =>
    obtain ⟨i, hi, hv⟩ := Option.bind_eq_some_iff.1 h
    cases hv
    unfold integerOfDigits? at hi
    split at hi
    · next hshort =>
      cases hi
      have hint := hinteger.2 ⟨rfl, hread⟩
      refine ⟨?_, if_pos hint, hrender _ ?_⟩
      · rw [SignedNumeral.isShort, hint]
        exact decide_eq_true hshort
      · rw [hread, htext]
        rfl
    · cases hi
  · next ds _ _ hfloat =>
    cases h
    have hint : ¬ n.isInteger = true := fun h => hfloat (hinteger.1 h).1 (hinteger.1 h).2
    refine ⟨?_, (if_neg hint).trans ?_, hrender _ rfl⟩
    · simp [SignedNumeral.isShort, hint]
    · rw [← hvalue]
      cases exponent <;> rfl

/-! ### Values -/

/-- Whether a text starts with that of a document of a value, with a rest behind it. -/
def LeadsDocument (half : Option Char) (cs : List Char) (v : Value) (rest : List Char) : Prop :=
  ∃ text D, DerivesBy half IsNumberOf text D ∧ D.valueBy id = v ∧ cs = text ++ rest

theorem leadsDocument_name (h : readName cs = some (v, rest)) : LeadsDocument half cs v rest := by
  have hnamed : ∀ entry ∈ namedValues, ∃ D, DerivesBy half IsNumberOf entry.1 D
      ∧ D.valueBy id = entry.2 := by
    simp only [namedValues, List.forall_mem_cons]
    exact ⟨⟨_, .null, rfl⟩, ⟨_, .bool true, rfl⟩, ⟨_, .bool false, rfl⟩, ⟨_, .number .nan, rfl⟩,
      ⟨_, .number .infinity, rfl⟩, ⟨_, .number .negativeInfinity, rfl⟩, List.forall_mem_nil _⟩
  obtain ⟨⟨name, w⟩, hentry, hv⟩ := List.exists_of_findSome?_eq_some h
  dsimp only at hv
  split at hv
  · next hprefix =>
    cases hv
    obtain ⟨D, hD, hvalue⟩ := hnamed _ hentry
    obtain ⟨after, rfl⟩ := List.isPrefixOf_iff_prefix.1 hprefix
    exact ⟨name, D, hD, hvalue, by simp⟩
  · cases hv

theorem leadsDocument_leaf (h : readLeaf half cs = some (v, rest)) :
    LeadsDocument half cs v rest := by
  unfold readLeaf at h
  split at h
  · obtain ⟨⟨s, after⟩, hs, e⟩ := Option.map_eq_some_iff.1 h
    cases e
    obtain ⟨body, rfl, hstring⟩ := isString_of_readString hs
    rw [← String.toList_ofList (l := s)] at hstring
    exact ⟨_, _, .string hstring, rfl, rfl⟩
  · rw [Option.orElse_eq_orElse, Option.orElse_eq_or] at h
    rcases Option.or_eq_some_iff.1 h with hname | ⟨-, hnumber⟩
    · exact leadsDocument_name hname
    · obtain ⟨n, hshort, rfl, rfl⟩ := exists_number hnumber
      exact ⟨_, _, .number (.numeral n hshort), rfl, rfl⟩

theorem exists_space (cs : List Char) : ∃ space, IsSpace space ∧ cs = space ++ skipSpace cs :=
  ⟨cs.takeWhile isSpace, fun _ hc => List.mem_takeWhile_imp hc,
    List.takeWhile_append_dropWhile.symm⟩

/-- Whether a text is that of items of some values between commas, with a closing bracket and a rest
behind them. -/
def LeadsItems (half : Option Char) (cs : List Char) (vs : List Value) (rest : List Char) : Prop :=
  ∃ items : List (Slot (Tree Value)), items ≠ []
    ∧ (∀ i ∈ items, DerivesBy half IsNumberOf i.text i.content)
    ∧ items.map (fun i => i.content.valueBy id) = vs
    ∧ cs = List.intercalate [','] (items.map Slot.render) ++ ']' :: rest

/-- Whether a text is that of fields of some values between commas, with a closing brace and a rest
behind them. -/
def LeadsFields (half : Option Char) (cs : List Char) (fields : List (String × Value))
    (rest : List Char) : Prop :=
  ∃ members : List (Member half (Tree Value)), members ≠ []
    ∧ (∀ m ∈ members, DerivesBy half IsNumberOf m.text m.content)
    ∧ members.map (fun m => (m.name, m.content.valueBy id)) = fields
    ∧ cs = List.intercalate [','] (members.map Member.render) ++ '}' :: rest

section
variable {space after : List Char} (hspace : IsSpace space) (hv : LeadsDocument half cs v after)
include hspace hv

/-- A value is an item, the white space around it included. -/
theorem LeadsDocument.exists_slot : ∃ s : Slot (Tree Value),
    DerivesBy half IsNumberOf s.text s.content ∧ s.content.valueBy id = v
      ∧ space ++ cs = s.render ++ skipSpace after := by
  obtain ⟨text, D, hD, hvalue, rfl⟩ := hv
  obtain ⟨gap, hgap, hafter⟩ := exists_space after
  refine ⟨⟨space, text, gap, D, hspace, hgap⟩, hD, hvalue, ?_⟩
  rw [Slot.render, List.append_assoc, List.append_assoc, ← hafter]

theorem leadsItems_singleton (hclose : skipSpace after = ']' :: rest) :
    LeadsItems half (space ++ cs) [v] rest := by
  obtain ⟨s, hs, hvalue, htext⟩ := hv.exists_slot hspace
  refine ⟨[s], List.cons_ne_nil _ _, List.forall_mem_singleton.2 hs, ?_, ?_⟩
  · rw [List.map_singleton, hvalue]
  · rw [htext, hclose, List.map_singleton, List.intercalate_singleton]

theorem leadsItems_cons {more : List Char} {vs : List Value}
    (hcomma : skipSpace after = ',' :: more) (h : LeadsItems half more vs rest) :
    LeadsItems half (space ++ cs) (v :: vs) rest := by
  obtain ⟨s, hs, hvalue, htext⟩ := hv.exists_slot hspace
  obtain ⟨items, hne, hitems, rfl, rfl⟩ := h
  refine ⟨s :: items, List.cons_ne_nil _ _, List.forall_mem_cons.2 ⟨hs, hitems⟩, ?_, ?_⟩
  · rw [List.map_cons, hvalue]
  · obtain ⟨i, tail, rfl⟩ := List.exists_cons_of_ne_nil hne
    rw [htext, hcomma]
    simp [List.intercalate_cons_cons]

end

/-- A field name is a string with a colon behind it. -/
theorem exists_fieldName {name : String} (h : readFieldName half cs = some (name, rest)) :
    ∃ nameText gap before, IsString half nameText name.toList ∧ IsSpace gap ∧ IsSpace before
      ∧ cs = nameText ++ (gap ++ ':' :: (before ++ rest)) := by
  unfold readFieldName at h
  split at h
  · split at h
    · cases h
    · next s after hs =>
      split at h
      · next tail hcolon =>
        cases h
        obtain ⟨body, rfl, hstring⟩ := isString_of_readString hs
        obtain ⟨gap, hgap, hafter⟩ := exists_space after
        obtain ⟨before, hbefore, htail⟩ := exists_space tail
        refine ⟨'"' :: body, gap, before, ?_, hgap, hbefore, ?_⟩
        · rwa [String.toList_ofList]
        · rw [← htail, ← hcolon, ← hafter]
          rfl
      · cases h
  · cases h

section
variable {space after value : List Char} {name : String} (hspace : IsSpace space)
  (hname : readFieldName half cs = some (name, value)) (hv : LeadsDocument half value v after)
include hspace hname hv

/-- A value behind a field name is a member, the white space around it included. -/
theorem LeadsDocument.exists_member : ∃ m : Member half (Tree Value),
    DerivesBy half IsNumberOf m.text m.content ∧ (m.name, m.content.valueBy id) = (name, v)
      ∧ space ++ cs = m.render ++ skipSpace after := by
  obtain ⟨nameText, gap, before, hstring, hgap, hbefore, rfl⟩ := exists_fieldName hname
  obtain ⟨s, hs, hvalue, htext⟩ := hv.exists_slot hbefore
  refine ⟨⟨s, space, nameText, gap, name, hspace, hgap, hstring⟩, hs, ?_, ?_⟩
  · rw [← hvalue]
  · rw [htext]
    simp [Member.render]

theorem leadsFields_singleton (hclose : skipSpace after = '}' :: rest) :
    LeadsFields half (space ++ cs) [(name, v)] rest := by
  obtain ⟨m, hm, hvalue, htext⟩ := hv.exists_member hspace hname
  refine ⟨[m], List.cons_ne_nil _ _, List.forall_mem_singleton.2 hm, ?_, ?_⟩
  · rw [List.map_singleton, hvalue]
  · rw [htext, hclose, List.map_singleton, List.intercalate_singleton]

theorem leadsFields_cons {more : List Char} {fields : List (String × Value)}
    (hcomma : skipSpace after = ',' :: more) (h : LeadsFields half more fields rest) :
    LeadsFields half (space ++ cs) ((name, v) :: fields) rest := by
  obtain ⟨m, hm, hvalue, htext⟩ := hv.exists_member hspace hname
  obtain ⟨members, hne, hmembers, rfl, rfl⟩ := h
  refine ⟨m :: members, List.cons_ne_nil _ _, List.forall_mem_cons.2 ⟨hm, hmembers⟩, ?_, ?_⟩
  · rw [List.map_cons, hvalue]
  · obtain ⟨i, tail, rfl⟩ := List.exists_cons_of_ne_nil hne
    rw [htext, hcomma]
    simp [List.intercalate_cons_cons]

end

/-- Whether all that is read with some fuel is JSON: each value, and the items and fields, with white
space in front of them. -/
structure ReadsDerived (half : Option Char) (fuel : Nat) : Prop where
  value : ∀ {limit cs v rest}, readValue half fuel limit cs = .ok (v, rest) →
    LeadsDocument half cs v rest
  items : ∀ {limit cs items rest space}, readItems half fuel limit cs = .ok (items, rest) →
    IsSpace space → LeadsItems half (space ++ cs) items rest
  fields : ∀ {limit cs fields rest space}, readFields half fuel limit cs = .ok (fields, rest) →
    IsSpace space → LeadsFields half (space ++ cs) fields rest

theorem map_eq_ok {ε α β : Type} {f : α → β} {r : Except ε α} {y : β} (h : r.map f = .ok y) :
    ∃ x, r = .ok x ∧ f x = y := by
  cases r with
  | error e => cases h
  | ok x => exact ⟨x, rfl, Except.ok.inj h⟩

theorem orMalformed_eq_ok {α : Type} {r : Option α} {x : α} (h : orMalformed r = .ok x) :
    r = some x := by
  cases r with
  | none => cases h
  | some y => exact congrArg some (Except.ok.inj h)

namespace ReadsDerived

variable {fuel : Nat} {limit : Option Nat} (h : ReadsDerived half fuel)
include h

theorem value_succ (hread : readValue half (fuel + 1) limit cs = .ok (v, rest)) :
    LeadsDocument half cs v rest := by
  unfold readValue at hread
  split at hread
  · next tail =>
    obtain ⟨space, hspace, htail⟩ := exists_space tail
    split at hread
    · cases hread
    · split at hread
      · next hskip =>
        cases hread
        refine ⟨_, _, .emptyArray hspace, rfl, ?_⟩
        rw [htail, hskip]
        simp
      · obtain ⟨⟨items, after⟩, hitems, e⟩ := map_eq_ok hread
        cases e
        obtain ⟨slots, hne, hslots, rfl, htext⟩ := h.items hitems hspace
        refine ⟨_, _, .array slots hne hslots, ?_, ?_⟩
        · simp
        · rw [htail, htext, enclosed]
          simp
  · next tail =>
    obtain ⟨space, hspace, htail⟩ := exists_space tail
    split at hread
    · cases hread
    · split at hread
      · next hskip =>
        cases hread
        refine ⟨_, _, .emptyObject hspace, rfl, ?_⟩
        rw [htail, hskip]
        simp
      · obtain ⟨⟨fields, after⟩, hfields, e⟩ := map_eq_ok hread
        cases e
        obtain ⟨members, hne, hmembers, rfl, htext⟩ := h.fields hfields hspace
        refine ⟨_, _, .object members hne hmembers, ?_, ?_⟩
        · simp [Function.comp_def]
        · rw [htail, htext, enclosed]
          simp
  · exact leadsDocument_leaf (orMalformed_eq_ok hread)

theorem items_succ {items : List Value} {space : List Char}
    (hread : readItems half (fuel + 1) limit cs = .ok (items, rest)) (hspace : IsSpace space) :
    LeadsItems half (space ++ cs) items rest := by
  rw [readItems] at hread
  split at hread
  · cases hread
  · next v after hv =>
    split at hread
    · next more hcomma =>
      obtain ⟨⟨tail, left⟩, htail, e⟩ := map_eq_ok hread
      cases e
      obtain ⟨gap, hgap, hmore⟩ := exists_space more
      have hitems := h.items htail hgap
      rw [← hmore] at hitems
      exact leadsItems_cons hspace (h.value hv) hcomma hitems
    · next hclose =>
      cases hread
      exact leadsItems_singleton hspace (h.value hv) hclose
    · cases hread

theorem fields_succ {fields : List (String × Value)} {space : List Char}
    (hread : readFields half (fuel + 1) limit cs = .ok (fields, rest)) (hspace : IsSpace space) :
    LeadsFields half (space ++ cs) fields rest := by
  rw [readFields] at hread
  split at hread
  · cases hread
  · next name value hname =>
    split at hread
    · cases hread
    · next v after hv =>
      split at hread
      · next more hcomma =>
        obtain ⟨⟨tail, left⟩, htail, e⟩ := map_eq_ok hread
        cases e
        obtain ⟨gap, hgap, hmore⟩ := exists_space more
        have hfields := h.fields htail hgap
        rw [← hmore] at hfields
        exact leadsFields_cons hspace hname (h.value hv) hcomma hfields
      · next hclose =>
        cases hread
        exact leadsFields_singleton hspace hname (h.value hv) hclose
      · cases hread

end ReadsDerived

/-- All that is read is JSON. -/
theorem readsDerived (half : Option Char) (fuel : Nat) : ReadsDerived half fuel := by
  induction fuel with
  | zero => constructor <;> intros <;> contradiction
  | succ fuel ih => exact ⟨ih.value_succ, ih.items_succ, ih.fields_succ⟩

/-! ### Whole texts -/

theorem isLooseTextOf_of_readText {limit : Option Nat} (h : readText half limit cs = .ok v) :
    ∃ D, IsLooseTextOf half cs D ∧ D.valueBy id = v := by
  unfold readText at h
  split at h
  · cases h
  · next w after hread =>
    split at h
    · next hafter =>
      cases h
      obtain ⟨space, hspace, hcs⟩ := exists_space cs
      obtain ⟨s, hs, hvalue, htext⟩ := ((readsDerived half _).value hread).exists_slot hspace
      rw [← hcs, hafter, List.append_nil] at htext
      exact ⟨_, ⟨s, htext.symm, rfl, hs⟩, hvalue⟩
    · cases h

theorem readText_of_isLooseTextOf {D : Tree Value} (h : IsLooseTextOf half cs D) :
    readText half none cs = .ok (D.valueBy id) := by
  obtain ⟨s, rfl, rfl, hs⟩ := h
  rw [readText_render hs.isTaken_valueBy, orMalformed_some]

/-- A text is read as a value if it is JSON of a document of this value. -/
theorem readText_eq_ok_iff :
    readText half none cs = .ok v ↔ ∃ D, IsLooseTextOf half cs D ∧ D.valueBy id = v := by
  constructor
  · exact isLooseTextOf_of_readText
  · rintro ⟨D, hD, rfl⟩
    exact readText_of_isLooseTextOf hD

end Json

end StagedTable
