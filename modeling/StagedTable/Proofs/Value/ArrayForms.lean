import StagedTable.Proofs.Text.Trimmed
import StagedTable.Proofs.Value.JsonText
import StagedTable.Value.Text

/-!
# The forms of an array

A list of cell values has three forms that decoding accepts: the list itself, its JSON text and its
array literal. All three give the texts of the items (`decode_forms`), and a literal of texts and
nulls tells which of the two each item was (`written_injective`).

A literal is read element by element. `ScansTo` says of a written element that the reader passes
over it and is left with its text, whatever follows; a list of such elements between commas is then
split where it was joined (`elements_intercalate`).
-/

namespace StagedTable

open Text

theorem Value.IsCellOf.write_eq {v : Value} {float : Double → Prop} (h : v.IsCellOf IsShort float)
    (form : Value → List Char) : v.write form = .ok (form v) := by
  rw [write, h.holdsLong, if_neg Bool.false_ne_true]

namespace ArrayLiteral

/-! ### Written items -/

theorem elementText_eq {v : Value} (h : v.IsReadable) : v.elementText = .ok v.plainText := by
  have hwrite := h.write_eq Value.display
  have hfault := h.firstFault?
  rw [h.holdsLong] at hfault
  cases h with
  | list items _ => rw [Value.elementText, hfault]; rfl
  | document fields _ _ => rw [Value.elementText, hfault]; rfl
  | int n _ => exact hwrite
  | _ => rfl

/-- An item as it is written in a literal. -/
def written (v : Value) : List Char :=
  match v with
  | .null => "NULL".toList
  | v => element v.plainText

theorem valueElement_eq {v : Value} (h : v.IsReadable) : valueElement v = .ok (written v) := by
  have htext := elementText_eq h
  cases h with
  | null => rfl
  | _ => simp only [valueElement, htext]; rfl

/-- Encoding cell values whose integers are within the limit on digits succeeds, with one written
element for each. -/
theorem encode_eq {items : List Value} (h : ∀ v ∈ items, v.IsReadable) :
    encode items = .ok (braced (items.map written)) := by
  have hmap : items.mapM valueElement = .ok (items.map written) := by
    induction items with
    | nil => rfl
    | cons v rest ih =>
      rw [List.mapM_cons, valueElement_eq (h v (.head _)), ih fun w hw => h w (.tail _ hw)]
      rfl
  rw [encode, hmap]
  rfl

theorem itemTexts_eq {items : List Value} (h : ∀ v ∈ items, v.IsReadable) :
    itemTexts items = .ok (items.map Value.plainText) := by
  unfold itemTexts
  induction items with
  | nil => rfl
  | cons v rest ih =>
    rw [List.mapM_cons, elementText_eq (h v (.head _)), ih fun w hw => h w (.tail _ hw)]
    rfl

/-! ### Reading an element -/

/-- Whether the reader passes over a written element and is left with a text to give out. -/
def ScansTo (w text : List Char) : Prop :=
  ∃ e : Element, e.finish = text ∧ e.escaped = false ∧ e.inQuotes = false ∧
    ∀ rest, elements .fresh (w ++ rest) = elements e rest

/-- Inside quotes an escaped text is taken character by character. -/
theorem elements_escape (cs reversed rest : List Char) :
    elements ⟨reversed, true, false, true⟩ (escape cs ++ rest)
      = elements ⟨cs.reverse ++ reversed, true, false, true⟩ rest := by
  induction cs generalizing reversed with
  | nil => rfl
  | cons c tail ih =>
    -- an escaped character takes two steps, but it leaves no more than itself
    have hstep : elements ⟨reversed, true, false, true⟩ (escape (c :: tail) ++ rest)
        = elements ⟨c :: reversed, true, false, true⟩ (escape tail ++ rest) := by
      by_cases hc : c = '\\' ∨ c = '"'
      · have hescape : escape (c :: tail) = '\\' :: c :: escape tail := by
          rcases hc with rfl | rfl <;> rfl
        rw [hescape]
        simp [elements, Element.step]
      · have hescape : escape (c :: tail) = c :: escape tail := by
          simp only [escape, List.flatMap_cons]
          rw [if_neg (by simpa using hc)]
          rfl
        rw [not_or] at hc
        rw [hescape]
        simp [elements, Element.step, hc.1, hc.2]
    rw [hstep, ih, List.reverse_cons, List.append_assoc]
    rfl

/-- Outside quotes a text without commas, quotes and backslashes is taken character by character,
whether a quote has been passed or not. -/
theorem elements_outside {cs : List Char} (h : ∀ c ∈ cs, c ≠ ',' ∧ c ≠ '"' ∧ c ≠ '\\')
    (quoted : Bool) (reversed rest : List Char) :
    elements ⟨reversed, false, false, quoted⟩ (cs ++ rest)
      = elements ⟨cs.reverse ++ reversed, false, false, quoted⟩ rest := by
  induction cs generalizing reversed with
  | nil => rfl
  | cons c tail ih =>
    obtain ⟨hcomma, hquote, hslash⟩ := h c (.head _)
    have hstep : elements ⟨reversed, false, false, quoted⟩ (c :: tail ++ rest)
        = elements ⟨c :: reversed, false, false, quoted⟩ (tail ++ rest) := by
      simp [elements, Element.step, hcomma, hquote, hslash]
    rw [hstep, ih fun d hd => h d (.tail _ hd), List.reverse_cons, List.append_assoc]
    rfl

/-- Outside quotes a text without special characters is taken character by character. -/
theorem elements_bare {cs : List Char} (h : ∀ c ∈ cs, isSpecial c = false)
    (reversed rest : List Char) :
    elements ⟨reversed, false, false, false⟩ (cs ++ rest)
      = elements ⟨cs.reverse ++ reversed, false, false, false⟩ rest := by
  refine elements_outside (fun c hc => ?_) false reversed rest
  have hspecial := h c hc
  simp only [isSpecial, Bool.or_eq_false_iff, beq_eq_false_iff_ne] at hspecial
  exact ⟨hspecial.1.1.1.1.1, hspecial.1.1.1.1.2, hspecial.1.1.1.2⟩

theorem isBlank_of_not_special {c : Char} (h : isSpecial c = false) : isBlank c = false := by
  simp only [isSpecial, Bool.or_eq_false_iff] at h
  exact h.2

theorem trim_bare {cs : List Char} (h : ∀ c ∈ cs, isSpecial c = false) : trim cs = cs :=
  trim_eq_self (fun c hc => isBlank_of_not_special (h c (List.mem_of_mem_head? hc)))
    fun c hc => isBlank_of_not_special (h c (List.mem_of_getLast? hc))

theorem scansTo_element (cs : List Char) : ScansTo (element cs) cs := by
  by_cases hquotes : needsQuotes cs = true
  · refine ⟨⟨cs.reverse, false, false, true⟩, ?_, rfl, rfl, ?_⟩
    · simp [Element.finish]
    · intro rest
      have hopen : elements .fresh (element cs ++ rest)
          = elements ⟨[], true, false, true⟩ (escape cs ++ '"' :: rest) := by
        simp [element, hquotes, elements, Element.step, Element.fresh]
      rw [hopen, elements_escape]
      simp [elements, Element.step]
  · rw [Bool.not_eq_true] at hquotes
    -- what stands bare is neither trimmed nor taken for the word for null
    have hparts := hquotes
    simp only [needsQuotes, Bool.or_eq_false_iff, List.any_eq_false, Bool.not_eq_true] at hparts
    obtain ⟨⟨-, hword⟩, hspecial⟩ := hparts
    refine ⟨⟨cs.reverse, false, false, false⟩, ?_, rfl, rfl, ?_⟩
    · simp [Element.finish, trim_bare hspecial, hword]
    · intro rest
      have hbare := elements_bare hspecial [] rest
      rw [List.append_nil] at hbare
      rw [element, hquotes]
      exact hbare

theorem scansTo_null : ScansTo "NULL".toList [] := by
  refine ⟨⟨"NULL".toList.reverse, false, false, false⟩, by decide, rfl, rfl, ?_⟩
  intro rest
  have hspecial : ∀ c ∈ "NULL".toList, isSpecial c = false := by
    intro c hc
    have hall : ("NULL".toList.all fun c => !isSpecial c) = true := by decide
    simpa using List.all_eq_true.1 hall c hc
  have hbare := elements_bare hspecial [] rest
  rwa [List.append_nil] at hbare

theorem scansTo_written (v : Value) : ScansTo (written v) v.plainText := by
  cases v with
  | null => exact scansTo_null
  | _ => exact scansTo_element _

/-! ### Reading a list -/

/-- Elements between commas are split where they were joined. -/
theorem elements_join {α : Type} {text item : α → List Char} (x : α) (xs : List α)
    (h : ∀ y ∈ x :: xs, ScansTo (text y) (item y)) :
    elements .fresh (List.intercalate [','] ((x :: xs).map text)) = (x :: xs).map item := by
  induction xs generalizing x with
  | nil =>
    obtain ⟨e, hitem, hescaped, hquotes, hscan⟩ := h x (.head _)
    have hscan := hscan []
    rw [List.append_nil] at hscan
    simp only [List.map_cons, List.map_nil, List.intercalate_singleton]
    rw [hscan, elements, hitem]
  | cons y rest ih =>
    obtain ⟨e, hitem, hescaped, hquotes, hscan⟩ := h x (.head _)
    -- outside quotes a comma ends the item, and the reader starts anew
    have hcomma : ∀ after, elements e (',' :: after) = item x :: elements .fresh after := by
      intro after
      rw [elements, if_pos ⟨rfl, by simp [hescaped], by simp [hquotes]⟩, hitem]
    rw [List.map_cons, List.map_cons, List.intercalate_cons_cons, List.append_assoc, hscan,
      List.singleton_append, hcomma]
    rw [← List.map_cons, ih y fun z hz => h z (.tail _ hz)]
    rfl

theorem elements_intercalate (v : Value) (items : List Value) :
    elements .fresh (List.intercalate [','] ((v :: items).map written))
      = (v :: items).map Value.plainText :=
  elements_join v items fun w _ => scansTo_written w

/-- An element starts with a quote or with a character that needs none. -/
theorem exists_head_element (cs : List Char) : ∃ c r, element cs = c :: r ∧ isBlank c = false := by
  by_cases hquotes : needsQuotes cs = true
  · exact ⟨'"', escape cs ++ ['"'], by rw [element, if_pos hquotes], rfl⟩
  · rw [element, if_neg hquotes]
    simp only [needsQuotes, Bool.or_eq_true, not_or, Bool.not_eq_true] at hquotes
    obtain ⟨⟨hempty, -⟩, hspecial⟩ := hquotes
    cases cs with
    -- the empty text is written in quotes
    | nil => cases hempty
    | cons c r =>
      rw [List.any_cons, Bool.or_eq_false_iff] at hspecial
      exact ⟨c, r, rfl, isBlank_of_not_special hspecial.1⟩

theorem exists_head_written (v : Value) : ∃ c r, written v = c :: r ∧ isBlank c = false := by
  cases v with
  | null => exact ⟨'N', _, rfl, rfl⟩
  | _ => exact exists_head_element _

/-- A written item holds more than blanks. -/
theorem allBlank_written (v : Value) (after : List Char) : allBlank (written v ++ after) = false := by
  obtain ⟨c, r, hr, hc⟩ := exists_head_written v
  rw [hr, List.cons_append, allBlank, List.all_cons, hc]
  rfl

/-- A list that is written starts with its first item, and a comma comes before the others. -/
theorem intercalate_written (v : Value) (rest : List Value) :
    ∃ after, List.intercalate [','] ((v :: rest).map written) = written v ++ after
      ∧ (rest ≠ [] → after = ',' :: List.intercalate [','] (rest.map written)) := by
  cases rest with
  | nil => exact ⟨[], by simp, fun hne => absurd rfl hne⟩
  | cons w rest =>
    refine ⟨',' :: List.intercalate [','] ((w :: rest).map written), ?_, fun _ => rfl⟩
    rw [List.map_cons, List.map_cons, List.intercalate_cons_cons, List.append_assoc]
    rfl

theorem decodeLiteral_braced (items : List Value) :
    decodeLiteral (braced (items.map written)) = items.map Value.plainText := by
  have hinside : unbraced (braced (items.map written))
      = List.intercalate [','] (items.map written) := by
    rw [braced, unbraced, List.getLast?_concat, if_pos rfl, List.dropLast_concat]
  rw [decodeLiteral, hinside]
  cases items with
  | nil => rfl
  | cons v rest =>
    have hblank : allBlank (List.intercalate [','] ((v :: rest).map written)) = false := by
      obtain ⟨after, hafter, -⟩ := intercalate_written v rest
      rw [hafter, allBlank_written]
    simp only [hblank, Bool.false_eq_true, if_false]
    exact elements_intercalate v rest

/-- The array literal of a list of items decodes to their texts. -/
theorem decodeText_braced (items : List Value) :
    decodeText none (braced (items.map written)) = .ok (items.map Value.plainText) := by
  have htrim : trim (braced (items.map written)) = braced (items.map written) :=
    trim_enclosed rfl rfl _
  have hjson : jsonItems? none (braced (items.map written)) = .ok none := rfl
  rw [decodeText, htrim, Option.map_none, hjson]
  exact congrArg Except.ok (decodeLiteral_braced items)

/-- The JSON text of a list of readable items decodes to their texts. -/
theorem decodeText_json {items : List Value} (h : ∀ v ∈ items, v.IsReadable) :
    decodeText none (Value.list items).json = .ok (items.map Value.plainText) := by
  obtain ⟨inside, hinside⟩ : ∃ inside, (Value.list items).json = '[' :: (inside ++ [']']) :=
    ⟨_, by rw [Value.json, Json.print, Json.bracketed]⟩
  have hload := Json.load_json (.list items h)
  have htrim : trim (Value.list items).json = (Value.list items).json := by
    rw [hinside]
    exact trim_enclosed rfl rfl _
  rw [Value.reread, Value.rereadItems_eq_map] at hload
  have hitems : jsonItems? none (Value.list items).json = .ok (some (items.map Value.reread)) := by
    rw [hinside] at hload ⊢
    rw [jsonItems?, hload]
  have hreread : ∀ v ∈ items.map Value.reread, v.IsReadable := by
    intro v hv
    obtain ⟨w, hw, rfl⟩ := List.mem_map.1 hv
    exact (h w hw).reread
  have htexts : (items.map Value.reread).map Value.plainText = items.map Value.plainText := by
    rw [List.map_map]
    exact List.map_congr_left fun v hv => (h v hv).plainText_reread
  have hshallow : anyTooDeep none (items.map Value.reread) = false := rfl
  rw [decodeText, htrim, Option.map_none, hitems]
  simp only [hshallow, itemTexts_eq hreread, htexts, Bool.false_eq_true, if_false]

/-! ### Telling the items apart -/

/-- Whether a value is null or a text. -/
def IsNullOrText (v : Value) : Prop := v = .null ∨ ∃ s, v = .text s

theorem IsNullOrText.isReadable {v : Value} (h : IsNullOrText v) : v.IsReadable := by
  rcases h with rfl | ⟨s, rfl⟩
  · exact .null
  · exact .text s

/-- Null and the empty text have the same plain text, but they are written apart. -/
theorem written_injective {v w : Value} (hv : IsNullOrText v) (hw : IsNullOrText w)
    (htext : v.plainText = w.plainText) {as bs : List Char}
    (h : written v ++ as = written w ++ bs) : v = w := by
  have hapart : ∀ cs ds : List Char, "NULL".toList ++ cs ≠ ['"', '"'] ++ ds :=
    fun cs ds e => absurd (List.cons.inj e).1 (by decide)
  have hquoted : ∀ s : String, s.toList = [] → written (.text s) = ['"', '"'] := by
    intro s hs
    have hplain : (Value.text s).plainText = [] := hs
    rw [written]
    · rw [hplain]
      rfl
    · exact Value.noConfusion
  rcases hv with rfl | ⟨s, rfl⟩
  · rcases hw with rfl | ⟨t, rfl⟩
    · rfl
    · rw [hquoted t htext.symm] at h
      exact absurd h (hapart as bs)
  · rcases hw with rfl | ⟨t, rfl⟩
    · rw [hquoted s htext] at h
      exact absurd h.symm (hapart bs as)
    · exact congrArg Value.text (String.toList_inj.1 htext)

/-- Nulls and texts whose plain texts agree are the same if they are written alike. -/
theorem eq_of_intercalate_eq {items others : List Value} (hitems : ∀ v ∈ items, IsNullOrText v)
    (hothers : ∀ v ∈ others, IsNullOrText v)
    (htexts : items.map Value.plainText = others.map Value.plainText)
    (h : List.intercalate [','] (items.map written)
      = List.intercalate [','] (others.map written)) : items = others := by
  induction items generalizing others with
  | nil =>
    cases others with
    | nil => rfl
    | cons w rest => cases htexts
  | cons v rest ih =>
    cases others with
    | nil => cases htexts
    | cons w others =>
      rw [List.map_cons, List.map_cons, List.cons.injEq] at htexts
      obtain ⟨as, has, hrest⟩ := intercalate_written v rest
      obtain ⟨bs, hbs, hothers'⟩ := intercalate_written w others
      rw [has, hbs] at h
      have hhead : v = w :=
        written_injective (hitems v (.head _)) (hothers w (.head _)) htexts.1 h
      subst hhead
      -- the same item is written alike, so that what is behind it is alike too
      have hbehind : as = bs := List.append_cancel_left h
      cases rest with
      | nil =>
        cases others with
        | nil => rfl
        | cons x xs => cases htexts.2
      | cons x xs =>
        cases others with
        | nil => cases htexts.2
        | cons y ys =>
          rw [hrest (List.cons_ne_nil _ _), hothers' (List.cons_ne_nil _ _),
            List.cons.injEq] at hbehind
          rw [ih (fun u hu => hitems u (.tail _ hu)) (fun u hu => hothers u (.tail _ hu))
            htexts.2 hbehind.2]

theorem eq_of_encode_eq {items others : List Value} (hitems : ∀ v ∈ items, IsNullOrText v)
    (hothers : ∀ v ∈ others, IsNullOrText v) (h : encode items = encode others) :
    items = others := by
  rw [encode_eq fun v hv => (hitems v hv).isReadable,
    encode_eq fun v hv => (hothers v hv).isReadable, Except.ok.injEq] at h
  have htexts : items.map Value.plainText = others.map Value.plainText := by
    refine Except.ok.inj (?_ : (.ok _ : Except Json.Refusal (List (List Char))) = .ok _)
    rw [← decodeText_braced, ← decodeText_braced, h]
  rw [braced, braced, List.cons.injEq] at h
  exact eq_of_intercalate_eq hitems hothers htexts (List.append_cancel_right h.2)

/-! ### The three forms -/

/-- The array literal, the JSON text and the list itself decode to the texts of the items, so that
texts come back from their literal as they were. No two lists of nulls and texts have the same
literal, nor do null, the empty text and the word for null in any letter case. -/
theorem forms_decode_alike :
    (∀ items : List Value, (∀ v ∈ items, v.IsReadable) → ∃ literal,
      encode items = .ok literal
      ∧ decode (.text (String.ofList literal)) = .ok (items.map Value.plainText)
      ∧ decode (.text (String.ofList (Value.list items).json)) = .ok (items.map Value.plainText)
      ∧ decode (.list items) = .ok (items.map Value.plainText))
    ∧ (∀ xs : List String, ∃ literal, encode (xs.map .text) = .ok literal
      ∧ decode (.text (String.ofList literal)) = .ok (xs.map String.toList))
    ∧ (∀ items others : List Value, (∀ v ∈ items, IsNullOrText v) → (∀ v ∈ others, IsNullOrText v) →
      encode items = encode others → items = others)
    ∧ (∀ word : String, isNullWord word.toList = true →
      encode [.null] ≠ encode [.text ""] ∧ encode [.null] ≠ encode [.text word]
      ∧ encode [.text ""] ≠ encode [.text word]) := by
  have htexts : ∀ items : List Value, (∀ v ∈ items, v.IsReadable) →
      decode (.text (String.ofList (braced (items.map written))))
        = .ok (items.map Value.plainText) := by
    intro items h
    rw [decode, String.toList_ofList, decodeText_braced]
    rfl
  refine ⟨?_, ?_, fun _ _ => eq_of_encode_eq, ?_⟩
  · intro items h
    refine ⟨_, encode_eq h, htexts items h, ?_, itemTexts_eq h⟩
    rw [decode, String.toList_ofList, decodeText_json h]
    rfl
  · intro xs
    have h : ∀ v ∈ xs.map Value.text, v.IsReadable := by
      intro v hv
      obtain ⟨s, -, rfl⟩ := List.mem_map.1 hv
      exact .text s
    refine ⟨_, encode_eq h, ?_⟩
    rw [htexts _ h, List.map_map]
    rfl
  · intro word hword
    have hsingle : ∀ v : Value, IsNullOrText v → ∀ w ∈ [v], IsNullOrText w := by
      intro v hv w hw
      rwa [List.mem_singleton.1 hw]
    have hnull := hsingle .null (.inl rfl)
    have htext := fun s => hsingle (.text s) (.inr ⟨s, rfl⟩)
    refine ⟨?_, ?_, ?_⟩
    · intro h
      cases eq_of_encode_eq hnull (htext _) h
    · intro h
      cases eq_of_encode_eq hnull (htext _) h
    · intro h
      cases eq_of_encode_eq (htext _) (htext _) h
      exact absurd hword (by decide)

theorem forms_decode_alike_mixed :
    (∃ literal, encode [.null, .text "", .text "Null", .list [.int 1, .null]] = .ok literal
      ∧ decode (.text (String.ofList literal))
        = .ok [[], [], "Null".toList, "[1,null]".toList]
      ∧ decode (.text (String.ofList
          (Value.list [.null, .text "", .text "Null", .list [.int 1, .null]]).json))
        = .ok [[], [], "Null".toList, "[1,null]".toList]
      ∧ decode (.list [.null, .text "", .text "Null", .list [.int 1, .null]])
        = .ok [[], [], "Null".toList, "[1,null]".toList])
    ∧ encode [.null, .text ""] ≠ encode [.text "", .null]
    ∧ encode [.null] ≠ encode [.text "nULL"] := by
  have hshort : Value.IsShort 1 := by unfold Value.IsShort; decide
  have hreadable : ∀ v ∈ [Value.null, .text "", .text "Null", .list [.int 1, .null]],
      v.IsReadable := by
    have hinner : ∀ v ∈ [Value.int 1, .null], v.IsReadable := by
      simp only [List.forall_mem_cons]
      exact ⟨.int 1 hshort, .null, fun _ h => nomatch h⟩
    simp only [List.forall_mem_cons]
    exact ⟨.null, .text _, .text _, .list _ hinner, fun _ h => nomatch h⟩
  have hitems : ∀ v ∈ [Value.null, .text ""], IsNullOrText v := by
    simp only [List.forall_mem_cons]
    exact ⟨.inl rfl, .inr ⟨_, rfl⟩, fun _ h => nomatch h⟩
  have hothers : ∀ v ∈ [Value.text "", .null], IsNullOrText v := by
    simp only [List.forall_mem_cons]
    exact ⟨.inr ⟨_, rfl⟩, .inl rfl, fun _ h => nomatch h⟩
  refine ⟨forms_decode_alike.1 _ hreadable, ?_, (forms_decode_alike.2.2.2 "nULL" (by decide)).2.1⟩
  intro h
  cases forms_decode_alike.2.2.1 _ _ hitems hothers h

end ArrayLiteral

end StagedTable
