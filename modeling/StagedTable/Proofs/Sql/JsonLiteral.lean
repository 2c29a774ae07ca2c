import StagedTable.Proofs.Value.CellText
import StagedTable.Proofs.Value.Content
import StagedTable.Proofs.Value.JsonRewriting
import StagedTable.Sql.Literal

/-!
# Literals of JSON texts

What is entered into a JSON column is read as a value, and the literal of the value is chosen by
the value alone. So the form in which a document reaches SQL text depends on what kind of node it
is (`StandsIn`): arrays and objects are quoted JSON with a cast, a string is quoted without the
quotes that it has in JSON, and numbers, booleans and null stand bare. A document with an integer of
too many digits is not read at all, and its text is quoted as it was entered
(`literal_of_json_text`).
-/

namespace StagedTable

open Text

namespace Json

theorem isTextOf_of_derives {cs : List Char} {D : Document} (h : Derives cs D) : IsTextOf cs D :=
  ⟨.bare cs D, Slot.render_bare .., rfl, h⟩

theorem derives_number (n : SignedNumeral) : Derives n.render (.number n) := .number rfl

/-! ### Texts that do not stand for null -/

/-- Only null starts with the letter that the word null starts with. -/
theorem Derives.exists_head {cs : List Char} {D : Document} (h : Derives cs D) (hD : D ≠ .null) :
    ∃ c r, cs = c :: r ∧ asciiLower c ≠ 'n' := by
  cases h with
  | null => exact absurd rfl hD
  | bool b => cases b <;> exact ⟨_, _, rfl, by decide⟩
  | @number _ n hn =>
    rw [SignedNumeral.IsTextOf] at hn
    subst hn
    obtain ⟨c, r, hr, hc⟩ := n.exists_head
    cases hn : n.negative with
    | true => exact ⟨'-', _, by rw [SignedNumeral.render, hn]; rfl, by decide⟩
    | false =>
      refine ⟨c, r, by rw [SignedNumeral.render, hn, hr]; rfl, ?_⟩
      rw [asciiLower_of_isDigit hc]
      exact ne_of_isDigit hc (by decide)
  | string hs =>
    obtain ⟨parts, units, -, -, rfl⟩ := hs
    exact ⟨'"', _, rfl, by decide⟩
  | emptyArray _ => exact ⟨'[', _, rfl, by decide⟩
  | emptyObject _ => exact ⟨'{', _, rfl, by decide⟩
  | array items _ _ => exact ⟨'[', _, rfl, by decide⟩
  | object members _ _ => exact ⟨'{', _, rfl, by decide⟩

theorem not_isNullText_of_isTextOf {cs : List Char} {D : Document} (h : IsTextOf cs D)
    (hD : D ≠ .null) : ¬ Value.IsNullText cs := by
  obtain ⟨s, rfl, rfl, hderives⟩ := h
  obtain ⟨c, r, hr, hc⟩ := hderives.exists_head hD
  cases hbefore : s.before with
  | nil => exact not_isNullText_of_head (by rw [Slot.render, hbefore, hr]; rfl) hc
  | cons d t =>
    have hd := s.isSpace_before d (by simp [hbefore])
    refine not_isNullText_of_head (c := d) (by rw [Slot.render, hbefore]; rfl) ?_
    simp only [isSpace, Bool.or_eq_true, beq_iff_eq] at hd
    rcases hd with ((rfl | rfl) | rfl) | rfl <;> decide

end Json

open Json

/-- A JSON text that is entered into a JSON column stands for the value of its document, and for
itself if the document holds an integer of too many digits. -/
theorem Value.parse_of_isTextOf {text dataType : String} {D : Document}
    (hkind : Kind.ofType dataType = .json) (h : IsTextOf text.toList D) :
    parse text dataType = .ok (if D.isShort then D.toValue else .text text) := by
  by_cases hnull : IsNullText text.toList
  · have hD : D = .null := by
      by_contra hD
      exact not_isNullText_of_isTextOf h hD hnull
    rw [hD]
    exact if_pos hnull
  · have hparse := parse_eq hnull dataType
    rw [String.ofList_toList, hkind] at hparse
    rw [hparse, parseJson, Option.map_none, load_of_isTextOf h, String.ofList_toList, Tree.toValue?]
    cases D.isShort <;> rfl

namespace Sql

/-- How a document that is read as a value stands in SQL text. -/
def StandsIn (sql : List Char) (D : Document) : Prop :=
  match D with
  | .null => sql = "NULL".toList
  | .bool b => sql = if b then "TRUE".toList else "FALSE".toList
  | .number _ => ∃ E, Derives sql E ∧ Rewrites D E
  | .string s => readQuoted '\'' sql = some (s.toList, [])
  | .array _ | .object _ => ∃ content E, readQuoted '\'' sql = some (content, "::jsonb".toList)
      ∧ Derives content E ∧ Rewrites D E

theorem readQuoted_string (cs : List Char) : readQuoted '\'' (string cs) = some (cs, []) := by
  have h := readQuoted_quoted '\'' cs [] (by simp)
  rwa [List.append_nil] at h

/-- The literal of a value that is written as JSON is its JSON in quotes, cast to a document. -/
theorem standsIn_json {D : Document} (h : D.inRange = true) :
    ∃ content E, readQuoted '\'' (Literal.json D.toValue.json).render
        = some (content, "::jsonb".toList) ∧ Derives content E ∧ Rewrites D E := by
  obtain ⟨E, hderives, hrewrites⟩ := exists_rewriting h
  refine ⟨_, E, readQuoted_quoted '\'' _ _ ?_, hderives, hrewrites⟩
  intro r e
  exact absurd (List.cons.inj e).1 (by decide)

/-- The literal of a number is its JSON. -/
theorem ofValue_number {n : SignedNumeral} (h : n.inRange = true) (hread : n.toValue.IsReadable)
    (dataType : Option String) :
    Literal.ofValue dataType n.toValue = .ok (.number n.toValue.json) := by
  have hwrite := hread.write_eq Value.display
  unfold SignedNumeral.toValue at hwrite ⊢
  split
  · next hint =>
    rw [if_pos hint] at hwrite
    rw [Literal.ofValue, hwrite, Value.json, Json.print]
    rfl
  · next hint =>
    cases hdouble : n.toDouble with
    | finite x =>
      rw [Value.json, print_finite]
      rfl
    | infinite _ | nan => simp [SignedNumeral.inRange, hint, hdouble, Double.isFinite] at h

/-- The value of a document within the range of the doubles has a literal, in which the document
stands. -/
theorem exists_literal_toValue {D : Document} (h : D.inRange = true)
    (hread : D.toValue.IsReadable) {dataType : String} (hkind : Kind.ofType dataType = .json) :
    ∃ literal, Literal.ofValue (some dataType) D.toValue = .ok literal
      ∧ StandsIn literal.render D := by
  have hjson : D.toValue.toJson.map Literal.json = .ok (.json D.toValue.json) := by
    rw [Value.toJson, hread.write_eq Value.json]
    rfl
  cases D with
  | null => exact ⟨.null, rfl, rfl⟩
  | bool b => exact ⟨.bool b, rfl, rfl⟩
  | number n => exact ⟨_, ofValue_number h hread _, exists_rewriting h⟩
  | string s => exact ⟨.string s.toList, rfl, readQuoted_string s.toList⟩
  | array items =>
    refine ⟨.json (Tree.toValue (.array items)).json, ?_, standsIn_json h⟩
    rw [Tree.toValue_array] at hjson ⊢
    simp only [Literal.ofValue, Option.map_some, hkind]
    exact hjson
  | object fields =>
    refine ⟨.json (Tree.toValue (.object fields)).json, ?_, standsIn_json h⟩
    rw [Tree.toValue_object] at hjson ⊢
    exact hjson

/-- A JSON text that is entered into a JSON column has a literal. If the document holds no integer
of too many digits and is within the range of the doubles, it stands in the text of the literal; if
it holds such an integer, the literal is the entered text in quotes. -/
theorem literal_of_json_text {text dataType : String} {D : Document}
    (hkind : Kind.ofType dataType = .json) (htext : IsTextOf text.toList D)
    (hrange : D.isShort = true → D.inRange = true) :
    ∃ v literal, Value.parse text dataType = .ok v
      ∧ Literal.ofValue (some dataType) v = .ok literal
      ∧ (D.isShort = true → StandsIn literal.render D)
      ∧ (D.isShort = false → readQuoted '\'' literal.render = some (text.toList, [])) := by
  have hparse := Value.parse_of_isTextOf hkind htext
  cases hshort : D.isShort with
  | true =>
    have hload : Json.load none text.toList = .ok (some D.toValue) := by
      rw [load_of_isTextOf htext, Tree.toValue?, if_pos hshort]
    obtain ⟨literal, hliteral, hstands⟩ :=
      exists_literal_toValue (hrange hshort) (isReadable_of_load hload) hkind
    rw [hshort, if_pos rfl] at hparse
    exact ⟨_, literal, hparse, hliteral, fun _ => hstands, fun h => absurd h (by decide)⟩
  | false =>
    rw [hshort] at hparse
    exact ⟨_, .string text.toList, hparse, rfl, fun h => absurd h (by decide),
      fun _ => readQuoted_string text.toList⟩

/-- A number with a needless zero at its end. -/
def paddedNumber : SignedNumeral where
  whole := ['2']
  fraction := ['5', '0']
  exponent := none
  negative := false
  isDigit_whole := List.all_eq_true.1 rfl
  noLeadingZero := .inr ⟨'2', [], rfl, by decide⟩
  isDigit_fraction := List.all_eq_true.1 rfl

/-- The items of an array as they are entered: an integer, a number and a string with a quote. -/
def scores : List (Slot Document) := [
  .bare ['1'] (.number (.ofInt 1)),
  ⟨[' '], "2.50".toList, [], .number paddedNumber, by decide, isSpace_nil⟩,
  ⟨[' '], "\"O'Brien\"".toList, [], .string "O'Brien", by decide, isSpace_nil⟩]

theorem isTextOf_scores :
    IsTextOf "[1, 2.50, \"O'Brien\"]".toList (.array (scores.map Slot.content)) := by
  have hitems : ∀ i ∈ scores, Derives i.text i.content := by
    simp only [scores, List.forall_mem_cons]
    exact ⟨derives_number (.ofInt 1), derives_number paddedNumber,
      .string (isString_string "O'Brien".toList), by simp⟩
  have htext : "[1, 2.50, \"O'Brien\"]".toList = enclosed '[' ']' (scores.map Slot.render) := by
    decide +kernel
  rw [htext]
  exact isTextOf_of_derives (.array scores (by simp [scores]) hitems)

theorem literal_of_json_text_scores :
    Kind.ofType "jsonb" = .json
      ∧ IsTextOf "[1, 2.50, \"O'Brien\"]".toList (.array (scores.map Slot.content))
      ∧ (Tree.array (scores.map Slot.content)).isShort = true
      ∧ (Tree.array (scores.map Slot.content)).inRange = true
      ∧ ∃ v literal, Value.parse "[1, 2.50, \"O'Brien\"]" "jsonb" = .ok v
        ∧ Literal.ofValue (some "jsonb") v = .ok literal
        ∧ StandsIn literal.render (.array (scores.map Slot.content)) := by
  have hkind : Kind.ofType "jsonb" = .json := by decide +kernel
  have hshort : (Tree.array (scores.map Slot.content)).isShort = true := by decide +kernel
  have hrange : (Tree.array (scores.map Slot.content)).inRange = true := by decide +kernel
  obtain ⟨v, literal, hparse, hliteral, hstands, -⟩ :=
    literal_of_json_text hkind isTextOf_scores fun _ => hrange
  exact ⟨hkind, isTextOf_scores, hshort, hrange, v, literal, hparse, hliteral, hstands hshort⟩

/-! ### Documents that are not kept in quotes -/

/-- Whether an entered text reaches SQL text as a quoted string, behind which a cast may stand, that
holds JSON text of a document. -/
def QuotesDocument (text dataType : String) (D : Document) : Prop :=
  ∃ v literal content after E, Value.parse text dataType = .ok v
    ∧ Literal.ofValue (some dataType) v = .ok literal
    ∧ readQuoted '\'' literal.render = some (content, after)
    ∧ IsTextOf content E ∧ SameDocument D E

/-- There is but one quoted text in which the document could be. -/
theorem not_quotesDocument {text dataType : String} {D : Document}
    (hkind : Kind.ofType dataType = .json) (htext : IsTextOf text.toList D)
    (hshort : D.isShort = true) (literal : Literal)
    (hliteral : Literal.ofValue (some dataType) D.toValue = .ok literal)
    (h : ∀ content after E, readQuoted '\'' literal.render = some (content, after) →
      IsTextOf content E → ¬ SameDocument D E) :
    ¬ QuotesDocument text dataType D := by
  rintro ⟨v, literal', content, after, E, hparse, hliteral', hread, hcontent, hsame⟩
  rw [Value.parse_of_isTextOf hkind htext, hshort] at hparse
  cases hparse
  rw [if_pos rfl, hliteral] at hliteral'
  cases hliteral'
  exact h content after E hread hcontent hsame

@[inherit_doc not_quotesDocument]
theorem not_quotesDocument_of_bare {text dataType : String} {D : Document}
    (hkind : Kind.ofType dataType = .json) (htext : IsTextOf text.toList D)
    (hshort : D.isShort = true) (literal : Literal)
    (hliteral : Literal.ofValue (some dataType) D.toValue = .ok literal)
    (h : readQuoted '\'' literal.render = none) : ¬ QuotesDocument text dataType D := by
  refine not_quotesDocument hkind htext hshort literal hliteral ?_
  intro content after E hread
  rw [h] at hread
  cases hread

/-- The text of a JSON string holds a double quote. -/
theorem quote_mem_of_sameDocument {cs : List Char} {s : String} {E : Document}
    (htext : IsTextOf cs E) (hsame : SameDocument (.string s) E) : '"' ∈ cs := by
  have hE : E = .string s := by
    cases E <;> simp_all [SameDocument, Tree.content, Tree.fold]
  obtain ⟨slot, rfl, -, hderives⟩ := hE ▸ htext
  have hmem : ∀ text, Derives text (.string s) → '"' ∈ text := by
    intro text h
    cases h with
    | string hs =>
      obtain ⟨parts, units, -, -, rfl⟩ := hs
      exact .head _
  simp [Slot.render, hmem slot.text hderives]

/-- The text of a number holds all its digits. -/
theorem mem_of_derives_number {cs : List Char} {n : SignedNumeral} (h : Derives cs (.number n)) :
    ∀ c ∈ n.whole ++ n.fraction, c ∈ cs := by
  intro c hc
  cases h with
  | number hn =>
    rw [hn]
    rcases List.mem_append.1 hc with hwhole | hfraction
    · simp [SignedNumeral.render, WrittenNumeral.render, hwhole]
    · have hne : n.fraction ≠ [] := List.ne_nil_of_mem hfraction
      simp [SignedNumeral.render, WrittenNumeral.render, WrittenNumeral.fractionText, hne,
        hfraction]

/-- The text of an array of one number holds the digits of a number of the same value. -/
theorem exists_digits_of_sameDocument {cs : List Char} {n : SignedNumeral} {E : Document}
    (htext : IsTextOf cs E) (hsame : SameDocument (.array [.number n]) E) :
    ∃ m : SignedNumeral, m.value = n.value ∧ ∀ c ∈ m.whole ++ m.fraction, c ∈ cs := by
  obtain ⟨m, rfl, hvalue⟩ : ∃ m, E = .array [.number m] ∧ m.value = n.value := by
    cases E with
    | array items =>
      simp only [SameDocument, Tree.content_array, Tree.array.injEq] at hsame
      obtain ⟨t, rest, rfl, ht, hrest⟩ := List.map_eq_cons_iff.1 hsame.symm
      cases List.map_eq_nil_iff.1 hrest
      cases t <;> simp_all [Tree.content, Tree.fold]
    | _ => simp_all [SameDocument, Tree.content, Tree.fold]
  refine ⟨m, hvalue, ?_⟩
  obtain ⟨slot, rfl, hslot, hderives⟩ := htext
  intro c hc
  have hmem : ∀ text D, Derives text D → D = .array [.number m] → c ∈ text := by
    intro text D h hD
    cases h with
    | array items _ hitems =>
      obtain ⟨i, rest, rfl, hi, -⟩ := List.map_eq_cons_iff.1 (Tree.array.inj hD)
      have hnumber := mem_of_derives_number (hi ▸ hitems i (.head _)) c hc
      obtain ⟨u, hu⟩ := exists_intercalate_append i.render (rest.map Slot.render) [']']
      rw [enclosed, List.map_cons, hu]
      simp [Slot.render, hnumber]
    | _ => cases hD
  simp [Slot.render, hmem slot.text _ hderives rfl]

/-- A number without any digit but zero is zero. -/
theorem value_eq_zero {n : SignedNumeral} (h : ∀ c ∈ n.whole ++ n.fraction, c = '0') :
    n.value = 0 := by
  have hdigits : ofDigits (n.whole ++ n.fraction) = 0 := by
    rw [List.eq_replicate_of_mem h, ofDigits_replicate]
  simp [SignedNumeral.value, Scaled.value, WrittenNumeral.scaled, hdigits]

/-- A number that is closer to zero than to any other double. -/
def tinyNumber : SignedNumeral where
  whole := ['1']
  fraction := ['5']
  exponent := some {
    capital := false
    sign := some true
    digits := ['5', '0', '0']
    digits_ne_nil := List.cons_ne_nil _ _
    isDigit := List.all_eq_true.1 rfl }
  negative := false
  isDigit_whole := List.all_eq_true.1 rfl
  noLeadingZero := .inr ⟨'1', [], rfl, by decide⟩
  isDigit_fraction := List.all_eq_true.1 rfl

theorem value_tinyNumber : tinyNumber.value ≠ 0 := by
  have hscaled : tinyNumber.scaled.value = (15 : ℕ) * 10 ^ tinyNumber.scaled.exponent := rfl
  have hpower : (10 : ℚ) ^ tinyNumber.scaled.exponent ≠ 0 := zpow_ne_zero _ (by norm_num)
  have hvalue : tinyNumber.value = tinyNumber.scaled.value := if_neg (by decide)
  rw [hvalue, hscaled]
  exact mul_ne_zero (by norm_num) hpower

/-- The number in an array is lost, and what is quoted is an array of zero. -/
theorem not_quotesDocument_tiny (hkind : Kind.ofType "jsonb" = .json)
    (htext : IsTextOf "[1.5e-500]".toList (.array [.number tinyNumber])) :
    ¬ QuotesDocument "[1.5e-500]" "jsonb" (.array [.number tinyNumber]) := by
  refine not_quotesDocument hkind htext rfl (.json "[0.0]".toList) ?_ ?_
  · have hjson : (Tree.toValue (.array [.number tinyNumber])).toJson = .ok "[0.0]".toList := by
      decide +kernel
    rw [Tree.toValue_array] at hjson ⊢
    simp only [Literal.ofValue, Option.map_some, hkind, hjson]
    rfl
  · intro content after E hread hcontent hsame
    have hquoted : readQuoted '\'' (Literal.json "[0.0]".toList).render
        = some ("[0.0]".toList, "::jsonb".toList) := rfl
    rw [hquoted] at hread
    cases hread
    -- a number that is written with the digits of the quoted text cannot be the entered one
    obtain ⟨m, hvalue, hdigits⟩ := exists_digits_of_sameDocument hcontent hsame
    refine value_tinyNumber (hvalue ▸ value_eq_zero ?_)
    intro c hc
    have hdigit : isDigit c = true :=
      (List.mem_append.1 hc).elim (m.isDigit_whole c) (m.isDigit_fraction c)
    have hmem := hdigits c hc
    simp only [String.reduceToList, List.mem_cons, List.not_mem_nil, or_false] at hmem
    rcases hmem with rfl | rfl | rfl | rfl | rfl
    all_goals first | rfl | exact absurd hdigit (by decide)

/-- A string loses its quotes, so that the string of a digit becomes the digit; numbers, booleans
and null between blanks stand without any; and of an array with a tiny number the number is lost. -/
theorem literal_of_json_text_unquoted :
    Kind.ofType "jsonb" = .json
      ∧ ∀ p ∈ [("\"5\"", Tree.string "5"), ("5", .number (.ofInt 5)), ("true", .bool true),
          (" null", .null), ("[1.5e-500]", .array [.number tinyNumber])],
        IsTextOf p.1.toList p.2 ∧ ¬ QuotesDocument p.1 "jsonb" p.2 := by
  have hkind : Kind.ofType "jsonb" = .json := by decide +kernel
  have hstring : IsTextOf "\"5\"".toList (.string "5") :=
    isTextOf_of_derives (.string (isString_string ['5']))
  have hnumber : IsTextOf "5".toList (.number (.ofInt 5)) :=
    isTextOf_of_derives (derives_number (.ofInt 5))
  have hbool : IsTextOf "true".toList (.bool true) := isTextOf_of_derives (.bool true)
  have hnull : IsTextOf " null".toList .null :=
    ⟨⟨[' '], _, [], .null, by decide, isSpace_nil⟩, rfl, rfl, .null⟩
  have hitems : ∀ i ∈ [Slot.bare tinyNumber.render (Tree.number tinyNumber)],
      Derives i.text i.content := List.forall_mem_singleton.2 (derives_number tinyNumber)
  have htiny : IsTextOf "[1.5e-500]".toList (.array [.number tinyNumber]) :=
    isTextOf_of_derives (.array _ (by simp) hitems)
  simp only [List.forall_mem_cons]
  refine ⟨hkind, ⟨hstring, ?string⟩, ⟨hnumber, ?number⟩, ⟨hbool, ?bool⟩, ⟨hnull, ?null⟩,
    ⟨htiny, not_quotesDocument_tiny hkind htiny⟩, by simp⟩
  case string =>
    refine not_quotesDocument hkind hstring rfl (.string ['5']) rfl ?_
    intro content after E hread hcontent hsame
    have hquoted := readQuoted_string ['5']
    rw [Literal.render, hquoted] at hread
    cases hread
    exact absurd (quote_mem_of_sameDocument hcontent hsame) (by decide)
  case number => exact not_quotesDocument_of_bare hkind hnumber rfl _ rfl rfl
  case bool => exact not_quotesDocument_of_bare hkind hbool rfl _ rfl rfl
  case null => exact not_quotesDocument_of_bare hkind hnull rfl _ rfl rfl

end Sql

end StagedTable
