import StagedTable.Proofs.Value.ArrayForms
import StagedTable.Proofs.Value.Content

/-!
# Cell texts read back

A cell is edited as a text, and what is entered is read by the kind of its column. `Kind.Admits`
says which values belong to a kind; for each of them the text that is put into the editor stands for
the very value (`parse_format`).

The empty text and the word null are taken for null before the kind is looked at. So each kind owes
two facts: its texts are read as the values that they were written for, and none of them is such a
text (`IsNullText`).
-/

namespace StagedTable

open Text

/-- Whether a value belongs to the columns of a kind: null belongs to all of them. Integers are
within the limit on digits, and texts are none that stand for null. -/
inductive Kind.Admits : Kind → Value → Prop
  | null (k : Kind) : Admits k .null
  | int (n : Int) : Value.IsShort n → Admits .integer (.int n)
  | float (x : FiniteDouble) : Admits .float (.float (.finite x))
  | bool (b : Bool) : Admits .boolean (.bool b)
  | json (v : Value) : v.isJson = true → v.IsCellOf Value.IsShort (·.isNan = false) → Admits .json v
  | array (xs : List String) : Admits .array (.list (xs.map .text))
  | text (k : Kind) (s : String) : k.isTemporal = true ∨ k = .text → s ≠ "" →
      isWord "null".toList s.toList = false → Admits k (.text s)

/-! ### Texts that do not stand for null -/

/-- Whether a text stands for null in a column of any type. -/
def Value.IsNullText (cs : List Char) : Prop := cs = [] ∨ isWord "null".toList cs = true

open Value (IsNullText)

theorem not_isNullText_of_head {cs r : List Char} {c : Char} (hcs : cs = c :: r)
    (h : asciiLower c ≠ 'n') : ¬ IsNullText cs := by
  rw [hcs]
  rintro (hnil | hword)
  · cases hnil
  · have hmap : asciiLower c :: r.map asciiLower = "null".toList := beq_iff_eq.1 hword
    exact h (List.cons.inj hmap).1

theorem asciiLower_of_isDigit {c : Char} (h : isDigit c = true) : asciiLower c = c := by
  have hlower : ¬ 'A' ≤ c := by
    rw [isDigit_iff] at h
    simp only [Char.le_def, UInt32.le_iff_toNat_le]
    show ¬ 0x41 ≤ c.toNat
    omega
  simp [asciiLower, hlower]

namespace WrittenNumeral

variable (w : WrittenNumeral) (negative : Bool)

theorem not_isNullText : ¬ IsNullText ((if negative then ['-'] else []) ++ w.render) := by
  cases negative with
  | true => exact not_isNullText_of_head (c := '-') rfl (by decide)
  | false =>
    obtain ⟨c, r, hr, hc⟩ := w.exists_head
    apply not_isNullText_of_head (c := c) hr
    rw [asciiLower_of_isDigit hc]
    exact ne_of_isDigit hc (by decide)

/-- What starts with a digit, behind a sign or not, is led in by no blank. -/
theorem dropWhile_blank :
    ((if negative then ['-'] else []) ++ w.render).dropWhile isAsciiBlank
      = (if negative then ['-'] else []) ++ w.render := by
  cases negative with
  | true => rfl
  | false =>
    obtain ⟨c, r, hr, hc⟩ := w.exists_head
    simp [hr, isAsciiBlank_of_isDigit hc]

end WrittenNumeral

namespace Value

/-! ### Numbers -/

theorem not_isNullText_signedDigits (n : Int) : ¬ IsNullText (signedDigits n) := by
  rw [signedDigits_eq]
  apply WrittenNumeral.not_isNullText

theorem parseInteger_signedDigits {n : Int} (h : IsShort n) :
    parseInteger (signedDigits n) = .ok (.int n) := by
  have hsign := (writtenDigits n.natAbs).readSign_render (decide (n < 0)) []
  have hrun : digitRun (digits n.natAbs) = (digits n.natAbs, []) := by
    have hall : ∀ c ∈ digits n.natAbs, isDigit c = true := fun _ => isDigit_of_mem_digits
    have hrun := digitRun_of_digits hall endsNumeral_nil.noDigitAhead
    rwa [List.append_nil] at hrun
  have hvalue := integerOfDigits?_digits h
  rw [List.append_nil, render_writtenDigits] at hsign
  unfold parseInteger
  rw [signedDigits_eq, WrittenNumeral.dropWhile_blank, render_writtenDigits, hsign]
  dsimp only
  rw [hrun]
  cases hd : digits n.natAbs with
  | nil => exact absurd hd (digits_ne_nil _)
  | cons c r =>
    rw [hd] at hvalue
    simp only [hvalue]

theorem not_isNullText_float (x : FiniteDouble) : ¬ IsNullText x.text := by
  obtain ⟨w, -, htext, -⟩ := x.exists_written
  rw [htext]
  apply w.not_isNullText

theorem parseFloat_text (x : FiniteDouble) : parseFloat x.text = .float (.finite x) := by
  obtain ⟨w, -, htext, hvalue⟩ := x.exists_written
  have hread := w.read_render endsNumeral_nil x.negative
  rw [List.append_nil] at hread
  unfold parseFloat
  rw [htext, w.dropWhile_blank, hread]
  simp only [hvalue]

/-! ### Booleans -/

theorem not_isNullText_bool (b : Bool) : ¬ IsNullText (Json.bool b) := by
  cases b with
  | true => exact not_isNullText_of_head (c := 't') rfl (by decide)
  | false => exact not_isNullText_of_head (c := 'f') rfl (by decide)

theorem isWord_true_bool (b : Bool) : isWord "true".toList (Json.bool b) = b := by
  cases b <;> rfl

/-! ### Lists and documents -/

/-- Outside of array columns every value that can be written is shown by its plain text. -/
theorem format_eq_plainText {dataType : String} (hkind : Kind.ofType dataType ≠ .array) {v : Value}
    (h : v.IsReadable) : v.format (some dataType) = .ok v.plainText := by
  unfold format
  simp only [Kind.ofType?, Option.map_some, Option.getD_some]
  split
  · exact absurd ‹_› hkind
  · exact h.write_eq plainText

theorem plainText_eq_json {v : Value} (h : v.isJson = true) : v.plainText = v.json := by
  cases v with
  | list items => rfl
  | document fields => rfl
  | _ => cases h

theorem format_of_isJson {v : Value} (hjson : v.isJson = true) (h : v.IsReadable)
    {dataType : String} (hkind : Kind.ofType dataType ≠ .array) :
    v.format (some dataType) = .ok v.json := by
  rw [format_eq_plainText hkind h, plainText_eq_json hjson]

theorem not_isNullText_json {v : Value} (h : v.isJson = true) : ¬ IsNullText v.json := by
  obtain ⟨c, r, hr, hopens⟩ := plainText_of_isJson h
  rw [plainText_eq_json h] at hr
  apply not_isNullText_of_head hr
  rcases hopens with rfl | rfl <;> decide

theorem parseJson_json {v : Value} (h : v.IsReadable) : parseJson none v.json = .ok v.reread := by
  rw [parseJson, Option.map_none, Json.load_json h]
  rfl

/-! ### Arrays -/

/-- Texts as they are written in an array literal. -/
def writtenTexts (xs : List String) : List Char :=
  ArrayLiteral.braced ((xs.map text).map ArrayLiteral.written)

theorem format_texts (xs : List String) {dataType : String} (hkind : Kind.ofType dataType = .array) :
    (list (xs.map text)).format (some dataType) = .ok (writtenTexts xs) := by
  have hreadable : ∀ v ∈ xs.map text, v.IsReadable := by
    intro v hv
    obtain ⟨s, -, rfl⟩ := List.mem_map.1 hv
    exact .text s
  simp only [format, Kind.ofType?, Option.map_some, Option.getD_some, hkind]
  exact ArrayLiteral.encode_eq hreadable

theorem not_isNullText_writtenTexts (xs : List String) : ¬ IsNullText (writtenTexts xs) :=
  not_isNullText_of_head (c := '{') rfl (by decide)

theorem parseArray_writtenTexts (xs : List String) :
    parseArray none (writtenTexts xs) = .ok (.list (xs.map .text)) := by
  have htext : ∀ s : String, text (String.ofList (text s).plainText) = text s := by
    intro s
    exact congrArg text String.ofList_toList
  rw [parseArray, writtenTexts, ArrayLiteral.decodeText_braced]
  simp only [listOfTexts, List.map_map, Function.comp_def, htext]

/-! ### All kinds -/

/-- Unless it stands for null, a text is read by the kind of the column. -/
theorem parseWithin_eq {cs : List Char} (h : ¬ IsNullText cs)
    (depths : Option ArrayLiteral.Depths) (dataType : String) :
    parseWithin depths (String.ofList cs) dataType =
      match Kind.ofType dataType with
      | .integer => parseInteger cs
      | .float => .ok (parseFloat cs)
      | .boolean => .ok (.bool (isWord "true".toList cs))
      | .json => parseJson depths cs
      | .array => parseArray depths cs
      | .date | .time | .timestamp | .text => .ok (.text (String.ofList cs)) := by
  unfold parseWithin
  simp only [String.toList_ofList]
  exact if_neg h

@[inherit_doc parseWithin_eq]
theorem parse_eq {cs : List Char} (h : ¬ IsNullText cs) (dataType : String) :
    parse (String.ofList cs) dataType =
      match Kind.ofType dataType with
      | .integer => parseInteger cs
      | .float => .ok (parseFloat cs)
      | .boolean => .ok (.bool (isWord "true".toList cs))
      | .json => parseJson none cs
      | .array => parseArray none cs
      | .date | .time | .timestamp | .text => .ok (.text (String.ofList cs)) :=
  parseWithin_eq h none dataType

/-- The text of a value that belongs to the columns of a type stands for that value there. -/
theorem parse_format (dataType : String) (v : Value) (h : (Kind.ofType dataType).Admits v) :
    ∃ cs, v.format (some dataType) = .ok cs ∧ parse (String.ofList cs) dataType = .ok v := by
  generalize hkind : Kind.ofType dataType = k at h
  cases h with
  | null k => exact ⟨[], rfl, by simp [parse, parseWithin]⟩
  | int n hn =>
    refine ⟨signedDigits n, format_eq_plainText (by simp [hkind]) (.int n hn), ?_⟩
    rw [parse_eq (not_isNullText_signedDigits n), hkind]
    exact parseInteger_signedDigits hn
  | float x =>
    refine ⟨x.text, rfl, ?_⟩
    rw [parse_eq (not_isNullText_float x), hkind]
    exact congrArg Except.ok (parseFloat_text x)
  | bool b =>
    refine ⟨Json.bool b, rfl, ?_⟩
    rw [parse_eq (not_isNullText_bool b), hkind]
    simp only [isWord_true_bool]
  | json v hjson hcell =>
    refine ⟨v.json, format_of_isJson hjson hcell.isReadable (by simp [hkind]), ?_⟩
    rw [parse_eq (not_isNullText_json hjson), hkind, parseJson_json hcell.isReadable,
      hcell.reread_eq_self]
  | array xs =>
    refine ⟨writtenTexts xs, format_texts xs hkind, ?_⟩
    rw [parse_eq (not_isNullText_writtenTexts xs), hkind]
    exact parseArray_writtenTexts xs
  | text k s htext hempty hword =>
    have hnull : ¬ IsNullText s.toList := by
      rintro (hnil | hnull)
      · exact hempty (String.toList_eq_nil_iff.1 hnil)
      · rw [hword] at hnull
        cases hnull
    refine ⟨s.toList, rfl, ?_⟩
    rw [parse_eq hnull, hkind, String.ofList_toList]
    rcases htext with htemporal | rfl
    · cases k <;> first | rfl | cases htemporal
    · rfl

/-- Texts that look like something else keep apart in an array: the empty one, the word for a
missing element, and one with a comma and quotes. -/
theorem parse_format_tags :
    (Kind.ofType "varchar(20)[]").Admits (.list (["", "null", "a, \"b\""].map .text))
      ∧ ∃ cs, (list (["", "null", "a, \"b\""].map text)).format (some "varchar(20)[]") = .ok cs
        ∧ parse (String.ofList cs) "varchar(20)[]"
          = .ok (.list (["", "null", "a, \"b\""].map .text)) := by
  have hkind : Kind.ofType "varchar(20)[]" = .array := by decide +kernel
  have hadmits : (Kind.ofType "varchar(20)[]").Admits
      (.list (["", "null", "a, \"b\""].map .text)) := hkind ▸ .array _
  exact ⟨hadmits, parse_format _ _ hadmits⟩

end Value

end StagedTable
