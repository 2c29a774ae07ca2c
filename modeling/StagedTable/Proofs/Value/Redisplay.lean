import StagedTable.Proofs.Calendar.Canonical
import StagedTable.Proofs.Value.ArrayReading

/-!
# Cells entered as they are displayed

A cell is displayed as a text, and the text is entered as it stands. Whether the cell then counts as
edited depends on its kind: most values do not, and `Kind.Redisplays` says which
(`Column.redisplay`). The others are arrays with items that are no texts, array literals, integers
that no double holds, and texts that read like JSON of another spelling. What a text reads like has
no form here if it holds half of a surrogate pair as an escape.

Where the text is read as the very value nothing is left to compare. Else the text itself is
compared, as the value that it displays counts as the same (`alike_plainText`), and in temporal
columns its canonical text, which is its own canonical text.
-/

namespace StagedTable

open Text

/-- Whether the columns of a kind take every text, as it is or as its canonical text. -/
def Kind.takesTexts : Kind → Bool
  | .date | .time | .timestamp | .text => true
  | _ => false

/-- Whether a value is one that the driver may deliver for columns of a kind, once it is decoded. A
decimal is a double, an integer if it is integral and a word if it is not finite; an array of an
unknown type is its literal. -/
inductive Kind.Delivers : Kind → Value → Prop
  | null (k : Kind) : Delivers k .null
  | int (n : Int) : Value.IsShort n → Delivers .integer (.int n)
  | whole (n : Int) : Value.IsShort n → Delivers .float (.int n)
  | float (x : Double) : Delivers .float (.float x)
  | word (s : String) : Delivers .float (.text s)
  | bool (b : Bool) : Delivers .boolean (.bool b)
  | json (v : Value) : v.IsReadable → Delivers .json v
  | array (items : List Value) : (∀ v ∈ items, v.IsReadable) → Delivers .array (.list items)
  | literal (s : String) : Delivers .array (.text s)
  | any (k : Kind) (v : Value) : k.takesTexts = true → v.IsReadable → Delivers k v

/-- Whether a value that is entered as it is displayed counts as the same content. -/
def Kind.Redisplays : Kind → Value → Prop
  | .float, .int n =>
    ∀ x, Double.ofDecimal (decide (n < 0)) n.natAbs 0 = .finite x → x.toRat = n
  | .float, .text s => ∀ x, Value.parseFloat s.toList = .float (.finite x) → x.text = s.toList
  | .json, .text s =>
    (∀ D, ¬ Json.IsLooseTextOf (some Json.replacement) s.toList D)
      ∨ ∃ D, Json.IsLooseTextOf none s.toList D ∧ (D.valueBy id).plainText = s.toList
  | .array, .list items => ∀ v ∈ items, ∃ s, v = .text s
  | .array, .text s =>
    ∃ texts, ArrayLiteral.decodeText none s.toList = .ok texts
      ∧ (Value.listOfTexts texts).json = s.toList
  | _, _ => True

theorem Kind.redisplays_of_isTemporal {k : Kind} (h : k.isTemporal = true) (v : Value) :
    k.Redisplays v := by
  cases k <;> first | exact True.intro | cases h

theorem Kind.Delivers.isReadable {k : Kind} {v : Value} (h : k.Delivers v) : v.IsReadable := by
  cases h with
  | null => exact .null
  | int n hn => exact .int n hn
  | whole n hn => exact .int n hn
  | float x => exact .float x trivial
  | word s => exact .text s
  | bool b => exact .bool b
  | json _ h => exact h
  | array items h => exact .list items h
  | literal s => exact .text s
  | any _ _ _ h => exact h

namespace Value

/-! ### What counts as the same -/

theorem alike_refl (v : Value) : v.alike v = true := by
  cases v <;> simp [alike, isJson]

/-- A value counts as the same as what is read of its text. -/
theorem IsCellOf.alike_reread {v : Value} (h : v.IsReadable) : v.reread.alike v = true := by
  have hprint := h.print_reread true
  cases h with
  | float x _ =>
    cases x with
    | nan object => rfl
    | _ => exact alike_refl _
  | list items _ | document fields _ _ =>
    rw [Value.reread] at hprint ⊢
    simp [alike, isJson, sortedJson, hprint]
  | _ => exact alike_refl _

/-- A value counts as the same as the text that displays it. -/
theorem alike_plainText {v : Value} (h : v ≠ .null) :
    (text (String.ofList v.plainText)).alike v = true := by
  cases v with
  | null => exact absurd rfl h
  | list items => simp [alike, isJson, plainText]
  | document fields => simp [alike, isJson, plainText]
  | _ => simp [alike, isJson, plainText, display]

/-- A value counts as the same as a text if that displays it. -/
theorem alike_text_iff {v : Value} {s : String} (hs : s ≠ "") :
    v.alike (.text s) = true ↔ v.plainText = s.toList := by
  have hempty : s.toList ≠ [] := fun h => hs (String.toList_eq_nil_iff.1 h)
  cases v with
  | null => simp [alike, plainText, display, hempty.symm]
  | text t =>
    have hequal : equal (.text t) (.text s) = true ↔ t.toList = s.toList := by
      simp [equal, String.toList_inj]
    simp [alike, isJson, plainText, display, isBool, hequal]
  | list items => simp [alike, isJson, plainText]
  | document fields => simp [alike, isJson, plainText]
  | bool b => simp [alike, isJson, isBool, plainText, display]
  | int n => simp [alike, isJson, equal, number?, plainText, display]
  | float x => simp [alike, isJson, equal, number?, plainText, display]
  | tuple items => simp [alike, isJson, equal, number?, plainText, display]
  | foreign x =>
    have hequal : equal (.foreign x) (.text s) = false := by
      cases x <;> simp [equal, number?]
    simp [alike, isJson, hequal, plainText, display]

/-! ### The items of arrays -/

/-- Of all cell values only texts are written as JSON strings. -/
theorem exists_head_print {v : Value} (h : v.IsReadable) :
    ∃ c r, Json.print true v = c :: r ∧ (c ≠ '"' ∨ ∃ s, v = .text s) := by
  have hnumeral : ∀ (negative : Bool) (w : WrittenNumeral),
      ∃ c r, (if negative then ['-'] else []) ++ w.render = c :: r ∧ c ≠ '"' := by
    intro negative w
    obtain ⟨c, r, hr, hc⟩ := w.exists_head
    cases negative with
    | true => exact ⟨'-', w.render, rfl, by decide⟩
    | false => exact ⟨c, r, hr, ne_of_isDigit hc (by decide)⟩
  cases h with
  | null => exact ⟨'n', _, rfl, .inl (by decide)⟩
  | bool b => cases b <;> exact ⟨_, _, rfl, .inl (by decide)⟩
  | int n _ =>
    obtain ⟨c, r, hr, hc⟩ := hnumeral (decide (n < 0)) (writtenDigits n.natAbs)
    exact ⟨c, r, by rw [Json.print, signedDigits_eq, hr], .inl hc⟩
  | float x _ =>
    cases x with
    | finite x =>
      have hprint : Json.print true (.float (.finite x)) = x.text := by
        rw [Json.print]
        rfl
      obtain ⟨w, -, hw, -⟩ := x.exists_written
      obtain ⟨c, r, hr, hc⟩ := hnumeral x.negative w
      exact ⟨c, r, by rw [hprint, hw, hr], .inl hc⟩
    | infinite negative => cases negative <;> exact ⟨_, _, rfl, .inl (by decide)⟩
    | nan => exact ⟨'N', _, rfl, .inl (by decide)⟩
  | text s => exact ⟨'"', _, rfl, .inr ⟨s, rfl⟩⟩
  | list items _ => exact ⟨'[', _, by rw [Json.print, Json.bracketed], .inl (by decide)⟩
  | document fields _ _ => exact ⟨'{', _, by rw [Json.print, Json.braced], .inl (by decide)⟩

/-- The text that displays a value, as a value. -/
def displayed (v : Value) : Value := .text (String.ofList v.plainText)

@[simp] theorem displayed_text (s : String) : (text s).displayed = .text s :=
  congrArg text String.ofList_toList

/-- Displayed items are written like the items only if these are texts. -/
theorem texts_of_intercalate {items : List Value} (h : ∀ v ∈ items, v.IsReadable)
    (hprint : List.intercalate [','] ((items.map displayed).map (Json.print true))
      = List.intercalate [','] (items.map (Json.print true))) : ∀ v ∈ items, ∃ s, v = .text s := by
  induction items with
  | nil => exact List.forall_mem_nil _
  | cons v rest ih =>
    rw [List.forall_mem_cons] at h ⊢
    obtain ⟨c, r, hr, htext⟩ := exists_head_print h.1
    obtain ⟨r', hr'⟩ : ∃ r', Json.print true v.displayed = '"' :: r' := ⟨_, rfl⟩
    cases rest with
    | nil =>
      simp only [List.map_cons, List.map_nil, List.intercalate_singleton, hr, hr'] at hprint
      exact ⟨htext.resolve_left (· (List.cons.inj hprint).1.symm), List.forall_mem_nil _⟩
    | cons w rest =>
      simp only [List.map_cons, List.intercalate_cons_cons, List.append_assoc] at hprint ih
      have hhead : c = '"' := by
        rw [hr, hr'] at hprint
        exact (List.cons.inj hprint).1.symm
      obtain ⟨s, rfl⟩ := htext.resolve_left (· hhead)
      refine ⟨⟨s, rfl⟩, ih h.2 ?_⟩
      rw [displayed_text] at hprint
      exact List.append_cancel_left (List.append_cancel_left hprint)

/-- The texts of items count as the items themselves if the items are texts. -/
theorem alike_displayed_iff {items : List Value} (h : ∀ v ∈ items, v.IsReadable) :
    (list (items.map displayed)).alike (.list items) = true ↔ ∀ v ∈ items, ∃ s, v = .text s := by
  constructor
  · intro halike
    refine texts_of_intercalate h ?_
    have hjson : sortedJson (.list (items.map displayed)) = sortedJson (.list items) := by
      simpa [alike, isJson] using halike
    simp only [sortedJson, Json.print, Json.bracketed, Json.printItems_eq_map] at hjson
    exact List.append_cancel_right (List.cons.inj hjson).2
  · intro htexts
    have hsame : items.map displayed = items := by
      rw [List.map_congr_left (g := id), List.map_id]
      intro v hv
      obtain ⟨s, rfl⟩ := htexts v hv
      exact displayed_text s
    rw [hsame]
    exact alike_refl _

/-! ### Integers as doubles -/

theorem parseFloat_signedDigits (n : Int) :
    parseFloat (signedDigits n)
      = match Double.ofDecimal (decide (n < 0)) n.natAbs 0 with
        | .finite x => .float (.finite x)
        | _ => .text (String.ofList (signedDigits n)) := by
  have hread := (writtenDigits n.natAbs).read_render endsNumeral_nil (decide (n < 0))
  have hdouble : ((writtenDigits n.natAbs).numeral (decide (n < 0))).toDouble
      = Double.ofDecimal (decide (n < 0)) n.natAbs 0 := by
    rw [WrittenNumeral.toDouble_numeral]
    simp [WrittenNumeral.scaled, WrittenNumeral.exponentValue, writtenDigits]
  rw [List.append_nil] at hread
  unfold parseFloat
  rw [signedDigits_eq, WrittenNumeral.dropWhile_blank, hread]
  cases hvalue : Double.ofDecimal (decide (n < 0)) n.natAbs 0 <;> simp only [hdouble, hvalue]

/-- No double is displayed as an integer. -/
theorem text_ne_signedDigits (x : FiniteDouble) {n : Int} (hn : IsShort n) :
    x.text ≠ signedDigits n := by
  intro htext
  have hfloat := Json.read_json (.float (.finite x) trivial)
  have hint := Json.read_json (.int n hn)
  rw [json, Json.print_finite] at hfloat
  rw [json, Json.print, ← htext, hfloat] at hint
  cases hint

theorem alike_int_iff (x : FiniteDouble) {n : Int} (hn : IsShort n) :
    (float (.finite x)).alike (.int n) = true ↔ x.toRat = n := by
  have hplain : (float (.finite x)).plainText ≠ (int n).plainText := text_ne_signedDigits x hn
  rw [← FiniteDouble.sameInt_iff]
  simp [alike, isJson, isBool, equal, number?, Number.equal, Double.sameInt, hplain]

/-! ### The texts of values -/

/-- Of the values that are no texts only null is displayed as a text that stands for null. -/
theorem not_isNullText_plainText {v : Value} (h : v.IsReadable) (hnull : v ≠ .null)
    (htext : ∀ s, v = .text s → ¬ IsNullText s.toList) : ¬ IsNullText v.plainText := by
  cases h with
  | null => exact absurd rfl hnull
  | bool b => exact not_isNullText_bool b
  | int n _ => exact not_isNullText_signedDigits n
  | float x _ =>
    cases x with
    | finite x => exact not_isNullText_float x
    | infinite negative => cases negative <;> exact not_isNullText_of_head rfl (by decide)
    | nan => simp [IsNullText, plainText, display, nested, Double.text, isWord, asciiLower]
  | text s => exact htext s rfl
  | list items _ => exact not_isNullText_json (v := .list items) rfl
  | document fields _ _ => exact not_isNullText_json (v := .document fields) rfl

/-! ### The kinds that read their texts -/

theorem parseFloat_cases (cs : List Char) :
    (∃ x, parseFloat cs = .float (.finite x)) ∨ parseFloat cs = .text (String.ofList cs) := by
  unfold parseFloat
  split
  · split
    · exact .inl ⟨_, rfl⟩
    · exact .inr rfl
  · exact .inr rfl

theorem redisplays_float {v : Value} (h : Kind.Delivers .float v) (hnull : v ≠ .null)
    (htext : ∀ s, v = .text s → s ≠ "") :
    (parseFloat v.plainText).alike v = true ↔ Kind.Redisplays .float v := by
  cases h with
  | null => exact absurd rfl hnull
  | whole n hn =>
    have hplain : (int n).plainText = signedDigits n := rfl
    have halike := alike_plainText (v := .int n) hnull
    rw [hplain] at halike ⊢
    rw [parseFloat_signedDigits, Kind.Redisplays]
    cases Double.ofDecimal (decide (n < 0)) n.natAbs 0 with
    | finite x => simp [alike_int_iff x hn]
    | _ => simp [halike]
  | float x =>
    refine iff_of_true ?_ trivial
    cases x with
    | finite x =>
      have hplain : (float (.finite x)).plainText = x.text := rfl
      rw [hplain, parseFloat_text]
      exact alike_refl _
    | infinite negative => cases negative <;> decide +kernel
    | nan object =>
      have hkept : parseFloat "nan".toList = .text (String.ofList "nan".toList) := rfl
      have hplain : (float (.nan object)).plainText = "nan".toList := rfl
      have halike := alike_plainText (v := .float (.nan object)) nofun
      rwa [hplain, ← hkept] at halike
  | word s =>
    have hplain : (text s).plainText = s.toList := rfl
    rw [alike_text_iff (htext s rfl), Kind.Redisplays, hplain]
    rcases parseFloat_cases s.toList with ⟨x, hx⟩ | hx
    · rw [hx]
      simp [plainText, display, nested, Double.text]
    · simp [hx, plainText, display]
  | any _ _ hkind _ => cases hkind

/-- Whether a value is entered again as one that counts as the same exactly if its kind redisplays
it. Else the value is a text, and what it reads like holds half of a surrogate pair. -/
def EntersAgain (k : Kind) (v : Value) (entered : Except ParseError Value) : Prop :=
  (∃ w, entered = .ok w ∧ (w.alike v = true ↔ k.Redisplays v))
    ∨ entered = .error (.refused .unpaired) ∧ (∃ s, v = .text s) ∧ ¬ k.Redisplays v

/-- A text is entered as the JSON that it reads like, if it reads like any. -/
theorem redisplays_jsonText {s : String} (hs : s ≠ "") :
    EntersAgain .json (.text s) (parseJson none s.toList) := by
  rw [parseJson, Option.map_none, String.ofList_toList]
  rcases Json.load_cases s.toList with ⟨D, hD, hload⟩ | ⟨⟨D, hD⟩, hnone, hload⟩ | ⟨hnone, hload⟩
  · rw [hload]
    refine .inl ⟨_, rfl, ?_⟩
    rw [Option.getD_some, alike_text_iff hs]
    refine ⟨fun halike => .inr ⟨D, hD, halike⟩, ?_⟩
    rintro (hloose | ⟨E, hE, halike⟩)
    · exact absurd hD.mono (hloose D)
    · -- a text is that of one value only
      have hvalue := Json.load_eq_some_iff.2 ⟨E, hE, rfl⟩
      rw [hload, Except.ok.injEq, Option.some.injEq] at hvalue
      rw [hvalue, halike]
  · rw [hload]
    refine .inr ⟨rfl, ⟨s, rfl⟩, ?_⟩
    rintro (hloose | ⟨E, hE, -⟩)
    · exact hloose D hD
    · exact hnone E hE
  · rw [hload]
    exact .inl ⟨_, rfl, iff_of_true (alike_refl _) (.inl hnone)⟩

theorem redisplays_json {v : Value} (h : v.IsReadable) (hnull : v ≠ .null)
    (htext : ∀ s, v = .text s → s ≠ "") :
    EntersAgain .json v (parseJson none v.plainText) := by
  have hsame : v.plainText = v.json → Kind.Redisplays .json v →
      EntersAgain .json v (parseJson none v.plainText) := by
    intro hplain hredisplays
    rw [hplain, parseJson_json h]
    exact .inl ⟨_, rfl, iff_of_true h.alike_reread hredisplays⟩
  cases h with
  | null => exact absurd rfl hnull
  | text s =>
    have hplain : (text s).plainText = s.toList := rfl
    rw [hplain]
    exact redisplays_jsonText (htext s rfl)
  | float x _ =>
    cases x with
    | finite x => exact hsame (Json.print_finite x).symm trivial
    | infinite negative =>
      have hkept : parseJson none (float (.infinite negative)).plainText
          = .ok (.text (String.ofList (float (.infinite negative)).plainText)) := by
        cases negative <;> rfl
      rw [hkept]
      exact .inl ⟨_, rfl, iff_of_true (alike_plainText hnull) trivial⟩
    | nan object =>
      have hplain : (float (.nan object)).plainText = "nan".toList := rfl
      have halike := alike_plainText hnull
      rw [hplain] at halike ⊢
      exact .inl ⟨_, rfl, iff_of_true halike trivial⟩
  | bool b => exact hsame rfl trivial
  | int n _ => exact hsame rfl trivial
  | list items _ => exact hsame rfl trivial
  | document fields _ _ => exact hsame rfl trivial

theorem redisplays_literal (s : String) :
    EntersAgain .array (.text s) (parseArray none s.toList) := by
  rw [parseArray]
  cases hdecode : ArrayLiteral.decodeText none s.toList with
  | error r =>
    cases ArrayLiteral.eq_unpaired_of_decodeText hdecode
    refine .inr ⟨rfl, ⟨s, rfl⟩, ?_⟩
    rintro ⟨texts, htexts, -⟩
    rw [hdecode] at htexts
    cases htexts
  | ok texts =>
    refine .inl ⟨_, rfl, ?_⟩
    rw [Kind.Redisplays, hdecode]
    simp [alike, isJson, listOfTexts]

/-- Items that are no texts are entered as texts. -/
theorem redisplays_array {items : List Value} (h : ∀ v ∈ items, v.IsReadable) {dataType : String}
    (hkind : Kind.ofType dataType = .array) :
    ∃ cs, (list items).format (some dataType) = .ok cs ∧ ¬ IsNullText cs
      ∧ EntersAgain .array (.list items) (parseArray none cs) := by
  refine ⟨ArrayLiteral.braced (items.map ArrayLiteral.written), ?_,
    not_isNullText_of_head (c := '{') rfl (by decide), ?_⟩
  · simp only [format, Kind.ofType?, Option.map_some, Option.getD_some, hkind]
    exact ArrayLiteral.encode_eq h
  · rw [parseArray, ArrayLiteral.decodeText_braced]
    refine .inl ⟨_, rfl, ?_⟩
    rw [listOfTexts, List.map_map]
    exact alike_displayed_iff h

/-- What is read of the text of a delivered value, if the kind has no canonical texts. -/
theorem redisplay_read {dataType : String} {k : Kind} (hkind : Kind.ofType dataType = k)
    (htemporal : k.isTemporal = false) {v : Value} (h : k.Delivers v) (hnull : v ≠ .null)
    (htext : ∀ s, v = .text s → ¬ IsNullText s.toList) :
    ∃ cs, v.format (some dataType) = .ok cs
      ∧ EntersAgain k v (parse (String.ofList cs) dataType) := by
  have hplain : ¬ IsNullText v.plainText := not_isNullText_plainText h.isReadable hnull htext
  have hempty : ∀ s, v = .text s → s ≠ "" := by
    rintro s hs rfl
    exact htext "" hs (.inl rfl)
  have hparse := parse_eq hplain dataType
  simp only [hkind] at hparse
  have hread : k ≠ .array → EntersAgain k v (parse (String.ofList v.plainText) dataType) →
      ∃ cs, v.format (some dataType) = .ok cs
        ∧ EntersAgain k v (parse (String.ofList cs) dataType) :=
    fun hk henters => ⟨_, format_eq_plainText (hkind ▸ hk) h.isReadable, henters⟩
  rw [hparse] at hread
  cases k with
  | integer =>
    cases h with
    | null => exact absurd rfl hnull
    | int n hn =>
      refine hread (by decide) (.inl ⟨_, parseInteger_signedDigits hn, ?_⟩)
      exact iff_of_true (alike_refl _) trivial
    | any _ _ hkind _ => cases hkind
  | float => exact hread (by decide) (.inl ⟨_, rfl, redisplays_float h hnull hempty⟩)
  | boolean =>
    cases h with
    | null => exact absurd rfl hnull
    | bool b =>
      refine hread (by decide) (.inl ⟨_, rfl, iff_of_true ?_ trivial⟩)
      have hbool : (bool b).plainText = Json.bool b := rfl
      rw [hbool, isWord_true_bool]
      exact alike_refl _
    | any _ _ hkind _ => cases hkind
  | json => exact hread (by decide) (redisplays_json h.isReadable hnull hempty)
  | text =>
    exact hread (by decide) (.inl ⟨_, rfl, iff_of_true (alike_plainText hnull) trivial⟩)
  | array =>
    cases h with
    | null => exact absurd rfl hnull
    | array items hitems =>
      obtain ⟨cs, hformat, hcs, hsame⟩ := redisplays_array hitems hkind
      refine ⟨cs, hformat, ?_⟩
      rwa [parse_eq hcs, hkind]
    | literal s =>
      have hformat : (text s).format (some dataType) = .ok (text s).plainText := rfl
      refine ⟨_, hformat, ?_⟩
      rw [hparse]
      exact redisplays_literal s
    | any _ _ hkind _ => cases hkind
  | _ => cases htemporal

end Value

/-! ### Columns -/

namespace Column

variable {c : Column}

theorem entered_of_not_temporal (h : c.kind.isTemporal = false) (text : String) :
    c.entered text = Value.parse text c.dataType := by
  unfold entered
  rw [h]
  split <;> simp_all

theorem alike_of_not_temporal (h : c.kind.isTemporal = false) (v w : Value) :
    c.alike v w = v.alike w := by
  unfold alike
  rw [h]

/-- In a temporal column a text is entered as its canonical text, and that counts as the same. -/
theorem redisplay_temporal (h : c.kind.isTemporal = true) {v : Value} (hnull : v ≠ .null)
    (htext : ¬ Value.IsNullText v.plainText) :
    ∃ w, c.entered (String.ofList v.plainText) = .ok w ∧ c.alike w v = true := by
  have hparse : Value.parse (String.ofList v.plainText) c.dataType
      = .ok (.text (String.ofList v.plainText)) := by
    rw [Value.parse_eq htext]
    cases hkind : Kind.ofType c.dataType with
    | date => rfl
    | time => rfl
    | timestamp => rfl
    | _ => simp [kind, hkind, Kind.isTemporal] at h
  have hplain : (Value.text (String.ofList v.plainText)).plainText = v.plainText :=
    String.toList_ofList
  have halike : ∀ s, c.alike (.text s) v = (c.canonical (.text s)).alike (c.canonical v) := by
    intro s
    unfold alike
    rw [h]
    cases v <;> first | rfl | exact absurd rfl hnull
  refine ⟨c.canonical (.text (String.ofList v.plainText)), ?_, ?_⟩
  · unfold entered
    simp [hparse, h]
  · cases hcanonical : canonical? c.dataType v.plainText with
    | some cs =>
      have hcs : c.canonical (.text (String.ofList cs)) = .text (String.ofList cs) := by
        have hagain := canonical?_canonical hcanonical
        simp [canonical, Value.plainText, Value.display, hagain]
      have hentered : c.canonical (.text (String.ofList v.plainText))
          = .text (String.ofList cs) := by
        rw [canonical, hplain, hcanonical]
      rw [hentered, halike, hcs, canonical, hcanonical]
      exact Value.alike_refl _
    | none =>
      have hentered : c.canonical (.text (String.ofList v.plainText))
          = .text (String.ofList v.plainText) := by
        rw [canonical, hplain, hcanonical]
      rw [hentered, halike, hentered, canonical, hcanonical]
      exact Value.alike_plainText hnull

/-- A delivered value that is entered as it is displayed counts as the same content if it is one of
those that the kind of the column redisplays. Texts that stand for null are left out, and of texts
that read like JSON with half of a surrogate pair nothing is entered that has a form here. -/
theorem redisplay (c : Column) (v : Value) (h : c.kind.Delivers v)
    (htext : ∀ s, v = .text s → ¬ Value.IsNullText s.toList) :
    ∃ cs, v.format (some c.dataType) = .ok cs
      ∧ ((∃ w, c.entered (String.ofList cs) = .ok w ∧ (c.alike w v = true ↔ c.kind.Redisplays v))
        ∨ c.entered (String.ofList cs) = .error (.refused .unpaired) ∧ (∃ s, v = .text s)
          ∧ ¬ c.kind.Redisplays v) := by
  by_cases hnull : v = .null
  · subst hnull
    have halike : c.alike .null .null = true := by
      unfold alike
      cases c.kind.isTemporal <;> rfl
    refine ⟨[], rfl, .inl ⟨.null, by simp [entered, Value.parse, Value.parseWithin],
      iff_of_true halike ?_⟩⟩
    cases c.kind <;> trivial
  cases htemporal : c.kind.isTemporal with
  | false =>
    obtain ⟨cs, hformat, henters⟩ := Value.redisplay_read rfl htemporal h hnull htext
    refine ⟨cs, hformat, ?_⟩
    rw [entered_of_not_temporal htemporal]
    simp only [alike_of_not_temporal htemporal]
    exact henters
  | true =>
    have hplain := Value.not_isNullText_plainText h.isReadable hnull htext
    obtain ⟨w, hentered, halike⟩ := redisplay_temporal htemporal hnull hplain
    have hkind : c.kind ≠ .array := by
      intro hkind
      rw [hkind] at htemporal
      cases htemporal
    exact ⟨v.plainText, Value.format_eq_plainText hkind h.isReadable, .inl ⟨w, hentered,
      iff_of_true halike (Kind.redisplays_of_isTemporal htemporal v)⟩⟩

end Column

end StagedTable
