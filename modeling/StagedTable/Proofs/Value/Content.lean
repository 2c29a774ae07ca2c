import StagedTable.Proofs.Value.Equality
import StagedTable.Proofs.Value.JsonNesting
import StagedTable.Value.Temporal

/-!
# The content of cells

Two notions of equal content meet when an edit becomes an assignment. An edit is kept if its value
is not alike to the staged one as the column takes it, and an assignment is made if it is not alike
to it as a plain value. Only temporal columns make a difference between the two, and there an
assignment is left out for a kept edit only if it would change nothing (`same_of_alike`).

Values that are entered as texts repeat no field name, and their integers are within the limit on
digits, so that they can be written again (`isReadable_of_entered`).
-/

namespace StagedTable

open Text

/-! ### Texts that no date or time is read from -/

/-- Whether a character opens the JSON text of a list or of a document. -/
def OpensJson (c : Char) : Prop := c = '[' ∨ c = '{'

namespace Entry

variable {c : Char}

theorem isDigit_of_opensJson (h : OpensJson c) : isDigit c = false := by
  rcases h with rfl | rfl <;> rfl

theorem readPair_opening (h : OpensJson c) (r : List Char) : Iso.readPair (c :: r) = none := by
  cases r with
  | nil => rfl
  | cons d r => rw [Iso.readPair, isDigit_of_opensJson h]; rfl

theorem isoDate_opening (h : OpensJson c) (r : List Char) : Iso.date? (c :: r) = none := by
  unfold Iso.date? Iso.readYear
  rw [readPair_opening h]
  simp

theorem isoTime_opening (h : OpensJson c) (r : List Char) : Iso.leadTime? (c :: r) = none := by
  have hclock : ∀ r, Iso.readClock (c :: r) = none := by
    intro r
    unfold Iso.readClock
    rw [readPair_opening h]
    rfl
  have htime : Iso.time? (c :: r) = none := by
    have hhead : (c :: r).takeWhile (!Iso.startsOffset ·)
        = c :: r.takeWhile (!Iso.startsOffset ·) := by
      rcases h with rfl | rfl <;> rfl
    unfold Iso.time?
    rw [hhead, hclock]
    rfl
  rcases h with rfl | rfl <;> exact htime

theorem isoDateTime_opening (h : OpensJson c) (r : List Char) :
    Iso.dateTime? (c :: r) = none := by
  have hlength : ∃ n, Iso.dateLength (c :: r) = n + 1 := by
    refine ⟨Iso.dateLength (c :: r) - 1, ?_⟩
    have hpos : 0 < Iso.dateLength (c :: r) := by
      unfold Iso.dateLength
      dsimp only
      split_ifs <;> omega
    omega
  obtain ⟨n, hn⟩ := hlength
  unfold Iso.dateTime?
  dsimp only
  rw [hn, List.take_succ_cons, isoDate_opening h]
  rfl

theorem fitPattern_opening (h : OpensJson c) (f : Field) (rest : Pattern) (r : List Char) :
    fitPattern (.field f :: rest) (c :: r) = none := by
  rcases h with rfl | rfl <;> cases f <;> rfl

theorem firstReading_opening {α : Type} (h : OpensJson c) {patterns : List Pattern}
    (hpatterns : ∀ p ∈ patterns, ∃ f rest, p = .field f :: rest) (make : Fields → Option α)
    (r : List Char) : firstReading patterns make (c :: r) = none := by
  rw [firstReading, List.findSome?_eq_none_iff]
  intro p hp
  obtain ⟨f, rest, rfl⟩ := hpatterns p hp
  rw [Pattern.read, fitPattern_opening h]
  rfl

theorem dateOf_opening (h : OpensJson c) (r : List Char) : dateOf? (c :: r) = none := by
  have hpatterns : ∀ p ∈ datePatterns, ∃ f rest, p = .field f :: rest := by
    simp [datePatterns, dayFirst, monthFirst, yearFirst]
  rw [dateOf?, isoDate_opening h, isoDateTime_opening h, firstReading_opening h hpatterns]
  rfl

/-- An opening character stays at the start of what is entered. -/
theorem entered?_opening (h : OpensJson c) (r : List Char) :
    entered? (c :: r) = none ∨ ∃ r', entered? (c :: r) = some (c :: r') := by
  have hstart : trimStart (c :: r) = c :: r := by
    rcases h with rfl | rfl <;> rfl
  have hprefix := trimEnd_isPrefix (c :: r)
  unfold entered? trim
  rw [hstart]
  cases htrim : trimEnd (c :: r) with
  | nil => exact .inl (if_pos (.inl rfl))
  | cons d r' =>
    rw [htrim] at hprefix
    cases (List.cons_prefix_cons.1 hprefix).1
    dsimp only
    split
    · exact .inl rfl
    · exact .inr ⟨r', rfl⟩

end Entry

/-- Nothing that opens like JSON is a date or a time. -/
theorem canonical?_opening {c : Char} (h : OpensJson c) (r : List Char) {dataType : String}
    (htemporal : (Kind.ofType dataType).isTemporal = true) :
    canonical? dataType (c :: r) = none := by
  have htime : ∀ p ∈ Entry.timePatterns, ∃ f rest, p = .field f :: rest := by
    simp [Entry.timePatterns]
  have htimestamp : ∀ p ∈ Entry.timestampPatterns, ∃ f rest, p = .field f :: rest := by
    simp [Entry.timestampPatterns, Entry.dayFirst, Entry.monthFirst, Entry.yearFirst]
  unfold canonical?
  cases hkind : Kind.ofType dataType with
  | date =>
    unfold Entry.date?
    rcases Entry.entered?_opening h r with he | ⟨r', he⟩ <;> rw [he]
    · rfl
    · simp [Entry.dateOf_opening h]
  | time =>
    unfold Entry.time?
    rcases Entry.entered?_opening h r with he | ⟨r', he⟩ <;> rw [he]
    · rfl
    · simp [Entry.isoTime_opening h, Entry.firstReading_opening h htime]
  | timestamp =>
    unfold Entry.timestamp?
    rcases Entry.entered?_opening h r with he | ⟨r', he⟩ <;> rw [he]
    · rfl
    · simp [Entry.isoDateTime_opening h, Entry.firstReading_opening h htimestamp,
        Entry.dateOf_opening h]
  | _ => rw [hkind] at htemporal; cases htemporal

/-! ### Edits that an update leaves out -/

namespace Value

theorem plainText_of_isJson {v : Value} (h : v.isJson = true) :
    ∃ c r, v.plainText = c :: r ∧ OpensJson c := by
  cases v with
  | list items => exact ⟨'[', _, by rw [plainText, json, Json.print, Json.bracketed], .inl rfl⟩
  | document fields => exact ⟨'{', _, by rw [plainText, json, Json.print, Json.braced], .inr rfl⟩
  | _ => cases h

theorem alike_cases {a b : Value} (h : a.alike b = true) :
    (a = .null ∧ b = .null)
    ∨ (a.isJson = true ∧ b.isJson = true ∧ a.sortedJson = b.sortedJson)
    ∨ a.plainText = b.plainText
    ∨ (a.isBool = b.isBool ∧ a.equal b = true) := by
  unfold alike at h
  split at h
  · exact .inl ⟨rfl, rfl⟩
  · cases h
  · cases h
  · split at h
    · next hjson =>
      rw [Bool.and_eq_true] at hjson
      exact .inr (.inl ⟨hjson.1, hjson.2, beq_iff_eq.1 h⟩)
    · split at h
      iterate 4 exact .inr (.inr (.inl (beq_iff_eq.1 h)))
      rw [Bool.or_eq_true, Bool.and_eq_true, beq_iff_eq, beq_iff_eq] at h
      rcases h with hequal | htext
      · exact .inr (.inr (.inr hequal))
      · exact .inr (.inr (.inl htext))

theorem alike_text (s : String) : (text s).alike (.text s) = true := by
  have hplain : (text s).plainText == (text s).plainText := beq_self_eq_true _
  exact Bool.or_eq_true _ _ ▸ .inr hplain

end Value

/-- A value that the column takes as other content than a value that it is alike to is the same as
that value. -/
theorem Column.same_of_alike {c : Column} {a b : Value} (ha : a.IsComparable) (hb : b.IsComparable)
    (hcolumn : c.alike a b = false) (h : a.alike b = true) : a.same b = true := by
  -- the column compares canonical texts, or else as plain values
  have hcanonical : (Kind.ofType c.dataType).isTemporal = true
      ∧ (c.canonical a).alike (c.canonical b) = false := by
    unfold Column.alike at hcolumn
    split at hcolumn
    · rw [h] at hcolumn; cases hcolumn
    · rw [h] at hcolumn; cases hcolumn
    · rw [h] at hcolumn; cases hcolumn
    · next hkind _ _ => exact ⟨hkind, hcolumn⟩
  obtain ⟨htemporal, hdiffer⟩ := hcanonical
  have hplain : a.plainText ≠ b.plainText := by
    intro he
    unfold Column.canonical at hdiffer
    rw [he] at hdiffer
    cases hcs : canonical? c.dataType b.plainText with
    | none =>
      rw [hcs] at hdiffer
      exact absurd h (by simp [hdiffer])
    | some cs =>
      rw [hcs] at hdiffer
      rw [Value.alike_text] at hdiffer
      cases hdiffer
  rcases Value.alike_cases h with ⟨rfl, rfl⟩ | ⟨hja, hjb, -⟩ | htext | hequal
  · exact absurd rfl hplain
  · -- neither of two JSON values has a canonical text
    obtain ⟨d, r, hd, hopens⟩ := Value.plainText_of_isJson hja
    obtain ⟨e, t, he, hopens'⟩ := Value.plainText_of_isJson hjb
    unfold Column.canonical at hdiffer
    rw [hd, he, canonical?_opening hopens r htemporal,
      canonical?_opening hopens' t htemporal] at hdiffer
    exact absurd h (by simp [hdiffer])
  · exact absurd htext hplain
  · exact (Value.same_iff ha.isProper hb.isProper).2 hequal

/-! ### Entered values -/

namespace Json

theorem SignedNumeral.isReadable_toValue {n : SignedNumeral} (h : n.isShort = true) :
    n.toValue.IsReadable := by
  unfold toValue
  split
  · next hinteger =>
    have hshort : n.whole.length ≤ maxIntegerDigits := by
      simpa [isShort, hinteger] using h
    have hvalue : integerOfDigits? n.negative n.whole = some n.integer := if_pos hshort
    exact .int _ (length_digits_of_integerOfDigits? n.whole_ne_nil n.isDigit_whole hvalue)
  · exact .float _ trivial

theorem IsNumberOf.isReadable {cs : List Char} {v : Value} (h : IsNumberOf cs v) :
    v.IsReadable := by
  cases h with
  | numeral n hshort => exact n.isReadable_toValue hshort
  | nan => exact .float _ trivial
  | infinity => exact .float _ trivial
  | negativeInfinity => exact .float _ trivial

/-- The value of a document can be written again. Fields may repeat a name in the text; the value
keeps one of each. -/
theorem DerivesBy.isReadable {half : Option Char} {cs : List Char} {D : Tree Value}
    (h : DerivesBy half IsNumberOf cs D) : (D.valueBy id).IsReadable := by
  induction h with
  | null => exact .null
  | bool b => exact .bool b
  | number hn => exact hn.isReadable
  | string _ => exact .text _
  | emptyArray _ => exact .list [] nofun
  | emptyObject _ => exact .document [] List.nodup_nil nofun
  | array items _ _ ih =>
    rw [Tree.valueBy_array, List.map_map]
    refine .list _ fun v hv => ?_
    obtain ⟨i, hi, rfl⟩ := List.mem_map.1 hv
    exact ih i hi
  | object members _ _ ih =>
    rw [Tree.valueBy_object, List.map_map]
    refine .document _ (Assoc.nodup_putAll List.nodup_nil) fun field hfield => ?_
    rcases Assoc.mem_putAll hfield with hnil | hadded
    · exact nomatch hnil
    · obtain ⟨m, hm, rfl⟩ := List.mem_map.1 hadded
      exact ih m hm

theorem IsLooseTextOf.isReadable {half : Option Char} {cs : List Char} {D : Tree Value}
    (h : IsLooseTextOf half cs D) : (D.valueBy id).IsReadable := by
  obtain ⟨s, -, rfl, hs⟩ := h
  exact hs.isReadable

/-- What is loaded can be written again. -/
theorem isReadable_of_load {limit : Option Nat} {cs : List Char} {v : Value}
    (h : load limit cs = .ok (some v)) : v.IsReadable := by
  rw [load_of_not_tooDeep (by simp [h]), load_eq_some_iff] at h
  obtain ⟨D, hD, rfl⟩ := h
  exact hD.isReadable

end Json

namespace Value

theorem isReadable_of_parseInteger {cs : List Char} {v : Value} (h : parseInteger cs = .ok v) :
    v.IsReadable := by
  unfold parseInteger at h
  dsimp only at h
  split at h
  · cases h
    exact .text _
  · next hne hrun =>
    obtain ⟨-, hdigits, -⟩ := of_digitRun hrun
    split at h
    · next n hn =>
      cases h
      refine .int n (length_digits_of_integerOfDigits? ?_ hdigits hn)
      rintro rfl
      exact hne rfl
    · cases h

theorem isReadable_parseFloat (cs : List Char) : (parseFloat cs).IsReadable := by
  unfold parseFloat
  split
  · split
    · exact .float _ trivial
    · exact .text _
  · exact .text _

theorem isReadable_listOfTexts (texts : List (List Char)) : (listOfTexts texts).IsReadable := by
  refine .list _ fun v hv => ?_
  obtain ⟨e, -, rfl⟩ := List.mem_map.1 hv
  exact .text _

section
variable {depths : Option ArrayLiteral.Depths}

theorem isReadable_of_parseJson {cs : List Char} {v : Value} (h : parseJson depths cs = .ok v) :
    v.IsReadable := by
  unfold parseJson at h
  split at h
  · cases h
  · next read hload =>
    cases h
    cases read with
    | none => exact .text _
    | some v => exact Json.isReadable_of_load hload

theorem isReadable_of_parseArray {cs : List Char} {v : Value} (h : parseArray depths cs = .ok v) :
    v.IsReadable := by
  unfold parseArray at h
  split at h
  · cases h
  · cases h
    exact isReadable_listOfTexts _

theorem isReadable_of_parseWithin {text dataType : String} {v : Value}
    (h : parseWithin depths text dataType = .ok v) : v.IsReadable := by
  unfold parseWithin at h
  dsimp only at h
  split at h
  · cases h
    exact .null
  · split at h
    · exact isReadable_of_parseInteger h
    · cases h
      exact isReadable_parseFloat _
    · cases h
      exact .bool _
    · exact isReadable_of_parseJson h
    · exact isReadable_of_parseArray h
    all_goals
      cases h
      exact .text _

end

theorem isReadable_of_parse {text dataType : String} {v : Value}
    (h : parse text dataType = .ok v) : v.IsReadable := isReadable_of_parseWithin h

end Value

/-- What is entered in a column repeats no field name. -/
theorem Column.isReadable_of_entered {c : Column} {text : String} {v : Value}
    (h : c.entered text = .ok v) : v.IsReadable := by
  unfold Column.entered at h
  split at h
  · cases h
    split
    · unfold Column.canonical
      split <;> exact .text _
    · exact .text _
  · exact Value.isReadable_of_parse h

end StagedTable
