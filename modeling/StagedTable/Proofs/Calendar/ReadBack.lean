import StagedTable.Proofs.Calendar.Canonical

/-!
# Reading dates and timestamps back

A date is read back from its text, and a timestamp with its microseconds and its offset, for all
years and all offsets but one kind: the fraction of an offset of less than a second is written, but
it is not read (`halfSecondEast_lost`). No text is read as a timestamp with such an offset. So the
canonical text of whatever is entered as a date or a timestamp stands for what was entered
(`temporalTexts_readBack`).
-/

namespace StagedTable

/-- What the canonical texts of a data type keep of the texts that are entered. -/
structure KeepsEntries (dataType : String) : Prop where
  /-- What is read as a date has a canonical text, which is read as the same date. -/
  date : Kind.ofType dataType = .date → ∀ cs d, Entry.date? cs = some d →
    ∃ out, canonical? dataType cs = some out ∧ Entry.date? out = some d
  /-- What is read as a timestamp has a canonical text, which is read as the same timestamp. -/
  timestamp : Kind.ofType dataType = .timestamp → ∀ cs d, Entry.timestamp? cs = some d →
    ∃ out, canonical? dataType cs = some out ∧ Entry.timestamp? out = some d
  /-- A canonical text is its own canonical text. -/
  canonical : ∀ cs out, canonical? dataType cs = some out → canonical? dataType out = some out

namespace Entry

variable {dataType : String} {cs : List Char}

/-- A timestamp is read back from its text exactly if its offset can be read. -/
theorem timestamp?_text_iff {d : DateTime} :
    timestamp? d.text = some d ↔ ∀ o, d.time.offset = some o → o.IsReadable := by
  rw [timestamp?_text, Option.some.injEq, DateTime.readBack_eq_self_iff]

/-- What is read as a date is read as the same date from its canonical text. -/
theorem date?_canonical (hkind : Kind.ofType dataType = .date) {d : Date} (h : date? cs = some d) :
    ∃ out, canonical? dataType cs = some out ∧ date? out = some d := by
  refine ⟨d.text, ?_, date?_text d⟩
  unfold canonical?
  rw [hkind, h]
  rfl

/-- What is read as a timestamp is read as the same timestamp from its canonical text. -/
theorem timestamp?_canonical (hkind : Kind.ofType dataType = .timestamp) {d : DateTime}
    (h : timestamp? cs = some d) :
    ∃ out, canonical? dataType cs = some out ∧ timestamp? out = some d := by
  refine ⟨d.text, ?_, timestamp?_text_iff.2 (isReadable_of_timestamp? h)⟩
  unfold canonical?
  rw [hkind, h]
  rfl

end Entry

/-- Dates and timestamps are read back from their texts, but for offsets of less than a second, and
canonical texts keep what was entered. -/
theorem temporalTexts_readBack (date : Date) (timestamp : DateTime) (dataType : String) :
    Entry.date? date.text = some date
    ∧ Entry.timestamp? timestamp.text = some timestamp.readBack
    ∧ (Entry.timestamp? timestamp.text = some timestamp
      ↔ ∀ o, timestamp.time.offset = some o → o = .utc ∨ microsPerSecond ≤ o.micros.natAbs)
    ∧ KeepsEntries dataType := by
  refine ⟨Entry.date?_text date, Entry.timestamp?_text timestamp, Entry.timestamp?_text_iff, ?_⟩
  exact {
    date := fun hkind _ _ h => Entry.date?_canonical hkind h
    timestamp := fun hkind _ _ h => Entry.timestamp?_canonical hkind h
    canonical := fun _ _ h => canonical?_canonical h }

/-- A date, and a timestamp with a fraction and an offset of seconds with a fraction, as they are
entered with blanks around them. -/
theorem temporalTexts_readBack_entered :
    (∃ out, canonical? "date" " 30/03/2026 ".toList = some out
      ∧ (Entry.date? out).map (·.text) = some "2026-03-30".toList)
    ∧ ∃ out, canonical? "timestamp with time zone"
        " 2026-03-30 10:15:00.000001-01:02:03.5 ".toList = some out
      ∧ (Entry.timestamp? out).map (·.text)
        = some "2026-03-30T10:15:00.000001-01:02:03.500000".toList
      ∧ canonical? "timestamp with time zone" out = some out := by
  obtain ⟨d, hd⟩ := Option.isSome_iff_exists.1
    (show (Entry.date? " 30/03/2026 ".toList).isSome = true by decide +kernel)
  obtain ⟨t, ht⟩ := Option.isSome_iff_exists.1
    (show (Entry.timestamp? " 2026-03-30 10:15:00.000001-01:02:03.5 ".toList).isSome = true by
      decide +kernel)
  obtain ⟨-, -, -, hdates⟩ := temporalTexts_readBack d t "date"
  obtain ⟨-, -, -, htimestamps⟩ := temporalTexts_readBack d t "timestamp with time zone"
  constructor
  · have htext : (Entry.date? " 30/03/2026 ".toList).map (·.text) = some "2026-03-30".toList := by
      decide +kernel
    obtain ⟨out, hout, hread⟩ := hdates.date (by decide +kernel) _ d hd
    exact ⟨out, hout, by rw [hread, ← hd, htext]⟩
  · have htext : (Entry.timestamp? " 2026-03-30 10:15:00.000001-01:02:03.5 ".toList).map (·.text)
        = some "2026-03-30T10:15:00.000001-01:02:03.500000".toList := by decide +kernel
    obtain ⟨out, hout, hread⟩ := htimestamps.timestamp (by decide +kernel) _ t ht
    exact ⟨out, hout, by rw [hread, ← ht, htext], htimestamps.canonical _ out hout⟩

/-- Half a second east of UTC is written, but read as UTC itself. -/
theorem halfSecondEast_lost :
    ∃ d : DateTime, d.text = "2026-03-30T10:15:00+00:00:00.500000".toList
      ∧ (Entry.timestamp? d.text).map (·.text) = some "2026-03-30T10:15:00+00:00".toList
      ∧ Entry.timestamp? d.text ≠ some d := by
  refine ⟨⟨⟨2026, 3, 30, by decide, by decide, by decide, by decide⟩,
    ⟨⟨10, 15, 0, 0, by decide, by decide, by decide, by decide⟩, some ⟨500000, by decide⟩⟩⟩,
    by decide +kernel, by decide +kernel, ?_⟩
  intro h
  have hoffset := congrArg (·.map (·.time.offset)) h
  revert hoffset
  decide +kernel

end StagedTable
