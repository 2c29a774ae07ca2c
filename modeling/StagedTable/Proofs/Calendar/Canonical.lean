import StagedTable.Proofs.Value.CellText
import StagedTable.Value.Temporal

/-!
# Canonical texts of dates and times

The text that a date, a time or a timestamp is written in is read as the same date, time or
timestamp, by the first form that is tried. So a canonical text is its own canonical text
(`canonical?_canonical`), and it does not matter how often a text is brought into that form.

One offset has a text that stands for another one: an offset of less than a second is read as that
of UTC (`Offset.readBack`). No text stands for such an offset (`Offset.IsReadable`).
-/

namespace StagedTable

open Text

/-! ### Digits in fixed places -/

namespace Text

theorem length_paddedDigits (width : Nat) {n : Nat} (hwidth : 0 < width) (h : n < 10 ^ width) :
    (paddedDigits width n).length = width := by
  have hle : (digits n).length ≤ width := (Nat.length_toDigits_le_iff (by decide) hwidth).2 h
  rw [paddedDigits, List.length_append, List.length_replicate]
  omega

theorem isDigit_of_mem_paddedDigits {width n : Nat} {c : Char} (h : c ∈ paddedDigits width n) :
    isDigit c = true := by
  rcases List.mem_append.1 h with h | h
  · rw [(List.mem_replicate.1 h).2]
    rfl
  · exact isDigit_of_mem_digits h

end Text

namespace Iso

/-! ### Reading -/

theorem readPair_digits {ds : List Char} (hlength : ds.length = 2)
    (hds : ∀ c ∈ ds, isDigit c = true) (rest : List Char) :
    readPair (ds ++ rest) = some (ofDigits ds, rest) := by
  obtain ⟨a, b, rfl⟩ := List.length_eq_two.1 hlength
  rw [List.forall_mem_cons, List.forall_mem_singleton] at hds
  rw [List.cons_append, List.cons_append, List.nil_append, readPair, hds.1, hds.2]
  rfl

theorem readPair_padded {n : Nat} (h : n < 100) (rest : List Char) :
    readPair (paddedDigits 2 n ++ rest) = some (n, rest) := by
  rw [readPair_digits (length_paddedDigits 2 (by decide) h) (fun _ => isDigit_of_mem_paddedDigits),
    ofDigits_paddedDigits]

theorem readYear_padded {n : Nat} (h : n < 10000) (rest : List Char) :
    readYear (paddedDigits 4 n ++ rest) = some (n, rest) := by
  have hlength := length_paddedDigits 4 (by decide) h
  have hds : ∀ c ∈ paddedDigits 4 n, isDigit c = true := fun _ => isDigit_of_mem_paddedDigits
  have hvalue := ofDigits_paddedDigits 4 n
  generalize paddedDigits 4 n = ds at hlength hds hvalue ⊢
  -- the first two digits are the century
  rw [← List.take_append_drop 2 ds] at hds hvalue ⊢
  rw [List.forall_mem_append] at hds
  have hcentury : (ds.take 2).length = 2 := by simp [hlength]
  have hyear : (ds.drop 2).length = 2 := by simp [hlength]
  rw [ofDigits_append, hyear] at hvalue
  rw [readYear, List.append_assoc, readPair_digits hcentury hds.1]
  simp only [Option.bind_eq_bind, Option.bind_some]
  rw [readPair_digits hyear hds.2, Option.bind_some, ← hvalue]
  rfl

/-- Behind a colon the next field is read. -/
theorem continuation?_padded (n : Nat) (rest : List Char) :
    continuation? true (':' :: (paddedDigits 2 n ++ rest))
      = some (.field (paddedDigits 2 n ++ rest)) := by
  cases hn : paddedDigits 2 n with
  | nil => exact absurd (List.append_eq_nil_iff.1 hn).2 (digits_ne_nil n)
  | cons c r => rfl

/-- A fraction that is not zero is read, and nothing else needs to be written. -/
theorem continuation?_fraction {micro : Nat} (h : micro < microsPerSecond) :
    (micro = 0 ∧ continuation? true (fractionText micro) = some (.finished false))
    ∨ ∃ cs, continuation? true (fractionText micro) = some (.fraction cs)
      ∧ readFraction cs = some (micro, false) := by
  unfold fractionText
  split
  · next hzero => exact .inl ⟨hzero, rfl⟩
  · have hlength := length_paddedDigits 6 (by decide) h
    have hall : (paddedDigits 6 micro).all isDigit = true :=
      List.all_eq_true.2 fun _ => isDigit_of_mem_paddedDigits
    have hvalue := ofDigits_paddedDigits 6 micro
    generalize paddedDigits 6 micro = ds at hlength hall hvalue ⊢
    cases ds with
    | nil => cases hlength
    | cons c r =>
      refine .inr ⟨c :: r, rfl, ?_⟩
      unfold readFraction
      rw [List.take_of_length_le (by omega), List.drop_of_length_le (by omega)]
      simp [hall, hlength, hvalue]

/-- A clock that is written with seconds is read. -/
theorem readClock_seconds {hour minute second micro : Nat} (hhour : hour < 100)
    (hminute : minute < 100) (hsecond : second < 100) (hmicro : micro < microsPerSecond) :
    readClock (paddedDigits 2 hour ++ ':' :: (paddedDigits 2 minute ++ ':' ::
        (paddedDigits 2 second ++ fractionText micro)))
      = some ⟨hour, minute, second, micro, false⟩ := by
  unfold readClock
  simp only [readPair_padded hhour, Option.bind_eq_bind, Option.bind_some, List.head?_cons,
    BEq.rfl, continuation?_padded, readPair_padded hminute, readPair_padded hsecond]
  rcases continuation?_fraction hmicro with ⟨rfl, hcontinues⟩ | ⟨cs, hcontinues, hread⟩
  · simp [hcontinues]
  · simp [hcontinues, hread]

/-- A clock that is written without seconds is read. -/
theorem readClock_minutes {hour minute : Nat} (hhour : hour < 100) (hminute : minute < 100) :
    readClock (paddedDigits 2 hour ++ ':' :: paddedDigits 2 minute)
      = some ⟨hour, minute, 0, 0, false⟩ := by
  have hend := readPair_padded hminute []
  have hnext := continuation?_padded minute []
  rw [List.append_nil] at hend hnext
  unfold readClock
  simp only [readPair_padded hhour, Option.bind_eq_bind, Option.bind_some, List.head?_cons,
    BEq.rfl, hnext, hend]
  rfl

end Iso

/-! ### The characters of a text -/

section

variable {p : Char → Bool} (hdigit : ∀ c, isDigit c = true → p c = true)

include hdigit

theorem all_paddedDigits (width n : Nat) : (paddedDigits width n).all p = true :=
  List.all_eq_true.2 fun c hc => hdigit c (isDigit_of_mem_paddedDigits hc)

theorem all_fractionText (hpoint : p '.' = true) (micro : Nat) :
    (fractionText micro).all p = true := by
  unfold fractionText
  split
  · rfl
  · rw [List.all_cons, hpoint, all_paddedDigits hdigit]
    rfl

theorem Date.all_text (hhyphen : p '-' = true) (d : Date) : d.text.all p = true := by
  simp [Date.text, all_paddedDigits hdigit, hhyphen]

theorem TimeOfDay.all_secondsText (hcolon : p ':' = true) (t : TimeOfDay) :
    t.secondsText.all p = true := by
  simp [secondsText, all_paddedDigits hdigit, hcolon]

theorem TimeOfDay.all_text (hcolon : p ':' = true) (hpoint : p '.' = true) (t : TimeOfDay) :
    t.text.all p = true := by
  rw [text, List.all_append, all_secondsText hdigit hcolon, all_fractionText hdigit hpoint]
  rfl

theorem Offset.all_text (hcolon : p ':' = true) (hpoint : p '.' = true) (hplus : p '+' = true)
    (hhyphen : p '-' = true) (o : Offset) : o.text.all p = true := by
  unfold text
  dsimp only
  split_ifs <;>
    simp [all_paddedDigits hdigit, all_fractionText hdigit hpoint, hcolon, hplus, hhyphen]

theorem DateTime.all_text (hcolon : p ':' = true) (hpoint : p '.' = true) (hplus : p '+' = true)
    (hhyphen : p '-' = true) (hlead : p 'T' = true) (d : DateTime) : d.text.all p = true := by
  unfold text textWith Time.text
  rw [List.all_append, List.all_cons, List.all_append, Date.all_text hdigit hhyphen, hlead,
    TimeOfDay.all_text hdigit hcolon hpoint]
  cases d.time.offset with
  | none => rfl
  | some o => exact Offset.all_text hdigit hcolon hpoint hplus hhyphen o

end

theorem isBlank_of_isDigit {c : Char} (h : isDigit c = true) : isBlank c = false := by
  rw [isDigit_iff] at h
  simp [isBlank]
  omega

/-- A text without blanks that starts with a digit is entered as it is. -/
theorem Entry.entered?_of_digit {cs r : List Char} {c : Char} (hcs : cs = c :: r)
    (hc : isDigit c = true) (hblank : cs.all (!isBlank ·) = true) : entered? cs = some cs := by
  have hnone : ∀ d ∈ cs, isBlank d = false := fun d hd => by
    simpa using List.all_eq_true.1 hblank d hd
  have htrim : trim cs = cs :=
    trim_eq_self (fun d hd => hnone d (List.mem_of_mem_head? hd))
      fun d hd => hnone d (List.mem_of_getLast? hd)
  have hnull : ¬ Value.IsNullText cs := by
    refine not_isNullText_of_head hcs ?_
    rw [asciiLower_of_isDigit hc]
    exact ne_of_isDigit hc (by decide)
  rw [entered?, htrim]
  exact if_neg hnull

theorem exists_head_paddedDigits (width n : Nat) (rest : List Char) :
    ∃ c r, paddedDigits width n ++ rest = c :: r ∧ isDigit c = true := by
  have hdigits : ∀ c ∈ paddedDigits width n, isDigit c = true := fun _ =>
    isDigit_of_mem_paddedDigits
  cases hn : paddedDigits width n with
  | nil => exact absurd (List.append_eq_nil_iff.1 hn).2 (digits_ne_nil n)
  | cons c r => exact ⟨c, r ++ rest, rfl, hdigits c (hn ▸ .head _)⟩

/-! ### Written texts read back -/

/-- Whether a character takes one byte. -/
def isAscii (c : Char) : Bool := c.toNat < 0x80

theorem isAscii_of_isDigit (c : Char) (h : isDigit c = true) : isAscii c = true := by
  rw [isDigit_iff] at h
  exact decide_eq_true (by omega)

theorem Iso.byteLength_of_ascii {cs : List Char} (h : cs.all isAscii = true) :
    byteLength cs = cs.length := by
  have hfold : ∀ n, cs.foldl (fun n c => n + c.utf8Size) n = n + cs.length := by
    induction cs with
    | nil => exact fun _ => rfl
    | cons c r ih =>
      rw [List.all_cons, Bool.and_eq_true] at h
      have hsize : c.utf8Size = 1 := by
        have hlt : c.val.toNat < 0x80 := of_decide_eq_true h.1
        exact Char.utf8Size_eq_one_iff.2 (UInt32.le_iff_toNat_le.2 (Nat.le_of_lt_succ hlt))
      intro n
      rw [List.foldl_cons, ih h.2, hsize, List.length_cons]
      omega
  rw [byteLength, hfold, Nat.zero_add]

namespace Date

variable (d : Date)

theorem year_lt : d.year < 10000 := Nat.lt_succ_of_le d.year_le

theorem month_lt : d.month < 100 := Nat.lt_of_le_of_lt d.month_le.2 (by decide)

theorem day_lt : d.day < 100 := by
  have hle := d.day_le
  unfold daysInMonth at hle
  split at hle <;> first | omega | (split at hle <;> omega)

theorem length_text : d.text.length = 10 := by
  simp [text, length_paddedDigits 4 (by decide) d.year_lt,
    length_paddedDigits 2 (by decide) d.month_lt,
    length_paddedDigits 2 (by decide) d.day_lt]

end Date

theorem Iso.date?_text (d : Date) : date? d.text = some d := by
  have hbytes : byteLength d.text = 10 := by
    rw [byteLength_of_ascii (Date.all_text isAscii_of_isDigit rfl d), d.length_text]
  obtain ⟨c, r, hr, hc⟩ := exists_head_paddedDigits 2 d.month ('-' :: paddedDigits 2 d.day)
  have hmonth := readPair_padded d.month_lt ('-' :: paddedDigits 2 d.day)
  have hday := readPair_padded d.day_lt []
  rw [List.append_nil] at hday
  unfold date?
  rw [hbytes, Date.text, List.append_assoc, List.cons_append]
  rw [hr] at hmonth ⊢
  simp only [readYear_padded d.year_lt, Option.bind_eq_bind, Option.bind_some]
  split
  · next hweek => exact absurd (List.cons.inj hweek).1 (ne_of_isDigit hc (by decide))
  · simp only [hmonth, Option.bind_some, if_true, afterHyphen?, hday]
    exact d.ofParts?_self

/-- Whether the text of an offset stands for the offset itself: it is that of UTC, or a second away
at least. -/
def Offset.IsReadable (o : Offset) : Prop := o = .utc ∨ microsPerSecond ≤ o.micros.natAbs

/-- The offset that the text of an offset stands for. -/
def Offset.readBack (o : Offset) : Offset := if microsPerSecond ≤ o.micros.natAbs then o else .utc

theorem Offset.readBack_eq_self_iff {o : Offset} : o.readBack = o ↔ o.IsReadable := by
  unfold readBack IsReadable
  split
  · next hlarge => simp [hlarge]
  · next hsmall => simp [hsmall, eq_comm]

/-- The time that the text of a time stands for. -/
def Time.readBack (t : Time) : Time := { t with offset := t.offset.map (·.readBack) }

/-- The date-time that the text of a date-time stands for. -/
def DateTime.readBack (d : DateTime) : DateTime := { d with time := d.time.readBack }

/-- A date-time is lost in its text only by its offset. -/
theorem DateTime.readBack_eq_self_iff {d : DateTime} :
    d.readBack = d ↔ ∀ o, d.time.offset = some o → o.IsReadable := by
  obtain ⟨date, clock, offset⟩ := d
  simp only [readBack, Time.readBack, mk.injEq, Time.mk.injEq, true_and]
  cases offset with
  | none => simp
  | some o => simp [Offset.readBack_eq_self_iff]

/-- The reading of the text of an offset, behind its sign. -/
def Offset.reading (o : Offset) : Iso.Reading :=
  let seconds := o.micros.natAbs / microsPerSecond
  ⟨seconds / 3600, seconds / 60 % 60, seconds % 60, o.micros.natAbs % microsPerSecond, false⟩

namespace Iso

theorem readClock_text (t : TimeOfDay) :
    readClock t.text = some ⟨t.hour, t.minute, t.second, t.micro, false⟩ := by
  have hhour := t.hour_lt
  have hminute := t.minute_lt
  have hsecond := t.second_lt
  rw [TimeOfDay.text, TimeOfDay.secondsText]
  simp only [List.append_assoc, List.cons_append]
  exact readClock_seconds (by omega) (by omega) (by omega) t.micro_lt

theorem readClock_offset (o : Offset) :
    ∃ cs, o.text = (if o.micros < 0 then '-' else '+') :: cs ∧ readClock cs = some o.reading := by
  have hday := o.lt_day
  have hmicro : o.micros.natAbs % microsPerSecond < microsPerSecond := Nat.mod_lt _ (by decide)
  have hhour : o.micros.natAbs / microsPerSecond / 3600 < 100 := by
    unfold microsPerDay microsPerSecond at *
    omega
  refine ⟨_, rfl, ?_⟩
  unfold Offset.reading
  dsimp only
  split
  · next hzero =>
    rw [hzero.1, hzero.2, List.append_nil]
    exact readClock_minutes hhour (by omega)
  · simp only [List.append_assoc, List.cons_append]
    exact readClock_seconds hhour (by omega) (by omega) hmicro

theorem offset?_reading (o : Offset) :
    o.reading.offset? (decide (o.micros < 0)) = some o.readBack := by
  have hseconds : (o.reading.hour * 60 + o.reading.minute) * 60 + o.reading.second
      = o.micros.natAbs / microsPerSecond := by
    unfold Offset.reading
    dsimp only
    omega
  unfold Reading.offset? Offset.readBack
  rw [hseconds]
  dsimp only
  split
  · next hzero =>
    have hsmall := Nat.lt_of_div_eq_zero (by decide) hzero
    rw [if_neg (Nat.not_le_of_gt hsmall)]
  · next hseconds =>
    have hlarge : microsPerSecond ≤ o.micros.natAbs :=
      Nat.le_of_not_lt fun hsmall => hseconds (Nat.div_eq_of_lt hsmall)
    have hmicros : (if decide (o.micros < 0) = true then
          -((o.micros.natAbs / microsPerSecond : Nat) * (microsPerSecond : Int) + o.reading.micro)
        else (o.micros.natAbs / microsPerSecond : Nat) * (microsPerSecond : Int) + o.reading.micro)
          = o.micros := by
      unfold Offset.reading microsPerSecond
      dsimp only
      split
      · next hnegative =>
        have := of_decide_eq_true hnegative
        omega
      · next hpositive =>
        rw [decide_eq_true_iff] at hpositive
        omega
    rw [hmicros, if_pos hlarge]
    exact dif_pos o.lt_day

/-- The text of a clock ends where an offset starts. -/
theorem splitOffset (rest : List Char) (h : ∀ c ∈ rest.head?, startsOffset c = true)
    (t : TimeOfDay) :
    (t.text ++ rest).takeWhile (!startsOffset ·) = t.text
      ∧ (t.text ++ rest).dropWhile (!startsOffset ·) = rest := by
  have hdigit : ∀ c, isDigit c = true → (!startsOffset c) = true := by
    intro c hc
    simp only [startsOffset, Bool.not_eq_true', Bool.or_eq_false_iff, beq_eq_false_iff_ne]
    exact ⟨⟨ne_of_isDigit hc (by decide), ne_of_isDigit hc (by decide)⟩,
      ne_of_isDigit hc (by decide)⟩
  have hclock := List.all_eq_true.1 (t.all_text hdigit rfl rfl)
  refine takeWhile_dropWhile_run hclock fun c r hrest => ?_
  subst hrest
  simp [h c rfl]

theorem time?_text (t : Time) : time? t.text = some t.readBack := by
  obtain ⟨clock, offset⟩ := t
  cases offset with
  | none =>
    have hsplit := splitOffset [] (fun _ hc => nomatch hc) clock
    unfold time? Time.text
    dsimp only
    rw [hsplit.1, hsplit.2, readClock_text]
    simp [Time.readBack]
  | some o =>
    obtain ⟨cs, htext, hread⟩ := readClock_offset o
    have hoffset := offset?_reading o
    have hsign : startsOffset (if o.micros < 0 then '-' else '+') = true := by split <;> rfl
    have hsplit := splitOffset o.text
      (by rw [htext]; rintro c ⟨⟩; exact hsign) clock
    unfold time? Time.text
    dsimp only
    rw [hsplit.1, hsplit.2, readClock_text, htext]
    have hstray : o.reading.stray = false := rfl
    by_cases hnegative : o.micros < 0
    · rw [decide_eq_true hnegative] at hoffset
      simp [hnegative, hread, hstray, hoffset, Time.readBack]
    · rw [decide_eq_false hnegative] at hoffset
      simp [hnegative, hread, hstray, hoffset, Time.readBack]

theorem dateLength_text (d : Date) {rest : List Char} : dateLength (d.text ++ rest) = 10 := by
  have hyear := length_paddedDigits 4 (by decide) d.year_lt
  obtain ⟨c, r, hr, hc⟩ := exists_head_paddedDigits 2 d.month ('-' :: paddedDigits 2 d.day ++ rest)
  have htext : d.text ++ rest = paddedDigits 4 d.year ++ '-' :: c :: r := by
    rw [← hr, Date.text]
    simp
  have hlength : (d.text ++ rest).length ≠ 7 := by
    rw [List.length_append, d.length_text]
    omega
  have hhyphen : (d.text ++ rest)[4]? = some '-' := by
    simp [htext, hyear]
  have hnoWeek : (d.text ++ rest)[5]? ≠ some 'W' := by
    rw [htext, List.getElem?_append_right (by omega), hyear]
    intro hweek
    exact ne_of_isDigit hc (by decide) (Option.some.inj hweek)
  rw [dateLength, if_neg hlength, if_pos hhyphen, if_neg hnoWeek]

theorem dateTime?_text (d : DateTime) : dateTime? d.text = some d.readBack := by
  unfold dateTime? DateTime.text DateTime.textWith
  rw [dateLength_text]
  dsimp only
  rw [← d.date.length_text, List.take_left, List.drop_left, date?_text]
  simp [time?_text, DateTime.readBack]

end Iso

/-! ### What is read -/

namespace Iso

theorem micros_of_ofMicros? {m : Int} {o : Offset} (h : Offset.ofMicros? m = some o) :
    o.micros = m := by
  unfold Offset.ofMicros? at h
  split at h
  · cases h
    rfl
  · cases h

/-- No offset of less than a second is read. -/
theorem isReadable_of_offset? {r : Reading} {negative : Bool} {o : Offset}
    (h : r.offset? negative = some o) : o.IsReadable := by
  unfold Reading.offset? at h
  dsimp only at h
  split at h
  · cases h
    exact .inl rfl
  · next hseconds =>
    have hmicros := micros_of_ofMicros? h
    refine .inr ?_
    rw [hmicros]
    unfold microsPerSecond
    split <;> omega

theorem isReadable_of_time? {cs : List Char} {t : Time} (h : time? cs = some t) :
    ∀ o, t.offset = some o → o.IsReadable := by
  intro o ho
  unfold time? at h
  obtain ⟨reading, -, h⟩ := Option.bind_eq_some_iff.1 h
  dsimp only at h
  split at h
  · split at h
    · cases h
    · obtain ⟨clock, -, h⟩ := Option.bind_eq_some_iff.1 h
      cases h
      cases ho
  · split at h
    · obtain ⟨clock, -, h⟩ := Option.bind_eq_some_iff.1 h
      cases h
      cases ho
      exact .inl rfl
    · cases h
  · obtain ⟨offset, -, h⟩ := Option.bind_eq_some_iff.1 h
    split at h
    · cases h
    · obtain ⟨clock, -, h⟩ := Option.bind_eq_some_iff.1 h
      obtain ⟨o', hoffset, h⟩ := Option.bind_eq_some_iff.1 h
      cases h
      cases ho
      exact isReadable_of_offset? hoffset

theorem isReadable_of_dateTime? {cs : List Char} {d : DateTime} (h : dateTime? cs = some d) :
    ∀ o, d.time.offset = some o → o.IsReadable := by
  intro o ho
  unfold dateTime? at h
  obtain ⟨date, -, h⟩ := Option.bind_eq_some_iff.1 h
  split at h
  · cases h
    cases ho
  · obtain ⟨time, htime, h⟩ := Option.bind_eq_some_iff.1 h
    cases h
    exact isReadable_of_time? htime o ho

end Iso

namespace Entry

theorem isReadable_of_timestamp? {cs : List Char} {d : DateTime} (h : timestamp? cs = some d) :
    ∀ o, d.time.offset = some o → o.IsReadable := by
  intro o ho
  unfold timestamp? at h
  obtain ⟨cs, -, h⟩ := Option.bind_eq_some_iff.1 h
  rcases (Option.orElse_eq_some ..).1 h with h | ⟨-, h⟩
  · exact Iso.isReadable_of_dateTime? h o ho
  · rcases (Option.orElse_eq_some ..).1 h with h | ⟨-, h⟩
    · -- the customary patterns have no offset
      obtain ⟨p, -, hp⟩ := List.exists_of_findSome?_eq_some h
      obtain ⟨fields, -, h⟩ := Option.bind_eq_some_iff.1 hp
      obtain ⟨date, -, h⟩ := Option.bind_eq_some_iff.1 h
      obtain ⟨clock, -, h⟩ := Option.bind_eq_some_iff.1 h
      cases h
      cases ho
    · obtain ⟨date, -, rfl⟩ := Option.map_eq_some_iff.1 h
      cases ho

theorem date?_text (d : Date) : date? d.text = some d := by
  obtain ⟨c, r, hr, hc⟩ := exists_head_paddedDigits 4 d.year
    ('-' :: paddedDigits 2 d.month ++ '-' :: paddedDigits 2 d.day)
  have hentered : entered? d.text = some d.text := by
    refine entered?_of_digit (by rw [← hr, Date.text, List.append_assoc]) hc ?_
    exact d.all_text (fun c hc => by simp [isBlank_of_isDigit hc]) rfl
  unfold date? dateOf?
  rw [hentered]
  simp [Iso.date?_text]

theorem time?_secondsText (t : TimeOfDay) :
    time? t.secondsText = some ⟨t.wholeSecond, none⟩ := by
  obtain ⟨c, r, hr, hc⟩ := exists_head_paddedDigits 2 t.hour
    (':' :: paddedDigits 2 t.minute ++ ':' :: paddedDigits 2 t.second)
  have hhead : t.secondsText = c :: r := by
    rw [← hr, TimeOfDay.secondsText, List.append_assoc]
  have hentered : entered? t.secondsText = some t.secondsText :=
    entered?_of_digit hhead hc (t.all_secondsText (fun c hc => by simp [isBlank_of_isDigit hc]) rfl)
  have htext : t.secondsText = Time.text ⟨t.wholeSecond, none⟩ := by
    have hfraction : fractionText t.wholeSecond.micro = [] := rfl
    simp [Time.text, TimeOfDay.text, hfraction]
    rfl
  have hlead : Iso.leadTime? t.secondsText = Iso.time? t.secondsText := by
    rw [hhead]
    unfold Iso.leadTime?
    split
    · next hT => exact absurd (List.cons.inj hT).1 (ne_of_isDigit hc (by decide))
    · rfl
  unfold time?
  rw [hentered]
  simp only [Option.bind_eq_bind, Option.bind_some, hlead]
  have hread : Iso.time? (Time.text ⟨t.wholeSecond, none⟩) = some ⟨t.wholeSecond, none⟩ :=
    Iso.time?_text _
  rw [htext, hread]
  rfl

theorem timestamp?_text (d : DateTime) : timestamp? d.text = some d.readBack := by
  obtain ⟨c, r, hr, hc⟩ := exists_head_paddedDigits 4 d.date.year
    ('-' :: paddedDigits 2 d.date.month ++ '-' :: paddedDigits 2 d.date.day ++ 'T' :: d.time.text)
  have hhead : d.text = c :: r := by
    rw [← hr, DateTime.text, DateTime.textWith, Date.text]
    simp
  have hentered : entered? d.text = some d.text :=
    entered?_of_digit hhead hc
      (d.all_text (fun c hc => by simp [isBlank_of_isDigit hc]) rfl rfl rfl rfl rfl)
  unfold timestamp?
  rw [hentered]
  simp [Iso.dateTime?_text]

end Entry

/-- A canonical text is its own canonical text. -/
theorem canonical?_canonical {dataType : String} {cs out : List Char}
    (h : canonical? dataType cs = some out) : canonical? dataType out = some out := by
  unfold canonical? at h ⊢
  cases hkind : Kind.ofType dataType with
  | date =>
    simp only [hkind] at h ⊢
    obtain ⟨d, -, rfl⟩ := Option.map_eq_some_iff.1 h
    rw [Entry.date?_text]
    rfl
  | time =>
    simp only [hkind] at h ⊢
    obtain ⟨t, -, rfl⟩ := Option.map_eq_some_iff.1 h
    rw [Entry.time?_secondsText]
    rfl
  | timestamp =>
    simp only [hkind] at h ⊢
    obtain ⟨d, hd, rfl⟩ := Option.map_eq_some_iff.1 h
    have hself := DateTime.readBack_eq_self_iff.2 (Entry.isReadable_of_timestamp? hd)
    rw [Entry.timestamp?_text, hself]
    rfl
  | _ => rfl

end StagedTable
