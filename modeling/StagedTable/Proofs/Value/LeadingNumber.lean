import StagedTable.Proofs.Number.Rounding
import StagedTable.Proofs.Value.LeadingInteger

/-!
# Leading numbers

A text is entered in a column of numbers, and what it starts with is taken for the number. The
numerals are given by a grammar (`Numeral.IsWritten`) beside their reader, and the reader is shown
to find the longest one that a text starts with (`leadingNumeral_iff`). Two facts make this up:
what is read is a numeral (`exists_written`), and reading does not stop before the end of any
numeral (`read_append`).

Parsing in a column of integers or of doubles gives the value of the leading number, the double
being the nearest one to it, and otherwise the text as it was entered (`parse_leadingNumber`).
-/

namespace StagedTable

open Text
open Value (IsSign OpensNumber LeadingInteger IsNullText LeadsTooLong)

/-- The integer that digits stand for behind a sign. -/
def Text.ofSignedDigits (negative : Bool) (ds : List Char) : Int :=
  if negative then -(ofDigits ds : Int) else ofDigits ds

namespace Numeral

/-! ### Numerals as they are written -/

/-- Whether a text is digits, or digits around a point, given those before the point and those
behind it. The point has a digit on one side at least. -/
inductive IsPlaces : List Char → List Char → List Char → Prop
  | whole {whole : List Char} : whole ≠ [] → (∀ c ∈ whole, isDigit c = true) →
      IsPlaces whole [] whole
  | point {whole fraction : List Char} : (∀ c ∈ whole, isDigit c = true) →
      (∀ c ∈ fraction, isDigit c = true) → whole ≠ [] ∨ fraction ≠ [] →
      IsPlaces whole fraction (whole ++ '.' :: fraction)

/-- Whether a text is an exponent of a value: an `e` in either case, a sign or none, and digits. No
text is the exponent zero. -/
inductive IsExponent : Int → List Char → Prop
  | none : IsExponent 0 []
  | written {e : Char} {negative : Bool} {sign ds : List Char} : e = 'e' ∨ e = 'E' →
      IsSign negative sign → ds ≠ [] → (∀ c ∈ ds, isDigit c = true) →
      IsExponent (ofSignedDigits negative ds) (e :: (sign ++ ds))

/-- Whether a numeral is written as a text: a sign or none, digits with a point or without, and an
exponent or none. -/
inductive IsWritten : Numeral → List Char → Prop
  | intro {negative : Bool} {whole fraction : List Char} {exponent : Int}
      {sign places tail : List Char} : IsSign negative sign → IsPlaces whole fraction places →
      IsExponent exponent tail →
      IsWritten ⟨negative, whole, fraction, exponent⟩ (sign ++ (places ++ tail))

/-- The magnitude of the number that is written. -/
def magnitude (n : Numeral) : ℚ :=
  (ofDigits n.whole + ofDigits n.fraction / 10 ^ n.fraction.length) * (10 : ℚ) ^ n.exponent

/-- A numeral is read as the double that is the nearest one to the number written. -/
theorem toDouble_eq_iff {n : Numeral} {x : Double} :
    n.toDouble = x ↔ x.IsNearest n.negative n.magnitude := by
  have hvalue : n.magnitude
      = Scaled.value ⟨ofDigits (n.whole ++ n.fraction), n.exponent - n.fraction.length⟩ := by
    have hten : (10 : ℚ) ^ n.fraction.length ≠ 0 := by positivity
    rw [magnitude, Scaled.value, ofDigits_append, zpow_sub₀ (by norm_num), zpow_natCast]
    push_cast
    field_simp
  rw [hvalue, ← Double.ofDecimal_eq_iff]
  rfl

/-! ### What is read is a numeral -/

theorem exists_places {cs whole fraction rest : List Char}
    (h : readPlaces cs = some ((whole, fraction), rest)) :
    ∃ places, IsPlaces whole fraction places ∧ cs = places ++ rest := by
  obtain ⟨ds, after, rfl, hds, hafter⟩ := exists_run cs
  by_cases hpoint : ∃ r, after = '.' :: r
  · obtain ⟨r, rfl⟩ := hpoint
    obtain ⟨es, after, rfl, hes, hend⟩ := exists_run r
    by_cases hne : ds ≠ [] ∨ es ≠ []
    · rw [readPlaces_point hds hes hne hend] at h
      cases h
      exact ⟨_, .point hds hes hne, by simp⟩
    · simp only [not_or, not_not] at hne
      obtain ⟨rfl, rfl⟩ := hne
      have hnone := readPlaces_none hafter fun r e => (List.cons.inj e).2 ▸ hend
      rw [List.nil_append, hnone] at h
      cases h
  · have hpoint : ∀ r, after ≠ '.' :: r := fun r e => hpoint ⟨r, e⟩
    cases ds with
    | nil =>
      rw [List.nil_append, readPlaces_none hafter fun r e => absurd e (hpoint r)] at h
      cases h
    | cons c tail =>
      have hne : c :: tail ≠ [] := List.cons_ne_nil _ _
      rw [readPlaces_whole hds hne hafter hpoint] at h
      cases h
      exact ⟨_, .whole hne hds, rfl⟩

theorem exists_exponent {cs rest : List Char} {x : Int} (h : readExponent cs = (x, rest)) :
    ∃ tail, IsExponent x tail ∧ cs = tail ++ rest := by
  unfold readExponent at h
  cases hread : readExponent? cs with
  | none =>
    rw [hread] at h
    cases h
    exact ⟨[], .none, rfl⟩
  | some read =>
    rw [hread, Option.getD_some] at h
    subst h
    cases cs with
    | nil => cases hread
    | cons e r =>
      rw [readExponent?] at hread
      split at hread
      · next he =>
        have he : e = 'e' ∨ e = 'E' := by simpa using he
        obtain ⟨sign, hsign, hr⟩ := Value.exists_isSign r
        generalize readSign r = signed at hread hsign hr
        obtain ⟨negative, r'⟩ := signed
        dsimp only at hread hsign hr
        split at hread
        · cases hread
        · next ds after hne hrun =>
          cases hread
          obtain ⟨rfl, hds, -⟩ := of_digitRun hrun
          exact ⟨_, .written he hsign hne hds, by simp [hr]⟩
      · cases hread

/-- What is read as a numeral is one. -/
theorem exists_written {cs rest : List Char} {n : Numeral} (h : read cs = some (n, rest)) :
    ∃ text, n.IsWritten text ∧ cs = text ++ rest := by
  unfold read at h
  obtain ⟨sign, hsign, hcs⟩ := Value.exists_isSign cs
  generalize readSign cs = signed at h hsign hcs
  obtain ⟨negative, r⟩ := signed
  dsimp only at h hsign hcs
  split at h
  · cases h
  · next whole fraction after hread =>
    obtain ⟨places, hplaces, rfl⟩ := exists_places hread
    cases hexponent : readExponent after with
    | mk exponent left =>
      rw [hexponent] at h
      cases h
      obtain ⟨tail, htail, rfl⟩ := exists_exponent hexponent
      exact ⟨_, .intro hsign hplaces htail, by simp [hcs]⟩

/-! ### Reading stops before the end of no numeral -/

theorem readPlaces_append {whole fraction places : List Char}
    (h : IsPlaces whole fraction places) (rest : List Char) :
    ∃ digits more after, rest = more ++ after ∧ readPlaces (places ++ rest) = some (digits, after)
      ∧ (∀ c ∈ more, isDigit c = true ∨ c = '.') ∧ (more = [] → digits = (whole, fraction)) := by
  cases h with
  | whole hne hwhole =>
    obtain ⟨more, after, rfl, hall, hafter⟩ := exists_longer_run hwhole rest
    have hmore : ∀ c ∈ more, isDigit c = true := fun c hc => hall c (List.mem_append_right _ hc)
    have hne : whole ++ more ≠ [] := List.append_ne_nil_of_left_ne_nil hne more
    rw [← List.append_assoc]
    by_cases hpoint : ∃ r, after = '.' :: r
    · -- a point that follows is part of the numeral, with the digits behind it
      obtain ⟨r, rfl⟩ := hpoint
      obtain ⟨fraction, after, rfl, hfraction, hafter⟩ := exists_run r
      refine ⟨(whole ++ more, fraction), more ++ '.' :: fraction, after, by simp,
        readPlaces_point hall hfraction (.inl hne) hafter, ?_, fun e => by simp at e⟩
      simp only [List.mem_append, List.mem_cons]
      rintro c (hc | rfl | hc)
      · exact .inl (hmore c hc)
      · exact .inr rfl
      · exact .inl (hfraction c hc)
    · have hread := readPlaces_whole hall hne hafter fun r e => hpoint ⟨r, e⟩
      refine ⟨(whole ++ more, []), more, after, rfl, hread, fun c hc => .inl (hmore c hc), ?_⟩
      rintro rfl
      rw [List.append_nil]
  | point hwhole hfraction hne =>
    obtain ⟨more, after, rfl, hall, hafter⟩ := exists_longer_run hfraction rest
    have hmore : ∀ c ∈ more, isDigit c = true := fun c hc => hall c (List.mem_append_right _ hc)
    have hne : whole ≠ [] ∨ fraction ++ more ≠ [] :=
      hne.imp_right (List.append_ne_nil_of_left_ne_nil · more)
    have hread := readPlaces_point hwhole hall hne hafter
    refine ⟨(whole, fraction ++ more), more, after, rfl, ?_, fun c hc => .inl (hmore c hc), ?_⟩
    · rw [← hread]
      simp
    · rintro rfl
      rw [List.append_nil]

theorem readExponent_append {x : Int} {tail : List Char} (h : IsExponent x tail)
    (rest : List Char) :
    ∃ y more after, rest = more ++ after ∧ readExponent (tail ++ rest) = (y, after)
      ∧ (more = [] → y = x) := by
  cases h with
  | none =>
    obtain ⟨y, after, hread⟩ : ∃ y after, readExponent rest = (y, after) := ⟨_, _, rfl⟩
    obtain ⟨more, hmore, rfl⟩ := exists_exponent hread
    refine ⟨y, more, after, rfl, hread, ?_⟩
    rintro rfl
    cases hmore
    rfl
  | @written e negative sign ds he hsign hne hds =>
    obtain ⟨more, after, rfl, hall, hafter⟩ := exists_longer_run hds rest
    have hne : ds ++ more ≠ [] := List.append_ne_nil_of_left_ne_nil hne more
    have hletter : (e == 'e' || e == 'E') = true := by simpa using he
    have hread : readExponent (e :: (sign ++ ((ds ++ more) ++ after)))
        = (ofSignedDigits negative (ds ++ more), after) := by
      rw [readExponent, readExponent?, if_pos hletter,
        Value.readSign_of_isSign hsign (Value.opensNumber_digits hne hall after)]
      dsimp only
      rw [digitRun_of_digits hall hafter]
      obtain ⟨c, r, hcons⟩ := List.exists_cons_of_ne_nil hne
      rw [hcons]
      rfl
    refine ⟨ofSignedDigits negative (ds ++ more), more, after, rfl, ?_, ?_⟩
    · rw [← hread]
      simp
    · rintro rfl
      rw [List.append_nil]

theorem opensNumber_places {whole fraction places : List Char}
    (h : IsPlaces whole fraction places) (rest : List Char) : OpensNumber (places ++ rest) := by
  cases h with
  | whole hne hwhole => exact Value.opensNumber_digits hne hwhole rest
  | point hwhole _ _ =>
    cases whole with
    | nil => exact ⟨'.', _, rfl, .inr rfl⟩
    | cons c r => exact ⟨c, _, rfl, .inl (hwhole c (.head _))⟩

/-- Digits and points do not go on into an exponent. -/
theorem eq_nil_of_exponent {x : Int} {tail more after rest : List Char} (h : IsExponent x tail)
    (hsplit : tail ++ rest = more ++ after) (hmore : ∀ c ∈ more, isDigit c = true ∨ c = '.') :
    more = [] ∨ tail = [] := by
  cases h with
  | none => exact .inr rfl
  | written he =>
    cases more with
    | nil => exact .inl rfl
    | cons c r =>
      obtain ⟨rfl, -⟩ := List.cons.inj hsplit
      rcases he with rfl | rfl <;> exact absurd (hmore _ (.head _)) (by decide)

/-- Of a numeral and what follows it, the numeral is read at least. If nothing more is read, it is
read as what it is. -/
theorem read_append {n : Numeral} {text : List Char} (h : n.IsWritten text) (rest : List Char) :
    ∃ m more after, rest = more ++ after ∧ read (text ++ rest) = some (m, after)
      ∧ (more = [] → m = n) := by
  cases h with
  | @intro negative whole fraction exponent sign places tail hsign hplaces htail =>
    have hsigned := Value.readSign_of_isSign hsign (opensNumber_places hplaces (tail ++ rest))
    obtain ⟨digits, more, after, hsplit, hdigits, hmore, hsame⟩ :=
      readPlaces_append hplaces (tail ++ rest)
    have hread {x : Int} {after' : List Char} (hx : readExponent after = (x, after')) :
        read (sign ++ (places ++ tail) ++ rest)
          = some (⟨negative, digits.1, digits.2, x⟩, after') := by
      have htext : sign ++ (places ++ tail) ++ rest = sign ++ (places ++ (tail ++ rest)) := by simp
      rw [read, htext, hsigned]
      dsimp only
      rw [hdigits]
      dsimp only
      rw [hx]
    rcases eq_nil_of_exponent htail hsplit hmore with rfl | rfl
    · obtain ⟨x, more, after', rfl, hx, hexponent⟩ := readExponent_append htail rest
      rw [hsplit, List.nil_append] at hx
      refine ⟨_, more, after', rfl, hread hx, fun e => ?_⟩
      rw [hsame rfl, hexponent e]
    · rw [List.nil_append] at hsplit
      obtain ⟨x, more', after', rfl, hx, hexponent⟩ := readExponent_append htail after
      refine ⟨_, more ++ more', after', by rw [hsplit, List.append_assoc], hread hx, fun e => ?_⟩
      obtain ⟨hmore, hmore'⟩ := List.append_eq_nil_iff.1 e
      rw [hsame hmore, hexponent hmore']

/-- A numeral starts with a sign, a digit or a point. -/
theorem IsWritten.dropWhile_blank {n : Numeral} {text : List Char} (h : n.IsWritten text)
    (rest : List Char) : (text ++ rest).dropWhile isAsciiBlank = text ++ rest := by
  cases h with
  | @intro negative whole fraction exponent sign places tail hsign hplaces htail =>
    have hopens := opensNumber_places hplaces (tail ++ rest)
    have htext : sign ++ (places ++ tail) ++ rest = sign ++ (places ++ (tail ++ rest)) := by simp
    rw [htext]
    exact Value.dropWhile_blank_sign hsign hopens

end Numeral

/-! ### The longest numeral -/

/-- Whether a text starts with a part, white space aside. -/
def LedBy (cs part : List Char) : Prop :=
  ∃ blanks rest, cs = blanks ++ (part ++ rest) ∧ ∀ c ∈ blanks, isAsciiBlank c = true

/-- Whether a numeral is the longest one that a text starts with, white space aside. -/
def LeadingNumeral (cs : List Char) (n : Numeral) : Prop :=
  ∃ part, LedBy cs part ∧ n.IsWritten part
    ∧ ∀ (m : Numeral) other, LedBy cs other → m.IsWritten other → other.length ≤ part.length

/-- Behind the white space that is dropped there is the numeral that a text starts with. -/
theorem Numeral.IsWritten.exists_rest {n : Numeral} {cs part : List Char} (h : n.IsWritten part)
    (hled : LedBy cs part) : ∃ rest, cs.dropWhile isAsciiBlank = part ++ rest := by
  obtain ⟨blanks, rest, rfl, hblanks⟩ := hled
  exact ⟨rest, by rw [List.dropWhile_append_of_pos hblanks, h.dropWhile_blank]⟩

theorem ledBy_dropWhile {cs part rest : List Char}
    (h : cs.dropWhile isAsciiBlank = part ++ rest) : LedBy cs part :=
  ⟨cs.takeWhile isAsciiBlank, rest, by rw [← h, List.takeWhile_append_dropWhile],
    fun _ => List.mem_takeWhile_imp⟩

/-- The reader finds the longest numeral that a text starts with. -/
theorem leadingNumeral_iff {cs : List Char} {n : Numeral} :
    LeadingNumeral cs n ↔ ∃ rest, Numeral.read (cs.dropWhile isAsciiBlank) = some (n, rest) := by
  constructor
  · rintro ⟨part, hled, hwritten, hlongest⟩
    obtain ⟨rest, hrest⟩ := hwritten.exists_rest hled
    obtain ⟨m, more, after, rfl, hread, hsame⟩ := Numeral.read_append hwritten rest
    rw [← hrest] at hread
    obtain ⟨text, htext, hcs⟩ := Numeral.exists_written hread
    -- what is read is a numeral at the start, so it is no longer than the longest one
    have hle := hlongest m text (ledBy_dropWhile hcs) htext
    have hlength := congrArg List.length (hrest.symm.trans hcs)
    simp only [List.length_append] at hlength
    have hmore : more = [] := List.length_eq_zero_iff.1 (by omega)
    exact ⟨after, hsame hmore ▸ hread⟩
  · rintro ⟨rest, hread⟩
    obtain ⟨part, hwritten, hcs⟩ := Numeral.exists_written hread
    refine ⟨part, ledBy_dropWhile hcs, hwritten, fun m other hled hother => ?_⟩
    obtain ⟨rest', hrest⟩ := hother.exists_rest hled
    obtain ⟨m', more, after, rfl, hread', -⟩ := Numeral.read_append hother rest'
    rw [← hrest, hread] at hread'
    cases hread'
    have hlength := congrArg List.length (hrest.symm.trans hcs)
    simp only [List.length_append] at hlength
    omega

/-- What follows a point or a letter decides whether it is part of the numeral. -/
example : (["1.", "1.e5", "1e+", ".5e3x", "-."].map fun s =>
      (Numeral.read s.toList).map fun read => String.ofList read.2)
    = [some "", some "", some "e+", some "x", none] := by decide

/-- A text that starts with some numeral starts with a longest one. -/
theorem exists_leadingNumeral {n : Numeral} {cs part : List Char} (hled : LedBy cs part)
    (h : n.IsWritten part) : ∃ m, LeadingNumeral cs m := by
  obtain ⟨rest, hrest⟩ := h.exists_rest hled
  obtain ⟨m, more, after, -, hread, -⟩ := Numeral.read_append h rest
  rw [← hrest] at hread
  exact ⟨m, leadingNumeral_iff.2 ⟨after, hread⟩⟩

/-! ### Parsing -/

namespace Value

/-- Whether a text stands for a value by the number that it starts with. In a column of integers
this is a sign or none and all the digits behind it, up to the limit on digits. In a column of
doubles it is the longest numeral, which stands for the double that is nearest to it. A text that
starts with no number, or with one that is too large for a double, stands for itself. -/
inductive StandsByNumber (text : String) : Kind → Value → Prop
  | integer {negative : Bool} {ds : List Char} : LeadingInteger text.toList negative ds →
      ds.length ≤ maxIntegerDigits →
      StandsByNumber text .integer (.int (ofSignedDigits negative ds))
  | noInteger : (∀ negative sign ds, IsSign negative sign → ds ≠ [] →
      (∀ c ∈ ds, isDigit c = true) → ¬ LedBy text.toList (sign ++ ds)) →
      StandsByNumber text .integer (.text text)
  | double {n : Numeral} {x : FiniteDouble} : LeadingNumeral text.toList n →
      (Double.finite x).IsNearest n.negative n.magnitude →
      StandsByNumber text .float (.float (.finite x))
  | tooLarge {n : Numeral} : LeadingNumeral text.toList n → overflowLimit ≤ n.magnitude →
      StandsByNumber text .float (.text text)
  | noNumeral : (∀ (n : Numeral) part, n.IsWritten part → ¬ LedBy text.toList part) →
      StandsByNumber text .float (.text text)

/-- A text that starts with a sign and digits starts with an integer, of all the digits. -/
theorem exists_leadingInteger {cs sign ds : List Char} {negative : Bool}
    (hled : LedBy cs (sign ++ ds)) (hsign : IsSign negative sign) (hne : ds ≠ [])
    (hds : ∀ c ∈ ds, isDigit c = true) : ∃ ds', LeadingInteger cs negative ds' := by
  obtain ⟨blanks, rest, rfl, hblanks⟩ := hled
  obtain ⟨more, after, rfl, hall, hafter⟩ := exists_longer_run hds rest
  exact ⟨ds ++ more, blanks, sign, after, by simp, hblanks, hsign,
    List.append_ne_nil_of_left_ne_nil hne more, hall, hafter⟩

theorem parseInteger_eq_ok_iff {text : String} {v : Value} :
    parseInteger text.toList = .ok v ↔ StandsByNumber text .integer v := by
  constructor
  · intro hparse
    by_cases h : ∃ negative ds, LeadingInteger text.toList negative ds
    · obtain ⟨negative, ds, hleading⟩ := h
      by_cases hshort : ds.length ≤ maxIntegerDigits
      · rw [parseInteger_of_short hleading hshort] at hparse
        cases hparse
        exact .integer hleading hshort
      · rw [parseInteger_of_tooLong ⟨negative, ds, hleading, Nat.lt_of_not_le hshort⟩] at hparse
        cases hparse
    · have hnone : ∀ negative ds, ¬ LeadingInteger text.toList negative ds :=
        fun negative ds hleading => h ⟨negative, ds, hleading⟩
      rw [parseInteger_of_not_leading hnone, String.ofList_toList] at hparse
      cases hparse
      refine .noInteger fun negative sign ds hsign hne hds hled => ?_
      obtain ⟨ds', hleading⟩ := exists_leadingInteger hled hsign hne hds
      exact hnone negative ds' hleading
  · intro h
    cases h with
    | integer hleading hshort => exact parseInteger_of_short hleading hshort
    | noInteger hnone =>
      rw [parseInteger_of_not_leading, String.ofList_toList]
      rintro negative ds ⟨blanks, sign, rest, hcs, hblanks, hsign, hne, hds, -⟩
      exact hnone negative sign ds hsign hne hds ⟨blanks, rest, by simp [hcs], hblanks⟩

theorem standsByNumber_parseFloat (text : String) :
    StandsByNumber text .float (parseFloat text.toList) := by
  unfold parseFloat
  rw [String.ofList_toList]
  split
  · next n rest hread =>
    have hleading : LeadingNumeral text.toList n := leadingNumeral_iff.2 ⟨rest, hread⟩
    have hnearest := Numeral.toDouble_eq_iff.1 (rfl : n.toDouble = n.toDouble)
    split
    · next x hx => exact .double hleading (hx ▸ hnearest)
    · next hx =>
      generalize n.toDouble = x at hnearest hx
      cases hnearest with
      | finite => exact absurd rfl (hx _)
      | infinite hlarge => exact .tooLarge hleading hlarge
  · next hread =>
    refine .noNumeral fun n part hwritten hled => ?_
    obtain ⟨m, hleading⟩ := exists_leadingNumeral hled hwritten
    obtain ⟨rest, hsome⟩ := leadingNumeral_iff.1 hleading
    rw [hread] at hsome
    cases hsome

theorem parseFloat_eq_iff {text : String} {v : Value} :
    parseFloat text.toList = v ↔ StandsByNumber text .float v := by
  constructor
  · rintro rfl
    exact standsByNumber_parseFloat text
  · intro h
    unfold parseFloat
    rw [String.ofList_toList]
    cases h with
    | double hleading hnearest =>
      obtain ⟨rest, hread⟩ := leadingNumeral_iff.1 hleading
      simp only [hread, Numeral.toDouble_eq_iff.2 hnearest]
    | tooLarge hleading hlarge =>
      obtain ⟨rest, hread⟩ := leadingNumeral_iff.1 hleading
      simp only [hread, Numeral.toDouble_eq_iff.2 (.infinite hlarge)]
    | noNumeral hnone =>
      split
      · next n rest hread =>
        obtain ⟨part, hwritten, hcs⟩ := Numeral.exists_written hread
        exact absurd (ledBy_dropWhile hcs) (hnone n part hwritten)
      · rfl

/-- Entered in a column of integers or of doubles, a text that does not stand for null is parsed as
the value that it stands for by the number that it starts with. There is such a value for every
text but one that starts with an integer of too many digits. -/
theorem parse_leadingNumber {text dataType : String} (hnull : ¬ IsNullText text.toList)
    (hkind : Kind.ofType dataType = .integer ∨ Kind.ofType dataType = .float) :
    (∀ v, parse text dataType = .ok v ↔ StandsByNumber text (Kind.ofType dataType) v)
      ∧ ((∃ v, parse text dataType = .ok v)
        ↔ ¬ (Kind.ofType dataType = .integer ∧ LeadsTooLong text.toList)) := by
  have hparse := parse_eq hnull dataType
  rw [String.ofList_toList] at hparse
  rcases hkind with hkind | hkind
  · rw [hkind] at hparse ⊢
    rw [hparse]
    refine ⟨fun v => parseInteger_eq_ok_iff, ?_, ?_⟩
    · rintro ⟨v, hv⟩ ⟨-, hlong⟩
      rw [parseInteger_of_tooLong hlong] at hv
      cases hv
    · intro hshort
      cases hvalue : parseInteger text.toList with
      | ok v => exact ⟨v, rfl⟩
      | error e => exact absurd ⟨rfl, (parseInteger_eq_error_iff.1 hvalue).2⟩ hshort
  · rw [hkind] at hparse ⊢
    rw [hparse]
    refine ⟨fun v => ?_, iff_of_true ⟨_, rfl⟩ fun h => nomatch h.1⟩
    rw [Except.ok.injEq]
    exact parseFloat_eq_iff

/-- The double of the number minus five hundred. -/
def minusFiveHundred : FiniteDouble :=
  ⟨true, 500 * 2 ^ 44, -44, by decide, by decide, by decide, .inl (by decide)⟩

/-- Of two entries with something behind the number, one has a sign, zeros and a point behind its
digits, and one a point before them and an exponent. -/
theorem parse_leadingNumber_entries :
    (Kind.ofType "bigint" = .integer ∧ StandsByNumber "\n+007.5" .integer (.int 7))
      ∧ Kind.ofType "double precision" = .float
      ∧ StandsByNumber " -.5E+3e" .float (.float (.finite minusFiveHundred)) := by
  have hinteger : Kind.ofType "bigint" = .integer := by decide +kernel
  have hfloat : Kind.ofType "double precision" = .float := by decide +kernel
  refine ⟨⟨hinteger, ?_⟩, hfloat, ?_⟩
  · have hnull : ¬ IsNullText "\n+007.5".toList :=
      not_isNullText_of_head (c := '\n') rfl (by decide)
    have h := (parse_leadingNumber hnull (.inl hinteger)).1 (.int 7)
    rw [hinteger] at h
    exact h.1 (by rfl)
  · have hnull : ¬ IsNullText " -.5E+3e".toList :=
      not_isNullText_of_head (c := ' ') rfl (by decide)
    have h := (parse_leadingNumber hnull (.inr hfloat)).1 (.float (.finite minusFiveHundred))
    rw [hfloat] at h
    exact h.1 (by rfl)

end Value

end StagedTable
