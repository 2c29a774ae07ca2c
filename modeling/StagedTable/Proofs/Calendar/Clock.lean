import StagedTable.Proofs.Calendar.Canonical
import StagedTable.Proofs.Text.Trimmed

/-!
# Reading times back

Of what is entered as a time the canonical text keeps the hour, the minute and the second, whatever
the form, and drops the offset. So it reads back as the time that was entered if and only if the
time has no offset, and whether it has one can be seen in the text: a sign or the letter for UTC
stands in it (`Entry.offset_eq_none_iff`). Entered times have the same canonical text exactly if
their clocks agree (`canonicalTime_keepsClock`).
-/

namespace StagedTable

open Text

/-! ### Patterns -/

/-- Whether no text that fits a piece of a pattern has a character in it. -/
def Piece.avoids (c : Char) : Piece → Bool
  | .field f => f.spellings.all (·.all (!· c))
  | .sign d => d != c
  | .gap => !isBlank c

section

variable {c : Char} {cs : List Char}

/-- A character that no class has is behind what is fitted to the classes. -/
theorem mem_of_fitClasses {spelling : List (Char → Bool)} {text rest : List Char}
    (hspelling : spelling.all (!· c) = true) (h : fitClasses spelling cs = some (text, rest))
    (hc : c ∈ cs) : c ∈ rest := by
  induction spelling generalizing cs text with
  | nil =>
    cases h
    exact hc
  | cons p ps ih =>
    rw [List.all_cons, Bool.and_eq_true, Bool.not_eq_true'] at hspelling
    cases cs with
    | nil => cases hc
    | cons d ds =>
      rw [fitClasses] at h
      split at h
      · next hp =>
        obtain ⟨⟨text', rest'⟩, hfit, hpair⟩ := Option.map_eq_some_iff.1 h
        cases hpair
        refine ih hspelling.2 hfit ((List.mem_cons.1 hc).resolve_left ?_)
        rintro rfl
        rw [hspelling.1] at hp
        cases hp
      · cases h

theorem mem_of_gapEnds (hblank : isBlank c = false) (hc : c ∈ cs) :
    ∀ rest ∈ gapEnds cs, c ∈ rest := by
  induction cs with
  | nil => cases hc
  | cons d ds ih =>
    intro rest hrest
    rw [gapEnds] at hrest
    split at hrest
    · next hd =>
      have hds : c ∈ ds := by
        refine (List.mem_cons.1 hc).resolve_left ?_
        rintro rfl
        rw [hblank] at hd
        cases hd
      rcases List.mem_append.1 hrest with hrest | hrest
      · exact ih hds rest hrest
      · rwa [List.mem_singleton.1 hrest]
    · cases hrest

/-- A character that no piece has is behind what is fitted to the pattern. -/
theorem mem_of_fitPattern {p : Pattern} {fields : Fields} {rest : List Char}
    (hp : p.all (·.avoids c) = true) (h : fitPattern p cs = some (fields, rest)) (hc : c ∈ cs) :
    c ∈ rest := by
  induction p generalizing cs fields with
  | nil =>
    cases h
    exact hc
  | cons piece p ih =>
    rw [List.all_cons, Bool.and_eq_true] at hp
    cases piece with
    | field f =>
      obtain ⟨spelling, hspelling, hfit⟩ := List.exists_of_findSome?_eq_some h
      split at hfit
      · next text ds hclasses =>
        obtain ⟨⟨fields', rest'⟩, hrest, hpair⟩ := Option.map_eq_some_iff.1 hfit
        cases hpair
        have hclear := List.all_eq_true.1 hp.1 spelling hspelling
        exact ih hp.2 hrest (mem_of_fitClasses hclear hclasses hc)
      · cases hfit
    | sign d =>
      cases cs with
      | nil => cases hc
      | cons e ds =>
        rw [fitPattern] at h
        split at h
        · next hde =>
          refine ih hp.2 h ((List.mem_cons.1 hc).resolve_left ?_)
          rintro rfl
          exact (bne_iff_ne.1 hp.1) hde
        · cases h
    | gap =>
      obtain ⟨ds, hds, hfit⟩ := List.exists_of_findSome?_eq_some h
      have hblank : isBlank c = false := by simpa [Piece.avoids] using hp.1
      exact ih hp.2 hfit (mem_of_gapEnds hblank hc ds hds)

theorem Pattern.not_mem_of_read {p : Pattern} {fields : Fields} (hp : p.all (·.avoids c) = true)
    (h : p.read cs = some fields) : c ∉ cs := by
  intro hc
  unfold Pattern.read at h
  split at h
  · next hfit => cases mem_of_fitPattern hp hfit hc
  · cases h

theorem Iso.startsOffset_iff : Iso.startsOffset c = true ↔ c = '+' ∨ c = '-' ∨ c = 'Z' := by
  simp [Iso.startsOffset, or_assoc]

/-- No customary form of a time has a character that leads in an offset. -/
theorem Entry.avoids_of_startsOffset (h : Iso.startsOffset c = true) :
    ∀ p ∈ timePatterns, p.all (·.avoids c) = true := by
  rcases Iso.startsOffset_iff.1 h with rfl | rfl | rfl <;> decide +kernel

/-! ### Offsets -/

theorem isBlank_of_startsOffset (h : Iso.startsOffset c = true) : isBlank c = false := by
  rcases Iso.startsOffset_iff.1 h with rfl | rfl | rfl <;> rfl

/-- A time has an offset exactly if a character of its text leads one in. -/
theorem Iso.offset_eq_none_iff {t : Time} (h : Iso.time? cs = some t) :
    t.offset = none ↔ ∀ c ∈ cs, Iso.startsOffset c = false := by
  have hclear : cs.dropWhile (!Iso.startsOffset ·) = []
      ↔ ∀ c ∈ cs, Iso.startsOffset c = false := by
    simp [List.dropWhile_eq_nil_iff]
  unfold Iso.time? at h
  obtain ⟨reading, -, h⟩ := Option.bind_eq_some_iff.1 h
  dsimp only at h
  rw [← hclear]
  split at h
  · next hnil =>
    split at h
    · cases h
    · obtain ⟨clock, -, h⟩ := Option.bind_eq_some_iff.1 h
      cases h
      exact iff_of_true rfl hnil
  · next hcons =>
    split at h
    · obtain ⟨clock, -, h⟩ := Option.bind_eq_some_iff.1 h
      cases h
      exact iff_of_false nofun (hcons ▸ nofun)
    · cases h
  · next hcons =>
    obtain ⟨offset, -, h⟩ := Option.bind_eq_some_iff.1 h
    split at h
    · cases h
    · obtain ⟨clock, -, h⟩ := Option.bind_eq_some_iff.1 h
      obtain ⟨o, -, h⟩ := Option.bind_eq_some_iff.1 h
      cases h
      exact iff_of_false nofun (hcons ▸ nofun)

end

namespace Entry

variable {cs : List Char} {t : Time}

/-- A time is entered in one of two ways: in an ISO form, of which what is below a second is cut
off, or in a customary form. -/
theorem time?_cases (h : time? cs = some t) :
    (∃ u, Iso.leadTime? (trim cs) = some u ∧ t = { u with clock := u.clock.wholeSecond })
    ∨ ∃ p ∈ timePatterns, ∃ fields, p.read (trim cs) = some fields
      ∧ ∃ clock, fields.clock? = some clock ∧ t = ⟨clock, none⟩ := by
  obtain ⟨ds, hentered, h⟩ := Option.bind_eq_some_iff.1 h
  have hds : ds = trim cs := by
    unfold entered? at hentered
    dsimp only at hentered
    split at hentered <;> cases hentered
    rfl
  subst hds
  rcases (Option.orElse_eq_some ..).1 h with h | ⟨-, h⟩
  · obtain ⟨u, hu, rfl⟩ := Option.map_eq_some_iff.1 h
    exact .inl ⟨u, hu, rfl⟩
  · obtain ⟨clock, hclock, rfl⟩ := Option.map_eq_some_iff.1 h
    obtain ⟨p, hp, hread⟩ := List.exists_of_findSome?_eq_some hclock
    obtain ⟨fields, hfields, hmade⟩ := Option.bind_eq_some_iff.1 hread
    exact .inr ⟨p, hp, fields, hfields, clock, hmade, rfl⟩

theorem wholeSecond_of_time? (h : time? cs = some t) : t.clock.wholeSecond = t.clock := by
  rcases time?_cases h with ⟨u, -, rfl⟩ | ⟨p, -, fields, -, clock, hclock, rfl⟩
  · rfl
  · unfold Fields.clock? TimeOfDay.ofParts? at hclock
    split at hclock <;> cases hclock
    rfl

/-- An entered time has an offset exactly if a character of the text leads one in. -/
theorem offset_eq_none_iff (h : time? cs = some t) :
    t.offset = none ↔ ∀ c ∈ cs, Iso.startsOffset c = false := by
  have htrim : (∀ c ∈ trim cs, Iso.startsOffset c = false)
      ↔ ∀ c ∈ cs, Iso.startsOffset c = false := by
    constructor
    · intro hclear c hc
      by_contra hstarts
      rw [Bool.not_eq_false] at hstarts
      rw [hclear c ((mem_trim_iff (isBlank_of_startsOffset hstarts)).2 hc)] at hstarts
      cases hstarts
    · exact fun hclear c hc => hclear c ((trim_isInfix cs).subset hc)
  rw [← htrim]
  rcases time?_cases h with ⟨u, hu, rfl⟩ | ⟨p, hp, fields, hread, clock, -, rfl⟩
  · show u.offset = none ↔ _
    unfold Iso.leadTime? at hu
    split at hu
    · next rest hrest =>
      rw [Iso.offset_eq_none_iff hu, hrest, List.forall_mem_cons]
      exact (and_iff_right rfl).symm
    · exact Iso.offset_eq_none_iff hu
  · -- what fits a customary form is free of such characters
    refine iff_of_true rfl fun c hc => ?_
    by_contra hstarts
    rw [Bool.not_eq_false] at hstarts
    exact Pattern.not_mem_of_read (avoids_of_startsOffset hstarts p hp) hread hc

end Entry

/-! ### Canonical times -/

variable {dataType : String} {cs : List Char} {t : Time}

theorem canonical?_time (hkind : Kind.ofType dataType = .time) (h : Entry.time? cs = some t) :
    canonical? dataType cs = some t.clock.secondsText := by
  unfold canonical?
  rw [hkind, h]
  rfl

/-- The canonical text of an entered time is read as the time without its offset. -/
theorem Entry.time?_canonical (h : time? cs = some t) :
    time? t.clock.secondsText = some { t with offset := none } := by
  rw [time?_secondsText, wholeSecond_of_time? h]

/-- Every text that is read as a time has a canonical text, which keeps the clock and drops the
offset: it is read as the time that was entered exactly if the text leads in no offset. Two texts
have the same canonical text exactly if their clocks agree. -/
theorem canonicalTime_keepsClock (hkind : Kind.ofType dataType = .time)
    (h : Entry.time? cs = some t) :
    (∃ out, canonical? dataType cs = some out
      ∧ Entry.time? out = some { t with offset := none }
      ∧ (Entry.time? out = some t ↔ ∀ c ∈ cs, Iso.startsOffset c = false))
    ∧ ∀ cs' t', Entry.time? cs' = some t' →
      (canonical? dataType cs = canonical? dataType cs' ↔ t.clock = t'.clock) := by
  have hread := Entry.time?_canonical h
  refine ⟨⟨_, canonical?_time hkind h, hread, ?_⟩, ?_⟩
  · rw [← Entry.offset_eq_none_iff h, hread, Option.some.injEq]
    obtain ⟨clock, offset⟩ := t
    simp [eq_comm]
  · intro cs' t' h'
    rw [canonical?_time hkind h, canonical?_time hkind h', Option.some.injEq]
    constructor
    · intro htext
      have hread' := Entry.time?_canonical h'
      rw [← htext, hread, Option.some.injEq] at hread'
      exact (Time.mk.inj hread').1
    · intro hclock
      rw [hclock]

/-- A time on the clock of twelve hours, and the same time with a fraction. -/
theorem canonicalTime_keepsClock_afternoon :
    Kind.ofType "time with time zone" = .time
    ∧ (∃ t out, Entry.time? " 2:30 pm ".toList = some t
      ∧ canonical? "time with time zone" " 2:30 pm ".toList = some out
      ∧ Entry.time? out = some t)
    ∧ canonical? "time with time zone" " 2:30 pm ".toList
      = canonical? "time with time zone" "14:30:00.7".toList := by
  have hkind : Kind.ofType "time with time zone" = .time := by decide +kernel
  obtain ⟨t, ht⟩ := Option.isSome_iff_exists.1
    (show (Entry.time? " 2:30 pm ".toList).isSome = true by decide +kernel)
  obtain ⟨u, hu⟩ := Option.isSome_iff_exists.1
    (show (Entry.time? "14:30:00.7".toList).isSome = true by decide +kernel)
  obtain ⟨⟨out, hout, -, hsame⟩, hequal⟩ := canonicalTime_keepsClock hkind ht
  have hclear : ∀ c ∈ " 2:30 pm ".toList, Iso.startsOffset c = false := by
    have hall : (" 2:30 pm ".toList.all (!Iso.startsOffset ·)) = true := by decide +kernel
    exact fun c hc => by simpa using List.all_eq_true.1 hall c hc
  refine ⟨hkind, ⟨t, out, ht, hout, hsame.2 hclear⟩, (hequal _ u hu).2 ?_⟩
  have hclock : (Entry.time? " 2:30 pm ".toList).map (·.clock)
      = (Entry.time? "14:30:00.7".toList).map (·.clock) := by decide +kernel
  rw [ht, hu] at hclock
  exact Option.some.inj hclock

/-- The offset of a time is read, but it is not in the canonical text, so that times of different
offsets have the same one. -/
theorem timeOffset_lost :
    Kind.ofType "time with time zone" = .time
    ∧ (Entry.time? "14:30+02:00".toList).isSome = true
    ∧ canonical? "time with time zone" "14:30+02:00".toList = some "14:30:00".toList
    ∧ Entry.time? "14:30:00".toList ≠ Entry.time? "14:30+02:00".toList
    ∧ Entry.time? "14:30+05:00".toList ≠ Entry.time? "14:30+02:00".toList
    ∧ canonical? "time with time zone" "14:30+05:00".toList
      = canonical? "time with time zone" "14:30+02:00".toList := by
  decide +kernel

end StagedTable
