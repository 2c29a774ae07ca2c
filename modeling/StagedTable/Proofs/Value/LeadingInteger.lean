import StagedTable.Proofs.Value.CellText

/-!
# Leading integers

A text in an integer column stands for the integer that it starts with: white space, a sign or none,
and all the digits behind it (`LeadingInteger`). The integer is read unless it has too many digits
(`LeadsTooLong`), and a text that starts with no integer stays as it is.
-/

namespace StagedTable

open Text

namespace Value

/-- Whether a text is a sign, and whether the sign makes a number negative. No text is one too. -/
inductive IsSign : Bool → List Char → Prop
  | none : IsSign false []
  | plus : IsSign false ['+']
  | minus : IsSign true ['-']

/-- Whether a text starts with an integer of a sign and of some digits: with white space, the sign
and the digits, behind which there are no more digits. -/
def LeadingInteger (cs : List Char) (negative : Bool) (ds : List Char) : Prop :=
  ∃ blanks sign rest, cs = blanks ++ (sign ++ (ds ++ rest)) ∧ (∀ c ∈ blanks, isAsciiBlank c = true)
    ∧ IsSign negative sign ∧ ds ≠ [] ∧ (∀ c ∈ ds, isDigit c = true) ∧ NoDigitAhead rest

/-- Whether a text starts with what a number has behind its sign: a digit or a point. -/
def OpensNumber (cs : List Char) : Prop := ∃ c r, cs = c :: r ∧ (isDigit c = true ∨ c = '.')

theorem opensNumber_digits {ds : List Char} (hne : ds ≠ []) (hds : ∀ c ∈ ds, isDigit c = true)
    (rest : List Char) : OpensNumber (ds ++ rest) := by
  obtain ⟨c, tail, rfl⟩ := List.exists_cons_of_ne_nil hne
  exact ⟨c, tail ++ rest, rfl, .inl (hds c (.head _))⟩

/-- Neither a digit nor a point is a sign. -/
theorem readSign_of_isSign {negative : Bool} {sign rest : List Char} (h : IsSign negative sign)
    (hopens : OpensNumber rest) : Numeral.readSign (sign ++ rest) = (negative, rest) := by
  cases h with
  | plus => rfl
  | minus => rfl
  | none =>
    obtain ⟨c, r, rfl, hc⟩ := hopens
    have hne (d : Char) (hd : isDigit d = false) (hpoint : d ≠ '.') : c ≠ d :=
      hc.elim (ne_of_isDigit · hd) fun h => h ▸ hpoint.symm
    rw [List.nil_append, Numeral.readSign]
    · intro _ e
      exact hne '+' (by decide) (by decide) (List.cons.inj e).1
    · intro _ e
      exact hne '-' (by decide) (by decide) (List.cons.inj e).1

/-- White space ends before a sign, a digit and a point. -/
theorem dropWhile_blank_sign {negative : Bool} {sign rest : List Char} (h : IsSign negative sign)
    (hopens : OpensNumber rest) :
    (sign ++ rest).dropWhile isAsciiBlank = sign ++ rest := by
  cases h with
  | plus => rfl
  | minus => rfl
  | none =>
    obtain ⟨c, r, rfl, hc⟩ := hopens
    have hblank : isAsciiBlank c = false := hc.elim isAsciiBlank_of_isDigit fun h => h ▸ rfl
    rw [List.nil_append, List.dropWhile_cons, if_neg (by simp [hblank])]

/-- A leading integer is read, unless it has too many digits. -/
theorem parseInteger_of_leading {cs : List Char} {negative : Bool} {ds : List Char}
    (h : LeadingInteger cs negative ds) :
    parseInteger cs = match integerOfDigits? negative ds with
      | some n => .ok (.int n)
      | none => .error .tooManyDigits := by
  obtain ⟨blanks, sign, rest, rfl, hblanks, hsign, hne, hds, hrest⟩ := h
  have hopens := opensNumber_digits hne hds rest
  unfold parseInteger
  rw [List.dropWhile_append_of_pos hblanks, dropWhile_blank_sign hsign hopens,
    readSign_of_isSign hsign hopens]
  dsimp only
  rw [digitRun_of_digits hds hrest]
  cases ds with
  | nil => exact absurd rfl hne
  | cons c tail => rfl

theorem exists_isSign (cs : List Char) :
    ∃ sign, IsSign (Numeral.readSign cs).1 sign ∧ cs = sign ++ (Numeral.readSign cs).2 := by
  unfold Numeral.readSign
  split
  · exact ⟨_, .plus, rfl⟩
  · exact ⟨_, .minus, rfl⟩
  · exact ⟨_, .none, rfl⟩

/-- A text that starts with no integer stands for itself in an integer column. -/
theorem parseInteger_of_not_leading {cs : List Char}
    (h : ∀ negative ds, ¬ LeadingInteger cs negative ds) :
    parseInteger cs = .ok (.text (String.ofList cs)) := by
  have hcs : cs.takeWhile isAsciiBlank ++ cs.dropWhile isAsciiBlank = cs :=
    List.takeWhile_append_dropWhile
  obtain ⟨sign, hsign, hrest⟩ := exists_isSign (cs.dropWhile isAsciiBlank)
  unfold parseInteger
  generalize Numeral.readSign (cs.dropWhile isAsciiBlank) = read at hsign hrest ⊢
  obtain ⟨negative, rest⟩ := read
  dsimp only at hsign hrest ⊢
  cases hrun : digitRun rest with
  | mk ds after =>
    cases ds with
    | nil => rfl
    | cons c tail =>
      -- some digits follow, which makes a leading integer
      obtain ⟨hds, hdigits, hafter⟩ := of_digitRun hrun
      refine absurd ⟨cs.takeWhile isAsciiBlank, sign, after, ?_, ?_, hsign, ?_, hdigits, hafter⟩
        (h negative (c :: tail))
      · rw [← hds, ← hrest, hcs]
      · exact fun d hd => List.mem_takeWhile_imp hd
      · exact List.cons_ne_nil _ _

/-- Whether a text starts with an integer of too many digits. -/
def LeadsTooLong (cs : List Char) : Prop :=
  ∃ negative ds, LeadingInteger cs negative ds ∧ maxIntegerDigits < ds.length

theorem parseInteger_of_short {cs : List Char} {negative : Bool} {ds : List Char}
    (h : LeadingInteger cs negative ds) (hshort : ds.length ≤ maxIntegerDigits) :
    parseInteger cs = .ok (.int (if negative then -(ofDigits ds : Int) else ofDigits ds)) := by
  rw [parseInteger_of_leading h, integerOfDigits?, if_pos hshort]

theorem parseInteger_of_tooLong {cs : List Char} (h : LeadsTooLong cs) :
    parseInteger cs = .error .tooManyDigits := by
  obtain ⟨negative, ds, hleading, hlong⟩ := h
  have hnone : integerOfDigits? negative ds = none := if_neg (Nat.not_le.2 hlong)
  rw [parseInteger_of_leading hleading, hnone]

/-- Integers are refused for too many digits only. -/
theorem parseInteger_eq_error_iff {cs : List Char} {e : ParseError} :
    parseInteger cs = .error e ↔ e = .tooManyDigits ∧ LeadsTooLong cs := by
  constructor
  · intro h
    by_cases hleading : ∃ negative ds, LeadingInteger cs negative ds
    · obtain ⟨negative, ds, hleading⟩ := hleading
      by_cases hshort : ds.length ≤ maxIntegerDigits
      · rw [parseInteger_of_short hleading hshort] at h
        cases h
      · have hlong : LeadsTooLong cs := ⟨negative, ds, hleading, Nat.lt_of_not_le hshort⟩
        rw [parseInteger_of_tooLong hlong] at h
        cases h
        exact ⟨rfl, hlong⟩
    · rw [parseInteger_of_not_leading fun negative ds h => hleading ⟨negative, ds, h⟩] at h
      cases h
  · rintro ⟨rfl, hlong⟩
    exact parseInteger_of_tooLong hlong

end Value

end StagedTable
