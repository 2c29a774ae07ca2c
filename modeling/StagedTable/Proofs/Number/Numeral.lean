import Mathlib.Data.List.TakeWhile
import StagedTable.Proofs.Number.Expansion
import StagedTable.Text.Blank
import StagedTable.Value.Json.Reader

/-!
# Written numerals

The form in which a number is written: digits, digits behind a point if there are any, and an
exponent if there is one. The readers of numerals and of JSON numbers take exactly such a text, as
long as nothing follows that would extend it (`read_render`, `readNumber_eq`). The text of every
finite double has this form and reads as the double (`exists_written`), and the text of every
integer has it (`signedDigits_eq`).
-/

namespace StagedTable

namespace Text

/-! ### Runs of digits -/

/-- Whether a text starts with no digit. -/
def NoDigitAhead (cs : List Char) : Prop := ∀ c r, cs = c :: r → isDigit c = false

theorem noDigitAhead_cons {c : Char} {r : List Char} (h : isDigit c = false) :
    NoDigitAhead (c :: r) := by
  intro c' r' e
  cases e
  exact h

theorem isDigit_iff {c : Char} : isDigit c = true ↔ 0x30 ≤ c.toNat ∧ c.toNat ≤ 0x39 := by
  simp only [isDigit, Bool.and_eq_true, decide_eq_true_eq, Char.le_def, UInt32.le_iff_toNat_le]
  rfl

theorem ne_of_isDigit {c d : Char} (hc : isDigit c = true) (hd : isDigit d = false) : c ≠ d := by
  rintro rfl
  rw [hc] at hd
  cases hd

theorem isAsciiBlank_of_isDigit {c : Char} (h : isDigit c = true) : isAsciiBlank c = false := by
  have hlow := (isDigit_iff.1 h).1
  simp only [isAsciiBlank, Bool.or_eq_false_iff, Bool.and_eq_false_iff, decide_eq_false_iff_not,
    beq_eq_false_iff_ne]
  omega

/-- A run of characters of a class ends where a character of no such class follows it. -/
theorem takeWhile_dropWhile_run {p : Char → Bool} {run after : List Char}
    (hrun : ∀ c ∈ run, p c = true) (hafter : ∀ c r, after = c :: r → p c = false) :
    (run ++ after).takeWhile p = run ∧ (run ++ after).dropWhile p = after := by
  rw [List.takeWhile_append_of_pos hrun, List.dropWhile_append_of_pos hrun]
  cases after with
  | nil => exact ⟨List.append_nil run, rfl⟩
  | cons c r => simp [hafter c r rfl]

/-- A run of digits is read whole, and nothing behind it is touched. -/
theorem digitRun_of_digits {ds after : List Char} (hds : ∀ c ∈ ds, isDigit c = true)
    (h : NoDigitAhead after) : digitRun (ds ++ after) = (ds, after) := by
  obtain ⟨htaken, hleft⟩ := takeWhile_dropWhile_run hds h
  rw [digitRun, htaken, hleft]

/-- A run of digits is followed by no digit. -/
theorem of_digitRun {cs ds after : List Char} (h : digitRun cs = (ds, after)) :
    cs = ds ++ after ∧ (∀ c ∈ ds, isDigit c = true) ∧ NoDigitAhead after := by
  have htaken : cs.takeWhile isDigit = ds := congrArg Prod.fst h
  have hleft : cs.dropWhile isDigit = after := congrArg Prod.snd h
  refine ⟨?_, ?_, ?_⟩
  · rw [← htaken, ← hleft, List.takeWhile_append_dropWhile]
  · rw [← htaken]
    exact fun c hc => List.mem_takeWhile_imp hc
  · rintro c r rfl
    have hhead := List.head?_dropWhile_not isDigit cs
    rw [hleft] at hhead
    simpa using hhead

/-- Every text is a run of digits, which may be empty, and what follows it. -/
theorem exists_run (cs : List Char) : ∃ ds after, cs = ds ++ after
    ∧ (∀ c ∈ ds, isDigit c = true) ∧ NoDigitAhead after :=
  ⟨_, _, of_digitRun rfl⟩

/-- A run of digits goes on into what follows it. -/
theorem exists_longer_run {ds : List Char} (hds : ∀ c ∈ ds, isDigit c = true)
    (rest : List Char) : ∃ more after, rest = more ++ after
      ∧ (∀ c ∈ ds ++ more, isDigit c = true) ∧ NoDigitAhead after := by
  obtain ⟨more, after, rfl, hmore, hafter⟩ := exists_run rest
  refine ⟨more, after, rfl, fun c hc => ?_, hafter⟩
  exact (List.mem_append.1 hc).elim (hds c) (hmore c)

/-- Digits behind others count for themselves, those before for the tens. -/
theorem ofDigits_append (ds es : List Char) :
    ofDigits (ds ++ es) = 10 ^ es.length * ofDigits ds + ofDigits es := by
  unfold ofDigits
  rw [Nat.ofDigitChars_append, Nat.ofDigitChars_eq_ofDigitChars_zero]

@[simp] theorem ofDigits_replicate (k : Nat) : ofDigits (List.replicate k '0') = 0 := by
  simp [ofDigits]

/-- Some digits make a number below the power of ten that has one digit more. -/
theorem ofDigits_lt {ds : List Char} (hds : ∀ c ∈ ds, isDigit c = true) :
    ofDigits ds < 10 ^ ds.length := by
  induction ds using List.reverseRecOn with
  | nil => exact Nat.one_pos
  | append_singleton ds c ih =>
    have hrest : ofDigits ds < 10 ^ ds.length := ih fun d hd => hds d (List.mem_append_left _ hd)
    have hlast : ofDigits [c] < 10 := by
      have hc := isDigit_iff.1 (hds c (by simp))
      simp only [ofDigits, Nat.ofDigitChars_cons, Nat.ofDigitChars_nil]
      have hzero : '0'.toNat = 48 := rfl
      omega
    rw [ofDigits_append, List.length_append, List.length_singleton, pow_one, pow_succ]
    omega

/-- Written anew, without leading zeros, a number has no more digits than before. -/
theorem length_digits_ofDigits_le {ds : List Char} (hne : ds ≠ [])
    (hds : ∀ c ∈ ds, isDigit c = true) : (digits (ofDigits ds)).length ≤ ds.length :=
  (Nat.length_toDigits_le_iff (by decide) (List.length_pos_iff.2 hne)).2 (ofDigits_lt hds)

/-- An integer that is read is within the limit on the digits that are written. -/
theorem length_digits_of_integerOfDigits? {negative : Bool} {ds : List Char} {n : Int}
    (hne : ds ≠ []) (hds : ∀ c ∈ ds, isDigit c = true)
    (h : integerOfDigits? negative ds = some n) : (digits n.natAbs).length ≤ maxIntegerDigits := by
  rw [integerOfDigits?] at h
  split at h
  · next hshort =>
    cases h
    have habs : (if negative then -(ofDigits ds : Int) else ofDigits ds).natAbs = ofDigits ds := by
      split <;> omega
    rw [habs]
    exact (length_digits_ofDigits_le hne hds).trans hshort
  · cases h

theorem digitChar_ne_zero : ∀ d, d < 10 → d ≠ 0 → Nat.digitChar d ≠ '0' := by decide

theorem exists_head_digits {n : Nat} (hn : n ≠ 0) : ∃ c r, digits n = c :: r ∧ c ≠ '0' := by
  induction n using Nat.strongRecOn with
  | ind n ih =>
    rcases Nat.lt_or_ge n 10 with h | h
    · exact ⟨n.digitChar, [], Nat.toDigits_of_lt_base h, digitChar_ne_zero n h hn⟩
    · obtain ⟨c, r, hr, hc⟩ := ih (n / 10) (by omega) (by omega)
      refine ⟨c, r ++ [(n % 10).digitChar], ?_, hc⟩
      have hstep : digits n = digits (n / 10) ++ [(n % 10).digitChar] :=
        Nat.toDigits_of_base_le (by decide) h
      rw [hstep, hr]
      rfl

/-- The digits of a number are its significant ones and zeros behind them. -/
theorem digits_eq_significant (n : Nat) :
    ∃ k, digits n = significantDigits n ++ List.replicate k '0' := by
  have hsplit := List.takeWhile_append_dropWhile (p := (· == '0')) (l := (digits n).reverse)
  refine ⟨((digits n).reverse.takeWhile (· == '0')).length, ?_⟩
  have hzeros : (digits n).reverse.takeWhile (· == '0')
      = List.replicate ((digits n).reverse.takeWhile (· == '0')).length '0' := by
    refine List.eq_replicate_iff.2 ⟨rfl, ?_⟩
    intro c hc
    simpa using List.mem_takeWhile_imp hc
  have hrev := congrArg List.reverse hsplit
  rw [List.reverse_append, List.reverse_reverse, hzeros, List.reverse_replicate] at hrev
  simpa [significantDigits] using hrev.symm

theorem isDigit_of_mem_significantDigits {n : Nat} {c : Char} (h : c ∈ significantDigits n) :
    isDigit c = true := by
  obtain ⟨k, hk⟩ := digits_eq_significant n
  exact isDigit_of_mem_digits (hk ▸ List.mem_append_left _ h)

theorem exists_head_significantDigits {n : Nat} (hn : n ≠ 0) :
    ∃ c r, significantDigits n = c :: r ∧ c ≠ '0' := by
  obtain ⟨k, hk⟩ := digits_eq_significant n
  cases hs : significantDigits n with
  | nil =>
    rw [hs, List.nil_append] at hk
    have hzero : ofDigits (digits n) = 0 := by rw [hk, ofDigits_replicate]
    rw [ofDigits_digits] at hzero
    exact absurd hzero hn
  | cons c r =>
    obtain ⟨d, r', hd, hne⟩ := exists_head_digits hn
    rw [hk, hs, List.cons_append, List.cons.injEq] at hd
    exact ⟨c, r, rfl, hd.1 ▸ hne⟩

end Text

open Text

namespace Numeral

variable {whole fraction after : List Char} (hwhole : ∀ c ∈ whole, isDigit c = true)

/-- What starts with no digit, be it behind a point, has no places. -/
theorem readPlaces_none (hafter : NoDigitAhead after)
    (hpoint : ∀ r, after = '.' :: r → NoDigitAhead r) : readPlaces after = none := by
  have hnone {cs : List Char} (h : NoDigitAhead cs) : digitRun cs = ([], cs) :=
    have hnil : ∀ c ∈ ([] : List Char), isDigit c = true := fun _ hc => nomatch hc
    digitRun_of_digits hnil h
  rw [readPlaces, hnone hafter]
  split
  · next r hr =>
    cases hr
    rw [hnone (hpoint r rfl)]
  · rfl
  -- there are no digits before a point, or at all
  · next hne hr =>
    cases hr
    exact absurd rfl hne
  · next hne _ hr =>
    cases hr
    exact absurd rfl hne

include hwhole

/-- Digits without a point are read whole. -/
theorem readPlaces_whole (hne : whole ≠ []) (hafter : NoDigitAhead after)
    (hpoint : ∀ r, after ≠ '.' :: r) : readPlaces (whole ++ after) = some ((whole, []), after) := by
  rw [readPlaces, digitRun_of_digits hwhole hafter]
  obtain ⟨c, r, rfl⟩ := List.exists_cons_of_ne_nil hne
  cases after with
  | nil => rfl
  | cons d t => simp

/-- Digits around a point are read whole. -/
theorem readPlaces_point (hfraction : ∀ c ∈ fraction, isDigit c = true)
    (hne : whole ≠ [] ∨ fraction ≠ []) (hafter : NoDigitAhead after) :
    readPlaces (whole ++ '.' :: (fraction ++ after)) = some ((whole, fraction), after) := by
  have hpoint : NoDigitAhead ('.' :: (fraction ++ after)) := noDigitAhead_cons (by decide)
  have hrun := digitRun_of_digits hfraction hafter
  rw [readPlaces, digitRun_of_digits hwhole hpoint]
  cases whole with
  | cons c r => simp [hrun]
  | nil =>
    obtain ⟨c, r, rfl⟩ := List.exists_cons_of_ne_nil (hne.resolve_left fun h => h rfl)
    rw [List.cons_append] at hrun
    simp [hrun]

end Numeral

/-- The digits of an exponent, the letter before them in either case and their sign if one is
written; `some true` is a minus. -/
structure WrittenExponent where
  capital : Bool
  sign : Option Bool
  digits : List Char
  digits_ne_nil : digits ≠ []
  isDigit : ∀ c ∈ digits, isDigit c = true

/-- A numeral as it is written, its sign aside. -/
structure WrittenNumeral where
  whole : List Char
  fraction : List Char
  exponent : Option WrittenExponent
  isDigit_whole : ∀ c ∈ whole, isDigit c = true
  noLeadingZero : whole = ['0'] ∨ ∃ c r, whole = c :: r ∧ c ≠ '0'
  isDigit_fraction : ∀ c ∈ fraction, isDigit c = true

namespace WrittenExponent

/-- The sign of the exponent as a text. -/
def signText (e : WrittenExponent) : List Char :=
  match e.sign with
  | none => []
  | some true => ['-']
  | some false => ['+']

/-- The letter before the exponent. -/
def letter (e : WrittenExponent) : Char := if e.capital then 'E' else 'e'

/-- The exponent as a text. -/
def render (e : WrittenExponent) : List Char := e.letter :: (e.signText ++ e.digits)

/-- The exponent as a number. -/
def value (e : WrittenExponent) : Int :=
  if e.sign = some true then -(ofDigits e.digits : Int) else ofDigits e.digits

theorem letter_eq (e : WrittenExponent) : e.letter = 'e' ∨ e.letter = 'E' := by
  unfold letter
  cases e.capital with
  | true => exact .inr rfl
  | false => exact .inl rfl

theorem readSign_signText (e : WrittenExponent) (after : List Char) :
    Numeral.readSign (e.signText ++ (e.digits ++ after))
      = (decide (e.sign = some true), e.digits ++ after) := by
  unfold signText
  rcases hsign : e.sign with _ | _ | _
  · -- without a sign the digits come first, and none of them is taken for one
    cases hds : e.digits with
    | nil => exact absurd hds e.digits_ne_nil
    | cons d ds =>
      have hd : Text.isDigit d = true := e.isDigit d (by simp [hds])
      have hplus : d ≠ '+' := ne_of_isDigit hd (by decide)
      have hminus : d ≠ '-' := ne_of_isDigit hd (by decide)
      simp [Numeral.readSign, hplus, hminus]
  · rfl
  · rfl

theorem readExponent?_render (e : WrittenExponent) {after : List Char} (h : NoDigitAhead after) :
    Numeral.readExponent? (e.render ++ after) = some (e.value, after) := by
  have hrun := digitRun_of_digits e.isDigit h
  have hsign := e.readSign_signText after
  have hletter : (e.letter == 'e' || e.letter == 'E') = true := by
    rcases e.letter_eq with h | h <;> rw [h] <;> rfl
  rw [render, List.cons_append, List.append_assoc, Numeral.readExponent?, if_pos hletter, hsign]
  dsimp only
  rw [hrun]
  cases hds : e.digits with
  | nil => exact absurd hds e.digits_ne_nil
  | cons d ds => simp [value, hds]

end WrittenExponent

/-- Whether a text does not extend a numeral that it follows. -/
def EndsNumeral (cs : List Char) : Prop :=
  ∀ c r, cs = c :: r → isDigit c = false ∧ c ≠ '.' ∧ c ≠ 'e' ∧ c ≠ 'E'

theorem endsNumeral_nil : EndsNumeral [] := by
  intro c r h
  cases h

theorem endsNumeral_cons {c : Char} {r : List Char}
    (h : isDigit c = false ∧ c ≠ '.' ∧ c ≠ 'e' ∧ c ≠ 'E') : EndsNumeral (c :: r) := by
  intro c' r' e
  cases e
  exact h

theorem EndsNumeral.noDigitAhead {cs : List Char} (h : EndsNumeral cs) : NoDigitAhead cs :=
  fun c r e => (h c r e).1

theorem EndsNumeral.readExponent? {cs : List Char} (h : EndsNumeral cs) :
    Numeral.readExponent? cs = none := by
  cases cs with
  | nil => rfl
  | cons c r =>
    obtain ⟨-, -, he, hE⟩ := h c r rfl
    simp [Numeral.readExponent?, he, hE]

namespace WrittenNumeral

/-- The point and the digits behind it. -/
def fractionText (w : WrittenNumeral) : List Char :=
  if w.fraction = [] then [] else '.' :: w.fraction

/-- The exponent, if there is one. -/
def exponentText (w : WrittenNumeral) : List Char :=
  match w.exponent with
  | none => []
  | some e => e.render

/-- The value of the exponent. -/
def exponentValue (w : WrittenNumeral) : Int :=
  match w.exponent with
  | none => 0
  | some e => e.value

/-- The numeral as a text. -/
def render (w : WrittenNumeral) : List Char := w.whole ++ (w.fractionText ++ w.exponentText)

/-- The numeral that is written, behind its sign. -/
def numeral (w : WrittenNumeral) (negative : Bool) : Numeral :=
  ⟨negative, w.whole, w.fraction, w.exponentValue⟩

/-- The decimal number that the digits and the exponent make. -/
def scaled (w : WrittenNumeral) : Scaled :=
  ⟨ofDigits (w.whole ++ w.fraction), w.exponentValue - w.fraction.length⟩

/-- Whether the numeral stands for a double; one without fraction and exponent is an integer. -/
def IsFloat (w : WrittenNumeral) : Prop := w.fraction ≠ [] ∨ w.exponent.isSome

theorem IsFloat.not_integer {w : WrittenNumeral} (h : w.IsFloat) :
    ¬ (w.fraction = [] ∧ w.exponent = none) := by
  rintro ⟨hfraction, hexponent⟩
  rcases h with h | h
  · exact h hfraction
  · simp [hexponent] at h

theorem toDouble_numeral (w : WrittenNumeral) (negative : Bool) :
    (w.numeral negative).toDouble
      = .ofDecimal negative w.scaled.coefficient w.scaled.exponent := rfl

theorem whole_ne_nil (w : WrittenNumeral) : w.whole ≠ [] := by
  rcases w.noLeadingZero with h | ⟨c, r, h, -⟩ <;> simp [h]

theorem exists_head (w : WrittenNumeral) : ∃ c r, w.render = c :: r ∧ isDigit c = true := by
  cases hw : w.whole with
  | nil => exact absurd hw w.whole_ne_nil
  | cons c r =>
    exact ⟨c, r ++ (w.fractionText ++ w.exponentText), by simp [render, hw],
      w.isDigit_whole c (by simp [hw])⟩

variable (w : WrittenNumeral) {after : List Char} (h : EndsNumeral after)
include h

theorem noDigitAhead_exponentText : NoDigitAhead (w.exponentText ++ after) := by
  unfold exponentText
  cases w.exponent with
  | none => exact h.noDigitAhead
  | some e =>
    refine noDigitAhead_cons ?_
    rcases e.letter_eq with hletter | hletter <;> rw [hletter] <;> rfl

theorem readExponent?_exponentText :
    (Numeral.readExponent? (w.exponentText ++ after)).getD (0, w.exponentText ++ after)
      = (w.exponentValue, after) := by
  unfold exponentText exponentValue
  cases w.exponent with
  | none => rw [List.nil_append, h.readExponent?]; rfl
  | some e => rw [e.readExponent?_render h.noDigitAhead]; rfl

theorem exponentText_ne_point (r : List Char) : w.exponentText ++ after ≠ '.' :: r := by
  intro e
  unfold exponentText at e
  cases he : w.exponent with
  | none => exact (h '.' r (by simpa [he] using e)).2.1 rfl
  | some x =>
    simp only [he, WrittenExponent.render, List.cons_append, List.cons.injEq] at e
    rcases x.letter_eq with hletter | hletter <;> rw [hletter] at e <;> exact absurd e.1 (by decide)

theorem noDigitAhead_fractionText :
    NoDigitAhead (w.fractionText ++ (w.exponentText ++ after)) := by
  unfold fractionText
  split
  · exact w.noDigitAhead_exponentText h
  · exact noDigitAhead_cons (by decide)

theorem readPlaces_render :
    Numeral.readPlaces (w.render ++ after)
      = some ((w.whole, w.fraction), w.exponentText ++ after) := by
  have hafter := w.noDigitAhead_exponentText h
  have hrender : w.render ++ after = w.whole ++ (w.fractionText ++ (w.exponentText ++ after)) := by
    simp [render]
  rw [hrender]
  by_cases hf : w.fraction = []
  -- without a fraction, what follows must not be taken for one
  · have htext : w.fractionText = [] := if_pos hf
    rw [htext, hf, List.nil_append]
    exact Numeral.readPlaces_whole w.isDigit_whole w.whole_ne_nil hafter (w.exponentText_ne_point h)
  · have htext : w.fractionText = '.' :: w.fraction := if_neg hf
    rw [htext, List.cons_append]
    exact Numeral.readPlaces_point w.isDigit_whole w.isDigit_fraction (.inl w.whole_ne_nil) hafter

omit h in
theorem readSign_render (negative : Bool) (after : List Char) :
    Numeral.readSign ((if negative then ['-'] else []) ++ (w.render ++ after))
      = (negative, w.render ++ after) := by
  cases negative with
  | true => rfl
  | false =>
    -- the numeral starts with a digit, which is no sign
    obtain ⟨c, r, hr, hc⟩ := w.exists_head
    have hplus : c ≠ '+' := ne_of_isDigit hc (by decide)
    have hminus : c ≠ '-' := ne_of_isDigit hc (by decide)
    simp [hr, Numeral.readSign, hplus, hminus]

/-- A written numeral is read whole, with its sign if it has one. -/
theorem read_render (negative : Bool) :
    Numeral.read ((if negative then ['-'] else []) ++ (w.render ++ after))
      = some (w.numeral negative, after) := by
  have hexponent := w.readExponent?_exponentText h
  unfold Numeral.read
  rw [w.readSign_render]
  dsimp only
  rw [w.readPlaces_render h]
  simp [Numeral.readExponent, hexponent, numeral]

omit h in
theorem readWhole_render (hafter : NoDigitAhead after) :
    Json.readWhole (w.whole ++ after) = some (w.whole, after) := by
  rcases w.noLeadingZero with hw | ⟨c, r, hw, hc⟩
  · rw [hw]
    rfl
  · have hrun := digitRun_of_digits w.isDigit_whole hafter
    rw [hw, List.cons_append] at hrun ⊢
    unfold Json.readWhole
    -- only a zero is read alone
    split
    · next e => exact absurd (List.cons.inj e).1 hc
    · rw [hrun]

theorem readFraction?_render :
    (Json.readFraction? (w.fractionText ++ (w.exponentText ++ after))).getD
        ([], w.fractionText ++ (w.exponentText ++ after))
      = (w.fraction, w.exponentText ++ after) := by
  have hrun := digitRun_of_digits w.isDigit_fraction (w.noDigitAhead_exponentText h)
  by_cases hf : w.fraction = []
  · have htext : w.fractionText = [] := if_pos hf
    rw [htext, hf, List.nil_append]
    cases hr : w.exponentText ++ after with
    | nil => rfl
    | cons d t =>
      have hd : d ≠ '.' := fun e => w.exponentText_ne_point h t (by rw [hr, e])
      simp [Json.readFraction?, hd]
  · have htext : w.fractionText = '.' :: w.fraction := if_neg hf
    rw [htext, List.cons_append]
    simp [Json.readFraction?, hrun, hf]

omit h in
theorem readMinus_render (negative : Bool) (after : List Char) :
    Json.readMinus ((if negative then ['-'] else []) ++ (w.render ++ after))
      = (negative, w.render ++ after) := by
  cases negative with
  | true => rfl
  | false =>
    obtain ⟨c, r, hr, hc⟩ := w.exists_head
    rw [hr, if_neg Bool.false_ne_true, List.nil_append, List.cons_append, Json.readMinus]
    rintro _ e
    exact ne_of_isDigit hc (by decide) (List.cons.inj e).1

/-- The parts of a written numeral that a JSON number is made of. -/
theorem readNumber_eq (negative : Bool) :
    Json.readNumber ((if negative then ['-'] else []) ++ (w.render ++ after))
      = if w.fraction = [] ∧ w.exponent = none
        then (integerOfDigits? negative w.whole).map fun n => (Value.int n, after)
        else some (.float (w.numeral negative).toDouble, after) := by
  have hrender : w.render ++ after = w.whole ++ (w.fractionText ++ (w.exponentText ++ after)) := by
    simp [render]
  have hwhole := w.readWhole_render (w.noDigitAhead_fractionText h)
  have hfraction := w.readFraction?_render h
  have hexponent := w.readExponent?_exponentText h
  unfold Json.readNumber
  rw [w.readMinus_render negative, hrender]
  dsimp only
  rw [hwhole]
  simp only [Option.bind_eq_bind, Option.bind_some, hfraction]
  split
  · next hf he =>
    cases hw : w.exponent with
    | none =>
      have htext : w.fractionText = [] := if_pos hf
      have hnone : w.exponentText = [] := by simp [exponentText, hw]
      rw [if_pos ⟨hf, rfl⟩, htext, hnone]
      cases integerOfDigits? negative w.whole <;> rfl
    | some e =>
      simp only [exponentText, hw, e.readExponent?_render h.noDigitAhead] at he
      cases he
  · next hne =>
    have hfloat : ¬ (w.fraction = [] ∧ w.exponent = none) := by
      rintro ⟨hf, hw⟩
      refine hne hf ?_
      simp only [exponentText, hw, List.nil_append, h.readExponent?]
    rw [hexponent, if_neg hfloat]
    rfl

end WrittenNumeral

/-! ### Integers -/

/-- The digits of a natural number as a numeral. -/
def writtenDigits (n : Nat) : WrittenNumeral where
  whole := digits n
  fraction := []
  exponent := none
  isDigit_whole := fun _ => isDigit_of_mem_digits
  noLeadingZero := by
    rcases Nat.eq_zero_or_pos n with rfl | hn
    · exact .inl rfl
    · exact .inr (exists_head_digits (Nat.ne_of_gt hn))
  isDigit_fraction := by simp

@[simp] theorem render_writtenDigits (n : Nat) : (writtenDigits n).render = digits n := by
  simp [WrittenNumeral.render, WrittenNumeral.fractionText, WrittenNumeral.exponentText,
    writtenDigits]

/-- An integer is written as the digits of its magnitude behind its sign. -/
theorem signedDigits_eq (n : Int) :
    signedDigits n
      = (if decide (n < 0) then ['-'] else []) ++ (writtenDigits n.natAbs).render := by
  rw [render_writtenDigits]
  cases n with
  | ofNat m => simp [signedDigits]
  | negSucc m => simp [signedDigits]

theorem integerOfDigits?_digits {n : Int} (hn : (digits n.natAbs).length ≤ maxIntegerDigits) :
    integerOfDigits? (decide (n < 0)) (digits n.natAbs) = some n := by
  rw [integerOfDigits?, if_pos hn, ofDigits_digits]
  simp only [decide_eq_true_eq, Option.some.injEq]
  omega

/-! ### The text of a double -/

/-- Significant digits: digits of which the first is no zero. -/
structure IsSignificant (ds : List Char) : Prop where
  isDigit : ∀ c ∈ ds, isDigit c = true
  head : ∃ c r, ds = c :: r ∧ c ≠ '0'

theorem isSignificant_significantDigits {n : Nat} (hn : n ≠ 0) :
    IsSignificant (significantDigits n) :=
  ⟨fun _ => isDigit_of_mem_significantDigits, exists_head_significantDigits hn⟩

/-- A decimal number has the value of its significant digits, moved to the place of the point. -/
theorem Scaled.value_eq_significant (d : Scaled) :
    d.value = ofDigits (significantDigits d.coefficient)
      * (10 : ℚ) ^ ((digits d.coefficient).length + d.exponent
        - (significantDigits d.coefficient).length) := by
  obtain ⟨k, hk⟩ := digits_eq_significant d.coefficient
  have hc : d.coefficient = 10 ^ k * ofDigits (significantDigits d.coefficient) := by
    have h := congrArg ofDigits hk
    rwa [ofDigits_digits, ofDigits_append, ofDigits_replicate, List.length_replicate,
      Nat.add_zero] at h
  have he : ((digits d.coefficient).length : Int) + d.exponent
      - (significantDigits d.coefficient).length = k + d.exponent := by
    rw [hk, List.length_append, List.length_replicate]
    push_cast
    ring
  rw [Scaled.value, he, zpow_add₀ (by norm_num), zpow_natCast]
  conv_lhs => rw [hc]
  push_cast
  ring

/-- Whether a text is that of a float with the value. -/
def WritesFloat (cs : List Char) (v : ℚ) : Prop :=
  ∃ w : WrittenNumeral, w.IsFloat ∧ cs = w.render ∧ w.scaled.value = v

theorem isDigit_of_mem_zeros {n : Nat} {c : Char} (h : c ∈ List.replicate n '0') :
    isDigit c = true := by
  rw [(List.mem_replicate.1 h).2]
  decide

theorem ofDigits_zero : ofDigits ['0'] = 0 := ofDigits_replicate 1

section
variable {ds : List Char} (hds : IsSignificant ds)
include hds

/-- With the point before all digits, zeros stand between them. -/
theorem writesFloat_before {point : Int} (hpoint : point ≤ 0) :
    WritesFloat ('0' :: '.' :: (List.replicate (-point).toNat '0' ++ ds))
      (ofDigits ds * (10 : ℚ) ^ (point - ds.length)) := by
  obtain ⟨c, r, hcons, -⟩ := hds.head
  have hfraction : ∀ x ∈ List.replicate (-point).toNat '0' ++ ds, isDigit x = true := by
    intro x hx
    exact (List.mem_append.1 hx).elim isDigit_of_mem_zeros (hds.isDigit x)
  refine ⟨⟨['0'], List.replicate (-point).toNat '0' ++ ds, none,
    fun _ hx => isDigit_of_mem_zeros (n := 1) hx, .inl rfl, hfraction⟩, .inl (by simp [hcons]),
    ?_, ?_⟩
  · simp [WrittenNumeral.render, WrittenNumeral.fractionText, WrittenNumeral.exponentText, hcons]
  · have hdigits : ofDigits (['0'] ++ (List.replicate (-point).toNat '0' ++ ds))
        = ofDigits ds := by
      rw [ofDigits_append, ofDigits_append, ofDigits_replicate, ofDigits_zero]
      simp
    have he : (0 : Int) - (List.replicate (-point).toNat '0' ++ ds).length
        = point - ds.length := by
      rw [List.length_append, List.length_replicate]
      omega
    simp only [Scaled.value, WrittenNumeral.scaled, WrittenNumeral.exponentValue, hdigits, he]

/-- With the point among the digits, they are what stands around it. -/
theorem writesFloat_inside {p : Nat} (hp : 0 < p) (hlt : p < ds.length) :
    WritesFloat (ds.take p ++ '.' :: ds.drop p)
      (ofDigits ds * (10 : ℚ) ^ ((p : Int) - ds.length)) := by
  obtain ⟨c, r, hcons, hc⟩ := hds.head
  have hdrop : ds.drop p ≠ [] := by
    intro e
    have := List.drop_eq_nil_iff.1 e
    omega
  have hhead : ds.take p = c :: r.take (p - 1) := by
    obtain ⟨q, rfl⟩ : ∃ q, p = q + 1 := ⟨p - 1, by omega⟩
    simp [hcons]
  refine ⟨⟨ds.take p, ds.drop p, none, fun x hx => hds.isDigit x (List.mem_of_mem_take hx),
    .inr ⟨c, _, hhead, hc⟩, fun x hx => hds.isDigit x (List.mem_of_mem_drop hx)⟩, .inl hdrop,
    ?_, ?_⟩
  · simp [WrittenNumeral.render, WrittenNumeral.fractionText, WrittenNumeral.exponentText, hdrop]
  · have he : (0 : Int) - (ds.drop p).length = p - ds.length := by
      rw [List.length_drop]
      omega
    simp only [Scaled.value, WrittenNumeral.scaled, WrittenNumeral.exponentValue,
      List.take_append_drop, he]

/-- With the point behind all digits, zeros stand between them, and one more behind it. -/
theorem writesFloat_after {p : Nat} (hle : ds.length ≤ p) :
    WritesFloat (ds ++ List.replicate (p - ds.length) '0' ++ ['.', '0'])
      (ofDigits ds * (10 : ℚ) ^ ((p : Int) - ds.length)) := by
  obtain ⟨c, r, hcons, hc⟩ := hds.head
  have hwhole : ∀ x ∈ ds ++ List.replicate (p - ds.length) '0', isDigit x = true := by
    intro x hx
    exact (List.mem_append.1 hx).elim (hds.isDigit x) isDigit_of_mem_zeros
  refine ⟨⟨ds ++ List.replicate (p - ds.length) '0', ['0'], none, hwhole,
    .inr ⟨c, _, by rw [hcons]; rfl, hc⟩, fun _ hx => isDigit_of_mem_zeros (n := 1) hx⟩,
    .inl (by simp), ?_, ?_⟩
  · simp [WrittenNumeral.render, WrittenNumeral.fractionText, WrittenNumeral.exponentText]
  · have hdigits : ofDigits (ds ++ List.replicate (p - ds.length) '0' ++ ['0'])
        = 10 * (10 ^ (p - ds.length) * ofDigits ds) := by
      rw [ofDigits_append, ofDigits_append, ofDigits_replicate, ofDigits_zero]
      simp
    have hpoint : (p : Int) - ds.length = ((p - ds.length : Nat) : Int) := by omega
    -- the zero behind the point costs a factor of ten, which its place takes back
    simp only [Scaled.value, WrittenNumeral.scaled, WrittenNumeral.exponentValue, hdigits,
      hpoint, zpow_natCast, List.length_singleton]
    push_cast
    norm_num
    ring

theorem writesFloat_positional (point : Int) :
    WritesFloat (positional ds point) (ofDigits ds * (10 : ℚ) ^ (point - ds.length)) := by
  by_cases hpoint : point ≤ 0
  · rw [positional, if_pos hpoint]
    exact writesFloat_before hds hpoint
  · rw [positional, if_neg hpoint]
    obtain ⟨p, rfl⟩ : ∃ p : Nat, point = p := ⟨point.toNat, by omega⟩
    dsimp only
    rw [Int.toNat_natCast]
    split
    · next hlt => exact writesFloat_inside hds (by omega) hlt
    · next hge => exact writesFloat_after hds (Nat.le_of_not_lt hge)

omit hds in
/-- Filling up with zeros changes no number. -/
theorem ofDigits_paddedDigits (width n : Nat) : ofDigits (paddedDigits width n) = n := by
  rw [paddedDigits, ofDigits_append, ofDigits_replicate, ofDigits_digits]
  simp

theorem writesFloat_scientific (form : FloatForm) (point : Int) :
    WritesFloat (scientific form ds point) (ofDigits ds * (10 : ℚ) ^ (point - ds.length)) := by
  obtain ⟨c, r, rfl, hc⟩ := hds.head
  have hpadded : ∀ x ∈ paddedDigits form.exponentDigits (point - 1).natAbs,
      isDigit x = true := by
    intro x hx
    exact (List.mem_append.1 hx).elim isDigit_of_mem_zeros isDigit_of_mem_digits
  let e : WrittenExponent := ⟨false, some (decide (point - 1 < 0)),
    paddedDigits form.exponentDigits (point - 1).natAbs,
    by simp [paddedDigits, digits_ne_nil], hpadded⟩
  have hvalue : e.value = point - 1 := by
    simp only [e, WrittenExponent.value, ofDigits_paddedDigits, Option.some.injEq,
      decide_eq_true_eq]
    omega
  have hrender : e.render = 'e' :: (if point - 1 < 0 then '-' else '+')
      :: paddedDigits form.exponentDigits (point - 1).natAbs := by
    by_cases hnegative : point - 1 < 0 <;>
      simp [e, WrittenExponent.render, WrittenExponent.letter, WrittenExponent.signText, hnegative]
  refine ⟨⟨[c], r, some e, fun x hx => hds.isDigit x (by simp_all), .inr ⟨c, [], rfl, hc⟩,
    fun x hx => hds.isDigit x (by simp [hx])⟩, .inr rfl, ?_, ?_⟩
  · cases r <;> simp [scientific, WrittenNumeral.render, WrittenNumeral.fractionText,
      WrittenNumeral.exponentText, hrender]
  · have he : e.value - (r.length : Int) = point - (c :: r).length := by
      rw [hvalue, List.length_cons]
      push_cast
      ring
    simp only [Scaled.value, WrittenNumeral.scaled, WrittenNumeral.exponentValue, he,
      List.singleton_append]

end

/-- The text of a decimal number is a written numeral of the same value. -/
theorem Scaled.writesFloat_text {d : Scaled} (h : d.coefficient ≠ 0) :
    WritesFloat d.text d.value := by
  have hds := isSignificant_significantDigits h
  rw [d.value_eq_significant]
  unfold Scaled.text
  dsimp only
  split
  · exact writesFloat_positional hds _
  · exact writesFloat_scientific hds _ _

/-- The magnitude of the decimal number that is written for a finite double. -/
def FiniteDouble.writtenMagnitude (x : FiniteDouble) : ℚ :=
  if x.isZero then 0 else x.shortest.value

/-- A decimal number of that magnitude reads as the double. -/
theorem FiniteDouble.ofDecimal_of_value {x : FiniteDouble} {d : Scaled}
    (h : d.value = x.writtenMagnitude) :
    Double.ofDecimal x.negative d.coefficient d.exponent = .finite x := by
  by_cases h0 : x.mantissa = 0
  · have hzero : x.isZero = true := beq_iff_eq.2 h0
    rw [writtenMagnitude, if_pos hzero, Scaled.value, mul_eq_zero,
      or_iff_left (zpow_ne_zero _ (by norm_num)), Nat.cast_eq_zero] at h
    rw [h, Double.ofDecimal, if_pos rfl]
    conv_rhs => rw [eq_zero_of_mantissa h0]
    rfl
  · have hzero : x.isZero = false := beq_eq_false_iff_ne.2 h0
    rw [writtenMagnitude, if_neg (by simp [hzero])] at h
    rw [Double.ofDecimal_congr x.negative h, ofDecimal_shortest h0]

/-- The text of a finite double is a written numeral behind its sign. -/
theorem FiniteDouble.exists_numeral (x : FiniteDouble) :
    ∃ w : WrittenNumeral, w.IsFloat ∧ x.text = (if x.negative then ['-'] else []) ++ w.render
      ∧ w.scaled.value = x.writtenMagnitude := by
  have hsigned (magnitude : List Char) :
      (if x.negative then '-' :: magnitude else magnitude)
        = (if x.negative then ['-'] else []) ++ magnitude := by
    cases x.negative <;> rfl
  unfold FiniteDouble.text writtenMagnitude
  dsimp only
  rw [hsigned]
  by_cases h0 : x.mantissa = 0
  -- zero has no significant digits, and a text of its own
  · have hzero : x.isZero = true := beq_iff_eq.2 h0
    refine ⟨⟨['0'], ['0'], none, by simp; decide, .inl rfl, by simp; decide⟩, .inl (by simp),
      ?_, ?_⟩
    · rw [hzero]
      rfl
    · have hdigits : ofDigits ['0', '0'] = 0 := ofDigits_replicate 2
      rw [hzero, if_pos rfl, Scaled.value, WrittenNumeral.scaled]
      simp [hdigits]
  · have hzero : x.isZero = false := beq_eq_false_iff_ne.2 h0
    obtain ⟨w, hfloat, htext, hvalue⟩ := Scaled.writesFloat_text (coefficient_shortest h0)
    refine ⟨w, hfloat, ?_, ?_⟩
    · rw [hzero, htext]
      rfl
    · rw [hzero, hvalue]
      rfl

/-- The text of a finite double is a written numeral behind its sign, and it reads as the double. -/
theorem FiniteDouble.exists_written (x : FiniteDouble) :
    ∃ w : WrittenNumeral, w.IsFloat ∧ x.text = (if x.negative then ['-'] else []) ++ w.render
      ∧ (w.numeral x.negative).toDouble = .finite x := by
  obtain ⟨w, hfloat, htext, hvalue⟩ := x.exists_numeral
  exact ⟨w, hfloat, htext, ofDecimal_of_value hvalue⟩

end StagedTable
