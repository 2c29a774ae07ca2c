import StagedTable.Text.Blank
import StagedTable.Text.Letter

/-!
# Lower case character by character

Of the small letters only the small sigma depends on its surroundings. With the two small sigmas
held equal, the lower case of a text puts the small letters of one character after those of another
(`map_foldSigma_lower`). The letter case of ASCII letters leaves no trace in it
(`smallLetters_congr`), blanks and parentheses stay as they are, and nothing else becomes one of
them (`smallLetters_of_isSeparator`, `isSeparator_of_mem_smallLetters`).
-/

namespace StagedTable.Text

/-- Makes the small sigma at the end of a word the one inside a word. -/
def foldSigma (c : Char) : Char := if c = 'ς' then 'σ' else c

/-- The small letters of a character, small sigmas held equal. -/
def smallLetters (c : Char) : List Char :=
  if c.toNat < 0x80 then [asciiLower c]
  else if c == 'Σ' then ['σ']
  else if c == 'İ' then ['i', Char.ofNat 0x307]
  else [foldSigma (smallLetter c)]

variable {c d : Char}

theorem foldSigma_eq_iff (hd : d ≠ 'σ') (hd' : d ≠ 'ς') : foldSigma c = d ↔ c = d := by
  unfold foldSigma
  split
  · next h => rw [h, eq_comm, eq_false hd, eq_comm, eq_false hd']
  · rfl

/-- What holds of each of the first 128 characters holds of all characters of ASCII. -/
theorem forall_ascii {p : Char → Prop} (h : ∀ n < 0x80, p (Char.ofNat n)) (hc : c.toNat < 0x80) :
    p c := by
  have := h c.toNat hc
  rwa [Char.ofNat_toNat] at this

theorem asciiLower_of_not_ascii (h : ¬ c.toNat < 0x80) : asciiLower c = c := by
  have hbeyond : ¬ c ≤ 'Z' := by
    rw [Char.le_def, UInt32.le_iff_toNat_le]
    exact fun hle => h (Nat.lt_of_le_of_lt hle (by decide))
  simp [asciiLower, hbeyond]

theorem toNat_asciiLower_lt_iff : (asciiLower c).toNat < 0x80 ↔ c.toNat < 0x80 := by
  by_cases h : c.toNat < 0x80
  · exact iff_of_true (forall_ascii (p := fun c => (asciiLower c).toNat < 0x80) (by decide) h) h
  · rw [asciiLower_of_not_ascii h]

/-- Characters that differ in the case of an ASCII letter at most have the same small letters. -/
theorem smallLetters_congr (h : asciiLower d = asciiLower c) : smallLetters d = smallLetters c := by
  by_cases hc : c.toNat < 0x80
  · have hd : d.toNat < 0x80 := by rwa [← toNat_asciiLower_lt_iff, h, toNat_asciiLower_lt_iff]
    simp [smallLetters, hc, hd, h]
  · have hd : ¬ d.toNat < 0x80 := by rwa [← toNat_asciiLower_lt_iff, h, toNat_asciiLower_lt_iff]
    rw [asciiLower_of_not_ascii hc, asciiLower_of_not_ascii hd] at h
    rw [h]

theorem flatMap_smallLetters_congr {cs ds : List Char}
    (h : ds.map asciiLower = cs.map asciiLower) :
    ds.flatMap smallLetters = cs.flatMap smallLetters := by
  induction ds generalizing cs with
  | nil =>
    rw [List.map_nil, eq_comm, List.map_eq_nil_iff] at h
    rw [h]
  | cons d ds ih =>
    cases cs with
    | nil => cases h
    | cons c cs =>
      obtain ⟨hhead, htail⟩ := List.cons.inj h
      rw [List.flatMap_cons, List.flatMap_cons, smallLetters_congr hhead, ih htail]

theorem foldSigma_of_ascii (h : c.toNat < 0x80) : foldSigma c = c :=
  forall_ascii (p := fun c => foldSigma c = c) (by decide) h

theorem foldSigma_smallSigma (afterCased : Bool) (rest : List Char) :
    foldSigma (smallSigma afterCased rest) = 'σ' := by
  unfold smallSigma
  dsimp only
  split <;> split <;> rfl

theorem map_foldSigma_lowerAfter (afterCased : Bool) (cs : List Char) :
    (lowerAfter afterCased cs).map foldSigma = cs.flatMap smallLetters := by
  induction cs generalizing afterCased with
  | nil => rfl
  | cons c rest ih =>
    rw [lowerAfter, List.flatMap_cons, smallLetters]
    split
    · next hascii =>
      rw [List.map_cons, ih, foldSigma_of_ascii (toNat_asciiLower_lt_iff.2 hascii)]
      rfl
    · dsimp only
      rw [List.map_append, ih]
      congr 1
      split
      · rw [List.map_singleton, foldSigma_smallSigma]
      split
      · rfl
      · rfl

/-- The lower case of a text, small sigmas held equal, character by character. -/
theorem map_foldSigma_lower (cs : List Char) :
    (lower cs).map foldSigma = cs.flatMap smallLetters := map_foldSigma_lowerAfter false cs

/-! ### Texts without sigma -/

/-- Whether neither of the small sigmas stands in a text. -/
def isSigmaFree (cs : List Char) : Bool := !cs.contains 'σ' && !cs.contains 'ς'

variable {name cs : List Char}

theorem map_foldSigma_eq_iff (hname : isSigmaFree name = true) :
    cs.map foldSigma = name ↔ cs = name := by
  have hfree : ∀ d ∈ name, d ≠ 'σ' ∧ d ≠ 'ς' := by
    intro d hd
    constructor <;> rintro rfl <;> simp [isSigmaFree, hd] at hname
  clear hname
  induction cs generalizing name with
  | nil => rfl
  | cons c cs ih =>
    cases name with
    | nil => simp
    | cons d name =>
      rw [List.forall_mem_cons] at hfree
      rw [List.map_cons, List.cons_eq_cons, List.cons_eq_cons]
      exact and_congr (foldSigma_eq_iff hfree.1.1 hfree.1.2) (ih hfree.2)

theorem isPrefix_map_foldSigma_iff (hname : isSigmaFree name = true) :
    name <+: cs.map foldSigma ↔ name <+: cs := by
  rw [List.prefix_iff_eq_take, List.prefix_iff_eq_take, ← List.map_take, eq_comm,
    map_foldSigma_eq_iff hname, eq_comm]

theorem isSuffix_map_foldSigma_iff (hname : isSigmaFree name = true) :
    name <:+ cs.map foldSigma ↔ name <:+ cs := by
  rw [List.suffix_iff_eq_drop, List.suffix_iff_eq_drop, List.length_map, ← List.map_drop, eq_comm,
    map_foldSigma_eq_iff hname, eq_comm]

/-! ### Blanks and parentheses -/

/-- Whether a character is a blank or a parenthesis. -/
def isSeparator (c : Char) : Bool := isBlank c || c == '(' || c == ')'

/-- The code points of blanks and parentheses. -/
def separatorRanges : List (Nat × Nat) := [
  (0x9, 0xD), (0x1C, 0x20), (0x28, 0x29), (0x85, 0x85), (0xA0, 0xA0), (0x1680, 0x1680),
  (0x2000, 0x200A), (0x2028, 0x2029), (0x202F, 0x202F), (0x205F, 0x205F), (0x3000, 0x3000)]

theorem isSeparator_iff :
    isSeparator c = true ↔ ∃ range ∈ separatorRanges, range.1 ≤ c.toNat ∧ c.toNat ≤ range.2 := by
  have hopen : c = '(' ↔ c.toNat = 0x28 := Char.toNat_inj.symm
  have hclose : c = ')' ↔ c.toNat = 0x29 := Char.toNat_inj.symm
  simp only [isSeparator, isBlank, separatorRanges, Bool.or_eq_true, Bool.and_eq_true,
    decide_eq_true_eq, beq_iff_eq, hopen, hclose, List.mem_cons, exists_eq_or_imp,
    exists_eq_left, List.not_mem_nil, or_false]
  omega

theorem isSeparator_foldSigma : isSeparator (foldSigma c) = isSeparator c := by
  unfold foldSigma
  split
  · next h => rw [h]; rfl
  · rfl

theorem isSeparator_asciiLower : isSeparator (asciiLower c) = isSeparator c := by
  by_cases h : c.toNat < 0x80
  · exact forall_ascii (p := fun c => isSeparator (asciiLower c) = isSeparator c)
      (by decide +kernel) h
  · rw [asciiLower_of_not_ascii h]

/-- No run of capitals has a separator among its small letters. -/
theorem separatorRanges_outside_runs : ∀ r ∈ capitalRuns, ∀ range ∈ separatorRanges,
    (range.2 : Int) < r.first + r.shift ∨ (r.last + r.shift : Int) < range.1 := by
  decide +kernel

/-- A code point that no character has gives the null character. -/
theorem toNat_ofNat (n : Nat) : (Char.ofNat n).toNat = n ∨ (Char.ofNat n).toNat = 0 := by
  by_cases h : n.isValidChar
  · left
    rw [Char.ofNat, dif_pos h]
    rfl
  · right
    rw [Char.ofNat, dif_neg h]
    rfl

theorem isSeparator_smallLetter (h : isSeparator c = false) :
    isSeparator (smallLetter c) = false := by
  unfold smallLetter
  split
  · next r hr =>
    have hmem := List.mem_of_find?_eq_some hr
    have hholds := List.find?_some hr
    simp only [CapitalRun.holds, Bool.and_eq_true, decide_eq_true_eq] at hholds
    rw [← Bool.not_eq_true, isSeparator_iff]
    rintro ⟨range, hrange, hlow, hhigh⟩
    have hpositive : ∀ range ∈ separatorRanges, 0 < range.1 := by decide
    have hapart := separatorRanges_outside_runs r hmem range hrange
    have hzero := hpositive range hrange
    rcases toNat_ofNat ((c.toNat : Int) + r.shift).toNat with heq | heq <;> omega
  · exact h

/-- Blanks and parentheses stay as they are. -/
theorem smallLetters_of_isSeparator (h : isSeparator c = true) : smallLetters c = [c] := by
  have hall : ∀ range ∈ separatorRanges, ∀ n ∈ List.range' range.1 (range.2 + 1 - range.1),
      smallLetters (Char.ofNat n) = [Char.ofNat n] := by
    decide +kernel
  obtain ⟨range, hrange, hlow, hhigh⟩ := isSeparator_iff.1 h
  have := hall range hrange c.toNat (List.mem_range'_1.2 (by omega))
  rwa [Char.ofNat_toNat] at this

/-- What is neither a blank nor a parenthesis has no small letter that is one. -/
theorem isSeparator_of_mem_smallLetters (h : isSeparator c = false) (hd : d ∈ smallLetters c) :
    isSeparator d = false := by
  unfold smallLetters at hd
  split at hd
  · rw [List.mem_singleton.1 hd, isSeparator_asciiLower, h]
  split at hd
  · rw [List.mem_singleton.1 hd]
    rfl
  split at hd
  · rcases List.mem_cons.1 hd with rfl | hd
    · rfl
    · rw [List.mem_singleton.1 hd]
      rfl
  · rw [List.mem_singleton.1 hd, isSeparator_foldSigma, isSeparator_smallLetter h]

theorem smallLetters_ne_nil (c : Char) : smallLetters c ≠ [] := by
  unfold smallLetters
  split
  · simp
  split
  · simp
  split <;> simp

end StagedTable.Text
