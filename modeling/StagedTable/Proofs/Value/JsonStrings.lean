import StagedTable.Proofs.Number.Numeral

/-!
# Strings of JSON

Which texts are strings of JSON, and what they hold. A string is spelled in code units, each
character as it is or in one of its escaped forms (`Spells`), and the units are those of a text
(`Encodes`). Half of a surrogate pair belongs to no text; where a character is given for it, it has
the place of each half that is not one of a pair. The reader finds exactly the strings
(`readString_of_isString`, `isString_of_readString`).
-/

namespace StagedTable.Json

open Text

variable {half : Option Char}

/-! ### Code units -/

/-- Whether a code unit is half of a surrogate pair. -/
def IsHalf (u : Nat) : Prop := 0xD800 ≤ u ∧ u < 0xE000

/-- Whether code units are those of a text. A half that is not one of a pair may have the place of
the character that is given for it. -/
inductive Encodes (half : Option Char) : List Nat → List Char → Prop
  | nil : Encodes half [] []
  | char (c : Char) {us : List Nat} {s : List Char} : Encodes half us s →
      Encodes half (codeUnits c ++ us) (c :: s)
  | half {c : Char} {u : Nat} {us : List Nat} {s : List Char} : half = some c → IsHalf u →
      (∀ v rest, us = v :: rest → surrogatePair? u v = none) → Encodes half us s →
      Encodes half (u :: us) (c :: s)

theorem encodes_flatMap (s : List Char) : Encodes half (s.flatMap codeUnits) s := by
  induction s with
  | nil => exact .nil
  | cons c s ih => exact .char c ih

/-- Without a character for a half, code units are those of the text they encode. -/
theorem encodes_none_iff {us : List Nat} {s : List Char} :
    Encodes none us s ↔ us = s.flatMap codeUnits := by
  constructor
  · intro h
    induction h with
    | nil => rfl
    | char c _ ih => rw [ih, List.flatMap_cons]
    | half hhalf => cases hhalf
  · rintro rfl
    exact encodes_flatMap s

theorem Encodes.mono {us : List Nat} {s : List Char} (h : Encodes none us s) :
    Encodes half us s := by
  rw [encodes_none_iff.1 h]
  exact encodes_flatMap s

theorem isValidChar_toNat (c : Char) :
    c.toNat < 0xD800 ∨ 0xE000 ≤ c.toNat ∧ c.toNat < 0x110000 := by
  rcases c.valid with h | ⟨h, hlt⟩
  · exact .inl h
  · exact .inr ⟨Nat.succ_le_of_lt h, hlt⟩

/-- The two halves of a code point beyond the first plane make it up again. -/
theorem surrogatePair?_halves {n : Nat} (hlow : 0x10000 ≤ n) (hhigh : n < 0x110000) :
    surrogatePair? (0xD800 + (n - 0x10000) / 0x400) (0xDC00 + (n - 0x10000) % 0x400)
      = some (Char.ofNat n) := by
  have hsum : 0x10000 + (0xD800 + (n - 0x10000) / 0x400 - 0xD800) * 0x400
      + (0xDC00 + (n - 0x10000) % 0x400 - 0xDC00) = n := by omega
  unfold surrogatePair?
  split
  · rw [hsum]
  · omega

theorem ofUnits?_single {u : Nat} {us : List Nat}
    (h : ∀ v rest, us = v :: rest → surrogatePair? u v = none) :
    ofUnits? half (u :: us)
      = (unitChar? half u).bind fun c => (ofUnits? half us).map (c :: ·) := by
  cases us with
  | nil =>
    simp only [ofUnits?]
    cases unitChar? half u <;> rfl
  | cons v rest => rw [ofUnits?, h v rest rfl]

theorem ofUnits?_codeUnits (c : Char) (us : List Nat) :
    ofUnits? half (codeUnits c ++ us) = (ofUnits? half us).map (c :: ·) := by
  have hc := isValidChar_toNat c
  unfold codeUnits
  split
  · next hlow =>
    have hsingle : ∀ v rest, us = v :: rest → surrogatePair? c.toNat v = none :=
      fun v _ _ => if_neg (by omega)
    have hchar : unitChar? half c.toNat = some c := by
      rw [unitChar?, if_pos (by omega), Char.ofNat_toNat]
    rw [List.singleton_append, ofUnits?_single hsingle, hchar]
    rfl
  · next hhigh =>
    have hpair := surrogatePair?_halves (n := c.toNat) (by omega) (by omega)
    rw [Char.ofNat_toNat] at hpair
    rw [List.cons_append, List.singleton_append, ofUnits?, hpair]

/-- The units that a text is encoded in make up the text. -/
theorem ofUnits?_of_encodes {us : List Nat} {s : List Char} (h : Encodes half us s) :
    ofUnits? half us = some s := by
  induction h with
  | nil => rfl
  | char c _ ih =>
    rw [ofUnits?_codeUnits, ih]
    rfl
  | half hhalf hu hsingle _ ih =>
    rw [ofUnits?_single hsingle, ih, unitChar?, if_neg (by unfold IsHalf at hu; omega), hhalf]
    rfl

theorem toNat_ofNat_of_isValidChar {n : Nat} (h : n.isValidChar) : (Char.ofNat n).toNat = n := by
  rw [Char.ofNat, dif_pos h]
  rfl

/-- The character that two halves stand for is encoded in them. -/
theorem codeUnits_of_surrogatePair? {u v : Nat} {c : Char} (h : surrogatePair? u v = some c) :
    codeUnits c = [u, v] := by
  unfold surrogatePair? at h
  split at h
  · next hpair =>
    obtain ⟨hhigh, hhigh', hlow, hlow'⟩ := hpair
    rw [Option.some.injEq] at h
    have hvalid : Nat.isValidChar (0x10000 + (u - 0xD800) * 0x400 + (v - 0xDC00)) :=
      .inr ⟨by omega, by omega⟩
    have hchar : c.toNat = 0x10000 + (u - 0xD800) * 0x400 + (v - 0xDC00) := by
      rw [← h, toNat_ofNat_of_isValidChar hvalid]
    rw [codeUnits, hchar, if_neg (by omega), List.cons.injEq, List.singleton_inj]
    constructor <;> omega
  · cases h

theorem codeUnits_ofNat {u : Nat} (hu : u < 0xD800 ∨ 0xE000 ≤ u) (hlt : u < 0x10000) :
    codeUnits (Char.ofNat u) = [u] := by
  have hvalid : u.isValidChar := hu.imp_right fun h => ⟨by omega, by omega⟩
  have hchar := toNat_ofNat_of_isValidChar hvalid
  rw [codeUnits, hchar, if_pos hlt]

/-- A unit that is not one of a pair is encoded alone. -/
theorem encodes_single {u : Nat} {us : List Nat} {c : Char} {s : List Char} (hlt : u < 0x10000)
    (hsingle : ∀ v rest, us = v :: rest → surrogatePair? u v = none)
    (hchar : unitChar? half u = some c) (hs : Encodes half us s) :
    Encodes half (u :: us) (c :: s) := by
  unfold unitChar? at hchar
  split at hchar
  · next hu =>
    cases hchar
    have h := Encodes.char (Char.ofNat u) hs
    rwa [codeUnits_ofNat hu hlt] at h
  · next hu =>
    simp only [not_or, Nat.not_lt, Nat.not_le] at hu
    exact .half hchar hu hsingle hs

/-- The text that units make up is encoded in them. -/
theorem encodes_of_ofUnits? {us : List Nat} {s : List Char} (hlt : ∀ u ∈ us, u < 0x10000)
    (h : ofUnits? half us = some s) : Encodes half us s := by
  fun_induction ofUnits? half us generalizing s with
  | case1 =>
    cases h
    exact .nil
  | case2 u =>
    obtain ⟨c, hc, rfl⟩ := Option.map_eq_some_iff.1 h
    exact encodes_single (hlt u (.head _)) nofun hc .nil
  | case3 u v rest c hpair ih =>
    obtain ⟨tail, htail, rfl⟩ := Option.map_eq_some_iff.1 h
    have hrest := Encodes.char c (ih (fun w hw => hlt w (.tail _ (.tail _ hw))) htail)
    rwa [codeUnits_of_surrogatePair? hpair] at hrest
  | case4 u v rest hnone ih =>
    obtain ⟨c, hc, hmap⟩ := Option.bind_eq_some_iff.1 h
    obtain ⟨tail, htail, rfl⟩ := Option.map_eq_some_iff.1 hmap
    refine encodes_single (hlt u (.head _)) ?_ hc (ih (fun w hw => hlt w (.tail _ hw)) htail)
    rintro w after e
    cases e
    exact hnone

/-! ### Spelling -/

/-- Whether a text is a code unit in four hexadecimal digits of either case. -/
inductive EscapesUnit : List Char → Nat → Prop
  | intro {a b c d : Char} {i j k l : Nat} : hexValue? a = some i → hexValue? b = some j →
      hexValue? c = some k → hexValue? d = some l →
      EscapesUnit ['\\', 'u', a, b, c, d] (((i * 16 + j) * 16 + k) * 16 + l)

/-- The characters that have an escape of one letter, behind that letter. -/
def shortEscapes : List (Char × Char) := [
  ('"', '"'), ('\\', '\\'), ('/', '/'), ('b', '\x08'), ('f', '\x0c'), ('n', '\n'), ('r', '\r'),
  ('t', '\t')]

/-- Whether a text stands for some code units inside a string: for those of a character, as it is or
by its letter, or for one in hexadecimal digits. -/
inductive Spells : List Char → List Nat → Prop
  | plain (c : Char) : 0x20 ≤ c.toNat → c ≠ '"' → c ≠ '\\' → Spells [c] (codeUnits c)
  | short {e c : Char} : (e, c) ∈ shortEscapes → Spells ['\\', e] [c.toNat]
  | unit {cs : List Char} {u : Nat} : EscapesUnit cs u → Spells cs [u]

/-- Whether a text is a string that holds some characters. -/
def IsString (half : Option Char) (cs s : List Char) : Prop :=
  ∃ parts units, List.Forall₂ Spells parts units ∧ Encodes half units.flatten s
    ∧ cs = '"' :: (parts.flatten ++ ['"'])

theorem IsString.mono {cs s : List Char} (h : IsString none cs s) : IsString half cs s := by
  obtain ⟨parts, units, hparts, hunits, rfl⟩ := h
  exact ⟨parts, units, hparts, hunits.mono, rfl⟩

theorem exists_hex4? {u : List Char} {n : Nat} (h : EscapesUnit u n) :
    ∃ a b c d, u = ['\\', 'u', a, b, c, d] ∧ hex4? a b c d = some n := by
  obtain ⟨ha, hb, hc, hd⟩ := h
  refine ⟨_, _, _, _, rfl, ?_⟩
  simp only [hex4?, ha, hb, hc, hd, Option.bind_eq_bind, Option.bind_some, Option.some.injEq]
  omega

theorem escapesUnit_of_hex4? {a b c d : Char} {n : Nat} (h : hex4? a b c d = some n) :
    EscapesUnit ['\\', 'u', a, b, c, d] n := by
  unfold hex4? at h
  simp only [Option.bind_eq_bind, Option.bind_eq_some_iff, Option.some.injEq] at h
  obtain ⟨i, ha, j, hb, k, hc, l, hd, rfl⟩ := h
  have hunit := EscapesUnit.intro ha hb hc hd
  have hvalue : ((i * 16 + j) * 16 + k) * 16 + l = (i * 16 + j) * 256 + k * 16 + l := by omega
  rwa [hvalue] at hunit

theorem lt_of_hexValue? {c : Char} {n : Nat} (h : hexValue? c = some n) : n < 16 := by
  unfold hexValue? isDigit at h
  simp only [Bool.and_eq_true, decide_eq_true_eq, Char.le_def, UInt32.le_iff_toNat_le] at h
  change (if 48 ≤ c.toNat ∧ c.toNat ≤ 57 then some (c.toNat - 48)
    else if 97 ≤ c.toNat ∧ c.toNat ≤ 102 then some (c.toNat - 97 + 10)
    else if 65 ≤ c.toNat ∧ c.toNat ≤ 70 then some (c.toNat - 65 + 10) else none) = some n at h
  split at h
  · rw [Option.some.injEq] at h
    omega
  · split at h
    · rw [Option.some.injEq] at h
      omega
    · split at h
      · rw [Option.some.injEq] at h
        omega
      · cases h

/-- What is spelled are code units of 16 bits. -/
theorem lt_of_spells {cs : List Char} {us : List Nat} (h : Spells cs us) :
    ∀ u ∈ us, u < 0x10000 := by
  cases h with
  | plain c =>
    have hc := isValidChar_toNat c
    unfold codeUnits
    split
    · next hlow => exact List.forall_mem_singleton.2 hlow
    · simp only [List.forall_mem_cons, List.not_mem_nil, false_imp_iff, implies_true, and_true]
      constructor <;> omega
  | short hmem =>
    have hall : ∀ p ∈ shortEscapes, p.2.toNat < 0x10000 := by decide
    exact List.forall_mem_singleton.2 (hall _ hmem)
  | unit hunit =>
    obtain ⟨ha, hb, hc, hd⟩ := hunit
    have hi := lt_of_hexValue? ha
    have hj := lt_of_hexValue? hb
    have hk := lt_of_hexValue? hc
    have hl := lt_of_hexValue? hd
    refine List.forall_mem_singleton.2 ?_
    omega

theorem lt_of_forall₂_spells {parts : List (List Char)} {units : List (List Nat)}
    (h : List.Forall₂ Spells parts units) : ∀ u ∈ units.flatten, u < 0x10000 := by
  induction h with
  | nil => exact nofun
  | cons hpart _ ih =>
    rw [List.flatten_cons, List.forall_mem_append]
    exact ⟨lt_of_spells hpart, ih⟩

/-! ### Reading -/

/-- A character that needs no escape is read as it is. -/
theorem readUnits_plain {c : Char} (hcontrol : 0x20 ≤ c.toNat) (hquote : c ≠ '"')
    (hslash : c ≠ '\\') (rest : List Char) :
    readUnits (c :: rest) = consUnits (codeUnits c) (readUnits rest) := by
  rw [readUnits.eq_def]
  split
  · next e => cases e
  · next e => exact absurd (List.cons.inj e).1 hquote
  · next e => exact absurd (List.cons.inj e).1 hslash
  · next e => exact absurd (List.cons.inj e).1 hslash
  · next e =>
    cases e
    rw [if_neg (by omega)]

/-- What stands for code units is read as those. -/
theorem readUnits_of_spells {cs : List Char} {us : List Nat} (h : Spells cs us)
    (rest : List Char) : readUnits (cs ++ rest) = consUnits us (readUnits rest) := by
  cases h with
  | plain _ hcontrol hquote hslash => exact readUnits_plain hcontrol hquote hslash rest
  | short hmem =>
    simp only [shortEscapes, List.mem_cons, Prod.mk.injEq, List.not_mem_nil, or_false] at hmem
    rcases hmem with ⟨rfl, rfl⟩ | ⟨rfl, rfl⟩ | ⟨rfl, rfl⟩ | ⟨rfl, rfl⟩ | ⟨rfl, rfl⟩ | ⟨rfl, rfl⟩
      | ⟨rfl, rfl⟩ | ⟨rfl, rfl⟩ <;> rfl
  | unit hunit =>
    obtain ⟨a, b, c, d, rfl, hvalue⟩ := exists_hex4? hunit
    simp only [List.cons_append, List.nil_append, readUnits, hvalue]

/-- The code units of a string are read up to its closing quote. -/
theorem readUnits_of_forall₂ {parts : List (List Char)} {units : List (List Nat)}
    (h : List.Forall₂ Spells parts units) (after : List Char) :
    readUnits (parts.flatten ++ '"' :: after) = some (units.flatten, after) := by
  induction h with
  | nil => rfl
  | cons hpart _ ih =>
    rw [List.flatten_cons, List.append_assoc, readUnits_of_spells hpart, ih, List.flatten_cons]
    rfl

theorem mem_shortEscapes {e c : Char} (h : unescape? e = some c) : (e, c) ∈ shortEscapes := by
  unfold unescape? at h
  split at h <;> cases h <;> decide

theorem exists_consUnits {us units : List Nat} {rest : List Char}
    {r : Option (List Nat × List Char)} (h : consUnits us r = some (units, rest)) :
    ∃ tail, r = some (tail, rest) ∧ units = us ++ tail := by
  obtain ⟨⟨tail, after⟩, rfl, e⟩ := Option.map_eq_some_iff.1 h
  cases e
  exact ⟨tail, rfl, rfl⟩

theorem exists_spells_cons {part tail rest : List Char} {first more : List Nat}
    (hpart : Spells part first)
    (h : ∃ parts units, List.Forall₂ Spells parts units ∧ more = units.flatten
      ∧ tail = parts.flatten ++ '"' :: rest) :
    ∃ parts units, List.Forall₂ Spells parts units ∧ first ++ more = units.flatten
      ∧ part ++ tail = parts.flatten ++ '"' :: rest := by
  obtain ⟨parts, units, hparts, rfl, rfl⟩ := h
  exact ⟨part :: parts, first :: units, .cons hpart hparts, by simp, by simp⟩

/-- What is read up to a quote is spelled. -/
theorem exists_spells {cs rest : List Char} {us : List Nat} (h : readUnits cs = some (us, rest)) :
    ∃ parts units, List.Forall₂ Spells parts units ∧ us = units.flatten
      ∧ cs = parts.flatten ++ '"' :: rest := by
  fun_induction readUnits cs generalizing us with
  | case1 => cases h
  | case2 after =>
    cases h
    exact ⟨[], [], .nil, rfl, rfl⟩
  | case3 => cases h
  | case4 a b c d after n hvalue ih =>
    obtain ⟨tail, htail, rfl⟩ := exists_consUnits h
    exact exists_spells_cons (.unit (escapesUnit_of_hex4? hvalue)) (ih htail)
  | case5 e after _ c hvalue ih =>
    obtain ⟨tail, htail, rfl⟩ := exists_consUnits h
    exact exists_spells_cons (.short (mem_shortEscapes hvalue)) (ih htail)
  | case6 => cases h
  | case7 => cases h
  | case8 c after hquote _ hslash hcontrol ih =>
    obtain ⟨tail, htail, rfl⟩ := exists_consUnits h
    have hne : c ≠ '\\' := by
      rintro rfl
      cases after with
      | nil => cases htail
      | cons e more => exact hslash e more rfl rfl
    exact exists_spells_cons (.plain c (Nat.not_lt.1 hcontrol) hquote hne) (ih htail)

/-- A string is read as what it holds. -/
theorem readString_of_isString {cs s : List Char} (h : IsString half cs s) :
    ∃ body, cs = '"' :: body ∧ ∀ after, readString half (body ++ after) = some (s, after) := by
  obtain ⟨parts, units, hparts, hunits, rfl⟩ := h
  refine ⟨_, rfl, fun after => ?_⟩
  rw [List.append_assoc, List.singleton_append, readString, readUnits_of_forall₂ hparts,
    Option.bind_some]
  dsimp only
  rw [ofUnits?_of_encodes hunits]
  rfl

/-- What is read is a string. -/
theorem isString_of_readString {cs s rest : List Char}
    (h : readString half cs = some (s, rest)) :
    ∃ body, cs = body ++ rest ∧ IsString half ('"' :: body) s := by
  obtain ⟨⟨us, after⟩, hus, hs⟩ := Option.bind_eq_some_iff.1 h
  obtain ⟨text, htext, e⟩ := Option.map_eq_some_iff.1 hs
  cases e
  obtain ⟨parts, units, hparts, rfl, rfl⟩ := exists_spells hus
  have hunits := encodes_of_ofUnits? (lt_of_forall₂_spells hparts) htext
  exact ⟨parts.flatten ++ ['"'], by simp, parts, units, hparts, hunits, rfl⟩

end StagedTable.Json
