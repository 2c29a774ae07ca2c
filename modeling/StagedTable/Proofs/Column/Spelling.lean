import StagedTable.Proofs.Column.BaseName
import StagedTable.Proofs.Column.Precedence
import StagedTable.Proofs.Text.Trimmed
import Mathlib.Data.List.Basic
import Mathlib.Data.List.Find

/-!
# The ways to spell a type

A type can be written in many ways: in any letter case, with blanks around it, with any blanks
between its words, and with modifiers behind them. `Respells` goes through two spellings of a name
piece by piece, where a piece may be a word or a part of one. Both read alike
(`Respells.reading_eq`), so that their base names are the same but for the small sigmas, and no rule
for the built-in types tells the sigmas apart (`kind_builtIn_congr`). So all spellings of a type are
of one kind, and what is marked as an array by its end or by its start is one, whatever stands
between (`kind_of_spelling`).
-/

namespace StagedTable

open Text

/-! ### Spellings -/

namespace TypeName

/-- Whether a text is a part of a name without blanks or parentheses, and another one the same but
for the case of ASCII letters. -/
structure Recased (w w' : List Char) : Prop where
  ne_nil : w ≠ []
  not_isSeparator : ∀ c ∈ w, isSeparator c = false
  map_asciiLower : w'.map asciiLower = w.map asciiLower

instance (w w' : List Char) : Decidable (Recased w w') :=
  decidable_of_iff (w ≠ [] ∧ w.all (!isSeparator ·) = true
      ∧ w'.map asciiLower = w.map asciiLower) <| by
    simp only [List.all_eq_true, Bool.not_eq_true']
    exact ⟨fun ⟨hne, hw, hmap⟩ => ⟨hne, hw, hmap⟩, fun ⟨hne, hw, hmap⟩ => ⟨hne, hw, hmap⟩⟩

/-- Whether two texts hold blanks only, and both some or both none. -/
structure SameGap (g g' : List Char) : Prop where
  isBlank_left : allBlank g = true
  isBlank_right : allBlank g' = true
  eq_nil_iff : g' = [] ↔ g = []

instance (g g' : List Char) : Decidable (SameGap g g') :=
  decidable_of_iff (allBlank g = true ∧ allBlank g' = true ∧ (g' = [] ↔ g = []))
    ⟨fun ⟨hg, hg', hnil⟩ => ⟨hg, hg', hnil⟩, fun ⟨hg, hg', hnil⟩ => ⟨hg, hg', hnil⟩⟩

/-- Whether two texts, neither with blanks at its ends, spell the same name: piece by piece they are
the same but for the case of ASCII letters, behind each piece the second one may have modifiers, and
behind these it has blanks where the first one has some. -/
inductive Respells : List Char → List Char → Prop
  | last {w w'} (modifiers : List Modifier) : Recased w w' →
      Respells w (w' ++ modifiersText modifiers)
  | next {w w' g g' t s} (modifiers : List Modifier) : Recased w w' → SameGap g g' → Respells t s →
      Respells (w ++ (g ++ t)) (w' ++ (modifiersText modifiers ++ (g' ++ s)))

/-- Whether the second text is a spelling of the name that the first one is, both with any blanks
around them. -/
def IsSpelling (name spelling : List Char) : Prop :=
  ∃ before after before' after' t s, allBlank before = true ∧ allBlank after = true
    ∧ allBlank before' = true ∧ allBlank after' = true ∧ Respells t s
    ∧ name = before ++ (t ++ after) ∧ spelling = before' ++ (s ++ after')

/-! ### Spellings read alike -/

namespace Recased

variable {w w' : List Char}

theorem ne_nil_right (h : Recased w w') : w' ≠ [] := by
  have hlength := congrArg List.length h.map_asciiLower
  rw [List.length_map, List.length_map] at hlength
  rw [← List.length_pos_iff, hlength]
  exact List.length_pos_iff.2 h.ne_nil

theorem not_isSeparator_right (h : Recased w w') : ∀ c ∈ w', isSeparator c = false := by
  intro c hc
  have hlower := List.mem_map_of_mem (f := asciiLower) hc
  rw [h.map_asciiLower] at hlower
  obtain ⟨d, hd, heq⟩ := List.mem_map.1 hlower
  rw [← isSeparator_asciiLower, ← heq, isSeparator_asciiLower]
  exact h.not_isSeparator d hd

end Recased

namespace Respells

variable {t s : List Char}

/-- Both spellings start with a character of the name. -/
theorem exists_head (h : Respells t s) :
    (∃ c r, t = c :: r ∧ isSeparator c = false) ∧ ∃ c r, s = c :: r ∧ isSeparator c = false := by
  have hhead : ∀ {w : List Char}, w ≠ [] → (∀ c ∈ w, isSeparator c = false) → ∀ rest,
      ∃ c r, w ++ rest = c :: r ∧ isSeparator c = false := by
    intro w hne hw rest
    obtain ⟨c, r, rfl⟩ := List.exists_cons_of_ne_nil hne
    exact ⟨c, r ++ rest, rfl, hw c (.head r)⟩
  cases h with
  | @last w w' modifiers hw =>
    have ht := hhead hw.ne_nil hw.not_isSeparator []
    rw [List.append_nil] at ht
    exact ⟨ht, hhead hw.ne_nil_right hw.not_isSeparator_right _⟩
  | next modifiers hw =>
    exact ⟨hhead hw.ne_nil hw.not_isSeparator _, hhead hw.ne_nil_right hw.not_isSeparator_right _⟩

/-- Neither spelling ends with a blank. -/
theorem not_blank_getLast? (h : Respells t s) :
    (∀ c, t.getLast? = some c → isBlank c = false)
    ∧ ∀ c, s.getLast? = some c → isBlank c = false := by
  induction h with
  | @last w w' modifiers hw =>
    refine ⟨fun c hc => ?_, fun c hc => ?_⟩
    · exact not_blank_of_isSeparator (hw.not_isSeparator c (List.mem_of_getLast? hc))
    · rcases modifiersText_cases modifiers with hnil | ⟨cs, hcs⟩
      · rw [hnil, List.append_nil] at hc
        exact not_blank_of_isSeparator (hw.not_isSeparator_right c (List.mem_of_getLast? hc))
      · rw [hcs, ← List.append_assoc, List.getLast?_concat] at hc
        cases hc
        rfl
  | @next w w' g g' t s modifiers hw hgap hts ih =>
    obtain ⟨⟨c, r, rfl, -⟩, c', r', rfl, -⟩ := hts.exists_head
    rw [← List.append_assoc, List.getLast?_append_cons, ← List.append_assoc, ← List.append_assoc,
      List.getLast?_append_cons]
    exact ih

theorem reading_eq (h : Respells t s) : reading s = reading t := by
  induction h with
  | @last w w' modifiers hw =>
    have hnil : reading [] = [] := rfl
    have hmodifiers := reading_modifiers modifiers []
    rw [List.append_nil] at hmodifiers
    rw [reading_word hw.not_isSeparator_right, hmodifiers,
      flatMap_smallLetters_congr hw.map_asciiLower, ← reading_word hw.not_isSeparator,
      List.append_nil]
  | @next w w' g g' t s modifiers hw hgap hts ih =>
    obtain ⟨⟨c, r, rfl, hc⟩, c', r', rfl, hc'⟩ := hts.exists_head
    have hspace : spaceOf g' = spaceOf g := by simp only [spaceOf, hgap.eq_nil_iff]
    rw [reading_word hw.not_isSeparator_right, reading_modifiers,
      reading_gap hgap.isBlank_right hc', ih, hspace, flatMap_smallLetters_congr hw.map_asciiLower,
      reading_word hw.not_isSeparator, reading_gap hgap.isBlank_left hc]

end Respells

/-- All spellings of a name have one base name, but for the small sigmas. -/
theorem base_eq_of_isSpelling {name spelling : List Char} (h : IsSpelling name spelling) :
    (base spelling).map foldSigma = (base name).map foldSigma := by
  obtain ⟨before, after, before', after', t, s, hbefore, hafter, hbefore', hafter', hts, rfl, rfl⟩
    := h
  obtain ⟨⟨c, r, rfl, hc⟩, c', r', rfl, hc'⟩ := hts.exists_head
  have hheads : ∀ {x y : Char} {ys : List Char}, isSeparator y = false →
      (y :: ys).head? = some x → isBlank x = false := by
    intro x y ys hy hx
    cases hx
    exact not_blank_of_isSeparator hy
  obtain ⟨hlast, hlast'⟩ := hts.not_blank_getLast?
  rw [map_foldSigma_base, map_foldSigma_base,
    trim_padded hbefore hafter (List.cons_ne_nil c r) (fun _ => hheads hc) hlast,
    trim_padded hbefore' hafter' (List.cons_ne_nil c' r') (fun _ => hheads hc') hlast',
    hts.reading_eq]

end TypeName

/-! ### Rules for the built-in types -/

/-- Whether a rule does not tell the small sigmas apart. -/
def KindRule.IgnoresSigma (r : KindRule) : Prop :=
  ∀ cs, r.accepts (cs.map foldSigma) = r.accepts cs

namespace KindRule

variable {kind : Kind} {priority : Int}

theorem ignoresSigma_exact {names : List String}
    (h : names.all (isSigmaFree ·.toList) = true) : (exact names kind priority).IgnoresSigma := by
  intro cs
  rw [List.all_eq_true] at h
  rw [Bool.eq_iff_iff]
  simp only [exact, List.any_eq_true, beq_iff_eq]
  refine exists_congr fun s => and_congr_right fun hs => ?_
  rw [eq_comm, map_foldSigma_eq_iff (h s hs), eq_comm]

theorem ignoresSigma_startingWith {start : String} (h : isSigmaFree start.toList = true) :
    (startingWith start kind priority).IgnoresSigma := by
  intro cs
  exact Bool.eq_iff_iff.2 (by simpa [startingWith] using isPrefix_map_foldSigma_iff h)

theorem ignoresSigma_endingWith {ending : String} (h : isSigmaFree ending.toList = true) :
    (endingWith ending kind priority).IgnoresSigma := by
  intro cs
  exact Bool.eq_iff_iff.2 (by simpa [endingWith] using isSuffix_map_foldSigma_iff h)

end KindRule

namespace KindRegistry

theorem ignoresSigma_of_mem_builtIn {r : KindRule} (h : r ∈ builtIn) : r.IgnoresSigma := by
  rw [builtIn, mem_ofRules] at h
  simp only [List.mem_cons, List.not_mem_nil, or_false] at h
  rcases h with rfl | rfl | rfl | rfl | rfl | rfl | rfl | rfl | rfl | rfl
  · exact KindRule.ignoresSigma_endingWith rfl
  · exact KindRule.ignoresSigma_startingWith rfl
  · exact KindRule.ignoresSigma_exact rfl
  · exact KindRule.ignoresSigma_exact rfl
  · exact KindRule.ignoresSigma_exact rfl
  · exact KindRule.ignoresSigma_exact rfl
  · exact KindRule.ignoresSigma_exact rfl
  · exact KindRule.ignoresSigma_exact rfl
  · exact KindRule.ignoresSigma_startingWith rfl
  · exact KindRule.ignoresSigma_exact rfl

/-- The kind of a type under the rules for the built-in types depends on its base name only, small
sigmas held equal. -/
theorem kind_builtIn_congr {t s : List Char}
    (h : (TypeName.base s).map foldSigma = (TypeName.base t).map foldSigma) :
    builtIn.kind s = builtIn.kind t := by
  have haccepts : ∀ r ∈ builtIn,
      r.accepts (TypeName.base s) = r.accepts (TypeName.base t) := by
    intro r hr
    have hignores := ignoresSigma_of_mem_builtIn hr
    rw [← hignores (TypeName.base s), h, hignores]
  rw [kind, kind, List.find?_congr haccepts]

end KindRegistry

/-! ### Arrays -/

namespace KindRegistry

/-- The first two rules for the built-in types. -/
theorem builtIn_eq : ∃ rest, builtIn
    = .endingWith "[]" .array 200 :: .startingWith "_" .array 200 :: rest := ⟨_, rfl⟩

/-- A type is an array if one of the first two rules accepts its base name. -/
theorem kind_array {t : List Char}
    (h : (KindRule.endingWith "[]" .array 200).accepts (TypeName.base t) = true
      ∨ (KindRule.startingWith "_" .array 200).accepts (TypeName.base t) = true) :
    builtIn.kind t = .array := by
  obtain ⟨rest, hrest⟩ := builtIn_eq
  unfold kind
  rw [hrest, List.find?_cons]
  cases hend : (KindRule.endingWith "[]" .array 200).accepts (TypeName.base t) with
  | true => rfl
  | false =>
    rw [hend] at h
    rw [List.find?_cons, h.resolve_left nofun]
    rfl

theorem kind_brackets (cs : List Char) : builtIn.kind (cs ++ "[]".toList) = .array := by
  apply kind_array
  left
  have htrim : trim (cs ++ "[]".toList) = trimStart cs ++ "[]".toList := by
    have hstart : trimStart (cs ++ "[]".toList) = trimStart cs ++ "[]".toList :=
      trimStart_append rfl cs [']']
    have hend := trimEnd_append (c := '[') rfl (trimStart cs) [']']
    rw [trim, hstart]
    exact hend
  rw [← KindRule.ignoresSigma_endingWith rfl, TypeName.map_foldSigma_base, htrim]
  exact List.isSuffixOf_iff_suffix.2 (TypeName.isSuffix_reading _)

theorem kind_underscore (cs : List Char) : builtIn.kind ('_' :: cs) = .array := by
  apply kind_array
  right
  have htrim : trim ('_' :: cs) = '_' :: trimEnd cs := by
    have hstart : trimStart ('_' :: cs) = '_' :: cs := trimStart_append rfl [] cs
    rw [trim, hstart]
    exact trimEnd_append rfl [] cs
  have hunderscore : ∀ c ∈ ['_'], isSeparator c = false := List.forall_mem_singleton.2 (by decide)
  have hword := TypeName.reading_word hunderscore (trimEnd cs)
  rw [← KindRule.ignoresSigma_startingWith rfl, TypeName.map_foldSigma_base, htrim]
  exact List.isPrefixOf_iff_prefix.2 ⟨_, hword.symm⟩

end KindRegistry

/-! ### Spellings of built-in types -/

namespace TypeName

/-- Whether a name is not blank and holds no parentheses. -/
structure IsPlain (name : List Char) : Prop where
  not_blank : allBlank name = false
  not_mem_open : '(' ∉ name
  not_mem_close : ')' ∉ name

theorem Recased.refl {w : List Char} (hne : w ≠ []) (hw : ∀ c ∈ w, isSeparator c = false) :
    Recased w w := ⟨hne, hw, rfl⟩

theorem Respells.refl {cs : List Char} (hne : cs ≠ [])
    (hplain : ∀ c ∈ cs, isBlank c = false → isSeparator c = false)
    (hstart : ∀ c, cs.head? = some c → isBlank c = false)
    (hend : ∀ c, cs.getLast? = some c → isBlank c = false) : Respells cs cs := by
  -- each piece is one character, with the blanks behind it
  induction hlength : cs.length using Nat.strong_induction_on generalizing cs with
  | _ n ih =>
    obtain ⟨c, rest, rfl⟩ := List.exists_cons_of_ne_nil hne
    have hpiece : Recased [c] [c] :=
      .refl (List.cons_ne_nil c []) (by simpa using hplain c (.head rest) (hstart c rfl))
    have hgap := allBlank_takeWhile rest
    have hsplit : rest.takeWhile isBlank ++ trimStart rest = rest := List.takeWhile_append_dropWhile
    cases hrest : trimStart rest with
    | nil =>
      -- blanks behind the last character would be at the end
      rw [hrest, List.append_nil] at hsplit
      rw [hsplit] at hgap
      cases hlast : rest.getLast? with
      | none =>
        obtain rfl := List.getLast?_eq_none_iff.1 hlast
        exact .last [] hpiece
      | some x =>
        have hx := hend x (by rw [List.getLast?_cons, hlast]; rfl)
        rw [List.all_eq_true.1 hgap x (List.mem_of_getLast? hlast)] at hx
        cases hx
    | cons d ds =>
      rw [hrest] at hsplit
      have hshorter : (d :: ds).length < n := by
        rw [← hlength, ← hsplit]
        simp only [List.length_cons, List.length_append]
        omega
      have hmem : ∀ x ∈ d :: ds, x ∈ c :: rest := by
        intro x hx
        rw [← hsplit]
        exact .tail c (List.mem_append_right _ hx)
      have hbehind : Respells (d :: ds) (d :: ds) := by
        refine ih _ hshorter (List.cons_ne_nil d ds) (fun x hx => hplain x (hmem x hx)) ?_ ?_ rfl
        · intro x hx
          cases hx
          exact head_trimStart hrest
        · intro x hx
          refine hend x ?_
          rw [← hsplit, ← List.cons_append, List.getLast?_append_cons, hx]
      have := Respells.next [] hpiece ⟨hgap, hgap, Iff.rfl⟩ hbehind
      rw [← hsplit]
      exact this

theorem isSpelling_self {name : List Char} (h : IsPlain name) : IsSpelling name name := by
  obtain ⟨before, after, hbefore, hafter, hname⟩ := exists_padding name
  obtain ⟨hstart, hend⟩ := not_blank_trim_ends name
  refine ⟨before, after, before, after, trim name, trim name, hbefore, hafter, hbefore, hafter,
    .refl ?_ (fun c hc hblank => ?_) hstart hend, hname, hname⟩
  · intro hnil
    have hall : allBlank name = true := by
      rw [hname, hnil, allBlank, List.nil_append, List.all_append, Bool.and_eq_true]
      exact ⟨hbefore, hafter⟩
    rw [h.not_blank] at hall
    cases hall
  · have hmem := (trim_isInfix name).subset hc
    have hopen : c ≠ '(' := fun heq => h.not_mem_open (heq ▸ hmem)
    have hclose : c ≠ ')' := fun heq => h.not_mem_close (heq ▸ hmem)
    simp [isSeparator, hblank, hopen, hclose]

end TypeName

/-- All spellings of a type are of one kind, and what ends with brackets or starts with an
underscore is an array. -/
theorem kind_of_spelling :
    (∀ name : String, TypeName.IsPlain name.toList →
      TypeName.IsSpelling name.toList name.toList
      ∧ ∀ spelling : String, TypeName.IsSpelling name.toList spelling.toList →
        Kind.ofType spelling = Kind.ofType name)
    ∧ ∀ name : String,
      Kind.ofType (name ++ "[]") = .array ∧ Kind.ofType ("_" ++ name) = .array := by
  refine ⟨fun name hname => ⟨TypeName.isSpelling_self hname, fun spelling h => ?_⟩, fun name => ?_⟩
  · exact KindRegistry.kind_builtIn_congr (TypeName.base_eq_of_isSpelling h)
  · rw [Kind.ofType, Kind.ofType, String.toList_append, String.toList_append]
    exact ⟨KindRegistry.kind_brackets _, KindRegistry.kind_underscore _⟩

/-- A type of three words in another letter case, with a modifier behind the first one and other
blanks between them. -/
theorem kind_of_spelling_timestamp :
    TypeName.IsPlain "timestamp time zone".toList
    ∧ TypeName.IsSpelling "timestamp time zone".toList " Timestamp (3) TIME  zone".toList
    ∧ Kind.ofType " Timestamp (3) TIME  zone" = Kind.ofType "timestamp time zone"
    ∧ Kind.ofType ("timestamp(" ++ "[]") = .array := by
  have hplain : TypeName.IsPlain "timestamp time zone".toList := ⟨by decide, by decide, by decide⟩
  have hfirst : TypeName.Recased "timestamp".toList "Timestamp".toList := by decide +kernel
  have hsecond : TypeName.Recased "time".toList "TIME".toList := by decide +kernel
  have hthird : TypeName.Recased "zone".toList "zone".toList := by decide +kernel
  have hgap : TypeName.SameGap [' '] [' '] := by decide
  have hwider : TypeName.SameGap [' '] [' ', ' '] := by decide
  have hrespells := TypeName.Respells.next [⟨[' '], ['3'], rfl, by decide⟩] hfirst hgap
    (.next [] hsecond hwider (.last [] hthird))
  have hspelling : TypeName.IsSpelling "timestamp time zone".toList
      " Timestamp (3) TIME  zone".toList :=
    ⟨[], [], [' '], [], _, _, rfl, rfl, rfl, rfl, hrespells, by decide +kernel, by decide +kernel⟩
  obtain ⟨hkinds, harrays⟩ := kind_of_spelling
  exact ⟨hplain, hspelling, (hkinds _ hplain).2 _ hspelling, (harrays "timestamp(").1⟩

end StagedTable
