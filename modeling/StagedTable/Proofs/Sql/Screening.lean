import StagedTable.Sql.Guard
import StagedTable.Proofs.Text.Trimmed

/-!
# Refused texts

`Orders words cs rest` says that a text holds a semicolon with words of a statement behind it, in
any letter case, each word with white space behind it. A text is refused exactly if it has the start
of a comment, or such an order to drop, truncate or alter, or one to delete whose line goes on
without the letters of the word where (`isDangerous_iff`).

So a delete is judged by its line. That is the judgement by its statement, which ends at the next
semicolon, and by the keyword, a word that nothing joins to its neighbours, if the letters are on
the line exactly if the keyword is in the statement (`isDangerous_judges`). A condition on a later
line is not seen, and a condition of the next statement is taken for one, as is a name with these
letters in it (`isDangerous_misjudges`).
-/

namespace StagedTable.Sql.Guard

open Text

/-! ### Orders -/

/-- Whether a text starts with words in any letter case, each with white space behind it, and goes
on with `rest`. -/
def Spells : List String → List Char → List Char → Prop
  | [], cs, rest => cs = rest
  | word :: words, cs, rest => ∃ w b gap after, cs = w ++ b :: (gap ++ after)
      ∧ isWord word.toList w = true ∧ isBlank b = true ∧ allBlank gap = true
      ∧ Spells words after rest

/-- Whether a text holds a semicolon and, blanks aside, words behind it; `rest` follows them. -/
def Orders (words : List String) (cs rest : List Char) : Prop :=
  ∃ before gap after, cs = before ++ ';' :: (gap ++ after) ∧ allBlank gap = true
    ∧ Spells words after rest

/-- Whether a text orders to drop, truncate or alter something. -/
def Destroys (cs : List Char) : Prop :=
  ∃ word ∈ ["drop", "truncate", "alter"], ∃ rest, Orders [word] cs rest

/-- Whether a comment starts somewhere in a text. -/
def HoldsComment (cs : List Char) : Prop := "--".toList <:+: cs ∨ "/*".toList <:+: cs

/-- Whether the letters of a word occur in a text, as a word or inside one. -/
def HoldsLetters (word : String) (cs : List Char) : Prop :=
  ∃ w, w <:+: cs ∧ isWord word.toList w = true

/-- Whether a word stands in a text with nothing beside it that would join it to its neighbour. -/
def HoldsKeyword (joins : Char → Bool) (word : String) (cs : List Char) : Prop :=
  ∃ before w after, cs = before ++ (w ++ after) ∧ isWord word.toList w = true
    ∧ before.getLast?.any joins = false ∧ after.head?.any joins = false

/-- What is left of a statement. -/
def statementRest (cs : List Char) : List Char := cs.takeWhile (· != ';')

/-- Whether a text orders a delete without the keyword of a condition in its statement. -/
def DeletesUnqualified (joins : Char → Bool) (cs : List Char) : Prop :=
  ∃ rest, Orders ["delete", "from"] cs rest ∧ ¬ HoldsKeyword joins "where" (statementRest rest)

/-- The characters that a name can go on with: a word that has one beside it is part of a longer
one. -/
def joinsName (c : Char) : Bool := c.isAlphanum || c == '_' || (0x80 ≤ c.toNat && !isBlank c)

/-! ### Words -/

theorem asciiLower_of_isBlank {c : Char} (h : isBlank c = true) : asciiLower c = c := by
  have hcapital : ('A' ≤ c && c ≤ 'Z') = false := by
    simp [isBlank] at h
    simp [Char.le_def, UInt32.le_iff_toNat_le] at *
    omega
  rw [asciiLower, hcapital]
  rfl

/-- Whether a word can be told from the blanks around it. -/
def isSolid (word : String) : Bool := word.toList != [] && word.toList.all (!isBlank ·)

section

variable {word : String} {w : List Char} (hword : isSolid word = true)
  (hw : isWord word.toList w = true)
include hword hw

theorem not_isBlank_of_isWord {c : Char} (hc : c ∈ w) : isBlank c = false := by
  by_contra hblank
  rw [Bool.not_eq_false] at hblank
  have hmem : asciiLower c ∈ word.toList := by
    rw [← beq_iff_eq.1 hw]
    exact List.mem_map_of_mem hc
  rw [asciiLower_of_isBlank hblank] at hmem
  have := List.all_eq_true.1 (Bool.and_eq_true_iff.1 hword).2 c hmem
  rw [hblank] at this
  cases this

/-- A text that starts with the word does not start with a blank. -/
theorem trimStart_word (after : List Char) : trimStart (w ++ after) = w ++ after := by
  cases hcs : w with
  | nil =>
    have hnil : word.toList = [] := by rw [← beq_iff_eq.1 hw, hcs]; rfl
    rw [isSolid, hnil] at hword
    cases hword
  | cons c r =>
    have hc : isBlank c = false := not_isBlank_of_isWord hword hw (hcs ▸ List.mem_cons_self)
    rw [List.cons_append, trimStart, List.dropWhile_cons, if_neg (by rw [hc]; decide)]

end

theorem trimStart_gap {gap : List Char} (hgap : allBlank gap = true) (cs : List Char) :
    trimStart (gap ++ cs) = trimStart cs :=
  List.dropWhile_append_of_pos (List.all_eq_true.1 hgap)

/-- A word that is looked for behind blanks stands where they end. -/
theorem exists_gap_spells {word : String} (hword : isSolid word = true) {words : List String}
    {cs rest : List Char} :
    (∃ gap after, cs = gap ++ after ∧ allBlank gap = true ∧ Spells (word :: words) after rest)
      ↔ Spells (word :: words) (trimStart cs) rest := by
  constructor
  · rintro ⟨gap, after, rfl, hgap, hspells⟩
    obtain ⟨w, b, gap', after', rfl, hw, hrest⟩ := hspells
    rw [trimStart_gap hgap, trimStart_word hword hw]
    exact ⟨w, b, gap', after', rfl, hw, hrest⟩
  · exact fun h => ⟨cs.takeWhile isBlank, trimStart cs, (List.takeWhile_append_dropWhile).symm,
      allBlank_takeWhile cs, h⟩

theorem spells_singleton_iff {word : String} {cs rest : List Char} : Spells [word] cs rest
    ↔ ∃ b gap, afterWord? word.toList cs = some (b :: (gap ++ rest)) ∧ isBlank b = true
      ∧ allBlank gap = true := by
  constructor
  · rintro ⟨w, b, gap, _, rfl, hw, hb, hgap, rfl⟩
    exact ⟨b, gap, afterWord?_eq_some_iff.2 ⟨w, rfl, hw⟩, hb, hgap⟩
  · rintro ⟨b, gap, hafter, hb, hgap⟩
    obtain ⟨w, rfl, hw⟩ := afterWord?_eq_some_iff.1 hafter
    exact ⟨w, b, gap, rest, rfl, hw, hb, hgap, rfl⟩

theorem spells_cons_iff {word next : String} (hnext : isSolid next = true) {words : List String}
    {cs rest : List Char} : Spells (word :: next :: words) cs rest
      ↔ ∃ b after, afterWord? word.toList cs = some (b :: after) ∧ isBlank b = true
        ∧ Spells (next :: words) (trimStart after) rest := by
  constructor
  · rintro ⟨w, b, gap, after, rfl, hw, hb, hgap, hspells⟩
    exact ⟨b, gap ++ after, afterWord?_eq_some_iff.2 ⟨w, rfl, hw⟩, hb,
      (exists_gap_spells hnext).1 ⟨gap, after, rfl, hgap, hspells⟩⟩
  · rintro ⟨b, after, hafter, hb, hspells⟩
    obtain ⟨w, rfl, hw⟩ := afterWord?_eq_some_iff.1 hafter
    obtain ⟨gap, after, rfl, hgap, hspells⟩ := (exists_gap_spells hnext).2 hspells
    exact ⟨w, b, gap, after, rfl, hw, hb, hgap, hspells⟩

/-- The words of an order are looked for behind a semicolon and the blanks that follow it. -/
theorem orders_iff {word : String} (hword : isSolid word = true) {words : List String}
    {cs rest : List Char} : Orders (word :: words) cs rest
      ↔ ∃ after, ';' :: after <:+ cs ∧ Spells (word :: words) (trimStart after) rest := by
  constructor
  · rintro ⟨before, gap, after, rfl, hgap, hspells⟩
    exact ⟨gap ++ after, List.suffix_append _ _,
      (exists_gap_spells hword).1 ⟨gap, after, rfl, hgap, hspells⟩⟩
  · rintro ⟨after, ⟨before, rfl⟩, hspells⟩
    obtain ⟨gap, after, rfl, hgap, hspells⟩ := (exists_gap_spells hword).2 hspells
    exact ⟨before, gap, after, rfl, hgap, hspells⟩

/-! ### What is looked for -/

theorem afterBlanks?_eq_some_iff {cs rest : List Char} : afterBlanks? cs = some rest
    ↔ ∃ b after, cs = b :: after ∧ isBlank b = true ∧ trimStart after = rest := by
  cases cs with
  | nil => simp [afterBlanks?]
  | cons b after =>
    rw [afterBlanks?]
    constructor
    · split
      · next hb =>
        rintro ⟨⟩
        exact ⟨b, after, rfl, hb, rfl⟩
      · rintro ⟨⟩
    · rintro ⟨_, _, ⟨⟩, hb, rfl⟩
      exact if_pos hb

theorem startsStatement_iff {word : String} {cs : List Char} :
    startsStatement word cs = true ↔ ∃ rest, Spells [word] cs rest := by
  simp only [startsStatement, spells_singleton_iff]
  constructor
  · split
    · next after hafter =>
      intro hblanks
      obtain ⟨_, hblanks⟩ := Option.isSome_iff_exists.1 hblanks
      obtain ⟨b, rest, rfl, hb, -⟩ := afterBlanks?_eq_some_iff.1 hblanks
      exact ⟨rest, b, [], hafter, hb, rfl⟩
    · rintro ⟨⟩
  · rintro ⟨rest, b, gap, hafter, hb, -⟩
    rw [hafter]
    exact Option.isSome_iff_exists.2 ⟨_, afterBlanks?_eq_some_iff.2 ⟨b, _, rfl, hb, rfl⟩⟩

theorem holdsWord_iff {word : String} {cs : List Char} :
    holdsWord word.toList cs = true ↔ HoldsLetters word cs := by
  rw [holdsWord, anyTail_eq_true_iff]
  constructor
  · rintro ⟨t, ⟨before, rfl⟩, hsome⟩
    obtain ⟨after, hafter⟩ := Option.isSome_iff_exists.1 hsome
    obtain ⟨w, rfl, hw⟩ := afterWord?_eq_some_iff.1 hafter
    exact ⟨w, ⟨before, after, by rw [List.append_assoc]⟩, hw⟩
  · rintro ⟨w, ⟨before, after, rfl⟩, hw⟩
    refine ⟨w ++ after, ⟨before, by rw [List.append_assoc]⟩, ?_⟩
    rw [afterWord?_eq_some_iff.2 ⟨w, rfl, hw⟩]
    rfl

instance (word : String) (cs : List Char) : Decidable (HoldsLetters word cs) :=
  decidable_of_iff _ holdsWord_iff

theorem HoldsLetters.append {word : String} {cs : List Char} (h : HoldsLetters word cs)
    (before : List Char) : HoldsLetters word (before ++ cs) := by
  obtain ⟨w, hinfix, hw⟩ := h
  exact ⟨w, hinfix.trans (List.suffix_append before cs).isInfix, hw⟩

/-- The scan may stop at any of the blanks behind the last word, so at a line feed, behind which
nothing counts, if one is among them. -/
theorem lacksWhere_iff {cs : List Char} : lacksWhere cs = true
    ↔ ∃ b gap rest, cs = b :: (gap ++ rest) ∧ isBlank b = true ∧ allBlank gap = true
      ∧ ¬ HoldsLetters "where" (lineRest rest) := by
  cases cs with
  | nil => simp [lacksWhere]
  | cons b after =>
    rw [lacksWhere, Bool.and_eq_true, Bool.or_eq_true, List.contains_iff_mem, Bool.not_eq_true',
      ← Bool.not_eq_true, holdsWord_iff]
    constructor
    · rintro ⟨hb, hline | hletters⟩
      · obtain ⟨gap, after', hsplit⟩ := List.append_of_mem hline
        refine ⟨b, gap, '\n' :: (after' ++ trimStart after), ?_, hb, ?_, ?_⟩
        · show b :: after = b :: (gap ++ ('\n' :: after' ++ trimStart after))
          rw [← List.append_assoc, ← hsplit, trimStart, List.takeWhile_append_dropWhile]
        · have hblank := allBlank_takeWhile after
          rw [hsplit, allBlank, List.all_append, Bool.and_eq_true] at hblank
          exact hblank.1
        · show ¬ HoldsLetters "where" []
          decide
      · exact ⟨b, after.takeWhile isBlank, trimStart after,
          by rw [trimStart, List.takeWhile_append_dropWhile], hb, allBlank_takeWhile after,
          hletters⟩
    · rintro ⟨_, gap, rest, heq, hb, hgap, hletters⟩
      obtain ⟨rfl, rfl⟩ := List.cons.inj heq
      refine ⟨hb, or_iff_not_imp_left.2 fun hline hafter => hletters ?_⟩
      rw [trimStart_gap hgap] at hafter
      rw [List.takeWhile_append_of_pos (List.all_eq_true.1 hgap), List.mem_append, not_or] at hline
      -- the blanks that are left do not end the line
      have hsame : lineRest rest = rest.takeWhile isBlank ++ lineRest (trimStart rest) := by
        conv => lhs; rw [← List.takeWhile_append_dropWhile (p := isBlank) (l := rest)]
        refine List.takeWhile_append_of_pos fun c hc => ?_
        rw [bne_iff_ne]
        rintro rfl
        exact hline.2 hc
      rw [hsame]
      exact hafter.append _

theorem startsDelete_iff {cs : List Char} : startsDelete cs = true
    ↔ ∃ rest, Spells ["delete", "from"] cs rest ∧ ¬ HoldsLetters "where" (lineRest rest) := by
  have hfrom : isSolid "from" = true := by decide
  simp only [spells_cons_iff hfrom, spells_singleton_iff]
  constructor
  · intro h
    unfold startsDelete at h
    split at h
    · next second hsecond =>
      obtain ⟨after, hdelete, hblanks⟩ := Option.bind_eq_some_iff.1 hsecond
      obtain ⟨b, after, rfl, hb, rfl⟩ := afterBlanks?_eq_some_iff.1 hblanks
      split at h
      · next last hlast =>
        obtain ⟨c, gap, rest, rfl, hc, hgap, hletters⟩ := lacksWhere_iff.1 h
        exact ⟨rest, ⟨b, after, hdelete, hb, c, gap, hlast, hc, hgap⟩, hletters⟩
      · cases h
    · cases h
  · rintro ⟨rest, ⟨b, after, hdelete, hb, c, gap, hlast, hc, hgap⟩, hletters⟩
    have hblanks := afterBlanks?_eq_some_iff.2 ⟨b, after, rfl, hb, rfl⟩
    simp only [startsDelete, hdelete, Option.bind_some, hblanks, hlast]
    exact lacksWhere_iff.2 ⟨c, gap, rest, rfl, hc, hgap, hletters⟩

theorem isDestructive_iff {t : List Char} : isDestructive t = true ↔ ∃ after, t = ';' :: after
    ∧ ((∃ word ∈ ["drop", "truncate", "alter"], ∃ rest, Spells [word] (trimStart after) rest)
      ∨ ∃ rest, Spells ["delete", "from"] (trimStart after) rest
        ∧ ¬ HoldsLetters "where" (lineRest rest)) := by
  constructor
  · intro h
    unfold isDestructive at h
    split at h
    · next after =>
      simp only [Bool.or_eq_true, startsStatement_iff, startsDelete_iff] at h
      refine ⟨after, rfl, ?_⟩
      obtain ((hdrop | hdelete) | htruncate) | halter := h
      · exact .inl ⟨_, by decide, hdrop⟩
      · exact .inr hdelete
      · exact .inl ⟨_, by decide, htruncate⟩
      · exact .inl ⟨_, by decide, halter⟩
    · cases h
  · rintro ⟨after, rfl, ⟨word, hword, hspells⟩ | hdelete⟩
    · rw [← startsStatement_iff] at hspells
      simp only [isDestructive, Bool.or_eq_true]
      simp only [List.mem_cons, List.not_mem_nil, or_false] at hword
      obtain rfl | rfl | rfl := hword <;> simp [hspells]
    · simp only [isDestructive, Bool.or_eq_true, startsDelete_iff.2 hdelete, or_true, true_or]

theorem exists_startsComment_iff {cs : List Char} :
    (∃ t, t <:+ cs ∧ startsComment t = true) ↔ HoldsComment cs := by
  simp only [startsComment, Bool.or_eq_true, List.isPrefixOf_iff_prefix, HoldsComment,
    List.infix_iff_prefix_suffix, and_or_left, exists_or, and_comm]

/-- A text is refused for a comment, for an order that destroys something, and for a delete whose
line goes on without the letters of the word where. -/
theorem isDangerous_iff {cs : List Char} : isDangerous cs = true
    ↔ HoldsComment cs ∨ Destroys cs
      ∨ ∃ rest, Orders ["delete", "from"] cs rest ∧ ¬ HoldsLetters "where" (lineRest rest) := by
  have hsolid : ∀ word ∈ ["drop", "truncate", "alter"], isSolid word = true := by decide
  have hdelete : isSolid "delete" = true := by decide
  rw [isDangerous, anyTail_eq_true_iff]
  simp only [Bool.or_eq_true, and_or_left, exists_or, exists_startsComment_iff]
  refine or_congr_right ⟨?_, ?_⟩
  · rintro ⟨t, ht, hdestructive⟩
    obtain ⟨after, rfl, horder⟩ := isDestructive_iff.1 hdestructive
    rcases horder with ⟨word, hword, rest, hspells⟩ | ⟨rest, hspells, hletters⟩
    · exact .inl ⟨word, hword, rest, (orders_iff (hsolid word hword)).2 ⟨after, ht, hspells⟩⟩
    · exact .inr ⟨rest, (orders_iff hdelete).2 ⟨after, ht, hspells⟩, hletters⟩
  · rintro (⟨word, hword, rest, horders⟩ | ⟨rest, horders, hletters⟩)
    · obtain ⟨after, hsuffix, hspells⟩ := (orders_iff (hsolid word hword)).1 horders
      exact ⟨_, hsuffix, isDestructive_iff.2 ⟨after, rfl, .inl ⟨word, hword, rest, hspells⟩⟩⟩
    · obtain ⟨after, hsuffix, hspells⟩ := (orders_iff hdelete).1 horders
      exact ⟨_, hsuffix, isDestructive_iff.2 ⟨after, rfl, .inr ⟨rest, hspells, hletters⟩⟩⟩

/-! ### Orders, listed -/

/-- What can follow the blanks at the start of a text, if any number of them is passed. -/
def behindBlanks : List Char → List (List Char)
  | [] => [[]]
  | c :: rest => (c :: rest) :: if isBlank c then behindBlanks rest else []

theorem mem_behindBlanks_iff {cs rest : List Char} :
    rest ∈ behindBlanks cs ↔ ∃ gap, cs = gap ++ rest ∧ allBlank gap = true := by
  induction cs with
  | nil =>
    rw [behindBlanks, List.mem_singleton]
    constructor
    · rintro rfl
      exact ⟨[], rfl, rfl⟩
    · rintro ⟨gap, hgap, -⟩
      exact (List.append_eq_nil_iff.1 hgap.symm).2
  | cons c cs ih =>
    rw [behindBlanks, List.mem_cons]
    constructor
    · rintro (rfl | hrest)
      · exact ⟨[], rfl, rfl⟩
      · split at hrest
        · next hc =>
          obtain ⟨gap, rfl, hgap⟩ := ih.1 hrest
          exact ⟨c :: gap, rfl, by rw [allBlank, List.all_cons, hc]; exact hgap⟩
        · cases hrest
    · rintro ⟨gap, hcs, hgap⟩
      cases gap with
      | nil => exact .inl hcs.symm
      | cons d gap =>
        obtain ⟨rfl, rfl⟩ := List.cons.inj hcs
        rw [allBlank, List.all_cons, Bool.and_eq_true] at hgap
        rw [if_pos hgap.1]
        exact .inr (ih.2 ⟨gap, rfl, hgap.2⟩)

/-- All that can follow words with blanks behind them at the start of a text. -/
def behindWords : List String → List Char → List (List Char)
  | [], cs => [cs]
  | word :: words, cs =>
    match afterWord? word.toList cs with
    | some (b :: after) =>
      if isBlank b then (behindBlanks after).flatMap (behindWords words) else []
    | _ => []

theorem mem_behindWords_iff {words : List String} {cs rest : List Char} :
    rest ∈ behindWords words cs ↔ Spells words cs rest := by
  induction words generalizing cs with
  | nil => rw [behindWords, List.mem_singleton, Spells, eq_comm]
  | cons word words ih =>
    unfold behindWords
    constructor
    · split
      · next b after hafter =>
        split
        · next hb =>
          intro hmem
          obtain ⟨last, hlast, hrest⟩ := List.mem_flatMap.1 hmem
          obtain ⟨gap, rfl, hgap⟩ := mem_behindBlanks_iff.1 hlast
          obtain ⟨w, rfl, hw⟩ := afterWord?_eq_some_iff.1 hafter
          exact ⟨w, b, gap, last, rfl, hw, hb, hgap, ih.1 hrest⟩
        · rintro ⟨⟩
      · rintro ⟨⟩
    · rintro ⟨w, b, gap, last, rfl, hw, hb, hgap, hrest⟩
      rw [afterWord?_eq_some_iff.2 ⟨w, rfl, hw⟩]
      simp only [hb, if_true]
      exact List.mem_flatMap.2
        ⟨last, mem_behindBlanks_iff.2 ⟨gap, rfl, hgap⟩, ih.2 hrest⟩

/-- All that can follow an order. -/
def behindOrders (words : List String) : List Char → List (List Char)
  | [] => []
  | c :: cs =>
    (if c = ';' then (behindBlanks cs).flatMap (behindWords words) else [])
      ++ behindOrders words cs

theorem mem_behindOrders_iff {words : List String} {cs rest : List Char} :
    rest ∈ behindOrders words cs ↔ Orders words cs rest := by
  induction cs with
  | nil =>
    refine iff_of_false List.not_mem_nil ?_
    rintro ⟨before, gap, after, hcs, -⟩
    cases before <;> cases hcs
  | cons c cs ih =>
    rw [behindOrders, List.mem_append, ih]
    constructor
    · rintro (hmem | ⟨before, gap, after, rfl, horder⟩)
      · split at hmem
        · next hc =>
          subst hc
          obtain ⟨after, hafter, hrest⟩ := List.mem_flatMap.1 hmem
          obtain ⟨gap, rfl, hgap⟩ := mem_behindBlanks_iff.1 hafter
          exact ⟨[], gap, after, rfl, hgap, mem_behindWords_iff.1 hrest⟩
        · cases hmem
      · exact ⟨c :: before, gap, after, rfl, horder⟩
    · rintro ⟨before, gap, after, hcs, hgap, hspells⟩
      cases before with
      | nil =>
        obtain ⟨rfl, rfl⟩ := List.cons.inj hcs
        rw [if_pos rfl]
        exact .inl (List.mem_flatMap.2
          ⟨after, mem_behindBlanks_iff.2 ⟨gap, rfl, hgap⟩, mem_behindWords_iff.2 hspells⟩)
      | cons d before =>
        obtain ⟨rfl, rfl⟩ := List.cons.inj hcs
        exact .inr ⟨before, gap, after, rfl, hgap, hspells⟩

section

variable {words : List String} {cs : List Char} {P : List Char → Prop} [DecidablePred P]

instance : Decidable (∃ rest, Orders words cs rest) :=
  decidable_of_iff (behindOrders words cs ≠ []) <| by
    simp only [← mem_behindOrders_iff]
    exact ⟨List.exists_mem_of_ne_nil _, fun ⟨_, h⟩ => List.ne_nil_of_mem h⟩

instance : Decidable (∃ rest, Orders words cs rest ∧ P rest) :=
  decidable_of_iff (∃ rest ∈ behindOrders words cs, P rest) (by simp only [mem_behindOrders_iff])

instance : Decidable (∀ rest, Orders words cs rest → P rest) :=
  decidable_of_iff (∀ rest ∈ behindOrders words cs, P rest) (by simp only [mem_behindOrders_iff])

end

instance (cs : List Char) : Decidable (Destroys cs) :=
  inferInstanceAs
    (Decidable (∃ word ∈ ["drop", "truncate", "alter"], ∃ rest, Orders [word] cs rest))

instance (cs : List Char) : Decidable (HoldsComment cs) := inferInstanceAs (Decidable (_ ∨ _))

/-! ### Deletes by their statements -/

theorem any_split_iff_holdsKeyword {joins : Char → Bool} {word : String} {cs : List Char} :
    ((List.range (cs.length + 1)).any fun n => !(cs.take n).getLast?.any joins
        && (afterWord? word.toList (cs.drop n)).any fun after => !after.head?.any joins) = true
      ↔ HoldsKeyword joins word cs := by
  simp only [List.any_eq_true, List.mem_range, Bool.and_eq_true, Bool.not_eq_true',
    Option.any_eq_true]
  constructor
  · rintro ⟨n, -, hbefore, after, hword, hafter⟩
    obtain ⟨w, hw, hisWord⟩ := afterWord?_eq_some_iff.1 hword
    exact ⟨cs.take n, w, after, by rw [← hw, List.take_append_drop], hisWord, hbefore, hafter⟩
  · rintro ⟨before, w, after, rfl, hisWord, hbefore, hafter⟩
    refine ⟨before.length, ?_, ?_, after, ?_, hafter⟩
    · rw [List.length_append]
      omega
    · rwa [List.take_left]
    · rw [List.drop_left]
      exact afterWord?_eq_some_iff.2 ⟨w, rfl, hisWord⟩

instance (joins : Char → Bool) (word : String) (cs : List Char) :
    Decidable (HoldsKeyword joins word cs) := decidable_of_iff _ any_split_iff_holdsKeyword

instance (joins : Char → Bool) (cs : List Char) : Decidable (DeletesUnqualified joins cs) :=
  inferInstanceAs (Decidable (∃ rest, Orders ["delete", "from"] cs rest ∧ _))

/-- A delete is judged by the rest of its line. Whatever joins words, that is the judgement by its
statement if the letters are on the line exactly if the keyword is in the statement. -/
theorem isDangerous_judges (joins : Char → Bool) (cs : List Char) :
    (isDangerous cs = true
      ↔ HoldsComment cs ∨ Destroys cs
        ∨ ∃ rest, Orders ["delete", "from"] cs rest ∧ ¬ HoldsLetters "where" (lineRest rest))
    ∧ ((∀ rest, Orders ["delete", "from"] cs rest →
        (HoldsLetters "where" (lineRest rest)
          ↔ HoldsKeyword joins "where" (statementRest rest))) →
      (isDangerous cs = true ↔ HoldsComment cs ∨ Destroys cs ∨ DeletesUnqualified joins cs)) := by
  refine ⟨isDangerous_iff, fun hsight => isDangerous_iff.trans ?_⟩
  have hdeletes : (∃ rest, Orders ["delete", "from"] cs rest
      ∧ ¬ HoldsLetters "where" (lineRest rest)) ↔ DeletesUnqualified joins cs :=
    exists_congr fun rest => and_congr_right fun horders => not_congr (hsight rest horders)
  rw [hdeletes]

theorem isDangerous_judges_qualified :
    (∀ rest, Orders ["delete", "from"] "SELECT 1; delete\tFROM t WHERE id = 3".toList rest →
      (HoldsLetters "where" (lineRest rest)
        ↔ HoldsKeyword joinsName "where" (statementRest rest)))
    ∧ isDangerous "SELECT 1; delete\tFROM t WHERE id = 3".toList = false
    ∧ ¬ DeletesUnqualified joinsName "SELECT 1; delete\tFROM t WHERE id = 3".toList := by
  have hsight : ∀ rest, Orders ["delete", "from"]
      "SELECT 1; delete\tFROM t WHERE id = 3".toList rest → (HoldsLetters "where" (lineRest rest)
        ↔ HoldsKeyword joinsName "where" (statementRest rest)) := by
    decide +kernel
  have haccepted : isDangerous "SELECT 1; delete\tFROM t WHERE id = 3".toList = false := by
    decide +kernel
  refine ⟨hsight, haccepted, fun hdeletes => ?_⟩
  rw [((isDangerous_judges joinsName _).2 hsight).2 (.inr (.inr hdeletes))] at haccepted
  cases haccepted

/-- A condition on a later line is not seen. The condition of another statement, and a name with the
letters in it, are taken for one. -/
theorem isDangerous_misjudges :
    (isDangerous "SELECT 1; DELETE FROM users\nWHERE id = 3".toList = true
      ∧ ¬ HoldsComment "SELECT 1; DELETE FROM users\nWHERE id = 3".toList
      ∧ ¬ Destroys "SELECT 1; DELETE FROM users\nWHERE id = 3".toList
      ∧ ¬ DeletesUnqualified joinsName "SELECT 1; DELETE FROM users\nWHERE id = 3".toList)
    ∧ (isDangerous "; DELETE FROM users; SELECT 1 WHERE true".toList = false
      ∧ DeletesUnqualified joinsName "; DELETE FROM users; SELECT 1 WHERE true".toList)
    ∧ isDangerous "; DELETE FROM somewhere".toList = false
      ∧ DeletesUnqualified joinsName "; DELETE FROM somewhere".toList := by
  decide +kernel

end StagedTable.Sql.Guard
