import StagedTable.Sql.Index
import StagedTable.Proofs.Text.Trimmed

/-!
# Expressions in parentheses

The key of an index is an expression in parentheses of its own. `Enclosed` says that a text starts
with a parenthesis whose partner is its last character, and `masked` blanks out what a text has
inside string literals, where parentheses count for nothing.

Every expression that is enclosed when all its parentheses are counted stays as it is, and every
other one gets a pair (`parenthesize_eq`). The parentheses inside literals are counted too, which
makes no difference if they match in each literal (`enclosed_masked_iff`): then the result is
enclosed in the proper sense, and it stays as it is (`parenthesize_encloses`). Else an expression
can be taken for an enclosed one and get no pair, or get one more each time
(`parenthesize_misled`).
-/

namespace StagedTable.Sql

open Text

/-! ### Matching parentheses -/

/-- Whether the parentheses of a text match, `depth` of them being open before it. -/
def balanced (depth : Nat) : List Char → Bool
  | [] => depth == 0
  | '(' :: rest => balanced (depth + 1) rest
  | ')' :: rest =>
    match depth with
    | 0 => false
    | d + 1 => balanced d rest
  | _ :: rest => balanced depth rest

/-- Whether a text starts with a parenthesis whose partner is its last character: what stands
between the two matches by itself. -/
def Enclosed (cs : List Char) : Prop :=
  ∃ inner, cs = '(' :: (inner ++ [')']) ∧ balanced 0 inner = true

/-- A text with its string literals blanked out, `inside` telling whether it starts in one. A quote
that is written twice in a literal closes it and opens it again. -/
def masked (inside : Bool) : List Char → List Char
  | [] => []
  | '\'' :: rest => ' ' :: masked (!inside) rest
  | c :: rest => (if inside then ' ' else c) :: masked inside rest

/-- Whether a literal is open behind a text, `inside` telling whether one is open before it. -/
def opensLiteral (inside : Bool) : List Char → Bool
  | [] => inside
  | '\'' :: rest => opensLiteral (!inside) rest
  | _ :: rest => opensLiteral inside rest

/-- Whether the parentheses inside each literal of a text match. Inside a literal the state is the
number of those that are open in it; a quote that is written twice there stands for itself. -/
def literalsBalanced : Option Nat → List Char → Bool
  | none, [] => true
  | none, '\'' :: rest => literalsBalanced (some 0) rest
  | none, _ :: rest => literalsBalanced none rest
  | some d, [] => d == 0
  | some d, '\'' :: '\'' :: rest => literalsBalanced (some d) rest
  | some d, '\'' :: rest => d == 0 && literalsBalanced none rest
  | some d, '(' :: rest => literalsBalanced (some (d + 1)) rest
  | some 0, ')' :: _ => false
  | some (d + 1), ')' :: rest => literalsBalanced (some d) rest
  | some d, _ :: rest => literalsBalanced (some d) rest

/-- Whether a character is neither a parenthesis nor a quote. -/
def isFiller (c : Char) : Bool := c != '(' && c != ')' && c != '\''

section

variable {c : Char} {rest : List Char} {depth : Nat}

theorem balanced_cons_other (hopen : c ≠ '(') (hclose : c ≠ ')') :
    balanced depth (c :: rest) = balanced depth rest := by
  rw [balanced]
  · exact hopen
  · exact hclose

theorem afterPartner?_cons_other (hopen : c ≠ '(') (hclose : c ≠ ')') :
    afterPartner? depth (c :: rest) = afterPartner? depth rest := by
  rw [afterPartner?]
  · exact hopen
  · exact hclose

theorem masked_cons (inside : Bool) (hquote : c ≠ '\'') :
    masked inside (c :: rest) = (if inside then ' ' else c) :: masked inside rest := by
  rw [masked]
  exact hquote

end

theorem length_masked (inside : Bool) (cs : List Char) :
    (masked inside cs).length = cs.length := by
  induction cs generalizing inside with
  | nil => rfl
  | cons c rest ih =>
    by_cases hquote : c = '\''
    · subst hquote
      rw [masked, List.length_cons, List.length_cons, ih]
    · rw [masked_cons inside hquote, List.length_cons, List.length_cons, ih]

/-! ### Partners -/

/-- A character that is not the partner itself belongs to what stands before the partner. -/
theorem exists_before_partner_cons {c : Char} {d depth : Nat} {rest tail : List Char}
    (hstep : ∀ inner, balanced depth (c :: inner) = balanced d inner)
    (hpartner : c = ')' → depth ≠ 0) :
    (∃ inner, rest = inner ++ ')' :: tail ∧ balanced d inner = true)
      ↔ ∃ inner, c :: rest = inner ++ ')' :: tail ∧ balanced depth inner = true := by
  constructor
  · rintro ⟨inner, rfl, hinner⟩
    exact ⟨c :: inner, rfl, by rw [hstep, hinner]⟩
  · rintro ⟨inner, hrest, hinner⟩
    cases inner with
    | nil => exact absurd (beq_iff_eq.1 hinner) (hpartner (List.cons.inj hrest).1)
    | cons _ inner =>
      obtain ⟨rfl, rfl⟩ := List.cons.inj hrest
      exact ⟨inner, rfl, by rw [← hstep, hinner]⟩

/-- The partner of a parenthesis that has been passed is the one that stands behind matching
parentheses. -/
theorem afterPartner?_eq_some_iff {depth : Nat} {cs tail : List Char} :
    afterPartner? depth cs = some tail
      ↔ ∃ inner, cs = inner ++ ')' :: tail ∧ balanced depth inner = true := by
  fun_induction afterPartner? depth cs with
  | case1 => simp
  | case2 depth rest ih =>
    rw [ih]
    exact exists_before_partner_cons (fun _ => by rw [balanced]) fun hc => absurd hc (by decide)
  | case3 rest =>
    rw [Option.some.injEq]
    constructor
    · rintro rfl
      exact ⟨[], rfl, rfl⟩
    · rintro ⟨inner, hinner, hbalanced⟩
      cases inner with
      | nil => exact (List.cons.inj hinner).2
      | cons c inner =>
        obtain rfl : ')' = c := (List.cons.inj hinner).1
        cases hbalanced
  | case4 rest d ih =>
    rw [ih]
    exact exists_before_partner_cons (fun _ => by rw [balanced]) fun _ => d.succ_ne_zero
  | case5 depth c rest hopen hclose ih =>
    rw [ih]
    exact exists_before_partner_cons (fun _ => balanced_cons_other hopen hclose)
      fun hc => absurd hc hclose

theorem isEnclosed_iff {cs : List Char} : isEnclosed cs = true ↔ Enclosed cs := by
  unfold isEnclosed
  split
  · next rest =>
    rw [beq_iff_eq, afterPartner?_eq_some_iff]
    simp [Enclosed]
  · next hcs =>
    simp only [Bool.false_eq_true, false_iff]
    rintro ⟨inner, rfl, -⟩
    exact hcs _ rfl

instance (cs : List Char) : Decidable (Enclosed cs) := decidable_of_iff _ isEnclosed_iff

/-- Where the parentheses inside literals match, all parentheses have the partners that they have
when literals are blanked out. -/
theorem counts_masked {inside : Option Nat} {cs : List Char}
    (h : literalsBalanced inside cs = true) (depth : Nat) :
    (afterPartner? (depth + inside.getD 0) cs = some []
      ↔ afterPartner? depth (masked inside.isSome cs) = some [])
    ∧ balanced (depth + inside.getD 0) cs = balanced depth (masked inside.isSome cs) := by
  -- what is open inside a literal adds to what is open outside, and is nothing where it ends
  fun_induction literalsBalanced inside cs generalizing depth with
  | case1 => simp [masked, afterPartner?, balanced]
  | case2 rest ih => simpa [masked, afterPartner?, balanced] using ih h depth
  | case3 c rest hquote ih =>
    rw [Option.isSome_none, masked_cons false hquote]
    by_cases hopen : c = '('
    · subst hopen
      exact ih h (depth + 1)
    by_cases hclose : c = ')'
    · subst hclose
      cases depth with
      | zero =>
        -- either is the last character exactly if the other is
        have hnil : masked false rest = [] ↔ rest = [] := by
          rw [← List.length_eq_zero_iff, length_masked, List.length_eq_zero_iff]
        simp [afterPartner?, balanced, hnil]
      | succ d => exact ih h d
    · rw [if_neg (by decide), afterPartner?_cons_other hopen hclose,
        afterPartner?_cons_other hopen hclose, balanced_cons_other hopen hclose,
        balanced_cons_other hopen hclose]
      exact ih h depth
  | case4 d =>
    rw [beq_iff_eq] at h
    subst h
    simp [masked, afterPartner?, balanced]
  | case5 d rest ih => simpa [masked, afterPartner?, balanced] using ih h depth
  | case6 d rest hrest ih =>
    rw [Bool.and_eq_true, beq_iff_eq] at h
    obtain ⟨rfl, h⟩ := h
    simpa [masked, afterPartner?, balanced] using ih h depth
  | case7 d rest ih => simpa [masked, afterPartner?, balanced, Nat.add_assoc] using ih h depth
  | case8 rest => cases h
  | case9 d rest ih => simpa [masked, afterPartner?, balanced, ← Nat.add_assoc] using ih h depth
  | case10 d c rest hdoubled hquote hopen hclose hclose' ih =>
    have hclose : c ≠ ')' := by
      cases d with
      | zero => exact fun hc => hclose rfl hc
      | succ d => exact fun hc => hclose' d rfl hc
    rw [Option.isSome_some, masked_cons true hquote, afterPartner?_cons_other hopen hclose,
      balanced_cons_other hopen hclose]
    simpa [afterPartner?, balanced] using ih h depth

/-- Where the parentheses inside literals match, counting them makes no difference. -/
theorem enclosed_masked_iff {cs : List Char} (h : literalsBalanced none cs = true) :
    Enclosed cs ↔ Enclosed (masked false cs) := by
  rw [← isEnclosed_iff, ← isEnclosed_iff]
  cases cs with
  | nil => rfl
  | cons c rest =>
    by_cases hopen : c = '('
    · subst hopen
      have hrest : literalsBalanced none rest = true := h
      simpa [isEnclosed, masked] using (counts_masked hrest 0).1
    · have hother : ∀ {d : Char} {ds : List Char}, d ≠ '(' → isEnclosed (d :: ds) = false := by
        intro d ds hd
        rw [isEnclosed]
        rintro _ ⟨⟩
        exact hd rfl
      rw [hother hopen]
      by_cases hquote : c = '\''
      · subst hquote
        rw [masked, hother (by decide)]
      · rw [masked_cons false hquote, hother]
        exact hopen

/-! ### Blanks around an expression -/

theorem masked_append (inside : Bool) (xs ys : List Char) :
    masked inside (xs ++ ys) = masked inside xs ++ masked (opensLiteral inside xs) ys := by
  fun_induction opensLiteral inside xs with
  | case1 inside => rfl
  | case2 inside rest ih => rw [List.cons_append, masked, masked, ih, List.cons_append]
  | case3 inside c rest hquote ih =>
    rw [List.cons_append, masked_cons inside hquote, masked_cons inside hquote, ih,
      List.cons_append]

theorem opensLiteral_append (inside : Bool) (xs ys : List Char) :
    opensLiteral inside (xs ++ ys) = opensLiteral (opensLiteral inside xs) ys := by
  fun_induction opensLiteral inside xs with
  | case1 inside => rfl
  | case2 inside rest ih => rw [List.cons_append, opensLiteral, ih]
  | case3 inside c rest hquote ih =>
    rw [List.cons_append, opensLiteral, ih]
    exact hquote

section

variable {filler : List Char} (hfiller : filler.all isFiller = true)
include hfiller

theorem balanced_filler_append (depth : Nat) (cs : List Char) :
    balanced depth (filler ++ cs) = balanced depth cs := by
  induction filler with
  | nil => rfl
  | cons c filler ih =>
    simp only [List.all_cons, isFiller, Bool.and_eq_true, bne_iff_ne] at hfiller
    obtain ⟨⟨⟨hopen, hclose⟩, -⟩, hrest⟩ := hfiller
    rw [List.cons_append, balanced_cons_other hopen hclose, ih hrest]

theorem balanced_append_filler (depth : Nat) (cs : List Char) :
    balanced depth (cs ++ filler) = balanced depth cs := by
  fun_induction balanced depth cs with
  | case1 depth => simpa [balanced] using balanced_filler_append hfiller depth []
  | case2 depth rest ih => rw [List.cons_append, balanced, ih]
  | case3 rest => rw [List.cons_append, balanced]
  | case4 rest d ih => rw [List.cons_append, balanced, ih]
  | case5 depth c rest hopen hclose ih =>
    rw [List.cons_append, balanced_cons_other hopen hclose, ih]

theorem all_isFiller_masked (inside : Bool) : (masked inside filler).all isFiller = true := by
  induction filler with
  | nil => rfl
  | cons c filler ih =>
    have hquote : c ≠ '\'' := by
      rintro rfl
      cases hfiller
    rw [List.all_cons, Bool.and_eq_true] at hfiller
    rw [masked_cons inside hquote, List.all_cons, ih hfiller.2, Bool.and_true]
    cases inside with
    | false => exact hfiller.1
    | true => rfl

theorem opensLiteral_filler (inside : Bool) : opensLiteral inside filler = inside := by
  induction filler with
  | nil => rfl
  | cons c filler ih =>
    simp only [List.all_cons, isFiller, Bool.and_eq_true, bne_iff_ne] at hfiller
    rw [opensLiteral, ih hfiller.2]
    exact hfiller.1.2

theorem literalsBalanced_filler_append (inside : Option Nat) (cs : List Char) :
    literalsBalanced inside (filler ++ cs) = literalsBalanced inside cs := by
  induction filler with
  | nil => rfl
  | cons c filler ih =>
    simp only [List.all_cons, isFiller, Bool.and_eq_true, bne_iff_ne] at hfiller
    obtain ⟨⟨⟨hopen, hclose⟩, hquote⟩, hrest⟩ := hfiller
    cases inside with
    | none => rw [List.cons_append, literalsBalanced, ih hrest]; exact hquote
    | some d =>
      rw [List.cons_append, literalsBalanced, ih hrest]
      all_goals simp [hopen, hclose, hquote]

theorem literalsBalanced_append_filler (inside : Option Nat) (cs : List Char) :
    literalsBalanced inside (cs ++ filler) = literalsBalanced inside cs := by
  fun_induction literalsBalanced inside cs with
  | case1 => simpa [literalsBalanced] using literalsBalanced_filler_append hfiller none []
  | case2 rest ih => rw [List.cons_append, literalsBalanced, ih]
  | case3 c rest hquote ih => rw [List.cons_append, literalsBalanced, ih]; exact hquote
  | case4 d => simpa [literalsBalanced] using literalsBalanced_filler_append hfiller (some d) []
  | case5 d rest ih => rw [List.cons_append, List.cons_append, literalsBalanced, ih]
  | case6 d rest hrest ih =>
    -- the quote is not written twice, since no filler character is a quote
    rw [List.cons_append, literalsBalanced, ih]
    intro ds hds
    cases rest with
    | nil =>
      rw [List.nil_append] at hds
      subst hds
      cases hfiller
    | cons c rest =>
      obtain ⟨rfl, rfl⟩ := List.cons.inj hds
      exact hrest _ rfl
  | case7 d rest ih => rw [List.cons_append, literalsBalanced, ih]
  | case8 rest => rw [List.cons_append, literalsBalanced]
  | case9 d rest ih => rw [List.cons_append, literalsBalanced, ih]
  | case10 d c rest hdoubled hquote hopen hclose hclose' ih =>
    rw [List.cons_append, literalsBalanced, ih]
    · exact fun _ hc => absurd hc hquote
    · exact hquote
    · exact hopen
    · exact hclose
    · exact hclose'

end

/-- The blanks that are dropped around an expression are neither parentheses nor quotes. -/
theorem exists_filler_padding (e : List Char) : ∃ before after, before.all isFiller = true
    ∧ after.all isFiller = true ∧ e = before ++ (trim e ++ after) := by
  have hblank : ∀ {cs : List Char}, allBlank cs = true → cs.all isFiller = true := by
    intro cs hcs
    rw [allBlank, List.all_eq_true] at hcs
    refine List.all_eq_true.2 fun c hc => ?_
    simp only [isFiller, Bool.and_eq_true, bne_iff_ne]
    refine ⟨⟨?_, ?_⟩, ?_⟩ <;> (rintro rfl; cases hcs _ hc)
  obtain ⟨before, after, hbefore, hafter, he⟩ := exists_padding e
  exact ⟨before, after, hblank hbefore, hblank hafter, he⟩

theorem balanced_masked_trim (e : List Char) :
    balanced 0 (masked false (trim e)) = balanced 0 (masked false e) := by
  obtain ⟨before, after, hbefore, hafter, he⟩ := exists_filler_padding e
  generalize trim e = cs at he ⊢
  subst he
  rw [masked_append, masked_append, opensLiteral_filler hbefore,
    balanced_filler_append (all_isFiller_masked hbefore false),
    balanced_append_filler (all_isFiller_masked hafter _)]

theorem literalsBalanced_trim (e : List Char) :
    literalsBalanced none (trim e) = literalsBalanced none e := by
  obtain ⟨before, after, hbefore, hafter, he⟩ := exists_filler_padding e
  generalize trim e = cs at he ⊢
  subst he
  rw [literalsBalanced_filler_append hbefore, literalsBalanced_append_filler hafter]

theorem opensLiteral_trim (e : List Char) : opensLiteral false (trim e) = opensLiteral false e := by
  obtain ⟨before, after, hbefore, hafter, he⟩ := exists_filler_padding e
  generalize trim e = cs at he ⊢
  subst he
  rw [opensLiteral_append, opensLiteral_append, opensLiteral_filler hbefore,
    opensLiteral_filler hafter]

/-! ### The pair -/

/-- Whether an expression gets a pair rests on all its parentheses. -/
theorem parenthesize_eq (e : List Char) :
    parenthesize e = if Enclosed (trim e) then trim e else '(' :: (trim e ++ [')']) := by
  simp only [parenthesize, isEnclosed_iff]

theorem parenthesize_eq_trim_iff {e : List Char} :
    parenthesize e = trim e ↔ Enclosed (trim e) := by
  rw [parenthesize_eq]
  split
  · next h => simp only [h]
  · next h =>
    refine iff_of_false (fun hsame => ?_) h
    have := congrArg List.length hsame
    rw [List.length_cons, List.length_append] at this
    omega

/-- A second time changes nothing exactly if the expression was enclosed or its parentheses, all of
them, match. -/
theorem parenthesize_parenthesize_iff {e : List Char} :
    parenthesize (parenthesize e) = parenthesize e
      ↔ Enclosed (trim e) ∨ balanced 0 (trim e) = true := by
  have hagain : ∀ {cs : List Char}, trim cs = cs → (parenthesize cs = cs ↔ Enclosed cs) := by
    intro cs htrim
    have := parenthesize_eq_trim_iff (e := cs)
    rwa [htrim] at this
  by_cases h : Enclosed (trim e)
  · have htrim : trim (trim e) = trim e :=
      trim_eq_self (not_blank_trim_ends e).1 (not_blank_trim_ends e).2
    rw [parenthesize_eq_trim_iff.2 h, hagain htrim]
    simp only [h, true_or]
  · rw [parenthesize_eq e, if_neg h, hagain (trim_enclosed (by decide) (by decide) _)]
    simp only [h, false_or]
    constructor
    · rintro ⟨inner, hinner, hbalanced⟩
      rw [List.cons.injEq, List.append_left_inj] at hinner
      rw [hinner.2]
      exact hbalanced
    · exact fun hbalanced => ⟨trim e, rfl, hbalanced⟩

/-- An expression whose parentheses match outside literals is put in parentheses of its own: it
stays as it is if it is enclosed, and a second time changes nothing. All its parentheses are counted
for that, so those inside its literals have to match as well. -/
theorem parenthesize_encloses {e : List Char} (hbalanced : balanced 0 (masked false e) = true) :
    parenthesize e = (if Enclosed (trim e) then trim e else '(' :: (trim e ++ [')']))
    ∧ (parenthesize (parenthesize e) = parenthesize e
      ↔ Enclosed (trim e) ∨ balanced 0 (trim e) = true)
    ∧ (literalsBalanced none e = true →
      (parenthesize e = trim e ↔ Enclosed (masked false (trim e)))
      ∧ (opensLiteral false e = false → Enclosed (masked false (parenthesize e)))
      ∧ parenthesize (parenthesize e) = parenthesize e) := by
  refine ⟨parenthesize_eq e, parenthesize_parenthesize_iff, fun hliterals => ?_⟩
  rw [← literalsBalanced_trim] at hliterals
  rw [← balanced_masked_trim] at hbalanced
  have hmasked := enclosed_masked_iff hliterals
  refine ⟨parenthesize_eq_trim_iff.trans hmasked, fun hopen => ?_, ?_⟩
  · rw [← opensLiteral_trim] at hopen
    rw [parenthesize_eq]
    split
    · next h => exact hmasked.1 h
    · -- no literal is open where the pair closes
      refine ⟨masked false (trim e), ?_, hbalanced⟩
      rw [masked_cons false (by decide), masked_append, hopen]
      rfl
  · have hall : balanced 0 (trim e) = true := by
      rw [← hbalanced]
      exact (counts_masked hliterals 0).2
    exact parenthesize_parenthesize_iff.2 (.inr hall)

theorem parenthesize_encloses_concatenation :
    balanced 0 (masked false " (lower(a)) || '(''s)' ".toList) = true
    ∧ literalsBalanced none " (lower(a)) || '(''s)' ".toList = true
    ∧ opensLiteral false " (lower(a)) || '(''s)' ".toList = false
    ∧ parenthesize " (lower(a)) || '(''s)' ".toList = "((lower(a)) || '(''s)')".toList
    ∧ Enclosed (masked false (parenthesize " (lower(a)) || '(''s)' ".toList)) := by
  have h := parenthesize_encloses (e := " (lower(a)) || '(''s)' ".toList) (by decide)
  refine ⟨by decide, by decide, by decide, ?_, (h.2.2 (by decide)).2.1 (by decide)⟩
  rw [h.1]
  decide

/-- A parenthesis inside a literal is taken for the partner of the first one, or keeps the last one
from being it. -/
theorem parenthesize_misled :
    (balanced 0 (masked false "(a = '(') || (b = ')')".toList) = true
      ∧ opensLiteral false "(a = '(') || (b = ')')".toList = false
      ∧ parenthesize "(a = '(') || (b = ')')".toList = "(a = '(') || (b = ')')".toList
      ∧ ¬ Enclosed (masked false "(a = '(') || (b = ')')".toList))
    ∧ balanced 0 (masked false "(a = ')')".toList) = true
      ∧ Enclosed (masked false "(a = ')')".toList)
      ∧ parenthesize "(a = ')')".toList = "((a = ')'))".toList
      ∧ parenthesize (parenthesize "(a = ')')".toList) = "(((a = ')')))".toList := by
  decide

end StagedTable.Sql
