import StagedTable.Proofs.Sql.RowStatement

/-!
# Statements one after the other

Texts of row statements that follow each other with nothing between them. No separator tells where
one of them ends, and its last token may run into the first word of the next one. But the words that
a statement starts with stand nowhere else outside quotes: `cut` cuts a text where they stand, and
gives back the statements that were put together (`cut_flatten`), with the text before the first of
them.
-/

namespace StagedTable.Sql

open Text

/-! ### Cutting -/

/-- What row statements start with. -/
def statementHeads : List (List Char) :=
  ["INSERT INTO ".toList, "UPDATE ".toList, "DELETE FROM ".toList]

theorem mem_statementHeads {head : List Char} : head ∈ statementHeads
    ↔ head = "INSERT INTO ".toList ∨ head = "UPDATE ".toList ∨ head = "DELETE FROM ".toList := by
  simp [statementHeads]

/-- Whether a text starts like a row statement. -/
def startsStatement (cs : List Char) : Bool := statementHeads.any (·.isPrefixOf cs)

/-- The quote that is open behind a character, if one is. A doubled quote closes and opens again. -/
def quoteAfter (quote : Option Char) (c : Char) : Option Char :=
  match quote with
  | some q => if c = q then none else some q
  | none => if c = '"' ∨ c = '\'' then some c else none

/-- The text before the first place outside quotes at which a statement starts, and the texts from
each such place to the next one. -/
def cut (quote : Option Char) : List Char → List Char × List (List Char)
  | [] => ([], [])
  | c :: rest =>
    let behind := cut (quoteAfter quote c) rest
    if quote = none ∧ startsStatement (c :: rest) then ([], (c :: behind.1) :: behind.2)
    else (c :: behind.1, behind.2)

/-- Whether nothing is cut off in a text that stands outside quotes, whatever follows it. -/
def Passes (w : List Char) : Prop :=
  ∀ after, cut none (w ++ after) = (w ++ (cut none after).1, (cut none after).2)

/-- Whether a text that stands outside quotes is cut off as a statement, whatever follows it. -/
def Stands (w : List Char) : Prop :=
  ∀ after, cut none (w ++ after) = ([], (w ++ (cut none after).1) :: (cut none after).2)

/-- Statements behind a text that is passed over are found one by one. -/
theorem cut_flatten {w : List Char} {statements : List (List Char)} (hw : Passes w)
    (h : ∀ s ∈ statements, Stands s) : cut none (w ++ statements.flatten) = (w, statements) := by
  have hcut : cut none statements.flatten = ([], statements) := by
    induction statements with
    | nil => rfl
    | cons s rest ih =>
      rw [List.forall_mem_cons] at h
      rw [List.flatten_cons, h.1, ih h.2, List.append_nil]
  rw [hw, hcut, List.append_nil]

-- Between quotes no statement starts.
example : cut none "2026DELETE FROM \"UPDATE t\"UPDATE t".toList
    = ("2026".toList, ["DELETE FROM \"UPDATE t\"".toList, "UPDATE t".toList]) := by decide

/-! ### What is passed over -/

theorem passes_nil : Passes [] := fun _ => rfl

theorem Passes.append {w v : List Char} (hw : Passes w) (hv : Passes v) : Passes (w ++ v) := by
  intro after
  rw [List.append_assoc, hw, hv, List.append_assoc]

theorem passes_intercalate {separator : List Char} (hseparator : Passes separator)
    {parts : List (List Char)} (h : ∀ w ∈ parts, Passes w) :
    Passes (List.intercalate separator parts) := by
  induction parts with
  | nil => exact passes_nil
  | cons w rest ih =>
    rw [List.forall_mem_cons] at h
    cases rest with
    | nil => simpa using h.1
    | cons v rest =>
      rw [List.intercalate_cons_cons]
      exact (h.1.append hseparator).append (ih h.2)

/-- Whether no quote stands in a text, and no statement starts in it or could start in it if the
right text followed. -/
def isClear : List Char → Bool
  | [] => true
  | c :: rest =>
    (quoteAfter none c).isNone
      && statementHeads.all (fun head =>
        !head.isPrefixOf (c :: rest) && !(c :: rest).isPrefixOf head)
      && isClear rest

theorem passes_of_isClear {w : List Char} (h : isClear w = true) : Passes w := by
  induction w with
  | nil => exact passes_nil
  | cons c rest ih =>
    simp only [isClear, Bool.and_eq_true, Option.isNone_iff_eq_none, List.all_eq_true,
      Bool.not_eq_true'] at h
    obtain ⟨⟨hquote, hheads⟩, hrest⟩ := h
    intro after
    have hstart : startsStatement (c :: (rest ++ after)) = false := by
      rw [startsStatement, List.any_eq_false]
      intro head hhead hbegins
      obtain ⟨hlong, hshort⟩ := hheads head hhead
      -- the head and the text start the same text, so one of them starts the other
      rcases List.prefix_or_prefix_of_prefix (List.isPrefixOf_iff_prefix.1 hbegins)
          (List.prefix_append (c :: rest) after) with hp | hp
      · rw [List.isPrefixOf_iff_prefix.2 hp] at hlong
        cases hlong
      · rw [List.isPrefixOf_iff_prefix.2 hp] at hshort
        cases hshort
    rw [List.cons_append, cut, hquote, ih hrest after, hstart]
    rfl

/-- Whether a character is no quote and no statement starts with it. -/
def isPlain (c : Char) : Bool := !"IUD\"'".toList.contains c

theorem isClear_of_isPlain {w : List Char} (h : ∀ c ∈ w, isPlain c = true) : isClear w = true := by
  induction w with
  | nil => rfl
  | cons c rest ih =>
    rw [List.forall_mem_cons] at h
    have hne : c ≠ 'I' ∧ c ≠ 'U' ∧ c ≠ 'D' ∧ c ≠ '"' ∧ c ≠ '\'' := by simpa [isPlain] using h.1
    obtain ⟨hI, hU, hD, hdouble, hsingle⟩ := hne
    simp [isClear, ih h.2, quoteAfter, statementHeads, List.isPrefixOf, hI, hU, hD, hdouble,
      hsingle, hI.symm, hU.symm, hD.symm]

/-- Digits are plain. -/
theorem isPlain_of_isDigit {c : Char} (h : isDigit c = true) : isPlain c = true := by
  have hne : ∀ d : Char, isDigit d = false → c ≠ d := fun d => ne_of_isDigit h
  simp [isPlain, hne 'I' rfl, hne 'U' rfl, hne 'D' rfl, hne '"' rfl, hne '\'' rfl]

/-- Inside quotes nothing is cut off. -/
theorem cut_quoted (q c : Char) (rest : List Char) :
    cut (some q) (c :: rest) = (c :: (cut (quoteAfter (some q) c) rest).1,
      (cut (quoteAfter (some q) c) rest).2) := by
  simp [cut]

theorem startsStatement_quote {q : Char} (hq : q = '"' ∨ q = '\'') (rest : List Char) :
    startsStatement (q :: rest) = false := by
  rcases hq with rfl | rfl <;> rfl

theorem cut_quote {q : Char} (hq : q = '"' ∨ q = '\'') (rest : List Char) :
    cut none (q :: rest) = (q :: (cut (some q) rest).1, (cut (some q) rest).2) := by
  simp [cut, startsStatement_quote hq, quoteAfter, hq]

/-- A quoted text is passed over up to its closing quote. -/
theorem passes_quoted {q : Char} (hq : q = '"' ∨ q = '\'') (cs : List Char) :
    Passes (quoted q cs) := by
  intro after
  have hbody : cut (some q) (doubled q cs ++ q :: after)
      = (doubled q cs ++ q :: (cut none after).1, (cut none after).2) := by
    induction cs with
    | nil => simp [doubled, cut_quoted, quoteAfter]
    | cons c rest ih =>
      by_cases hc : c = q
      · subst hc
        -- a doubled quote closes and opens again
        simp [doubled, cut_quoted, cut_quote hq, quoteAfter, ih]
      · simp [doubled, cut_quoted, quoteAfter, hc, ih]
  simp [quoted, cut_quote hq, hbody]

/-! ### The parts of a statement -/

theorem passes_identifier (name : String) : Passes (identifier name) :=
  passes_quoted (.inl rfl) name.toList

theorem passes_string (cs : List Char) : Passes (string cs) := passes_quoted (.inr rfl) cs

theorem passes_table (t : TableName) : Passes t.render :=
  (passes_identifier t.schema).append
    ((passes_of_isClear (w := ['.']) rfl).append (passes_identifier t.name))

theorem isPlain_of_mem_exponent {e : WrittenExponent} {c : Char} (h : c ∈ e.render) :
    isPlain c = true := by
  rcases List.mem_cons.1 h with rfl | h
  · unfold WrittenExponent.letter
    split <;> rfl
  rcases List.mem_append.1 h with h | h
  · unfold WrittenExponent.signText at h
    split at h <;> simp at h <;> subst h <;> rfl
  · exact isPlain_of_isDigit (e.isDigit c h)

theorem isPlain_of_mem_numeral {w : WrittenNumeral} {c : Char} (h : c ∈ w.render) :
    isPlain c = true := by
  rcases List.mem_append.1 h with h | h
  · exact isPlain_of_isDigit (w.isDigit_whole c h)
  rcases List.mem_append.1 h with h | h
  · unfold WrittenNumeral.fractionText at h
    split at h
    · cases h
    · rcases List.mem_cons.1 h with rfl | h
      · rfl
      · exact isPlain_of_isDigit (w.isDigit_fraction c h)
  · unfold WrittenNumeral.exponentText at h
    split at h
    · cases h
    · exact isPlain_of_mem_exponent h

theorem passes_literal {l : Literal} (h : l.IsWritten) : Passes l.render := by
  cases l with
  | null => exact passes_of_isClear rfl
  | bool b => cases b <;> exact passes_of_isClear rfl
  | number text =>
    obtain ⟨negative, w, rfl⟩ := h
    have hsign : Passes (if negative then ['-'] else []) := by
      cases negative <;> exact passes_of_isClear rfl
    exact hsign.append (passes_of_isClear (isClear_of_isPlain fun _ => isPlain_of_mem_numeral))
  | string text => exact passes_string text
  | json text => exact (passes_string text).append (passes_of_isClear rfl)

namespace Binding

theorem passes_assignment {b : Binding} (h : b.literal.IsWritten) : Passes b.assignment :=
  ((passes_identifier b.column).append (passes_of_isClear rfl)).append (passes_literal h)

theorem passes_predicate {b : Binding} (h : b.literal.IsWritten) : Passes b.predicate := by
  unfold predicate
  cases b.value with
  | null => exact (passes_identifier b.column).append (passes_of_isClear rfl)
  | _ => exact passes_assignment h

end Binding

/-- A list is passed over if each of its texts is. -/
theorem passes_list {α : Type} {text : α → List Char} {xs : List α}
    (h : ∀ x ∈ xs, Passes (text x)) : Passes (List.intercalate ", ".toList (xs.map text)) :=
  passes_intercalate (passes_of_isClear rfl) (by simpa using h)

theorem passes_parenthesized {α : Type} {text : α → List Char} {xs : List α}
    (h : ∀ x ∈ xs, Passes (text x)) : Passes (Statement.parenthesized (xs.map text)) :=
  (passes_of_isClear (w := ['(']) rfl).append
    ((passes_list h).append (passes_of_isClear (w := [')']) rfl))

theorem passes_condition {condition : List Binding} (h : ∀ b ∈ condition, b.literal.IsWritten) :
    Passes (Statement.renderCondition condition) := by
  refine passes_intercalate (passes_of_isClear rfl) ?_
  simpa using fun b hb => Binding.passes_predicate (h b hb)

/-! ### Statements -/

/-- What a statement starts with is cut off, and no other statement starts behind its first
character. -/
theorem stands_of_head {head w : List Char} (hhead : head ∈ statementHeads) (hw : Passes w) :
    Stands (head ++ w) := by
  have hparts : ∃ c tail, head = c :: tail ∧ quoteAfter none c = none ∧ isClear tail = true := by
    rcases mem_statementHeads.1 hhead with rfl | rfl | rfl <;> exact ⟨_, _, rfl, rfl, rfl⟩
  obtain ⟨c, tail, rfl, hquote, htail⟩ := hparts
  intro after
  have hstart : startsStatement (c :: (tail ++ w ++ after)) = true := by
    refine List.any_eq_true.2 ⟨c :: tail, hhead, List.isPrefixOf_iff_prefix.2 ?_⟩
    exact ⟨w ++ after, by simp⟩
  have hrest := ((passes_of_isClear htail).append hw) after
  rw [List.cons_append, List.cons_append, cut, hquote, hrest, if_pos ⟨rfl, hstart⟩]
  rfl

namespace Statement

theorem stands_render {s : Statement} (h : s.IsWritten) : Stands s.render := by
  cases s with
  | insert table items =>
    have hhead : "INSERT INTO ".toList ∈ statementHeads := mem_statementHeads.2 (.inl rfl)
    have htable := (passes_table table).append (passes_of_isClear (w := [' ']) rfl)
    cases items with
    | nil =>
      rw [render_insert_nil, List.append_assoc]
      exact stands_of_head hhead (htable.append (passes_of_isClear rfl))
    | cons b rest =>
      rw [render_insert_cons, List.append_assoc]
      have hcolumns : Passes (parenthesized ((b :: rest).map (identifier ·.column))) :=
        passes_parenthesized fun c _ => passes_identifier c.column
      have hliterals := passes_parenthesized fun c hc => passes_literal (h c hc)
      exact stands_of_head hhead
        (htable.append (hcolumns.append ((passes_of_isClear rfl).append hliterals)))
  | update table assignments condition =>
    obtain ⟨-, -, hassigned, htested⟩ := h
    have hassignments := passes_list fun b hb => Binding.passes_assignment (hassigned b hb)
    rw [render_update, List.append_assoc]
    exact stands_of_head (mem_statementHeads.2 (.inr (.inl rfl)))
      ((((passes_table table).append (passes_of_isClear rfl)).append
        (hassignments.append (passes_of_isClear rfl))).append (passes_condition htested))
  | delete table condition =>
    rw [render_delete, List.append_assoc]
    exact stands_of_head (mem_statementHeads.2 (.inr (.inr rfl)))
      (((passes_table table).append (passes_of_isClear rfl)).append (passes_condition h.2))

end Statement

end StagedTable.Sql
