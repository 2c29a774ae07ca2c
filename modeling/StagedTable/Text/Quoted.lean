/-!
# Doubled quotes

A text between two quote characters, with each quote inside it written twice. The main statement:
what was written is read back and nothing after it is touched (`readQuoted_quoted`).
-/

namespace StagedTable.Text

/-- Writes each `q` twice and all else once. -/
def doubled (q : Char) : List Char → List Char
  | [] => []
  | c :: rest => if c = q then q :: q :: doubled q rest else c :: doubled q rest

/-- A text between two quotes, each quote inside it written twice. -/
def quoted (q : Char) (cs : List Char) : List Char := q :: (doubled q cs ++ [q])

/-- Reads up to the closing quote, the opening one being behind: a doubled quote stands for one
quote, and a quote that stands alone closes. Yields the text and what follows the closing quote. -/
def readQuotedBody (q : Char) : List Char → Option (List Char × List Char)
  | [] => none
  | [c] => if c = q then some ([], []) else none
  | c :: d :: rest =>
    if c = q then
      if d = q then (readQuotedBody q rest).map fun (text, after) => (q :: text, after)
      else some ([], d :: rest)
    else (readQuotedBody q (d :: rest)).map fun (text, after) => (c :: text, after)

/-- Reads a quoted text at the start of the input. -/
def readQuoted (q : Char) : List Char → Option (List Char × List Char)
  | c :: rest => if c = q then readQuotedBody q rest else none
  | [] => none

/-- The body of a quoted text reads back, as long as no further quote follows the closing one. -/
theorem readQuotedBody_doubled (q : Char) (cs after : List Char)
    (h : ∀ r, after ≠ q :: r) :
    readQuotedBody q (doubled q cs ++ q :: after) = some (cs, after) := by
  induction cs with
  | nil =>
    cases after with
    | nil => simp [doubled, readQuotedBody]
    | cons d r =>
      have : d ≠ q := fun e => h r (by rw [e])
      simp [doubled, readQuotedBody, this]
  | cons c rest ih =>
    by_cases hc : c = q
    · subst hc
      simp [doubled, readQuotedBody, ih]
    · cases hr : doubled q rest ++ q :: after with
      | nil => simp at hr
      | cons d tail =>
        simp only [doubled, hc, if_false, List.cons_append, hr, readQuotedBody]
        rw [← hr, ih]
        rfl

/-- A quoted text reads back, as long as no further quote follows the closing one. -/
theorem readQuoted_quoted (q : Char) (cs after : List Char) (h : ∀ r, after ≠ q :: r) :
    readQuoted q (quoted q cs ++ after) = some (cs, after) := by
  simp [readQuoted, quoted, readQuotedBody_doubled q cs after h]

end StagedTable.Text
