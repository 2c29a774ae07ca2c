/-!
# White space

Two classes of white space and the trimming that rests on them. `isBlank` is the wide class of
Unicode: the separators, the line controls and the four information separators. `isAsciiBlank` is
the narrow class that a number may be led in by.

The main facts: a trimmed text is a middle part of the text (`trim_isInfix`), and trimming leaves
no blank at either end (`head_trimStart`), so that a text without any there stays as it is
(`trim_eq_self`).
-/

namespace StagedTable.Text

/-- White space in the wide sense: the ASCII blanks with the four information separators
(U+001C to U+001F), the next-line and no-break space, and the space separators of Unicode. The
zero width space and the byte order mark are not blanks. -/
def isBlank (c : Char) : Bool :=
  let n := c.toNat
  (0x9 ≤ n && n ≤ 0xD) || (0x1C ≤ n && n ≤ 0x20) || n == 0x85 || n == 0xA0 || n == 0x1680
    || (0x2000 ≤ n && n ≤ 0x200A) || n == 0x2028 || n == 0x2029 || n == 0x202F || n == 0x205F
    || n == 0x3000

/-- The six white space characters of ASCII: tab, line feed, vertical tab, form feed, carriage
return and space. -/
def isAsciiBlank (c : Char) : Bool :=
  let n := c.toNat
  (0x9 ≤ n && n ≤ 0xD) || n == 0x20

/-- Drops the blanks at the start. -/
def trimStart (cs : List Char) : List Char := cs.dropWhile isBlank

/-- Drops the blanks at the end. -/
def trimEnd (cs : List Char) : List Char := (cs.reverse.dropWhile isBlank).reverse

/-- Drops the blanks at both ends. -/
def trim (cs : List Char) : List Char := trimEnd (trimStart cs)

/-- Whether nothing but blanks is left. -/
def allBlank (cs : List Char) : Bool := cs.all isBlank

/-- `trim` on strings. -/
def trimString (s : String) : String := String.ofList (trim s.toList)

/-- Whether the string holds nothing but blanks. -/
def blankString (s : String) : Bool := allBlank s.toList

@[simp] theorem trimStart_nil : trimStart [] = [] := rfl

@[simp] theorem trim_nil : trim [] = [] := rfl

/-- What is left starts with no blank. -/
theorem head_trimStart {cs : List Char} {c : Char} {r : List Char} (h : trimStart cs = c :: r) :
    isBlank c = false := by
  have := List.head?_dropWhile_not isBlank cs
  unfold trimStart at h
  rw [h] at this
  simpa using this

/-- Trimming the end leaves a leading part. -/
theorem trimEnd_isPrefix (cs : List Char) : trimEnd cs <+: cs := by
  have h : cs.reverse.dropWhile isBlank <:+ cs.reverse := List.dropWhile_suffix _
  have := List.reverse_prefix.2 h
  simpa [trimEnd] using this

/-- A trimmed text is a middle part of the text. -/
theorem trim_isInfix (cs : List Char) : trim cs <:+: cs :=
  (trimEnd_isPrefix _).isInfix.trans (List.dropWhile_suffix _).isInfix

/-- Trimming changes no text that has a blank at neither end. -/
theorem trim_eq_self {cs : List Char} (hstart : ∀ c, cs.head? = some c → isBlank c = false)
    (hend : ∀ c, cs.getLast? = some c → isBlank c = false) : trim cs = cs := by
  have hkeep : ∀ ds : List Char, (∀ c, ds.head? = some c → isBlank c = false) →
      ds.dropWhile isBlank = ds := by
    intro ds h
    cases ds with
    | nil => rfl
    | cons c r => rw [List.dropWhile_cons, if_neg (by rw [h c rfl]; decide)]
  have hreverse : cs.reverse.dropWhile isBlank = cs.reverse :=
    hkeep cs.reverse fun c hc => hend c (by rwa [List.head?_reverse] at hc)
  rw [trim, trimStart, hkeep cs hstart, trimEnd, hreverse, List.reverse_reverse]

end StagedTable.Text
