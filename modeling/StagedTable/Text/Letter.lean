import StagedTable.Text.Letter.Lowercase
import StagedTable.Text.Letter.Context

/-!
# Letter case

The lower case of a text under the full mapping of Unicode, and comparison with an ASCII word in
any letter case.
-/

namespace StagedTable.Text

/-- The small letter of an ASCII capital, or the character itself. -/
def asciiLower (c : Char) : Char := if 'A' ≤ c && c ≤ 'Z' then Char.ofNat (c.toNat + 32) else c

/-- Whether a text is the given lower-case ASCII word in any letter case. No character beyond ASCII
counts as a letter of a word. -/
def isWord (word cs : List Char) : Bool := cs.map asciiLower == word

/-- The capital sigma at the end of a word has a small letter of its own: it does when a cased
letter comes before it and none after it, case-ignorable characters left out of account. -/
def smallSigma (afterCased : Bool) (rest : List Char) : Char :=
  let beforeCased := match rest.dropWhile isCaseIgnorable with
    | c :: _ => isCased c
    | [] => false
  if afterCased && !beforeCased then 'ς' else 'σ'

/-- The lower case of a text, `afterCased` telling whether a cased letter comes before it. -/
def lowerAfter (afterCased : Bool) : List Char → List Char
  | [] => []
  | c :: rest =>
    if c.toNat < 0x80 then
      let afterCased := if isCaseIgnorable c then afterCased else c.isAlpha
      asciiLower c :: lowerAfter afterCased rest
    else
      let here := if c == 'Σ' then [smallSigma afterCased rest]
        else if c == 'İ' then ['i', Char.ofNat 0x307]
        else [smallLetter c]
      let afterCased := if isCaseIgnorable c then afterCased else isCased c
      here ++ lowerAfter afterCased rest

/-- The lower case of a text. Each character goes to its small letter; the dotted capital I becomes
an i and a combining dot, and the capital sigma follows its surroundings. -/
def lower (cs : List Char) : List Char := lowerAfter false cs

/-- `lower` on strings. -/
def lowerString (s : String) : String := String.ofList (lower s.toList)

end StagedTable.Text
