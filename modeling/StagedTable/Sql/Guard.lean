import StagedTable.Text.Blank
import StagedTable.Text.Search

/-!
# The guard for entered statements

A check that refuses statements with comments or with a destructive statement behind a semicolon.
It is a second line of defence only: generated statements are safe by the quoting of their literals.
-/

namespace StagedTable.Sql.Guard

open Text

/-- Passes one blank or more at the start of a text. -/
def afterBlanks? : List Char → Option (List Char)
  | c :: rest => if isBlank c then some (trimStart rest) else none
  | [] => none

/-- The rest of the line, the line feed left out. -/
def lineRest (cs : List Char) : List Char := cs.takeWhile (· != '\n')

/-- Whether a line without the word where starts behind one or more of the blanks at the start of a
text: a line of blanks only, or the one that starts behind them all. -/
def lacksWhere : List Char → Bool
  | [] => false
  | c :: rest =>
    isBlank c && ((rest.takeWhile isBlank).contains '\n'
      || !holdsWord "where".toList (lineRest (trimStart rest)))

/-- Whether a word and a blank follow. -/
def startsStatement (word : String) (cs : List Char) : Bool :=
  match afterWord? word.toList cs with
  | some rest => (afterBlanks? rest).isSome
  | none => false

/-- Whether a delete follows whose line does not name a condition. -/
def startsDelete (cs : List Char) : Bool :=
  match (afterWord? "delete".toList cs).bind afterBlanks? with
  | some rest =>
    match afterWord? "from".toList rest with
    | some rest => lacksWhere rest
    | none => false
  | none => false

/-- Whether a destructive statement follows a semicolon that starts the text. -/
def isDestructive : List Char → Bool
  | ';' :: rest =>
    let rest := trimStart rest
    startsStatement "drop" rest || startsDelete rest || startsStatement "truncate" rest
      || startsStatement "alter" rest
  | _ => false

/-- Whether a comment starts here. -/
def startsComment (cs : List Char) : Bool :=
  "--".toList.isPrefixOf cs || "/*".toList.isPrefixOf cs

/-- Whether a text holds a comment, or a destructive statement behind a semicolon. -/
def isDangerous (cs : List Char) : Bool := anyTail (fun t => startsComment t || isDestructive t) cs

/-- What is said of a refused text. -/
def refusal : String := "Query contains potentially dangerous patterns"

end StagedTable.Sql.Guard
