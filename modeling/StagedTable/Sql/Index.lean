import StagedTable.Text.Blank
import StagedTable.Text.Letter
import StagedTable.Sql.Literal

/-!
# Indexes

The statements that create and drop an index, and the name that an index gets by default.
-/

namespace StagedTable.Sql

open Text

/-- What follows the partner of an opening parenthesis that has been passed; `depth` parentheses are
open inside it. -/
def afterPartner? (depth : Nat) : List Char → Option (List Char)
  | [] => none
  | '(' :: rest => afterPartner? (depth + 1) rest
  | ')' :: rest =>
    match depth with
    | 0 => some rest
    | d + 1 => afterPartner? d rest
  | _ :: rest => afterPartner? depth rest

/-- Whether the first character is a parenthesis that closes with the last one. -/
def isEnclosed : List Char → Bool
  | '(' :: rest => afterPartner? 0 rest == some []
  | _ => false

/-- An expression without blanks around it, in parentheses; one that is enclosed by a pair of its
own gets none. -/
def parenthesize (expression : List Char) : List Char :=
  let cs := trim expression
  if isEnclosed cs then cs else '(' :: (cs ++ [')'])

/-- One key of an index. It is an expression if it is declared as one and the expression is not
blank, else the column, if that is named. -/
structure IndexKey where
  declaredExpression : Bool
  column : String
  expression : String
  descending : Bool
  nullsOrder : Option String

/-- An index to be created. -/
structure Index where
  name : String
  method : String
  keys : List IndexKey
  unique : Bool
  concurrently : Bool
  condition : String

/-- Why an index cannot be created. -/
inductive IndexError
  | noKeys (name : String)
deriving DecidableEq

/-- The wording of an error. -/
def IndexError.message : IndexError → String
  | .noKeys name => "Index \"" ++ name ++ "\" has no columns"

namespace IndexKey

/-- Whether the key is an expression. -/
def isExpression (k : IndexKey) : Bool := k.declaredExpression && !blankString k.expression

/-- What the key is made of, if it names anything. -/
def subject? (k : IndexKey) : Option (List Char) :=
  if k.isExpression then some (parenthesize k.expression.toList)
  else if k.column = "" then none
  else some (identifier k.column)

/-- The text of the key; only an ordered index has directions. -/
def render? (ordered : Bool) (k : IndexKey) : Option (List Char) :=
  k.subject?.map fun subject =>
    if ordered then
      subject ++ (if k.descending then " DESC".toList else [])
        ++ (match k.nullsOrder with
          | some order => ' ' :: order.toList
          | none => [])
    else subject

/-- The greatest length of what an expression gives to a name. -/
def expressionNameLength : Nat := 20

/-- Whether a character of an expression may stand in a name. -/
def isNameChar (c : Char) : Bool :=
  isDigit c || ('a' ≤ c && c ≤ 'z') || ('A' ≤ c && c ≤ 'Z') || c == '_'

/-- What the key gives to the name of its index. -/
def namePart (k : IndexKey) : List Char :=
  if k.isExpression then
    lower ((k.expression.toList.filter isNameChar).take expressionNameLength)
  else lower k.column.toList

end IndexKey

namespace Index

/-- The statement that creates the index on a table. -/
def create (table : TableName) (i : Index) : Except IndexError (List Char) :=
  let ordered := i.method == "btree"
  match i.keys.filterMap (·.render? ordered) with
  | [] => .error (.noKeys i.name)
  | keys =>
    let condition := trim i.condition.toList
    .ok ("CREATE".toList ++ (if i.unique then " UNIQUE".toList else []) ++ " INDEX ".toList
      ++ (if i.concurrently then "CONCURRENTLY ".toList else [])
      ++ identifier i.name ++ " ON ".toList ++ table.render
      ++ (if ordered then [] else " USING ".toList ++ i.method.toList)
      ++ " (".toList ++ List.intercalate ", ".toList keys ++ [')']
      ++ (if condition = [] then [] else " WHERE ".toList ++ condition))

/-- The statement that drops an index. -/
def drop (index : TableName) (concurrently : Bool) : List Char :=
  "DROP INDEX ".toList ++ (if concurrently then "CONCURRENTLY ".toList else []) ++ index.render

/-- The name of an index by default: `idx`, the table and what the keys give, joined by
underscores. -/
def defaultName (table : String) (keys : List IndexKey) : List Char :=
  let table := trim table.toList
  let table := if table = [] then "table".toList else table
  let parts := (keys.map (·.namePart)).filter (· ≠ [])
  List.intercalate ['_'] ("idx".toList :: table :: parts)

end Index

end StagedTable.Sql
