import StagedTable.Text.Blank
import StagedTable.Text.Letter
import StagedTable.Text.Search

/-!
# Kinds of columns

Every data type belongs to a kind, which says what its values look like. Rules decide the kind of a
type by its base name. Among the rules that accept a name the one of highest priority counts, and
among equals the one that was added first.
-/

namespace StagedTable

open Text

/-- What the values of a column look like. -/
inductive Kind
  | integer
  | float
  | boolean
  | date
  | time
  | timestamp
  | json
  | array
  | text
deriving DecidableEq

namespace Kind

/-- The name of a kind. -/
def name : Kind → String
  | .integer => "integer"
  | .float => "float"
  | .boolean => "boolean"
  | .date => "date"
  | .time => "time"
  | .timestamp => "timestamp"
  | .json => "json"
  | .array => "array"
  | .text => "text"

/-- All kinds. -/
def all : List Kind := [.integer, .float, .boolean, .date, .time, .timestamp, .json, .array, .text]

/-- The kind of a given name. -/
def ofName? (name : String) : Option Kind := all.find? (·.name == name)

/-- Whether the values are dates or times. -/
def isTemporal : Kind → Bool
  | .date | .time | .timestamp => true
  | _ => false

end Kind

namespace TypeName

/-- Makes one space of every run of blanks; `inRun` tells that a run has been passed already. -/
def collapse (inRun : Bool) : List Char → List Char
  | [] => []
  | c :: rest =>
    if isBlank c then (if inRun then collapse true rest else ' ' :: collapse true rest)
    else c :: collapse false rest

/-- Whether a modifier starts here: a text between parentheses without a closing one inside. -/
def opensModifier : List Char → Bool
  | c :: rest => c == '(' && rest.contains ')'
  | [] => false

/-- Leaves out all modifiers, each with the space before it; `inside` tells that the reading is
inside a modifier. -/
def withoutModifiers (inside : Bool) : List Char → List Char
  | [] => []
  | c :: rest =>
    if inside then withoutModifiers (c != ')') rest
    else if opensModifier (c :: rest) then withoutModifiers true rest
    else if c = ' ' ∧ opensModifier rest then withoutModifiers false rest
    else c :: withoutModifiers false rest

/-- The base name of a data type: in lower case, without blanks around it, with single spaces
inside, and without modifiers such as a length or a precision. -/
def base (cs : List Char) : List Char := withoutModifiers false (collapse false (lower (trim cs)))

end TypeName

/-- A rule: the types whose base name passes the test are of the kind. -/
structure KindRule where
  priority : Int
  accepts : List Char → Bool
  kind : Kind

namespace KindRule

/-- Accepts the listed names. -/
def exact (names : List String) (kind : Kind) (priority : Int) : KindRule :=
  ⟨priority, fun cs => names.any (·.toList == cs), kind⟩

/-- Accepts the names with a given start. -/
def startingWith (start : String) (kind : Kind) (priority : Int) : KindRule :=
  ⟨priority, fun cs => start.toList.isPrefixOf cs, kind⟩

/-- Accepts the names with a given end. -/
def endingWith (ending : String) (kind : Kind) (priority : Int) : KindRule :=
  ⟨priority, fun cs => ending.toList.isSuffixOf cs, kind⟩

/-- Accepts the names that hold a given text. -/
def holding (part : String) (kind : Kind) (priority : Int) : KindRule :=
  ⟨priority, fun cs => holds part.toList cs, kind⟩

/-- The priority of a rule for whole names, unless another is given. -/
def exactPriority : Int := 100

/-- The priority of a rule for starts and ends of names, unless another is given. -/
def affixPriority : Int := 50

/-- The priority of any other rule, unless another is given. -/
def customPriority : Int := 25

end KindRule

/-- Rules in descending order of priority; among equals the one added first comes first. -/
abbrev KindRegistry := List KindRule

namespace KindRegistry

/-- The registry without rules. -/
def empty : KindRegistry := []

/-- Adds a rule behind all rules of its priority or a higher one. -/
def register (rule : KindRule) : KindRegistry → KindRegistry
  | [] => [rule]
  | r :: rest => if r.priority < rule.priority then rule :: r :: rest else r :: register rule rest

/-- The registry of rules added in order. -/
def ofRules (rules : List KindRule) : KindRegistry :=
  rules.foldl (fun registry rule => register rule registry) empty

/-- The kind of a type: that of the first rule that accepts its base name, and text if none does. -/
def kind (registry : KindRegistry) (dataType : List Char) : Kind :=
  match List.find? (·.accepts (TypeName.base dataType)) registry with
  | some rule => rule.kind
  | none => .text

/-- The rules for the built-in types. Arrays come before their element types. -/
def builtIn : KindRegistry := ofRules [
  .endingWith "[]" .array 200,
  .startingWith "_" .array 200,
  .exact ["array"] .array 200,
  .exact ["boolean", "bool"] .boolean KindRule.exactPriority,
  .exact ["smallint", "integer", "bigint", "int", "int2", "int4", "int8", "smallserial", "serial",
    "bigserial", "serial2", "serial4", "serial8"] .integer KindRule.exactPriority,
  .exact ["real", "float4", "float8", "double precision", "float", "numeric", "decimal"] .float
    KindRule.exactPriority,
  .exact ["date"] .date KindRule.exactPriority,
  .exact ["time", "timetz", "time without time zone", "time with time zone"] .time
    KindRule.exactPriority,
  .startingWith "timestamp" .timestamp KindRule.affixPriority,
  .exact ["json", "jsonb"] .json KindRule.exactPriority]

end KindRegistry

/-- The kind of a data type under the rules for the built-in types. -/
def Kind.ofType (dataType : String) : Kind := KindRegistry.builtIn.kind dataType.toList

end StagedTable
