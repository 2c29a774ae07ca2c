import StagedTable.Row
import StagedTable.Text.Blank
import StagedTable.Value.Display

/-!
# Server errors

The error that a database server reports, and how it is found in what a driver raises.
-/

namespace StagedTable

open Text

/-- An error as the server reports it. -/
structure ServerError where
  message : String
  code : Option String
  detail : Option String
  hint : Option String
deriving DecidableEq

/-- The structured report that some drivers attach to an error. -/
structure Diagnostics where
  primary : Option String
  detail : Option String
  hint : Option String

/-- An error as a driver raises it: its text, the codes it may carry in the order of preference, and
the report. -/
structure DriverError where
  text : String
  codes : List Value
  diagnostics : Option Diagnostics

/-- A text, unless it is empty. -/
def nonEmpty? (s : Option String) : Option String := s.filter (· ≠ "")

/-- The text of a code, which may be a number. -/
def codeText : Value → String
  | .text s => s
  | v => String.ofList v.nested

/-- The server's error inside a driver error: the first code that is set, and the report before the
text where both say something. -/
def ServerError.ofDriver (e : DriverError) : ServerError :=
  let report := e.diagnostics.getD ⟨none, none, none⟩
  { message := (nonEmpty? report.primary).getD (trimString e.text)
    code := (e.codes.find? fun v => !v.isFalsy).map codeText
    detail := nonEmpty? report.detail
    hint := nonEmpty? report.hint }

end StagedTable
