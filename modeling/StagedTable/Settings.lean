import StagedTable.Value
import StagedTable.Settings.Document

/-!
# Settings

The limits of the cell display and the timeouts of migrations, with their defaults, and the check of
a settings document.
-/

namespace StagedTable

/-- The limits of the cell display: the length up to which a value is edited in place, the length at
which a shown text is cut, and the mark of a cut. -/
structure DisplaySettings where
  largeValueThreshold : Nat
  truncateLength : Nat
  ellipsis : String

/-- The timeouts of a migration that sets none itself, in milliseconds. -/
structure MigrationSettings where
  lockTimeout : Int
  statementTimeout : Int

/-- All settings. -/
structure Settings where
  display : DisplaySettings
  migration : MigrationSettings

namespace Settings

/-- The settings in force. -/
def default : Settings := ⟨⟨500, 100, "…"⟩, ⟨5000, 30000⟩⟩

/-- The settings as a document. -/
def document (s : Settings) : Value := .document [
  ("display", .document [
    ("large_value_threshold", .int s.display.largeValueThreshold),
    ("truncate_length", .int s.display.truncateLength),
    ("ellipsis", .text s.display.ellipsis)]),
  ("migration", .document [
    ("lock_timeout_ms", .int s.migration.lockTimeout),
    ("statement_timeout_ms", .int s.migration.statementTimeout)])]

/-- Why a settings text is refused. -/
inductive Error
  | fault (f : ConfigText.Fault)
  | missingSection (name : String)
deriving DecidableEq

/-- The wording of an error; a text that is no document has none of its own. -/
def Error.message? : Error → Option String
  | .fault _ => none
  | .missingSection name => some ("Missing settings section: " ++ name)

/-- The sections that every settings document has. -/
def sections : List String := ["display", "migration"]

/-- Reads a settings text and checks that no section is missing. -/
def load (text : String) : Except Error Value :=
  match ConfigText.read text.toList with
  | .error f => .error (.fault f)
  | .ok fields =>
    match sections.find? fun name => (Assoc.get? name fields).isNone with
    | some name => .error (.missingSection name)
    | none => .ok (.document fields)

end Settings

end StagedTable
