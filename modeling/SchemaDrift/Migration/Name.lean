/-
  SchemaDrift.Migration.Name
  ──────────────────────────
  **THE NAMES OF MIGRATIONS AND OF THEIR FILES.**
-/

import SchemaDrift.Report.Fault
import SchemaDrift.Text.Alphanumeric
import SchemaDrift.Time.Stamp

namespace SchemaDrift

open SchemaDrift.Text

/-- What a name is made of: letters and numbers of any script, `_` and `-`. -/
def isNameChar (c : Char) : Bool := isAlphanumeric c || c == '_' || c == '-'

/-- Refuses a name that is empty or has a character that no name has. -/
def checkMigrationName (name : String) : Except Fault Unit :=
  if name.isEmpty then .error (.invalidMigrationName "name cannot be empty")
  else if !name.toList.all isNameChar then
    .error (.invalidMigrationName
      ("'" ++ name ++ "' may only contain alphanumeric characters, underscores and hyphens"))
  else .ok ()

/-- The name of the file of a migration. -/
def migrationFileName (name : String) (createdAt : Stamp) : String :=
  createdAt.toDigits ++ "_" ++ name ++ ".sql"

end SchemaDrift
