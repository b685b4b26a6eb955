/-
  SchemaDrift.Project.Summary
  ───────────────────────────
  **WHAT A TERMINAL SHOWS OF A PROJECT.**

  The lines that sum up how a project stands, and what came of a migration.
-/

import SchemaDrift.Number.Rounding
import SchemaDrift.Project.Generate
import SchemaDrift.Project.Status
import SchemaDrift.Report.Console

namespace SchemaDrift

/-! ## §1. How a project stands. -/

/-- A modification in a few words. -/
def Modification.summary : Modification → String
  | .tableAltered _ _ operations => "; ".intercalate (operations.map Alter.Operation.describe)
  | .content [] => "comments only"
  | .content changes => toString changes.length ++ " statement change(s)"
  | m => m.label

/-- A change in a few words, if there is something to say. -/
def FileChange.summary : FileChange → String
  | .added f => toString f.statements.length ++ " statement(s)"
  | .modified _ _ m => m.summary
  | .deleted _ previous => if previous.isDeclarative then "declarative table" else ""

/-- The sign of a change. -/
def FileChange.sign : FileChange → String
  | .added _ => "+"
  | .modified _ _ _ => "~"
  | .deleted _ _ => "-"

/-- The line of a change. -/
def FileChange.line (c : FileChange) : String :=
  let words := if c.summary.isEmpty then "" else " " ++ Paint.dim.on ("(" ++ c.summary ++ ")")
  "  " ++ c.event.paint.boldly c.sign ++ " " ++ c.path ++ words

/-- The lines that tell how a project stands. -/
def ProjectStatus.summary (s : ProjectStatus) : List String :=
  ["\n" ++ Paint.blue.on (Paint.bold.on "=== sqlsync Status ==="),
    "  " ++ toString s.filesScanned ++ " file(s) scanned, "
      ++ toString s.migrationsRecorded ++ " migration(s) recorded"]
  ++ (if s.diff.isEmpty then ["\n" ++ Paint.green.on "Everything is up to date."]
      else
        s.diff.changes.map FileChange.line
          ++ ["\n" ++ Paint.cyan.on "→" ++ " Run 'sqlsync generate <name>' to write a migration."])

/-! ## §2. What came of a migration. -/

/-- A heading in bold letters and a colour. -/
def titled (p : Paint) (text : String) : String := "\n" ++ p.on (Paint.bold.on text) ++ ":"

/-- A value with its name in front. -/
def labelled (name value : String) : String := "  " ++ Paint.bold.on (name ++ ":") ++ " " ++ value

/-- A line that warns. -/
def warned (text : String) : String := "  " ++ Paint.yellow.on "⚠" ++ " " ++ text

/-- The lines about the files that ask for SQL. -/
def Migration.reviewLines (m : Migration) : List String :=
  if m.manualReview.isEmpty then []
  else titled .yellow "Needs Hand-Written SQL" :: m.manualReview.map warned
    ++ ["  Follow the NOTE lines in the migration before applying it."]

/-- The line of a rename to be confirmed. -/
def PendingRename.line (p : PendingRename) : String :=
  warned (p.table ++ ": " ++ p.source ++ " -> " ++ p.target
    ++ " (score " ++ Number.fixed 2 p.confidence ++ ")")

/-- The lines about the renames to be confirmed. -/
def Migration.renameLines (m : Migration) : List String :=
  if m.pending.isEmpty then []
  else titled .yellow "Renames Needing Confirmation" :: m.pending.map PendingRename.line
    ++ ["  Review the WARNING lines in the migration before applying it."]

/-- The lines that tell what was written. -/
def Generated.outcomeLines (g : Generated) : List String :=
  match g.migrationPath with
  | some path =>
    [titled .green "Migration Created",
      labelled "Name" (Paint.cyan.on g.migration.name),
      labelled "Path" (Paint.dim.on path),
      labelled "Statements" (toString g.migration.record.statements.length)]
    ++ g.migration.reviewLines
  | none =>
    let verdict :=
      if g.changes = 0 then "No changes detected."
      else "Only comment or non-executable changes; snapshot updated, no migration written."
    ["\n" ++ Paint.green.on verdict]

/-- The lines that tell what came of a migration. -/
def Generated.summary (g : Generated) : List String :=
  ("\n" ++ Paint.blue.on (Paint.bold.on "=== sqlsync Generate Summary ==="))
    :: g.outcomeLines ++ g.migration.renameLines

end SchemaDrift
