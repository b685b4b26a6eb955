/-
  SchemaDrift.Project.Status
  ──────────────────────────
  **WHAT THE NEXT MIGRATION OF A PROJECT WOULD BE ABOUT.**
-/

import SchemaDrift.Change.Detect
import SchemaDrift.Project.Store

namespace SchemaDrift

/-- How a project stands. -/
structure ProjectStatus where
  diff : TreeDiff
  filesScanned : Nat
  migrationsRecorded : Nat
  deriving Repr, DecidableEq

/-- Looks at a project, without writing anything. -/
def status (t : FileTree) (c : Config) : Except Stop ProjectStatus × List Notice :=
  match loadState t c with
  | .error f => (.error (.fault f), [])
  | .ok state =>
    let heading := Notice.heading "Scanning source files"
    match readSources t c with
    | .error e => (.error e, [heading])
    | .ok files =>
      match compareTree files state.snapshot with
      | (.error f, notices) => (.error (.fault f), heading :: notices)
      | (.ok diff, notices) =>
        let verdict :=
          if diff.isEmpty then Notice.success "No changes since the last migration"
          else .info (toString diff.changes.length ++ " file(s) changed")
        (.ok ⟨diff, files.length, state.history.length⟩, heading :: notices ++ [verdict])

end SchemaDrift
