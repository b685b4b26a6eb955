/-
  SchemaDrift.Project.Generate
  ────────────────────────────
  **WRITING THE NEXT MIGRATION OF A PROJECT.**

  First everything is read and worked out (`plan`), which changes nothing; then the
  migration is written, if there is anything in it, and the new snapshot is saved
  (`commit`).  The name is looked at before any file is.
-/

import SchemaDrift.Migration.Name
import SchemaDrift.Migration.Synthesis
import SchemaDrift.Project.Store

namespace SchemaDrift

open SchemaDrift.Number

/-- What a migration is to be written from. -/
structure Plan where
  state : SyncState
  diff : TreeDiff
  /-- The snapshot behind the migration. -/
  next : Snapshot
  migration : Migration
  deriving Repr, DecidableEq

/-- What came of it. -/
structure Generated where
  migration : Migration
  /-- The file of the migration, if one was written. -/
  migrationPath : Option String
  changes : Nat
  deriving Repr, DecidableEq

/-- What is said of a migration that is not carried out without a hand. -/
def reviewNotices (m : Migration) : List Notice :=
  (m.pending.map fun p => .warning ("Rename " ++ p.source ++ " -> " ++ p.target ++ " on "
      ++ p.table ++ " needs confirmation (score " ++ fixed 2 p.confidence ++ ")"))
    ++ m.manualReview.map fun path =>
        .warning (path ++ " changed in a way that needs hand-written SQL; see the NOTE in the migration")

/-- Reads a project and works out its next migration. -/
def plan (t : FileTree) (c : Config) (name : String) (createdAt : Stamp) :
    Except Stop Plan × List Notice :=
  let read : Except Stop (SyncState × List SourceFile) := do
    (checkMigrationName name).mapError .fault
    let state ← (loadState t c).mapError .fault
    let files ← readSources t c
    return (state, files)
  match read with
  | .error e => (.error e, [])
  | .ok (state, files) =>
    match compareTree files state.snapshot with
    | (.error f, notices) => (.error (.fault f), notices)
    | (.ok diff, notices) =>
      let next := state.snapshot.advance files
      let migration := synthesize name createdAt diff next
      (.ok ⟨state, diff, next, migration⟩, notices ++ reviewNotices migration)

/-- Writes the file of a migration: the tree behind, and its path as it is shown, or why
it could not be written. -/
def writeMigration (t : FileTree) (c : Config) (m : Migration) : FileTree × Except Fault String :=
  let directory := fromRoot c.migrationsPath
  match t.makeDirectory directory with
  | (t, some e) => (t, .error (.fileWrite directory e.text e))
  | (t, none) =>
    let path := Path.join directory (migrationFileName m.name m.createdAt)
    if t.pathExists path then (t, .error (.migrationExists path))
    else
      match t.writeFile path (.text m.text) with
      | .error e => (t, .error (.fileWrite path e.text e))
      | .ok t => (t, .ok path)

/-- Saves the state behind a plan. -/
def finishPlan (t : FileTree) (c : Config) (p : Plan) (path : Option String) :
    FileTree × Except Fault Generated :=
  let history := match path with
    | some _ => p.state.history ++ [p.migration.record]
    | none => p.state.history
  match saveState t c { snapshot := p.next, history } with
  | (t, some f) => (t, .error f)
  | (t, none) => (t, .ok ⟨p.migration, path, p.diff.changes.length⟩)

/-- Carries a plan out: the tree behind, what came of it, and what is said. -/
def commit (t : FileTree) (c : Config) (p : Plan) :
    FileTree × Except Fault Generated × List Notice :=
  if p.migration.shouldPersist then
    match writeMigration t c p.migration with
    | (t, .error f) => (t, .error f, [])
    | (t, .ok path) =>
      let (t, result) := finishPlan t c p (some path)
      (t, result, [.status "Wrote" path])
  else
    let (t, result) := finishPlan t c p none
    (t, result, [.info "No schema changes; no migration written"])

/-- Writes the next migration of a project. -/
def generate (t : FileTree) (c : Config) (name : String) (createdAt : Stamp) :
    FileTree × Except Stop Generated × List Notice :=
  match plan t c name createdAt with
  | (.error e, notices) => (t, .error e, notices)
  | (.ok p, notices) =>
    let (t, result, more) := commit t c p
    (t, result.mapError .fault, notices ++ more)

end SchemaDrift
