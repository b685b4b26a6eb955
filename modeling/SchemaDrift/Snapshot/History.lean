/-
  SchemaDrift.Snapshot.History
  ────────────────────────────
  **THE STATE KEPT BETWEEN RUNS.**

  The state is the snapshot and an entry for each migration that was written, oldest
  first.  It is kept as JSON with a version number, and no other version is read.
-/

import SchemaDrift.Json.Parse
import SchemaDrift.Json.Render
import SchemaDrift.Snapshot.Encoding
import SchemaDrift.Time.Reading

namespace SchemaDrift

open SchemaDrift.Json

/-- The identity of a statement that a migration emitted, and the file it came from. -/
structure StatementOrigin where
  hash : String
  path : String
  deriving Repr, DecidableEq

/-- What is kept of a migration. -/
structure MigrationRecord where
  name : String
  createdAt : Stamp
  statements : List StatementOrigin
  /-- The tables declared when it was made, by path. -/
  declarativeTables : PathMap DeclarativeRecord
  deriving Repr, DecidableEq

/-- The state kept between runs. -/
structure SyncState where
  snapshot : Snapshot := {}
  history : List MigrationRecord := []
  deriving Repr, DecidableEq

/-- The version of the state's written form. -/
def stateVersion : Nat := 1

/-! ## §1. Writing. -/

/-- The origin as JSON. -/
def StatementOrigin.toJson (o : StatementOrigin) : Json :=
  .object [("hash", .string o.hash), ("path", .string o.path)]

/-- The record as JSON. -/
def MigrationRecord.toJson (m : MigrationRecord) : Json :=
  .object
    [ ("name", .string m.name), ("created_at", .string m.createdAt.toText),
      ("statements", .array (m.statements.map StatementOrigin.toJson)),
      ("declarative_tables",
        .object (m.declarativeTables.entries.map fun (path, r) => (path, .object r.members))) ]

/-- The state as JSON. -/
def SyncState.toJson (s : SyncState) : Json :=
  .object
    [ ("version", .nat stateVersion), ("snapshot", s.snapshot.toJson),
      ("history", .array (s.history.map MigrationRecord.toJson)) ]

/-- The text in which the state is kept. -/
def SyncState.toText (s : SyncState) : String := String.ofList s.toJson.toText

/-! ## §2. Reading. -/

/-- The origin that a JSON value stands for. -/
def StatementOrigin.ofJson? (j : Json) : Option StatementOrigin := do
  let [hash, path] ← j.fields? ["hash", "path"] 0 | none
  return { hash := ← required? asString? hash, path := ← required? asString? path }

/-- The record that a JSON value stands for. -/
def MigrationRecord.ofJson? (j : Json) : Option MigrationRecord := do
  let [name, createdAt, statements, tables] ←
      j.fields? ["name", "created_at", "statements", "declarative_tables"] 0
    | none
  return {
    name := ← required? asString? name
    createdAt := ← (required? asString? createdAt).bind Stamp.ofText?
    statements := ← required? (asList? StatementOrigin.ofJson?) statements
    declarativeTables := .ofList (← required? (asMap? DeclarativeRecord.ofJson?) tables) }

/-- The version and the state that a JSON value stands for. -/
def SyncState.ofJson? (j : Json) : Option (Nat × SyncState) := do
  let [version, snapshot, history] ← j.fields? ["version", "snapshot", "history"] 1 | none
  return (← required? (asNatBelow? UInt32.size) version, {
    snapshot := ← required? Snapshot.ofJson? snapshot
    history := ← orElse? [] (asList? MigrationRecord.ofJson?) history })

/-- Why a text is no state. -/
inductive StateError where
  | malformed
  | unsupportedVersion (version : Nat)
  deriving Repr, DecidableEq

/-- The text of a state error. -/
def StateError.message : StateError → String
  | .malformed => "not a state file"
  | .unsupportedVersion version => s!"unsupported state version {version}"

/-- The state that a text keeps. -/
def SyncState.ofText (text : String) : Except StateError SyncState :=
  match (Json.parse? text.toList).bind ofJson? with
  | none => .error .malformed
  | some (version, s) => if version = stateVersion then .ok s else .error (.unsupportedVersion version)

end SchemaDrift
