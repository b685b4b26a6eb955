/-
  SchemaDrift.Snapshot.Encoding
  ─────────────────────────────
  **SNAPSHOTS AS JSON.**

  A record names its kind first.  It may be written as an array too, the kind being its
  first element.  As its kind may stand anywhere in it, a record is held as a whole before
  it is read, so all of it has to be sound.
-/

import SchemaDrift.Json.Sound
import SchemaDrift.Snapshot.Basic
import SchemaDrift.Table.Encoding

namespace SchemaDrift

open SchemaDrift.Json

/-- The fields of a record of a declared table. -/
def DeclarativeRecord.members (r : DeclarativeRecord) : List (String × Json) :=
  [ ("raw_hash", .string r.rawHash), ("statement_hash", .string r.statementHash),
    ("table", match r.table with | some t => t.toJson | none => .null) ]

/-- The record of a declared table that a JSON value stands for. -/
def DeclarativeRecord.ofJson? (j : Json) : Option DeclarativeRecord := do
  let [rawHash, statementHash, table] ← j.fields? ["raw_hash", "statement_hash", "table"] 0 | none
  return {
    rawHash := ← required? asString? rawHash
    statementHash := ← required? asString? statementHash
    table := ← optional? Table.ofJson? table }

/-- The record as JSON. -/
def Record.toJson : Record → Json
  | .plain rawHash hashes => .object
      [ ("kind", .string "plain"), ("raw_hash", .string rawHash),
        ("statement_hashes", .array (hashes.map .string)) ]
  | .declarative r => .object (("kind", .string "declarative") :: r.members)

/-- The kind of a record, and its other fields. -/
def kindOfRecord? : Json → Option (String × Json)
  | .object ms =>
    match ms.filter (·.1 = "kind") with
    | [(_, .string kind)] => some (kind, .object (ms.filter (·.1 ≠ "kind")))
    | _ => none
  | .array (.string kind :: rest) => some (kind, .array rest)
  | _ => none

/-- The most levels that a record may have. -/
def maxRecordDepth : Nat := 124

/-- The record that a JSON value stands for. -/
def Record.ofJson? (j : Json) : Option Record := do
  if !j.isSound maxRecordDepth then none
  let (kind, fields) ← kindOfRecord? j
  match kind with
  | "plain" =>
    let [rawHash, hashes] ← fields.fields? ["raw_hash", "statement_hashes"] 0 | none
    return .plain (← required? asString? rawHash) (← required? (asList? asString?) hashes)
  | "declarative" => return .declarative (← DeclarativeRecord.ofJson? fields)
  | _ => none

/-- The snapshot as JSON. -/
def Snapshot.toJson (s : Snapshot) : Json :=
  .object [("files", .object (s.files.entries.map fun (path, r) => (path, r.toJson)))]

/-- The snapshot that a JSON value stands for. -/
def Snapshot.ofJson? (j : Json) : Option Snapshot := do
  let [files] ← j.fields? ["files"] 0 | none
  return ⟨.ofList (← required? (asMap? Record.ofJson?) files)⟩

end SchemaDrift
