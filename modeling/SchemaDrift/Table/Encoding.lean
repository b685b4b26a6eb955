/-
  SchemaDrift.Table.Encoding
  ──────────────────────────
  **TABLES AS JSON.**

  Reading a column settles the key rule and changes nothing else: types, defaults and
  conditions are taken as they stand.
-/

import SchemaDrift.Json.Decode
import SchemaDrift.Table.Basic

namespace SchemaDrift

/-- The key as JSON; a schema is written only if there is one. -/
def ForeignKey.toJson (k : ForeignKey) : Json :=
  .object
    ((match k.schema with | some s => [("schema", .string s)] | none => [])
      ++ [("table", .string k.table), ("column", .ofOption k.column),
        ("on_delete", .ofOption k.onDelete), ("on_update", .ofOption k.onUpdate)])

/-- The key that a JSON value stands for. -/
def ForeignKey.ofJson? (j : Json) : Option ForeignKey := do
  let [schema, table, column, onDelete, onUpdate] ←
      j.fields? ["schema", "table", "column", "on_delete", "on_update"] 0
    | none
  return {
    schema := ← Json.optional? Json.asString? schema
    table := ← Json.required? Json.asString? table
    column := ← Json.optional? Json.asString? column
    onDelete := ← Json.optional? Json.asString? onDelete
    onUpdate := ← Json.optional? Json.asString? onUpdate }

/-- The column as JSON. -/
def Column.toJson (c : Column) : Json :=
  .object
    [ ("name", .string c.name), ("data_type", .string c.dataType), ("nullable", .bool c.nullable),
      ("default", .ofOption c.defaultExpr), ("primary_key", .bool c.inPrimaryKey),
      ("unique", .bool c.isUnique),
      ("foreign_key", match c.foreignKey with | some k => k.toJson | none => .null),
      ("check", .ofOption c.checkExpr) ]

/-- The column that a JSON value stands for. -/
def Column.ofJson? (j : Json) : Option Column := do
  let [name, dataType, nullable, defaultExpr, inPrimaryKey, isUnique, foreignKey, checkExpr] ←
      j.fields? ["name", "data_type", "nullable", "default", "primary_key", "unique",
        "foreign_key", "check"] 0
    | none
  let c : Column := {
    name := ← Json.required? Json.asString? name
    dataType := ← Json.required? Json.asString? dataType
    nullable := ← Json.required? Json.asBool? nullable
    defaultExpr := ← Json.optional? Json.asString? defaultExpr
    inPrimaryKey := ← Json.required? Json.asBool? inPrimaryKey
    isUnique := ← Json.required? Json.asBool? isUnique
    foreignKey := ← Json.optional? ForeignKey.ofJson? foreignKey
    checkExpr := ← Json.optional? Json.asString? checkExpr }
  return c.enforceKey

/-- The table as JSON. -/
def Table.toJson (t : Table) : Json :=
  .object
    [ ("schema", .string t.schema), ("name", .string t.name),
      ("columns", .array (t.columns.map Column.toJson)) ]

/-- The table that a JSON value stands for. -/
def Table.ofJson? (j : Json) : Option Table := do
  let [schema, name, columns] ← j.fields? ["schema", "name", "columns"] 0 | none
  return {
    schema := ← Json.required? Json.asString? schema
    name := ← Json.required? Json.asString? name
    columns := ← Json.required? (Json.asList? Column.ofJson?) columns }

end SchemaDrift
