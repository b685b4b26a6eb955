/-
  SchemaDrift.Alter.Step
  ──────────────────────
  **WHAT HAS TO HAPPEN FOR ONE TABLE TO BECOME ANOTHER.**

  The steps are renames, each with the modification of the renamed column behind it; then
  additions, drops, and modifications of columns that keep their names, in the order of
  the new table.
-/

import SchemaDrift.Rename.Matching
import SchemaDrift.Table.Basic

namespace SchemaDrift.Alter

open SchemaDrift.Rename

/-! ## §1. Changes of a column. -/

/-- What may change about a column. -/
inductive ColumnChange where
  | type
  | nullability
  | default
  | primaryKey
  | unique
  | foreignKey
  | check
  deriving Repr, DecidableEq

/-- The name of a change. -/
def ColumnChange.label : ColumnChange → String
  | .type => "type"
  | .nullability => "nullability"
  | .default => "default"
  | .primaryKey => "primary key"
  | .unique => "unique"
  | .foreignKey => "foreign key"
  | .check => "check"

/-- The column is declared unique, and not only by the primary key. -/
def explicitUnique (c : Column) : Bool := c.isUnique && !c.inPrimaryKey

/-- The column differs between its old and its new form in the way `change` tells. -/
def ColumnChange.holds (change : ColumnChange) (old new : Column) : Bool :=
  match change with
  | .type => old.dataType ≠ new.dataType
  | .nullability => old.nullable ≠ new.nullable
  | .default => old.defaultExpr ≠ new.defaultExpr
  | .primaryKey => old.inPrimaryKey ≠ new.inPrimaryKey
  | .unique => explicitUnique old ≠ explicitUnique new
  | .foreignKey => old.foreignKey ≠ new.foreignKey
  | .check => old.checkExpr ≠ new.checkExpr

/-- What changes about a column, in the order in which it is reported. -/
def columnChanges (old new : Column) : List ColumnChange :=
  [.type, .nullability, .default, .primaryKey, .unique, .foreignKey, .check].filter
    (·.holds old new)

/-! ## §2. Steps. -/

/-- One step from an old table to a new one. -/
inductive Step where
  | rename (old new : Column) (pairing : Pairing)
  /-- The modification of a column; `renamed` tells that it follows a rename. -/
  | modify (old new : Column) (renamed : Bool)
  | add (column : Column)
  | drop (column : Column)
  deriving Repr, DecidableEq

/-- The columns of `t`, with their places, whose names are not among `names`. -/
def columnsBeside (t : Table) (names : List String) : List (Nat × Column) :=
  (t.columns.zipIdx.map fun (c, i) => (i, c)).filter fun (_, c) => !names.contains c.name

/-- The renames from one table to another. -/
def renames (old new : Table) : List Pairing :=
  matching (columnsBeside old new.columnNames) (columnsBeside new old.columnNames)

/-- The modification of a column, if it changes. -/
def modification (old new : Column) (renamed : Bool) : List Step :=
  if (columnChanges old new).isEmpty then [] else [.modify old new renamed]

/-- The steps of a rename. -/
def renameSteps (old new : Table) (p : Pairing) : List Step :=
  match old.columns[p.oldIndex]?, new.columns[p.newIndex]? with
  | some a, some b => .rename a b p :: modification a b true
  | _, _ => []

/-- The steps from one table to another. -/
def steps (old new : Table) : List Step :=
  let pairs := renames old new
  let added := (columnsBeside new old.columnNames).filter fun (j, _) =>
    !pairs.any (·.newIndex = j)
  let dropped := (columnsBeside old new.columnNames).filter fun (i, _) =>
    !pairs.any (·.oldIndex = i)
  pairs.flatMap (renameSteps old new)
    ++ added.map (fun (_, c) => .add c)
    ++ dropped.map (fun (_, c) => .drop c)
    ++ new.columns.flatMap fun c =>
        match old.column? c.name with
        | some before => modification before c false
        | none => []

/-- The names of the old primary key under the new names of its columns. -/
def renamedKey (old new : Table) : List String :=
  let pairs := (renames old new).reverse
  let nameOf := fun (t : Table) (i : Nat) => (t.columns[i]?).map (·.name)
  old.keyColumns.map fun name =>
    ((pairs.find? fun p => nameOf old p.oldIndex = some name).bind fun p =>
      nameOf new p.newIndex).getD name

/-- The primary key does not consist of the same columns in the same order. -/
def keyChanges (old new : Table) : Bool := renamedKey old new ≠ new.keyColumns

end SchemaDrift.Alter
