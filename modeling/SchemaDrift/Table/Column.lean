/-
  SchemaDrift.Table.Column
  ────────────────────────
  **ONE COLUMN OF A TABLE.**

  A column of the primary key is never null and always unique (`ObeysKeyRule`).  Every
  way of making a column settles it by `enforceKey`:

      new, nullable, notNull, default, primaryKey, unique, check, references

  `toSql` writes the column as a definition takes it, with its clauses in one order.
-/

import SchemaDrift.Sql.Identifier
import SchemaDrift.Table.TypeName

namespace SchemaDrift

open SchemaDrift.Sql SchemaDrift.Table

/-! ## §1. Foreign keys. -/

/-- The column of another table that a column refers to. -/
structure ForeignKey where
  /-- The schema of the table, if the reference names it. -/
  schema : Option String := none
  table : String
  column : Option String := none
  onDelete : Option String := none
  onUpdate : Option String := none
  deriving Repr, DecidableEq

/-- The clause that declares the key. -/
def ForeignKey.toSql (k : ForeignKey) : String :=
  let target := match k.schema with
    | some schema => quoteIdent schema ++ "." ++ quoteIdent k.table
    | none => quoteIdent k.table
  let column := match k.column with
    | some c => " (" ++ quoteIdent c ++ ")"
    | none => ""
  let action := fun (event : String) (a : Option String) =>
    match a with
    | some a => " ON " ++ event ++ " " ++ a
    | none => ""
  "REFERENCES " ++ target ++ column ++ action "DELETE" k.onDelete ++ action "UPDATE" k.onUpdate

/-! ## §2. Columns. -/

/-- A column and what is declared of it. -/
structure Column where
  name : String
  dataType : String
  nullable : Bool := true
  defaultExpr : Option String := none
  inPrimaryKey : Bool := false
  isUnique : Bool := false
  foreignKey : Option ForeignKey := none
  checkExpr : Option String := none
  deriving Repr, DecidableEq

namespace Column

/-- A column of the primary key is not null and unique. -/
def ObeysKeyRule (c : Column) : Prop :=
  c.inPrimaryKey = true → c.nullable = false ∧ c.isUnique = true

instance (c : Column) : Decidable c.ObeysKeyRule := by unfold ObeysKeyRule; infer_instance

/-- The column made to obey the key rule. -/
def enforceKey (c : Column) : Column :=
  if c.inPrimaryKey then { c with nullable := false, isUnique := true } else c

/-- A column of a type, in its canonical spelling, with nothing declared of it. -/
def new (name dataType : String) : Column :=
  { name, dataType := String.ofList (canonicalType dataType.toList) }

/-- The column declared to take nulls, or not to. -/
def withNullable (c : Column) (nullable : Bool) : Column :=
  enforceKey { c with nullable }

/-- The column declared not to take nulls. -/
def notNull (c : Column) : Column := c.withNullable false

/-- The column with a default value. -/
def withDefault (c : Column) (expression : String) : Column :=
  { c with defaultExpr := some (String.ofList (normalize expression.toList)) }

/-- The column as a part of the primary key. -/
def primaryKey (c : Column) : Column := enforceKey { c with inPrimaryKey := true }

/-- The column declared unique. -/
def unique (c : Column) : Column := { c with isUnique := true }

/-- The column as a foreign key. -/
def references (c : Column) (key : ForeignKey) : Column := { c with foreignKey := some key }

/-- The column with a condition that its values meet. -/
def withCheck (c : Column) (expression : String) : Column :=
  { c with checkExpr := some (String.ofList (normalize expression.toList)) }

/-- The column with its key left to a clause of the whole table. -/
def withoutPrimaryKey (c : Column) : Column := { c with inPrimaryKey := false, isUnique := false }

/-- The definition of the column: name, type, `NOT NULL`, `DEFAULT`, `PRIMARY KEY` or
`UNIQUE`, `REFERENCES` and `CHECK`, in this order. -/
def toSql (c : Column) : String :=
  quoteIdent c.name ++ " " ++ c.dataType
    ++ (if c.nullable then "" else " NOT NULL")
    ++ (match c.defaultExpr with | some e => " DEFAULT " ++ e | none => "")
    ++ (if c.inPrimaryKey then " PRIMARY KEY" else if c.isUnique then " UNIQUE" else "")
    ++ (match c.foreignKey with | some k => " " ++ k.toSql | none => "")
    ++ (match c.checkExpr with | some e => " CHECK (" ++ e ++ ")" | none => "")

/-- Enforcing the key rule makes a column obey it. -/
theorem enforceKey_obeys (c : Column) : c.enforceKey.ObeysKeyRule := by
  unfold enforceKey ObeysKeyRule
  split <;> simp_all

/-- A column that obeys the key rule is left as it is. -/
theorem enforceKey_of_obeys {c : Column} (h : c.ObeysKeyRule) : c.enforceKey = c := by
  unfold enforceKey
  split
  · next hk =>
    obtain ⟨hn, hu⟩ := h hk
    cases c; simp_all
  · rfl

end Column

end SchemaDrift
