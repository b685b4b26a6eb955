/-
  SchemaDrift.Table.Basic
  ───────────────────────
  **A TABLE: A NAME IN A SCHEMA, AND COLUMNS IN ORDER.**
-/

import SchemaDrift.Table.Column

namespace SchemaDrift

open SchemaDrift.Sql

/-- The schema of a table that names none. -/
def defaultSchema : String := "public"

/-- What a table is declared to be. -/
structure Table where
  schema : String
  name : String
  columns : List Column
  deriving Repr, DecidableEq

namespace Table

/-- The first column of a name. -/
def column? (t : Table) (name : String) : Option Column := t.columns.find? (·.name = name)

/-- Schema and name as they are read. -/
def qualifiedName (t : Table) : String := t.schema ++ "." ++ t.name

/-- Schema and name as they are written. -/
def sqlName (t : Table) : String := quoteIdent t.schema ++ "." ++ quoteIdent t.name

/-- The names of the columns of the primary key, in the order of the columns. -/
def keyColumns (t : Table) : List String := (t.columns.filter (·.inPrimaryKey)).map (·.name)

/-- The names of the columns. -/
def columnNames (t : Table) : List String := t.columns.map (·.name)

end Table

end SchemaDrift
