/-
  SchemaDrift.Migration.Basic
  ───────────────────────────
  **THE TEXT OF A MIGRATION AND WHAT IT IS MADE OF.**

  A migration is a row of lines: notes, which are comments, blank lines, and marked
  statements.  A marked statement stands between marker lines that carry its identity, so
  that the text can be cut back into exactly the statements it was made of.
-/

import SchemaDrift.Snapshot.History
import SchemaDrift.Sql.Split

namespace SchemaDrift

open SchemaDrift.Sql

/-- A part of the text of a migration. -/
inductive MigrationLine where
  /-- A line as it stands; it should be a comment. -/
  | note (text : String)
  | blank
  /-- A statement from the file at `path`, with its identity. -/
  | statement (path hash sql : String)
  deriving Repr, DecidableEq

/-- The text of a line, with the line feed that ends it. -/
def MigrationLine.render : MigrationLine → String
  | .note text => text ++ "\n"
  | .blank => "\n"
  | .statement _ hash sql =>
    "-- sqlsync: startStatement:" ++ hash ++ "\n"
      ++ String.ofList (Text.trimEnd sql.toList) ++ "\n"
      ++ "-- sqlsync: endStatement:" ++ hash ++ "\n"

/-- The origin of the statement of a line. -/
def MigrationLine.origin? : MigrationLine → Option StatementOrigin
  | .statement path hash _ => some { hash, path }
  | _ => none

/-- A rename that is to be confirmed by hand. -/
structure PendingRename where
  path : String
  table : String
  source : String
  target : String
  confidence : Rat
  deriving Repr, DecidableEq

/-- A migration. -/
structure Migration where
  name : String
  createdAt : Stamp
  lines : List MigrationLine
  pending : List PendingRename
  /-- The files whose changes are only noted; their SQL is to be written by hand. -/
  manualReview : List String
  /-- The tables declared when it is made, by path. -/
  declarativeTables : PathMap DeclarativeRecord
  deriving Repr, DecidableEq

namespace Migration

/-- The text of the migration. -/
def text (m : Migration) : String := String.join (m.lines.map MigrationLine.render)

/-- What is kept of the migration. -/
def record (m : Migration) : MigrationRecord where
  name := m.name
  createdAt := m.createdAt
  statements := m.lines.filterMap MigrationLine.origin?
  declarativeTables := m.declarativeTables

/-- The migration executes nothing. -/
def isEmpty (m : Migration) : Bool := isInert m.text.toList

/-- The migration is to be written: it executes something, or asks for SQL. -/
def shouldPersist (m : Migration) : Bool := !m.isEmpty || !m.manualReview.isEmpty

end Migration

end SchemaDrift
