/-
  SchemaDrift.Change.Basic
  ────────────────────────
  **HOW A TREE OF SOURCE FILES DIFFERS FROM A SNAPSHOT.**
-/

import SchemaDrift.Alter.Operation
import SchemaDrift.Report.Notice
import SchemaDrift.Snapshot.Basic

namespace SchemaDrift

open SchemaDrift.Sql

/-- A statement that a file has gained, or the identity of one that it has lost. -/
inductive StatementChange where
  | added (statement : Statement)
  | deleted (hash : String)
  deriving Repr, DecidableEq

/-- How a file on both sides has changed. -/
inductive Modification where
  /-- A declared table, both of whose structures are known. -/
  | tableAltered (previous current : Table) (operations : List Alter.Operation)
  /-- A declared table whose structures cannot be compared. -/
  | tableStructureUnavailable
  /-- The file declares a table and did not before. -/
  | becameDeclarative
  /-- The file declares a table no more; the old one is told for information. -/
  | declarativeDisabled (previous : Option Table)
  | content (changes : List StatementChange)
  deriving Repr, DecidableEq

/-- The name of a modification. -/
def Modification.label : Modification → String
  | .tableAltered _ _ _ => "table altered"
  | .tableStructureUnavailable => "table structure unavailable"
  | .becameDeclarative => "became declarative"
  | .declarativeDisabled _ => "declarative disabled"
  | .content _ => "content"

/-- The change of one file. -/
inductive FileChange where
  | added (file : SourceFile)
  | modified (file : SourceFile) (previous : Record) (detail : Modification)
  | deleted (path : String) (previous : Record)
  deriving Repr, DecidableEq

namespace FileChange

/-- The path of the file. -/
def path : FileChange → String
  | .added f | .modified f _ _ => f.path
  | .deleted p _ => p

/-- The event that the change is reported as. -/
def event : FileChange → FileEvent
  | .added _ => .added
  | .modified _ _ _ => .modified
  | .deleted _ _ => .deleted

end FileChange

/-- The difference between a tree and a snapshot: the changes, sorted by path, and the
paths without one. -/
structure TreeDiff where
  changes : List FileChange := []
  unmodified : List String := []
  deriving Repr, DecidableEq

namespace TreeDiff

/-- Nothing has changed. -/
def isEmpty (d : TreeDiff) : Bool := d.changes.isEmpty

/-- The number of changes reported as an event. -/
def count (d : TreeDiff) (event : FileEvent) : Nat := d.changes.countP (·.event = event)

/-- What is said of the difference. -/
def notices (d : TreeDiff) : List Notice :=
  d.changes.map (fun c => .file c.event c.path) ++ d.unmodified.map (.file .unmodified)

end TreeDiff

end SchemaDrift
