/-
  SchemaDrift.Snapshot.Basic
  ──────────────────────────
  **WHAT IS REMEMBERED OF EVERY SOURCE FILE.**

  A snapshot holds one record for each path: the digests of a file and its statements,
  and the table it declares.  It is taken forward by the files of a new tree: a file that
  is gone is forgotten, a file with an error keeps the record it had.
-/

import SchemaDrift.Snapshot.PathMap
import SchemaDrift.Source.File

namespace SchemaDrift

/-- The record of a file that declares a table. -/
structure DeclarativeRecord where
  rawHash : String
  /-- The identity of the statement that defines the table; empty if there was none. -/
  statementHash : String
  table : Option Table
  deriving Repr, DecidableEq

/-- The record of a file. -/
inductive Record where
  | plain (rawHash : String) (statementHashes : List String)
  | declarative (record : DeclarativeRecord)
  deriving Repr, DecidableEq

namespace Record

/-- The record of a file that was read without error. -/
def ofFile? (f : SourceFile) : Option Record :=
  match f.content with
  | .error _ => none
  | .ok c =>
    some <|
      if f.isDeclarative then
        .declarative
          { rawHash := f.rawHash
            statementHash := ((c.statements.head?).map (·.hash)).getD ""
            table := c.table }
      else .plain f.rawHash (c.statements.map (·.hash))

/-- The digest of the whole text. -/
def rawHash : Record → String
  | .plain h _ => h
  | .declarative r => r.rawHash

/-- The identities of the statements. -/
def statementHashes : Record → List String
  | .plain _ hs => hs
  | .declarative r => if r.statementHash.isEmpty then [] else [r.statementHash]

/-- The table that was declared. -/
def table? : Record → Option Table
  | .plain _ _ => none
  | .declarative r => r.table

/-- The file declared a table. -/
def isDeclarative : Record → Bool
  | .plain _ _ => false
  | .declarative _ => true

/-- The record, if it is of a file that declared a table. -/
def declarative? : Record → Option DeclarativeRecord
  | .plain _ _ => none
  | .declarative r => some r

end Record

/-- The records of all files. -/
structure Snapshot where
  files : PathMap Record := {}
  deriving Repr, DecidableEq

namespace Snapshot

/-- The record of a path. -/
def get? (s : Snapshot) (path : String) : Option Record := s.files.get? path

/-- The snapshot behind a new tree. -/
def advance (s : Snapshot) (files : List SourceFile) : Snapshot :=
  ⟨.ofList (files.filterMap fun f =>
    (Record.ofFile? f <|> s.get? f.path).map fun r => (f.path, r))⟩

/-- The records of the files that declare tables. -/
def declarativeTables (s : Snapshot) : PathMap DeclarativeRecord :=
  s.files.filterMap Record.declarative?

end Snapshot

end SchemaDrift
