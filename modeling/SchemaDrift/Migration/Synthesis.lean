/-
  SchemaDrift.Migration.Synthesis
  ───────────────────────────────
  **FROM CHANGES TO A MIGRATION.**

  Each change becomes a few lines: SQL where the change can be carried out, and notes
  where it cannot or needs none.  Added files come first, then modified ones, then those
  that are gone, each kind under a heading and sorted by path.
-/

import SchemaDrift.Change.Detect
import SchemaDrift.Migration.Basic

namespace SchemaDrift

open SchemaDrift.Sql SchemaDrift.Digest SchemaDrift.Number SchemaDrift.Text

/-- The lines that a change gives, with what is to be confirmed or written by hand. -/
structure Draft where
  lines : List MigrationLine := []
  pending : List PendingRename := []
  manualReview : List String := []
  deriving Repr, DecidableEq

/-- One draft behind another. -/
def Draft.append (d e : Draft) : Draft :=
  ⟨d.lines ++ e.lines, d.pending ++ e.pending, d.manualReview ++ e.manualReview⟩

instance : Append Draft := ⟨Draft.append⟩

/-- The draft of some lines. -/
def Draft.ofLines (lines : List MigrationLine) : Draft := { lines }

/-! ## §1. Lines. -/

/-- The line that names a file. -/
def fileLine (path : String) : MigrationLine := .note ("-- File: " ++ path)

/-- The line of a statement of a file. -/
def fileStatement (path : String) (s : Statement) : MigrationLine :=
  .statement path s.hash (String.ofList (terminate s.raw.toList))

/-- The line of a statement that was made here. -/
def madeStatement (path sql : String) : MigrationLine :=
  .statement path (hashOf (String.ofList (normalize sql.toList))) sql

/-- A line without the break at its end: a line feed, and a carriage return before it. -/
def withoutBreak (line : List Char) : List Char :=
  match line.reverse with
  | '\n' :: '\r' :: rest => rest.reverse
  | '\n' :: rest => rest.reverse
  | _ => line

/-- Every line of a text as a comment. -/
def commented (s : List Char) : String :=
  let comment := fun line : List Char =>
    if line.isEmpty then "--" else "-- " ++ String.ofList line
  "\n".intercalate ((lines s).map fun line => comment (withoutBreak line))

/-- The statements of a file as comments. -/
def dump (f : SourceFile) : List MigrationLine :=
  f.statements.map fun s => .note (commented (terminate s.raw.toList))

/-! ## §2. Drafts of single changes. -/

/-- The draft of a file that is new. -/
def draftAdded (f : SourceFile) : Draft :=
  .ofLines <|
    fileLine f.path
      :: (if f.statements.isEmpty then [.note "-- (no statements)"] else [])
      ++ f.statements.map (fileStatement f.path) ++ [.blank]

/-- The draft of one operation on a table. -/
def draftOperation (path table : String) (o : Alter.Operation) : Draft :=
  let warning := match o.kind with
    | .rename source target confidence true =>
      { lines := [.note ("-- WARNING: low-confidence rename " ++ source ++ " -> " ++ target
          ++ " on " ++ table ++ " (score " ++ fixed 2 confidence ++ "); confirm before applying")]
        pending := [{ path, table, source, target, confidence }] : Draft }
    | _ => {}
  Draft.ofLines [.note ("-- " ++ o.describe)] ++ warning
    ++ Draft.ofLines (o.sql.map (madeStatement path))

/-- The lines of statements gained and lost. -/
def changeLine (path : String) : StatementChange → MigrationLine
  | .added s => fileStatement path s
  | .deleted hash => .note ("-- Statement " ++ hash ++ " was removed from this file")

/-- The statement that a file has gained. -/
def StatementChange.added? : StatementChange → Option Statement
  | .added s => some s
  | .deleted _ => none

/-- The lines of a file that declares no table and whose text has changed. -/
def contentLines (f : SourceFile) (changes : List StatementChange) : List MigrationLine :=
  if f.isSplit then
    changes.map (changeLine f.path)
      ++ if changes.isEmpty then [.note "-- Comment-only change"] else []
  else
    let added := changes.filterMap StatementChange.added?
    let remark :=
      if added.isEmpty && f.statements.isEmpty then [.note "-- File content was removed"]
      else if added.isEmpty then [.note "-- Comment-only change"]
      else []
    remark ++ added.map (fileStatement f.path)

/-- The file has statements, and had all of them before. -/
def isUnchanged (f : SourceFile) (previous : Record) : Bool :=
  !f.statements.isEmpty && f.statements.all fun s => previous.statementHashes.contains s.hash

/-- Notes with the statements of a file, whose SQL is to be written by hand. -/
def draftReview (f : SourceFile) (notes : List String) : Draft :=
  { lines := notes.map .note ++ dump f, manualReview := [f.path] }

/-- What a modification gives, below the name of the file. -/
def draftDetail (f : SourceFile) (previous : Record) : Modification → Draft
  | .tableAltered _ current operations =>
    operations.foldl (fun d o => d ++ draftOperation f.path current.qualifiedName o) {}
  | .tableStructureUnavailable =>
    draftReview f
      [ "-- NOTE: table structure could not be compared; review and write the ALTER statements by hand.",
        "-- Current definition:" ]
  | .becameDeclarative =>
    if isUnchanged f previous then
      .ofLines [.note "-- NOTE: file is now a declarative table; its definition is unchanged."]
    else
      draftReview f
        [ "-- NOTE: file is now a declarative table and its definition changed; write the ALTER statements by hand.",
          "-- NOTE: later edits generate ALTER statements.",
          "-- Current definition:" ]
  | .declarativeDisabled table =>
    let name := (table.map Table.qualifiedName).getD "unknown table"
    let note := Draft.ofLines [.note ("-- NOTE: declarativeTable was turned off for " ++ name
      ++ "; changes are no longer tracked structurally.")]
    if isUnchanged f previous then note ++ Draft.ofLines [.note "-- Content is unchanged."]
    else
      note ++ draftReview f
        [ "-- NOTE: content changed; review and write the migration by hand.",
          "-- Current content:" ]
  | .content changes => .ofLines (contentLines f changes)

/-- The draft of a file that was modified. -/
def draftModified (f : SourceFile) (previous : Record) (detail : Modification) : Draft :=
  Draft.ofLines [fileLine f.path] ++ draftDetail f previous detail ++ Draft.ofLines [.blank]

/-- The draft of a file that is gone. -/
def draftDeleted (path : String) (previous : Record) : Draft :=
  let body : Draft := match previous.table? with
    | some table =>
      .ofLines
        [ .note ("-- WARNING: declarative table " ++ table.qualifiedName
            ++ " was deleted; this drops the table and its data."),
          madeStatement path ("DROP TABLE IF EXISTS " ++ table.sqlName ++ ";") ]
    | none =>
      if previous.isDeclarative then
        { lines := [.note "-- WARNING: declarative table file deleted but its structure is unknown; drop the table by hand if intended."]
          manualReview := [path] }
      else
        .ofLines
          (.note "-- File deleted; objects it created are left in place."
            :: previous.statementHashes.map fun hash => .note ("--   statement " ++ hash))
  Draft.ofLines [fileLine path] ++ body ++ Draft.ofLines [.blank]

/-! ## §3. The migration. -/

/-- The heading above the changes of one event. -/
def banner : FileEvent → String
  | .added => "-- >>> ADDED FILES <<<"
  | .modified => "-- >>> MODIFIED FILES <<<"
  | _ => "-- >>> DELETED FILES <<<"

/-- The draft of a change. -/
def draftChange : FileChange → Draft
  | .added f => draftAdded f
  | .modified f previous detail => draftModified f previous detail
  | .deleted path previous => draftDeleted path previous

/-- The drafts of all changes of one event, under their heading; nothing if there are
none. -/
def draftSection (changes : List FileChange) (event : FileEvent) : Draft :=
  let here := changes.filter (·.event = event)
  if here.isEmpty then {}
  else here.foldl (fun d c => d ++ draftChange c) (.ofLines [.note (banner event), .blank])

/-- The migration that carries out a difference; `next` is the snapshot behind it. -/
def synthesize (name : String) (createdAt : Stamp) (d : TreeDiff) (next : Snapshot) : Migration :=
  let head := Draft.ofLines
    [ .note ("-- Migration: " ++ name), .note ("-- Created: " ++ createdAt.toProse), .blank ]
  let draft := head ++ draftSection d.changes .added ++ draftSection d.changes .modified
    ++ draftSection d.changes .deleted
  { name, createdAt
    lines := draft.lines
    pending := draft.pending
    manualReview := draft.manualReview
    declarativeTables := next.declarativeTables }

end SchemaDrift
