/-
  SchemaDrift.Change.Detect
  ─────────────────────────
  **FINDING WHAT HAS CHANGED.**

  A file is compared with its record.  Two tables of one name are compared column by
  column; files that declare no table are compared by digest, and their statements by
  identity.  As long as any file has an error nothing is compared at all.
-/

import SchemaDrift.Change.Basic
import SchemaDrift.Report.Fault

namespace SchemaDrift

open SchemaDrift.Sql

/-- The statements lost, then the statements gained. -/
def statementChanges (f : SourceFile) (previous : Record) : List StatementChange :=
  let now := f.statements.map (·.hash)
  let before := previous.statementHashes
  (before.filter (!now.contains ·)).map .deleted
    ++ (f.statements.filter (!before.contains ·.hash)).map .added

/-- How a file differs from its record, if it does. -/
def modification? (f : SourceFile) (previous : Record) : Option Modification :=
  let rawChanged : Bool := f.rawHash ≠ previous.rawHash
  match f.isDeclarative, previous with
  | true, .plain _ _ => some .becameDeclarative
  | true, .declarative r =>
    let unavailable := if rawChanged then some .tableStructureUnavailable else none
    match r.table, f.table? with
    | some old, some new =>
      if old.qualifiedName = new.qualifiedName then
        let operations := Alter.diff old new
        if operations.isEmpty then none else some (.tableAltered old new operations)
      else unavailable
    | _, _ => unavailable
  | false, .declarative r => some (.declarativeDisabled r.table)
  | false, .plain _ _ => if rawChanged then some (.content (statementChanges f previous)) else none

/-- The errors of files, with their paths. -/
def fileErrors (files : List SourceFile) : List (String × FileError) :=
  files.filterMap fun f => f.error?.map fun e => (f.path, e)

/-- What is said of files with errors. -/
def failureNotices (errors : List (String × FileError)) : List Notice :=
  errors.map fun (path, e) => .file .failed (path ++ ": " ++ e.message)

/-- The change of a file, if there is one. -/
def fileChange? (s : Snapshot) (f : SourceFile) : Option FileChange :=
  match s.get? f.path with
  | none => some (.added f)
  | some previous => (modification? f previous).map (.modified f previous)

/-- The difference between a tree of files without errors and a snapshot. -/
def treeDiff (files : List SourceFile) (s : Snapshot) : TreeDiff :=
  let present := files.filterMap fun f => (fileChange? s f).map fun c => (f.path, c)
  let gone := (s.files.entries.filter fun e => !files.any (·.path = e.1)).map fun e =>
    (e.1, FileChange.deleted e.1 e.2)
  let same := files.filter fun f => (fileChange? s f).isNone
  { changes := (PathMap.ofList (present ++ gone)).values
    unmodified := (same.map (·.path)).mergeSort (· ≤ ·) }

/-- The difference between a tree and a snapshot, and what is said of it; refused while a
file has an error. -/
def compareTree (files : List SourceFile) (s : Snapshot) : Except Fault TreeDiff × List Notice :=
  let errors := fileErrors files
  if errors.isEmpty then
    let d := treeDiff files s
    (.ok d, d.notices)
  else (.error (.unresolvedFileErrors errors), failureNotices errors)

end SchemaDrift
