/-
  SchemaDrift.Report.Fault
  ────────────────────────
  **WHAT CAN GO WRONG, AND HOW IT IS TOLD.**

  A `FileError` is local to one source file.  A `Fault` ends a run: trouble with files and
  directories, with the state or the configuration, or all the file errors of a tree at
  once.  A `Halt` is no fault: no report follows it.
-/

import SchemaDrift.Sql.Directive
import SchemaDrift.Sql.Split
import SchemaDrift.Table.Error

namespace SchemaDrift

/-! ## §1. Errors of one file. -/

/-- Why a source file has no content. -/
inductive FileError where
  | directiveConflict
  | multiStatementTableFile (count : Nat)
  | tableParseFailure (message : String)
  | statementSyntaxError (line : Nat) (message : String)
  | invalidDirective (line : Nat) (message : String)
  deriving Repr, DecidableEq

namespace FileError

/-- The text of a file error. -/
def message : FileError → String
  | .directiveConflict => "declarativeTable and splitStatements are mutually exclusive"
  | .multiStatementTableFile count =>
    s!"CREATE TABLE must be the only statement in its file (found {count} statements)"
  | .tableParseFailure m => s!"Failed to parse table definition: {m}"
  | .statementSyntaxError line m => s!"Syntax error at line {line}: {m}"
  | .invalidDirective line m => s!"Invalid directive at line {line}: {m}"

/-- The error of a file that cannot be cut into statements. -/
def ofSplit (e : Sql.SplitError) : FileError := .statementSyntaxError e.line e.message

/-- The error of a file with a directive that cannot be read. -/
def ofDirective (e : Sql.DirectiveError) : FileError := .invalidDirective e.line e.message

end FileError

/-- Why a run stops without any report. -/
inductive Halt where
  /-- A text was to be cut inside a character. -/
  | cutInsideCharacter
  deriving Repr, DecidableEq

/-! ## §2. Faults of a run. -/

/-- The kinds of trouble with files that are told apart. -/
inductive FileTrouble where
  | notFound
  | permissionDenied
  | invalidData
  | other
  deriving Repr, DecidableEq

/-- Trouble with a file, as the system reports it. -/
structure SystemError where
  kind : FileTrouble
  text : String
  deriving Repr, DecidableEq

/-- Why a run failed. -/
inductive Fault where
  | fileNotFound (path : String)
  | permissionDenied (path : String)
  | fileRead (path message : String) (cause : SystemError)
  | fileWrite (path message : String) (cause : SystemError)
  | directoryNotFound (path : String)
  | unresolvedFileErrors (errors : List (String × FileError))
  | stateLoad (path message : String)
  | stateSave (path message : String)
  | invalidMigrationName (reason : String)
  | migrationExists (path : String)
  | configuration (reason : String)
  | configLoad (path message : String)
  | other (reason : String)
  deriving Repr, DecidableEq

namespace Fault

/-- The text of a fault. -/
def message : Fault → String
  | .fileNotFound path => s!"File not found: {path}"
  | .permissionDenied path => s!"Permission denied: {path}"
  | .fileRead path m _ => s!"Failed to read {path}: {m}"
  | .fileWrite path m _ => s!"Failed to write {path}: {m}"
  | .directoryNotFound path => s!"Directory not found: {path}"
  | .unresolvedFileErrors errors => s!"{errors.length} file(s) have unresolved errors"
  | .stateLoad path m => s!"Failed to load state from {path}: {m}"
  | .stateSave path m => s!"Failed to save state to {path}: {m}"
  | .invalidMigrationName reason => s!"Invalid migration name: {reason}"
  | .migrationExists path => s!"Migration file already exists: {path}"
  | .configuration reason => s!"Configuration error: {reason}"
  | .configLoad path m => s!"Failed to load configuration from {path}: {m}"
  | .other reason => reason

/-- The fault of trouble with a file that is not known. -/
def ofSystem (e : SystemError) : Fault :=
  match e.kind with
  | .notFound => .fileNotFound "unknown"
  | .permissionDenied => .permissionDenied "unknown"
  | _ => .other e.text

/-- The fault of trouble with reading the file at `path`. -/
def ofReading (path : String) (e : SystemError) : Fault :=
  match e.kind with
  | .notFound => .fileNotFound path
  | .permissionDenied => .permissionDenied path
  | _ => .fileRead path e.text e

/-- The trouble that caused the fault. -/
def cause? : Fault → Option SystemError
  | .fileRead _ _ cause | .fileWrite _ _ cause => some cause
  | _ => none

/-- The whole story of a fault: its text, the errors of single files, and the cause. -/
def story (f : Fault) : String :=
  let files := match f with
    | .unresolvedFileErrors errors =>
      errors.map fun (path, e) => "\n  " ++ path ++ ": " ++ e.message
    | _ => []
  let cause := match f.cause? with
    | some e => "\n  Caused by: " ++ e.text
    | none => ""
  "Error: " ++ f.message ++ String.join files ++ cause

/-- What to do about a fault. -/
def advice? : Fault → Option String
  | .fileNotFound path => some
      ("File not found: " ++ path ++ "\n- Check if the path is correct" ++
        "\n- Ensure you're running sqlsync from the project root")
  | .permissionDenied path => some
      ("Permission denied for: " ++ path ++ "\n- Check file permissions")
  | .directoryNotFound path => some
      ("Section directory not found: " ++ path ++
        "\n- Check the [[sections]] entries in sqlsync.toml")
  | .unresolvedFileErrors errors =>
    let conflict := errors.any fun (_, e) => e = .directiveConflict
    let several := errors.any fun (_, e) =>
      match e with
      | .multiStatementTableFile _ => true
      | _ => false
    some
      ("Fix every listed file before generating a migration." ++
        (if conflict then "\n- declarativeTable and splitStatements cannot both be true" else "") ++
        (if several then
          "\n- Move additional statements (indexes, grants) out of CREATE TABLE files" else ""))
  | .stateLoad path _ => some
      ("The state file " ++ path ++ " could not be read." ++
        "\n- If it was edited by hand, restore it from version control")
  | _ => none

end Fault

/-- Why a run gives no result. -/
inductive Stop where
  | fault (f : Fault)
  | halt (h : Halt)
  deriving Repr, DecidableEq

end SchemaDrift
