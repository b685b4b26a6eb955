/-
  SchemaDrift.Source.File
  ───────────────────────
  **A SOURCE FILE AND WHAT IT HOLDS.**

  A file is treated as its directives ask:

      declarativeTable    one statement, which defines a table
      splitStatements     its statements, one by one
      neither             all its statements as one

  What is wrong with a file is kept with it, so that one bad file stops nothing.
-/

import SchemaDrift.Report.Fault
import SchemaDrift.Sql.Directive
import SchemaDrift.Sql.Split
import SchemaDrift.Table.Parse

namespace SchemaDrift

open SchemaDrift.Sql SchemaDrift.Digest

/-- What a source file holds. -/
structure FileContent where
  statements : List Statement
  /-- The table that the file declares, if it is to be followed as one. -/
  table : Option Table := none
  deriving Repr, DecidableEq

/-- Results are equal when they are of one kind and hold equal things. -/
instance decidableEqResult {ε α : Type} [DecidableEq ε] [DecidableEq α] :
    DecidableEq (Except ε α)
  | .ok a, .ok b => decidable_of_iff (a = b) (by simp)
  | .error e, .error f => decidable_of_iff (e = f) (by simp)
  | .ok _, .error _ => .isFalse (by simp)
  | .error _, .ok _ => .isFalse (by simp)

/-- A source file that was read. -/
structure SourceFile where
  path : String
  /-- The digest of the whole text. -/
  rawHash : String
  directives : Directives
  content : Except FileError FileContent
  deriving Repr, DecidableEq

namespace SourceFile

/-- The statements of the file; none if it has an error. -/
def statements (f : SourceFile) : List Statement :=
  match f.content with
  | .ok c => c.statements
  | .error _ => []

/-- The table that the file declares. -/
def table? (f : SourceFile) : Option Table :=
  match f.content with
  | .ok c => c.table
  | .error _ => none

/-- What is wrong with the file. -/
def error? (f : SourceFile) : Option FileError :=
  match f.content with
  | .ok _ => none
  | .error e => some e

/-- The file asks to be followed as a table. -/
def isDeclarative (f : SourceFile) : Bool := f.directives.declarativeTable

/-- The file asks to have its statements followed one by one. -/
def isSplit (f : SourceFile) : Bool := f.directives.splitStatements

end SourceFile

/-! ## Reading. -/

/-- One statement made of several: each with its semicolon, on lines of their own. -/
def joined (statements : List Statement) : String :=
  "\n".intercalate (statements.map fun s => String.ofList (terminate s.raw.toList))

/-- The content of a file that declares a table and holds these statements. -/
def declarativeContent : List Statement → Except TableError (Except FileError FileContent)
  | [] => .ok (.error (.tableParseFailure "declarative file contains no statement"))
  | s :: _ =>
    if !s.isCreateTable then
      .ok (.error (.tableParseFailure
        ("declarative file must contain a CREATE TABLE, found " ++ s.kind.label)))
    else
      match Table.parse s.raw.toList with
      | .ok t => .ok (.ok { statements := [s], table := some t })
      | .error .cutInsideCharacter => .error .cutInsideCharacter
      | .error e => .ok (.error (.tableParseFailure e.message))

/-- The content of a file that is neither followed as a table nor statement by statement. -/
def plainContent (statements : List Statement) : FileContent :=
  match statements with
  | [] => { statements := [] }
  | first :: _ =>
    { statements :=
        [{ raw := joined statements, startLine := some (first.startLine.getD 1) }] }

/-- The content of a file with these directives. -/
def contentOf (text : List Char) (d : Directives) : Except Halt (Except FileError FileContent) :=
  if d.conflicting then .ok (.error .directiveConflict)
  else
    match split text with
    | .error e => .ok (.error (.ofSplit e))
    | .ok statements =>
      if 1 < statements.length && statements.any (·.isCreateTable) then
        .ok (.error (.multiStatementTableFile statements.length))
      else if d.declarativeTable then
        (declarativeContent statements).mapError fun _ => .cutInsideCharacter
      else if d.splitStatements then .ok (.ok { statements })
      else .ok (.ok (plainContent statements))

/-- Reads a source file. -/
def SourceFile.read (path text : String) : Except Halt SourceFile :=
  match Sql.directives text.toList with
  | .error e =>
    .ok { path, rawHash := hashOf text, directives := {}, content := .error (.ofDirective e) }
  | .ok d => do
    let content ← contentOf text.toList d
    return { path, rawHash := hashOf text, directives := d, content }

end SchemaDrift
