/-
  SchemaDrift.Table.Parse
  ───────────────────────
  **READING A TABLE DEFINITION.**

  There is no grammar here.  The head gives the name; the parentheses behind it hold the
  body; commas cut the body into entries; the entries are constraints or columns.  The
  constraints are read first, so that a column gets what they say of it wherever they
  stand.
-/

import SchemaDrift.Sql.Statement
import SchemaDrift.Table.Basic
import SchemaDrift.Table.Entry

namespace SchemaDrift.Table

open SchemaDrift.Sql SchemaDrift.Text

/-! ## §1. The head. -/

/-- Takes the inside of a quoted identifier and the quote that ends it off the front:
characters other than quotes, and quotes written twice. -/
def quotedIdentEnd? : List Char → Option (List Char × List Char)
  | '"' :: '"' :: rest =>
    (quotedIdentEnd? rest).map fun (inside, behind) => ('"' :: '"' :: inside, behind)
  | '"' :: rest => some ([], rest)
  | c :: rest => (quotedIdentEnd? rest).map fun (inside, behind) => (c :: inside, behind)
  | [] => none

/-- Takes an identifier off the front: a quoted one that is not empty, or letters, digits,
`_` and `$` that begin with a letter or `_`. -/
def ident? : List Char → Option (List Char × List Char)
  | [] => none
  | c :: rest =>
    let begins := fun d => isFoldedAlpha d || d == '_'
    if c = '"' then
      match quotedIdentEnd? rest with
      | some ([], _) | none => none
      | some (inside, behind) => some ('"' :: inside ++ ['"'], behind)
    else if begins c then
      let more := fun d => begins d || d.isDigit || d == '$'
      some (c :: rest.takeWhile more, rest.dropWhile more)
    else none

/-- The head of a table definition. -/
structure Head where
  schema : Option (List Char)
  name : List Char
  /-- What follows the parenthesis that opens the body. -/
  body : List Char
  deriving Repr, DecidableEq

/-- Reads the head of a table definition. -/
def head? (s : List Char) : Option Head := do
  let rest ← createTable? (trimStart s)
  let rest ← blanks? rest
  let rest :=
    (((keywordBlanks? "IF" rest).bind (keywordBlanks? "NOT")).bind (keywordBlanks? "EXISTS")).getD
      rest
  let (first, behind) ← ident? rest
  match trimStart behind with
  | '(' :: body => some ⟨none, first, body⟩
  | '.' :: behind =>
    let (name, behind) ← ident? (trimStart behind)
    match trimStart behind with
    | '(' :: body => some ⟨some first, name, body⟩
    | _ => none
  | _ => none

/-! ## §2. The body. -/

/-- The text up to the parenthesis that closes the body, `depth` more being open. -/
def enclosed? (depth : Nat) : List Glyph → Option (List Char)
  | [] => none
  | g :: rest =>
    if g.isCode '(' then (enclosed? (depth + 1) rest).map (g.char :: ·)
    else if g.isCode ')' then
      match depth with
      | 0 => some []
      | n + 1 => (enclosed? n rest).map (g.char :: ·)
    else (enclosed? depth rest).map (g.char :: ·)

/-- Reads the columns of a table behind those read already, in order. -/
def readColumns (k : KeyClauses) (before : List Column) :
    List Entry → Except TableError (List Column)
  | [] => .ok before
  | e :: rest => do
    let c ← e.column
    if before.any (·.name = c.name) then .error (.duplicateColumn c.name)
    else readColumns k (before ++ [k.apply c]) rest

/-- Reads a table definition. -/
def parse (sql : List Char) : Except TableError Table :=
  let text := stripComments sql
  match head? text with
  | none => .error .notCreateTable
  | some head =>
    match enclosed? 0 ((classify text).drop (text.length - head.body.length)) with
    | none => .error .unbalancedParentheses
    | some body => do
      let schema := (head.schema.map unquoteIdent).getD defaultSchema
      let name := unquoteIdent head.name
      let entries := (splitTopLevel body).map Entry.of
      let keys ← (entries.filter (·.isTableConstraint)).foldlM KeyClauses.add {}
      let columns ← readColumns keys [] (entries.filter (!·.isTableConstraint))
      if columns.isEmpty then .error (.noColumns (schema ++ "." ++ name))
      else return { schema, name, columns }

end SchemaDrift.Table
