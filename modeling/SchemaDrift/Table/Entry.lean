/-
  SchemaDrift.Table.Entry
  ───────────────────────
  **WHAT AN ENTRY OF A TABLE BODY DECLARES.**

  An entry is a column, with clauses behind its type, or a constraint of the whole table.
  Clauses are read off the front of the row of tokens; a token that begins no known clause
  is passed over.
-/

import SchemaDrift.Sql.Identifier
import SchemaDrift.Table.Column
import SchemaDrift.Table.Token

namespace SchemaDrift.Table

open SchemaDrift.Sql SchemaDrift.Text

/-- An entry of a table body: its text and its tokens. -/
structure Entry where
  text : List Char
  tokens : List Token
  deriving Repr, DecidableEq

/-- The entry with a given text. -/
def Entry.of (text : List Char) : Entry := ⟨text, tokenize text⟩

/-- The fault of an entry that cannot be read. -/
def Entry.malformed (e : Entry) : TableError := .malformedColumn (String.ofList e.text)

/-- The names in a list with commas. -/
def columnList (s : List Char) : List String := (splitTopLevel s).map unquoteIdent

/-! ## §1. References. -/

/-- The action behind `ON DELETE` or `ON UPDATE`, and the number of its tokens. -/
def referentialAction (ts : List Token) : Option String × Nat :=
  match leadingKeyword? ts with
  | none => (none, 0)
  | some "NO" => (some "NO ACTION", 2)
  | some "SET" =>
    let what := (leadingKeyword? ts.tail).getD ""
    (some ("SET " ++ what), if leadsGroup (ts.drop 2) then 3 else 2)
  | some action => (some action, 1)

/-- The number of tokens, behind its first, of the name that a row of tokens begins with:
those that touch and are no groups. -/
def touching (behind : Token) : List Token → Nat
  | [] => 0
  | t :: rest => if behind.gap.isEmpty && t.kind ≠ .group then touching t rest + 1 else 0

/-- Reads the options behind the target of a reference, `skip` tokens being read already:
the key with them, and the number of tokens they take. -/
def referenceOptions (e : Entry) (skip : Nat) (key : ForeignKey) :
    List Token → Except TableError (ForeignKey × Nat)
  | [] => .ok (key, 0)
  | t :: rest =>
    let goOn := fun (skip : Nat) (key : ForeignKey) =>
      (referenceOptions e skip key rest).map fun (key, n) => (key, n + 1)
    match skip with
    | n + 1 => goOn n key
    | 0 =>
      if t.isKeyword "ON" then
        let (action, n) := referentialAction rest.tail
        if leads "DELETE" rest then goOn (n + 1) { key with onDelete := action }
        else if leads "UPDATE" rest then goOn (n + 1) { key with onUpdate := action }
        else .error e.malformed
      else if t.isKeyword "MATCH" || t.isKeyword "INITIALLY" then goOn 1 key
      else if t.isKeyword "DEFERRABLE" then goOn 0 key
      else if t.isKeyword "NOT" && leads "DEFERRABLE" rest then goOn 1 key
      else .ok (key, 0)

/-- Reads what follows `REFERENCES`: the key, and the number of tokens it takes. -/
def reference (e : Entry) : List Token → Except TableError (ForeignKey × Nat)
  | [] => .error e.malformed
  | t :: rest => do
    let n := touching t rest
    let parts := (splitQualified (spanText (t :: rest.take n))).reverse
    match parts with
    | [] => .error e.malformed
    | table :: before =>
      let behind := rest.drop n
      let (column, m) ← match behind with
        | [] => pure (none, 0)
        | g :: _ =>
          if g.kind = .group then do
            let inside ← g.inside
            pure ((columnList inside).head?, 1)
          else pure (none, 0)
      let key : ForeignKey := { schema := before.head?, table, column }
      let (key, k) ← referenceOptions e 0 key (behind.drop m)
      return (key, 1 + n + m + k)

/-! ## §2. Columns. -/

/-- The keywords that begin a clause behind the type of a column. -/
def columnClauses : List String :=
  [ "NOT", "NULL", "DEFAULT", "PRIMARY", "UNIQUE", "REFERENCES", "CHECK", "CONSTRAINT",
    "COLLATE", "GENERATED" ]

/-- The token begins a clause. -/
def Token.beginsClause (t : Token) : Bool := t.keyword?.any columnClauses.contains

/-- The number of tokens before the first that begins a clause, keywords in `allowed`
apart. -/
def upToClause (allowed : List String) (ts : List Token) : Nat :=
  (ts.takeWhile fun t => !(t.beginsClause && !t.keyword?.any allowed.contains)).length

/-- The number of tokens of an expression: up to the first that begins a clause, what
stands between `CASE` and `END` apart.  `depth` counts the open `CASE`s; the first token,
where `first` holds, always belongs. -/
def expressionLength (first : Bool) (depth : Nat) : List Token → Nat
  | [] => 0
  | t :: rest =>
    if !first && depth = 0 && t.beginsClause then 0
    else
      let depth :=
        if t.isKeyword "CASE" then depth + 1
        else if t.isKeyword "END" then depth - 1
        else depth
      expressionLength false depth rest + 1

/-- The expression is the null value, which is no default. -/
def isNullWord (s : List Char) : Bool := asciiUpper s = "NULL".toList

/-- Reads the clause that begins with the token `t`: the column with it, and the number of
tokens of `rest` it takes. -/
def readClause (e : Entry) (c : Column) (t : Token) (rest : List Token) :
    Except TableError (Column × Nat) :=
  match t.keyword? with
  | some "CONSTRAINT" => .ok (c, 1)
  | some "NOT" => if leads "NULL" rest then .ok ({ c with nullable := false }, 1) else .ok (c, 0)
  | some "NULL" => .ok ({ c with nullable := true }, 0)
  | some "DEFAULT" =>
    if rest.isEmpty then .error e.malformed
    else
      let n := expressionLength true 0 rest
      let expression := normalize (spanText (rest.take n))
      let value := if isNullWord expression then none else some (String.ofList expression)
      .ok ({ c with defaultExpr := value }, n)
  | some "PRIMARY" =>
    if leads "KEY" rest then .ok ({ c with inPrimaryKey := true }, 1) else .ok (c, 0)
  | some "UNIQUE" => .ok ({ c with isUnique := true }, 0)
  | some "REFERENCES" => do
    let (key, n) ← reference e rest
    return ({ c with foreignKey := some key }, n)
  | some "CHECK" =>
    match rest with
    | [] => .ok (c, 0)
    | g :: _ =>
      if g.kind = .group then do
        let inside ← g.inside
        return ({ c with checkExpr := some (String.ofList (normalize inside)) }, 1)
      else .ok (c, 0)
  | some "COLLATE" => .ok (c, 1)
  | some "GENERATED" => .ok (c, upToClause ["DEFAULT"] rest)
  | _ => .ok (c, 0)

/-- Reads the clauses of a column, `skip` tokens being read already. -/
def readClauses (e : Entry) (skip : Nat) (c : Column) : List Token → Except TableError Column
  | [] => .ok c
  | t :: rest =>
    match skip with
    | n + 1 => readClauses e n c rest
    | 0 => do
      let (c, n) ← readClause e c t rest
      readClauses e n c rest

/-- Reads an entry as a column. -/
def Entry.column (e : Entry) : Except TableError Column :=
  match e.tokens with
  | [] => .error e.malformed
  | t :: rest =>
    if t.kind = .word || t.kind = .quotedIdent then
      let name := unquoteIdent t.text
      let n := upToClause [] rest
      if n = 0 then .error (.missingType name)
      else
        let c := Column.new name (String.ofList (spanText (rest.take n)))
        (readClauses e 0 c (rest.drop n)).map Column.enforceKey
    else .error e.malformed

/-! ## §3. Constraints of the whole table. -/

/-- What the constraints of a table say of single columns. -/
structure KeyClauses where
  primaryKey : List String := []
  unique : List String := []
  /-- The foreign keys of single columns, the latest first. -/
  foreignKeys : List (String × ForeignKey) := []
  deriving Repr, DecidableEq

/-- The entry is a constraint of the table and no column.  `EXCLUDE` and `LIKE` are names
of columns too, so that the next tokens decide. -/
def Entry.isTableConstraint (e : Entry) : Bool :=
  match leadingKeyword? e.tokens with
  | some "EXCLUDE" => leads "USING" e.tokens.tail || leadsGroup e.tokens.tail
  | some "LIKE" =>
    let behind := e.tokens.drop 2
    2 ≤ e.tokens.length
      && (behind.isEmpty || leads "INCLUDING" behind || leads "EXCLUDING" behind)
  | some k => ["CONSTRAINT", "PRIMARY", "FOREIGN", "UNIQUE", "CHECK"].contains k
  | none => false

/-- The columns that the group in front lists. -/
def groupColumns? (ts : List Token) : Option (Except TableError (List String)) :=
  match ts with
  | g :: _ => if g.kind = .group then some (g.inside.map columnList) else none
  | [] => none

/-- Adds what a constraint says of single columns.  Those of several columns, except for
the primary key, say nothing. -/
def KeyClauses.add (k : KeyClauses) (e : Entry) : Except TableError KeyClauses :=
  let ts := if leads "CONSTRAINT" e.tokens then e.tokens.drop 2 else e.tokens
  let keyColumns? := if leads "KEY" ts.tail then groupColumns? (ts.drop 2) else none
  match leadingKeyword? ts with
  | some "PRIMARY" =>
    match keyColumns? with
    | some columns => do return { k with primaryKey := k.primaryKey ++ (← columns) }
    | none => .ok k
  | some "UNIQUE" =>
    match groupColumns? (ts.tail.dropWhile (·.kind ≠ .group)) with
    | some columns => do
      match ← columns with
      | [c] => return { k with unique := k.unique ++ [c] }
      | _ => return k
    | none => .ok k
  | some "FOREIGN" =>
    match keyColumns? with
    | some columns => do
      let columns ← columns
      if leads "REFERENCES" (ts.drop 3) then
        let (key, _) ← reference e (ts.drop 4)
        match columns with
        | [c] => return { k with foreignKeys := (c, key) :: k.foreignKeys }
        | _ => return k
      else .error e.malformed
    | none => .ok k
  | _ => .ok k

/-- The column with what the constraints of the table say of it.  A reference of its own
stands. -/
def KeyClauses.apply (k : KeyClauses) (c : Column) : Column :=
  Column.enforceKey
    { c with
      inPrimaryKey := c.inPrimaryKey || k.primaryKey.contains c.name
      isUnique := c.isUnique || k.unique.contains c.name
      foreignKey := c.foreignKey <|> (k.foreignKeys.lookup c.name) }

end SchemaDrift.Table
