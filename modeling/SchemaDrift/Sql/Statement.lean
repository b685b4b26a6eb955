/-
  SchemaDrift.Sql.Statement
  ─────────────────────────
  **ONE SQL COMMAND.**

  A statement is its text and the line that text began in.  Its IDENTITY is the digest of
  its normal form, so that comments and layout never change it.  Its kind and whether it
  creates a table are read off the keywords in front of the normal form.
-/

import SchemaDrift.Digest.Sha256
import SchemaDrift.Sql.Normal
import SchemaDrift.Text.Keyword
import SchemaDrift.Text.Lines
import SchemaDrift.Text.Lowercase

namespace SchemaDrift.Sql

open SchemaDrift.Text SchemaDrift.Digest

/-- What a statement is for, as far as its leading keywords tell. -/
inductive StatementKind where
  | create
  | alter
  | function
  | trigger
  | policy
  | unknown
  deriving Repr, DecidableEq

/-- The name of a kind of statement. -/
def StatementKind.label : StatementKind → String
  | .create => "CREATE"
  | .alter => "ALTER"
  | .function => "FUNCTION"
  | .trigger => "TRIGGER"
  | .policy => "POLICY"
  | .unknown => "UNKNOWN"

/-- One SQL command as it was written. -/
structure Statement where
  raw : String
  /-- The line of its source in which it begins, if it has a source. -/
  startLine : Option Nat := none
  deriving Repr, DecidableEq

/-! ## §1. Keywords in front of a normal form. -/

/-- Takes `CREATE` and the white space behind it off the front. -/
def create? (s : List Char) : Option (List Char) := keywordBlanks? "CREATE" s

/-- Takes `CREATE`, and `OR REPLACE` if it follows, off the front. -/
def createOrReplace? (s : List Char) : Option (List Char) :=
  (create? s).map fun rest =>
    (((keywordBlanks? "OR" rest).bind (keywordBlanks? "REPLACE"))).getD rest

/-- Takes the head of a table definition up to the keyword `TABLE` off the front. -/
def createTable? (s : List Char) : Option (List Char) :=
  (create? s).bind fun rest =>
    keyword? "TABLE".toList
      (skipOneOf ["TEMPORARY", "TEMP", "UNLOGGED"] (skipOneOf ["GLOBAL", "LOCAL"] rest))

/-- The text creates a function or a procedure. -/
def createsFunction (s : List Char) : Bool :=
  (createOrReplace? s).any fun rest =>
    startsWithWord "FUNCTION" rest || startsWithWord "PROCEDURE" rest

/-- The text creates a trigger. -/
def createsTrigger (s : List Char) : Bool :=
  (createOrReplace? s).any fun rest => startsWithWord "TRIGGER" (skipOneOf ["CONSTRAINT"] rest)

/-- The text creates a policy. -/
def createsPolicy (s : List Char) : Bool := (create? s).any (startsWithWord "POLICY")

/-- The first word of a text, up to white space or a parenthesis, in capitals. -/
def firstWord (s : List Char) : List Char :=
  asciiUpper (s.takeWhile fun c => !(isBlank c || c == '('))

/-- The kind of a statement with the normal form `s`. -/
def kindOf (s : List Char) : StatementKind :=
  let word := firstWord s
  if word = "CREATE".toList then
    if createsFunction s then .function
    else if createsTrigger s then .trigger
    else if createsPolicy s then .policy
    else .create
  else if word = "ALTER".toList then .alter
  else .unknown

/-! ## §2. Statements. -/

namespace Statement

/-- The normal form of the statement. -/
def normalized (s : Statement) : String := String.ofList (normalize s.raw.toList)

/-- The identity of the statement: the digest of its normal form. -/
def hash (s : Statement) : String := hashOf s.normalized

/-- The kind of the statement. -/
def kind (s : Statement) : StatementKind := kindOf (normalize s.raw.toList)

/-- The statement holds nothing but comments, white space and semicolons at its end. -/
def isEmpty (s : Statement) : Bool := (normalize s.raw.toList).isEmpty

/-- The statement defines a table. -/
def isCreateTable (s : Statement) : Bool := (createTable? (normalize s.raw.toList)).any atWordEnd

end Statement

end SchemaDrift.Sql
