/-
  SchemaDrift.Sql.Identifier
  ──────────────────────────
  **NAMES AND THEIR WRITTEN FORMS.**

  A name written without quotes is folded to lower case; a name in double quotes is kept
  to the letter, a quote inside it written twice.

      quoteIdent n          the written form of the name `n`, quoted only if it must be
      unquoteIdent w        the name that the written form `w` stands for
      splitQualified w      the names of `a."B".c`
-/

import SchemaDrift.Text.Blank
import SchemaDrift.Text.Lines
import SchemaDrift.Text.Lowercase

namespace SchemaDrift.Sql

open SchemaDrift.Text

/-- The words that are no names unless they are quoted. -/
def reservedWords : List String :=
  [ "all", "analyse", "analyze", "and", "any", "array", "as", "asc", "asymmetric", "both",
    "case", "cast", "check", "collate", "column", "constraint", "create", "current_catalog",
    "current_date", "current_role", "current_time", "current_timestamp", "current_user",
    "default", "deferrable", "desc", "distinct", "do", "else", "end", "except", "false",
    "fetch", "for", "foreign", "from", "grant", "group", "having", "in", "initially",
    "intersect", "into", "lateral", "leading", "limit", "localtime", "localtimestamp", "not",
    "null", "offset", "on", "only", "or", "order", "placing", "primary", "references",
    "returning", "select", "session_user", "some", "symmetric", "table", "then", "to",
    "trailing", "true", "union", "unique", "user", "using", "variadic", "when", "where",
    "window", "with",
    -- names of functions and types all the same
    "authorization", "binary", "collation", "concurrently", "cross", "current_schema",
    "freeze", "full", "ilike", "inner", "is", "isnull", "join", "left", "like", "natural",
    "notnull", "outer", "overlaps", "right", "similar", "tablesample", "verbose" ]

/-- The name may be written without quotes: it is of small letters, digits, `_` and `$`,
begins with a small letter or `_`, and is not reserved. -/
def isPlainIdent : List Char → Bool
  | [] => false
  | c :: rest =>
    (c.isLower || c == '_')
      && rest.all (fun d => d.isLower || d.isDigit || d == '_' || d == '$')
      && !reservedWords.contains (String.ofList (c :: rest))

/-- The text with every double quote written twice. -/
def doubleQuotes : List Char → List Char
  | [] => []
  | c :: rest => if c = '"' then '"' :: '"' :: doubleQuotes rest else c :: doubleQuotes rest

/-- The text with every pair of double quotes written once. -/
def halveQuotes : List Char → List Char
  | '"' :: '"' :: rest => '"' :: halveQuotes rest
  | c :: rest => c :: halveQuotes rest
  | [] => []

/-- The written form of a name. -/
def quoteChars (name : List Char) : List Char :=
  if isPlainIdent name then name else '"' :: doubleQuotes name ++ ['"']

/-- The inside of a text between two double quotes. -/
def quotedInside? : List Char → Option (List Char)
  | '"' :: rest =>
    match rest.getLast? with
    | some '"' => some rest.dropLast
    | _ => none
  | _ => none

/-- The name that a written form stands for. -/
def unquoteChars (written : List Char) : List Char :=
  let w := trim written
  match quotedInside? w with
  | some inside => halveQuotes inside
  | none => lowercase w

/-- The parts of a text between the dots that stand outside double quotes; `inQuotes`
tells whether the text begins inside them. -/
def dotParts (inQuotes : Bool) : List Char → List (List Char)
  | [] => [[]]
  | c :: rest =>
    if c = '.' && !inQuotes then [] :: dotParts false rest
    else
      match dotParts (if c = '"' then !inQuotes else inQuotes) rest with
      | [] => [[c]]
      | part :: parts => (c :: part) :: parts

/-- The written form of a name, quoted only if it must be. -/
def quoteIdent (name : String) : String := String.ofList (quoteChars name.toList)

/-- The name that a written form stands for. -/
def unquoteIdent (written : List Char) : String := String.ofList (unquoteChars written)

/-- The names that a written form with dots stands for. -/
def splitQualified (written : List Char) : List String :=
  (dotParts false written).map unquoteIdent

/-- Every pair of quotes that doubling makes is halved again. -/
theorem halveQuotes_doubleQuotes (s : List Char) : halveQuotes (doubleQuotes s) = s := by
  induction s with
  | nil => rfl
  | cons c rest ih =>
    simp only [doubleQuotes]
    split
    · next h => subst h; simp [halveQuotes, ih]
    · next h => rw [halveQuotes.eq_2] <;> simp_all

end SchemaDrift.Sql
