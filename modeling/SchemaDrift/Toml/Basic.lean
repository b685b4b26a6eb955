/-
  SchemaDrift.Toml.Basic
  ──────────────────────
  **TOML VALUES.**

  Numbers and moments are kept as they are written.
-/

namespace SchemaDrift

/-- A TOML value. -/
inductive Toml where
  | string (s : String)
  | boolean (b : Bool)
  | number (literal : List Char)
  | moment (literal : List Char)
  | array (elements : List Toml)
  | table (members : List (String × Toml))
  deriving Repr, Inhabited

namespace Toml

/-- White space inside a line. -/
def isSpace (c : Char) : Bool := c == ' ' || c == '\t'

/-- The text without leading white space. -/
def skipSpace (s : List Char) : List Char := s.dropWhile isSpace

/-- A character that may stand in a comment or a literal string: no control character but
the tab. -/
def isPrintable (c : Char) : Bool := c == '\t' || (0x20 ≤ c.toNat && c.toNat ≠ 0x7F)

/-- Takes the end of a line off the front: a line feed, or a carriage return with one. -/
def lineEnd? : List Char → Option (List Char)
  | '\n' :: rest => some rest
  | '\r' :: '\n' :: rest => some rest
  | _ => none

/-- Takes a comment, if there is one, off the front. -/
def skipComment : List Char → List Char
  | '#' :: rest => rest.dropWhile isPrintable
  | s => s

/-- Takes white space, comments and ends of lines off the front; `comment` tells whether a
comment has begun already. -/
def skipLinesFrom (comment : Bool) : List Char → List Char
  | '\n' :: rest => skipLinesFrom false rest
  | '\r' :: '\n' :: rest => skipLinesFrom false rest
  | c :: rest =>
    if comment then if isPrintable c then skipLinesFrom true rest else c :: rest
    else if isSpace c then skipLinesFrom false rest
    else if c = '#' then skipLinesFrom true rest
    else c :: rest
  | [] => []

/-- Takes white space, comments and ends of lines off the front. -/
def skipLines (s : List Char) : List Char := skipLinesFrom false s

end Toml

end SchemaDrift
