/-
  SchemaDrift.Table.TypeName
  ──────────────────────────
  **ONE SPELLING FOR EACH DATA TYPE.**

  `varchar (255)` and `VARCHAR(255)` are one type.  The canonical spelling has the letters
  of ASCII outside quotes in upper case, one space between words, and none beside a
  bracket or behind a comma.
-/

import SchemaDrift.Sql.Normal

namespace SchemaDrift.Table

open SchemaDrift.Sql SchemaDrift.Text

/-- No space is kept before this character of a type in code. -/
def hugsLeft (c : Char) : Bool := c == '(' || c == ')' || c == '[' || c == ']' || c == ','

/-- No space is kept behind this character of a type. -/
def hugsRight (c : Char) : Bool := c == '(' || c == '[' || c == ','

/-- Writes the glyphs of a type behind the character `last`; `pending` tells that a gap
was just read. -/
def spellType (last : Option Char) (pending : Bool) : List Glyph → List Char
  | [] => []
  | g :: rest =>
    if g.isGap then spellType last true rest
    else
      let code := g.cls = .code
      let c := if code then g.char.toUpper else g.char
      let spaced := pending && last.any (fun l => !hugsRight l) && !(code && hugsLeft g.char)
      if spaced then ' ' :: c :: spellType (some c) false rest
      else c :: spellType (some c) false rest

/-- The canonical spelling of a data type. -/
def canonicalType (s : List Char) : List Char := spellType none false (classify s)

end SchemaDrift.Table
