/-
  SchemaDrift.Sql.Normal
  ──────────────────────
  **SQL TEXT UP TO COMMENTS AND LAYOUT.**

      normalize       comments and runs of white space outside quotes become one space,
                      none at the ends; closing semicolons go
      stripComments   every run of comments becomes one space
      terminate       a semicolon behind the last character that is not of a comment

  Two texts of one normal form say the same: what is quoted is kept to the letter.
-/

import SchemaDrift.Sql.Lexical
import SchemaDrift.Text.Blank

namespace SchemaDrift.Sql

open SchemaDrift.Text

/-- The glyph separates tokens and says nothing: a comment, or white space in code. -/
def Glyph.isGap (g : Glyph) : Bool :=
  match g.cls with
  | .comment => true
  | .code => isBlank g.char
  | .quoted => false

/-- Squeezes every run of gaps to one space, `pending` telling that a gap was just read.
A gap before the first other character vanishes; `started` tells that one was read. -/
def squeeze (started pending : Bool) : List Glyph → List Char
  | [] => []
  | g :: rest =>
    if g.isGap then squeeze started true rest
    else if pending && started then ' ' :: g.char :: squeeze true false rest
    else g.char :: squeeze true false rest

/-- What is cut off the end of a normal form: semicolons and white space. -/
def isClosing (c : Char) : Bool := c == ';' || isBlank c

/-- The normal form of an SQL text. -/
def normalize (s : List Char) : List Char :=
  trimEndWhile isClosing (squeeze false false (classify s))

/-- Puts one space for every run of comments; `inComment` tells that one was just read. -/
def blankComments (inComment : Bool) : List Glyph → List Char
  | [] => []
  | g :: rest =>
    if g.cls = .comment then
      if inComment then blankComments true rest else ' ' :: blankComments true rest
    else g.char :: blankComments false rest

/-- The text with every run of comments replaced by one space. -/
def stripComments (s : List Char) : List Char := blankComments false (classify s)

/-- The text with trailing white space cut off and, unless it holds comments only, a
semicolon as its last character outside comments. -/
def terminate (s : List Char) : List Char :=
  let kept := trimEnd s
  let trailing := fun g : Glyph => g.cls = .comment || isBlank g.char
  let backwards := (classify kept).reverse
  match backwards.dropWhile trailing with
  | [] => kept
  | g :: _ =>
    if g.isCode ';' then kept
    else
      (backwards.dropWhile trailing).reverse.map Glyph.char ++
        ';' :: (backwards.takeWhile trailing).reverse.map Glyph.char

end SchemaDrift.Sql
