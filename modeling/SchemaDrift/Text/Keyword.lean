/-
  SchemaDrift.Text.Keyword
  ────────────────────────
  **KEYWORDS IN ANY CASE.**

  A reader takes a piece off the front of a text and gives the rest, or fails.  Keywords
  are compared letter by letter up to simple case folding, under which `ſ` is a small `S`
  and the Kelvin sign a capital `K`.
-/

import SchemaDrift.Text.Blank
import SchemaDrift.Text.WordChar

namespace SchemaDrift.Text

/-- The capital letter of ASCII that a character folds to, if any; else the character. -/
def foldLetter (c : Char) : Char :=
  if c = '\u017F' then 'S' else if c = '\u212A' then 'K' else c.toUpper

/-- A letter of ASCII up to case folding. -/
def isFoldedAlpha (c : Char) : Bool := (foldLetter c).isAlpha

/-- Takes a text off the front, letter by letter. -/
def literally? : List Char → List Char → Option (List Char)
  | [], rest => some rest
  | _ :: _, [] => none
  | k :: ks, c :: rest => if c = k then literally? ks rest else none

/-- Takes a keyword, given in capital letters, off the front. -/
def keyword? : List Char → List Char → Option (List Char)
  | [], rest => some rest
  | _ :: _, [] => none
  | k :: ks, c :: rest => if foldLetter c = k then keyword? ks rest else none

/-- Takes white space off the front, at least one character of it. -/
def blanks? : List Char → Option (List Char)
  | [] => none
  | c :: rest => if isBlank c then some (trimStart rest) else none

/-- Takes the keyword and the white space behind it off the front. -/
def keywordBlanks? (k : String) (s : List Char) : Option (List Char) :=
  (keyword? k.toList s).bind blanks?

/-- Takes the first of some keywords that stands in front, with the white space behind
it, off the front; leaves the text as it is if none stands there. -/
def skipOneOf (ks : List String) (s : List Char) : List Char :=
  (ks.findSome? (keywordBlanks? · s)).getD s

/-- A keyword stands in front and ends there. -/
def startsWithWord (k : String) (s : List Char) : Bool :=
  (keyword? k.toList s).any atWordEnd

end SchemaDrift.Text
