/-
  SchemaDrift.Table.Token
  ───────────────────────
  **AN ENTRY OF A TABLE BODY AS A FLAT ROW OF TOKENS.**

  A token is a word, a run of quoted text, a bracketed GROUP with everything inside, or a
  single other character.  What stands between tokens, white space and comments, is kept
  as the GAP behind the token before it, so that two tokens touch exactly when the gap
  between them is empty, and the text of a row of tokens is got by writing them out.
-/

import SchemaDrift.Sql.Normal
import SchemaDrift.Table.Error
import SchemaDrift.Text.Lowercase

namespace SchemaDrift.Table

open SchemaDrift.Sql SchemaDrift.Text

/-- The kinds of tokens. -/
inductive TokenKind where
  | word
  | quotedIdent
  | literal
  | group
  | punct
  deriving Repr, DecidableEq

/-- A token and the gap behind it. -/
structure Token where
  kind : TokenKind
  text : List Char
  gap : List Char
  deriving Repr, DecidableEq

/-- What a word is made of: identifier characters, dollar signs, dots. -/
def isTokenChar (c : Char) : Bool := isIdentChar c || c == '$' || c == '.'

/-! ## §1. Reading tokens. -/

/-- What the reader is inside of. -/
inductive Reading where
  | between
  | quoted
  | word
  /-- In a group of the bracket `opening`, with `depth` more of it open inside. -/
  | group (opening : Char) (depth : Nat)
  deriving Repr, DecidableEq

/-- What a glyph is to the row of tokens. -/
inductive Role where
  /-- It goes on with the token before it. -/
  | more (reading : Reading)
  /-- It begins a token. -/
  | start (kind : TokenKind) (reading : Reading)
  /-- It is of a gap. -/
  | gap
  deriving Repr, DecidableEq

/-- The bracket that closes a group. -/
def closing (opening : Char) : Char := if opening = '(' then ')' else ']'

/-- The role of a glyph that goes on with no token. -/
def freshRole (g : Glyph) : Role :=
  match g.cls with
  | .comment => .gap
  | .quoted => .start (if g.char = '"' then .quotedIdent else .literal) .quoted
  | .code =>
    if isBlank g.char then .gap
    else if g.char = '(' || g.char = '[' then .start .group (.group g.char 0)
    else if isTokenChar g.char then .start .word .word
    else .start .punct .between

/-- The role of a glyph. -/
def Reading.role (r : Reading) (g : Glyph) : Role :=
  match r with
  | .between => freshRole g
  | .quoted => if g.cls = .quoted then .more .quoted else freshRole g
  | .word => if g.cls = .code && isTokenChar g.char then .more .word else freshRole g
  | .group opening depth =>
    if g.isCode opening then .more (.group opening (depth + 1))
    else if g.isCode (closing opening) then
      match depth with
      | 0 => .more .between
      | n + 1 => .more (.group opening n)
    else .more (.group opening depth)

/-- What is read of a row of glyphs: the rest of the token it begins inside of, the gap
behind that, and the tokens that follow. -/
structure Row where
  rest : List Char
  gap : List Char
  tokens : List Token
  deriving Repr, DecidableEq

/-- Reads a row of glyphs. -/
def Reading.row (r : Reading) : List Glyph → Row
  | [] => ⟨[], [], []⟩
  | g :: gs =>
    match r.role g with
    | .more r' =>
      let row := r'.row gs
      { row with rest := g.char :: row.rest }
    | .start kind r' =>
      let row := r'.row gs
      ⟨[], [], ⟨kind, g.char :: row.rest, row.gap⟩ :: row.tokens⟩
    | .gap =>
      let row := Reading.between.row gs
      { row with gap := g.char :: row.gap }

/-- The tokens of a text. -/
def tokenize (s : List Char) : List Token := (Reading.between.row (classify s)).tokens

/-! ## §2. Tokens. -/

/-- The word in capitals, if the token is one. -/
def Token.keyword? (t : Token) : Option String :=
  if t.kind = .word then some (String.ofList (asciiUpper t.text)) else none

/-- The token is the keyword `k`. -/
def Token.isKeyword (t : Token) (k : String) : Bool := t.keyword? = some k

/-- The token in front is the keyword `k`. -/
def leads (k : String) (ts : List Token) : Bool := ts.head?.any (·.isKeyword k)

/-- The token in front is a group. -/
def leadsGroup (ts : List Token) : Bool := ts.head?.any (·.kind = .group)

/-- The keyword in front. -/
def leadingKeyword? (ts : List Token) : Option String := ts.head?.bind (·.keyword?)

/-- The text of a row of tokens, without the gap behind the last. -/
def spanText : List Token → List Char
  | [] => []
  | [t] => t.text
  | t :: rest => t.text ++ t.gap ++ spanText rest

/-- What is inside a group: all but its first character and the byte at its end.  A group
that is never closed has no closing bracket there; if the byte then is a part of a
character, nothing can be cut off. -/
def Token.inside (t : Token) : Except TableError (List Char) :=
  match t.text.tail.getLast? with
  | none => .ok []
  | some last =>
    if last.utf8Size = 1 then .ok t.text.tail.dropLast else .error .cutInsideCharacter

/-! ## §3. Entries. -/

/-- Cuts a row of glyphs at every comma in code that stands outside brackets; `parens` and
`brackets` count those open so far.  A bracket too many closes nothing. -/
def commaParts (parens brackets : Nat) : List Glyph → List (List Char)
  | [] => [[]]
  | g :: rest =>
    if g.isCode ',' && parens = 0 && brackets = 0 then [] :: commaParts 0 0 rest
    else
      let parens' :=
        if g.isCode '(' then parens + 1 else if g.isCode ')' then parens - 1 else parens
      let brackets' :=
        if g.isCode '[' then brackets + 1 else if g.isCode ']' then brackets - 1 else brackets
      match commaParts parens' brackets' rest with
      | [] => [[g.char]]
      | part :: parts => (g.char :: part) :: parts

/-- The entries of a list with commas, without white space around, and without those that
are empty. -/
def splitTopLevel (s : List Char) : List (List Char) :=
  ((commaParts 0 0 (classify s)).map trim).filter (!·.isEmpty)

end SchemaDrift.Table
