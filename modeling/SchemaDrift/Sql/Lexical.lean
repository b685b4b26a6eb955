/-
  SchemaDrift.Sql.Lexical
  ───────────────────────
  **WHICH CHARACTERS OF AN SQL TEXT ARE CODE.**

  Every character of a text is CODE, part of something QUOTED (a string literal, a quoted
  identifier, a dollar-quoted block, delimiters included) or part of a COMMENT.  Nothing
  more of the language is known here, and nothing more is needed to tell whether a
  semicolon ends a statement.

  One automaton reads the text a character at a time.  It looks back at two characters
  (`E'…'` strings, dollar tags) and ahead as far as a dollar tag reaches.  A token of
  several characters (`--`, `''`, `$tag$`) is decided at its first character; the others
  are HELD, that is, they take its class without a decision of their own.

      classify t       the characters of `t`, in order, each with its class
      unclosed? t      what the end of `t` cuts off, and the line it began in

  The line feed behind a line comment is code.
-/

import SchemaDrift.Text.Alphanumeric

namespace SchemaDrift.Sql

open SchemaDrift.Text

/-! ## §1. Classes and modes. -/

/-- What a character of an SQL text is part of. -/
inductive CharClass where
  /-- Plain SQL, where semicolons, commas and brackets count. -/
  | code
  /-- A string literal, a quoted identifier or a dollar-quoted block. -/
  | quoted
  /-- A line comment or a block comment. -/
  | comment
  deriving Repr, DecidableEq

/-- A character together with its class. -/
structure Glyph where
  char : Char
  cls : CharClass
  deriving Repr, DecidableEq

/-- The glyph is this character, as code. -/
def Glyph.isCode (g : Glyph) (c : Char) : Bool := g.cls = .code && g.char = c

/-- What may be left open at the end of a text. -/
inductive Enclosure where
  | literal
  | identifier
  | dollarBlock
  | blockComment
  deriving Repr, DecidableEq

/-- The name of an enclosure in messages. -/
def Enclosure.label : Enclosure → String
  | .literal => "string literal"
  | .identifier => "quoted identifier"
  | .dollarBlock => "dollar-quoted block"
  | .blockComment => "block comment"

/-- What the automaton is inside of. -/
inductive Mode where
  | code
  /-- In a string literal; `escapes` tells whether a backslash takes the next character. -/
  | literal (escapes : Bool)
  | identifier
  /-- In a block that the delimiter, `$$` or `$tag$`, closes again. -/
  | dollar (delimiter : List Char)
  | lineComment
  /-- In a block comment with `outer` block comments around it. -/
  | blockComment (outer : Nat)
  deriving Repr, DecidableEq

/-- What is cut off when the text ends in this mode. -/
def Mode.enclosure? : Mode → Option Enclosure
  | .code | .lineComment => none
  | .literal _ => some .literal
  | .identifier => some .identifier
  | .dollar _ => some .dollarBlock
  | .blockComment _ => some .blockComment

/-! ## §2. The automaton. -/

/-- The state between two characters. -/
structure Lexer where
  mode : Mode := .code
  /-- How many of the next characters belong to the token just decided. -/
  held : Nat := 0
  /-- The class of the held characters. -/
  heldClass : CharClass := .code
  /-- The character just read. -/
  last : Option Char := none
  /-- The character before that. -/
  beforeLast : Option Char := none
  deriving Repr, DecidableEq

/-- A decision at the first character of a token: the class of all its characters, how
many follow the first, and the mode from there on. -/
structure Decision where
  cls : CharClass
  more : Nat
  mode : Mode
  deriving Repr, DecidableEq

namespace Lexer

/-- A quote here begins a literal with backslash escapes: an `E` stands before it that is
no ending of a word. -/
def escapes (s : Lexer) : Bool :=
  (s.last == some 'e' || s.last == some 'E') && !(s.beforeLast.any isIdentChar)

/-- The delimiter that a dollar sign here begins: `$`, a name that may be empty and does
not start with a digit, and `$`.  None begins right behind an identifier or a dollar sign. -/
def delimiter? (s : Lexer) (rest : List Char) : Option (List Char) :=
  if s.last.any fun c => isIdentChar c || c == '$' then none
  else
    let name := rest.takeWhile isIdentChar
    match rest.dropWhile isIdentChar with
    | '$' :: _ => if name.head?.any Char.isDigit then none else some ('$' :: name ++ ['$'])
    | _ => none

/-- Decides the token that begins at `c`, with `rest` behind it. -/
def decision (s : Lexer) (c : Char) (rest : List Char) : Decision :=
  let next := rest.head?
  match s.mode with
  | .code =>
    if c = '-' && next == some '-' then ⟨.comment, 1, .lineComment⟩
    else if c = '/' && next == some '*' then ⟨.comment, 1, .blockComment 0⟩
    else if c = '\'' then ⟨.quoted, 0, .literal s.escapes⟩
    else if c = '"' then ⟨.quoted, 0, .identifier⟩
    else if c = '$' then
      match s.delimiter? rest with
      | some d => ⟨.quoted, d.length - 1, .dollar d⟩
      | none => ⟨.code, 0, .code⟩
    else ⟨.code, 0, .code⟩
  | .lineComment => if c = '\n' then ⟨.code, 0, .code⟩ else ⟨.comment, 0, .lineComment⟩
  | .blockComment outer =>
    if c = '*' && next == some '/' then
      ⟨.comment, 1, match outer with | 0 => .code | n + 1 => .blockComment n⟩
    else if c = '/' && next == some '*' then ⟨.comment, 1, .blockComment (outer + 1)⟩
    else ⟨.comment, 0, .blockComment outer⟩
  | .literal escapes =>
    if escapes && c = '\\' && next.isSome then ⟨.quoted, 1, .literal escapes⟩
    else if c = '\'' then
      if next == some '\'' then ⟨.quoted, 1, .literal escapes⟩ else ⟨.quoted, 0, .code⟩
    else ⟨.quoted, 0, .literal escapes⟩
  | .identifier =>
    if c = '"' then
      if next == some '"' then ⟨.quoted, 1, .identifier⟩ else ⟨.quoted, 0, .code⟩
    else ⟨.quoted, 0, .identifier⟩
  | .dollar d =>
    if d.isPrefixOf (c :: rest) then ⟨.quoted, d.length - 1, .code⟩
    else ⟨.quoted, 0, .dollar d⟩

/-- Reads one character: its class, and the state behind it. -/
def advance (s : Lexer) (c : Char) (rest : List Char) : CharClass × Lexer :=
  match s.held with
  | n + 1 => (s.heldClass, { s with held := n, last := some c, beforeLast := s.last })
  | 0 =>
    let d := s.decision c rest
    (d.cls, { mode := d.mode, held := d.more, heldClass := d.cls,
              last := some c, beforeLast := s.last })

/-- The characters of a text with their classes, read from the state `s`. -/
def glyphs (s : Lexer) : List Char → List Glyph
  | [] => []
  | c :: rest => ⟨c, (s.advance c rest).1⟩ :: (s.advance c rest).2.glyphs rest

/-- The state behind a text read from the state `s`. -/
def after (s : Lexer) : List Char → Lexer
  | [] => s
  | c :: rest => (s.advance c rest).2.after rest

/-- The line in which code was left last, for a text read from the state `s` in line
`line`; `opened` if it is not left. -/
def openingLine (s : Lexer) (line opened : Nat) : List Char → Nat
  | [] => opened
  | c :: rest =>
    let s' := (s.advance c rest).2
    let leaves := s.held = 0 && s.mode = .code && s'.mode ≠ .code
    s'.openingLine (if c = '\n' then line + 1 else line) (if leaves then line else opened) rest

end Lexer

/-! ## §3. Whole texts. -/

/-- The characters of a text, in order, each with its class. -/
def classify (s : List Char) : List Glyph := ({} : Lexer).glyphs s

/-- What the end of the text cuts off, with the line it began in. -/
def unclosed? (s : List Char) : Option (Enclosure × Nat) :=
  (({} : Lexer).after s).mode.enclosure?.map fun e => (e, ({} : Lexer).openingLine 1 1 s)

/-- Classifying neither loses nor changes a character. -/
theorem glyphs_map_char (s : Lexer) (t : List Char) : (s.glyphs t).map Glyph.char = t := by
  induction t generalizing s with
  | nil => rfl
  | cons c rest ih => simp [Lexer.glyphs, ih]

/-- Classifying neither loses nor changes a character of a whole text. -/
theorem classify_map_char (t : List Char) : (classify t).map Glyph.char = t :=
  glyphs_map_char _ t

end SchemaDrift.Sql
