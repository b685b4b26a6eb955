/-
  SchemaDrift.Toml.Text
  ─────────────────────
  **TOML STRINGS AND KEYS.**

  Basic strings, in double quotes, have escapes; literal strings, in single quotes, have
  none.  Three quotes begin a string of several lines: a line end right behind them does
  not count, and a backslash at the end of a line takes the white space behind it away.
-/

import SchemaDrift.Json.Parse
import SchemaDrift.Toml.Basic

namespace SchemaDrift.Toml

/-! ## §1. Escapes. -/

/-- Takes `n` hexadecimal digits off the front, as a number. -/
def hex? : Nat → Nat → List Char → Option (Nat × List Char)
  | 0, value, s => some (value, s)
  | _ + 1, _, [] => none
  | n + 1, value, c :: rest => (Json.hexValue? c).bind fun d => hex? n (16 * value + d) rest

/-- The character of a code point that is one. -/
def charOf? (n : Nat) : Option Char := if n.isValidChar then some (Char.ofNat n) else none

/-- Takes what stands behind a backslash off the front: the character it is for. -/
def escape? : List Char → Option (Char × List Char)
  | [] => none
  | c :: rest =>
    let coded := fun n => (hex? n 0 rest).bind fun (v, r) => (charOf? v).map fun d => (d, r)
    if c = 'b' then some ('\x08', rest)
    else if c = 't' then some ('\t', rest)
    else if c = 'n' then some ('\n', rest)
    else if c = 'f' then some ('\x0c', rest)
    else if c = 'r' then some ('\r', rest)
    else if c = 'e' then some ('\x1b', rest)
    else if c = '"' then some ('"', rest)
    else if c = '\\' then some ('\\', rest)
    else if c = 'x' then coded 2
    else if c = 'u' then coded 4
    else if c = 'U' then coded 8
    else none

/-- Takes white space and ends of lines off the front. -/
def skipLineEnds : List Char → List Char
  | '\n' :: rest => skipLineEnds rest
  | '\r' :: '\n' :: rest => skipLineEnds rest
  | c :: rest => if isSpace c then skipLineEnds rest else c :: rest
  | [] => []

/-- Takes the white space behind a backslash that ends a line off the front, ends of lines
included. -/
def foldedLine? (s : List Char) : Option (List Char) :=
  (lineEnd? (skipSpace s)).map skipLineEnds

/-! ## §2. Strings of several lines. -/

/-- Takes the quotes that end a string of several lines off the front, with up to two
quotes before them that belong to it. -/
def closingQuotes? (q : Char) (s : List Char) : Option (List Char × List Char) :=
  let quotes := (s.take 5).takeWhile (· == q)
  if quotes.length < 3 then none
  else some (quotes.drop 3, s.drop quotes.length)

/-- Takes a string off the front, of one line or of several, up to the quotes that end it;
`escapes` tells whether a backslash begins an escape. -/
def body? (q : Char) (escapes several : Bool) : Nat → List Char → Option (List Char × List Char)
  | 0, _ => none
  | _, [] => none
  | fuel + 1, c :: rest =>
    let goOn := fun (out rest : List Char) =>
      (body? q escapes several fuel rest).map fun (body, behind) => (out ++ body, behind)
    if c = q then
      if several then
        match closingQuotes? q (c :: rest) with
        | some found => some found
        | none => goOn [c] rest
      else some ([], rest)
    else if c = '\\' && escapes then
      match if several then foldedLine? rest else none with
      | some behind => goOn [] behind
      | none => (escape? rest).bind fun (d, behind) => goOn [d] behind
    else if several && (lineEnd? (c :: rest)).isSome then
      if c = '\n' then goOn [c] rest else goOn [c, '\n'] rest.tail
    else if isPrintable c then goOn [c] rest
    else none

/-- Takes a string, of fewer than `fuel` characters, off the front. -/
def string? (fuel : Nat) (s : List Char) : Option (List Char × List Char) :=
  match s with
  | q :: rest =>
    if q = '"' || q = '\'' then
      let escapes : Bool := q = '"'
      if rest.take 2 = [q, q] then
        let behind := rest.drop 2
        body? q escapes true fuel ((lineEnd? behind).getD behind)
      else body? q escapes false fuel rest
    else none
  | [] => none

/-! ## §3. Keys. -/

/-- What a key without quotes is made of. -/
def isBareKeyChar (c : Char) : Bool := c.isAlphanum || c == '_' || c == '-'

/-- Takes one part of a key, of fewer than `fuel` characters, off the front. -/
def keyPart? (fuel : Nat) (s : List Char) : Option (String × List Char) :=
  match s with
  | q :: rest =>
    if q = '"' || q = '\'' then
      (body? q (q = '"') false fuel rest).map fun (k, behind) => (String.ofList k, behind)
    else
      let bare := s.takeWhile isBareKeyChar
      if bare.isEmpty then none else some (String.ofList bare, s.drop bare.length)
  | [] => none

/-- The most parts that a key may have, and the most values that may stand one in the
other. -/
def maxDepth : Nat := 80

/-- Takes a key of at most `room` parts, with dots between them, off the front. -/
def keyParts? (fuel : Nat) : Nat → List Char → Option (List String × List Char)
  | 0, _ => none
  | room + 1, s =>
    (keyPart? fuel (skipSpace s)).bind fun (k, rest) =>
      match skipSpace rest with
      | '.' :: behind => (keyParts? fuel room behind).map fun (ks, r) => (k :: ks, r)
      | behind => some ([k], behind)

/-- Takes a key off the front. -/
def key? (fuel : Nat) (s : List Char) : Option (List String × List Char) :=
  keyParts? fuel maxDepth s

end SchemaDrift.Toml
