/-
  SchemaDrift.Json.Parse
  ──────────────────────
  **READING JSON.**

  The reader takes the grammar at its word: blanks are space, tab and the two line
  breaks; control characters are escaped in strings; nothing stands behind the value.

  A string is first cut into characters and `\u` escapes (`pieces?`), and then the escapes
  of surrogate pairs are put together (`text?`).  Values are read by recursion on a bound
  for the number of steps, which `parse?` takes from the length of the text.
-/

import SchemaDrift.Json.Basic

namespace SchemaDrift.Json

/-- The blanks between tokens. -/
def isBlank (c : Char) : Bool := c == ' ' || c == '\n' || c == '\t' || c == '\r'

/-- The text without leading blanks. -/
def skipBlanks (s : List Char) : List Char := s.dropWhile isBlank

/-! ## §1. Strings. -/

/-- What a string is made of. -/
inductive Piece where
  | char (c : Char)
  /-- A `\u` escape, which names a unit of sixteen bits. -/
  | unit (n : Nat)
  deriving Repr, DecidableEq

/-- The value of a hexadecimal digit. -/
def hexValue? (c : Char) : Option Nat :=
  if c.isDigit then some (c.toNat - '0'.toNat)
  else if 'a' ≤ c && c ≤ 'f' then some (c.toNat - 'a'.toNat + 10)
  else if 'A' ≤ c && c ≤ 'F' then some (c.toNat - 'A'.toNat + 10)
  else none

/-- The character behind a backslash that stands for a character on its own. -/
def escaped? (c : Char) : Option Char :=
  if c = '"' || c = '\\' || c = '/' then some c
  else if c = 'b' then some '\x08'
  else if c = 'f' then some '\x0c'
  else if c = 'n' then some '\n'
  else if c = 'r' then some '\r'
  else if c = 't' then some '\t'
  else none

/-- The number of four hexadecimal digits. -/
def unit? (a b c d : Char) : Option Nat := do
  return 4096 * (← hexValue? a) + 256 * (← hexValue? b) + 16 * (← hexValue? c) + (← hexValue? d)

/-- Takes the pieces of a string, and the quote that ends it, off the front. -/
def pieces? : List Char → Option (List Piece × List Char)
  | [] => none
  | '"' :: rest => some ([], rest)
  | '\\' :: 'u' :: a :: b :: c :: d :: rest =>
    (unit? a b c d).bind fun n => (pieces? rest).map fun (ps, behind) => (.unit n :: ps, behind)
  | '\\' :: e :: rest =>
    (escaped? e).bind fun c => (pieces? rest).map fun (ps, behind) => (.char c :: ps, behind)
  | c :: rest =>
    if c.toNat < 0x20 then none
    else (pieces? rest).map fun (ps, behind) => (.char c :: ps, behind)

/-- The unit is the first half of a surrogate pair. -/
def isLead (n : Nat) : Bool := 0xD800 ≤ n && n ≤ 0xDBFF

/-- The unit is the second half of a surrogate pair. -/
def isTrail (n : Nat) : Bool := 0xDC00 ≤ n && n ≤ 0xDFFF

/-- The characters that pieces stand for; half of a pair alone stands for none. -/
def text? : List Piece → Option (List Char)
  | [] => some []
  | .char c :: rest => (text? rest).map (c :: ·)
  | .unit n :: rest =>
    if isTrail n then none
    else if isLead n then
      match rest with
      | .unit m :: rest =>
        if isTrail m then
          (text? rest).map (Char.ofNat (0x10000 + (n - 0xD800) * 0x400 + (m - 0xDC00)) :: ·)
        else none
      | _ => none
    else (text? rest).map (Char.ofNat n :: ·)

/-- The text of a string that is made of the pieces. -/
def textOf? (ps : List Piece) : Option String := (text? ps).map String.ofList

/-! ## §2. Numbers. -/

/-- Takes digits off the front, at least one. -/
def digits? (s : List Char) : Option (List Char × List Char) :=
  match s.takeWhile Char.isDigit with
  | [] => none
  | ds => some (ds, s.dropWhile Char.isDigit)

/-- Takes the whole part of a number off the front: one zero, or digits that begin with
none. -/
def whole? (s : List Char) : Option (List Char × List Char) :=
  match s with
  | '0' :: rest => if rest.head?.any Char.isDigit then none else some (['0'], rest)
  | _ => digits? s

/-- Takes a fraction, if there is one, off the front. -/
def fraction? (s : List Char) : Option (List Char × List Char) :=
  match s with
  | '.' :: rest => (digits? rest).map fun (ds, behind) => ('.' :: ds, behind)
  | _ => some ([], s)

/-- Takes an exponent, if there is one, off the front. -/
def exponent? (s : List Char) : Option (List Char × List Char) :=
  match s with
  | c :: rest =>
    if c = 'e' || c = 'E' then
      let (sign, behind) := match rest with
        | '+' :: r => (['+'], r)
        | '-' :: r => (['-'], r)
        | _ => ([], rest)
      (digits? behind).map fun (ds, behind) => (c :: sign ++ ds, behind)
    else some ([], s)
  | [] => some ([], s)

/-- Takes a number off the front. -/
def number? (s : List Char) : Option (List Char × List Char) := do
  let (sign, rest) := match s with
    | '-' :: rest => (['-'], rest)
    | _ => ([], s)
  let (whole, rest) ← whole? rest
  let (fraction, rest) ← fraction? rest
  let (exponent, rest) ← exponent? rest
  return (sign ++ whole ++ fraction ++ exponent, rest)

/-! ## §3. Values. -/

/-- The values that are words, with their words. -/
def constants : List (List Char × Json) :=
  [("null".toList, .null), ("true".toList, .bool true), ("false".toList, .bool false)]

/-- Takes a word of a constant off the front. -/
def constant? (s : List Char) : Option (Json × List Char) :=
  constants.findSome? fun (word, v) =>
    if word.isPrefixOf s then some (v, s.drop word.length) else none

/-- The object with the members, if all their names are texts. -/
def ofMembers (ms : List (Option String × Json)) : Json :=
  match ms.mapM fun (name, v) => name.map fun name => (name, v) with
  | some ms => .object ms
  | none => .halved

mutual

/-- Takes a value off the front, in at most `fuel` steps. -/
def value? (fuel : Nat) (s : List Char) : Option (Json × List Char) :=
  match fuel with
  | 0 => none
  | fuel + 1 =>
    match skipBlanks s with
    | [] => none
    | '"' :: rest =>
      (pieces? rest).map fun (ps, behind) => (((textOf? ps).map .string).getD .halved, behind)
    | '[' :: rest =>
      match skipBlanks rest with
      | ']' :: behind => some (.array [], behind)
      | _ => (elements? fuel rest).map fun (vs, behind) => (.array vs, behind)
    | '{' :: rest =>
      match skipBlanks rest with
      | '}' :: behind => some (.object [], behind)
      | _ => (members? fuel rest).map fun (ms, behind) => (ofMembers ms, behind)
    | c :: rest =>
      if c = '-' || c.isDigit then
        (number? (c :: rest)).map fun (literal, behind) => (.number literal, behind)
      else constant? (c :: rest)

/-- Takes the elements of an array, and the bracket behind them, off the front. -/
def elements? (fuel : Nat) (s : List Char) : Option (List Json × List Char) :=
  match fuel with
  | 0 => none
  | fuel + 1 =>
    (value? fuel s).bind fun (v, rest) =>
      match skipBlanks rest with
      | ',' :: behind => (elements? fuel behind).map fun (vs, r) => (v :: vs, r)
      | ']' :: behind => some ([v], behind)
      | _ => none

/-- Takes the members of an object, and the brace behind them, off the front. -/
def members? (fuel : Nat) (s : List Char) :
    Option (List (Option String × Json) × List Char) :=
  match fuel with
  | 0 => none
  | fuel + 1 =>
    match skipBlanks s with
    | '"' :: rest =>
      (pieces? rest).bind fun (name, rest) =>
        match skipBlanks rest with
        | ':' :: rest =>
          (value? fuel rest).bind fun (v, rest) =>
            let m := (textOf? name, v)
            match skipBlanks rest with
            | ',' :: behind => (members? fuel behind).map fun (ms, r) => (m :: ms, r)
            | '}' :: behind => some ([m], behind)
            | _ => none
        | _ => none
    | _ => none

end

/-- The value that a text writes, if it writes one and nothing else. -/
def parse? (s : List Char) : Option Json :=
  match value? (2 * s.length + 2) s with
  | some (v, rest) => if (skipBlanks rest).isEmpty then some v else none
  | none => none

end SchemaDrift.Json
