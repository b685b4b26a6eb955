/-
  SchemaDrift.Toml.Number
  ───────────────────────
  **TOML NUMBERS AND MOMENTS.**

  Which words are integers, floating-point numbers, dates and times, and which numbers are
of a size that can be read.  A number too large is no mistake of writing: only who asks
for its value is refused.
-/

import SchemaDrift.Json.Parse
import SchemaDrift.Number.Rounding
import SchemaDrift.Time.Reading
import SchemaDrift.Toml.Basic

namespace SchemaDrift.Toml

/-! ## §1. Numbers. -/

/-- Digits of the class `p`, at least one, with single underscores between them. -/
def isDigits (p : Char → Bool) : List Char → Bool
  | [] => false
  | [c] => p c
  | c :: '_' :: rest => p c && isDigits p rest
  | c :: rest => p c && isDigits p rest

/-- The text without a sign in front. -/
def unsigned : List Char → List Char
  | '+' :: rest | '-' :: rest => rest
  | s => s

/-- A decimal number without a sign, with no needless zero in front. -/
def isDecimal (s : List Char) : Bool :=
  isDigits Char.isDigit s && (s.length ≤ 1 || s.head? ≠ some '0')

/-- An integer. -/
def isInteger (s : List Char) : Bool :=
  match s with
  | '0' :: 'x' :: rest => isDigits (fun c => (Json.hexValue? c).isSome) rest
  | '0' :: 'o' :: rest => isDigits (fun c => '0' ≤ c && c ≤ '7') rest
  | '0' :: 'b' :: rest => isDigits (fun c => c == '0' || c == '1') rest
  | _ => isDecimal (unsigned s)

/-- A floating-point number: a fraction, an exponent or both behind the whole part. -/
def isFloat (s : List Char) : Bool :=
  let rest := unsigned s
  if rest = "inf".toList || rest = "nan".toList then true
  else
    let isE := fun c : Char => c == 'e' || c == 'E'
    let mantissa := rest.takeWhile (!isE ·)
    let exponent := rest.dropWhile (!isE ·)
    let whole := mantissa.takeWhile (· != '.')
    let part := mantissa.dropWhile (· != '.')
    isDecimal whole
      && (part.isEmpty || isDigits Char.isDigit part.tail)
      && (exponent.isEmpty || isDigits Char.isDigit (unsigned exponent.tail))
      && !(part.isEmpty && exponent.isEmpty)

/-! ## §2. Sizes. -/

/-- The number that digits of a base stand for; underscores do not count. -/
def valueOf (base : Nat) (digits : List Char) : Nat :=
  (digits.filterMap Json.hexValue?).foldl (fun n d => base * n + d) 0

/-- An integer is read if it has a place in 128 bits, with a sign or without one. -/
def isIntegerInRange (s : List Char) : Bool :=
  match s with
  | '0' :: 'x' :: rest => valueOf 16 rest < 1 <<< 128
  | '0' :: 'o' :: rest => valueOf 8 rest < 1 <<< 128
  | '0' :: 'b' :: rest => valueOf 2 rest < 1 <<< 128
  | '-' :: rest => valueOf 10 rest ≤ 1 <<< 127
  | _ => valueOf 10 (unsigned s) < 1 <<< 128

/-- The power of ten of an exponent, written behind its letter. -/
def exponentOf (s : List Char) : Int :=
  match s with
  | '-' :: rest => -(valueOf 10 rest : Int)
  | _ => valueOf 10 (unsigned s)

/-- The decimal `0.d₁d₂…` with the significant digits `digits`, times ten to the power
`point`, does not round past the largest floating-point number. -/
def isFinite (digits : List Char) (point : Int) : Bool :=
  if digits.isEmpty || point ≤ 308 then true
  else if 310 ≤ point then false
  else
    valueOf 10 digits * Nat.pow 10 309 < Number.firstOverflow * Nat.pow 10 digits.length

/-- A floating-point number is read if it is finite, or is written as infinite. -/
def isFloatInRange (s : List Char) : Bool :=
  let rest := (unsigned s).filter (· != '_')
  if rest = "inf".toList || rest = "nan".toList then true
  else
    let isE := fun c : Char => c == 'e' || c == 'E'
    let mantissa := rest.takeWhile (!isE ·)
    let whole := mantissa.takeWhile (· != '.')
    let digits := mantissa.filter (· != '.')
    let significant := digits.dropWhile (· == '0')
    isFinite significant
      (whole.length - (digits.length - significant.length : Nat)
        + exponentOf (rest.dropWhile (!isE ·)).tail)

/-- A number can be read. -/
def isInRange (s : List Char) : Bool :=
  if isInteger s then isIntegerInRange s else isFloatInRange s

mutual

/-- All numbers of a value can be read. -/
def isReadable : Toml → Bool
  | .number literal => isInRange literal
  | .array vs => areReadable vs
  | .table ms => membersReadable ms
  | _ => true

/-- All numbers of some values can be read. -/
def areReadable : List Toml → Bool
  | [] => true
  | v :: rest => v.isReadable && areReadable rest

/-- All numbers of the members of a table can be read. -/
def membersReadable : List (String × Toml) → Bool
  | [] => true
  | (_, v) :: rest => v.isReadable && membersReadable rest

end

/-! ## §3. Moments. -/

/-- Takes a number of exactly `n` digits off the front. -/
def exactly? (n : Nat) (s : List Char) : Option (Nat × List Char) :=
  let digits := s.take n
  if digits.length = n && digits.all Char.isDigit then some (Stamp.numberOf digits, s.drop n)
  else none

/-- Takes the character `c` off the front. -/
def char? (c : Char) : List Char → Option (List Char)
  | d :: rest => if d = c then some rest else none
  | [] => none

/-- Takes a date off the front. -/
def date? (s : List Char) : Option (List Char) := do
  let (year, s) ← exactly? 4 s
  let (month, s) ← exactly? 2 (← char? '-' s)
  let (day, s) ← exactly? 2 (← char? '-' s)
  if 1 ≤ month && month ≤ 12 && 1 ≤ day && day ≤ daysInMonth year month then some s else none

/-- Takes a time of day off the front; its seconds may be left out. -/
def time? (s : List Char) : Option (List Char) := do
  let (hour, s) ← exactly? 2 s
  let (minute, s) ← exactly? 2 (← char? ':' s)
  if 23 < hour || 59 < minute then none
  else
    match s with
    | ':' :: rest =>
      let (second, s) ← exactly? 2 rest
      if 60 < second then none
      else
        match s with
        | '.' :: part =>
          if part.head?.any Char.isDigit then some (part.dropWhile Char.isDigit) else none
        | _ => some s
    | _ => some s

/-- The text is nothing, or a distance from universal time. -/
def isZone (s : List Char) : Bool :=
  match s with
  | [] => true
  | [c] => c == 'Z' || c == 'z'
  | c :: rest =>
    (c == '+' || c == '-')
      && (do
        let (hour, s) ← exactly? 2 rest
        let (minute, s) ← exactly? 2 (← char? ':' s)
        return hour ≤ 23 && minute ≤ 59 && s.isEmpty) == some true

/-- A date, a time of day, or both and perhaps a distance from universal time. -/
def isMomentText (s : List Char) : Bool :=
  match date? s with
  | some [] => true
  | some (c :: rest) =>
    (c == 'T' || c == 't' || c == ' ') && (time? rest).any isZone
  | none => (time? s).any (·.isEmpty)

/-! ## §4. Words. -/

/-- What the word of a number, a moment or a truth value is made of. -/
def isWordPart (c : Char) : Bool :=
  c.isAlphanum || c == '_' || c == '+' || c == '-' || c == '.' || c == ':'

/-- Takes such a word off the front.  One that is a date takes a time of day behind a
single space with it. -/
def word (s : List Char) : List Char × List Char :=
  let first := s.takeWhile isWordPart
  let rest := s.drop first.length
  match date? first, rest with
  | some [], ' ' :: behind =>
    if behind.head?.any Char.isDigit then
      let second := behind.takeWhile isWordPart
      (first ++ ' ' :: second, behind.drop second.length)
    else (first, rest)
  | _, _ => (first, rest)

/-- Takes a truth value, a number or a moment off the front. -/
def scalar? (s : List Char) : Option (Toml × List Char) :=
  let (w, rest) := word s
  if w = "true".toList then some (.boolean true, rest)
  else if w = "false".toList then some (.boolean false, rest)
  else if isInteger w || isFloat w then some (.number w, rest)
  else if isMomentText w then some (.moment w, rest)
  else none

end SchemaDrift.Toml
