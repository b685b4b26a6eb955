/-
  SchemaDrift.Time.Reading
  ────────────────────────
  **READING A MOMENT.**

  The date, a `T`, a `t` or a space, the time of day and the distance from universal time.
  Numbers may have fewer digits than usual, white space may stand before them and before
  separators, a year may have a sign, and a fraction any number of digits, the tenth and
  later of which do not count.
-/

import SchemaDrift.Text.Blank
import SchemaDrift.Time.Stamp

namespace SchemaDrift.Stamp

open SchemaDrift.Text

/-- The number that a row of decimal digits stands for. -/
def numberOf (digits : List Char) : Nat :=
  digits.foldl (fun n c => 10 * n + (c.toNat - '0'.toNat)) 0

/-- Takes a number of at most `width` digits, and at least one, off the front. -/
def number? (width : Nat) (s : List Char) : Option (Nat × List Char) :=
  let digits := (s.take width).takeWhile Char.isDigit
  if digits.isEmpty then none else some (numberOf digits, s.drop digits.length)

/-- Takes white space and such a number off the front. -/
def spacedNumber? (width : Nat) (s : List Char) : Option (Nat × List Char) :=
  number? width (trimStart s)

/-- Takes white space and the character `c` off the front. -/
def separator? (c : Char) (s : List Char) : Option (List Char) :=
  match trimStart s with
  | d :: rest => if d = c then some rest else none
  | [] => none

/-- Takes a year off the front; one with a sign has any number of digits. -/
def year? (s : List Char) : Option (Int × List Char) :=
  match trimStart s with
  | '-' :: rest => (number? rest.length rest).map fun (n, r) => (-(n : Int), r)
  | '+' :: rest => (number? rest.length rest).map fun (n, r) => ((n : Int), r)
  | rest => (number? 4 rest).map fun (n, r) => ((n : Int), r)

/-- Takes a fraction of a second, in nanoseconds, off the front, if there is one. -/
def fraction? (s : List Char) : Option (Nat × List Char) :=
  match s with
  | '.' :: rest =>
    (number? 9 rest).map fun (n, r) =>
      (n * Nat.pow 10 (9 - (rest.length - r.length)), r.dropWhile Char.isDigit)
  | _ => some (0, s)

/-- The two digits in front, as a number. -/
def twoDigits? (s : List Char) : Option (Nat × List Char) :=
  match s with
  | a :: b :: rest => if a.isDigit && b.isDigit then some (numberOf [a, b], rest) else none
  | _ => none

/-- Takes the distance from universal time, in minutes, off the front. -/
def offset? (s : List Char) : Option (Int × List Char) :=
  match s with
  | [] => none
  | c :: rest =>
    if c = 'Z' || c = 'z' then some (0, rest)
    else if c = '+' || c = '-' || c = '\u2212' then do
      let (hours, rest) ← twoDigits? rest
      let (minutes, rest) ← twoDigits? (rest.dropWhile fun d => d == ':' || isBlank d)
      if 60 ≤ minutes then none
      else
        let n : Int := (hours * 60 + minutes : Nat)
        return (if c = '+' then n else -n, rest)
    else none

/-- Takes the word `UTC`, in any case, or the distance from universal time off the front. -/
def zone? (s : List Char) : Option (Int × List Char) :=
  if (s.take 3).map Char.toUpper = "UTC".toList then some (0, s.drop 3) else offset? s

/-- The day before, or the day itself, or the day after, as `days` tells. -/
def shiftDay (year : Int) (month day : Nat) (days : Int) : Int × Nat × Nat :=
  if days < 0 then
    if 1 < day then (year, month, day - 1)
    else if 1 < month then (year, month - 1, daysInMonth year (month - 1))
    else (year - 1, 12, 31)
  else if 0 < days then
    if day < daysInMonth year month then (year, month, day + 1)
    else if month < 12 then (year, month + 1, 1)
    else (year + 1, 1, 1)
  else (year, month, day)

/-- The moment that is `minutes` minutes, less than a day, before the stamp. -/
def earlier? (t : Stamp) (minutes : Int) : Option Stamp :=
  let total : Int := ((t.hour * 60 + t.minute : Nat) : Int) - minutes
  let days := total.fdiv 1440
  let rest := (total.fmod 1440).toNat
  let (year, month, day) := shiftDay t.year t.month t.day days
  of? year month day (rest / 60) (rest % 60) t.second t.nanosecond

/-- The moment that a text tells. -/
def ofText? (text : String) : Option Stamp := do
  let (year, s) ← year? text.toList
  let s ← separator? '-' s
  let (month, s) ← spacedNumber? 2 s
  let s ← separator? '-' s
  let (day, s) ← spacedNumber? 2 s
  let s ← match s with
    | c :: rest => if c = 'T' || c = 't' || c = ' ' then some rest else none
    | [] => none
  let (hour, s) ← spacedNumber? 2 s
  let s ← separator? ':' s
  let (minute, s) ← spacedNumber? 2 s
  let s ← separator? ':' s
  let (second, s) ← spacedNumber? 2 s
  let (nanosecond, s) ← fraction? s
  let (offset, s) ← zone? (trimStart s)
  if !(trimStart s).isEmpty || 1440 ≤ offset.natAbs then none
  else do
    let local_ ← of? year month day hour minute second nanosecond
    local_.earlier? offset

end SchemaDrift.Stamp
