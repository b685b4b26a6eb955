/-
  SchemaDrift.Time.Stamp
  ──────────────────────
  **A MOMENT IN UNIVERSAL TIME.**

  A stamp is a date of the Gregorian calendar, carried on to years before it was made, and
  a time of day down to the nanosecond.  The sixtieth second is one that leaps.
-/

namespace SchemaDrift

/-! ## §1. The calendar. -/

/-- The year has a twenty-ninth of February. -/
def isLeapYear (year : Int) : Bool := year % 4 = 0 && (year % 100 ≠ 0 || year % 400 = 0)

/-- The number of days of a month. -/
def daysInMonth (year : Int) (month : Nat) : Nat :=
  match month with
  | 2 => if isLeapYear year then 29 else 28
  | 4 | 6 | 9 | 11 => 30
  | _ => 31

/-- There is such a moment, in a year that can be counted. -/
def isMoment (year : Int) (month day hour minute second nanosecond : Nat) : Bool :=
  -262143 ≤ year && year ≤ 262142
    && 1 ≤ month && month ≤ 12 && 1 ≤ day && day ≤ daysInMonth year month
    && hour ≤ 23 && minute ≤ 59 && second ≤ 60 && nanosecond < 1000000000

/-- A moment in universal time. -/
structure Stamp where
  year : Int
  month : Nat
  day : Nat
  hour : Nat
  minute : Nat
  second : Nat
  nanosecond : Nat := 0
  is_moment : isMoment year month day hour minute second nanosecond = true
  deriving Repr, DecidableEq

namespace Stamp

/-- The moment of these numbers, if there is one. -/
def of? (year : Int) (month day hour minute second nanosecond : Nat) : Option Stamp :=
  if h : isMoment year month day hour minute second nanosecond = true then
    some { year, month, day, hour, minute, second, nanosecond, is_moment := h }
  else none

/-! ## §2. Text. -/

/-- A number in at least `width` digits. -/
def padded (width n : Nat) : List Char :=
  let digits := Nat.toDigits 10 n
  List.replicate (width - digits.length) '0' ++ digits

/-- A year in at least four digits, with a sign if it has more or is before the first. -/
def yearText (year : Int) : List Char :=
  if year < 0 then '-' :: padded 4 year.natAbs
  else if 9999 < year then '+' :: padded 4 year.natAbs
  else padded 4 year.natAbs

/-- The date and the time of day, down to the second, with separators. -/
def joined (t : Stamp) (dash between colon : List Char) : List Char :=
  yearText t.year ++ dash ++ padded 2 t.month ++ dash ++ padded 2 t.day ++ between
    ++ padded 2 t.hour ++ colon ++ padded 2 t.minute ++ colon ++ padded 2 t.second

/-- The fraction of a second, in three, six or nine digits; none if it is nought. -/
def fraction (nanosecond : Nat) : List Char :=
  if nanosecond = 0 then []
  else if nanosecond % 1000000 = 0 then '.' :: padded 3 (nanosecond / 1000000)
  else if nanosecond % 1000 = 0 then '.' :: padded 6 (nanosecond / 1000)
  else '.' :: padded 9 nanosecond

/-- The stamp with a `T` and a `Z`. -/
def toText (t : Stamp) : String :=
  String.ofList (t.joined ['-'] ['T'] [':'] ++ fraction t.nanosecond ++ ['Z'])

/-- The stamp as a person reads it. -/
def toProse (t : Stamp) : String := String.ofList (t.joined ['-'] [' '] [':']) ++ " UTC"

/-- The digits of the stamp, down to the second. -/
def toDigits (t : Stamp) : String := String.ofList (t.joined [] [] [])

end Stamp

end SchemaDrift
