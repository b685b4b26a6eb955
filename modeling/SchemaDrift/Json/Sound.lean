/-
  SchemaDrift.Json.Sound
  ──────────────────────
  **JSON VALUES THAT CAN BE HELD.**

  A value that is passed over may be anything that is well written.  A value that is held
  is SOUND: its strings and names are texts, its numbers have a place among the integers of
  64 bits or the floating-point numbers, and it is not too deep.

  A number is measured the quick way.  Digits are taken while they make an integer of
  64 bits, and those behind only move the point; then the integer is multiplied by a power
  of ten, both rounded, and the product has to be finite.
-/

import SchemaDrift.Json.Basic
import SchemaDrift.Number.Rounding

namespace SchemaDrift.Json

/-! ## §1. Numbers. -/

/-- The number that `n` becomes with digits behind it, as many as 64 bits hold, and the
digits left over. -/
def takeDigits (n : Nat) : List Char → Nat × List Char
  | [] => (n, [])
  | c :: rest =>
    let next := natOfDigits (c :: []) + 10 * n
    if next < UInt64.size then takeDigits next rest else (n, c :: rest)

/-- The integer `n`, of at most 64 bits, times ten to a power is finite. -/
def isFiniteProduct (n : Nat) (power : Int) : Bool :=
  if n = 0 || power ≤ 0 then true
  else if 308 < power then false
  else
    Number.roundPositive n 1 * Number.roundPositive (Nat.pow 10 power.toNat) 1
      < (Number.firstOverflow : Nat)

/-- The number that is written so is not too large. -/
def isFiniteNumber (literal : List Char) : Bool :=
  let s := literal.dropWhile (· == '-')
  let whole := s.takeWhile Char.isDigit
  let rest := s.dropWhile Char.isDigit
  let part := if rest.head? = some '.' then rest.tail.takeWhile Char.isDigit else []
  let exponent := (rest.dropWhile fun c => c == '.' || c.isDigit).tail
  let size : Int := natOfDigits (exponent.filter Char.isDigit)
  let (n, overflow) := takeDigits 0 whole
  let (n, lost) := takeDigits n part
  let power : Int := overflow.length - (part.length - lost.length : Nat)
  isFiniteProduct n (if exponent.head? = some '-' then power - size else power + size)

/-! ## §2. Values. -/

mutual

/-- The value is sound and has at most `room` levels. -/
def isSound (room : Nat) : Json → Bool
  | .halved => false
  | .number literal => isFiniteNumber literal
  | .array vs => room ≠ 0 && areSound (room - 1) vs
  | .object ms => room ≠ 0 && membersSound (room - 1) ms
  | _ => true

/-- The values are sound and have at most `room` levels each. -/
def areSound (room : Nat) : List Json → Bool
  | [] => true
  | v :: rest => v.isSound room && areSound room rest

/-- The values of the members are sound and have at most `room` levels each. -/
def membersSound (room : Nat) : List (String × Json) → Bool
  | [] => true
  | (_, v) :: rest => v.isSound room && membersSound room rest

end

end SchemaDrift.Json
