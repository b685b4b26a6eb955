/-
  SchemaDrift.Number.Rounding
  ───────────────────────────
  **ROUNDING OF RATIONAL NUMBERS.**

  Two roundings of exact numbers, both to nearest with ties to the even neighbour:

      toPrecision q      to the nearest number with a significand of 53 bits
      fixed places q     the decimal text of `q` with a given number of places

  Scores are computed in exact steps, each rounded by `toPrecision`.
-/

namespace SchemaDrift.Number

/-- The integer nearest to `num / den`; of two that are equally near, the even one. -/
def roundQuotient (num den : Nat) : Nat :=
  let q := num / den
  let r := num % den
  if 2 * r < den then q
  else if den < 2 * r then q + 1
  else if q % 2 = 0 then q
  else q + 1

/-- The number of bits of a significand. -/
def precision : Nat := 53

/-- The number `num / den`, both positive, with its significand rounded to `precision`
bits: `m * 2 ^ (-shift)` for the integer `m` nearest to `num / den * 2 ^ shift`, where
`shift` brings that product between `2 ^ 52` and `2 ^ 53`. -/
def roundPositive (num den : Nat) : Rat :=
  let scaled := fun (shift : Int) =>
    if 0 ≤ shift then (num <<< shift.toNat, den) else (num, den <<< (-shift).toNat)
  let guess : Int := (precision : Int) - 1 - ((num.log2 : Int) - (den.log2 : Int))
  let (n, d) := scaled guess
  let shift := if n < d <<< (precision - 1) then guess + 1 else guess
  let (n, d) := scaled shift
  let m : Rat := (roundQuotient n d : Nat)
  if 0 ≤ shift then m / ((1 <<< shift.toNat : Nat) : Rat) else m * ((1 <<< (-shift).toNat : Nat) : Rat)

/-- The number with its significand rounded to `precision` bits. -/
def toPrecision (q : Rat) : Rat :=
  if q.num = 0 then 0
  else if 0 < q.num then roundPositive q.num.natAbs q.den
  else -roundPositive q.num.natAbs q.den

/-- The least number that rounds past the largest one with such a significand and an
exponent of eleven bits: `2 ^ 1024 - 2 ^ 970`. -/
def firstOverflow : Nat := (1 <<< 1024) - (1 <<< 970)

/-- The decimal text of a number that is not negative, with `places` digits behind the
point. -/
def fixed (places : Nat) (q : Rat) : String :=
  let unit := Nat.pow 10 places
  let n := roundQuotient (q.num.natAbs * unit) q.den
  let whole := Nat.toDigits 10 (n / unit)
  let part := Nat.toDigits 10 (n % unit)
  String.ofList (whole ++ '.' :: List.replicate (places - part.length) '0' ++ part)

end SchemaDrift.Number
