/-
  SchemaDrift.Rename.Score
  ────────────────────────
  **HOW LIKELY ONE COLUMN IS ANOTHER UNDER A NEW NAME.**

  The score weighs the likeness of the names, the equality of the types and the agreement
  of the other attributes:

      score = 0.5 · names + 0.35 · types + 0.15 · attributes

  Every product and every sum is rounded to a significand of 53 bits, so that a score is
  the same number whoever computes it.
-/

import SchemaDrift.Number.Rounding
import SchemaDrift.Table.Column
import SchemaDrift.Text.EditDistance
import SchemaDrift.Text.Lines

namespace SchemaDrift.Rename

open SchemaDrift.Number SchemaDrift.Text

/-! ## §1. Rounded arithmetic. -/

/-- The decimal fraction `n / 100`, rounded. -/
def percent (n : Nat) : Rat := toPrecision ((n : Rat) / 100)

/-- The rounded product. -/
def times (p q : Rat) : Rat := toPrecision (p * q)

/-- The rounded sum. -/
def plus (p q : Rat) : Rat := toPrecision (p + q)

/-- The rounded quotient of two counts. -/
def ratio (m n : Nat) : Rat := toPrecision ((m : Rat) / (n : Rat))

/-! ## §2. Likeness of names. -/

/-- One less the edit distance in proportion to the longer text. -/
def editRatio (a b : List Char) : Rat :=
  let longer := max a.length b.length
  if longer = 0 then 1 else toPrecision (1 - ratio (editDistance a b) longer)

/-- The different words of a name, which underscores part. -/
def words (s : List Char) : List (List Char) :=
  ((splitBy (· == '_') s).filter (!·.isEmpty)).eraseDups

/-- The number of words in both names in proportion to the number of words in either. -/
def wordOverlap (a b : List Char) : Rat :=
  let both := (words a).filter (words b).contains
  let either := words a ++ (words b).filter (!(words a).contains ·)
  if either.isEmpty then 0 else ratio both.length either.length

/-- The text without underscores. -/
def withoutUnderscores (s : List Char) : List Char := s.filter (· != '_')

/-- One name begins or ends with the other. -/
def nested (a b : List Char) : Bool :=
  b.isPrefixOf a || a.isPrefixOf b || b.isSuffixOf a || a.isSuffixOf b

/-- The likeness of two names in lower case. -/
def similarityOfLower (a b : List Char) : Rat :=
  if a = b then 1
  else if nested a b || withoutUnderscores a = withoutUnderscores b then percent 90
  else plus (times (percent 50) (editRatio a b)) (times (percent 50) (wordOverlap a b))

/-- The likeness of two names, between nought and one; case does not count. -/
def nameSimilarity (a b : String) : Rat :=
  similarityOfLower (lowercase a.toList) (lowercase b.toList)

/-! ## §3. Scores. -/

/-- The part of the attributes that two columns agree in: nullability, primary key,
uniqueness and default. -/
def attributeAgreement (old new : Column) : Rat :=
  let agree :=
    [ decide (old.nullable = new.nullable), decide (old.inPrimaryKey = new.inPrimaryKey),
      decide (old.isUnique = new.isUnique), decide (old.defaultExpr = new.defaultExpr) ]
  ratio (agree.count true) agree.length

/-- How likely `new` is `old` under a new name. -/
def score (old new : Column) : Rat :=
  let types := if old.dataType = new.dataType then 1 else percent 50
  plus
    (plus (times (percent 50) (nameSimilarity old.name new.name)) (times (percent 35) types))
    (times (percent 15) (attributeAgreement old new))

/-- A slack for rounding in comparisons with a threshold. -/
def slack : Rat := toPrecision (1 / 1000000000)

/-- A pair of this score is taken for a rename. -/
def reachesThreshold (s : Rat) : Bool := percent 30 ≤ plus s slack

/-- A rename of this score is to be confirmed by hand. -/
def needsConfirmation (s : Rat) : Bool := plus s slack < percent 70

end SchemaDrift.Rename
