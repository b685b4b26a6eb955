/-
  SchemaDrift.Text.EditDistance
  ─────────────────────────────
  **HOW MANY EDITS LEAD FROM ONE TEXT TO ANOTHER.**

  The distance is computed row by row.  The row for a beginning `u` of the first text
  holds the distances from `u` to every beginning of the second; the row for one more
  character follows from it by

      here = min (above + 1) (left + 1) (diagonal + cost)
-/

namespace SchemaDrift.Text

/-- The entries of the next row behind its first, for the character `a` and the rest of
the second text.  `left` is the entry before, `diagonal` the one above that. -/
def nextEntries (a : Char) (left diagonal : Nat) : List Char → List Nat → List Nat
  | b :: bs, above :: row =>
    let cost := if a = b then 0 else 1
    let here := min (min (above + 1) (left + 1)) (diagonal + cost)
    here :: nextEntries a here above bs row
  | _, _ => []

/-- The row for one more character of the first text. -/
def nextRow (t : List Char) (row : List Nat) (a : Char) : List Nat :=
  match row with
  | [] => []
  | first :: above => (first + 1) :: nextEntries a (first + 1) first t above

/-- The least number of insertions, deletions and substitutions of single characters that
lead from `s` to `t`. -/
def editDistance (s t : List Char) : Nat :=
  (s.foldl (nextRow t) (List.range (t.length + 1))).getLastD 0

end SchemaDrift.Text
