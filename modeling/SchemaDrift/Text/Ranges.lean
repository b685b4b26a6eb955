/-
  SchemaDrift.Text.Ranges
  ───────────────────────
  **CLASSES OF CHARACTERS GIVEN BY RANGES OF CODE POINTS.**
-/

namespace SchemaDrift.Text

/-- The code point lies in one of the closed ranges. -/
def inRanges (ranges : List (Nat × Nat)) (n : Nat) : Bool :=
  ranges.any fun r => r.1 ≤ n && n ≤ r.2

end SchemaDrift.Text
