/-
  SchemaDrift.Proofs.Rename.Distance
  ──────────────────────────────────
  **HOW FAR ONE NAME IS FROM ANOTHER.**

  Names are compared by their edit distance, in proportion to the longer name.  The distance
  is a metric and never more than that length, and rounding takes no number past zero or one,
  so that the proportion stays between them (`editRatio_bounds`).
-/

import SchemaDrift.Proofs.Number.Rounding
import SchemaDrift.Proofs.Text.EditScript
import SchemaDrift.Rename.Score

namespace SchemaDrift.Rename

open SchemaDrift.Number SchemaDrift.Text

/-- A ratio of counts, of which the first is no larger. -/
theorem ratio_bounds {m n : Nat} (h : m ≤ n) : 0 ≤ ratio m n ∧ ratio m n ≤ 1 := by
  refine ⟨toPrecision_nonneg (by positivity), toPrecision_le_one ?_⟩
  exact div_le_one_of_le₀ (Nat.cast_le.2 h) (Nat.cast_nonneg n)

/-- **The edit distance of two texts, in proportion, is between nought and one.** -/
theorem editRatio_bounds (a b : List Char) : 0 ≤ editRatio a b ∧ editRatio a b ≤ 1 := by
  obtain ⟨hnonneg, hone⟩ := ratio_bounds (editDistance_le a b)
  unfold editRatio
  dsimp only
  split
  · exact ⟨zero_le_one, le_refl 1⟩
  · exact ⟨toPrecision_nonneg (sub_nonneg.2 hone), toPrecision_le_one (sub_le_self 1 hnonneg)⟩

/-- **The edit distance is the least number of insertions, deletions and substitutions of single
characters that turn one text into another.**  So it is a metric, and no more than the longer of
the lengths; in proportion to that it stays between nought and one, rounding included. -/
theorem editDistance_metric :
    (∀ s t : List Char, IsLeast {n | Script s t n} (editDistance s t))
      ∧ (∀ s t : List Char, editDistance s t = 0 ↔ s = t)
      ∧ (∀ s t : List Char, editDistance s t = editDistance t s)
      ∧ (∀ s u t : List Char, editDistance s t ≤ editDistance s u + editDistance u t)
      ∧ (∀ s t : List Char, editDistance s t ≤ max s.length t.length)
      ∧ ∀ s t : List Char, 0 ≤ editRatio s t ∧ editRatio s t ≤ 1 :=
  ⟨editDistance_script, fun _ _ => editDistance_eq_zero, editDistance_comm, editDistance_triangle,
    editDistance_le, editRatio_bounds⟩

/-- A substitution, another one, and an insertion at the end. -/
example : editDistance "kitten".toList "sitting".toList = 3 := by decide

end SchemaDrift.Rename
