/-
  SchemaDrift.Proofs.Rename.Score
  ───────────────────────────────
  **HOW LOW A SCORE CAN BE.**

  No part of a score is negative, and rounding takes at most a `trifle` from a number at every
  step.  So equal types alone bring a score to 0.35, less a few of them, and to the threshold
  (`reachesThreshold_of_type_eq`).
-/

import SchemaDrift.Proofs.Rename.Distance

namespace SchemaDrift.Rename

open SchemaDrift.Number SchemaDrift.Text

/-! ## §1. Rounded arithmetic. -/

/-- More than rounding changes a number between minus one and one. -/
def trifle : ℚ := 1 / 1000000

theorem small_le_trifle {b : ℚ} (hb : |b| ≤ 1) : |b| / 2 ^ precision ≤ trifle := by
  unfold trifle
  rw [div_le_div_iff₀ (by positivity) (by norm_num)]
  calc |b| * 1000000 ≤ 1 * 1000000 := by gcongr
    _ ≤ 1 * 2 ^ precision := by norm_num [precision]

theorem le_rounded {b q : ℚ} (hb : |b| ≤ 1) (h : b ≤ q) : b - trifle ≤ toPrecision q := by
  linarith [le_toPrecision h, small_le_trifle hb]

theorem rounded_le {b q : ℚ} (hb : |b| ≤ 1) (h : q ≤ b) : toPrecision q ≤ b + trifle := by
  linarith [toPrecision_le h, small_le_trifle hb]

theorem percent_bounds {n : Nat} (hn : n ≤ 100) :
    0 ≤ percent n ∧ (n : ℚ) / 100 - trifle ≤ percent n ∧ percent n ≤ (n : ℚ) / 100 + trifle := by
  have h0 : (0 : ℚ) ≤ (n : ℚ) / 100 := by positivity
  have hb : |(n : ℚ) / 100| ≤ 1 := by
    rw [abs_of_nonneg h0, div_le_one (by norm_num)]
    exact_mod_cast hn
  exact ⟨toPrecision_nonneg h0, le_rounded hb le_rfl, rounded_le hb le_rfl⟩

theorem percent_nonneg (n : Nat) : 0 ≤ percent n := toPrecision_nonneg (by positivity)

theorem times_nonneg {x y : ℚ} (hx : 0 ≤ x) (hy : 0 ≤ y) : 0 ≤ times x y :=
  toPrecision_nonneg (mul_nonneg hx hy)

theorem plus_nonneg {x y : ℚ} (hx : 0 ≤ x) (hy : 0 ≤ y) : 0 ≤ plus x y :=
  toPrecision_nonneg (add_nonneg hx hy)

theorem le_plus {a b x y : ℚ} (hab : |a + b| ≤ 1) (hx : a ≤ x) (hy : b ≤ y) :
    a + b - trifle ≤ plus x y := le_rounded hab (add_le_add hx hy)

/-! ## §2. Likeness of names. -/

theorem wordOverlap_nonneg (a b : List Char) : 0 ≤ wordOverlap a b := by
  unfold wordOverlap
  dsimp only
  split
  · exact le_rfl
  · exact toPrecision_nonneg (by positivity)

theorem nameSimilarity_nonneg (a b : String) : 0 ≤ nameSimilarity a b := by
  unfold nameSimilarity similarityOfLower
  split
  · exact zero_le_one
  split
  · exact percent_nonneg 90
  · exact plus_nonneg (times_nonneg (percent_nonneg 50) (editRatio_bounds _ _).1)
      (times_nonneg (percent_nonneg 50) (wordOverlap_nonneg _ _))

/-! ## §3. Scores. -/

theorem attributeAgreement_nonneg (old new : Column) : 0 ≤ attributeAgreement old new :=
  toPrecision_nonneg (by positivity)

/-- Equal types alone bring a score to 0.35, less a trifle at every step. -/
theorem le_score {old new : Column} (h : old.dataType = new.dataType) :
    35 / 100 - 4 * trifle ≤ score old new := by
  have hnames := times_nonneg (percent_nonneg 50) (nameSimilarity_nonneg old.name new.name)
  have hattributes := times_nonneg (percent_nonneg 15) (attributeAgreement_nonneg old new)
  have htypes : 35 / 100 - 2 * trifle ≤ times (percent 35) 1 := by
    have hpercent := (percent_bounds (show 35 ≤ 100 by norm_num)).2.1
    have hrounded := le_rounded (b := 35 / 100 - trifle) (q := percent 35 * 1)
      (by norm_num [trifle, abs_le]) (by rw [mul_one]; exact_mod_cast hpercent)
    unfold times
    linarith
  have hfirst := le_plus (by norm_num [trifle, abs_le]) hnames htypes
  have hboth := le_plus (by norm_num [trifle, abs_le]) hfirst hattributes
  unfold score
  rw [if_pos h]
  dsimp only
  linarith

/-- **Columns of the same type reach the threshold.** -/
theorem reachesThreshold_of_type_eq {old new : Column} (h : old.dataType = new.dataType) :
    reachesThreshold (score old new) = true := by
  have hpercent := (percent_bounds (show 30 ≤ 100 by norm_num)).2.2
  have hslack : 0 ≤ slack := toPrecision_nonneg (by norm_num)
  have hsum := le_plus (by norm_num [trifle, abs_le]) (le_score h) hslack
  unfold reachesThreshold
  rw [decide_eq_true_iff]
  norm_num [trifle] at hpercent hsum ⊢
  linarith

end SchemaDrift.Rename
