/-
  SchemaDrift.Proofs.Number.Rounding
  ──────────────────────────────────
  **HOW FAR ROUNDING TAKES A NUMBER.**

  A quotient is rounded to an integer at most one half away (`roundQuotient_near`).  A number is
  scaled by a power of two to `2 ^ 52` or more before that, so it is changed by at most one part in
  `2 ^ 53` (`toPrecision_near`), whatever its size and its sign.  Nothing is rounded past zero or
  past one (`toPrecision_nonneg`, `toPrecision_le_one`), which are numbers with such a significand.
-/

import Mathlib.Algebra.Order.Field.Basic
import Mathlib.Algebra.Order.Field.Power
import Mathlib.Algebra.Order.Ring.Rat
import Mathlib.Tactic.FieldSimp
import Mathlib.Tactic.Linarith
import Mathlib.Tactic.NormNum
import Mathlib.Tactic.Positivity
import SchemaDrift.Number.Rounding

namespace SchemaDrift.Number

/-! ## §1. Integers. -/

/-- A quotient and the integer it is rounded to. -/
theorem roundQuotient_near (num : Nat) {den : Nat} (hden : 0 < den) :
    |(roundQuotient num den : ℚ) - num / den| ≤ 1 / 2 := by
  have hd : (0 : ℚ) < den := Nat.cast_pos.2 hden
  have hquotient : (num : ℚ) / den = (num / den : Nat) + ((num % den : Nat) : ℚ) / den := by
    rw [div_eq_iff hd.ne', add_mul, div_mul_cancel₀ _ hd.ne', ← Nat.cast_mul, ← Nat.cast_add,
      Nat.mul_comm, Nat.div_add_mod]
  have hrest : 0 ≤ ((num % den : Nat) : ℚ) / den ∧ ((num % den : Nat) : ℚ) / den < 1 :=
    ⟨by positivity, (div_lt_one hd).2 (Nat.cast_lt.2 (Nat.mod_lt num hden))⟩
  have hdown : 2 * (num % den) ≤ den → |((num / den : Nat) : ℚ) - num / den| ≤ 1 / 2 := by
    intro h
    have hhalf : ((num % den : Nat) : ℚ) / den ≤ 1 / 2 := by
      rw [div_le_div_iff₀ hd two_pos]
      exact_mod_cast (by omega : num % den * 2 ≤ 1 * den)
    rw [hquotient, abs_le]
    constructor <;> linarith [hrest.1]
  have hup : den ≤ 2 * (num % den) → |((num / den + 1 : Nat) : ℚ) - num / den| ≤ 1 / 2 := by
    intro h
    have hhalf : 1 / 2 ≤ ((num % den : Nat) : ℚ) / den := by
      rw [div_le_div_iff₀ two_pos hd]
      exact_mod_cast (by omega : 1 * den ≤ num % den * 2)
    rw [hquotient, abs_le, Nat.cast_add, Nat.cast_one]
    constructor <;> linarith [hrest.2]
  -- it is rounded down up to the half, and up from there on
  unfold roundQuotient
  dsimp only
  split
  · exact hdown (by omega)
  split
  · exact hup (by omega)
  split
  · exact hdown (by omega)
  · exact hup (by omega)

/-- A quotient that is not above an integer is rounded to one that is not above it. -/
theorem roundQuotient_le {num den n : Nat} (h : num ≤ n * den) : roundQuotient num den ≤ n := by
  rcases Nat.eq_zero_or_pos den with rfl | hden
  · have hnum : num = 0 := Nat.le_zero.1 h
    subst hnum
    exact Nat.zero_le n
  have hquotient : num / den ≤ n := Nat.div_le_of_le_mul (h.trans (Nat.mul_comm n den).le)
  -- the quotient is rounded up only where there is a rest, so that it is below
  have hup : num % den ≠ 0 → num / den + 1 ≤ n := by
    intro hrest
    by_contra hlt
    obtain rfl : num / den = n := by omega
    have hsum := Nat.div_add_mod num den
    rw [Nat.mul_comm] at hsum
    omega
  unfold roundQuotient
  dsimp only
  split
  · exact hquotient
  split
  · exact hup (by omega)
  split
  · exact hquotient
  · exact hup (by omega)

/-! ## §2. Numbers. -/

/-- A quotient times a power of two, as numerator and denominator. -/
def scaledBy (num den : Nat) (shift : Int) : Nat × Nat :=
  if 0 ≤ shift then (num <<< shift.toNat, den) else (num, den <<< (-shift).toNat)

/-- The exponent of the power of two that is tried first. -/
def firstShift (num den : Nat) : Int :=
  (precision : Int) - 1 - ((num.log2 : Int) - (den.log2 : Int))

/-- The exponent of the power of two that brings a quotient to `2 ^ 52` or more. -/
def shiftOf (num den : Nat) : Int :=
  if (scaledBy num den (firstShift num den)).1
      < (scaledBy num den (firstShift num den)).2 <<< (precision - 1) then
    firstShift num den + 1
  else firstShift num den

/-- A quotient scaled by a power of two, rounded to an integer and scaled back. -/
def scaledBack (num den : Nat) (shift : Int) : Rat :=
  if 0 ≤ shift then
    (roundQuotient (scaledBy num den shift).1 (scaledBy num den shift).2 : Rat)
      / ((1 <<< shift.toNat : Nat) : Rat)
  else
    (roundQuotient (scaledBy num den shift).1 (scaledBy num den shift).2 : Rat)
      * ((1 <<< (-shift).toNat : Nat) : Rat)

theorem roundPositive_eq (num den : Nat) :
    roundPositive num den = scaledBack num den (shiftOf num den) := by
  unfold roundPositive scaledBack shiftOf scaledBy firstShift
  -- without the logarithms in it the two sides are compared at once
  generalize (precision : Int) - 1 - ((num.log2 : Int) - (den.log2 : Int)) = guess
  generalize precision = bits
  dsimp only

theorem scaledBy_eq (num : Nat) {den : Nat} (hden : 0 < den) (shift : Int) :
    0 < (scaledBy num den shift).2
      ∧ ((scaledBy num den shift).1 : ℚ) / (scaledBy num den shift).2 = num / den * 2 ^ shift := by
  have hd : (den : ℚ) ≠ 0 := (Nat.cast_pos.2 hden).ne'
  unfold scaledBy
  by_cases hshift : 0 ≤ shift
  · rw [if_pos hshift]
    obtain ⟨k, rfl⟩ := Int.eq_ofNat_of_zero_le hshift
    refine ⟨hden, ?_⟩
    rw [Int.toNat_natCast, Nat.shiftLeft_eq, Nat.cast_mul, Nat.cast_pow, zpow_natCast,
      div_mul_eq_mul_div]
    rfl
  · rw [if_neg hshift]
    obtain ⟨k, hk⟩ := Int.eq_ofNat_of_zero_le (show 0 ≤ -shift by omega)
    obtain rfl : shift = -(k : Int) := by omega
    rw [neg_neg, Int.toNat_natCast, Nat.shiftLeft_eq, zpow_neg, zpow_natCast]
    refine ⟨Nat.mul_pos hden (Nat.two_pow_pos k), ?_⟩
    rw [Nat.cast_mul, Nat.cast_pow, ← div_eq_mul_inv, div_div]
    rfl

theorem scaledBack_eq (num den : Nat) (shift : Int) : scaledBack num den shift
    = roundQuotient (scaledBy num den shift).1 (scaledBy num den shift).2 / 2 ^ shift := by
  unfold scaledBack
  split
  · next hshift =>
    obtain ⟨k, rfl⟩ := Int.eq_ofNat_of_zero_le hshift
    rw [Int.toNat_natCast, Nat.shiftLeft_eq, Nat.one_mul, Nat.cast_pow, zpow_natCast]
    rfl
  · next hshift =>
    obtain ⟨k, hk⟩ := Int.eq_ofNat_of_zero_le (show 0 ≤ -shift by omega)
    obtain rfl : shift = -(k : Int) := by omega
    rw [neg_neg, Int.toNat_natCast, Nat.shiftLeft_eq, Nat.one_mul, Nat.cast_pow, zpow_neg,
      zpow_natCast, div_inv_eq_mul]
    rfl

/-- The first power brings a quotient to `2 ^ 51` at least. -/
theorem le_firstShift {num den : Nat} (hnum : 0 < num) (hden : 0 < den) :
    (2 : ℚ) ^ (51 : Int) ≤ num / den * 2 ^ firstShift num den := by
  have hn : (2 : ℚ) ^ (num.log2 : Int) ≤ num := by
    rw [zpow_natCast]
    exact_mod_cast Nat.log2_self_le hnum.ne'
  have hd : (den : ℚ) ≤ 2 ^ ((den.log2 : Int) + 1) := by
    have h := (Nat.lt_log2_self (n := den)).le
    rw [← Nat.cast_succ, zpow_natCast]
    exact_mod_cast h
  have hpos : (0 : ℚ) < den := Nat.cast_pos.2 hden
  calc (2 : ℚ) ^ (51 : Int)
      = 2 ^ (num.log2 : Int) / 2 ^ ((den.log2 : Int) + 1) * 2 ^ firstShift num den := by
        rw [← zpow_sub₀ two_ne_zero, ← zpow_add₀ two_ne_zero]
        congr 1
        unfold firstShift precision
        omega
    _ ≤ num / den * 2 ^ firstShift num den := by
        gcongr

/-- A quotient is brought to `2 ^ 52` at least. -/
theorem le_shiftOf {num den : Nat} (hnum : 0 < num) (hden : 0 < den) :
    (2 : ℚ) ^ (52 : Int) ≤ num / den * 2 ^ shiftOf num den := by
  have hfirst := le_firstShift hnum hden
  obtain ⟨hpos, hscaled⟩ := scaledBy_eq num hden (firstShift num den)
  unfold shiftOf
  split
  · rw [zpow_add_one₀ two_ne_zero, ← mul_assoc]
    calc (2 : ℚ) ^ (52 : Int) = 2 ^ (51 : Int) * 2 := by rw [← zpow_add_one₀ two_ne_zero]; rfl
      _ ≤ _ := by gcongr
  · next hlarge =>
    rw [← hscaled, le_div_iff₀ (Nat.cast_pos.2 hpos)]
    rw [Nat.not_lt, Nat.shiftLeft_eq, Nat.mul_comm] at hlarge
    exact_mod_cast hlarge

/-- A positive number is changed by one part in `2 ^ 53` at most. -/
theorem roundPositive_near {num den : Nat} (hnum : 0 < num) (hden : 0 < den) :
    |roundPositive num den - num / den| ≤ num / den / 2 ^ precision := by
  obtain ⟨hpos, hscaled⟩ := scaledBy_eq num hden (shiftOf num den)
  have hnear := roundQuotient_near (scaledBy num den (shiftOf num den)).1 hpos
  have hlarge := le_shiftOf hnum hden
  rw [hscaled] at hnear
  rw [roundPositive_eq, scaledBack_eq]
  generalize shiftOf num den = shift at hnear hlarge ⊢
  generalize ((roundQuotient (scaledBy num den shift).1 (scaledBy num den shift).2 : Nat) : ℚ) = m
    at hnear ⊢
  have hpower : (0 : ℚ) < 2 ^ shift := by positivity
  calc |m / 2 ^ shift - num / den|
      = |m - num / den * 2 ^ shift| / 2 ^ shift := by
        rw [← abs_of_pos hpower, ← abs_div, abs_of_pos hpower, sub_div,
          mul_div_cancel_right₀ _ hpower.ne']
    _ ≤ 1 / 2 / 2 ^ shift := by gcongr
    _ ≤ num / den * 2 ^ shift / 2 ^ precision / 2 ^ shift := by
        gcongr ?_ / _
        rw [le_div_iff₀ (by positivity)]
        calc (1 : ℚ) / 2 * 2 ^ precision = 2 ^ (52 : Int) := by norm_num [precision]
          _ ≤ _ := hlarge
    _ = num / den / 2 ^ precision := by
        field_simp

/-- **Rounding changes a number by one part in `2 ^ 53` at most.** -/
theorem toPrecision_near (q : ℚ) : |toPrecision q - q| ≤ |q| / 2 ^ precision := by
  have hquotient : ((q.num.natAbs : Nat) : ℚ) / q.den = |q| := by
    conv_rhs => rw [← Rat.num_div_den q]
    rw [abs_div, Nat.abs_cast, Nat.cast_natAbs, Int.cast_abs]
  unfold toPrecision
  split
  · next hzero =>
    rw [Rat.num_eq_zero.1 hzero]
    norm_num
  have hnum : 0 < q.num.natAbs := Int.natAbs_pos.2 (by assumption)
  have hnear := roundPositive_near hnum q.den_pos
  rw [hquotient] at hnear
  split
  · next hpos =>
    rwa [abs_of_pos (Rat.num_pos.1 hpos)] at hnear ⊢
  · next hpos =>
    have hneg : q < 0 := by
      rw [← Rat.num_neg]
      omega
    rw [abs_of_neg hneg] at hnear ⊢
    rw [neg_sub_left, abs_neg, add_comm]
    rwa [sub_neg_eq_add] at hnear

/-- A gap between two numbers is more than the gap between what rounding may change of them. -/
theorem rounding_gap {b q : ℚ} (h : b ≤ q) :
    (|q| - |b|) / 2 ^ precision ≤ q - b ∧ (|b| - |q|) / 2 ^ precision ≤ q - b := by
  have hpower : (1 : ℚ) ≤ 2 ^ precision := by norm_num [precision]
  have hgap : q - b ≤ (q - b) * 2 ^ precision := le_mul_of_one_le_right (sub_nonneg.2 h) hpower
  have hdistance : |q - b| = q - b := abs_of_nonneg (sub_nonneg.2 h)
  constructor
  · rw [div_le_iff₀ (by positivity)]
    exact ((abs_sub_abs_le_abs_sub q b).trans hdistance.le).trans hgap
  · rw [div_le_iff₀ (by positivity)]
    exact ((abs_sub_abs_le_abs_sub b q).trans ((abs_sub_comm b q).trans hdistance).le).trans hgap

/-- A number that is not below `b` is rounded to one that is hardly below. -/
theorem le_toPrecision {b q : ℚ} (h : b ≤ q) : b - |b| / 2 ^ precision ≤ toPrecision q := by
  have hnear := (abs_le.1 (toPrecision_near q)).1
  have hgap := (rounding_gap h).1
  rw [sub_div] at hgap
  linarith

/-- A number that is not above `b` is rounded to one that is hardly above. -/
theorem toPrecision_le {b q : ℚ} (h : q ≤ b) : toPrecision q ≤ b + |b| / 2 ^ precision := by
  have hnear := (abs_le.1 (toPrecision_near q)).2
  have hgap := (rounding_gap h).2
  rw [sub_div] at hgap
  linarith

/-- Rounding keeps a number from being negative. -/
theorem toPrecision_nonneg {q : ℚ} (hq : 0 ≤ q) : 0 ≤ toPrecision q := by
  have h := le_toPrecision hq
  rwa [abs_zero, zero_div, sub_zero] at h

/-- A quotient that is not above one is scaled by a power that is a whole number. -/
theorem shiftOf_nonneg {num den : Nat} (hnum : 0 < num) (h : num ≤ den) : 0 ≤ shiftOf num den := by
  have hden : 0 < den := hnum.trans_le h
  have hone : (num : ℚ) / den ≤ 1 := (div_le_one (Nat.cast_pos.2 hden)).2 (Nat.cast_le.2 h)
  by_contra hneg
  have hpower : (2 : ℚ) ^ shiftOf num den ≤ 1 := zpow_le_one_of_nonpos₀ one_le_two (by omega)
  have hlarge := le_shiftOf hnum hden
  have hsmall : (num : ℚ) / den * 2 ^ shiftOf num den ≤ 1 :=
    mul_le_one₀ hone (by positivity) hpower
  norm_num at hlarge
  linarith

/-- **A number that is not above one is not rounded past it.** -/
theorem roundPositive_le_one {num den : Nat} (hnum : 0 < num) (h : num ≤ den) :
    roundPositive num den ≤ 1 := by
  obtain ⟨k, hk⟩ := Int.eq_ofNat_of_zero_le (shiftOf_nonneg hnum h)
  have hinteger : roundQuotient (num <<< k) den ≤ 2 ^ k := by
    refine roundQuotient_le ?_
    rw [Nat.shiftLeft_eq, Nat.mul_comm]
    exact Nat.mul_le_mul_left _ h
  rw [roundPositive_eq, scaledBack_eq, hk, zpow_natCast, div_le_one (by positivity)]
  exact_mod_cast hinteger

/-- **Rounding takes no number past one.** -/
theorem toPrecision_le_one {q : ℚ} (hq : q ≤ 1) : toPrecision q ≤ 1 := by
  rcases le_or_gt q 0 with hneg | hpos
  · have h := toPrecision_le hneg
    rw [abs_zero, zero_div, add_zero] at h
    exact h.trans zero_le_one
  · have hnum : 0 < q.num := Rat.num_pos.2 hpos
    have hle : q.num.natAbs ≤ q.den := by
      have h := Rat.num_le_denom_iff.2 hq
      omega
    unfold toPrecision
    rw [if_neg hnum.ne', if_pos hnum]
    exact roundPositive_le_one (Int.natAbs_pos.2 hnum.ne') hle

end SchemaDrift.Number
