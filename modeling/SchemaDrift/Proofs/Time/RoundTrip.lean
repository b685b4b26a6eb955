/-
  SchemaDrift.Proofs.Time.RoundTrip
  ─────────────────────────────────
  **A STAMP IS READ BACK FROM ITS TEXT.**

  The reader takes digits as long as there are some, up to a width; the writer pads every
  number to its width and puts a character that is no digit behind it.  So every number is
  read whole (`number?_padded`), the zeros in front count nothing (`numberOf_padded`), and a
  fraction of three, six or nine digits is scaled by as many zeros as were left out.

  Main statement: `ofText?_toText`, for every stamp, the leap second and the years with a
  sign among them.
-/

import Mathlib.Algebra.Group.Nat.Defs
import Mathlib.Data.List.TakeWhile
import Mathlib.Tactic.Common
import SchemaDrift.Proofs.Text.Blank
import SchemaDrift.Time.Reading

namespace SchemaDrift.Stamp

open SchemaDrift.Text

/-! ## §1. Padded numbers. -/

theorem padded_ne_nil (width n : Nat) : padded width n ≠ [] := by
  unfold padded
  exact List.append_ne_nil_of_right_ne_nil _ Nat.toDigits_ne_nil

theorem isDigit_padded (width n : Nat) : ∀ c ∈ padded width n, c.isDigit = true := by
  intro c hc
  rcases List.mem_append.1 hc with hc | hc
  · rw [List.eq_of_mem_replicate hc]
    rfl
  · exact Nat.isDigit_of_mem_toDigits (by decide) (by decide) hc

/-- A number that fits has as many digits as the width says. -/
theorem length_padded {width n : Nat} (hwidth : 0 < width) (hn : n < 10 ^ width) :
    (padded width n).length = width := by
  have hfits := (Nat.length_toDigits_le_iff (by decide) hwidth).2 hn
  unfold padded
  rw [List.length_append, List.length_replicate]
  omega

/-- **The zeros in front of a number count nothing.** -/
theorem numberOf_padded (width n : Nat) : numberOf (padded width n) = n := by
  have hzeros : ∀ k, numberOf (List.replicate k '0') = 0 := by
    intro k
    induction k with
    | zero => rfl
    | succ k ih => exact ih
  have hdigits : Nat.ofDigitChars 10 (Nat.toDigits 10 n) 0 = n :=
    Nat.ofDigitChars_toDigits (by decide) (by decide)
  unfold numberOf padded at *
  rw [List.foldl_append, hzeros]
  exact hdigits

/-! ## §2. Taking numbers. -/

/-- No digit is in front of the text. -/
def EndsDigits (rest : List Char) : Prop := ∀ c ∈ rest.head?, c.isDigit = false

/-- **Digits are taken whole if the width allows them.** -/
theorem number?_digits {ds rest : List Char} {width : Nat} (hds : ∀ c ∈ ds, c.isDigit = true)
    (hne : ds ≠ []) (hwidth : ds.length ≤ width) (hrest : EndsDigits rest) :
    number? width (ds ++ rest) = some (numberOf ds, rest) := by
  have htake : ((ds ++ rest).take width).takeWhile Char.isDigit = ds := by
    rw [List.take_append, List.take_of_length_le hwidth, List.takeWhile_append_of_pos hds]
    cases rest with
    | nil => rw [List.take_nil, List.takeWhile_nil, List.append_nil]
    | cons c rest =>
      cases width - ds.length with
      | zero => rw [List.take_zero, List.takeWhile_nil, List.append_nil]
      | succ k =>
        rw [List.take_succ_cons, List.takeWhile_cons_of_neg (by rw [hrest c rfl]; decide),
          List.append_nil]
  unfold number?
  dsimp only
  rw [htake, if_neg (by simpa using hne), List.drop_left]

theorem number?_padded {width n : Nat} (hwidth : 0 < width) (hn : n < 10 ^ width)
    {rest : List Char} (hrest : EndsDigits rest) :
    number? width (padded width n ++ rest) = some (n, rest) := by
  rw [number?_digits (isDigit_padded width n) (padded_ne_nil width n)
    (Nat.le_of_eq (length_padded hwidth hn)) hrest, numberOf_padded]

theorem isBlank_of_isDigit {c : Char} (hc : c.isDigit = true) : isBlank c = false := by
  by_contra hblank
  rw [Bool.not_eq_false] at hblank
  have hno := forall_blank (f := fun c => !c.isDigit) (by decide) hblank
  rw [hc] at hno
  cases hno

theorem trimStart_cons {c : Char} (hc : isBlank c = false) (s : List Char) :
    trimStart (c :: s) = c :: s := by
  unfold trimStart
  rw [List.dropWhile_cons, hc, if_neg Bool.false_ne_true]

/-- No white space is in front of a number. -/
theorem trimStart_padded (width n : Nat) (rest : List Char) :
    trimStart (padded width n ++ rest) = padded width n ++ rest := by
  cases hpadded : padded width n with
  | nil => exact absurd hpadded (padded_ne_nil width n)
  | cons c ds =>
    refine trimStart_cons (isBlank_of_isDigit (isDigit_padded width n c ?_)) (ds ++ rest)
    rw [hpadded]
    exact List.mem_cons_self

theorem spacedNumber?_padded {n : Nat} (hn : n < 100) {rest : List Char}
    (hrest : EndsDigits rest) : spacedNumber? 2 (padded 2 n ++ rest) = some (n, rest) := by
  unfold spacedNumber?
  rw [trimStart_padded]
  exact number?_padded (by decide) hn hrest

theorem separator?_cons {c : Char} (hc : isBlank c = false) (s : List Char) :
    separator? c (c :: s) = some s := by
  unfold separator?
  rw [trimStart_cons hc]
  exact if_pos rfl

/-! ## §3. The parts of a stamp. -/

theorem year?_minus {s rest : List Char} (h : trimStart s = '-' :: rest) :
    year? s = (number? rest.length rest).map fun r => (-(r.1 : Int), r.2) := by
  unfold year?
  rw [h]
  rfl

theorem year?_plus {s rest : List Char} (h : trimStart s = '+' :: rest) :
    year? s = (number? rest.length rest).map fun r => ((r.1 : Int), r.2) := by
  unfold year?
  rw [h]
  rfl

theorem year?_unsigned {s rest : List Char} {c : Char} (h : trimStart s = c :: rest)
    (hc : c.isDigit = true) : year? s = (number? 4 (c :: rest)).map fun r => ((r.1 : Int), r.2) := by
  unfold year?
  rw [h]
  split
  · next heq =>
    rw [(List.cons.inj heq).1] at hc
    exact absurd hc (by decide)
  · next heq =>
    rw [(List.cons.inj heq).1] at hc
    exact absurd hc (by decide)
  · rfl

/-- Behind a sign, the digits of a year are taken whatever their number. -/
theorem number?_signed (n : Nat) {rest : List Char} (hrest : EndsDigits rest) :
    number? (padded 4 n ++ rest).length (padded 4 n ++ rest) = some (n, rest) := by
  have hlength : (padded 4 n).length ≤ (padded 4 n ++ rest).length := by
    rw [List.length_append]
    omega
  rw [number?_digits (isDigit_padded 4 n) (padded_ne_nil 4 n) hlength hrest, numberOf_padded]

/-- **A year is read back**, with its sign if it has one. -/
theorem year?_yearText (year : Int) {rest : List Char} (hrest : EndsDigits rest) :
    year? (yearText year ++ rest) = some (year, rest) := by
  unfold yearText
  by_cases hbefore : year < 0
  · have hvalue : -(year.natAbs : Int) = year := by omega
    rw [if_pos hbefore, List.cons_append, year?_minus (trimStart_cons (by decide) _),
      number?_signed _ hrest, Option.map_some, hvalue]
  · have hvalue : (year.natAbs : Int) = year := by omega
    rw [if_neg hbefore]
    by_cases hlate : 9999 < year
    · rw [if_pos hlate, List.cons_append, year?_plus (trimStart_cons (by decide) _),
        number?_signed _ hrest, Option.map_some, hvalue]
    · rw [if_neg hlate]
      have hfour : number? 4 (padded 4 year.natAbs ++ rest) = some (year.natAbs, rest) :=
        number?_padded (by decide) (by omega) hrest
      have htrim := trimStart_padded 4 year.natAbs rest
      cases hds : padded 4 year.natAbs with
      | nil => exact absurd hds (padded_ne_nil 4 year.natAbs)
      | cons c ds =>
        have hdigit := isDigit_padded 4 year.natAbs c (by rw [hds]; exact List.mem_cons_self)
        rw [hds, List.cons_append] at htrim hfour
        rw [List.cons_append, year?_unsigned htrim hdigit, hfour, Option.map_some, hvalue]

/-- Digits behind a point are a fraction, scaled by the digits that were left out. -/
theorem fraction?_padded {width n : Nat} (hwidth : 0 < width) (hnine : width ≤ 9)
    (hn : n < 10 ^ width) :
    fraction? ('.' :: padded width n ++ ['Z']) = some (n * Nat.pow 10 (9 - width), ['Z']) := by
  have hends : EndsDigits ['Z'] := by
    intro c hc
    obtain rfl := Option.some.inj hc
    rfl
  have hlength := length_padded hwidth hn
  rw [List.cons_append]
  show (number? 9 (padded width n ++ ['Z'])).map (fun r =>
    (r.1 * Nat.pow 10 (9 - ((padded width n ++ ['Z']).length - r.2.length)),
      r.2.dropWhile Char.isDigit)) = _
  rw [number?_digits (isDigit_padded width n) (padded_ne_nil width n) (by omega) hends,
    numberOf_padded, Option.map_some, List.length_append, hlength]
  have hdigits : width + ['Z'].length - ['Z'].length = width := by
    rw [Nat.add_sub_cancel]
  rw [hdigits]
  rfl

/-- **A fraction is read back.** -/
theorem fraction?_fraction {n : Nat} (hn : n < 1000000000) :
    fraction? (fraction n ++ ['Z']) = some (n, ['Z']) := by
  unfold fraction
  by_cases hnone : n = 0
  · rw [if_pos hnone, hnone]
    rfl
  · rw [if_neg hnone]
    by_cases hmilli : n % 1000000 = 0
    · rw [if_pos hmilli, fraction?_padded (by decide) (by decide) (by omega)]
      have hscaled : n / 1000000 * Nat.pow 10 (9 - 3) = n := by
        show n / 1000000 * 1000000 = n
        omega
      rw [hscaled]
    · rw [if_neg hmilli]
      by_cases hmicro : n % 1000 = 0
      · rw [if_pos hmicro, fraction?_padded (by decide) (by decide) (by omega)]
        have hscaled : n / 1000 * Nat.pow 10 (9 - 6) = n := by
          show n / 1000 * 1000 = n
          omega
        rw [hscaled]
      · rw [if_neg hmicro, fraction?_padded (by decide) (by decide) (by omega)]
        have hscaled : n * Nat.pow 10 (9 - 9) = n := by
          show n * 1 = n
          omega
        rw [hscaled]

/-! ## §4. Whole stamps. -/

/-- The numbers of a stamp are those of a moment. -/
theorem of?_self (t : Stamp) :
    of? t.year t.month t.day t.hour t.minute t.second t.nanosecond = some t := by
  unfold of?
  rw [dif_pos t.is_moment]

/-- What is known of the numbers of a stamp. -/
theorem bounds (t : Stamp) : t.month ≤ 12 ∧ t.day ≤ 31 ∧ t.hour ≤ 23 ∧ t.minute ≤ 59
    ∧ t.second ≤ 60 ∧ t.nanosecond < 1000000000 := by
  have h := t.is_moment
  unfold isMoment at h
  simp only [Bool.and_eq_true, decide_eq_true_eq] at h
  obtain ⟨⟨⟨⟨⟨⟨⟨⟨⟨-, -⟩, -⟩, hmonth⟩, -⟩, hday⟩, hhour⟩, hminute⟩, hsecond⟩, hnano⟩ := h
  have hdays : daysInMonth t.year t.month ≤ 31 := by
    unfold daysInMonth
    split
    · split
      · decide
      · decide
    · decide
    · decide
    · decide
    · decide
    · decide
  exact ⟨hmonth, Nat.le_trans hday hdays, hhour, hminute, hsecond, hnano⟩

/-- Nothing is earlier by no minutes. -/
theorem earlier?_zero (t : Stamp) : t.earlier? 0 = some t := by
  obtain ⟨-, -, hhour, hminute, -, -⟩ := t.bounds
  have htotal : ((t.hour * 60 + t.minute : Nat) : Int) - 0 = (t.hour * 60 + t.minute : Nat) :=
    Int.sub_zero _
  have hdays : ((t.hour * 60 + t.minute : Nat) : Int).fdiv 1440 = 0 := by
    rw [Int.fdiv_eq_ediv_of_nonneg _ (by decide)]
    omega
  have hrest : (((t.hour * 60 + t.minute : Nat) : Int).fmod 1440).toNat
      = t.hour * 60 + t.minute := by
    rw [Int.fmod_eq_emod_of_nonneg _ (by decide)]
    omega
  have hhours : (t.hour * 60 + t.minute) / 60 = t.hour := by omega
  have hminutes : (t.hour * 60 + t.minute) % 60 = t.minute := by omega
  unfold earlier?
  dsimp only
  rw [htotal, hdays, hrest, hhours, hminutes]
  exact t.of?_self

theorem endsDigits_cons {c : Char} (hc : c.isDigit = false) (rest : List Char) :
    EndsDigits (c :: rest) := by
  intro d hd
  obtain rfl := Option.some.inj hd
  exact hc

/-- No digit is in front of a fraction and a `Z`. -/
theorem endsDigits_fraction (n : Nat) : EndsDigits (fraction n ++ ['Z']) := by
  unfold fraction
  split
  · exact endsDigits_cons rfl _
  · split
    · exact endsDigits_cons rfl _
    · split
      · exact endsDigits_cons rfl _
      · exact endsDigits_cons rfl _

theorem toList_toText (t : Stamp) : t.toText.toList = yearText t.year ++ '-' ::
    (padded 2 t.month ++ '-' :: (padded 2 t.day ++ 'T' :: (padded 2 t.hour ++ ':' ::
      (padded 2 t.minute ++ ':' :: (padded 2 t.second ++ (fraction t.nanosecond ++ ['Z'])))))) := by
  unfold toText joined
  rw [String.toList_ofList]
  simp only [List.append_assoc, List.cons_append, List.nil_append]

/-- **Every stamp is read back from its text.** -/
theorem ofText?_toText (t : Stamp) : ofText? t.toText = some t := by
  obtain ⟨hmonth, hday, hhour, hminute, hsecond, hnano⟩ := t.bounds
  have hdash : isBlank '-' = false := by decide
  have hcolon : isBlank ':' = false := by decide
  unfold ofText?
  rw [toList_toText, year?_yearText _ (endsDigits_cons rfl _), Option.bind_eq_bind,
    Option.bind_some]
  -- the date
  dsimp only
  rw [separator?_cons hdash, Option.bind_eq_bind, Option.bind_some,
    spacedNumber?_padded (by omega) (endsDigits_cons rfl _), Option.bind_eq_bind, Option.bind_some]
  dsimp only
  rw [separator?_cons hdash, Option.bind_some,
    spacedNumber?_padded (by omega) (endsDigits_cons rfl _), Option.bind_some]
  -- the time of day
  dsimp only
  rw [if_pos (by decide), Option.bind_some,
    spacedNumber?_padded (by omega) (endsDigits_cons rfl _), Option.bind_some]
  dsimp only
  rw [separator?_cons hcolon, Option.bind_some,
    spacedNumber?_padded (by omega) (endsDigits_cons rfl _), Option.bind_some]
  dsimp only
  rw [separator?_cons hcolon, Option.bind_some,
    spacedNumber?_padded (by omega) (endsDigits_fraction _), Option.bind_some]
  dsimp only
  rw [fraction?_fraction hnano, Option.bind_some]
  dsimp only
  -- the distance from universal time, which is none
  have hzone : zone? (trimStart ['Z']) = some (0, []) := by decide
  rw [hzone, Option.bind_some]
  dsimp only
  rw [if_neg (by decide), of?_self, Option.bind_eq_bind, Option.bind_some]
  exact t.earlier?_zero

end SchemaDrift.Stamp
