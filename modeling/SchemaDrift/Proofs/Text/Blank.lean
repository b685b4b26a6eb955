/-
  SchemaDrift.Proofs.Text.Blank
  ─────────────────────────────
  **WHITE SPACE AT THE ENDS OF A TEXT.**

  White space is of no name and of no word, and no quote.  A trim of the end cuts off a
  run of the class and stops at a character that is not of it.
-/

import Mathlib.Data.List.DropRight
import SchemaDrift.Text.Blank
import SchemaDrift.Text.Alphanumeric
import SchemaDrift.Text.WordChar

namespace SchemaDrift.Text

/-! ## §1. White characters. -/

/-- What is checked of some characters one by one holds of all of them. -/
theorem forall_chars {p : Char → Prop} [DecidablePred p] {l : List Char}
    (h : l.all (fun c => decide (p c)) = true) : ∀ c ∈ l, p c := by
  intro c hc
  exact of_decide_eq_true (List.all_eq_true.1 h c hc)

/-- The numbers of the white characters. -/
def blankNumbers : List Nat :=
  [0x20, 0x09, 0x0A, 0x0B, 0x0C, 0x0D, 0x85, 0xA0, 0x1680, 0x2000, 0x2001, 0x2002, 0x2003, 0x2004,
    0x2005, 0x2006, 0x2007, 0x2008, 0x2009, 0x200A, 0x2028, 0x2029, 0x202F, 0x205F, 0x3000]

theorem mem_blankNumbers {c : Char} (h : isBlank c = true) : c.toNat ∈ blankNumbers := by
  simp only [isBlank, Bool.or_eq_true, Bool.and_eq_true, beq_iff_eq, decide_eq_true_eq] at h
  simp only [blankNumbers, List.mem_cons, List.not_mem_nil, or_false]
  omega

/-- What holds of the white characters one by one holds of white space. -/
theorem forall_blank {f : Char → Bool} (h : ∀ n ∈ blankNumbers, f (Char.ofNat n) = true) {c : Char}
    (hc : isBlank c = true) : f c = true := by
  have hn := h c.toNat (mem_blankNumbers hc)
  rwa [Char.ofNat_toNat] at hn

/-- An indent is white space. -/
theorem isBlank_of_isIndent {c : Char} (hc : isIndent c = true) : isBlank c = true := by
  unfold isIndent at hc
  rw [Bool.or_eq_true] at hc
  rcases hc with h | h
  · rw [beq_iff_eq.1 h]
    decide
  · rw [beq_iff_eq.1 h]
    decide

/-- White space is of no name. -/
theorem isIdentChar_of_isBlank {c : Char} (hc : isBlank c = true) : isIdentChar c = false := by
  have h := forall_blank (f := fun c => !isIdentChar c) (by decide +kernel) hc
  exact Bool.not_eq_true' _ ▸ h

/-- White space is of no word. -/
theorem isWordChar_of_isBlank {c : Char} (hc : isBlank c = true) : isWordChar c = false := by
  have h := forall_blank (f := fun c => !isWordChar c) (by decide +kernel) hc
  exact Bool.not_eq_true' _ ▸ h

/-- White space ends a word. -/
theorem atWordEnd_of_blanks {b : List Char} (hb : ∀ c ∈ b, isBlank c = true) :
    atWordEnd b = true := by
  cases b with
  | nil => rfl
  | cons c b =>
    show (!isWordChar c) = true
    rw [isWordChar_of_isBlank (hb c List.mem_cons_self)]
    rfl

/-! ## §2. Trims of the end. -/

/-- A run of the class at the end makes no difference. -/
theorem trimEndWhile_append_of_all {p : Char → Bool} {r : List Char} (h : ∀ c ∈ r, p c = true)
    (s : List Char) : trimEndWhile p (s ++ r) = trimEndWhile p s := by
  unfold trimEndWhile
  rw [List.reverse_append, List.dropWhile_append_of_pos]
  intro c hc
  exact h c (List.mem_reverse.1 hc)

/-- The text is what is left of it and a run of the class. -/
theorem exists_trimmed (p : Char → Bool) (s : List Char) :
    ∃ r, s = trimEndWhile p s ++ r ∧ ∀ c ∈ r, p c = true := by
  refine ⟨_, (trimEndWhile_append p s).symm, ?_⟩
  intro c hc
  exact List.all_eq_true.1 List.all_takeWhile c (List.mem_reverse.1 hc)

/-- What is left does not end with a character of the class. -/
theorem trimEndWhile_last {p : Char → Bool} {s : List Char} {c : Char}
    (h : (trimEndWhile p s).getLast? = some c) : p c = false := by
  have hne : List.rdropWhile p s ≠ [] := by
    intro hnil
    rw [show trimEndWhile p s = [] from hnil] at h
    cases h
  have hlast := List.rdropWhile_last_not p s hne
  have heq : (List.rdropWhile p s).getLast hne = c := by
    rw [show trimEndWhile p s = List.rdropWhile p s from rfl,
      List.getLast?_eq_some_getLast hne] at h
    exact Option.some.inj h
  rw [heq] at hlast
  exact Bool.eq_false_iff.2 hlast

/-- Nothing is left exactly of a text of the class. -/
theorem trimEndWhile_eq_nil_iff {p : Char → Bool} {s : List Char} :
    trimEndWhile p s = [] ↔ ∀ c ∈ s, p c = true := List.rdropWhile_eq_nil_iff

/-- A trim leaves the text without the white space in front of it and some behind. -/
theorem trim_eq (s : List Char) :
    ∃ b, s = s.takeWhile isBlank ++ (trim s ++ b) ∧ ∀ c ∈ b, isBlank c = true := by
  obtain ⟨b, hb, hblank⟩ := exists_trimmed isBlank (trimStart s)
  refine ⟨b, ?_, hblank⟩
  rw [show trim s = trimEndWhile isBlank (trimStart s) from rfl, ← hb]
  exact (List.takeWhile_append_dropWhile (p := isBlank) (l := s)).symm

/-- What stands in front of the rest is white space. -/
theorem isBlank_takeWhile (s : List Char) : ∀ c ∈ s.takeWhile isBlank, isBlank c = true :=
  fun c hc => List.all_eq_true.1 List.all_takeWhile c hc

/-- A text is the white space in front of it, what is left of it and the white space behind. -/
theorem exists_trim (s : List Char) : ∃ a b, s = a ++ (trim s ++ b)
    ∧ (∀ c ∈ a, isBlank c = true) ∧ ∀ c ∈ b, isBlank c = true := by
  obtain ⟨b, hb, hblank⟩ := trim_eq s
  exact ⟨_, b, hb, isBlank_takeWhile s, hblank⟩

end SchemaDrift.Text
