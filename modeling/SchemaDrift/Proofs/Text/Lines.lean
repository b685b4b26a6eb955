/-
  SchemaDrift.Proofs.Text.Lines
  ─────────────────────────────
  **LINES ONE BY ONE.**

  A text is empty, or one line without a line feed, or a line with its line feed in front
  of another text (`lines_rec`).  Two texts have their lines one behind the other if the
  first ends with a line feed (`lines_append`).  What stands behind the last line feed is the
  line that a text ends in (`lastLine`).  A text is of one line if it has no line feed
  (`Inline`).
-/

import Mathlib.Data.List.DropRight
import SchemaDrift.Text.Lines

namespace SchemaDrift.Text

/-! ## §1. Lines. -/

/-- A list without an element of the class is not cut. -/
theorem splitAfter_none {α : Type} {p : α → Bool} {l : List α} (h : ∀ a ∈ l, p a = false) :
    splitAfter p l = if l.isEmpty then [] else [l] := by
  induction l with
  | nil => rfl
  | cons a l ih =>
    rw [splitAfter, h a List.mem_cons_self, ih fun a ha => h a (List.mem_cons_of_mem _ ha)]
    cases l with
    | nil => rfl
    | cons b l => rfl

/-- A list is cut behind its first element of the class. -/
theorem splitAfter_first {α : Type} {p : α → Bool} {l : List α} (h : ∀ a ∈ l, p a = false) {x : α}
    (hx : p x = true) (r : List α) : splitAfter p (l ++ x :: r) = (l ++ [x]) :: splitAfter p r := by
  induction l with
  | nil => simp [splitAfter, hx]
  | cons a l ih =>
    have ih := ih fun a ha => h a (List.mem_cons_of_mem _ ha)
    rw [List.cons_append, splitAfter, ih, h a List.mem_cons_self]
    rfl

@[simp] theorem lines_nil : lines [] = [] := rfl

theorem not_feed {a : List Char} (ha : '\n' ∉ a) : ∀ c ∈ a, (c == '\n') = false := by
  intro c hc
  have hne : c ≠ '\n' := by
    rintro rfl
    exact ha hc
  simpa using hne

/-- The first line of a text, with its line feed. -/
theorem lines_line {a : List Char} (ha : '\n' ∉ a) (b : List Char) :
    lines (a ++ '\n' :: b) = (a ++ ['\n']) :: lines b :=
  splitAfter_first (not_feed ha) rfl b

/-- A last line without a line feed. -/
theorem lines_last {a : List Char} (ha : '\n' ∉ a) (hne : a ≠ []) : lines a = [a] := by
  unfold lines
  rw [splitAfter_none (not_feed ha), List.isEmpty_eq_false_iff.2 hne]
  rfl

/-- **A text is built of lines.** -/
theorem lines_rec {motive : List Char → Prop} (nil : motive [])
    (last : ∀ a, '\n' ∉ a → a ≠ [] → motive a)
    (line : ∀ a b, '\n' ∉ a → motive b → motive (a ++ '\n' :: b)) (t : List Char) : motive t := by
  generalize hn : t.length = n
  induction n using Nat.strongRecOn generalizing t with
  | _ n ih =>
    by_cases h : '\n' ∈ t
    · obtain ⟨a, b, rfl, ha⟩ := List.eq_append_cons_of_mem h
      refine line a b ha (ih b.length ?_ b rfl)
      rw [← hn, List.length_append, List.length_cons]
      omega
    · by_cases hne : t = []
      · rw [hne]
        exact nil
      · exact last t h hne

/-- Texts have their lines one behind the other if each ends with a line feed. -/
theorem lines_append {a : List Char} (ha : a = [] ∨ a.getLast? = some '\n') (b : List Char) :
    lines (a ++ b) = lines a ++ lines b := by
  induction a using lines_rec with
  | nil => rfl
  | last a hfeed hne =>
    rcases ha with ha | ha
    · exact absurd ha hne
    · exact absurd (List.mem_of_getLast? ha) hfeed
  | line a c hfeed ih =>
    have hc : c = [] ∨ c.getLast? = some '\n' := by
      rcases ha with ha | ha
      · exact absurd ha (by simp)
      · cases c with
        | nil => exact Or.inl rfl
        | cons d c =>
          exact Or.inr (by simpa [List.getLast?_append, List.getLast?_cons_cons] using ha)
    rw [List.append_assoc, List.cons_append, lines_line hfeed, lines_line hfeed, ih hc]
    rfl

/-- Lines that are put together, each with a line feed, are the lines of the text. -/
theorem lines_flatMap {ls : List (List Char)} (h : ∀ l ∈ ls, '\n' ∉ l) :
    lines (ls.flatMap (· ++ ['\n'])) = ls.map (· ++ ['\n']) := by
  induction ls with
  | nil => rfl
  | cons l ls ih =>
    rw [List.flatMap_cons, List.append_assoc, List.map_cons]
    show lines (l ++ '\n' :: ls.flatMap (· ++ ['\n'])) = _
    rw [lines_line (h l List.mem_cons_self), ih fun l hl => h l (List.mem_cons_of_mem _ hl)]

/-! ## §2. The last line. -/

/-- No line is begun at the end of the text. -/
def EndsLine (t : List Char) : Prop := t = [] ∨ t.getLast? = some '\n'

instance (t : List Char) : Decidable (EndsLine t) :=
  inferInstanceAs (Decidable (t = [] ∨ t.getLast? = some '\n'))

/-- Neither is behind lines that are put behind it. -/
theorem EndsLine.append_lines {a b c : List Char} (hab : EndsLine (a ++ b)) (hc : EndsLine c) :
    EndsLine (a ++ (b ++ c)) := by
  rcases hc with rfl | hc
  · rw [List.append_nil]
    exact hab
  · right
    rw [List.getLast?_append, List.getLast?_append, hc]
    rfl

/-- What stands behind the last line feed of a text. -/
def lastLine (t : List Char) : List Char := t.rtakeWhile (· != '\n')

theorem lastLine_concat (t : List Char) (c : Char) :
    lastLine (t ++ [c]) = if c = '\n' then [] else lastLine t ++ [c] := by
  unfold lastLine
  rw [List.rtakeWhile_concat]
  by_cases hc : c = '\n'
  · simp [hc]
  · simp [hc]

theorem lastLine_of_endsLine {t : List Char} (h : EndsLine t) : lastLine t = [] := by
  rcases List.eq_nil_or_concat t with rfl | ⟨u, c, rfl⟩
  · rfl
  · rw [List.concat_eq_append] at h ⊢
    have hc : c = '\n' := by
      rcases h with h | h
      · exact absurd h (by simp)
      · rw [List.getLast?_concat] at h
        exact Option.some.inj h
    rw [lastLine_concat, if_pos hc]

/-- The last line goes on with what is put behind the text. -/
theorem lastLine_append (a b : List Char) :
    ∃ u, '\n' :: (lastLine a ++ b) = u ++ '\n' :: lastLine (a ++ b) := by
  induction b using List.reverseRecOn with
  | nil => exact ⟨[], by simp⟩
  | append_singleton b c ih =>
    obtain ⟨u, hu⟩ := ih
    rw [← List.append_assoc, ← List.append_assoc, ← List.cons_append, hu, lastLine_concat]
    by_cases hc : c = '\n'
    · rw [if_pos hc, hc]
      exact ⟨u ++ '\n' :: lastLine (a ++ b), rfl⟩
    · rw [if_neg hc]
      exact ⟨u, by simp⟩

/-- A text is whole lines and its last one. -/
theorem exists_lastLine (t : List Char) : ∃ u, t = u ++ lastLine t ∧ EndsLine u := by
  obtain ⟨u, hu⟩ := lastLine_append [] t
  rw [List.nil_append, show lastLine [] = [] from rfl, List.nil_append] at hu
  cases u with
  | nil =>
    rw [List.nil_append] at hu
    exact ⟨[], (List.cons.inj hu).2, Or.inl rfl⟩
  | cons c u =>
    refine ⟨u ++ ['\n'], ?_, Or.inr (List.getLast?_concat ..)⟩
    rw [List.append_assoc]
    exact (List.cons.inj hu).2

/-! ## §3. Texts of one line. -/

/-- The text has no line feed. -/
def Inline (s : String) : Prop := '\n' ∉ s.toList

instance (s : String) : Decidable (Inline s) := by unfold Inline; infer_instance

/-- A text that is given by its characters. -/
theorem inline_ofList {l : List Char} (h : '\n' ∉ l) : Inline (String.ofList l) := by
  unfold Inline
  rw [String.toList_ofList]
  exact h

theorem inline_append {a b : String} : Inline (a ++ b) ↔ Inline a ∧ Inline b := by
  unfold Inline
  rw [String.toList_append, List.mem_append, not_or]

theorem inline_intercalate {separator : String} {l : List String} (hs : Inline separator)
    (hl : ∀ s ∈ l, Inline s) : Inline (separator.intercalate l) := by
  unfold Inline at hs hl ⊢
  rw [String.toList_intercalate]
  induction l with
  | nil => simp
  | cons a l ih =>
    have ha := hl a List.mem_cons_self
    have hrest := ih fun s hs => hl s (List.mem_cons_of_mem _ hs)
    cases l with
    | nil => simpa using ha
    | cons b l =>
      rw [List.map_cons, List.map_cons, List.intercalate_cons_cons, List.mem_append,
        List.mem_append, not_or, not_or]
      exact ⟨⟨ha, hs⟩, hrest⟩

/-- A letter in upper case is no line feed. -/
theorem eq_feed_of_toUpper {c : Char} (h : c.toUpper = '\n') : c = '\n' := by
  unfold Char.toUpper at h
  split at h
  · next hc =>
    have hval := congrArg (fun c : Char => c.val.toNat) h
    have hlow : 97 ≤ c.val.toNat := UInt32.le_iff_toNat_le.1 hc.1
    have hhigh : c.val.toNat ≤ 122 := UInt32.le_iff_toNat_le.1 hc.2
    have hshift : ('A'.val - 'a'.val).toNat = 4294967264 := by decide
    have hfeed : ('\n' : Char).val.toNat = 10 := by decide
    simp only [UInt32.toNat_add] at hval
    rw [hshift, hfeed] at hval
    omega
  · exact h

end SchemaDrift.Text
