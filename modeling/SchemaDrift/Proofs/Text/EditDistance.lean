/-
  SchemaDrift.Proofs.Text.EditDistance
  ────────────────────────────────────
  **THE EDIT DISTANCE IS THE LEAST NUMBER OF EDITS.**

  `Edits s t n` says that `n` edits of single characters lead from `s` to `t`.  The table is
  filled from the front of both texts, so what is read of them stands here with its last
  character first:

      Entries u v bs xs    the numbers `xs` are the least ones that lead from `u` to `v` with
                           the first, the first two, ... characters of `bs` read as well
      Entries.next         what the next row holds, if the row above it holds that
      editDistance_least   the last entry of the last row

  Edits can be taken back, and no more of them are needed than the longer text has characters.
  So the distance is the same both ways (`editDistance_comm`) and bounded (`editDistance_le`).
-/

import Mathlib.Order.Bounds.Basic
import Mathlib.Order.MinMax
import SchemaDrift.Text.EditDistance

namespace SchemaDrift.Text

/-! ## §1. Edits. -/

/-- So many insertions, deletions and substitutions of single characters lead from one text to
another, character by character. -/
inductive Edits : List Char → List Char → Nat → Prop where
  | nil : Edits [] [] 0
  | keep {s t : List Char} {n : Nat} (c : Char) (h : Edits s t n) : Edits (c :: s) (c :: t) n
  | replace {s t : List Char} {n : Nat} (c d : Char) (h : Edits s t n) :
    Edits (c :: s) (d :: t) (n + 1)
  | delete {s t : List Char} {n : Nat} (c : Char) (h : Edits s t n) : Edits (c :: s) t (n + 1)
  | insert {s t : List Char} {n : Nat} (d : Char) (h : Edits s t n) : Edits s (d :: t) (n + 1)

namespace Edits

variable {s t s' t' : List Char} {n m : Nat}

/-- **Edits can be taken back**: an insertion one way is a deletion the other way. -/
theorem symm (h : Edits s t n) : Edits t s n := by
  induction h with
  | nil => exact nil
  | keep c _ ih => exact ih.keep c
  | replace c d _ ih => exact ih.replace d c
  | delete c _ ih => exact ih.insert c
  | insert d _ ih => exact ih.delete d

theorem append (h : Edits s t n) (h' : Edits s' t' m) : Edits (s ++ s') (t ++ t') (n + m) := by
  induction h with
  | nil => rwa [Nat.zero_add]
  | keep c _ ih => exact ih.keep c
  | replace c d _ ih =>
    rw [Nat.add_right_comm]
    exact ih.replace c d
  | delete c _ ih =>
    rw [Nat.add_right_comm]
    exact ih.delete c
  | insert d _ ih =>
    rw [Nat.add_right_comm]
    exact ih.insert d

/-- Texts may as well be edited from their ends. -/
theorem reverse (h : Edits s t n) : Edits s.reverse t.reverse n := by
  induction h with
  | nil => exact nil
  | keep c _ ih =>
    rw [List.reverse_cons, List.reverse_cons]
    exact ih.append (nil.keep c)
  | replace c d _ ih =>
    rw [List.reverse_cons, List.reverse_cons]
    exact ih.append (nil.replace c d)
  | delete c _ ih =>
    have hlast := ih.append (nil.delete c)
    rwa [List.append_nil, ← List.reverse_cons] at hlast
  | insert d _ ih =>
    have hlast := ih.append (nil.insert d)
    rwa [List.append_nil, ← List.reverse_cons] at hlast

/-- A text is written by as many insertions as it has characters. -/
theorem ofNil (t : List Char) : Edits [] t t.length := by
  induction t with
  | nil => exact nil
  | cons d t ih => exact ih.insert d

/-- No more edits are needed than the longer text has characters. -/
theorem exists_le (s t : List Char) : ∃ n, n ≤ max s.length t.length ∧ Edits s t n := by
  induction s generalizing t with
  | nil => exact ⟨t.length, Nat.le_max_right _ _, ofNil t⟩
  | cons c s ih =>
    cases t with
    | nil => exact ⟨(c :: s).length, Nat.le_max_left _ _, (ofNil (c :: s)).symm⟩
    | cons d t =>
      obtain ⟨n, hn, h⟩ := ih t
      refine ⟨n + 1, ?_, h.replace c d⟩
      rw [List.length_cons, List.length_cons]
      omega

end Edits

/-! ## §2. The least number of edits. -/

/-- No fewer edits than `n` lead from `s` to `t`. -/
def Least (s t : List Char) (n : Nat) : Prop := IsLeast {n | Edits s t n} n

variable {u v bs s t : List Char} {a b : Char} {x y z : Nat}

theorem least_nil (t : List Char) : Least [] t t.length := by
  refine ⟨Edits.ofNil t, ?_⟩
  intro n h
  induction t generalizing n with
  | nil => exact Nat.zero_le n
  | cons d t ih =>
    cases h with
    | insert _ h => exact Nat.succ_le_succ (ih h)

theorem Least.symm (h : Least s t x) : Least t s x :=
  ⟨h.1.symm, fun _ hn => h.2 (Edits.symm hn)⟩

theorem Least.unique (h : Least s t x) (h' : Least s t y) : x = y := IsLeast.unique h h'

/-- All characters of a text are to be deleted if nothing is to be left. -/
theorem Least.first (h : Least u [] x) (a : Char) : Least (a :: u) [] (x + 1) := by
  refine ⟨h.1.delete a, ?_⟩
  intro n hn
  cases hn with
  | delete _ hn => exact Nat.succ_le_succ (h.2 hn)

/-- **One more character on both sides**: it is deleted, inserted or substituted, whatever is
least. -/
theorem Least.step (habove : Least u (b :: v) x) (hleft : Least (a :: u) v y)
    (hdiagonal : Least u v z) :
    Least (a :: u) (b :: v) (min (min (x + 1) (y + 1)) (z + if a = b then 0 else 1)) := by
  constructor
  · have hcorner : Edits (a :: u) (b :: v) (z + if a = b then 0 else 1) := by
      by_cases hab : a = b
      · rw [if_pos hab, hab]
        exact hdiagonal.1.keep b
      · rw [if_neg hab]
        exact hdiagonal.1.replace a b
    rcases min_choice (min (x + 1) (y + 1)) (z + if a = b then 0 else 1) with h | h
    · rcases min_choice (x + 1) (y + 1) with h' | h'
      · rw [h, h']
        exact habove.1.delete a
      · rw [h, h']
        exact hleft.1.insert b
    · rw [h]
      exact hcorner
  · intro n hn
    -- by the last edit: what is in front of it takes no fewer edits than are needed
    cases hn with
    | keep _ hn =>
      have hz := hdiagonal.2 hn
      rw [if_pos rfl]
      omega
    | replace _ _ hn =>
      have hz := hdiagonal.2 hn
      split <;> omega
    | delete _ hn =>
      have hx := habove.2 hn
      omega
    | insert _ hn =>
      have hy := hleft.2 hn
      omega

/-! ## §3. Rows. -/

/-- The numbers are the least ones that lead from `u` to `v` with one, two, ... characters read
behind it. -/
inductive Entries (u : List Char) : List Char → List Char → List Nat → Prop where
  | nil (v : List Char) : Entries u v [] []
  | cons {v bs : List Char} {b : Char} {x : Nat} {xs : List Nat} (hx : Least u (b :: v) x)
    (h : Entries u (b :: v) bs xs) : Entries u v (b :: bs) (x :: xs)

/-- **The next row**, from the row above it. -/
theorem Entries.next {above : List Nat} (h : Entries u v bs above) (hleft : Least (a :: u) v y)
    (hdiagonal : Least u v z) : Entries (a :: u) v bs (nextEntries a y z bs above) := by
  induction h generalizing y z with
  | nil v => exact .nil v
  | cons hx _ ih => exact .cons (hx.step hleft hdiagonal) (ih (hx.step hleft hdiagonal) hx)

/-- The last of the numbers leads to all that is read. -/
theorem Entries.last {xs : List Nat} (h : Entries u v bs xs) (hx : Least u v x) :
    Least u (bs.reverse ++ v) ((x :: xs).getLastD 0) := by
  induction h generalizing x with
  | nil v => exact hx
  | cons hnext _ ih =>
    rw [List.reverse_cons, List.append_assoc, List.singleton_append]
    exact ih hnext

/-- In front of the first text there is nothing to delete. -/
theorem entries_start (v bs : List Char) :
    Entries [] v bs (List.range' (v.length + 1) bs.length) := by
  induction bs generalizing v with
  | nil => exact .nil v
  | cons b bs ih => exact .cons (least_nil (b :: v)) (ih (b :: v))

/-- A row of the table: the numbers of edits that lead from what is read of the first text to
every beginning of the second. -/
inductive Row (u t : List Char) : List Nat → Prop where
  | mk {first : Nat} {entries : List Nat} (hfirst : Least u [] first)
    (hentries : Entries u [] t entries) : Row u t (first :: entries)

theorem Row.start (t : List Char) : Row [] t (List.range (t.length + 1)) := by
  rw [List.range_eq_range', List.range'_succ]
  exact .mk (least_nil []) (entries_start [] t)

/-- One more character. -/
theorem Row.next {row : List Nat} (h : Row u t row) (a : Char) :
    Row (a :: u) t (nextRow t row a) := by
  cases h with
  | mk hfirst hentries => exact .mk (hfirst.first a) (hentries.next (hfirst.first a) hfirst)

/-- The whole first text. -/
theorem Row.foldl {row : List Nat} (h : Row u t row) (s : List Char) :
    Row (s.reverse ++ u) t (s.foldl (nextRow t) row) := by
  induction s generalizing u row with
  | nil => exact h
  | cons a s ih =>
    rw [List.foldl_cons, List.reverse_cons, List.append_assoc]
    exact ih (h.next a)

theorem Row.last {row : List Nat} (h : Row u t row) : Least u t.reverse (row.getLastD 0) := by
  cases h with
  | mk hfirst hentries =>
    have hlast := hentries.last hfirst
    rwa [List.append_nil] at hlast

/-! ## §4. The edit distance. -/

/-- **The edit distance is the least number of edits that lead from one text to the other.** -/
theorem editDistance_least (s t : List Char) : Least s t (editDistance s t) := by
  have hlast := ((Row.start t).foldl s).last
  rw [List.append_nil] at hlast
  refine ⟨?_, fun n hn => hlast.2 (Edits.reverse hn)⟩
  have hedits := Edits.reverse hlast.1
  rwa [List.reverse_reverse, List.reverse_reverse] at hedits

/-- **It is as far from one text to the other as it is back.** -/
theorem editDistance_comm (s t : List Char) : editDistance s t = editDistance t s :=
  (editDistance_least s t).unique (editDistance_least t s).symm

/-- **No more edits are needed than the longer text has characters.** -/
theorem editDistance_le (s t : List Char) : editDistance s t ≤ max s.length t.length := by
  obtain ⟨n, hn, hedits⟩ := Edits.exists_le s t
  exact ((editDistance_least s t).2 hedits).trans hn

end SchemaDrift.Text
