/-
  SchemaDrift.Proofs.Text.EditScript
  ──────────────────────────────────
  **THE EDIT DISTANCE IS THE LENGTH OF A SHORTEST SCRIPT, AND A METRIC.**

  A script leads from one text to another, one character being inserted, deleted or
  substituted at a time, at any place.  `Edits` goes through both texts character by character
  instead.  Each can be turned into the other, and none gets longer:

      Edits.script            edits, made one by one, are a script
      Edits.split             edits of a text in two parts are edits of each
      Edit.before             an edit in front of others is one of them, or one more
      editDistance_script     the edit distance is the length of a shortest script

  Scripts can be read backwards and one behind the other, and an empty one changes nothing.
  So the distance is a metric.
-/

import SchemaDrift.Proofs.Text.EditDistance

namespace SchemaDrift.Text

/-! ## §1. Scripts. -/

/-- One character of a text is inserted, deleted or substituted. -/
inductive Edit : List Char → List Char → Prop where
  | insert (a b : List Char) (c : Char) : Edit (a ++ b) (a ++ c :: b)
  | delete (a b : List Char) (c : Char) : Edit (a ++ c :: b) (a ++ b)
  | substitute (a b : List Char) (c d : Char) : Edit (a ++ c :: b) (a ++ d :: b)

/-- So many edits, one behind the other, turn one text into another. -/
inductive Script : List Char → List Char → Nat → Prop where
  | done (s : List Char) : Script s s 0
  | step {s u t : List Char} {n : Nat} (h : Edit s u) (hrest : Script u t n) : Script s t (n + 1)

variable {s t u w a b : List Char} {n m : Nat}

theorem Edit.symm (h : Edit s t) : Edit t s := by
  cases h with
  | insert a b c => exact .delete a b c
  | delete a b c => exact .insert a b c
  | substitute a b c d => exact .substitute a b d c

theorem Edit.cons (h : Edit s t) (x : Char) : Edit (x :: s) (x :: t) := by
  cases h with
  | insert a b c => exact .insert (x :: a) b c
  | delete a b c => exact .delete (x :: a) b c
  | substitute a b c d => exact .substitute (x :: a) b c d

/-- An edit puts at most one character in the place of at most one. -/
theorem Edit.spot (h : Edit s t) : ∃ a x y b, s = a ++ (x ++ b) ∧ t = a ++ (y ++ b)
    ∧ x.length ≤ 1 ∧ y.length ≤ 1 := by
  cases h with
  | insert a b c => exact ⟨a, [], [c], b, rfl, rfl, Nat.zero_le 1, le_refl 1⟩
  | delete a b c => exact ⟨a, [c], [], b, rfl, rfl, le_refl 1, Nat.zero_le 1⟩
  | substitute a b c d => exact ⟨a, [c], [d], b, rfl, rfl, le_refl 1, le_refl 1⟩

namespace Script

theorem cons (h : Script s t n) (x : Char) : Script (x :: s) (x :: t) n := by
  induction h with
  | done s => exact done (x :: s)
  | step hedit _ ih => exact step (hedit.cons x) ih

/-- Scripts are read one behind the other. -/
theorem trans (h : Script s u n) (h' : Script u t m) : Script s t (n + m) := by
  induction h with
  | done s => rwa [Nat.zero_add]
  | step hedit _ ih =>
    rw [Nat.add_right_comm]
    exact step hedit (ih h')

/-- Scripts can be read backwards. -/
theorem symm (h : Script s t n) : Script t s n := by
  induction h with
  | done s => exact done s
  | step hedit _ ih => exact ih.trans (step hedit.symm (done _))

/-- An empty script changes nothing. -/
theorem zero_iff : Script s t 0 ↔ s = t := by
  constructor
  · intro h
    cases h with
    | done s => rfl
  · rintro rfl
    exact done s

end Script

/-! ## §2. Scripts and edits. -/

namespace Edits

theorem refl (s : List Char) : Edits s s 0 := by
  induction s with
  | nil => exact nil
  | cons c s ih => exact ih.keep c

/-- Edits character by character can be made one by one. -/
theorem script (h : Edits s t n) : Script s t n := by
  induction h with
  | nil => exact .done []
  | keep c _ ih => exact ih.cons c
  | @replace s t n c d _ ih => exact .step (.substitute [] s c d) (ih.cons d)
  | @delete s t n c _ ih => exact .step (.delete [] s c) ih
  | @insert s t n d _ ih => exact .step (.insert [] s d) (ih.cons d)

/-- **Edits of a text in two parts are edits of each part.** -/
theorem split (h : Edits s t n) (hs : s = a ++ b) : ∃ t₁ t₂ n₁ n₂, t = t₁ ++ t₂ ∧ n = n₁ + n₂
    ∧ Edits a t₁ n₁ ∧ Edits b t₂ n₂ := by
  induction h generalizing a with
  | nil =>
    obtain ⟨rfl, rfl⟩ := List.append_eq_nil_iff.1 hs.symm
    exact ⟨[], [], 0, 0, rfl, rfl, nil, nil⟩
  | @keep s t n c h ih =>
    rcases List.cons_eq_append_iff.1 hs with ⟨rfl, rfl⟩ | ⟨a, rfl, hs'⟩
    · exact ⟨[], c :: t, 0, n, rfl, (Nat.zero_add _).symm, nil, h.keep c⟩
    · obtain ⟨t₁, t₂, n₁, n₂, rfl, rfl, h₁, h₂⟩ := ih hs'
      exact ⟨c :: t₁, t₂, n₁, n₂, rfl, rfl, h₁.keep c, h₂⟩
  | @replace s t n c d h ih =>
    rcases List.cons_eq_append_iff.1 hs with ⟨rfl, rfl⟩ | ⟨a, rfl, hs'⟩
    · exact ⟨[], d :: t, 0, n + 1, rfl, (Nat.zero_add _).symm, nil, h.replace c d⟩
    · obtain ⟨t₁, t₂, n₁, n₂, rfl, rfl, h₁, h₂⟩ := ih hs'
      exact ⟨d :: t₁, t₂, n₁ + 1, n₂, rfl, Nat.add_right_comm _ _ _, h₁.replace c d, h₂⟩
  | @delete s t n c h ih =>
    rcases List.cons_eq_append_iff.1 hs with ⟨rfl, rfl⟩ | ⟨a, rfl, hs'⟩
    · exact ⟨[], t, 0, n + 1, rfl, (Nat.zero_add _).symm, nil, h.delete c⟩
    · obtain ⟨t₁, t₂, n₁, n₂, rfl, rfl, h₁, h₂⟩ := ih hs'
      exact ⟨t₁, t₂, n₁ + 1, n₂, rfl, Nat.add_right_comm _ _ _, h₁.delete c, h₂⟩
  | @insert s t n d h ih =>
    obtain ⟨t₁, t₂, n₁, n₂, rfl, rfl, h₁, h₂⟩ := ih hs
    exact ⟨d :: t₁, t₂, n₁ + 1, n₂, rfl, Nat.add_right_comm _ _ _, h₁.insert d, h₂⟩

/-- An edit makes a text longer by at most one character. -/
theorem length_le (h : Edits s t n) : t.length ≤ s.length + n := by
  induction h with
  | nil => exact le_refl 0
  | keep c _ ih =>
    rw [List.length_cons, List.length_cons]
    omega
  | replace c d _ ih =>
    rw [List.length_cons, List.length_cons]
    omega
  | delete c _ ih =>
    rw [List.length_cons]
    omega
  | insert d _ ih =>
    rw [List.length_cons]
    omega

end Edits

/-- **An edit in front of others**: what it puts there is edited with one edit more at most,
since it is one character. -/
theorem Edit.before (h : Edit s u) (h' : Edits u t n) : ∃ m, m ≤ n + 1 ∧ Edits s t m := by
  obtain ⟨a, x, y, b, rfl, rfl, hx, hy⟩ := h.spot
  obtain ⟨t₁, rest, n₁, k, rfl, rfl, h₁, hrest⟩ := h'.split rfl
  obtain ⟨w, t₂, k₁, n₂, rfl, rfl, hw, h₂⟩ := hrest.split rfl
  obtain ⟨k', hk', hx'⟩ := Edits.exists_le x w
  have hlength := hw.length_le
  refine ⟨n₁ + (k' + n₂), ?_, h₁.append (hx'.append h₂)⟩
  omega

/-- A script takes no fewer edits than go through both texts character by character. -/
theorem Script.exists_edits (h : Script s t n) : ∃ m, m ≤ n ∧ Edits s t m := by
  induction h with
  | done s => exact ⟨0, le_refl 0, Edits.refl s⟩
  | step hedit _ ih =>
    obtain ⟨m, hm, hedits⟩ := ih
    obtain ⟨m', hm', hedits'⟩ := hedit.before hedits
    exact ⟨m', by omega, hedits'⟩

/-! ## §3. The distance. -/

/-- **The edit distance is the length of a shortest script.** -/
theorem editDistance_script (s t : List Char) : IsLeast {n | Script s t n} (editDistance s t) := by
  obtain ⟨hedits, hleast⟩ := editDistance_least s t
  refine ⟨Edits.script hedits, fun n hn => ?_⟩
  obtain ⟨m, hm, hm'⟩ := Script.exists_edits hn
  exact (hleast hm').trans hm

/-- Only from a text to itself it is no distance. -/
theorem editDistance_eq_zero : editDistance s t = 0 ↔ s = t := by
  rw [← Script.zero_iff]
  constructor
  · intro h
    have hscript : Script s t (editDistance s t) := (editDistance_script s t).1
    rwa [h] at hscript
  · intro h
    exact Nat.le_zero.1 ((editDistance_script s t).2 h)

/-- A way round is no shorter. -/
theorem editDistance_triangle (s u t : List Char) :
    editDistance s t ≤ editDistance s u + editDistance u t :=
  (editDistance_script s t).2 (Script.trans (editDistance_script s u).1 (editDistance_script u t).1)

end SchemaDrift.Text
