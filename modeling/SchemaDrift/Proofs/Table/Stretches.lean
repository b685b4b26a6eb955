/-
  SchemaDrift.Proofs.Table.Stretches
  ──────────────────────────────────
  **A TEXT IS CUT AT THE COMMAS OUTSIDE OF BRACKETS, AND NOWHERE ELSE.**

  The pieces of a text, put together again with a comma at every joint, are the text, and the
  joints are the commas in code at which no bracket is open (`CutAtCommas`).  By the counters of
  the cut a comma is outside where both are at nought, and that they are where every bracket
  that opens in front is closed in front.
-/

import SchemaDrift.Proofs.Table.Pairs

namespace SchemaDrift.Table

open SchemaDrift.Sql SchemaDrift.Text

/-! ## §1. Pieces and joints. -/

/-- A comma in code. -/
def comma : Glyph := ⟨',', .code⟩

/-- Between two of the pieces there is a joint with the row `front` in front of it. -/
def Joint (pieces : List (List Glyph)) (front : List Glyph) : Prop :=
  ∃ left right, left ≠ [] ∧ right ≠ [] ∧ pieces = left ++ right ∧ front = [comma].intercalate left

/-- The row is cut into the pieces at the commas outside of brackets, and at no others. -/
structure CutAtCommas (gs : List Glyph) (pieces : List (List Glyph)) : Prop where
  /-- With a comma at every joint the pieces are the row. -/
  joined : [comma].intercalate pieces = gs
  cuts : ∀ front behind, gs = front ++ comma :: behind →
    (OutsideBrackets front ↔ Joint pieces front)

variable {g : Glyph} {front piece : List Glyph} {pieces : List (List Glyph)}

theorem intercalate_glyph (g : Glyph) (piece : List Glyph) (pieces : List (List Glyph)) :
    [comma].intercalate ((g :: piece) :: pieces) = g :: [comma].intercalate (piece :: pieces) := by
  cases pieces with
  | nil => rw [List.intercalate_singleton, List.intercalate_singleton]
  | cons piece' pieces =>
    rw [List.intercalate_cons_cons, List.intercalate_cons_cons, List.cons_append, List.cons_append]

/-- An empty piece in front: the row begins with a joint. -/
theorem joint_empty (hpieces : pieces ≠ []) :
    Joint ([] :: pieces) front ↔ front = [] ∨ ∃ rest, front = comma :: rest ∧ Joint pieces rest := by
  constructor
  · rintro ⟨left, right, hleft, hright, hsplit, rfl⟩
    obtain ⟨piece, left, rfl⟩ := List.exists_cons_of_ne_nil hleft
    obtain ⟨rfl, rfl⟩ := List.cons.inj hsplit
    by_cases hnone : left = []
    · exact Or.inl (by rw [hnone, List.intercalate_singleton])
    · exact Or.inr ⟨_, by rw [List.intercalate_cons_of_ne_nil hnone]; rfl,
        left, right, hnone, hright, rfl, rfl⟩
  · rintro (rfl | ⟨_, rfl, left, right, hleft, hright, rfl, rfl⟩)
    · exact ⟨[[]], pieces, List.cons_ne_nil _ _, hpieces, rfl, List.intercalate_singleton.symm⟩
    · refine ⟨[] :: left, right, List.cons_ne_nil _ _, hright, rfl, ?_⟩
      rw [List.intercalate_cons_of_ne_nil hleft]
      rfl

/-- A glyph more in the first piece stands in front of every joint. -/
theorem joint_glyph :
    Joint ((g :: piece) :: pieces) front
      ↔ ∃ rest, front = g :: rest ∧ Joint (piece :: pieces) rest := by
  constructor
  · rintro ⟨left, right, hleft, hright, hsplit, rfl⟩
    obtain ⟨first, left, rfl⟩ := List.exists_cons_of_ne_nil hleft
    obtain ⟨rfl, rfl⟩ := List.cons.inj hsplit
    exact ⟨_, intercalate_glyph g piece left, piece :: left, right, List.cons_ne_nil _ _, hright,
      rfl, rfl⟩
  · rintro ⟨_, rfl, left, right, hleft, hright, hsplit, rfl⟩
    obtain ⟨first, left, rfl⟩ := List.exists_cons_of_ne_nil hleft
    obtain ⟨rfl, rfl⟩ := List.cons.inj hsplit
    exact ⟨(g :: piece) :: left, right, List.cons_ne_nil _ _, hright, rfl,
      (intercalate_glyph g piece left).symm⟩

/-! ## §2. The cut. -/

/-- No bracket is counted behind the row, `parens` and `brackets` of them being counted in front of
it. -/
def NoneCounted (parens brackets : Nat) (front : List Glyph) : Prop :=
  depth '(' parens front = 0 ∧ depth '[' brackets front = 0

theorem outsideBrackets_iff : OutsideBrackets front ↔ NoneCounted 0 0 front :=
  and_congr (noneOpen_iff (Or.inl rfl)) (noneOpen_iff (Or.inr rfl))

/-- **The cut loses nothing, and what it cuts at are the commas at which nothing is counted.** -/
theorem commaParts_pieces (parens brackets : Nat) (gs : List Glyph) : ∃ piece pieces,
    commaParts parens brackets gs = (piece :: pieces).map (·.map Glyph.char)
      ∧ [comma].intercalate (piece :: pieces) = gs
      ∧ ∀ front behind, gs = front ++ comma :: behind →
        (NoneCounted parens brackets front ↔ Joint (piece :: pieces) front) := by
  induction gs generalizing parens brackets with
  | nil =>
    refine ⟨[], [], rfl, List.intercalate_singleton, fun front behind hsplit => ?_⟩
    exact absurd hsplit.symm (List.append_ne_nil_of_right_ne_nil _ (List.cons_ne_nil _ _))
  | cons g gs ih =>
    by_cases hcut : (g.isCode ',' && parens = 0 && brackets = 0) = true
    · -- the glyph is a joint, and behind it the counters are at nought as before it
      obtain ⟨piece, pieces, hparts, hjoined, hcuts⟩ := ih 0 0
      have hrow : commaParts parens brackets (g :: gs) = [] :: commaParts 0 0 gs := by
        rw [commaParts, if_pos hcut]
      simp only [Bool.and_eq_true, decide_eq_true_eq] at hcut
      obtain ⟨⟨hcode, rfl⟩, rfl⟩ := hcut
      obtain rfl : g = comma := Glyph.isCode_iff.1 hcode
      refine ⟨[], piece :: pieces, ?_, ?_, fun front behind hsplit => ?_⟩
      · rw [hrow, hparts]
        rfl
      · rw [List.intercalate_cons_cons, hjoined]
        rfl
      · rw [joint_empty (List.cons_ne_nil _ _)]
        cases front with
        | nil => exact iff_of_true ⟨rfl, rfl⟩ (Or.inl rfl)
        | cons x front =>
          obtain ⟨rfl, hrest⟩ := List.cons.inj hsplit
          have hcounted : NoneCounted 0 0 (comma :: front) ↔ NoneCounted 0 0 front := Iff.rfl
          rw [hcounted, hcuts front behind hrest]
          simp
    · -- the glyph goes to the piece that follows
      obtain ⟨piece, pieces, hparts, hjoined, hcuts⟩ :=
        ih (countBrackets '(' ')' g parens) (countBrackets '[' ']' g brackets)
      refine ⟨g :: piece, pieces, ?_, ?_, fun front behind hsplit => ?_⟩
      · unfold countBrackets at hparts
        rw [commaParts, if_neg hcut]
        dsimp only
        rw [hparts]
        rfl
      · rw [intercalate_glyph, hjoined]
      · rw [joint_glyph]
        cases front with
        | nil =>
          obtain ⟨rfl, -⟩ := List.cons.inj hsplit
          refine iff_of_false ?_ ?_
          · rintro ⟨rfl, rfl⟩
            exact hcut rfl
          · rintro ⟨rest, hrest, -⟩
            cases hrest
        | cons x front =>
          obtain ⟨rfl, hrest⟩ := List.cons.inj hsplit
          have hcounted : NoneCounted parens brackets (g :: front)
            ↔ NoneCounted (countBrackets '(' ')' g parens) (countBrackets '[' ']' g brackets) front :=
            Iff.rfl
          rw [hcounted, hcuts front behind hrest]
          simp

/-- **The entries of a text are its pieces between the commas outside of brackets**, in order,
without white space around them, and without those of which nothing is left. -/
theorem splitTopLevel_pieces (t : List Char) : ∃ pieces, CutAtCommas (classify t) pieces
    ∧ splitTopLevel t
      = (pieces.map fun piece => trim (piece.map Glyph.char)).filter (!·.isEmpty) := by
  obtain ⟨piece, pieces, hparts, hjoined, hcuts⟩ := commaParts_pieces 0 0 (classify t)
  refine ⟨piece :: pieces, ⟨hjoined, fun front behind hsplit => ?_⟩, ?_⟩
  · rw [outsideBrackets_iff, hcuts front behind hsplit]
  · unfold splitTopLevel
    rw [hparts, List.map_map]
    rfl

/-- A bracket that is quoted, one that closes nothing, and one that is not closed. -/
example : splitTopLevel "a '(', b ), , c (d, e".toList
    = ["a '('".toList, "b )".toList, "c (d, e".toList] := by decide +kernel

end SchemaDrift.Table
