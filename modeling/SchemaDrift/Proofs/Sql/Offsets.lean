/-
  SchemaDrift.Proofs.Sql.Offsets
  ──────────────────────────────
  **WHERE THE CHARACTERS OF A TEXT STAND.**

  The classes of a text are told in the order of its characters, so that a character stands
  as many bytes into the text as there are in front of it.

      placed n gs       the glyphs `gs`, each with its offset, the first `n` bytes in
      classifyAt t      the characters of `t` with their classes and offsets
-/

import Mathlib.Data.String.Basic
import SchemaDrift.Sql.Lexical

namespace SchemaDrift.Sql

open String (utf8Len)

/-- The number of bytes of the characters of a row. -/
def size (gs : List Glyph) : Nat := utf8Len (gs.map Glyph.char)

/-- The glyphs of a row, each with the number of bytes in front of it; `start` of them are in
front of the row. -/
def placed (start : Nat) : List Glyph → List (Nat × Glyph)
  | [] => []
  | g :: gs => (start, g) :: placed (start + g.char.utf8Size) gs

/-- The characters of a text, in order, each with its byte offset and its class. -/
def classifyAt (t : List Char) : List (Nat × Glyph) := placed 0 (classify t)

@[simp] theorem size_cons (g : Glyph) (gs : List Glyph) :
    size (g :: gs) = g.char.utf8Size + size gs := Nat.add_comm _ _

@[simp] theorem size_append (gs hs : List Glyph) : size (gs ++ hs) = size gs + size hs := by
  unfold size
  rw [List.map_append, String.utf8Len_append]

theorem size_pos {gs : List Glyph} (h : gs ≠ []) : 0 < size gs := by
  cases gs with
  | nil => exact absurd rfl h
  | cons g gs =>
    rw [size_cons]
    exact Nat.add_pos_left g.char.utf8Size_pos _

theorem size_classify (t : List Char) : size (classify t) = utf8Len t := by
  unfold size
  rw [classify_map_char]

theorem placed_append (start : Nat) (gs hs : List Glyph) :
    placed start (gs ++ hs) = placed start gs ++ placed (start + size gs) hs := by
  induction gs generalizing start with
  | nil => rfl
  | cons g gs ih =>
    rw [List.cons_append, placed, placed, ih, List.cons_append, size_cons, Nat.add_assoc]

theorem placed_glyphs (start : Nat) (gs : List Glyph) : (placed start gs).map Prod.snd = gs := by
  induction gs generalizing start with
  | nil => rfl
  | cons g gs ih => rw [placed, List.map_cons, ih]

/-- What stands in front of a row moves all of it. -/
theorem placed_shift (n start : Nat) (gs : List Glyph) :
    placed (n + start) gs = (placed start gs).map fun p => (n + p.1, p.2) := by
  induction gs generalizing start with
  | nil => rfl
  | cons g gs ih => rw [placed, placed, List.map_cons, Nat.add_assoc, ih]

/-- A row lies between its two ends. -/
theorem mem_placed {start : Nat} {gs : List Glyph} {p : Nat × Glyph} (h : p ∈ placed start gs) :
    p.2 ∈ gs ∧ start ≤ p.1 ∧ p.1 < start + size gs := by
  induction gs generalizing start with
  | nil => exact absurd h List.not_mem_nil
  | cons g gs ih =>
    rw [size_cons]
    have hpos := g.char.utf8Size_pos
    rcases List.mem_cons.1 h with rfl | h
    · exact ⟨List.mem_cons_self, Nat.le_refl start, by dsimp only; omega⟩
    · obtain ⟨hmem, hfrom, hto⟩ := ih h
      exact ⟨List.mem_cons_of_mem _ hmem, by omega, by omega⟩

/-- **The classes of a text are those of all its characters, once each and in order**, and the
offset of each is the number of bytes in front of it. -/
theorem classifyAt_complete (t : List Char) :
    (classifyAt t).map (·.2.char) = t ∧ ∀ front c behind, t = front ++ c :: behind →
      ∃ cls, (classifyAt t)[front.length]? = some ((String.ofList front).utf8ByteSize, ⟨c, cls⟩) := by
  constructor
  · have hglyphs := congrArg (List.map Glyph.char) (placed_glyphs 0 (classify t))
    rwa [List.map_map, classify_map_char] at hglyphs
  · rintro front c behind rfl
    obtain ⟨gs, hs, hsplit, hgs, hhs⟩ := List.map_eq_append_iff.1
      (classify_map_char (front ++ c :: behind))
    obtain ⟨g, hs, rfl, rfl, -⟩ := List.map_eq_cons_iff.1 hhs
    have hlength : (placed 0 gs).length = front.length := by
      rw [← List.length_map (f := Prod.snd), placed_glyphs, ← hgs, List.length_map]
    refine ⟨g.cls, ?_⟩
    unfold classifyAt
    rw [hsplit, placed_append, ← hlength, List.getElem?_append_right (Nat.le_refl _), Nat.sub_self,
      String.utf8ByteSize_ofList, ← hgs]
    rw [Nat.zero_add]
    rfl

end SchemaDrift.Sql
