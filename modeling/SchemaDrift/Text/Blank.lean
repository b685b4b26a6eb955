/-
  SchemaDrift.Text.Blank
  ──────────────────────
  **WHITE SPACE, AND TEXT WITHOUT IT AT ITS ENDS.**

  White space is the property `White_Space` of the character standard.  The three trims
  cut it off the ends of a text; `trimEndWhile` cuts off any class of characters.

  Main statements:
    * `trimStart_suffix`, `trimEndWhile_append` ─── a trim only cuts, it never changes
      what it leaves;
    * `isBlank_of_isWhitespace` ─── every character the core library calls white is here.
-/

namespace SchemaDrift.Text

/-- White space: the twenty-five characters with the property `White_Space`. -/
def isBlank (c : Char) : Bool :=
  let n := c.toNat
  n == 0x20 || (0x09 ≤ n && n ≤ 0x0D) || n == 0x85 || n == 0xA0 || n == 0x1680
    || (0x2000 ≤ n && n ≤ 0x200A) || n == 0x2028 || n == 0x2029 || n == 0x202F
    || n == 0x205F || n == 0x3000

/-- The text without the leading white space. -/
def trimStart (s : List Char) : List Char := s.dropWhile isBlank

/-- The text without its longest ending made of characters of the class `p`. -/
def trimEndWhile (p : Char → Bool) (s : List Char) : List Char := (s.reverse.dropWhile p).reverse

/-- The text without the trailing white space. -/
def trimEnd (s : List Char) : List Char := trimEndWhile isBlank s

/-- The text without the white space at both ends. -/
def trim (s : List Char) : List Char := trimEnd (trimStart s)

/-- White space and a tab at most: what may stand before a mark in a line. -/
def isIndent (c : Char) : Bool := c == ' ' || c == '\t'

/-! ## Laws -/

/-- Every white character of the core library is white here. -/
theorem isBlank_of_isWhitespace (c : Char) (h : c.isWhitespace = true) : isBlank c = true := by
  simp only [Char.isWhitespace, Bool.or_eq_true, decide_eq_true_eq] at h
  rcases h with (((h | h) | h) | h) <;> subst h <;> decide

/-- Trimming the start leaves an ending of the text. -/
theorem trimStart_suffix (s : List Char) : trimStart s <:+ s := List.dropWhile_suffix _

/-- What a trim of the end cuts off is a run of the class, and the rest stays. -/
theorem trimEndWhile_append (p : Char → Bool) (s : List Char) :
    trimEndWhile p s ++ (s.reverse.takeWhile p).reverse = s := by
  rw [trimEndWhile, ← List.reverse_append, List.takeWhile_append_dropWhile, List.reverse_reverse]

end SchemaDrift.Text
