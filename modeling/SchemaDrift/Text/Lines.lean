/-
  SchemaDrift.Text.Lines
  ──────────────────────
  **A TEXT AS A SEQUENCE OF LINES.**

  `splitAfter` cuts a list behind every element of a class, so that nothing is lost:

      (splitAfter p l).flatten = l

  Lines and columns count from one.  A position inside a text is a number of bytes of
  its UTF-8 form; one that falls inside a character counts as behind it.
-/

namespace SchemaDrift.Text

/-! ## §1. Lines. -/

/-- Cuts a list behind every element of the class `p`. -/
def splitAfter {α : Type} (p : α → Bool) : List α → List (List α)
  | [] => []
  | a :: rest =>
    if p a then [a] :: splitAfter p rest
    else
      match splitAfter p rest with
      | [] => [[a]]
      | piece :: pieces => (a :: piece) :: pieces

/-- The lines of a text, each with the line feed that ends it. -/
def lines (s : List Char) : List (List Char) := splitAfter (· == '\n') s

/-- The number of line feeds in a text. -/
def lineFeeds (s : List Char) : Nat := s.count '\n'

/-- The pieces of a list between the elements of the class `p`. -/
def splitBy {α : Type} (p : α → Bool) : List α → List (List α)
  | [] => [[]]
  | a :: rest =>
    if p a then [] :: splitBy p rest
    else
      match splitBy p rest with
      | [] => [[a]]
      | piece :: pieces => (a :: piece) :: pieces

/-- The text before the first occurrence of `c` and the text behind it. -/
def splitOnce? (c : Char) : List Char → Option (List Char × List Char)
  | [] => none
  | d :: rest =>
    if d = c then some ([], rest)
    else (splitOnce? c rest).map fun (before, behind) => (d :: before, behind)

/-- Cutting loses nothing. -/
theorem flatten_splitAfter {α : Type} (p : α → Bool) (l : List α) :
    (splitAfter p l).flatten = l := by
  induction l with
  | nil => rfl
  | cons a rest ih =>
    simp only [splitAfter]
    split
    · simp [ih]
    · split
      · next h => rw [h] at ih; simp at ih; simp [← ih]
      · next h => rw [h] at ih; simp at ih; simp [← ih]

/-! ## §2. Line and column of a byte position. -/

/-- A place in a text: line and column, both from one. -/
structure Place where
  line : Nat := 1
  column : Nat := 1
  deriving Repr, DecidableEq

/-- The place behind one more character. -/
def Place.past (p : Place) (c : Char) : Place :=
  if c = '\n' then { line := p.line + 1, column := 1 } else { p with column := p.column + 1 }

/-- The place `bytes` bytes into a text that begins at `p`. -/
def Place.forward (p : Place) (bytes : Nat) : List Char → Place
  | [] => p
  | c :: rest => if bytes = 0 then p else (p.past c).forward (bytes - c.utf8Size) rest

/-- The line and column of the byte position `bytes` of a text. -/
def placeAt (s : List Char) (bytes : Nat) : Place := ({} : Place).forward bytes s

end SchemaDrift.Text
