/-
  SchemaDrift.Json.Basic
  ──────────────────────
  **JSON VALUES.**

  Objects keep the order of their members, and a name may occur in them twice.  A number
  is kept as it is written; what it stands for is asked of it later.  So it is with a
  string of which a `\u` escape names half of a surrogate pair alone: it is well written,
  but stands for no text.
-/

namespace SchemaDrift

/-- A JSON value. -/
inductive Json where
  | null
  | bool (b : Bool)
  /-- A number, as it is written. -/
  | number (literal : List Char)
  | string (s : String)
  /-- A string with half of a surrogate pair in it, or an object with such a name. -/
  | halved
  | array (elements : List Json)
  | object (members : List (String × Json))
  deriving Repr, Inhabited

namespace Json

/-- The number that a row of decimal digits stands for. -/
def natOfDigits (digits : List Char) : Nat :=
  digits.foldl (fun n c => 10 * n + (c.toNat - '0'.toNat)) 0

/-- The decimal digits of a number. -/
def digitsOfNat (n : Nat) : List Char := Nat.toDigits 10 n

/-- A number that is written with digits only. -/
def nat (n : Nat) : Json := .number (digitsOfNat n)

/-- The text, or null. -/
def ofOption : Option String → Json
  | none => .null
  | some s => .string s

end Json

end SchemaDrift
