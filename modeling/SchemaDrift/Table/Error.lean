/-
  SchemaDrift.Table.Error
  ───────────────────────
  **WHY A TABLE DEFINITION CANNOT BE READ.**
-/

namespace SchemaDrift

/-- What is wrong with a table definition. -/
inductive TableError where
  | notCreateTable
  | unbalancedParentheses
  | noColumns (table : String)
  | missingType (column : String)
  | duplicateColumn (column : String)
  /-- An entry that is no column and no constraint, with its text. -/
  | malformedColumn (entry : String)
  /-- A bracket is never closed where a group is due, and the last byte before the end,
  taken for the closing bracket, is a part of a character.  There is no answer then: the
  run ends here and now. -/
  | cutInsideCharacter
  deriving Repr, DecidableEq

/-- The text of a fault. -/
def TableError.message : TableError → String
  | .notCreateTable => "statement is not a CREATE TABLE"
  | .unbalancedParentheses => "unbalanced parentheses in table body"
  | .noColumns table => s!"table {table} declares no columns"
  | .missingType column => s!"column {column} has no data type"
  | .duplicateColumn column => s!"column {column} is declared more than once"
  | .malformedColumn entry => s!"malformed column definition: {entry}"
  | .cutInsideCharacter => "a character would be cut in two"

end SchemaDrift
