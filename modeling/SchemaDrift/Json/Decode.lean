/-
  SchemaDrift.Json.Decode
  ───────────────────────
  **WHAT A JSON VALUE STANDS FOR.**

  A record is written as an object or, by position, as an array.  In an object every name
  occurs at most once, and members of other names are passed over; an array is as long as
  the record, or shorter by fields at its end that may be left out.
-/

import SchemaDrift.Json.Basic

namespace SchemaDrift.Json

/-- A text. -/
def asString? : Json → Option String
  | .string s => some s
  | _ => none

/-- A truth value. -/
def asBool? : Json → Option Bool
  | .bool b => some b
  | _ => none

/-- A number that is written with digits only and is less than `bound`. -/
def asNatBelow? (bound : Nat) : Json → Option Nat
  | .number literal =>
    let n := natOfDigits literal
    if literal.all Char.isDigit && n < bound then some n else none
  | _ => none

/-- A list, all of whose elements can be read. -/
def asList? {α : Type} (read : Json → Option α) : Json → Option (List α)
  | .array vs => vs.mapM read
  | _ => none

/-- The members of an object, all of whose values can be read. -/
def asMap? {α : Type} (read : Json → Option α) : Json → Option (List (String × α))
  | .object ms => ms.mapM fun (name, v) => (read v).map fun a => (name, a)
  | _ => none

/-- Null, or a value that can be read. -/
def asOption? {α : Type} (read : Json → Option α) : Json → Option (Option α)
  | .null => some none
  | v => (read v).map some

/-- The fields `names` of a record, each with its value if it has one; the last
`optional` of them may be missing from an array. -/
def fields? (names : List String) (optional : Nat) : Json → Option (List (Option Json))
  | .object ms =>
    let of := fun name => (ms.filter (·.1 = name)).map (·.2)
    if names.all fun name => (of name).length ≤ 1 then some (names.map fun name => (of name).head?)
    else none
  | .array vs =>
    if vs.length ≤ names.length && names.length ≤ vs.length + optional then
      some (vs.map some ++ List.replicate (names.length - vs.length) none)
    else none
  | _ => none

/-- A field that must be there. -/
def required? {α : Type} (read : Json → Option α) (field : Option Json) : Option α :=
  field.bind read

/-- A field that may be missing or null. -/
def optional? {α : Type} (read : Json → Option α) : Option Json → Option (Option α)
  | none => some none
  | some v => asOption? read v

/-- A field that stands for `absent` where it is missing. -/
def orElse? {α : Type} (absent : α) (read : Json → Option α) : Option Json → Option α
  | none => some absent
  | some v => read v

end SchemaDrift.Json
