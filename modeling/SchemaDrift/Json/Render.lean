/-
  SchemaDrift.Json.Render
  ───────────────────────
  **WRITING JSON.**

  Members and elements stand on lines of their own, two spaces further in than the
  brackets around them; empty arrays and objects are `[]` and `{}`.  Quotes, backslashes
  and control characters are escaped, and every other character stands for itself.
-/

import SchemaDrift.Json.Basic

namespace SchemaDrift.Json

/-- The written form of one character of a string. -/
def escapeChar (c : Char) : List Char :=
  if c = '"' then ['\\', '"']
  else if c = '\\' then ['\\', '\\']
  else if c = '\x08' then ['\\', 'b']
  else if c = '\x0c' then ['\\', 'f']
  else if c = '\n' then ['\\', 'n']
  else if c = '\r' then ['\\', 'r']
  else if c = '\t' then ['\\', 't']
  else if c.toNat < 0x20 then
    ['\\', 'u', '0', '0', Nat.digitChar (c.toNat / 16), Nat.digitChar (c.toNat % 16)]
  else [c]

/-- The written form of a string. -/
def renderString (s : String) : List Char := '"' :: s.toList.flatMap escapeChar ++ ['"']

/-- A new line, `depth` levels in. -/
def newLine (depth : Nat) : List Char := '\n' :: List.replicate (2 * depth) ' '

mutual

/-- The written form of a value that stands `depth` levels in. -/
def render (depth : Nat) : Json → List Char
  | .null => "null".toList
  | .bool true => "true".toList
  | .bool false => "false".toList
  | .number literal => literal
  | .string s => renderString s
  | .halved => "\"\\ud800\"".toList
  | .array [] => ['[', ']']
  | .array (v :: vs) =>
    '[' :: newLine (depth + 1) ++ render (depth + 1) v ++ renderElements (depth + 1) vs
      ++ newLine depth ++ [']']
  | .object [] => ['{', '}']
  | .object (m :: ms) =>
    '{' :: newLine (depth + 1) ++ renderMember (depth + 1) m ++ renderMembers (depth + 1) ms
      ++ newLine depth ++ ['}']

/-- The written form of the elements behind the first. -/
def renderElements (depth : Nat) : List Json → List Char
  | [] => []
  | v :: vs => ',' :: newLine depth ++ render depth v ++ renderElements depth vs

/-- The written form of a member. -/
def renderMember (depth : Nat) : String × Json → List Char
  | (name, v) => renderString name ++ ':' :: ' ' :: render depth v

/-- The written form of the members behind the first. -/
def renderMembers (depth : Nat) : List (String × Json) → List Char
  | [] => []
  | m :: ms => ',' :: newLine depth ++ renderMember depth m ++ renderMembers depth ms

end

/-- The text of a value. -/
def toText (v : Json) : List Char := render 0 v

end SchemaDrift.Json
