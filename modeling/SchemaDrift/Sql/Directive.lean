/-
  SchemaDrift.Sql.Directive
  ─────────────────────────
  **WHAT A FILE ASKS TO BE TREATED AS.**

  A directive is a comment on a line of its own,

      -- sqlsync: declarativeTable=true, splitStatements=false

  and counts only if the line begins in code: the inside of a literal, a block comment or
  a dollar-quoted block sets nothing.  Later settings win over earlier ones, keys that
  are not known are passed over, and marker lines are no directives.
-/

import SchemaDrift.Sql.Lexical
import SchemaDrift.Text.Keyword
import SchemaDrift.Text.Lines
import SchemaDrift.Text.Lowercase

namespace SchemaDrift.Sql

open SchemaDrift.Text

/-- The two ways of treating a file other than as one block of SQL. -/
structure Directives where
  /-- The file declares a table whose later states are reached by alterations. -/
  declarativeTable : Bool := false
  /-- The statements of the file are followed one by one. -/
  splitStatements : Bool := false
  deriving Repr, DecidableEq

/-- The directives contradict each other. -/
def Directives.conflicting (d : Directives) : Bool := d.declarativeTable && d.splitStatements

/-- Why a directive cannot be read. -/
inductive DirectiveError where
  | noValue (line : Nat) (pair : List Char)
  | notBoolean (line : Nat) (key value : List Char)
  deriving Repr, DecidableEq

/-- The line of a directive that cannot be read. -/
def DirectiveError.line : DirectiveError → Nat
  | .noValue line _ | .notBoolean line _ _ => line

/-- What is wrong with a directive that cannot be read. -/
def DirectiveError.message : DirectiveError → String
  | .noValue _ pair => s!"expected key=value, found '{String.ofList pair}'"
  | .notBoolean _ key value =>
    s!"{String.ofList key} expects a boolean, found '{String.ofList value}'"

/-- The truth value that a word stands for. -/
def boolOfWord? (word : List Char) : Option Bool :=
  let w := String.ofList (asciiLower word)
  if ["true", "yes", "on", "1"].contains w then some true
  else if ["false", "no", "off", "0"].contains w then some false
  else none

/-- The settings in a line: what follows two hyphens and `sqlsync:`, without the white
space around.  A line of a statement marker has none. -/
def directiveBody? (line : List Char) : Option (List Char) := do
  let rest ← literally? "--".toList (trimStart line)
  let rest ← literally? "sqlsync:".toList (trimStart rest)
  let body := trim rest
  if "startStatement".toList.isPrefixOf body || "endStatement".toList.isPrefixOf body then none
  else some body

/-- Applies one setting of line `line`. -/
def Directives.set (d : Directives) (line : Nat) (pair : List Char) :
    Except DirectiveError Directives :=
  match splitOnce? '=' pair with
  | none => .error (.noValue line pair)
  | some (key, value) =>
    let key := trim key
    let value := trim value
    let flag := fun (put : Bool → Directives) =>
      match boolOfWord? value with
      | some b => .ok (put b)
      | none => .error (.notBoolean line key value)
    if key = "declarativeTable".toList then flag fun b => { d with declarativeTable := b }
    else if key = "splitStatements".toList then flag fun b => { d with splitStatements := b }
    else .ok d

/-- Applies the settings of one line. -/
def Directives.setAll (d : Directives) (number : Nat) (line : List Char) :
    Except DirectiveError Directives :=
  match directiveBody? line with
  | none => .ok d
  | some body =>
    let pairs := ((splitBy (· == ',') body).map trim).filter (!·.isEmpty)
    pairs.foldlM (fun d pair => d.set number pair) d

/-- Applies the directives of lines that follow each other.  `inCode` tells whether the
first of them, line `number`, begins in code: a line does if the line feed before it is. -/
def directivesFrom (d : Directives) (number : Nat) (inCode : Bool) :
    List (List Glyph) → Except DirectiveError Directives
  | [] => .ok d
  | line :: rest => do
    let ended := fun c : Char => c == '\n' || c == '\r'
    let text := trimEndWhile ended (line.map Glyph.char)
    let d ← if inCode then d.setAll number text else .ok d
    directivesFrom d (number + 1) (line.getLast?.any (·.cls = .code)) rest

/-- The directives of a file. -/
def directives (s : List Char) : Except DirectiveError Directives :=
  directivesFrom {} 1 true (splitAfter (·.char == '\n') (classify s))

end SchemaDrift.Sql
