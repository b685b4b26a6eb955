/-
  SchemaDrift.Sql.Split
  ─────────────────────
  **THE STATEMENTS OF A FILE.**

  A file is cut at its marker lines,

      -- sqlsync: startStatement…
      -- sqlsync: endStatement…

  into REGIONS.  What stands between a start marker and the end marker that follows is
  one statement, whatever it holds; everywhere else every semicolon in code ends one.
  Marker lines themselves belong to no region, except for the line feed behind them,
  which opens the next one.  Pieces that hold no SQL are no statements.

      outline t    the regions of `t`, up to the first misplaced marker
      split t      the statements of `t`, or the first fault of `t`
-/

import SchemaDrift.Sql.Statement

namespace SchemaDrift.Sql

open SchemaDrift.Text

/-! ## §1. Faults. -/

/-- Why a file cannot be cut into statements. -/
inductive SplitError where
  /-- A region ends inside an enclosure that began in line `line`. -/
  | unterminated (what : Enclosure) (line : Nat)
  | unmatchedEndMarker (line : Nat)
  | unclosedStartMarker (line : Nat)
  | nestedStartMarker (line : Nat)
  deriving Repr, DecidableEq

/-- The line a fault is reported for. -/
def SplitError.line : SplitError → Nat
  | .unterminated _ line | .unmatchedEndMarker line | .unclosedStartMarker line
  | .nestedStartMarker line => line

/-- The text of a fault. -/
def SplitError.message : SplitError → String
  | .unterminated what line => s!"unterminated {what.label} starting at line {line}"
  | .unmatchedEndMarker _ => "endStatement marker without matching startStatement"
  | .unclosedStartMarker _ => "startStatement marker is never closed"
  | .nestedStartMarker _ => "startStatement marker nested inside another manual statement"

/-! ## §2. Marker lines. -/

/-- The two markers of a manual statement. -/
inductive Marker where
  | start
  | finish
  deriving Repr, DecidableEq

/-- The word that names a marker. -/
def Marker.word : Marker → String
  | .start => "startStatement"
  | .finish => "endStatement"

/-- The word of the marker stands in front and ends there. -/
def Marker.isAt (m : Marker) (s : List Char) : Bool := (literally? m.word.toList s).any atWordEnd

/-- The marker of a line: two hyphens, `sqlsync:` and the word of the marker, with spaces
and tabs before each, and anything behind. -/
def marker? (line : List Char) : Option Marker := do
  let rest ← literally? "--".toList (line.dropWhile isIndent)
  let rest ← literally? "sqlsync:".toList (rest.dropWhile isIndent)
  let rest := rest.dropWhile isIndent
  if Marker.start.isAt rest then some .start
  else if Marker.finish.isAt rest then some .finish
  else none

/-! ## §3. Regions. -/

/-- A marker line, and what follows it up to the next one. -/
structure Mark where
  marker : Marker
  /-- The line it stands in. -/
  line : Nat
  /-- What follows, the line feed behind the marker line included. -/
  text : List Char
  deriving Repr, DecidableEq

/-- The text of some lines up to the first marker line, and the marks from there on; the
first line is line `number`. -/
def marksFrom (number : Nat) : List (List Char) → List Char × List Mark
  | [] => ([], [])
  | line :: rest =>
    let (text, marks) := marksFrom (number + 1) rest
    match marker? line with
    | none => (line ++ text, marks)
    | some m =>
      let feed := if line.getLast? = some '\n' then ['\n'] else []
      ([], ⟨m, number, feed ++ text⟩ :: marks)

/-- A stretch of a file between marker lines. -/
structure Region where
  /-- It stands between a start marker and an end marker. -/
  manual : Bool
  /-- The line its first character is in. -/
  line : Nat
  text : List Char
  deriving Repr, DecidableEq

/-- The regions of a file, up to the first misplaced marker, and that fault. -/
structure Outline where
  regions : List Region
  fault : Option SplitError
  deriving Repr, DecidableEq

/-- The outline that begins with the region `r`, up to the first of the marks. -/
def outlineFrom (r : Region) : List Mark → Outline
  | [] => if r.manual then ⟨[], some (.unclosedStartMarker r.line)⟩ else ⟨[r], none⟩
  | m :: rest =>
    match m.marker, r.manual with
    | .start, true => ⟨[], some (.nestedStartMarker m.line)⟩
    | .finish, false => ⟨[], some (.unmatchedEndMarker m.line)⟩
    | _, manual =>
      let o := outlineFrom ⟨!manual, m.line, m.text⟩ rest
      { o with regions := r :: o.regions }

/-- The outline of a file. -/
def outline (s : List Char) : Outline :=
  let (text, marks) := marksFrom 1 (lines s)
  outlineFrom ⟨false, 1, text⟩ marks

/-! ## §4. Statements. -/

/-- The statement that a piece of a file holds, if it holds any: its text without the
white space around, and the line in which that begins when the piece begins in `line`. -/
def statementOf? (line : Nat) (piece : List Char) : Option Statement :=
  let s : Statement :=
    { raw := String.ofList (trim piece)
      startLine := some (line + lineFeeds (piece.takeWhile isBlank)) }
  if s.isEmpty then none else some s

/-- The statements of pieces that follow each other, the first beginning in `line`. -/
def statementsOf (line : Nat) : List (List Char) → List Statement
  | [] => []
  | piece :: rest =>
    (statementOf? line piece).toList ++ statementsOf (line + lineFeeds piece) rest

/-- The pieces of a text, cut behind every semicolon that is code. -/
def pieces (s : List Char) : List (List Char) :=
  (splitAfter (·.isCode ';') (classify s)).map (·.map Glyph.char)

/-- The statements of a region. -/
def Region.statements (r : Region) : Except SplitError (List Statement) :=
  if r.manual then .ok (statementsOf r.line [r.text])
  else
    match unclosed? r.text with
    | some (what, line) => .error (.unterminated what (line + r.line - 1))
    | none => .ok (statementsOf r.line (pieces r.text))

/-- The statements of regions that follow each other. -/
def splitRegions : List Region → Except SplitError (List Statement)
  | [] => .ok []
  | r :: rest => do
    let here ← r.statements
    let behind ← splitRegions rest
    return here ++ behind

/-- The statements of a file. -/
def split (s : List Char) : Except SplitError (List Statement) := do
  let o := outline s
  let statements ← splitRegions o.regions
  match o.fault with
  | some fault => .error fault
  | none => .ok statements

/-- The text holds no SQL to execute. -/
def isInert (s : List Char) : Bool :=
  match split s with
  | .ok statements => statements.isEmpty
  | .error _ => (normalize s).isEmpty

end SchemaDrift.Sql
