/-
  SchemaDrift.Toml.Document
  ─────────────────────────
  **READING TOML.**

  A document is a row of lines: settings, headers of tables and headers of elements of
  arrays of tables.  They build a tree, and each line says once what it says:

      a key is set once;
      a header names a table that none has named, though tables inside it may be there;
      a dotted key leads through tables that no header has named, or into the latest
        element of an array of tables, and adds only to a table that dotted keys have made;
      what is written as a value takes nothing more in.

  Values that stand one in the other go at most `maxDepth` levels deep.
-/

import SchemaDrift.Toml.Number
import SchemaDrift.Toml.Text

namespace SchemaDrift.Toml

/-! ## §1. The tree under construction. -/

/-- How a table of the tree came to be. -/
inductive Origin where
  /-- By a header of its own. -/
  | header
  /-- By a header of a table inside it. -/
  | implied
  /-- By a dotted key. -/
  | dotted
  deriving Repr, DecidableEq

/-- A node of the tree. -/
inductive Branch where
  | value (v : Toml)
  | table (origin : Origin) (members : List (String × Branch))
  /-- An array of tables, the latest first. -/
  | tables (items : List (List (String × Branch)))
  deriving Repr, Inhabited

/-- The members of a table under construction. -/
abbrev Members := List (String × Branch)

/-- Puts a branch at a key, in the place of one that is there. -/
def Members.put (ms : Members) (k : String) (b : Branch) : Members :=
  match ms with
  | [] => [(k, b)]
  | m :: rest => if m.1 = k then (k, b) :: rest else m :: Members.put rest k b

/-- Changes the table that a header's path leads to; tables on the way are made, and of
an array of tables the latest element is meant. -/
def Members.under (change : Members → Option Members) : List String → Members → Option Members
  | [], ms => change ms
  | k :: path, ms =>
    match ms.lookup k with
    | none => (Members.under change path []).map fun sub => ms.put k (.table .implied sub)
    | some (.table origin sub) =>
      (Members.under change path sub).map fun sub => ms.put k (.table origin sub)
    | some (.tables (last :: before)) =>
      (Members.under change path last).map fun last => ms.put k (.tables (last :: before))
    | some _ => none

/-- Sets a dotted key, whose last part is new to a table that is `fit` to take it. -/
def Members.set (v : Toml) (fit : Bool) : List String → Members → Option Members
  | [], _ => none
  | [k], ms => if fit && (ms.lookup k).isNone then some (ms.put k (.value v)) else none
  | k :: path, ms =>
    match ms.lookup k with
    | none => (Members.set v true path []).map fun sub => ms.put k (.table .dotted sub)
    | some (.table .dotted sub) =>
      (Members.set v true path sub).map fun sub => ms.put k (.table .dotted sub)
    | some (.table .implied sub) =>
      (Members.set v false path sub).map fun sub => ms.put k (.table .implied sub)
    | some (.tables (last :: before)) =>
      (Members.set v false path last).map fun last => ms.put k (.tables (last :: before))
    | some _ => none

/-- Names a table by its header. -/
def Members.openTable (k : String) (ms : Members) : Option Members :=
  match ms.lookup k with
  | none => some (ms.put k (.table .header []))
  | some (.table .implied sub) => some (ms.put k (.table .header sub))
  | some _ => none

/-- Adds an element to an array of tables by its header. -/
def Members.openElement (k : String) (ms : Members) : Option Members :=
  match ms.lookup k with
  | none => some (ms.put k (.tables [[]]))
  | some (.tables items) => some (ms.put k (.tables ([] :: items)))
  | some _ => none

mutual

/-- The value of a finished branch. -/
def Branch.finish : Branch → Toml
  | .value v => v
  | .table _ ms => .table (finishMembers ms)
  | .tables items => .array (finishItems items).reverse

/-- The values of finished members. -/
def finishMembers : List (String × Branch) → List (String × Toml)
  | [] => []
  | (k, b) :: rest => (k, b.finish) :: finishMembers rest

/-- The values of finished elements. -/
def finishItems : List (List (String × Branch)) → List Toml
  | [] => []
  | ms :: rest => .table (finishMembers ms) :: finishItems rest

end

/-! ## §2. Values. -/

mutual

/-- Takes a value, with at most `room` levels in it, off the front, in at most `fuel`
steps. -/
def value? (room fuel : Nat) (s : List Char) : Option (Toml × List Char) :=
  match fuel with
  | 0 => none
  | fuel + 1 =>
    match s with
    | '[' :: rest =>
      if room = 0 then none
      else (elements? (room - 1) fuel rest).map fun (vs, behind) => (.array vs, behind)
    | '\x7b' :: rest =>
      if room = 0 then none
      else
        (inlineMembers? (room - 1) fuel [] rest).map fun (ms, behind) =>
          (.table (finishMembers ms), behind)
    | c :: _ =>
      if c = '"' || c = '\'' then
        (string? fuel s).map fun (t, behind) => (.string (String.ofList t), behind)
      else scalar? s
    | [] => none

/-- Takes the elements of an array, and the bracket behind them, off the front. -/
def elements? (room fuel : Nat) (s : List Char) : Option (List Toml × List Char) :=
  match fuel with
  | 0 => none
  | fuel + 1 =>
    match skipLines s with
    | ']' :: behind => some ([], behind)
    | here =>
      (value? room fuel here).bind fun (v, rest) =>
        match skipLines rest with
        | ',' :: behind => (elements? room fuel behind).map fun (vs, r) => (v :: vs, r)
        | ']' :: behind => some ([v], behind)
        | _ => none

/-- Takes the members of an inline table behind those read already, and the brace behind
them, off the front.  Lines may end anywhere but inside a key. -/
def inlineMembers? (room fuel : Nat) (before : Members) (s : List Char) :
    Option (Members × List Char) :=
  match fuel with
  | 0 => none
  | fuel + 1 =>
    match skipLines s with
    | '\x7d' :: behind => some (before, behind)
    | here =>
      (key? fuel here).bind fun (path, rest) =>
        match skipLines rest with
        | '=' :: rest =>
          (value? room fuel (skipLines rest)).bind fun (v, rest) =>
            (Members.set v true path before).bind fun ms =>
              match skipLines rest with
              | ',' :: behind => inlineMembers? room fuel ms behind
              | '\x7d' :: behind => some (ms, behind)
              | _ => none
        | _ => none

end

/-! ## §3. Documents. -/

/-- A document that is read in part: its tree, and the path of the header that settings
now belong to. -/
structure Document where
  members : Members := []
  path : List String := []
  deriving Repr, Inhabited

/-- Takes a header off the front: its path, and whether it is of an array of tables. -/
def header? (fuel : Nat) (s : List Char) : Option (List String × Bool × List Char) :=
  match s with
  | '[' :: '[' :: rest =>
    (key? fuel rest).bind fun (path, behind) =>
      match behind with
      | ']' :: ']' :: behind => some (path, true, behind)
      | _ => none
  | '[' :: rest =>
    (key? fuel rest).bind fun (path, behind) =>
      match behind with
      | ']' :: behind => some (path, false, behind)
      | _ => none
  | _ => none

/-- Takes a line that says something, in a text of fewer than `fuel` characters, off the
front. -/
def Document.line? (fuel : Nat) (d : Document) (s : List Char) : Option (Document × List Char) :=
  match s with
  | '[' :: _ =>
    (header? fuel s).bind fun (path, element, behind) =>
      match path.getLast? with
      | none => none
      | some k =>
        let name := if element then Members.openElement k else Members.openTable k
        (Members.under name path.dropLast d.members).map fun ms => (⟨ms, path⟩, behind)
  | _ =>
    (key? fuel s).bind fun (path, rest) =>
      match rest with
      | '=' :: rest =>
        (value? maxDepth (2 * fuel) (skipSpace rest)).bind fun (v, behind) =>
          (Members.under (Members.set v true path) d.path d.members).map fun ms =>
            (⟨ms, d.path⟩, behind)
      | _ => none

/-- Reads the lines of a document. -/
def Document.lines? : Nat → Document → List Char → Option Document
  | 0, _, _ => none
  | fuel + 1, d, s =>
    match skipLines s with
    | [] => some d
    | here =>
      (d.line? (fuel + 1) here).bind fun (d, rest) =>
        match skipComment (skipSpace rest) with
        | [] => some d
        | behind => (lineEnd? behind).bind fun next => Document.lines? fuel d next

/-- The table that a document writes, if it writes one.  A mark of the byte order in front
does not count. -/
def parse? (s : List Char) : Option Toml :=
  let s := match s with
    | '\uFEFF' :: rest => rest
    | _ => s
  (Document.lines? (s.length + 1) {} s).map fun d => .table (finishMembers d.members)

end SchemaDrift.Toml
