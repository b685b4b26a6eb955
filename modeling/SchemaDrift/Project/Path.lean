/-
  SchemaDrift.Project.Path
  ────────────────────────
  **PATHS AS THEY ARE WRITTEN.**

  A path is a text.  Its PARTS are the names between slashes; empty ones and single dots
  say nothing, a double dot leads out of a directory.  A path is shown as it was written,
  so joining keeps dots and slashes.
-/

import SchemaDrift.Text.Lines

namespace SchemaDrift.Path

open SchemaDrift.Text

/-- The names between the slashes of a path, empty ones and all. -/
def segments (path : String) : List String :=
  (splitBy (· == '/') path.toList).map String.ofList

/-- The parts of a path. -/
def parts (path : String) : List String := (segments path).filter fun s => s ≠ "" && s ≠ "."

/-- The path begins at the root of all files. -/
def isAbsolute (path : String) : Bool := path.toList.head? = some '/'

/-- The path is written as that of a directory: a slash or dots end it. -/
def namesDirectory (path : String) : Bool := ["", ".", ".."].contains ((segments path).getLastD "")

/-- A path inside another. -/
def join (base path : String) : String :=
  if isAbsolute path then path
  else if base.isEmpty || base.toList.getLast? = some '/' then base ++ path
  else base ++ "/" ++ path

/-- The name that a path ends in, unless that is a double dot. -/
def fileName? (path : String) : Option String :=
  match (parts path).getLast? with
  | some ".." | none => none
  | some name => some name

/-- The last name of a path; the path as written if it has none. -/
def lastName (path : String) : String := (fileName? path).getD path

/-- A file name before its last dot, and behind it.  A dot in front does not count. -/
def splitExtension (name : String) : String × Option String :=
  match splitOnce? '.' name.toList.reverse with
  | none | some (_, []) => (name, none)
  | some (extension, stem) => (String.ofList stem.reverse, some (String.ofList extension.reverse))

/-- The extension of a file name. -/
def extension? (name : String) : Option String := (splitExtension name).2

/-- The parts with the extension of the last name replaced by `extension`, or added. -/
def withExtension (parts : List String) (extension : String) : List String :=
  match parts.getLast? with
  | none | some ".." => parts
  | some name => parts.dropLast ++ [(splitExtension name).1 ++ "." ++ extension]

end SchemaDrift.Path
