/-
  SchemaDrift.Config.Basic
  ────────────────────────
  **WHERE A PROJECT KEEPS ITS FILES.**

  Settings that are not made have default values.  What the command line says goes before
  what the configuration file says.
-/

import SchemaDrift.Json.Decode
import SchemaDrift.Project.Path
import SchemaDrift.Report.Fault
import SchemaDrift.Text.Blank
import SchemaDrift.Toml.Document

namespace SchemaDrift

open SchemaDrift.Text

/-- A directory of source files, with a name. -/
structure Section where
  name : String
  path : String
  deriving Repr, DecidableEq

/-- The section of a directory, named after the last name of its path. -/
def Section.ofPath (path : String) : Section := ⟨Path.lastName path, path⟩

/-- The settings of a project. -/
structure Config where
  migrationsDir : Option String := none
  stateFile : Option String := none
  /-- The sections, in the order in which they are scanned. -/
  sections : List Section := []
  deriving Repr, DecidableEq

namespace Config

/-- The directory of migrations. -/
def migrationsPath (c : Config) : String := c.migrationsDir.getD "migrations"

/-- The file of the state. -/
def statePath (c : Config) : String := c.stateFile.getD ".sqlsync/state.json"

/-- The sections to scan. -/
def allSections (c : Config) : List Section :=
  if c.sections.isEmpty then [.ofPath "sql"] else c.sections

/-- The settings with those of the command line before them; sections given there take
the place of all others. -/
def override (c : Config) (migrationsDir stateFile : Option String) (sections : List String) :
    Config where
  migrationsDir := migrationsDir <|> c.migrationsDir
  stateFile := stateFile <|> c.stateFile
  sections := if sections.isEmpty then c.sections else sections.map .ofPath

/-! ## §1. Checking. -/

/-- Refuses sections without a name, and two of one name; `before` holds the names of
those that come first. -/
def checkSections (before : List String) : List Section → Except Fault Unit
  | [] => .ok ()
  | s :: rest =>
    if (trim s.name.toList).isEmpty then
      .error (.configuration
        ("section #" ++ toString (before.length + 1) ++ " has an empty name"))
    else if before.contains s.name then
      .error (.configuration ("section '" ++ s.name ++ "' is declared more than once"))
    else checkSections (before ++ [s.name]) rest

/-- The settings, if their sections are told apart by their names. -/
def checked (c : Config) : Except Fault Config := (checkSections [] c.sections).map fun _ => c

/-! ## §2. Reading. -/

/-- The section that a JSON value stands for. -/
def sectionOfJson? (j : Json) : Option Section := do
  let [name, path] ← j.fields? ["name", "path"] 0 | none
  return ⟨← Json.required? Json.asString? name, ← Json.required? Json.asString? path⟩

/-- The settings that a JSON value stands for. -/
def ofJson? (j : Json) : Option Config := do
  let [migrationsDir, stateFile, sections] ←
      j.fields? ["migrations_dir", "state_file", "sections"] 1
    | none
  return {
    migrationsDir := ← Json.optional? Json.asString? migrationsDir
    stateFile := ← Json.optional? Json.asString? stateFile
    sections := ← Json.orElse? [] (Json.asList? sectionOfJson?) sections }

/-- A text of TOML. -/
def tomlString? : Toml → Option String
  | .string s => some s
  | _ => none

/-- The section that a TOML value stands for: a table, or its values by position.  Keys
of other names are passed over, but their numbers have to be such as can be read. -/
def sectionOfToml? : Toml → Option Section
  | .table ms =>
    if Toml.membersReadable ms then do
      return ⟨← (← ms.lookup "name") |> tomlString?, ← (← ms.lookup "path") |> tomlString?⟩
    else none
  | .array (name :: path :: _) => do return ⟨← tomlString? name, ← tomlString? path⟩
  | _ => none

/-- The text at a key of a table, if there is one. -/
def tomlSetting? (ms : List (String × Toml)) (k : String) : Option (Option String) :=
  match ms.lookup k with
  | none => some none
  | some v => (tomlString? v).map some

/-- The settings that a TOML value stands for.  Keys of other names are passed over as in
a section. -/
def ofToml? : Toml → Option Config
  | .table ms => do
    if !Toml.membersReadable (ms.filter (·.1 ≠ "sections")) then none
    let sections ← match ms.lookup "sections" with
      | none => some []
      | some (.array vs) => vs.mapM sectionOfToml?
      | some _ => none
    return {
      migrationsDir := ← tomlSetting? ms "migrations_dir"
      stateFile := ← tomlSetting? ms "state_file"
      sections }
  | _ => none

/-- The name of the configuration file. -/
def fileName : String := "sqlsync.toml"

/-- The settings that the text of a configuration file makes. -/
def ofText (text : String) : Except Fault Config :=
  match (Toml.parse? text.toList).bind ofToml? with
  | none => .error (.configLoad fileName "not a configuration file")
  | some c => c.checked

/-! ## §3. The example. -/

/-- The name of the file with example settings. -/
def sampleFileName : String := "sqlsync.toml.example"

/-- The text of the file with example settings. -/
def sampleText : String :=
  "migrations_dir = \"migrations\"\nstate_file = \".sqlsync/state.json\"\n\n" ++
  "[[sections]]\nname = \"schema\"\npath = \"sql/schema\"\n\n" ++
  "[[sections]]\nname = \"functions\"\npath = \"sql/functions\"\n"

end Config

end SchemaDrift
