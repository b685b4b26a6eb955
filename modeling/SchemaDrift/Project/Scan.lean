/-
  SchemaDrift.Project.Scan
  ────────────────────────
  **FINDING AND READING THE SOURCE FILES.**

  A section holds every file with the extension `sql` below its directory.  Sections are
  scanned in order, and a file that two of them reach is found once, in the first.
-/

import SchemaDrift.Config.Basic
import SchemaDrift.Project.Tree
import SchemaDrift.Source.File

namespace SchemaDrift

/-- A source file that was found. -/
structure FoundFile where
  /-- The name of its section. -/
  sectionName : String
  /-- Its path from the root of the project. -/
  path : String
  deriving Repr, DecidableEq

/-- The root of the project, as paths are shown. -/
def projectRoot : String := "."

/-- A path from the root of the project, as it is shown. -/
def fromRoot (path : String) : String := Path.join projectRoot path

/-- The file is a source file. -/
def isSourceName (file : String) : Bool :=
  ((Path.fileName? file).bind Path.extension?) = some "sql"

/-- The source files of a section, sorted by path. -/
def sectionFiles (t : FileTree) (s : Section) : Except Fault (List String) :=
  match t.directory? s.path with
  | none => .error (.directoryNotFound (fromRoot s.path))
  | some directory =>
    let names := (t.filesBelow directory).filter isSourceName
    .ok ((names.map fun n => "/".intercalate (Path.parts s.path ++ [n])).mergeSort (· ≤ ·))

/-- The source files of some sections, those in `seen` apart. -/
def scanSections (t : FileTree) (seen : List String) :
    List Section → Except Fault (List FoundFile)
  | [] => .ok []
  | s :: rest => do
    let found ← sectionFiles t s
    let new := found.filter (!seen.contains ·)
    let behind ← scanSections t (seen ++ new) rest
    return new.map (⟨s.name, ·⟩) ++ behind

/-- The source files of a project. -/
def scan (t : FileTree) (c : Config) : Except Fault (List FoundFile) :=
  scanSections t [] c.allSections

/-- Reads a source file of a project. -/
def readSource (t : FileTree) (path : String) : Except Stop SourceFile :=
  match t.readText path with
  | .error e => .error (.fault (.ofReading (fromRoot path) e))
  | .ok text => (SourceFile.read path text).mapError .halt

/-- Finds and reads the source files of a project. -/
def readSources (t : FileTree) (c : Config) : Except Stop (List SourceFile) := do
  let found ← (scan t c).mapError .fault
  found.mapM fun f => readSource t f.path

end SchemaDrift
