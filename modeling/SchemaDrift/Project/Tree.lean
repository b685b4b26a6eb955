/-
  SchemaDrift.Project.Tree
  ────────────────────────
  **A TREE OF FILES AS A VALUE.**

  The tree below a project's directory: every file and directory under the names that
  lead to it, joined by slashes.  A path is followed name by name: through directories
  only, and a double dot leads back.  What lies outside the tree is not there.  No name is
  longer than `maxNameSize` bytes, and no path holds a character of code nought.

  Operations give the tree behind them, or say why they failed.
-/

import SchemaDrift.Project.Path
import SchemaDrift.Report.Fault
import SchemaDrift.Snapshot.PathMap

namespace SchemaDrift

/-- What a file holds: a text, or bytes that are none. -/
inductive FileData where
  | text (s : String)
  | bytes (b : List UInt8)
  deriving Repr, DecidableEq

/-- What a file of these bytes holds. -/
def FileData.ofBytes (b : ByteArray) : FileData :=
  match String.fromUTF8? b with
  | some s => .text s
  | none => .bytes b.data.toList

/-- The bytes of a file. -/
def FileData.toBytes : FileData → ByteArray
  | .text s => s.toUTF8
  | .bytes b => ⟨b.toArray⟩

/-- A place in the tree that is taken. -/
inductive Node where
  | directory
  | file (data : FileData)
  deriving Repr, DecidableEq

/-- The files and directories below a project's directory. -/
structure FileTree where
  entries : PathMap Node := {}
  deriving Repr, DecidableEq

/-- Where a path leads. -/
inductive Place where
  | taken (names : List String) (node : Node)
  /-- Nothing is there, but it could be. -/
  | vacant (names : List String)
  | unreachable (why : SystemError)
  deriving Repr, DecidableEq

/-! ## §1. Trouble. -/

/-- Nothing is at the path. -/
def SystemError.missing : SystemError := ⟨.notFound, "No such file or directory (os error 2)"⟩

/-- A name on the way is not that of a directory. -/
def SystemError.notDirectory : SystemError := ⟨.other, "Not a directory (os error 20)"⟩

/-- A directory is where a file was to be. -/
def SystemError.isDirectory : SystemError := ⟨.other, "Is a directory (os error 21)"⟩

/-- Something is where a directory was to be made. -/
def SystemError.alreadyExists : SystemError := ⟨.other, "File exists (os error 17)"⟩

/-- The bytes of a file are no text. -/
def SystemError.notText : SystemError := ⟨.invalidData, "stream did not contain valid UTF-8"⟩

/-- A name is longer than any that can be kept. -/
def SystemError.nameTooLong : SystemError := ⟨.other, "File name too long (os error 36)"⟩

/-- A path holds a character of code nought. -/
def SystemError.noPath : SystemError := ⟨.other, "file name contained an unexpected NUL byte"⟩

namespace FileTree

/-! ## §2. Following paths. -/

/-- The most bytes that a name may have. -/
def maxNameSize : Nat := 255

/-- The names that lead to a place, as one text. -/
def key (names : List String) : String := "/".intercalate names

/-- What is at the place that the names lead to. -/
def node? (t : FileTree) (names : List String) : Option Node :=
  if names.isEmpty then some .directory else t.entries.get? (key names)

/-- Follows the parts of a path from the directory `here`. -/
def follow (t : FileTree) (here : List String) : List String → Place
  | [] => .taken here .directory
  | ".." :: rest => if here.isEmpty then .unreachable .missing else t.follow here.dropLast rest
  | name :: rest =>
    let there := here ++ [name]
    if maxNameSize < name.utf8ByteSize then .unreachable .nameTooLong
    else
      match t.node? there with
      | some .directory => t.follow there rest
      | some (.file data) =>
        if rest.isEmpty then .taken there (.file data) else .unreachable .notDirectory
      | none => if rest.isEmpty then .vacant there else .unreachable .missing

/-- Follows a path.  One that is written as that of a directory leads to no file. -/
def locate (t : FileTree) (path : String) : Place :=
  if path.toList.contains '\x00' then .unreachable .noPath
  else if Path.isAbsolute path then .unreachable .missing
  else
    match t.follow [] (Path.parts path) with
    | .taken names (.file data) =>
      if Path.namesDirectory path then .unreachable .notDirectory else .taken names (.file data)
    | place => place

/-- Something is at the path. -/
def pathExists (t : FileTree) (path : String) : Bool :=
  match t.locate path with
  | .taken _ _ => true
  | _ => false

/-- The names that lead to the directory at the path. -/
def directory? (t : FileTree) (path : String) : Option (List String) :=
  match t.locate path with
  | .taken names .directory => some names
  | _ => none

/-! ## §3. Reading. -/

/-- The text of the file at a path. -/
def readText (t : FileTree) (path : String) : Except SystemError String :=
  match t.locate path with
  | .taken _ (.file (.text s)) => .ok s
  | .taken _ (.file (.bytes _)) => .error .notText
  | .taken _ .directory => .error .isDirectory
  | .vacant _ => .error .missing
  | .unreachable e => .error e

/-- The files, sorted by the names that lead to them. -/
def files (t : FileTree) : List String :=
  (t.entries.entries.filter fun e => e.2 ≠ .directory).map (·.1)

/-- The files below a directory, each by the names that lead to it from there. -/
def filesBelow (t : FileTree) (directory : List String) : List String :=
  if directory.isEmpty then t.files
  else
    let lead := (key directory ++ "/").toList
    t.files.filterMap fun f =>
      if lead.isPrefixOf f.toList then some (String.ofList (f.toList.drop lead.length)) else none

/-! ## §4. Writing. -/

/-- The tree with a node at the place that the names lead to. -/
def put (t : FileTree) (names : List String) (node : Node) : FileTree :=
  ⟨t.entries.insert (key names) node⟩

/-- The tree without what is at a place and below it. -/
def cut (t : FileTree) (names : List String) : FileTree :=
  let lead := (key names ++ "/").toList
  ⟨.ofList (t.entries.entries.filter fun e =>
    e.1 ≠ key names && !lead.isPrefixOf e.1.toList)⟩

/-- Writes a file, in the place of one that is there. -/
def writeFile (t : FileTree) (path : String) (data : FileData) : Except SystemError FileTree :=
  match t.locate path with
  | .taken names (.file _) => .ok (t.put names (.file data))
  | .taken _ .directory => .error .isDirectory
  | .vacant names =>
    if Path.namesDirectory path then .error .isDirectory else .ok (t.put names (.file data))
  | .unreachable e => .error e

/-- Makes the directories that the parts of a path name, from the directory `here`: the
tree with those that could be made, and why the next could not. -/
def makeFrom (t : FileTree) (here : List String) : List String → FileTree × Option SystemError
  | [] => (t, none)
  | ".." :: rest => if here.isEmpty then (t, some .missing) else t.makeFrom here.dropLast rest
  | name :: rest =>
    let there := here ++ [name]
    if maxNameSize < name.utf8ByteSize then (t, some .nameTooLong)
    else
      match t.node? there with
      | some .directory => t.makeFrom there rest
      | some (.file _) => (t, some (if rest.isEmpty then .alreadyExists else .notDirectory))
      | none => (t.put there .directory).makeFrom there rest

/-- Makes the directory that the parts of a path lead to, and those on the way to it. -/
def makeParts (t : FileTree) (parts : List String) : FileTree × Option SystemError :=
  if parts.any fun name => name.toList.contains '\x00' then (t, some .noPath)
  else t.makeFrom [] parts

/-- Makes a directory and those on the way to it. -/
def makeDirectory (t : FileTree) (path : String) : FileTree × Option SystemError :=
  if Path.isAbsolute path then (t, some .missing) else t.makeParts (Path.parts path)

/-- Moves a file to another place, where a file may be but no directory. -/
def moveFile (t : FileTree) (source : List String) (target : String) :
    Except SystemError FileTree :=
  match t.follow [] source, t.locate target with
  | .taken names (.file data), .taken names' (.file _) =>
    if names = names' then .ok t else .ok ((t.cut names).put names' (.file data))
  | .taken names (.file data), .vacant names' =>
    if Path.namesDirectory target then .error .notDirectory
    else .ok ((t.cut names).put names' (.file data))
  | .taken _ (.file _), .taken _ .directory => .error .isDirectory
  | .taken _ (.file _), .unreachable e => .error e
  | _, _ => .error .missing

/-! ## §5. Two trees. -/

/-- What is at places of the tree `t` and was not there in the tree `before`. -/
def writtenSince (t before : FileTree) : List (String × Node) :=
  t.entries.entries.filter fun e => before.entries.get? e.1 ≠ some e.2

/-- The places of the tree `before` at which nothing is in the tree `t`. -/
def emptiedSince (t before : FileTree) : List String :=
  before.entries.paths.filter fun place => (t.entries.get? place).isNone

end FileTree

end SchemaDrift
