/-
  SchemaDrift.Main
  ────────────────
  **THE PROGRAM.**

  The working directory is read into a tree, the command line is carried out on it, and
  what has changed is written back.  Everything that is decided is decided by
  `Command.run`; here is nothing but input and output.
-/

import SchemaDrift.Command.Run
import Std.Time.Date.PlainDate
import Std.Time.DateTime.Timestamp

namespace SchemaDrift.Main

/-- Adds what a directory holds under the names `names` to a tree. -/
partial def gather (names : List String) (t : FileTree) (entry : IO.FS.DirEntry) : IO FileTree := do
  let here := names ++ [entry.fileName]
  if ← entry.path.isDir then
    (← entry.path.readDir).foldlM (gather here) (t.put here .directory)
  else
    return t.put here (.file (.ofBytes (← IO.FS.readBinFile entry.path)))

/-- The tree of the working directory. -/
def readTree : IO FileTree := do
  (← (← IO.currentDir).readDir).foldlM (gather []) {}

/-- Makes the working directory, which was `before`, into the tree `t`. -/
def writeTree (before t : FileTree) : IO Unit := do
  for place in t.emptiedSince before do
    IO.FS.removeFile place
  for (place, node) in t.writtenSince before do
    match node with
    | .directory => IO.FS.createDirAll place
    | .file data => IO.FS.writeBinFile place data.toBytes

/-- The moment it is. -/
def now? : IO (Option Stamp) := do
  let time ← Std.Time.Timestamp.now
  let date := Std.Time.PlainDate.ofEpochDay time.toDaysSinceUnixEpoch
  let second := (time.toSecondsSinceUnixEpoch.val % 86400).toNat
  let nanosecond := (time.toNanosecondsSinceUnixEpoch.val % 1000000000).toNat
  return Stamp.of? date.year.toInt date.month.val.toNat date.day.val.toNat (second / 3600)
    (second / 60 % 60) (second % 60) nanosecond

/-- Shows a line on its stream. -/
def showLine (l : ConsoleLine) : IO Unit :=
  match l.stream with
  | .said => IO.println l.text
  | .wrong => IO.eprintln l.text

/-- Runs the program with the words behind its name. -/
def runProgram (words : List String) : IO UInt32 := do
  match ← now? with
  | none =>
    IO.eprintln "error: the clock shows no moment"
    return 1
  | some stamp =>
    let before ← readTree
    let outcome := Command.run before stamp ("sqlsync" :: words)
    writeTree before outcome.tree
    outcome.lines.forM showLine
    return outcome.exitCode.toUInt32

end SchemaDrift.Main

/-- Runs the program. -/
def main (words : List String) : IO UInt32 := SchemaDrift.Main.runProgram words
