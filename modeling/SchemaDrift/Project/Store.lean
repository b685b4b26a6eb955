/-
  SchemaDrift.Project.Store
  ─────────────────────────
  **THE CONFIGURATION AND THE STATE ON DISK.**

  A file that is not there stands for no settings, or for a state in which nothing has
  happened.  The state is written to a file beside its own and moved into its place, so
  that it is replaced as a whole or not at all.
-/

import SchemaDrift.Config.Basic
import SchemaDrift.Project.Scan
import SchemaDrift.Snapshot.History

namespace SchemaDrift

/-- The settings of the configuration file, if there is one. -/
def loadConfig (t : FileTree) : Except Fault (Option Config) :=
  if !t.pathExists Config.fileName then .ok none
  else
    match t.readText Config.fileName with
    | .error e => .error (.configLoad Config.fileName e.text)
    | .ok text => (Config.ofText text).map some

/-- Writes the file with example settings: its path, as it is shown, and the tree. -/
def writeSampleConfig (t : FileTree) : Except Fault (String × FileTree) :=
  let shown := fromRoot Config.sampleFileName
  match t.writeFile Config.sampleFileName (.text Config.sampleText) with
  | .ok t => .ok (shown, t)
  | .error e => .error (.fileWrite shown e.text e)

/-- The state of a project. -/
def loadState (t : FileTree) (c : Config) : Except Fault SyncState :=
  let shown := fromRoot c.statePath
  if !t.pathExists shown then .ok {}
  else
    match t.readText shown with
    | .error e => .error (.stateLoad shown e.text)
    | .ok text => (SyncState.ofText text).mapError fun e => .stateLoad shown e.message

/-- Writes the state of a project: the tree behind, and the fault if it failed. -/
def saveState (t : FileTree) (c : Config) (s : SyncState) : FileTree × Option Fault :=
  let shown := fromRoot c.statePath
  let failed := fun e : SystemError => some (Fault.stateSave shown e.text)
  if Path.isAbsolute shown then (t, failed .missing)
  else
    let parts := Path.parts shown
    match t.makeParts parts.dropLast with
    | (t, some e) => (t, failed e)
    | (t, none) =>
      let beside := Path.withExtension parts "json.tmp"
      match t.writeFile (FileTree.key beside) (.text s.toText) with
      | .error e => (t, failed e)
      | .ok t =>
        match t.moveFile beside shown with
        | .error e => (t, failed e)
        | .ok t => (t, none)

end SchemaDrift
