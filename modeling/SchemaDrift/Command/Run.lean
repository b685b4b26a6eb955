/-
  SchemaDrift.Command.Run
  ───────────────────────
  **CARRYING A COMMAND LINE OUT.**

  A run turns the tree of a project into the tree behind it and says lines on the way.  It
  ends with 0 if all went well, with 1 after a fault, with 2 if the command line is none,
  and with 101 if it was halted.
-/

import SchemaDrift.Command.Line
import SchemaDrift.Project.Summary

namespace SchemaDrift.Command

/-- What a run leaves behind. -/
structure Outcome where
  tree : FileTree
  lines : List ConsoleLine
  exitCode : UInt8
  deriving Repr, DecidableEq

/-- The outcome of a run that was stopped. -/
def stopped (t : FileTree) (said : List ConsoleLine) : Stop → Outcome
  | .fault f => ⟨t, said ++ f.lines, 1⟩
  | .halt _ => ⟨t, said, 101⟩

/-- The settings of a project, those of the command line before them. -/
def settings (t : FileTree) (o : SourceOptions) : Except Fault Config :=
  (loadConfig t).map fun c => (c.getD {}).override o.migrationsDir o.stateFile o.sections

/-- Does what is asked for, at the moment `now`. -/
def carryOut (t : FileTree) (now : Stamp) : Request → Outcome
  | .init =>
    match writeSampleConfig t with
    | .error f => stopped t [] (.fault f)
    | .ok (path, t) =>
      ⟨t, [say ("✓  Wrote " ++ path),
        say "ℹ  Rename it to sqlsync.toml and adjust the sections"], 0⟩
  | .status o =>
    match settings t o with
    | .error f => stopped t [] (.fault f)
    | .ok c =>
      let (result, notices) := status t c
      let said := notices.filterMap Notice.line?
      match result with
      | .error e => stopped t said e
      | .ok s => ⟨t, said ++ s.summary.map say, 0⟩
  | .generate name o =>
    match settings t o with
    | .error f => stopped t [] (.fault f)
    | .ok c =>
      let (t, result, notices) := generate t c name now
      let said := notices.filterMap Notice.line?
      match result with
      | .error e => stopped t said e
      | .ok g => ⟨t, said ++ g.summary.map say, 0⟩

/-- How the program is used. -/
def usage : String :=
  "Declarative schema migrations for PostgreSQL\n\n" ++
  "Usage: sqlsync [-v]... <command>\n\n" ++
  "Commands:\n" ++
  "  init             Generate a sample configuration file\n" ++
  "  status           Show which source files changed since the last migration\n" ++
  "  generate <name>  Write a migration for the current changes\n\n" ++
  "Options of status and generate:\n" ++
  "  --migrations-dir <path>  Directory receiving generated migration files\n" ++
  "  --state-file <path>      State file holding the snapshot and migration history\n" ++
  "  --section <dir>          Source directory to scan; repeat for several"

/-- What is wrong with a command line, in a few words. -/
def UsageStop.message : UsageStop → String
  | .help | .version => ""
  | .nothingAsked | .missingCommand => "a command is required"
  | .unknownCommand => "there is no such command"
  | .unknownArgument => "there is no such argument"
  | .missingArgument => "a migration name is required"
  | .badValue => "an option has no value"
  | .repeatedOption => "an option stands there twice"
  | .surplusValue => "a flag takes no value"

/-- The outcome of a command line that is not carried out. -/
def refused (t : FileTree) : UsageStop → Outcome
  | .help => ⟨t, [say usage], 0⟩
  | .version => ⟨t, [say "sqlsync 0.1.0"], 0⟩
  | stop => ⟨t, [⟨.wrong, "error: " ++ stop.message ++ "\n\n" ++ usage⟩], 2⟩

/-- Carries a command line out, the name of the program in front, at the moment `now`. -/
def run (t : FileTree) (now : Stamp) (words : List String) : Outcome :=
  match read words with
  | .error stop => refused t stop
  | .ok invocation => carryOut t now invocation.request

end SchemaDrift.Command
