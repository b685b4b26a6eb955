/-
  SchemaDrift.Command.Line
  ────────────────────────
  **THE COMMAND LINE.**

  Flags may stand anywhere, one letter or a whole word each.  The first word names a
  command; behind it stand the options of the command, each with a value, and its words.
  Two dashes alone make every word behind them a plain one.

  A value is looked at when the next option or word comes, not when it is read: of two
  mistakes the one that is seen first is told.
-/

import SchemaDrift.Text.Lines

namespace SchemaDrift.Command

open SchemaDrift.Text

/-! ## §1. What can be asked for. -/

/-- Where the sources are and where the results go, as far as it is said. -/
structure SourceOptions where
  migrationsDir : Option String := none
  stateFile : Option String := none
  sections : List String := []
  deriving Repr, DecidableEq

/-- What a run is to do. -/
inductive Request where
  /-- Write a file with example settings. -/
  | init
  | status (source : SourceOptions)
  | generate (name : String) (source : SourceOptions)
  deriving Repr, DecidableEq

/-- A command line that can be carried out. -/
structure Invocation where
  /-- How many times more words were asked for. -/
  verbosity : Nat
  request : Request
  deriving Repr, DecidableEq

/-- Why a command line is not carried out. -/
inductive UsageStop where
  /-- Help was asked for. -/
  | help
  /-- The version was asked for. -/
  | version
  /-- Nothing was asked for. -/
  | nothingAsked
  | missingCommand
  | unknownCommand
  | unknownArgument
  | missingArgument
  | badValue
  /-- An option with a single value stands there twice. -/
  | repeatedOption
  /-- A value for a flag that takes none. -/
  | surplusValue
  deriving Repr, DecidableEq

/-- The commands. -/
inductive Verb where
  | init
  | status
  | generate
  deriving Repr, DecidableEq

/-- The command that a word names. -/
def Verb.of? (word : String) : Option Verb :=
  match word with
  | "init" => some .init
  | "status" => some .status
  | "generate" => some .generate
  | _ => none

/-- The options that take a value. -/
inductive ValueOption where
  | migrationsDir
  | stateFile
  | section
  deriving Repr, DecidableEq

/-- The option of a command that a word behind two dashes names. -/
def Verb.option? (verb : Verb) (word : String) : Option ValueOption :=
  if verb = .init then none
  else
    match word with
    | "migrations-dir" => some .migrationsDir
    | "state-file" => some .stateFile
    | "section" => some .section
    | _ => none

/-! ## §2. Words that begin with dashes. -/

/-- The name of a long option, and the value behind an equals sign. -/
def longOption? (word : String) : Option (String × Option String) :=
  match word.toList with
  | '-' :: '-' :: c :: rest =>
    match splitOnce? '=' (c :: rest) with
    | some (name, value) => some (String.ofList name, some (String.ofList value))
    | none => some (String.ofList (c :: rest), none)
  | _ => none

/-- The letters of flags written together. -/
def flagLetters? (word : String) : Option (List Char) :=
  match word.toList with
  | '-' :: c :: rest => if c = '-' then none else some (c :: rest)
  | _ => none

/-! ## §3. A command line that is read in part. -/

/-- What a command line has said so far. -/
structure Progress where
  /-- The number of times that more words were asked for, if they were. -/
  verbosity : Option Nat := none
  source : SourceOptions := {}
  name : Option String := none
  /-- The latest option, as long as nobody has looked at its value. -/
  pending : Option (ValueOption × Option String) := none
  deriving Repr, DecidableEq

namespace Progress

/-- More words are asked for once more; more than 255 times is not counted. -/
def louder (d : Progress) : Progress :=
  { d with verbosity := some (min 255 (d.verbosity.getD 0 + 1)) }

/-- An option is given this value. -/
def give (d : Progress) (o : ValueOption) (value : String) : Except UsageStop Progress :=
  let s := d.source
  let once := fun (earlier : Option String) (s : SourceOptions) =>
    if earlier.isSome then .error .repeatedOption
    else if value = "" then .error .badValue
    else .ok { d with source := s }
  match o with
  | .migrationsDir => once s.migrationsDir { s with migrationsDir := some value }
  | .stateFile => once s.stateFile { s with stateFile := some value }
  | .section => once none { s with sections := s.sections ++ [value] }

/-- Looks at the value of the latest option. -/
def settle (d : Progress) : Except UsageStop Progress :=
  match d.pending with
  | none => .ok d
  | some (_, none) => .error .badValue
  | some (o, some value) => { d with pending := none }.give o value

/-- Reads flags; the version is told only where `hasVersion` says so. -/
def flags (hasVersion : Bool) (d : Progress) : List Char → Except UsageStop Progress
  | [] => .ok d
  | c :: rest =>
    if c = 'v' then d.settle.bind fun d => d.louder.flags hasVersion rest
    else if c = 'h' then d.settle.bind fun _ => .error .help
    else if c = 'V' && hasVersion then .error .version
    else .error .unknownArgument

/-- Reads a flag written as a whole word, perhaps with a value. -/
def longFlag (hasVersion : Bool) (d : Progress) (name : String) (value : Option String) :
    Except UsageStop Progress :=
  if !(["verbose", "help"].contains name || (name = "version" && hasVersion)) then
    .error .unknownArgument
  else if value.isSome then .error .surplusValue
  else
    d.settle.bind fun d =>
      if name = "verbose" then .ok d.louder
      else .error (if name = "help" then .help else .version)

/-- Reads a word that is no option of the command `verb`. -/
def word (verb : Verb) (d : Progress) (w : String) : Except UsageStop Progress :=
  if verb = .generate && d.name.isNone then
    d.settle.map fun d => { d with name := some w }
  else .error .unknownArgument

/-- Reads a word that may be an option of the command `verb`. -/
def argument (verb : Verb) (d : Progress) (w : String) : Except UsageStop Progress :=
  match longOption? w, flagLetters? w with
  | some (name, value), _ =>
    match verb.option? name, value with
    | some o, some v => d.settle.bind fun d => d.give o v
    | some o, none => d.settle.map fun d => { d with pending := some (o, none) }
    | none, _ => d.longFlag false name value
  | none, some letters => d.flags false letters
  | none, none =>
    match d.pending with
    | some (o, none) => .ok { d with pending := some (o, some w) }
    | _ => d.word verb w

/-- Reads the words behind the name of the command `verb`. -/
def arguments (verb : Verb) (d : Progress) : List String → Except UsageStop Progress
  | [] => d.settle
  | w :: rest =>
    if w = "--" then (rest.foldlM (word verb) d).bind settle
    else (d.argument verb w).bind fun d => d.arguments verb rest

/-- What a command line asks for that has named the command `verb`. -/
def request (verb : Verb) (d : Progress) : Except UsageStop Request :=
  match verb, d.name with
  | .init, _ => .ok .init
  | .status, _ => .ok (.status d.source)
  | .generate, some name => .ok (.generate name d.source)
  | .generate, none => .error .missingArgument

end Progress

/-! ## §4. The whole command line. -/

/-- Help on the command that words name. -/
def helpOn (words : List String) : UsageStop :=
  match words with
  | [] => .help
  | [w] => if w = "help" || (Verb.of? w).isSome then .help else .unknownCommand
  | _ => .unknownCommand

/-- What is told where no command is named. -/
def Progress.noCommand (d : Progress) : UsageStop :=
  if d.verbosity.isNone then .nothingAsked else .missingCommand

/-- What a word that names no command is taken for, behind two dashes. -/
def notACommand (w : String) : UsageStop :=
  if w = "help" || (Verb.of? w).isSome then .unknownArgument else .unknownCommand

/-- Reads a command line behind the name of the program; `d` is what was read already.
The count of a flag behind the name of a command goes before one in front of it. -/
def readFrom (d : Progress) : List String → Except UsageStop Invocation
  | [] => .error d.noCommand
  | w :: rest =>
    match Verb.of? w with
    | some verb => do
      let d' ← ({} : Progress).arguments verb rest
      let request ← d'.request verb
      return ⟨(d'.verbosity <|> d.verbosity).getD 0, request⟩
    | none =>
      if w = "help" then .error (helpOn rest)
      else if w = "--" then
        match rest with
        | [] => .error d.noCommand
        | w :: _ => .error (notACommand w)
      else
        match longOption? w, flagLetters? w with
        | some (name, value), _ => (d.longFlag true name value).bind fun d => readFrom d rest
        | none, some letters => (d.flags true letters).bind fun d => readFrom d rest
        | none, none => .error .unknownCommand

/-- Reads a command line, the name of the program in front. -/
def read (words : List String) : Except UsageStop Invocation := readFrom {} words.tail

end SchemaDrift.Command
