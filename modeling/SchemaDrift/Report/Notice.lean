/-
  SchemaDrift.Report.Notice
  ─────────────────────────
  **WHAT A RUN SAYS WHILE IT GOES ON.**

  A notice is said once and shown in two ways: as a message with a level, for a program
  that collects them, or as a line for a terminal.
-/

namespace SchemaDrift

/-- What happened to a source file. -/
inductive FileEvent where
  | added
  | modified
  | deleted
  | unmodified
  | failed
  deriving Repr, DecidableEq

/-- The word for an event. -/
def FileEvent.label : FileEvent → String
  | .added => "Added"
  | .modified => "Modified"
  | .deleted => "Deleted"
  | .unmodified => "Unchanged"
  | .failed => "Failed"

/-- Something a run says. -/
inductive Notice where
  | success (text : String)
  | error (text : String)
  | info (text : String)
  | warning (text : String)
  | heading (text : String)
  | status (action text : String)
  | debug (text : String)
  | file (event : FileEvent) (path : String)
  deriving Repr, DecidableEq

/-- The level of a message. -/
inductive Level where
  | success
  | error
  | info
  | warning
  | heading
  | status
  | debug
  deriving Repr, DecidableEq

/-- The name of a level. -/
def Level.label : Level → String
  | .success => "Success"
  | .error => "Error"
  | .info => "Info"
  | .warning => "Warning"
  | .heading => "Heading"
  | .status => "Status"
  | .debug => "Debug"

/-- A collected notice. -/
structure Message where
  level : Level
  text : String
  deriving Repr, DecidableEq

/-- The notice as a message. -/
def Notice.message : Notice → Message
  | .success text => ⟨.success, text⟩
  | .error text => ⟨.error, text⟩
  | .info text => ⟨.info, text⟩
  | .warning text => ⟨.warning, text⟩
  | .heading text => ⟨.heading, text⟩
  | .status action text => ⟨.status, action ++ " " ++ text⟩
  | .debug text => ⟨.debug, text⟩
  | .file .unmodified path => ⟨.debug, FileEvent.unmodified.label ++ " " ++ path⟩
  | .file .failed path => ⟨.error, path⟩
  | .file event path => ⟨.status, event.label ++ " " ++ path⟩

end SchemaDrift
