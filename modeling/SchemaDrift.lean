import SchemaDrift.Alter.Operation
import SchemaDrift.Alter.Step
import SchemaDrift.Change.Basic
import SchemaDrift.Change.Detect
import SchemaDrift.Command.Line
import SchemaDrift.Command.Run
import SchemaDrift.Config.Basic
import SchemaDrift.Digest.Sha256
import SchemaDrift.Json.Basic
import SchemaDrift.Json.Decode
import SchemaDrift.Json.Parse
import SchemaDrift.Json.Render
import SchemaDrift.Json.Sound
import SchemaDrift.Main
import SchemaDrift.Migration.Basic
import SchemaDrift.Migration.Name
import SchemaDrift.Migration.Synthesis
import SchemaDrift.Number.Rounding
import SchemaDrift.Project.Generate
import SchemaDrift.Project.Path
import SchemaDrift.Project.Scan
import SchemaDrift.Project.Status
import SchemaDrift.Project.Store
import SchemaDrift.Project.Summary
import SchemaDrift.Project.Tree
import SchemaDrift.Proofs.Alter.Clause
import SchemaDrift.Proofs.Alter.Closed
import SchemaDrift.Proofs.Alter.Constraint
import SchemaDrift.Proofs.Alter.Effect
import SchemaDrift.Proofs.Alter.Execution
import SchemaDrift.Proofs.Alter.History
import SchemaDrift.Proofs.Alter.KeyPlacement
import SchemaDrift.Proofs.Alter.KeyRebuild
import SchemaDrift.Proofs.Alter.KeyStatements
import SchemaDrift.Proofs.Alter.Modification
import SchemaDrift.Proofs.Alter.Operations
import SchemaDrift.Proofs.Alter.Pairing
import SchemaDrift.Proofs.Alter.Plan
import SchemaDrift.Proofs.Alter.Quoting
import SchemaDrift.Proofs.Alter.Replay
import SchemaDrift.Proofs.Alter.Sparing
import SchemaDrift.Proofs.Alter.Surroundings
import SchemaDrift.Proofs.Alter.Unmarked
import SchemaDrift.Proofs.Alter.Wording
import SchemaDrift.Proofs.Change.Accepted
import SchemaDrift.Proofs.Change.Partition
import SchemaDrift.Proofs.Change.SameTable
import SchemaDrift.Proofs.Change.Sections
import SchemaDrift.Proofs.Json.RoundTrip
import SchemaDrift.Proofs.Migration.Accepted
import SchemaDrift.Proofs.Migration.Drop
import SchemaDrift.Proofs.Migration.Emitted
import SchemaDrift.Proofs.Migration.Notes
import SchemaDrift.Proofs.Migration.Outline
import SchemaDrift.Proofs.Migration.Persisted
import SchemaDrift.Proofs.Migration.Readable
import SchemaDrift.Proofs.Migration.Remarks
import SchemaDrift.Proofs.Migration.Reported
import SchemaDrift.Proofs.Migration.RoundTrip
import SchemaDrift.Proofs.Migration.Run
import SchemaDrift.Proofs.Migration.Switched
import SchemaDrift.Proofs.Number.Rounding
import SchemaDrift.Proofs.Project.Again
import SchemaDrift.Proofs.Project.Commit
import SchemaDrift.Proofs.Project.Failure
import SchemaDrift.Proofs.Project.Layout
import SchemaDrift.Proofs.Project.Path
import SchemaDrift.Proofs.Project.Plan
import SchemaDrift.Proofs.Project.Saving
import SchemaDrift.Proofs.Project.Scan
import SchemaDrift.Proofs.Project.Sections
import SchemaDrift.Proofs.Project.Store
import SchemaDrift.Proofs.Project.Touched
import SchemaDrift.Proofs.Project.Tree
import SchemaDrift.Proofs.Project.Writing
import SchemaDrift.Proofs.Rename.Distance
import SchemaDrift.Proofs.Rename.Matching
import SchemaDrift.Proofs.Rename.Score
import SchemaDrift.Proofs.Rename.Stable
import SchemaDrift.Proofs.Rename.Symmetric
import SchemaDrift.Proofs.Snapshot.Entries
import SchemaDrift.Proofs.Snapshot.KeyRule
import SchemaDrift.Proofs.Snapshot.Origin
import SchemaDrift.Proofs.Snapshot.Retention
import SchemaDrift.Proofs.Snapshot.RoundTrip
import SchemaDrift.Proofs.Source.Deletion
import SchemaDrift.Proofs.Source.Joined
import SchemaDrift.Proofs.Source.ManualSpan
import SchemaDrift.Proofs.Source.Markers
import SchemaDrift.Proofs.Source.Reads
import SchemaDrift.Proofs.Source.Redirected
import SchemaDrift.Proofs.Source.Relaid
import SchemaDrift.Proofs.Source.Rescanned
import SchemaDrift.Proofs.Source.Shape
import SchemaDrift.Proofs.Source.Statements
import SchemaDrift.Proofs.Sql.Acceptance
import SchemaDrift.Proofs.Sql.Addressed
import SchemaDrift.Proofs.Sql.Closing
import SchemaDrift.Proofs.Sql.Coverage
import SchemaDrift.Proofs.Sql.Cutting
import SchemaDrift.Proofs.Sql.Decisions
import SchemaDrift.Proofs.Sql.Deletion
import SchemaDrift.Proofs.Sql.Enclosing
import SchemaDrift.Proofs.Sql.Exchange
import SchemaDrift.Proofs.Sql.Gaps
import SchemaDrift.Proofs.Sql.Hidden
import SchemaDrift.Proofs.Sql.Inert
import SchemaDrift.Proofs.Sql.Layout
import SchemaDrift.Proofs.Sql.Marking
import SchemaDrift.Proofs.Sql.Offsets
import SchemaDrift.Proofs.Sql.Parting
import SchemaDrift.Proofs.Sql.Pieces
import SchemaDrift.Proofs.Sql.Reading
import SchemaDrift.Proofs.Sql.Relaid
import SchemaDrift.Proofs.Sql.Respaced
import SchemaDrift.Proofs.Sql.Separator
import SchemaDrift.Proofs.Sql.Stable
import SchemaDrift.Proofs.Sql.Verbatim
import SchemaDrift.Proofs.Table.Aligned
import SchemaDrift.Proofs.Table.Aside
import SchemaDrift.Proofs.Table.Body
import SchemaDrift.Proofs.Table.Brackets
import SchemaDrift.Proofs.Table.Breaking
import SchemaDrift.Proofs.Table.ClauseKinds
import SchemaDrift.Proofs.Table.Clauses
import SchemaDrift.Proofs.Table.Columns
import SchemaDrift.Proofs.Table.Complete
import SchemaDrift.Proofs.Table.Entries
import SchemaDrift.Proofs.Table.Head
import SchemaDrift.Proofs.Table.Heading
import SchemaDrift.Proofs.Table.Inline
import SchemaDrift.Proofs.Table.KeyColumns
import SchemaDrift.Proofs.Table.Located
import SchemaDrift.Proofs.Table.Names
import SchemaDrift.Proofs.Table.Paired
import SchemaDrift.Proofs.Table.Pairs
import SchemaDrift.Proofs.Table.Parts
import SchemaDrift.Proofs.Table.Redeclared
import SchemaDrift.Proofs.Table.Rereading
import SchemaDrift.Proofs.Table.Restated
import SchemaDrift.Proofs.Table.RoundTrip
import SchemaDrift.Proofs.Table.Shell
import SchemaDrift.Proofs.Table.Span
import SchemaDrift.Proofs.Table.Stretches
import SchemaDrift.Proofs.Table.Texts
import SchemaDrift.Proofs.Text.Blank
import SchemaDrift.Proofs.Text.EditDistance
import SchemaDrift.Proofs.Text.EditScript
import SchemaDrift.Proofs.Text.Lines
import SchemaDrift.Proofs.Time.RoundTrip
import SchemaDrift.Rename.Matching
import SchemaDrift.Rename.Score
import SchemaDrift.Report.Console
import SchemaDrift.Report.Fault
import SchemaDrift.Report.Notice
import SchemaDrift.Snapshot.Basic
import SchemaDrift.Snapshot.Encoding
import SchemaDrift.Snapshot.History
import SchemaDrift.Snapshot.PathMap
import SchemaDrift.Source.File
import SchemaDrift.Sql.Directive
import SchemaDrift.Sql.Identifier
import SchemaDrift.Sql.Lexical
import SchemaDrift.Sql.Normal
import SchemaDrift.Sql.Split
import SchemaDrift.Sql.Statement
import SchemaDrift.Table.Basic
import SchemaDrift.Table.Column
import SchemaDrift.Table.Encoding
import SchemaDrift.Table.Entry
import SchemaDrift.Table.Error
import SchemaDrift.Table.Parse
import SchemaDrift.Table.Token
import SchemaDrift.Table.TypeName
import SchemaDrift.Text.Alphanumeric
import SchemaDrift.Text.Blank
import SchemaDrift.Text.EditDistance
import SchemaDrift.Text.Keyword
import SchemaDrift.Text.Lines
import SchemaDrift.Text.Lowercase
import SchemaDrift.Text.Ranges
import SchemaDrift.Text.WordChar
import SchemaDrift.Time.Reading
import SchemaDrift.Time.Stamp
import SchemaDrift.Toml.Basic
import SchemaDrift.Toml.Document
import SchemaDrift.Toml.Number
import SchemaDrift.Toml.Text
