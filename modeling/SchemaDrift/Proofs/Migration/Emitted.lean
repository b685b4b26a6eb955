/-
  SchemaDrift.Proofs.Migration.Emitted
  ────────────────────────────────────
  **THE STATEMENTS THAT A MIGRATION EMITS.**

  The lines of a migration are its head and three sections, and a section is what its
  changes give one behind the other.  Of the lines only marked statements are emitted:

      added      every statement of the file
      modified   every statement of an altered table, or the statements that are new
      deleted    one statement that drops the table, if a table is known

  Together they are all that the migration records (`record_statements_eq`).
-/

import SchemaDrift.Migration.Synthesis
import SchemaDrift.Proofs.Change.Sections

namespace SchemaDrift

open SchemaDrift.Sql SchemaDrift.Digest

/-! ## §1. Lines of drafts. -/

@[simp] theorem Draft.append_lines (d e : Draft) : (d ++ e).lines = d.lines ++ e.lines := rfl

@[simp] theorem Draft.ofLines_lines (l : List MigrationLine) : (Draft.ofLines l).lines = l := rfl

/-- Drafts one behind the other have their lines one behind the other. -/
theorem foldl_draft_lines {α : Type} (draft : α → Draft) (l : List α) (d : Draft) :
    (l.foldl (fun d a => d ++ draft a) d).lines
      = d.lines ++ l.flatMap fun a => (draft a).lines := by
  induction l generalizing d with
  | nil =>
    rw [List.foldl_nil, List.flatMap_nil, List.append_nil]
  | cons a l ih =>
    rw [List.foldl_cons, ih, Draft.append_lines, List.flatMap_cons, List.append_assoc]

/-- The lines above the changes of an event; none if there is no change. -/
def headingLines (changes : List FileChange) (event : FileEvent) : List MigrationLine :=
  if changes.isEmpty then [] else [.note (banner event), .blank]

/-- A section is its heading and the lines of its changes. -/
theorem draftSection_lines (changes : List FileChange) (event : FileEvent) :
    (draftSection changes event).lines
      = headingLines (changes.filter (·.event = event)) event
        ++ (changes.filter (·.event = event)).flatMap fun c => (draftChange c).lines := by
  unfold draftSection headingLines
  cases h : changes.filter (·.event = event) with
  | nil => rfl
  | cons c here =>
    dsimp only
    rw [List.isEmpty_cons, if_neg Bool.false_ne_true, foldl_draft_lines]
    rfl

/-- The lines at the head of a migration. -/
def headLines (name : String) (createdAt : Stamp) : List MigrationLine :=
  [.note ("-- Migration: " ++ name), .note ("-- Created: " ++ createdAt.toProse), .blank]

/-- **A migration is its head and a section for each event.** -/
theorem synthesize_lines (name : String) (createdAt : Stamp) (d : TreeDiff) (next : Snapshot) :
    (synthesize name createdAt d next).lines
      = headLines name createdAt ++ (draftSection d.changes .added).lines
        ++ (draftSection d.changes .modified).lines
        ++ (draftSection d.changes .deleted).lines := rfl

/-! ## §2. What a change emits. -/

/-- The statement that drops a table. -/
def dropTable (t : Table) : String := "DROP TABLE IF EXISTS " ++ t.sqlName ++ ";"

/-- What a file without a record emits: its statements. -/
def emittedByAdded (f : SourceFile) : List MigrationLine := f.statements.map (fileStatement f.path)

/-- What a file emits that differs from its record: the statements that alter its table, or
those it did not have before. -/
def emittedByModified (f : SourceFile) (previous : Record) : List MigrationLine :=
  match modification? f previous with
  | some (.tableAltered _ _ operations) => (operations.flatMap (·.sql)).map (madeStatement f.path)
  | some (.content _) =>
    (f.statements.filter (!previous.statementHashes.contains ·.hash)).map (fileStatement f.path)
  | _ => []

/-- What a record without a file emits: the statement that drops its table. -/
def emittedByDeleted (path : String) (previous : Record) : List MigrationLine :=
  (previous.table?.map fun t => madeStatement path (dropTable t)).toList

/-- What a tree of files emits against a snapshot, section by section and by path. -/
def emitted (files : List SourceFile) (s : Snapshot) : List MigrationLine :=
  ((byPath files).filter fun f => (s.get? f.path).isNone).flatMap emittedByAdded
    ++ (byPath files).flatMap (fun f => ((s.get? f.path).map (emittedByModified f)).getD [])
    ++ (goneRecords files s).flatMap fun e => emittedByDeleted e.1 e.2

/-- The marked statements among some lines. -/
def marked (lines : List MigrationLine) : List MigrationLine :=
  lines.filter fun l => l.origin?.isSome

@[simp] theorem marked_nil : marked [] = [] := rfl

@[simp] theorem marked_append (l l' : List MigrationLine) :
    marked (l ++ l') = marked l ++ marked l' := List.filter_append _ _

@[simp] theorem marked_note (text : String) (l : List MigrationLine) :
    marked (.note text :: l) = marked l := rfl

@[simp] theorem marked_blank (l : List MigrationLine) : marked (.blank :: l) = marked l := rfl

@[simp] theorem marked_statement (path hash sql : String) (l : List MigrationLine) :
    marked (.statement path hash sql :: l) = .statement path hash sql :: marked l := rfl

theorem marked_flatMap {α : Type} (l : List α) (f : α → List MigrationLine) :
    marked (l.flatMap f) = l.flatMap fun a => marked (f a) := List.filter_flatMap

/-- Notes emit nothing. -/
theorem marked_notes (l : List String) : marked (l.map .note) = [] := by
  induction l with
  | nil => rfl
  | cons text l ih => rw [List.map_cons, marked_note, ih]

theorem marked_fileStatements (path : String) (l : List Statement) :
    marked (l.map (fileStatement path)) = l.map (fileStatement path) := by
  induction l with
  | nil => rfl
  | cons a l ih => rw [List.map_cons, fileStatement, marked_statement, ih]

theorem marked_madeStatements (path : String) (l : List String) :
    marked (l.map (madeStatement path)) = l.map (madeStatement path) := by
  induction l with
  | nil => rfl
  | cons a l ih => rw [List.map_cons, madeStatement, marked_statement, ih]

/-- The statements of a file as comments emit nothing. -/
theorem marked_dump (f : SourceFile) : marked (dump f) = [] := by
  have hdump : dump f
      = (f.statements.map fun s => commented (terminate s.raw.toList)).map .note := by
    unfold dump
    rw [List.map_map]
    rfl
  rw [hdump, marked_notes]

theorem marked_review (f : SourceFile) (notes : List String) :
    marked (draftReview f notes).lines = [] := by
  unfold draftReview
  rw [marked_append, marked_notes, marked_dump]
  rfl

/-! ## §3. What a change drafts. -/

theorem marked_added (f : SourceFile) : marked (draftAdded f).lines = emittedByAdded f := by
  unfold draftAdded fileLine emittedByAdded
  rw [Draft.ofLines_lines]
  cases h : f.statements with
  | nil => rfl
  | cons s l =>
    rw [List.isEmpty_cons, if_neg Bool.false_ne_true, marked_append, List.cons_append,
      List.nil_append, marked_note, marked_fileStatements, marked_blank, marked_nil,
      List.append_nil]

/-- The operations on a table emit their statements. -/
theorem marked_operation (path table : String) (o : Alter.Operation) :
    marked (draftOperation path table o).lines = o.sql.map (madeStatement path) := by
  unfold draftOperation
  rw [Draft.append_lines, Draft.append_lines, Draft.ofLines_lines, Draft.ofLines_lines,
    marked_append, marked_append, marked_note, marked_nil, List.nil_append,
    marked_madeStatements]
  split
  · rfl
  · rfl

/-- The statements among the lines of gained and lost statements. -/
theorem marked_changes (path : String) (l : List StatementChange) :
    marked (l.map (changeLine path))
      = (l.filterMap StatementChange.added?).map (fileStatement path) := by
  induction l with
  | nil => rfl
  | cons c l ih =>
    cases c with
    | added s =>
      rw [List.map_cons, changeLine, fileStatement, marked_statement, ih]
      rfl
    | deleted hash =>
      rw [List.map_cons, changeLine, marked_note, ih]
      rfl

/-- The statements that a file has gained are those it did not have. -/
theorem added_of_statementChanges (f : SourceFile) (previous : Record) :
    (statementChanges f previous).filterMap StatementChange.added?
      = f.statements.filter (!previous.statementHashes.contains ·.hash) := by
  unfold statementChanges
  rw [List.filterMap_append, List.filterMap_map, List.filterMap_map]
  have hlost : (previous.statementHashes.filter
      (!(f.statements.map (·.hash)).contains ·)).filterMap
        (StatementChange.added? ∘ StatementChange.deleted) = [] := by
    rw [List.filterMap_eq_nil_iff]
    intro a _
    rfl
  have hgained : ∀ l : List Statement,
      l.filterMap (StatementChange.added? ∘ StatementChange.added) = l := by
    intro l
    exact List.filterMap_some
  rw [hlost, hgained, List.nil_append]

theorem marked_content (f : SourceFile) (changes : List StatementChange) :
    marked (contentLines f changes)
      = (changes.filterMap StatementChange.added?).map (fileStatement f.path) := by
  unfold contentLines
  by_cases hsplit : f.isSplit = true
  · rw [if_pos hsplit, marked_append, marked_changes]
    split
    · rw [marked_note, marked_nil, List.append_nil]
    · rw [marked_nil, List.append_nil]
  · rw [if_neg hsplit, marked_append, marked_fileStatements]
    split
    · rfl
    · split
      · rfl
      · rfl

/-- What a modification tells of the file and its record. -/
def Modification.Of (f : SourceFile) (previous : Record) : Modification → Prop
  | .tableAltered old current operations =>
    previous.table? = some old ∧ f.table? = some current ∧ operations = Alter.diff old current
  | .declarativeDisabled table => table = previous.table?
  | .content changes => changes = statementChanges f previous
  | .tableStructureUnavailable | .becameDeclarative => True

/-- **A modification that is found tells what is there.** -/
theorem modification_of {f : SourceFile} {previous : Record} {detail : Modification}
    (h : modification? f previous = some detail) : detail.Of f previous := by
  have hunavailable : ∀ {raw : Bool},
      (if raw then some Modification.tableStructureUnavailable else none) = some detail →
      detail.Of f previous := by
    intro raw h
    split at h
    · rw [← Option.some.inj h]
      trivial
    · cases h
  unfold modification? at h
  dsimp only at h
  split at h
  · rw [← Option.some.inj h]
    trivial
  · next r _ =>
    split at h
    · next old current hold hcurrent =>
      split at h
      · split at h
        · cases h
        · rw [← Option.some.inj h]
          exact ⟨hold, hcurrent, rfl⟩
      · exact hunavailable h
    · exact hunavailable h
  · rw [← Option.some.inj h]
    rfl
  · split at h
    · rw [← Option.some.inj h]
      rfl
    · cases h

/-- What is drafted below the name of a modified file. -/
theorem marked_detail (f : SourceFile) (previous : Record) {detail : Modification}
    (h : modification? f previous = some detail) :
    marked (draftDetail f previous detail).lines = emittedByModified f previous := by
  unfold emittedByModified
  rw [h]
  cases detail with
  | tableAltered old current operations =>
    dsimp only [draftDetail]
    rw [foldl_draft_lines, marked_append, marked_flatMap, List.map_flatMap]
    exact List.flatMap_congr fun o _ => marked_operation f.path _ o
  | tableStructureUnavailable => exact marked_review f _
  | becameDeclarative =>
    dsimp only [draftDetail]
    split
    · rfl
    · exact marked_review f _
  | declarativeDisabled table =>
    dsimp only [draftDetail]
    split
    · rfl
    · rw [Draft.append_lines, marked_append, marked_review]
      rfl
  | content changes =>
    dsimp only [draftDetail]
    have hchanges : changes = statementChanges f previous := modification_of h
    rw [Draft.ofLines_lines, marked_content, hchanges, added_of_statementChanges]

theorem marked_modified (f : SourceFile) (previous : Record) {detail : Modification}
    (h : modification? f previous = some detail) :
    marked (draftModified f previous detail).lines = emittedByModified f previous := by
  unfold draftModified fileLine
  rw [Draft.append_lines, Draft.append_lines, marked_append, marked_append,
    marked_detail f previous h]
  simp

theorem marked_deleted (path : String) (previous : Record) :
    marked (draftDeleted path previous).lines = emittedByDeleted path previous := by
  unfold draftDeleted emittedByDeleted
  cases previous.table? with
  | some t => rfl
  | none =>
    dsimp only
    split
    · rfl
    · have hnotes : previous.statementHashes.map (fun hash => MigrationLine.note
          ("--   statement " ++ hash))
          = (previous.statementHashes.map ("--   statement " ++ ·)).map .note := by
        rw [List.map_map]
        rfl
      rw [hnotes, Draft.append_lines, Draft.append_lines, marked_append, marked_append]
      show ([] ++ marked (.note _ :: _)) ++ [] = _
      rw [marked_note, marked_notes]
      rfl

/-- A file without a modification emits nothing. -/
theorem emittedByModified_none {f : SourceFile} {previous : Record}
    (h : modification? f previous = none) : emittedByModified f previous = [] := by
  unfold emittedByModified
  rw [h]

/-! ## §4. What the migration records. -/

theorem marked_heading (changes : List FileChange) (event : FileEvent) :
    marked (headingLines changes event) = [] := by
  unfold headingLines
  split
  · rfl
  · rfl

/-- A section emits what its changes emit. -/
theorem marked_section (changes : List FileChange) (event : FileEvent) :
    marked (draftSection changes event).lines
      = (changes.filter (·.event = event)).flatMap fun c => marked (draftChange c).lines := by
  rw [draftSection_lines, marked_append, marked_heading, List.nil_append, marked_flatMap]

/-- **The marked statements of a migration are those its changes emit**, section by section
and by path. -/
theorem marked_synthesize {files : List SourceFile} {s : Snapshot}
    (h : (files.map (·.path)).Nodup) (name : String) (createdAt : Stamp) (next : Snapshot) :
    marked (synthesize name createdAt (treeDiff files s) next).lines = emitted files s := by
  rw [synthesize_lines, marked_append, marked_append, marked_append, marked_section,
    marked_section, marked_section, changes_added h, changes_modified h, changes_deleted h]
  unfold emitted
  have hadded : ((byPath files).filter fun f => (s.get? f.path).isNone).flatMap
      (fun f => marked (draftChange (.added f)).lines)
      = ((byPath files).filter fun f => (s.get? f.path).isNone).flatMap emittedByAdded :=
    List.flatMap_congr fun f _ => marked_added f
  have hdeleted : (goneRecords files s).flatMap
      (fun e => marked (draftChange (.deleted e.1 e.2)).lines)
      = (goneRecords files s).flatMap fun e => emittedByDeleted e.1 e.2 :=
    List.flatMap_congr fun e _ => marked_deleted e.1 e.2
  -- a file without a change is in no section, and emits nothing
  have hmodified : ∀ l : List SourceFile,
      (l.filterMap fun f => (s.get? f.path).bind fun r =>
        (modification? f r).map (.modified f r)).flatMap (fun c => marked (draftChange c).lines)
      = l.flatMap fun f => ((s.get? f.path).map (emittedByModified f)).getD [] := by
    intro l
    induction l with
    | nil => rfl
    | cons f l ih =>
      rw [List.flatMap_cons, ← ih]
      cases hr : s.get? f.path with
      | none =>
        rw [List.filterMap_cons_none (by rw [hr]; rfl)]
        rfl
      | some r =>
        cases hm : modification? f r with
        | none =>
          rw [List.filterMap_cons_none (by rw [hr]; simp [hm]), Option.map_some, Option.getD_some,
            emittedByModified_none hm, List.nil_append]
        | some detail =>
          rw [List.filterMap_cons_some (b := .modified f r detail) (by rw [hr]; simp [hm]),
            List.flatMap_cons, Option.map_some, Option.getD_some]
          exact congrArg (· ++ _) (marked_modified f r hm)
  rw [List.flatMap_map, List.flatMap_map, hadded, hdeleted, hmodified]
  rfl

/-- **A migration records the statements that its changes emit.** -/
theorem record_statements_eq {files : List SourceFile} {s : Snapshot}
    (h : (files.map (·.path)).Nodup) (name : String) (createdAt : Stamp) (next : Snapshot) :
    (synthesize name createdAt (treeDiff files s) next).record.statements
      = (emitted files s).filterMap MigrationLine.origin? := by
  rw [← marked_synthesize h name createdAt next]
  unfold marked
  rw [List.filterMap_filter]
  refine List.filterMap_congr ?_
  intro l _
  cases hl : l.origin? with
  | none => rfl
  | some o => rfl

end SchemaDrift
