/-
  SchemaDrift.Proofs.Migration.Remarks
  ────────────────────────────────────
  **WHAT A MIGRATION SAYS BETWEEN ITS STATEMENTS.**

  A line of a migration that is no statement is blank, a note, or a text that is noted line
  by line (`Told`).  Notes repeat paths, names and digests (`FileChange.repeated`); those
  that are of one line keep the note a comment.  The texts noted line by line are statements
  of files whose SQL is to be written by hand (`FileChange.dumped`); every line of them is a
  comment, but it may be a marker.

      told_change     the lines that a change drafts
      notes_inert     the whole migration
-/

import SchemaDrift.Proofs.Migration.Emitted
import SchemaDrift.Proofs.Migration.Notes
import SchemaDrift.Proofs.Source.Statements

namespace SchemaDrift

open SchemaDrift.Sql SchemaDrift.Text SchemaDrift.Digest SchemaDrift.Number

/-! ## §1. What is repeated. -/

/-- The names that the notes of an operation on the table repeat. -/
def Alter.Operation.repeated (table : String) (o : Alter.Operation) : List String :=
  match o.kind with
  | .add column | .drop column | .modify column _ => [column]
  | .rename source target _ unsure =>
    if unsure then [source, target, table] else [source, target]

/-- The identity of the statement that a file has lost. -/
def StatementChange.lost? : StatementChange → Option String
  | .added _ => none
  | .deleted hash => some hash

/-- The names and identities that the notes of a modification repeat. -/
def Modification.repeated (f : SourceFile) : Modification → List String
  | .tableAltered _ current operations => operations.flatMap (·.repeated current.qualifiedName)
  | .declarativeDisabled table => (table.map Table.qualifiedName).toList
  | .content changes => if f.isSplit then changes.filterMap StatementChange.lost? else []
  | .tableStructureUnavailable | .becameDeclarative => []

/-- The paths, names and identities that the notes of a change repeat. -/
def FileChange.repeated : FileChange → List String
  | .added f => [f.path]
  | .modified f _ detail => f.path :: detail.repeated f
  | .deleted path previous =>
    path :: match previous.table? with
      | some table => [table.qualifiedName]
      | none => if previous.isDeclarative then [] else previous.statementHashes

/-- The statements of a modified file that are only noted. -/
def reviewed (f : SourceFile) (previous : Record) : Modification → List Statement
  | .tableStructureUnavailable => f.statements
  | .becameDeclarative | .declarativeDisabled _ =>
    if isUnchanged f previous then [] else f.statements
  | .tableAltered _ _ _ | .content _ => []

/-- The texts that a change notes line by line. -/
def FileChange.dumped : FileChange → List (List Char)
  | .modified f previous detail =>
    (reviewed f previous detail).map fun st => terminate st.raw.toList
  | .added _ | .deleted _ _ => []

/-! ## §2. Lines that are no statements. -/

/-- If the line is no statement it says nothing, or it is one of the texts, noted line by
line. -/
def Told (texts : List (List Char)) (l : MigrationLine) : Prop :=
  l.origin? = none → Silent l.render.toList ∨ ∃ t ∈ texts, l = .note (commented t)

variable {texts : List (List Char)}

/-- Such a line is read back, if the texts make no markers in notes. -/
theorem Told.readable {l : MigrationLine} (h : Told texts l) (horigin : l.origin? = none)
    (htexts : ∀ t ∈ texts, Unmarked "-- ".toList ('\n' :: t)) : l.Readable := by
  rcases h horigin with hsilent | ⟨t, ht, rfl⟩
  · cases l with
    | note text =>
      unfold MigrationLine.render at hsilent
      rw [String.toList_append] at hsilent
      exact .note hsilent
    | blank => exact .blank
    | statement path hash sql => cases horigin
  · exact .note (silent_commented (htexts t ht))

theorem told_note {text : String} (h : Silent (text.toList ++ ['\n'])) :
    Told texts (.note text) := by
  intro _
  left
  unfold MigrationLine.render
  rw [String.toList_append]
  exact h

/-- A note that is fixed. -/
theorem told_fixed {text : String} (h : IsFront text) : Told texts (.note text) :=
  told_note (silent_fixed h)

theorem told_blank : Told texts .blank := fun _ => Or.inl silent_feed

theorem told_statement (path hash sql : String) : Told texts (.statement path hash sql) := by
  intro h
  cases h

theorem told_fileLine {path : String} (h : Inline path) : Told texts (fileLine path) :=
  told_note (silent_remark _ (isFront_ofList (by decide)) h)

theorem told_fileStatements (path : String) (l : List Statement) :
    ∀ line ∈ l.map (fileStatement path), Told texts line := by
  rw [List.forall_mem_map]
  exact fun st _ => told_statement _ _ _

/-- What a change asks for by hand. -/
theorem told_review {f : SourceFile} {notes : List String} (h : ∀ text ∈ notes, IsFront text) :
    ∀ l ∈ (draftReview f notes).lines, Told (f.statements.map fun st => terminate st.raw.toList) l := by
  unfold draftReview dump
  rw [List.forall_mem_append, List.forall_mem_map, List.forall_mem_map]
  refine ⟨fun text htext => told_fixed (h text htext), fun st hst _ => Or.inr ?_⟩
  exact ⟨_, List.mem_map_of_mem hst, rfl⟩

/-! ## §3. What changes draft. -/

theorem told_added {f : SourceFile} (hf : Inline f.path) :
    ∀ l ∈ (draftAdded f).lines, Told texts l := by
  unfold draftAdded
  rw [Draft.ofLines_lines, List.forall_mem_append, List.cons_append, List.forall_mem_cons,
    List.forall_mem_append, List.forall_mem_singleton]
  refine ⟨⟨told_fileLine hf, ?_, told_fileStatements _ _⟩, told_blank⟩
  split
  · exact List.forall_mem_singleton.2 (told_fixed (isFront_ofList (by decide)))
  · exact List.forall_mem_nil _

/-- What an operation drafts. -/
theorem told_operation {path table : String} {o : Alter.Operation}
    (h : ∀ x ∈ o.repeated table, Inline x) :
    ∀ l ∈ (draftOperation path table o).lines, Told texts l := by
  have hnames : o.NamesInline := by
    unfold Alter.Operation.repeated at h
    unfold Alter.Operation.NamesInline
    cases hkind : o.kind with
    | add column => exact h column (by rw [hkind]; exact List.mem_cons_self)
    | drop column => exact h column (by rw [hkind]; exact List.mem_cons_self)
    | modify column changes => exact h column (by rw [hkind]; exact List.mem_cons_self)
    | rename source target confidence unsure =>
      rw [hkind] at h
      cases unsure
      · exact ⟨h source (by simp), h target (by simp)⟩
      · exact ⟨h source (by simp), h target (by simp)⟩
  unfold draftOperation
  rw [Draft.append_lines, Draft.append_lines, List.forall_mem_append, List.forall_mem_append]
  refine ⟨⟨List.forall_mem_singleton.2 (told_note (silent_describe hnames)), ?_⟩, ?_⟩
  -- only a rename that is unsure has a second note, which repeats the name of the table too
  · split
    · next source target confidence hkind =>
      unfold Alter.Operation.repeated at h
      rw [hkind] at h
      have htext : Inline (source ++ (" -> " ++ (target ++ (" on " ++ (table ++ (" (score "
          ++ (fixed 2 confidence ++ "); confirm before applying"))))))) := by
        simp only [inline_append]
        exact ⟨h source (by simp), by decide, h target (by simp), by decide, h table (by simp),
          by decide, inline_fixed 2 confidence, by decide⟩
      refine List.forall_mem_singleton.2 (told_note ?_)
      simp only [String.append_assoc]
      exact silent_remark _ (isFront_ofList (by decide)) htext
    · exact List.forall_mem_nil _
  · rw [Draft.ofLines_lines, List.forall_mem_map]
    exact fun sql _ => told_statement _ _ _

/-- What changes of statements draft. -/
theorem told_content {f : SourceFile} {changes : List StatementChange}
    (h : ∀ x ∈ (Modification.content changes).repeated f, Inline x) :
    ∀ l ∈ contentLines f changes, Told texts l := by
  have hfixed : ∀ {b : Bool} {text : String}, IsFront text →
      ∀ l ∈ (if b then [MigrationLine.note text] else []), Told texts l := by
    intro b text htext
    split
    · exact List.forall_mem_singleton.2 (told_fixed htext)
    · exact List.forall_mem_nil _
  unfold contentLines
  dsimp only [Modification.repeated] at h
  split
  · next hsplit =>
    rw [if_pos hsplit] at h
    rw [List.forall_mem_append, List.forall_mem_map]
    refine ⟨?_, hfixed (isFront_ofList (by decide))⟩
    intro change hchange
    cases change with
    | added st => exact told_statement _ _ _
    | deleted hash =>
      have hhash := h hash (List.mem_filterMap.2 ⟨_, hchange, rfl⟩)
      have htext : Inline (hash ++ " was removed from this file") :=
        inline_append.2 ⟨hhash, by decide⟩
      dsimp only [changeLine]
      rw [String.append_assoc]
      exact told_note (silent_remark _ (isFront_ofList (by decide)) htext)
  · dsimp only
    rw [List.forall_mem_append]
    refine ⟨?_, told_fileStatements _ _⟩
    split
    · exact List.forall_mem_singleton.2 (told_fixed (isFront_ofList (by decide)))
    · exact hfixed (isFront_ofList (by decide))

/-- What a modification drafts below the name of the file. -/
theorem told_detail {f : SourceFile} {previous : Record} {detail : Modification}
    (h : ∀ x ∈ detail.repeated f, Inline x) :
    ∀ l ∈ (draftDetail f previous detail).lines,
      Told ((reviewed f previous detail).map fun st => terminate st.raw.toList) l := by
  -- by the detail: fixed texts, names of one line, and statements that are told as dumps
  cases detail with
  | tableAltered old current operations =>
    dsimp only [draftDetail]
    rw [foldl_draft_lines]
    intro l hl
    obtain ⟨o, ho, hl⟩ := List.mem_flatMap.1 hl
    exact told_operation (fun x hx => h x (List.mem_flatMap.2 ⟨o, ho, hx⟩)) l hl
  | tableStructureUnavailable =>
    refine told_review ?_
    simp only [List.forall_mem_cons]
    exact ⟨isFront_ofList (by decide), isFront_ofList (by decide), by simp⟩
  | becameDeclarative =>
    dsimp only [draftDetail, reviewed]
    split
    · exact List.forall_mem_singleton.2 (told_fixed (isFront_ofList (by decide)))
    · refine told_review ?_
      simp only [List.forall_mem_cons]
      exact ⟨isFront_ofList (by decide), isFront_ofList (by decide), isFront_ofList (by decide),
        by simp⟩
  | declarativeDisabled table =>
    have hname : Inline ((table.map Table.qualifiedName).getD "unknown table") := by
      cases table with
      | none => decide
      | some t => exact h t.qualifiedName (by simp [Modification.repeated])
    have hnote : ∀ texts, Told texts (MigrationLine.note ("-- NOTE: declarativeTable was turned off for "
        ++ (table.map Table.qualifiedName).getD "unknown table"
        ++ "; changes are no longer tracked structurally.")) := by
      intro texts
      have hclosing : Inline "; changes are no longer tracked structurally." :=
        inline_ofList (by decide)
      have htext := inline_append.2 ⟨hname, hclosing⟩
      rw [String.append_assoc]
      exact told_note (silent_remark _ (isFront_ofList (by decide)) htext)
    dsimp only [draftDetail, reviewed]
    split
    · rw [Draft.append_lines, List.forall_mem_append]
      exact ⟨List.forall_mem_singleton.2 (hnote _),
        List.forall_mem_singleton.2 (told_fixed (isFront_ofList (by decide)))⟩
    · rw [Draft.append_lines, List.forall_mem_append]
      refine ⟨List.forall_mem_singleton.2 (hnote _), told_review ?_⟩
      simp only [List.forall_mem_cons]
      exact ⟨isFront_ofList (by decide), isFront_ofList (by decide), by simp⟩
  | content changes => exact told_content h

/-- What a record without a file drafts. -/
theorem told_deleted {path : String} {previous : Record}
    (h : ∀ x ∈ (FileChange.deleted path previous).repeated, Inline x) :
    ∀ l ∈ (draftDeleted path previous).lines, Told texts l := by
  unfold FileChange.repeated at h
  rw [List.forall_mem_cons] at h
  obtain ⟨hpath, h⟩ := h
  unfold draftDeleted
  rw [Draft.append_lines, Draft.append_lines, List.forall_mem_append, List.forall_mem_append]
  refine ⟨⟨List.forall_mem_singleton.2 (told_fileLine hpath), ?_⟩,
    List.forall_mem_singleton.2 told_blank⟩
  cases htable : previous.table? with
  | some t =>
    rw [htable] at h
    have htext : Inline (t.qualifiedName ++ " was deleted; this drops the table and its data.") :=
      inline_append.2 ⟨h _ List.mem_cons_self, by decide⟩
    dsimp only
    rw [Draft.ofLines_lines, List.forall_mem_cons, List.forall_mem_singleton, String.append_assoc]
    exact ⟨told_note (silent_remark _ (isFront_ofList (by decide)) htext), told_statement _ _ _⟩
  | none =>
    rw [htable] at h
    dsimp only at h ⊢
    split
    · exact List.forall_mem_singleton.2 (told_fixed (isFront_ofList (by decide)))
    · next hplain =>
      rw [if_neg hplain] at h
      rw [Draft.ofLines_lines, List.forall_mem_cons, List.forall_mem_map]
      refine ⟨told_fixed (isFront_ofList (by decide)), fun hash hhash => ?_⟩
      exact told_note (silent_remark _ (isFront_ofList (by decide)) (h hash hhash))

/-- **What a change drafts besides statements says nothing**, if all that its notes repeat is
of one line, except for the texts that it notes line by line. -/
theorem told_change {c : FileChange} (h : ∀ x ∈ c.repeated, Inline x) :
    ∀ l ∈ (draftChange c).lines, Told c.dumped l := by
  cases c with
  | added f => exact told_added (h f.path List.mem_cons_self)
  | deleted path previous => exact told_deleted h
  | modified f previous detail =>
    obtain ⟨hpath, hdetail⟩ := List.forall_mem_cons.1 h
    show ∀ l ∈ (draftModified f previous detail).lines, _
    unfold draftModified
    rw [Draft.append_lines, Draft.append_lines, List.forall_mem_append, List.forall_mem_append]
    exact ⟨⟨List.forall_mem_singleton.2 (told_fileLine hpath), told_detail hdetail⟩,
      List.forall_mem_singleton.2 told_blank⟩

/-- The texts that a change notes line by line are among its lines. -/
theorem mem_draft_of_dumped {c : FileChange} {t : List Char} (ht : t ∈ c.dumped) :
    .note (commented t) ∈ (draftChange c).lines := by
  cases c with
  | added f => cases ht
  | deleted path previous => cases ht
  | modified f previous detail =>
    obtain ⟨st, hst, rfl⟩ := List.mem_map.1 ht
    have hreview : ∀ notes, st ∈ f.statements →
        .note (commented (terminate st.raw.toList)) ∈ (draftReview f notes).lines :=
      fun notes hmem => List.mem_append_right _ (List.mem_map_of_mem hmem)
    -- a detail with a review dumps the statements behind its notes
    have hdetail : .note (commented (terminate st.raw.toList))
        ∈ (draftDetail f previous detail).lines := by
      unfold reviewed at hst
      cases detail with
      | tableAltered old current operations => cases hst
      | content changes => cases hst
      | tableStructureUnavailable => exact hreview _ hst
      | becameDeclarative =>
        dsimp only [draftDetail] at hst ⊢
        split at hst
        · cases hst
        · next hchanged =>
          rw [if_neg hchanged]
          exact hreview _ hst
      | declarativeDisabled table =>
        dsimp only [draftDetail] at hst ⊢
        split at hst
        · cases hst
        · next hchanged =>
          rw [if_neg hchanged]
          exact List.mem_append_right _ (hreview _ hst)
    show _ ∈ (draftModified f previous detail).lines
    unfold draftModified
    rw [Draft.append_lines, Draft.append_lines]
    exact List.mem_append_left _ (List.mem_append_right _ hdetail)

/-! ## §4. Whole migrations. -/

theorem told_head {name : String} (hname : Inline name) (createdAt : Stamp) :
    ∀ l ∈ headLines name createdAt, Told texts l := by
  unfold headLines
  rw [List.forall_mem_cons, List.forall_mem_cons, List.forall_mem_singleton]
  exact ⟨told_note (silent_remark _ (isFront_ofList (by decide)) hname),
    told_note (silent_remark _ (isFront_ofList (by decide)) (inline_toProse createdAt)), told_blank⟩

theorem told_heading (event : FileEvent) :
    ∀ l ∈ [MigrationLine.note (banner event), .blank], Told texts l := by
  rw [List.forall_mem_cons, List.forall_mem_singleton]
  have hbanner : IsFront (banner event) := by
    cases event <;> exact isFront_ofList (by decide)
  exact ⟨told_fixed hbanner, told_blank⟩

/-- A line of a migration is of its head, of a heading or of a change. -/
theorem synthesize_cases {name : String} {createdAt : Stamp} {d : TreeDiff} {next : Snapshot}
    {l : MigrationLine} (h : l ∈ (synthesize name createdAt d next).lines) :
    l ∈ headLines name createdAt ∨ (∃ event, l ∈ [.note (banner event), .blank])
      ∨ ∃ c ∈ d.changes, l ∈ (draftChange c).lines := by
  have hsection : ∀ {event : FileEvent}, l ∈ (draftSection d.changes event).lines →
      (∃ event, l ∈ [.note (banner event), .blank]) ∨ ∃ c ∈ d.changes, l ∈ (draftChange c).lines := by
    intro event hl
    rw [draftSection_lines] at hl
    rcases List.mem_append.1 hl with hl | hl
    · left
      unfold headingLines at hl
      split at hl
      · cases hl
      · exact ⟨event, hl⟩
    · right
      obtain ⟨c, hc, hl⟩ := List.mem_flatMap.1 hl
      exact ⟨c, (List.mem_filter.1 hc).1, hl⟩
  rw [synthesize_lines] at h
  rcases List.mem_append.1 h with h | h
  · rcases List.mem_append.1 h with h | h
    · rcases List.mem_append.1 h with h | h
      · exact Or.inl h
      · exact Or.inr (hsection h)
    · exact Or.inr (hsection h)
  · exact Or.inr (hsection h)

/-- What a change drafts is in the migration. -/
theorem mem_synthesize {d : TreeDiff} {c : FileChange} (hc : c ∈ d.changes) {l : MigrationLine}
    (hl : l ∈ (draftChange c).lines) (name : String) (createdAt : Stamp) (next : Snapshot) :
    l ∈ (synthesize name createdAt d next).lines := by
  have hsection : l ∈ (draftSection d.changes c.event).lines := by
    rw [draftSection_lines]
    refine List.mem_append_right _ (List.mem_flatMap.2 ⟨c, ?_, hl⟩)
    exact List.mem_filter.2 ⟨hc, by simp⟩
  rw [synthesize_lines]
  cases c with
  | added f => exact List.mem_append_left _ (List.mem_append_left _ (List.mem_append_right _ hsection))
  | modified f previous detail => exact List.mem_append_left _ (List.mem_append_right _ hsection)
  | deleted path previous => exact List.mem_append_right _ hsection

/-- **Every line of a migration that is no statement says nothing**, if all that its notes
repeat is of one line, except for the texts that its changes note line by line. -/
theorem told_synthesize {name : String} (hname : Inline name) (createdAt : Stamp) {d : TreeDiff}
    (h : ∀ c ∈ d.changes, ∀ x ∈ c.repeated, Inline x) (next : Snapshot) :
    ∀ l ∈ (synthesize name createdAt d next).lines, Told (d.changes.flatMap (·.dumped)) l := by
  intro l hl
  rcases synthesize_cases hl with hl | ⟨event, hl⟩ | ⟨c, hc, hl⟩
  · exact told_head hname createdAt l hl
  · exact told_heading event l hl
  · intro horigin
    rcases told_change (h c hc) l hl horigin with hsilent | ⟨t, ht, rfl⟩
    · exact Or.inl hsilent
    · exact Or.inr ⟨t, List.mem_flatMap.2 ⟨c, hc, ht⟩, rfl⟩

/-- Lines that are told say nothing one behind the other. -/
theorem normalize_told {ls : List MigrationLine} (h : ∀ l ∈ ls, Told texts l)
    (hnone : ∀ l ∈ ls, l.origin? = none) : Sql.normalize (textOf ls) = [] := by
  refine normalize_bare ?_
  -- a text noted line by line may hold markers, but these are comments as well
  induction ls with
  | nil => exact Rows.nil
  | cons l ls ih =>
    obtain ⟨hl, hrest⟩ := List.forall_mem_cons.1 h
    obtain ⟨hlnone, hnone⟩ := List.forall_mem_cons.1 hnone
    have hbare : Rows Bare l.render.toList := by
      rcases hl hlnone with hsilent | ⟨t, -, rfl⟩
      · exact hsilent.imp fun l hl => hl.toBare
      · unfold MigrationLine.render
        rw [String.toList_append]
        exact bare_commented t
    exact hbare.append (ih hrest hnone)

/-- What stands between the statements of a migration has an empty normal form, whatever of
it is taken together. -/
theorem normalize_between {name : String} (hname : Inline name) (createdAt : Stamp) {d : TreeDiff}
    (h : ∀ c ∈ d.changes, ∀ x ∈ c.repeated, Inline x) (next : Snapshot) {run : List MigrationLine}
    (hrun : run.Sublist (synthesize name createdAt d next).lines)
    (hnone : ∀ l ∈ run, l.origin? = none) : Sql.normalize (textOf run) = [] :=
  normalize_told (fun l hl => told_synthesize hname createdAt h next l (hrun.subset hl)) hnone

/-- A line there is a marker exactly if a text that is noted line by line has a line that is
one behind the hyphens of the note. -/
theorem marker_between_iff {name : String} (hname : Inline name) (createdAt : Stamp) {d : TreeDiff}
    (h : ∀ c ∈ d.changes, ∀ x ∈ c.repeated, Inline x) (next : Snapshot) :
    (∃ l ∈ (synthesize name createdAt d next).lines, l.origin? = none
        ∧ ∃ line ∈ lines l.render.toList, marker? line ≠ none)
      ↔ ∃ c ∈ d.changes, ∃ t ∈ c.dumped, ∃ line ∈ lines t,
        marker? ("-- ".toList ++ line) ≠ none := by
  have hnote : ∀ t, (MigrationLine.note (commented t)).render.toList
      = (commented t).toList ++ ['\n'] := by
    intro t
    exact String.toList_append
  constructor
  · rintro ⟨l, hl, hnone, line, hline, hmarker⟩
    rcases told_synthesize hname createdAt h next l hl hnone with hsilent | ⟨t, ht, rfl⟩
    · exact absurd (Silent.unmarked hsilent line hline) hmarker
    · obtain ⟨c, hc, ht⟩ := List.mem_flatMap.1 ht
      rw [hnote] at hline
      exact ⟨c, hc, t, ht, (marker_commented_iff t).1 ⟨line, hline, hmarker⟩⟩
  · rintro ⟨c, hc, t, ht, hmarked⟩
    obtain ⟨line, hline, hmarker⟩ := (marker_commented_iff t).2 hmarked
    rw [← hnote] at hline
    exact ⟨_, mem_synthesize hc (mem_draft_of_dumped ht) name createdAt next, rfl, line, hline,
      hmarker⟩

/-- **Between its statements a migration executes nothing and has no marker**, as far as the
names and identities that its notes repeat are of one line each: what is said there has an
empty normal form, and a line there is a marker exactly if a text that is noted line by line
has a line that is one behind the hyphens of the note. -/
theorem notes_inert {files : List SourceFile} {s : Snapshot} (hok : ∀ f ∈ files, f.error? = none)
    {name : String} (hname : checkMigrationName name = .ok ()) (createdAt : Stamp) :
    ∃ d m, (compareTree files s).1 = .ok d ∧ m = synthesize name createdAt d (s.advance files)
      ∧ ((∀ c ∈ d.changes, ∀ x ∈ c.repeated, Inline x) →
        (∀ run : List MigrationLine, run.Sublist m.lines → (∀ l ∈ run, l.origin? = none) →
          Sql.normalize (textOf run) = [])
        ∧ ((∃ l ∈ m.lines, l.origin? = none
            ∧ ∃ line ∈ lines l.render.toList, marker? line ≠ none)
          ↔ ∃ c ∈ d.changes, ∃ t ∈ c.dumped, ∃ line ∈ lines t,
            marker? ("-- ".toList ++ line) ≠ none)) := by
  have hinline := inline_of_checkMigrationName hname
  refine ⟨_, _, compareTree_ok hok s, rfl, fun hrepeated => ?_⟩
  exact ⟨fun _ => normalize_between hinline createdAt hrepeated _,
    marker_between_iff hinline createdAt hrepeated _⟩

/-- A column is renamed, and a file that held a comment before declares a table. -/
theorem notes_inert_users :
    let id : Column := ⟨"id", "INT", true, none, false, false, none, none⟩
    let mail : Column := ⟨"mail", "TEXT", true, none, false, false, none, none⟩
    let email : Column := ⟨"email", "TEXT", true, none, false, false, none, none⟩
    let users : SourceFile := ⟨"users.sql", "1", ⟨true, false⟩,
      .ok ⟨[⟨"CREATE TABLE users (id int, email text)", some 2⟩],
        some ⟨"public", "users", [id, email]⟩⟩⟩
    let logs : SourceFile := ⟨"logs.sql", "2", ⟨true, false⟩,
      .ok ⟨[⟨"CREATE TABLE logs (id int) /*\nsqlsync: endStatement\n*/", some 2⟩],
        some ⟨"public", "logs", [id]⟩⟩⟩
    let s : Snapshot := ⟨(PathMap.insert {} "logs.sql" (.plain "0" [])).insert "users.sql"
      (.declarative ⟨"0", "0", some ⟨"public", "users", [id, mail]⟩⟩)⟩
    let now : Stamp := ⟨2024, 2, 29, 23, 59, 59, 0, by decide⟩
    ∃ d m, (compareTree [users, logs] s).1 = .ok d
      ∧ m = synthesize "notes" now d (s.advance [users, logs])
      ∧ (∀ run : List MigrationLine, run.Sublist m.lines → (∀ l ∈ run, l.origin? = none) →
        Sql.normalize (textOf run) = [])
      ∧ ((∃ l ∈ m.lines, l.origin? = none
          ∧ ∃ line ∈ lines l.render.toList, marker? line ≠ none)
        ↔ ∃ c ∈ d.changes, ∃ t ∈ c.dumped, ∃ line ∈ lines t,
          marker? ("-- ".toList ++ line) ≠ none) := by
  intro id mail email users logs s now
  have hok : ∀ f ∈ [users, logs], f.error? = none := by decide
  have hrepeated : ∀ c ∈ (treeDiff [users, logs] s).changes, ∀ x ∈ c.repeated, Inline x := by
    decide +kernel
  have hname : checkMigrationName "notes" = .ok () := by decide +kernel
  obtain ⟨d, m, hd, hm, h⟩ := notes_inert (s := s) hok hname now
  have hdiff : d = treeDiff [users, logs] s := Except.ok.inj (hd.symm.trans (compareTree_ok hok s))
  rw [← hdiff] at hrepeated
  exact ⟨d, m, hd, hm, h hrepeated⟩

/-- A declared table has a new column whose name is of two lines: the second one is executed,
outside of every statement. -/
theorem note_of_two_lines :
    let text := "-- sqlsync: declarativeTable=true\n"
      ++ "CREATE TABLE t (id int, \"note\nDROP TABLE users;\" text);"
    let id : Column := ⟨"id", "INT", true, none, false, false, none, none⟩
    let note : Column := ⟨"note\nDROP TABLE users;", "TEXT", true, none, false, false, none, none⟩
    let f : SourceFile := ⟨"t.sql", hashOf text, ⟨true, false⟩,
      .ok ⟨[⟨text, some 1⟩], some ⟨"public", "t", [id, note]⟩⟩⟩
    let s : Snapshot :=
      ⟨PathMap.insert {} "t.sql" (.declarative ⟨"", "", some ⟨"public", "t", [id]⟩⟩)⟩
    let now : Stamp := ⟨2024, 3, 1, 12, 31, 0, 0, by decide⟩
    SourceFile.read "t.sql" text = .ok f ∧ (∀ g ∈ [f], g.error? = none)
      ∧ ([f].map (·.path)).Nodup ∧ Inline f.path ∧ checkMigrationName "b" = .ok ()
      ∧ ∃ d m, (compareTree [f] s).1 = .ok d ∧ m = synthesize "b" now d (s.advance [f])
        ∧ Sql.normalize (textOf (m.lines.filter (·.origin?.isNone)))
          = "DROP TABLE users".toList := by
  intro text id note f s now
  have hread : SourceFile.read "t.sql" text = .ok f := by
    have hdirectives : directives text.toList = .ok ⟨true, false⟩ := by decide +kernel
    have hcontent : contentOf text.toList ⟨true, false⟩ = .ok f.content := by decide +kernel
    exact SourceFile.read_ok "t.sql" hdirectives hcontent
  have hok : ∀ g ∈ [f], g.error? = none := List.forall_mem_singleton.2 rfl
  exact ⟨hread, hok, by decide, by decide, by decide +kernel, _, _, compareTree_ok hok s, rfl,
    by decide +kernel⟩

end SchemaDrift
