/-
  SchemaDrift.Proofs.Migration.Readable
  ─────────────────────────────────────
  **WHAT CHANGES EMIT AND REPEAT CAN BE READ BACK.**

  The statements that a change emits are those of files, or made here of names and of texts of
  columns.  What its notes repeat are names and identities of the file and its record.  Both
  can be read back if these are of one line each and no line of a statement is a marker,
  neither as it stands nor behind `-- ` (`SourceFile.Quotable`, `Record.Quotable`).
-/

import SchemaDrift.Proofs.Migration.Remarks

namespace SchemaDrift

open SchemaDrift.Sql SchemaDrift.Text SchemaDrift.Digest

/-! ## §1. What a migration repeats. -/

/-- The names of the file are of one line each, and no line of its statements is a marker,
neither as it stands nor in a note. -/
structure SourceFile.Quotable (f : SourceFile) : Prop where
  path : Inline f.path
  table : ∀ t, f.table? = some t → t.NamesInline
  lines : ∀ st ∈ f.statements, ∀ line ∈ Text.lines st.raw.toList,
    marker? line = none ∧ marker? ("-- ".toList ++ line) = none

/-- The names and identities in the record are of one line each. -/
structure Record.Quotable (r : Record) : Prop where
  hashes : ∀ hash ∈ r.statementHashes, Inline hash
  table : ∀ t, r.table? = some t → t.NamesInline

/-- A file that is quotable and was read. -/
structure SourceFile.Faithful (f : SourceFile) : Prop extends f.Quotable where
  read : ∃ text, SourceFile.read f.path text = .ok f

/-- No line of a statement of the file is a marker, whatever of the two it is put behind. -/
theorem SourceFile.Quotable.unmarked {f : SourceFile} (hf : f.Quotable) {st : Statement}
    (hst : st ∈ f.statements) : Unmarked [] ('\n' :: st.raw.toList)
      ∧ Unmarked "-- ".toList ('\n' :: st.raw.toList) :=
  ⟨(unmarked_iff_lines rfl).2 fun line hline => (hf.lines st hst line hline).1,
    (unmarked_iff_lines rfl).2 fun line hline => (hf.lines st hst line hline).2⟩

/-- The texts of the columns of the file make no marker. -/
theorem SourceFile.Faithful.textsUnmarked {f : SourceFile} (hf : f.Faithful) {t : Table}
    (ht : f.table? = some t) : ∀ c ∈ t.columns, c.TextsUnmarked := by
  obtain ⟨text, hread⟩ := hf.read
  obtain ⟨st, hst, hparse⟩ := (SourceFile.read_sound hread).2 t ht
  exact Table.parse_unmarked (unmarked_feed.1 (hf.unmarked hst).1).2 hparse

/-! ## §2. Statements. -/

/-- A statement of a file can be read back. -/
theorem readable_fileStatement {f : SourceFile} (hf : f.Faithful) {st : Statement}
    (hst : st ∈ f.statements) : (fileStatement f.path st).Readable := by
  obtain ⟨text, hread⟩ := hf.read
  have hsaid : st.Says := (SourceFile.read_sound hread).1 st hst
  have hnormal : Sql.normalize (String.ofList (terminate st.raw.toList)).toList
      = Sql.normalize st.raw.toList := by
    rw [String.toList_ofList, normalize_terminate]
  refine MigrationLine.Readable.statement f.path ?_ ?_ ?_
  · rw [hnormal]
    exact hsaid
  · rw [hnormal]
    rfl
  · rw [String.toList_ofList]
    exact unmarked_terminate (hf.unmarked hst).1

/-- A statement that is made here can be read back, if it begins with a letter. -/
theorem readable_madeStatement {path sql : String} {c : Char} {rest : List Char}
    (hfree : MarkerFree sql) (hc : c = 'A' ∨ c = 'D') (hlist : sql.toList = c :: rest) :
    (madeStatement path sql).Readable := by
  have hmarker : marker? (c :: rest) = none := by
    rcases hc with rfl | rfl
    · rfl
    · rfl
  have hsaid : Sql.normalize (c :: rest) ≠ [] := by
    have hfirst : ⟨c, .code⟩ ∈ classify (c :: rest) := by
      have hcode : (({} : Lexer).advance c rest).1 = .code := by
        have hidle := Lexer.fresh_start.toIdle
        rcases hc with rfl | rfl
        · exact (Lexer.advance_plain hidle (by decide) (by decide) (by decide) rest).1
        · exact (Lexer.advance_plain hidle (by decide) (by decide) (by decide) rest).1
      unfold classify
      rw [Lexer.glyphs, hcode]
      exact List.mem_cons_self
    refine normalize_ne_nil.2 ⟨⟨c, .code⟩, hfirst, ?_⟩
    rcases hc with rfl | rfl
    · decide
    · decide
  refine MigrationLine.Readable.statement path ?_ rfl ?_
  · rw [hlist]
    exact hsaid
  · rw [hlist]
    refine unmarked_feed.2 ⟨hmarker, ?_⟩
    rw [← hlist]
    exact hfree

/-- The statement that drops a table can be read back. -/
theorem readable_dropTable {t : Table} (ht : t.NamesInline) (path : String) :
    (madeStatement path (dropTable t)).Readable := by
  have hinline : Inline (dropTable t) := by
    unfold dropTable
    simp only [inline_append]
    exact ⟨⟨by decide, inline_sqlName ht.schema ht.name⟩, by decide⟩
  have hlist : ∃ rest, (dropTable t).toList = 'D' :: rest := by
    unfold dropTable
    simp only [String.toList_append, List.append_assoc]
    exact ⟨_, rfl⟩
  obtain ⟨rest, hlist⟩ := hlist
  exact readable_madeStatement (markerFree_of_inline hinline) (Or.inr rfl) hlist

/-! ## §3. What changes emit. -/

/-- **What a new file emits can be read back.** -/
theorem readable_added {f : SourceFile} (hf : f.Faithful) :
    ∀ l ∈ emittedByAdded f, l.Readable := by
  unfold emittedByAdded
  rw [List.forall_mem_map]
  exact fun st hst => readable_fileStatement hf hst

/-- A statement that alters the table of a file. -/
theorem readable_altered {f : SourceFile} (hf : f.Faithful) {old current : Table}
    (hold : old.NamesInline) (hcurrent : f.table? = some current) {o : Alter.Operation}
    (ho : o ∈ Alter.diff old current) {sql : String} (hsql : sql ∈ o.sql) :
    (madeStatement f.path sql).Readable := by
  obtain ⟨hfree, rest, hlist⟩ := markerFree_worded hold (hf.table current hcurrent)
    (hf.textsUnmarked hcurrent) (Alter.worded_diff ho hsql)
  exact readable_madeStatement hfree (Or.inl rfl) hlist

/-- **What a modified file emits can be read back.** -/
theorem readable_modified {f : SourceFile} (hf : f.Faithful) {previous : Record}
    (hprevious : previous.Quotable) : ∀ l ∈ emittedByModified f previous, l.Readable := by
  unfold emittedByModified
  split
  · next old current operations h =>
    obtain ⟨hold, hcurrent, rfl⟩ := modification_of h
    rw [List.forall_mem_map]
    intro sql hsql
    obtain ⟨o, ho, hsql⟩ := List.mem_flatMap.1 hsql
    exact readable_altered hf (hprevious.table old hold) hcurrent ho hsql
  · rw [List.forall_mem_map]
    exact fun st hst => readable_fileStatement hf (List.mem_filter.1 hst).1
  · exact List.forall_mem_nil _

/-- **What a file that is gone emits can be read back.** -/
theorem readable_deleted {previous : Record} (hprevious : previous.Quotable) (path : String) :
    ∀ l ∈ emittedByDeleted path previous, l.Readable := by
  unfold emittedByDeleted
  cases ht : previous.table? with
  | none => exact List.forall_mem_nil _
  | some t =>
    exact List.forall_mem_singleton.2 (readable_dropTable (hprevious.table t ht) path)

/-! ## §4. What changes repeat. -/

theorem inline_qualifiedName {t : Table} (h : t.NamesInline) : Inline t.qualifiedName :=
  inline_append.2 ⟨inline_append.2 ⟨h.schema, by decide⟩, h.name⟩

/-- The names that an operation repeats are its own and the one of its table. -/
theorem inline_operation {table : String} (htable : Inline table) {o : Alter.Operation}
    (ho : o.NamesInline) : ∀ x ∈ o.repeated table, Inline x := by
  unfold Alter.Operation.NamesInline at ho
  unfold Alter.Operation.repeated
  cases hkind : o.kind with
  | add column =>
    rw [hkind] at ho
    exact List.forall_mem_singleton.2 ho
  | drop column =>
    rw [hkind] at ho
    exact List.forall_mem_singleton.2 ho
  | modify column changes =>
    rw [hkind] at ho
    exact List.forall_mem_singleton.2 ho
  | rename source target confidence unsure =>
    rw [hkind] at ho
    cases unsure
    · simpa using ho
    · simpa [ho.1, ho.2] using htable

/-- The identities of the statements that a file has lost are those of its record. -/
theorem inline_lost {f : SourceFile} {previous : Record}
    (h : ∀ hash ∈ previous.statementHashes, Inline hash) :
    ∀ x ∈ (Modification.content (statementChanges f previous)).repeated f, Inline x := by
  intro x hx
  dsimp only [Modification.repeated] at hx
  split at hx
  · obtain ⟨change, hchange, hx⟩ := List.mem_filterMap.1 hx
    unfold statementChanges at hchange
    rcases List.mem_append.1 hchange with hchange | hchange
    · obtain ⟨hash, hhash, rfl⟩ := List.mem_map.1 hchange
      rw [← Option.some.inj hx]
      exact h hash (List.mem_filter.1 hhash).1
    · obtain ⟨st, -, rfl⟩ := List.mem_map.1 hchange
      cases hx
  · cases hx

/-- What a modification repeats is of the file and its record. -/
theorem inline_modification {f : SourceFile} (hf : f.Quotable) {previous : Record}
    (hprevious : previous.Quotable) {detail : Modification}
    (h : modification? f previous = some detail) : ∀ x ∈ detail.repeated f, Inline x := by
  have hof := modification_of h
  intro x hx
  cases detail with
  | tableAltered old current operations =>
    obtain ⟨hold, hcurrent, rfl⟩ := hof
    obtain ⟨o, ho, hx⟩ := List.mem_flatMap.1 hx
    have hnew := hf.table current hcurrent
    have hnames := namesInline_diff (hprevious.table old hold) hnew ho
    exact inline_operation (inline_qualifiedName hnew) hnames x hx
  | tableStructureUnavailable => cases hx
  | becameDeclarative => cases hx
  | declarativeDisabled table =>
    obtain rfl : table = previous.table? := hof
    obtain ⟨t, ht, rfl⟩ := Option.map_eq_some_iff.1 (Option.mem_toList.1 hx)
    exact inline_qualifiedName (hprevious.table t ht)
  | content changes =>
    obtain rfl : changes = statementChanges f previous := hof
    exact inline_lost hprevious.hashes x hx

/-- What is said of a file that is gone. -/
theorem inline_deleted {path : String} (hpath : Inline path) {previous : Record}
    (hprevious : previous.Quotable) :
    ∀ x ∈ (FileChange.deleted path previous).repeated, Inline x := by
  unfold FileChange.repeated
  refine List.forall_mem_cons.2 ⟨hpath, ?_⟩
  cases ht : previous.table? with
  | some t => exact List.forall_mem_singleton.2 (inline_qualifiedName (hprevious.table t ht))
  | none =>
    dsimp only
    split
    · exact List.forall_mem_nil _
    · exact hprevious.hashes

/-- No line of a statement that is noted is a marker there. -/
theorem unmarked_reviewed {f : SourceFile} (hf : f.Quotable) {previous : Record}
    {detail : Modification} {st : Statement} (hst : st ∈ reviewed f previous detail) :
    Unmarked "-- ".toList ('\n' :: terminate st.raw.toList) := by
  have hmem : st ∈ f.statements := by
    unfold reviewed at hst
    split at hst
    · exact hst
    · split at hst
      · cases hst
      · exact hst
    · split at hst
      · cases hst
      · exact hst
    · cases hst
    · cases hst
  exact unmarked_terminate (hf.unmarked hmem).2

end SchemaDrift
