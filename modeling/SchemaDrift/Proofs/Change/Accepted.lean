/-
  SchemaDrift.Proofs.Change.Accepted
  ──────────────────────────────────
  **A TREE DOES NOT DIFFER FROM ITS OWN SNAPSHOT.**

  A snapshot that was taken forward by a tree holds the record of every file of it
  (`get?_advance`).  A file does not differ from its own record: the digests are the same,
  and so are the tables.  That a table does not differ from itself needs every name to be
  the name of one column only (`diff_self`); the reader of definitions refuses a name that
  comes twice (`parse_names_nodup`).

      modification?_self   a file against its own record
      treeDiff_advance     a tree against its own snapshot
-/

import SchemaDrift.Proofs.Alter.Plan
import SchemaDrift.Proofs.Change.Sections
import SchemaDrift.Proofs.Source.Statements

namespace SchemaDrift

open SchemaDrift.Sql

/-! ## §1. Tables that were read. -/

namespace Table

/-- What the constraints of a table say of a column leaves its name. -/
theorem apply_name (k : KeyClauses) (c : Column) : (k.apply c).name = c.name := by
  unfold KeyClauses.apply Column.enforceKey
  split
  · rfl
  · rfl

/-- Columns are read behind columns of other names. -/
theorem readColumns_nodup {k : KeyClauses} {before columns : List Column} {entries : List Entry}
    (hbefore : (before.map (·.name)).Nodup) (h : readColumns k before entries = .ok columns) :
    (columns.map (·.name)).Nodup := by
  refine readColumns_keeps (P := fun cs => (cs.map (·.name)).Nodup)
    (fun e _ {cs c} hcs _ hnew => ?_) hbefore h
  rw [List.map_append, List.map_singleton, apply_name]
  exact List.nodup_append.2 ⟨hcs, List.nodup_singleton _, by simpa using hnew⟩

/-- What the constraints of a table say of a column makes it obey the key rule. -/
theorem apply_obeys (k : KeyClauses) (c : Column) : (k.apply c).ObeysKeyRule := by
  unfold KeyClauses.apply
  exact Column.enforceKey_obeys _

/-- Columns are read behind columns that obey the key rule. -/
theorem readColumns_obeys {k : KeyClauses} {before columns : List Column} {entries : List Entry}
    (hbefore : ∀ c ∈ before, c.ObeysKeyRule) (h : readColumns k before entries = .ok columns) :
    ∀ c ∈ columns, c.ObeysKeyRule := by
  refine readColumns_keeps (P := fun cs => ∀ c ∈ cs, c.ObeysKeyRule)
    (fun e _ {cs c} hcs _ _ => ?_) hbefore h
  rw [List.forall_mem_append, List.forall_mem_singleton]
  exact ⟨hcs, apply_obeys k c⟩

/-- The columns of a table that was read are those of its entries. -/
theorem parse_readColumns {sql : List Char} {t : Table} (h : parse sql = .ok t) :
    ∃ keys entries, readColumns keys [] entries = .ok t.columns := by
  unfold parse at h
  dsimp only at h
  split at h
  · cases h
  · split at h
    · cases h
    · obtain ⟨keys, -, h⟩ := bind_eq_ok.1 h
      obtain ⟨columns, hcolumns, h⟩ := bind_eq_ok.1 h
      split at h
      · cases h
      · rw [← Except.ok.inj h]
        exact ⟨keys, _, hcolumns⟩

/-- **A table that was read has no name twice.** -/
theorem parse_names_nodup {sql : List Char} {t : Table} (h : parse sql = .ok t) :
    t.columnNames.Nodup := by
  obtain ⟨keys, entries, hcolumns⟩ := parse_readColumns h
  have hnone : (([] : List Column).map (·.name)).Nodup := List.nodup_nil
  exact readColumns_nodup hnone hcolumns

/-- **The columns of a table that was read obey the key rule.** -/
theorem parse_obeys {sql : List Char} {t : Table} (h : parse sql = .ok t) :
    ∀ c ∈ t.columns, c.ObeysKeyRule := by
  obtain ⟨keys, entries, hcolumns⟩ := parse_readColumns h
  exact readColumns_obeys (List.forall_mem_nil _) hcolumns

end Table

/-! ## §2. A table against itself. -/

namespace Alter

/-- **A table without a name twice does not differ from itself.** -/
theorem diff_self {t : Table} (ht : t.columnNames.Nodup) : diff t t = [] := by
  unfold diff
  rw [steps_eq_nil ht fun _ => Iff.rfl]
  rfl

end Alter

/-! ## §3. A file against a record. -/

/-- **The record of a file without an error tells what the file holds.** -/
theorem ofFile_eq_some {f : SourceFile} {r : Record} : Record.ofFile? f = some r ↔
    f.error? = none ∧ r = if f.isDeclarative then
        .declarative ⟨f.rawHash, (f.statements.head?.map (·.hash)).getD "", f.table?⟩
      else .plain f.rawHash (f.statements.map (·.hash)) := by
  unfold Record.ofFile? SourceFile.error? SourceFile.statements SourceFile.table?
  cases f.content with
  | error e => exact iff_of_false (fun h => nomatch h) fun h => nomatch h.1
  | ok c => exact ⟨fun h => ⟨rfl, (Option.some.inj h).symm⟩, fun h => congrArg some h.2.symm⟩

/-- A file without an error has a record. -/
theorem exists_ofFile {f : SourceFile} (h : f.error? = none) : ∃ r, Record.ofFile? f = some r :=
  ⟨_, ofFile_eq_some.2 ⟨h, rfl⟩⟩

/-- What the record of a file keeps of it. -/
theorem ofFile_cases {f : SourceFile} {r : Record} (h : Record.ofFile? f = some r) :
    (f.isDeclarative = false ∧ ∃ hashes, r = .plain f.rawHash hashes)
      ∨ f.isDeclarative = true ∧ ∃ hash, r = .declarative ⟨f.rawHash, hash, f.table?⟩ := by
  obtain ⟨-, rfl⟩ := ofFile_eq_some.1 h
  cases hd : f.isDeclarative with
  | false => exact Or.inl ⟨rfl, _, if_neg Bool.false_ne_true⟩
  | true => exact Or.inr ⟨rfl, _, if_pos rfl⟩

/-- The record of a file that declares no table. -/
theorem ofFile_plain {f : SourceFile} {r : Record} (h : Record.ofFile? f = some r)
    (hplain : f.isDeclarative = false) : r = .plain f.rawHash (f.statements.map (·.hash)) := by
  rw [(ofFile_eq_some.1 h).2, hplain]
  exact if_neg Bool.false_ne_true

/-- A file that declares no table differs from the record of another exactly if its text
does. -/
theorem modification?_plain {f : SourceFile} (hplain : f.isDeclarative = false) (raw : String)
    (hashes : List String) : modification? f (.plain raw hashes)
      = if f.rawHash = raw then none
        else some (.content (statementChanges f (.plain raw hashes))) := by
  unfold modification?
  rw [hplain]
  by_cases h : f.rawHash = raw
  · simp [Record.rawHash, h]
  · simp [Record.rawHash, h]

/-- A file that declares a table differs from the record of one in its columns, if the table
has kept its name, and otherwise if its text does. -/
theorem modification?_declarative {f : SourceFile} (hd : f.isDeclarative = true)
    {record : DeclarativeRecord} {old new : Table} (hold : record.table = some old)
    (hnew : f.table? = some new) : modification? f (.declarative record)
      = if old.qualifiedName = new.qualifiedName then
          if (Alter.diff old new).isEmpty then none
          else some (.tableAltered old new (Alter.diff old new))
        else if f.rawHash = record.rawHash then none else some .tableStructureUnavailable := by
  unfold modification?
  rw [hd]
  dsimp only
  rw [hold, hnew]
  by_cases hraw : f.rawHash = record.rawHash
  · simp [Record.rawHash, hraw]
  · simp [Record.rawHash, hraw]

/-- **A file does not differ from its own record.** -/
theorem modification?_self {f : SourceFile} (htable : ∀ t, f.table? = some t → t.columnNames.Nodup)
    {r : Record} (h : Record.ofFile? f = some r) : modification? f r = none := by
  rcases ofFile_cases h with ⟨hd, hashes, rfl⟩ | ⟨hd, hash, rfl⟩
  · unfold modification?
    rw [hd]
    simp [Record.rawHash]
  · unfold modification?
    rw [hd]
    cases ht : f.table? with
    | none => simp [Record.rawHash]
    | some t => simp [Alter.diff_self (htable t ht)]

/-! ## §4. A tree against its own snapshot. -/

variable {files : List SourceFile}

/-- The entries that a tree without errors puts into a snapshot. -/
def ownEntries (files : List SourceFile) : List (String × Record) :=
  files.filterMap fun f => (Record.ofFile? f).map fun r => (f.path, r)

/-- A snapshot that is taken forward by a tree without errors holds what the tree puts into
it, and nothing else. -/
theorem advance_perm (hok : ∀ f ∈ files, f.error? = none) (hpaths : (files.map (·.path)).Nodup)
    (s : Snapshot) : (s.advance files).files.entries.Perm (ownEntries files) := by
  have hentries : files.filterMap (fun f =>
      (Record.ofFile? f <|> s.get? f.path).map fun r => (f.path, r)) = ownEntries files := by
    refine List.filterMap_congr ?_
    intro f hf
    obtain ⟨r, hr⟩ := exists_ofFile (hok f hf)
    rw [hr]
    rfl
  have hpath : (ownEntries files).map (·.1) = files.map (·.path) := by
    unfold ownEntries
    rw [List.map_filterMap, ← List.filterMap_eq_map]
    refine List.filterMap_congr ?_
    intro f hf
    obtain ⟨r, hr⟩ := exists_ofFile (hok f hf)
    rw [hr]
    rfl
  unfold Snapshot.advance
  rw [hentries]
  refine PathMap.ofList_perm ?_
  rw [hpath]
  exact hpaths

/-- **A tree finds the records of its files in its own snapshot.** -/
theorem get?_advance (hok : ∀ f ∈ files, f.error? = none) (hpaths : (files.map (·.path)).Nodup)
    (s : Snapshot) {f : SourceFile} (hf : f ∈ files) :
    (s.advance files).get? f.path = Record.ofFile? f := by
  obtain ⟨r, hr⟩ := exists_ofFile (hok f hf)
  rw [hr]
  refine PathMap.get?_eq_some.2 ((advance_perm hok hpaths s).mem_iff.2 ?_)
  exact List.mem_filterMap.2 ⟨f, hf, by rw [hr]; rfl⟩

/-- No other path has a record there. -/
theorem mem_advance (hok : ∀ f ∈ files, f.error? = none) (hpaths : (files.map (·.path)).Nodup)
    (s : Snapshot) {e : String × Record} (he : e ∈ (s.advance files).files.entries) :
    ∃ f ∈ files, f.path = e.1 := by
  obtain ⟨f, hf, hfe⟩ := List.mem_filterMap.1 ((advance_perm hok hpaths s).mem_iff.1 he)
  obtain ⟨r, -, rfl⟩ := Option.map_eq_some_iff.1 hfe
  exact ⟨f, hf, rfl⟩

/-- A file has not changed against the snapshot of its tree. -/
theorem fileChange?_advance (hok : ∀ f ∈ files, f.error? = none)
    (hpaths : (files.map (·.path)).Nodup) (s : Snapshot) {f : SourceFile} (hf : f ∈ files)
    (htable : ∀ t, f.table? = some t → t.columnNames.Nodup) :
    fileChange? (s.advance files) f = none := by
  obtain ⟨r, hr⟩ := exists_ofFile (hok f hf)
  unfold fileChange?
  rw [get?_advance hok hpaths s hf, hr]
  dsimp only
  rw [modification?_self htable hr]
  rfl

theorem presentChanges_eq_nil {s : Snapshot} (hnone : ∀ f ∈ files, fileChange? s f = none) :
    presentChanges files s = [] := by
  unfold presentChanges
  rw [List.filterMap_eq_nil_iff]
  intro f hf
  rw [hnone f hf]
  rfl

/-- Nothing of a snapshot is gone in a tree that has its paths. -/
theorem goneChanges_advance (hok : ∀ f ∈ files, f.error? = none)
    (hpaths : (files.map (·.path)).Nodup) (s : Snapshot) {files' : List SourceFile}
    (hthere : ∀ f ∈ files, ∃ g ∈ files', g.path = f.path) :
    goneChanges files' (s.advance files) = [] := by
  unfold goneChanges
  rw [List.map_eq_nil_iff, List.filter_eq_nil_iff]
  intro e he
  obtain ⟨f, hf, hpath⟩ := mem_advance hok hpaths s he
  obtain ⟨g, hg, hsame⟩ := hthere f hf
  have hany : files'.any (·.path = e.1) = true :=
    List.any_eq_true.2 ⟨g, hg, by simpa using hsame.trans hpath⟩
  rw [hany]
  exact Bool.false_ne_true

/-- **A tree does not differ from its own snapshot**: nothing has changed, and every path is
listed as unmodified. -/
theorem treeDiff_advance (hok : ∀ f ∈ files, f.error? = none)
    (hpaths : (files.map (·.path)).Nodup)
    (htables : ∀ f ∈ files, ∀ t, f.table? = some t → t.columnNames.Nodup) (s : Snapshot) :
    treeDiff files (s.advance files) = ⟨[], (byPath files).map (·.path)⟩ := by
  have hnone : ∀ f ∈ files, fileChange? (s.advance files) f = none :=
    fun f hf => fileChange?_advance hok hpaths s hf (htables f hf)
  have hsame : files.filter (fun f => (fileChange? (s.advance files) f).isNone) = files := by
    rw [List.filter_eq_self]
    intro f hf
    rw [hnone f hf]
    rfl
  have hdiff : treeDiff files (s.advance files)
      = ⟨(PathMap.ofList (presentChanges files (s.advance files)
          ++ goneChanges files (s.advance files))).values,
        ((files.filter fun f => (fileChange? (s.advance files) f).isNone).map (·.path)).mergeSort
          (· ≤ ·)⟩ := rfl
  rw [hdiff, presentChanges_eq_nil hnone,
    goneChanges_advance hok hpaths s fun f hf => ⟨f, hf, rfl⟩, hsame, paths_mergeSort]
  rfl

end SchemaDrift
