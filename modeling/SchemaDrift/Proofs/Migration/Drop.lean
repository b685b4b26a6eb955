/-
  SchemaDrift.Proofs.Migration.Drop
  ─────────────────────────────────
  **WHICH TABLES A MIGRATION DROPS.**

  A file that is gone takes its table with it.  The decision is made for each path by
  itself: a table is dropped exactly if the snapshot has it at a path that no file has
  (`drops_iff`), whatever the other files declare.  A file that is moved is a file that is
  gone and another that is new, so its table is dropped although it is still declared
  (`drops_moved_table`).
-/

import SchemaDrift.Proofs.Alter.Wording
import SchemaDrift.Proofs.Migration.Emitted

namespace SchemaDrift

open SchemaDrift.Sql SchemaDrift.Text SchemaDrift.Alter

/-! ## §1. The statement that drops a table. -/

/-- Two names are read back from their written form. -/
theorem names_eq_of_sqlName {t t' : Table} {rest : List Char} (hrest : EndsName rest)
    (h : t.sqlName.toList ++ rest = t'.sqlName.toList ++ rest) :
    t.schema = t'.schema ∧ t.name = t'.name := by
  have hdot : ∀ rest, EndsName (".".toList ++ rest) := fun _ => endsName_append ⟨'.', by decide⟩
  unfold Table.sqlName at h
  simp only [String.toList_append, List.append_assoc] at h
  have hschema := congrArg name? h
  rw [name?_quoteIdent _ _ (hdot _), name?_quoteIdent _ _ (hdot _)] at hschema
  obtain ⟨hs, hbehind⟩ := Prod.mk.inj (Option.some.inj hschema)
  have hname := congrArg name? (List.append_cancel_left hbehind)
  rw [name?_quoteIdent _ _ hrest, name?_quoteIdent _ _ hrest] at hname
  obtain ⟨hn, -⟩ := Prod.mk.inj (Option.some.inj hname)
  exact ⟨String.toList_injective hs, String.toList_injective hn⟩

/-- The statements that drop two tables are the same only if the tables have one name in
one schema. -/
theorem dropTable_eq_iff {t t' : Table} :
    dropTable t = dropTable t' ↔ t.schema = t'.schema ∧ t.name = t'.name := by
  constructor
  · intro h
    have hend : EndsName ";".toList := endsName_cons (by decide)
    refine names_eq_of_sqlName hend ?_
    have hlist := congrArg String.toList h
    unfold dropTable at hlist
    simp only [String.toList_append, List.append_assoc] at hlist
    exact List.append_cancel_left hlist
  · rintro ⟨hs, hn⟩
    unfold dropTable Table.sqlName
    rw [hs, hn]

/-- No statement of a difference drops a table. -/
theorem not_worded_dropTable {old new : Table} {t : Target} {u : Table} :
    ¬Worded old new t (dropTable u) := by
  rintro ⟨what, -, h⟩
  have hlist := congrArg String.toList h
  unfold dropTable Target.alter at hlist
  simp only [String.toList_append, List.append_assoc] at hlist
  have hhead : some 'D' = some 'A' := congrArg List.head? hlist
  exact absurd hhead (by decide)

/-! ## §2. Marked statements. -/

/-- The text stands in a file at the path, as one of its statements. -/
def Written (files : List SourceFile) (path sql : String) : Prop :=
  ∃ f ∈ files, f.path = path ∧ ∃ st ∈ f.statements,
    String.ofList (terminate st.raw.toList) = sql

variable {files : List SourceFile} {s : Snapshot}

theorem mem_marked {l : List MigrationLine} {path hash sql : String} :
    .statement path hash sql ∈ marked l ↔ .statement path hash sql ∈ l := by
  unfold marked
  rw [List.mem_filter]
  exact and_iff_left rfl

/-- **Where the statement that drops a table comes from**: it is written in a file, or the
table is recorded at a path that is gone. -/
theorem mem_emitted_drop {t : Table} {path hash : String}
    (h : .statement path hash (dropTable t) ∈ emitted files s) :
    Written files path (dropTable t)
      ∨ ∃ r t', (path, r) ∈ goneRecords files s ∧ r.table? = some t'
        ∧ dropTable t' = dropTable t := by
  have hfile : ∀ {f : SourceFile} {l : List Statement}, f ∈ files → (∀ st ∈ l, st ∈ f.statements) →
      .statement path hash (dropTable t) ∈ l.map (fileStatement f.path) →
      Written files path (dropTable t) := by
    intro f l hf hl hmem
    obtain ⟨st, hst, heq⟩ := List.mem_map.1 hmem
    obtain ⟨hpath, -, hsql⟩ := MigrationLine.statement.inj heq
    exact ⟨f, hf, hpath, st, hl st hst, hsql⟩
  -- added and modified files emit what is written in them, or statements that alter a table
  unfold emitted at h
  rcases List.mem_append.1 h with h | h
  · rcases List.mem_append.1 h with h | h
    · obtain ⟨f, hf, hmem⟩ := List.mem_flatMap.1 h
      exact Or.inl (hfile (mem_byPath.1 (List.mem_filter.1 hf).1) (fun _ h => h) hmem)
    · obtain ⟨f, hf, hmem⟩ := List.mem_flatMap.1 h
      cases hr : s.get? f.path with
      | none =>
        rw [hr] at hmem
        cases hmem
      | some r =>
        rw [hr, Option.map_some, Option.getD_some] at hmem
        unfold emittedByModified at hmem
        split at hmem
        · next old new operations hm =>
          obtain ⟨sql, hsql, heq⟩ := List.mem_map.1 hmem
          obtain ⟨-, -, rfl⟩ := MigrationLine.statement.inj heq
          obtain ⟨o, ho, hsql⟩ := List.mem_flatMap.1 hsql
          obtain ⟨-, -, hoperations⟩ := modification_of hm
          rw [hoperations] at ho
          exact absurd (worded_diff ho hsql) not_worded_dropTable
        · exact Or.inl (hfile (mem_byPath.1 hf) (fun _ h => (List.mem_filter.1 h).1) hmem)
        · cases hmem
  · -- a file that is gone emits the drop of its table
    obtain ⟨⟨p, r⟩, hp, hmem⟩ := List.mem_flatMap.1 h
    unfold emittedByDeleted at hmem
    cases ht : r.table? with
    | none =>
      rw [ht] at hmem
      cases hmem
    | some t' =>
      rw [ht] at hmem
      obtain ⟨rfl, -, hsql⟩ := MigrationLine.statement.inj (List.mem_singleton.1 hmem)
      exact Or.inr ⟨r, t', hp, ht, hsql.symm⟩

/-- A record at a path that is gone drops its table. -/
theorem emitted_drop_of_gone {path : String} {r : Record} {t : Table}
    (h : (path, r) ∈ goneRecords files s) (ht : r.table? = some t) :
    madeStatement path (dropTable t) ∈ emitted files s := by
  unfold emitted
  refine List.mem_append_right _ (List.mem_flatMap.2 ⟨(path, r), h, ?_⟩)
  unfold emittedByDeleted
  rw [ht]
  exact List.mem_cons_self

/-- The records at paths that are gone. -/
theorem mem_goneRecords {path : String} {r : Record} :
    (path, r) ∈ goneRecords files s ↔ s.get? path = some r ∧ ∀ f ∈ files, f.path ≠ path := by
  unfold goneRecords Snapshot.get?
  rw [List.mem_filter, PathMap.get?_eq_some]
  simp

/-! ## §3. Tables that are dropped. -/

/-- **Statements written in the files apart, a migration drops a table exactly if the
snapshot records it at a path that no file has.** -/
theorem drops_iff (hok : ∀ f ∈ files, f.error? = none) (hpaths : (files.map (·.path)).Nodup)
    (name : String) (createdAt : Stamp) (t : Table) :
    ∃ d, (compareTree files s).1 = .ok d
      ∧ ((∃ path hash, .statement path hash (dropTable t)
            ∈ (synthesize name createdAt d (s.advance files)).lines
          ∧ ¬Written files path (dropTable t))
        ↔ ∃ path r t', s.get? path = some r ∧ r.table? = some t'
          ∧ t'.schema = t.schema ∧ t'.name = t.name ∧ ∀ f ∈ files, f.path ≠ path) := by
  refine ⟨_, compareTree_ok hok s, ?_⟩
  have hlines : ∀ path hash, .statement path hash (dropTable t)
      ∈ (synthesize name createdAt (treeDiff files s) (s.advance files)).lines
      ↔ .statement path hash (dropTable t) ∈ emitted files s := by
    intro path hash
    rw [← marked_synthesize hpaths name createdAt (s.advance files), mem_marked]
  constructor
  · rintro ⟨path, hash, hmem, hnot⟩
    rcases mem_emitted_drop ((hlines path hash).1 hmem) with h | ⟨r, t', hgone, ht, heq⟩
    · exact absurd h hnot
    · obtain ⟨hget, hfree⟩ := mem_goneRecords.1 hgone
      obtain ⟨hschema, hname⟩ := dropTable_eq_iff.1 heq
      exact ⟨path, r, t', hget, ht, hschema, hname, hfree⟩
  · rintro ⟨path, r, t', hget, ht, hschema, hname, hfree⟩
    have hmem := emitted_drop_of_gone (mem_goneRecords.2 ⟨hget, hfree⟩) ht
    rw [dropTable_eq_iff.2 ⟨hschema, hname⟩] at hmem
    refine ⟨path, _, (hlines path _).2 hmem, ?_⟩
    rintro ⟨f, hf, hpath, -⟩
    exact hfree f hf hpath

/-- A file that declares a table is moved: the table is dropped at the old path, although
the file at the new path declares it. -/
theorem drops_moved_table :
    let table : Table := ⟨"public", "t", [⟨"id", "INT", true, none, false, false, none, none⟩]⟩
    let moved : SourceFile :=
      ⟨"new/t.sql", "", ⟨true, false⟩, .ok ⟨[⟨"CREATE TABLE t (id int);", some 2⟩], some table⟩⟩
    let s : Snapshot := ⟨PathMap.insert {} "old/t.sql" (.declarative ⟨"", "", some table⟩)⟩
    let now : Stamp := ⟨2024, 3, 1, 12, 31, 0, 0, by decide⟩
    (∀ f ∈ [moved], f.error? = none) ∧ ([moved].map (·.path)).Nodup
      ∧ moved.isDeclarative = true ∧ moved.table? = some table
      ∧ ∃ d path hash, (compareTree [moved] s).1 = .ok d
        ∧ .statement path hash (dropTable table)
          ∈ (synthesize "move" now d (s.advance [moved])).lines := by
  intro table moved s now
  have hok : ∀ f ∈ [moved], f.error? = none := by
    intro f hf
    rw [List.mem_singleton.1 hf]
    rfl
  have hpaths : ([moved].map (·.path)).Nodup := by decide
  have hgone : ("old/t.sql", Record.declarative ⟨"", "", some table⟩) ∈ goneRecords [moved] s := by
    refine mem_goneRecords.2 ⟨rfl, ?_⟩
    intro f hf
    rw [List.mem_singleton.1 hf]
    decide
  have hdrop : madeStatement "old/t.sql" (dropTable table) ∈ emitted [moved] s :=
    emitted_drop_of_gone hgone rfl
  rw [← marked_synthesize hpaths "move" now (s.advance [moved])] at hdrop
  exact ⟨hok, hpaths, rfl, rfl, _, _, _, compareTree_ok hok s, mem_marked.1 hdrop⟩

/-- The only file is taken away. -/
theorem drops_iff_alone :
    let table : Table := ⟨"app", "Logs", [⟨"id", "INT", true, none, false, false, none, none⟩]⟩
    let s : Snapshot := ⟨PathMap.insert {} "logs.sql" (.declarative ⟨"", "", some table⟩)⟩
    let now : Stamp := ⟨2024, 2, 29, 23, 59, 59, 0, by decide⟩
    ∃ d, (compareTree [] s).1 = .ok d
      ∧ ((∃ path hash, .statement path hash (dropTable table)
            ∈ (synthesize "clean-up" now d (s.advance [])).lines
          ∧ ¬Written [] path (dropTable table))
        ↔ ∃ path r t', s.get? path = some r ∧ r.table? = some t'
          ∧ t'.schema = table.schema ∧ t'.name = table.name
          ∧ ∀ f ∈ ([] : List SourceFile), f.path ≠ path) :=
  drops_iff (by decide) (by decide) "clean-up" ⟨2024, 2, 29, 23, 59, 59, 0, by decide⟩
    ⟨"app", "Logs", [⟨"id", "INT", true, none, false, false, none, none⟩]⟩

end SchemaDrift
