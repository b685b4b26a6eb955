/-
  SchemaDrift.Proofs.Migration.Accepted
  ─────────────────────────────────────
  **A TREE THAT WAS ACCEPTED NEEDS NO MIGRATION.**

  Once a snapshot was taken forward by a tree, the tree does not differ from it any more
  (`treeDiff_advance`).  The migration of no changes is its head, which is comments only
  (`head_isEmpty`); there is nothing to execute, nothing to review and nothing to keep.
-/

import SchemaDrift.Proofs.Change.Accepted
import SchemaDrift.Proofs.Migration.RoundTrip

namespace SchemaDrift

open SchemaDrift.Sql SchemaDrift.Text SchemaDrift.Digest

variable {files : List SourceFile}

/-- The migration of a difference without changes is its head. -/
theorem synthesize_unchanged (name : String) (createdAt : Stamp) (paths : List String)
    (next : Snapshot) :
    (synthesize name createdAt ⟨[], paths⟩ next).lines = headLines name createdAt
      ∧ (synthesize name createdAt ⟨[], paths⟩ next).manualReview = [] := ⟨rfl, rfl⟩

/-- A migration of lines that say nothing executes nothing. -/
theorem isEmpty_of_told {m : Migration} (htold : ∀ l ∈ m.lines, Told [] l)
    (hnone : ∀ l ∈ m.lines, l.origin? = none) : m.isEmpty = true := by
  have hreadable : ∀ l ∈ m.lines, l.Readable :=
    fun l hl => (htold l hl).readable (hnone l hl) (List.forall_mem_nil _)
  unfold Migration.isEmpty
  rw [Migration.toList_text]
  refine (isInert_text hreadable).2 ?_
  rw [List.filterMap_eq_nil_iff]
  exact hnone

/-- The head of a migration executes nothing. -/
theorem head_isEmpty {name : String} (hname : Inline name) {m : Migration}
    (hlines : m.lines = headLines name m.createdAt) : m.isEmpty = true := by
  refine isEmpty_of_told (hlines ▸ told_head hname m.createdAt) ?_
  rw [hlines]
  unfold headLines
  simp [MigrationLine.origin?]

/-- **A tree of files that were read and have no error, compared with any snapshot that it
took forward itself, has no changes**; its paths are listed in order.  The migration made of
that under a valid name is empty, lists no manual review and is not to be persisted. -/
theorem accepted_unchanged (hread : ∀ f ∈ files, ∃ text, SourceFile.read f.path text = .ok f)
    (hok : ∀ f ∈ files, f.error? = none) (hpaths : (files.map (·.path)).Nodup)
    {name : String} (hname : checkMigrationName name = .ok ()) (createdAt : Stamp)
    (s next : Snapshot) :
    ∃ d m, (compareTree files (s.advance files)).1 = .ok d
      ∧ m = synthesize name createdAt d next
      ∧ d.changes = []
      ∧ d.unmodified.Perm (files.map (·.path)) ∧ d.unmodified.Pairwise (· < ·)
      ∧ m.isEmpty = true ∧ m.manualReview = [] ∧ m.shouldPersist = false := by
  have htables : ∀ f ∈ files, ∀ t, f.table? = some t → t.columnNames.Nodup := by
    intro f hf t ht
    obtain ⟨text, hfile⟩ := hread f hf
    obtain ⟨st, -, hparse⟩ := (SourceFile.read_sound hfile).2 t ht
    exact Table.parse_names_nodup hparse
  have hdiff := treeDiff_advance hok hpaths htables s
  obtain ⟨hlines, hreview⟩ :=
    synthesize_unchanged name createdAt ((byPath files).map (·.path)) next
  have hempty : (synthesize name createdAt ⟨[], (byPath files).map (·.path)⟩ next).isEmpty
      = true :=
    head_isEmpty (inline_of_checkMigrationName hname) hlines
  refine ⟨treeDiff files (s.advance files), _, compareTree_ok hok _, rfl, ?_⟩
  rw [hdiff]
  refine ⟨rfl, (byPath_perm files).map _, ?_, hempty, hreview, ?_⟩
  · exact List.pairwise_map.2 (byPath_sorted hpaths)
  · unfold Migration.shouldPersist
    rw [hempty, hreview]
    rfl

/-- A declared table and a file of two statements, on top of a snapshot with neither. -/
theorem accepted_unchanged_users :
    let text := "-- sqlsync: declarativeTable=true\n"
      ++ "CREATE TABLE users (id int, \"Id\" text DEFAULT 'a;b', PRIMARY KEY (id))"
    let id : Column := ⟨"id", "INT", false, none, true, true, none, none⟩
    let upper : Column := ⟨"Id", "TEXT", true, some "'a;b'", false, false, none, none⟩
    let users : SourceFile := ⟨"users.sql", hashOf text, ⟨true, false⟩,
      .ok ⟨[⟨text, some 1⟩], some ⟨"public", "users", [id, upper]⟩⟩⟩
    let rows := "SELECT 1;\nSELECT $$;$$;"
    let seed : SourceFile := ⟨"seed.sql", hashOf rows, ⟨false, false⟩,
      .ok ⟨[⟨rows, some 1⟩], none⟩⟩
    let s : Snapshot := ⟨PathMap.insert {} "old.sql" (.plain "" [""])⟩
    let now : Stamp := ⟨2024, 2, 29, 23, 59, 59, 0, by decide⟩
    ∃ d m, (compareTree [users, seed] (s.advance [users, seed])).1 = .ok d
      ∧ m = synthesize "again-2" now d s
      ∧ d.changes = []
      ∧ d.unmodified.Perm ([users, seed].map (·.path)) ∧ d.unmodified.Pairwise (· < ·)
      ∧ m.isEmpty = true ∧ m.manualReview = [] ∧ m.shouldPersist = false := by
  intro text id upper users rows seed s now
  have husers : SourceFile.read "users.sql" text = .ok users :=
    SourceFile.read_ok _ (by decide +kernel) (by decide +kernel)
  have hseed : SourceFile.read "seed.sql" rows = .ok seed :=
    SourceFile.read_ok _ (by decide +kernel) (by decide +kernel)
  refine accepted_unchanged ?_ ?_ (by decide) (by decide +kernel) now s s
  · intro f hf
    rcases List.mem_cons.1 hf with rfl | hf
    · exact ⟨text, husers⟩
    · rw [List.mem_singleton.1 hf]
      exact ⟨rows, hseed⟩
  · intro f hf
    rcases List.mem_cons.1 hf with rfl | hf
    · rfl
    · rw [List.mem_singleton.1 hf]
      rfl

end SchemaDrift
