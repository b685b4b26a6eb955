/-
  SchemaDrift.Proofs.Migration.RoundTrip
  ──────────────────────────────────────
  **A MIGRATION SPLITS BACK INTO WHAT IT WAS MADE OF.**

  A line that is no statement says nothing (`told_synthesize`), and the statements are those
  that the changes emit, so every line can be read back (`readable_synthesize`).  What can be
  read back is read back (`split_text`).  So the text of a migration splits into the
  statements that it records (`split_synthesize`).
-/

import SchemaDrift.Proofs.Migration.Drop
import SchemaDrift.Proofs.Migration.Readable

namespace SchemaDrift

open SchemaDrift.Sql SchemaDrift.Text SchemaDrift.Digest

variable {files : List SourceFile} {s : Snapshot}

/-! ## §1. Lines that can be read back. -/

/-- What changes repeat is of one line, and no line that they note is a marker there. -/
theorem quotable_changes (hpaths : (files.map (·.path)).Nodup)
    (hfiles : ∀ f ∈ files, f.Quotable)
    (hrecords : ∀ path r, s.get? path = some r → Inline path ∧ r.Quotable) :
    ∀ c ∈ (treeDiff files s).changes, (∀ x ∈ c.repeated, Inline x)
      ∧ ∀ t ∈ c.dumped, Unmarked "-- ".toList ('\n' :: t) := by
  intro c hc
  rcases changes_cases hpaths hc with ⟨f, hf, rfl⟩ | ⟨f, hf, r, detail, hr, hdetail, rfl⟩
    | ⟨path, r, hgone, rfl⟩
  · exact ⟨List.forall_mem_singleton.2 (hfiles f hf).path, List.forall_mem_nil _⟩
  · have hquotable := hfiles f hf
    refine ⟨List.forall_mem_cons.2 ⟨hquotable.path,
      inline_modification hquotable (hrecords f.path r hr).2 hdetail⟩, ?_⟩
    exact List.forall_mem_map.2 fun st hst => unmarked_reviewed hquotable hst
  · obtain ⟨hpath, hr⟩ := hrecords path r (mem_goneRecords.1 hgone).1
    exact ⟨inline_deleted hpath hr, List.forall_mem_nil _⟩

/-- What a tree of files emits can be read back. -/
theorem readable_emitted (hfiles : ∀ f ∈ files, f.Faithful)
    (hrecords : ∀ path r, s.get? path = some r → Inline path ∧ r.Quotable) :
    ∀ l ∈ emitted files s, l.Readable := by
  unfold emitted
  rw [List.forall_mem_append, List.forall_mem_append]
  refine ⟨⟨?_, ?_⟩, ?_⟩
  · intro l hl
    obtain ⟨f, hf, hl⟩ := List.mem_flatMap.1 hl
    exact readable_added (hfiles f (mem_byPath.1 (List.mem_filter.1 hf).1)) l hl
  · intro l hl
    obtain ⟨f, hf, hl⟩ := List.mem_flatMap.1 hl
    cases hr : s.get? f.path with
    | none =>
      rw [hr] at hl
      cases hl
    | some r =>
      rw [hr] at hl
      exact readable_modified (hfiles f (mem_byPath.1 hf)) (hrecords f.path r hr).2 l hl
  · intro l hl
    obtain ⟨e, he, hl⟩ := List.mem_flatMap.1 hl
    exact readable_deleted (hrecords e.1 e.2 (mem_goneRecords.1 he).1).2 e.1 l hl

/-- **Every line of a migration can be read back.** -/
theorem readable_synthesize (hpaths : (files.map (·.path)).Nodup)
    (hfiles : ∀ f ∈ files, f.Faithful)
    (hrecords : ∀ path r, s.get? path = some r → Inline path ∧ r.Quotable)
    {name : String} (hname : Inline name) (createdAt : Stamp) (next : Snapshot) :
    ∀ l ∈ (synthesize name createdAt (treeDiff files s) next).lines, l.Readable := by
  have hquotable := quotable_changes hpaths (fun f hf => (hfiles f hf).toQuotable) hrecords
  have htold := told_synthesize hname createdAt (fun c hc => (hquotable c hc).1) next
  intro l hl
  cases horigin : l.origin? with
  | none =>
    refine Told.readable (htold l hl) horigin ?_
    intro t ht
    obtain ⟨c, hc, ht⟩ := List.mem_flatMap.1 ht
    exact (hquotable c hc).2 t ht
  | some origin =>
    refine readable_emitted hfiles hrecords l ?_
    rw [← marked_synthesize hpaths name createdAt next]
    exact List.mem_filter.2 ⟨hl, by rw [horigin]; rfl⟩

/-! ## §2. Splitting back. -/

/-- The records that are gone stand in the order of their paths. -/
theorem goneRecords_sorted (files : List SourceFile) (s : Snapshot) :
    (goneRecords files s).Pairwise fun e e' => e.1 < e'.1 :=
  s.files.sorted.filter _

/-- **The text of a migration splits into exactly the statements that it records**, in their
order, and it is empty exactly if there are none.  They are the ones that the changes emit,
section by section; each section goes through its files or records in the order of their
paths. -/
theorem split_synthesize (hread : ∀ f ∈ files, ∃ text, SourceFile.read f.path text = .ok f)
    (hok : ∀ f ∈ files, f.error? = none) (hpaths : (files.map (·.path)).Nodup)
    (hfiles : ∀ f ∈ files, f.Quotable)
    (hrecords : ∀ path r, s.get? path = some r → Inline path ∧ r.Quotable)
    {name : String} (hname : Inline name) (createdAt : Stamp) :
    ∃ d m, (compareTree files s).1 = .ok d ∧ m = synthesize name createdAt d (s.advance files)
      ∧ (∃ statements, split m.text.toList = .ok statements
          ∧ statements.map (·.hash) = m.record.statements.map (·.hash))
      ∧ (m.isEmpty = true ↔ m.record.statements = [])
      ∧ m.record.statements = (emitted files s).filterMap MigrationLine.origin?
      ∧ (byPath files).Perm files ∧ ((byPath files).Pairwise fun f g => f.path < g.path)
      ∧ (goneRecords files s).Pairwise fun e e' => e.1 < e'.1 := by
  have hlines := readable_synthesize hpaths (fun f hf => ⟨hfiles f hf, hread f hf⟩) hrecords hname
    createdAt (s.advance files)
  refine ⟨treeDiff files s, _, compareTree_ok hok s, rfl, ?_, ?_, record_statements_eq hpaths ..,
    byPath_perm files, byPath_sorted hpaths, goneRecords_sorted files s⟩
  · rw [Migration.toList_text]
    exact split_text hlines
  · unfold Migration.isEmpty
    rw [Migration.toList_text]
    exact isInert_text hlines

/-- A declared table has a new column, and another one is gone. -/
theorem split_synthesize_users :
    let text := "-- sqlsync: declarativeTable=true\n"
      ++ "CREATE TABLE users (id int, note text DEFAULT '--')"
    let id : Column := ⟨"id", "INT", true, none, false, false, none, none⟩
    let note : Column := ⟨"note", "TEXT", true, some "'--'", false, false, none, none⟩
    let users : SourceFile := ⟨"users.sql", hashOf text, ⟨true, false⟩,
      .ok ⟨[⟨text, some 1⟩], some ⟨"public", "users", [id, note]⟩⟩⟩
    let s : Snapshot := ⟨(PathMap.insert {} "logs.sql"
        (.declarative ⟨"", "", some ⟨"public", "logs", [id]⟩⟩)).insert "users.sql"
      (.declarative ⟨"", "", some ⟨"public", "users", [id]⟩⟩)⟩
    let now : Stamp := ⟨2024, 2, 29, 23, 59, 59, 0, by decide⟩
    ∃ d m, (compareTree [users] s).1 = .ok d ∧ m = synthesize "notes" now d (s.advance [users])
      ∧ (∃ statements, split m.text.toList = .ok statements
          ∧ statements.map (·.hash) = m.record.statements.map (·.hash))
      ∧ (m.isEmpty = true ↔ m.record.statements = [])
      ∧ m.record.statements = (emitted [users] s).filterMap MigrationLine.origin?
      ∧ (byPath [users]).Perm [users] ∧ ((byPath [users]).Pairwise fun f g => f.path < g.path)
      ∧ (goneRecords [users] s).Pairwise fun e e' => e.1 < e'.1 := by
  intro text id note users s now
  have hdirectives : directives text.toList = .ok ⟨true, false⟩ := by decide +kernel
  have hcontent : contentOf text.toList ⟨true, false⟩ = .ok users.content := by decide +kernel
  have hread : SourceFile.read "users.sql" text = .ok users := by
    unfold SourceFile.read
    rw [hdirectives]
    dsimp only
    rw [hcontent]
    rfl
  have hnames : ∀ t : Table, Inline t.schema → Inline t.name →
      (∀ c ∈ t.columns, Inline c.name ∧ c.foreignKey = none) → t.NamesInline := by
    intro t hschema hname hcolumns
    refine ⟨hschema, hname, fun c hc => (hcolumns c hc).1, ?_⟩
    intro c hc k hk
    rw [(hcolumns c hc).2] at hk
    cases hk
  have hquotable : users.Quotable := by
    refine ⟨by decide, ?_, by decide +kernel⟩
    intro t ht
    cases ht
    exact hnames _ (by decide) (by decide) (by decide)
  refine split_synthesize ?_ ?_ (by decide) ?_ ?_ (by decide) now
  · exact List.forall_mem_singleton.2 ⟨text, hread⟩
  · exact List.forall_mem_singleton.2 rfl
  · exact List.forall_mem_singleton.2 hquotable
  · intro path r hr
    have hmem := PathMap.get?_eq_some.1 hr
    have hentries : s.files.entries
        = [("logs.sql", .declarative ⟨"", "", some ⟨"public", "logs", [id]⟩⟩),
        ("users.sql", .declarative ⟨"", "", some ⟨"public", "users", [id]⟩⟩)] := by decide +kernel
    rw [hentries] at hmem
    rcases List.mem_cons.1 hmem with heq | hmem
    · obtain ⟨rfl, rfl⟩ := Prod.mk.inj heq
      refine ⟨by decide, by decide, ?_⟩
      intro t ht
      cases ht
      exact hnames _ (by decide) (by decide) (by decide)
    · obtain ⟨rfl, rfl⟩ := Prod.mk.inj (List.mem_singleton.1 hmem)
      refine ⟨by decide, by decide, ?_⟩
      intro t ht
      cases ht
      exact hnames _ (by decide) (by decide) (by decide)

end SchemaDrift
