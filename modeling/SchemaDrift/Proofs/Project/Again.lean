/-
  SchemaDrift.Proofs.Project.Again
  ────────────────────────────────
  **A SECOND RUN HAS NOTHING TO DO.**

  Behind a run the state that is loaded is the one that was saved, and its snapshot is that
  of the files that were read.  If no source was touched, the same files are read again: they
  do not differ from the snapshot, no migration is written, and the state is saved as it was.
  A migration that was written among the sources is a new source itself, and the second run
  has a change to report (`generate_again`).
-/

import SchemaDrift.Proofs.Change.Partition
import SchemaDrift.Proofs.Migration.Accepted
import SchemaDrift.Proofs.Project.Failure
import SchemaDrift.Proofs.Project.Layout
import SchemaDrift.Proofs.Snapshot.KeyRule

namespace SchemaDrift

open SchemaDrift.FileTree SchemaDrift.Path

variable {t t₁ : FileTree} {c : Config} {name : String} {createdAt : Stamp} {g : Generated}
  {notices : List Notice}

/-! ## §1. What a run leaves. -/

/-- What a run did that read the files and carried the plan out. -/
structure Ran (t t₁ : FileTree) (c : Config) (p : Plan) (files : List SourceFile) : Prop where
  loaded : loadState t c = .ok p.state
  read : readSources t c = .ok files
  ok : ∀ f ∈ files, f.error? = none
  diff : p.diff = treeDiff files p.state.snapshot
  next : p.next = p.state.snapshot.advance files
  name : checkMigrationName p.migration.name = .ok ()
  tables : p.migration.declarativeTables = p.next.declarativeTables
  wrote : ∃ t₀ path made beside names, MigrationStep t c p.migration t₀ path
    ∧ Saved t₀ t₁ c p.behind.toText made beside names

/-- What is reported of a plan that was carried out. -/
def Plan.report (p : Plan) (c : Config) : Generated where
  migration := p.migration
  migrationPath :=
    if p.migration.shouldPersist then some (c.migrationPath p.migration) else none
  changes := p.diff.changes.length

/-- **A run that succeeded read its files, carried its plan out and reports it.** -/
theorem ran (h : generate t c name createdAt = (t₁, .ok g, notices)) :
    ∃ p files, Ran t t₁ c p files ∧ p.migration = synthesize name createdAt p.diff p.next
      ∧ g = p.report c := by
  rcases generate_cases h with ⟨e, he, -⟩ | ⟨p, r, notices', hplan, hcommit, hr⟩
  · cases he
  · rcases commit_cases hcommit with ⟨f, rfl, -⟩
      | ⟨t₀, path, hstep, ⟨f, rfl, -⟩ | ⟨rfl, hsave⟩⟩
    · cases hr
    · cases hr
    · obtain ⟨hname, hstate, files, hfiles, hdiff, hnext, hmigration⟩ := plan_ok.1 hplan
      obtain ⟨made, beside, names, hsaved⟩ := saveState_ok.1 hsave
      have hok : ∀ f ∈ files, f.error? = none := by
        intro f hf
        by_contra herror
        rw [compareTree_failed ⟨f, hf, herror⟩] at hdiff
        cases hdiff
      rw [compareTree_ok hok] at hdiff
      refine ⟨p, files, ⟨hstate, hfiles, hok, (Except.ok.inj hdiff).symm, hnext, ?_, ?_,
        t₀, path, made, beside, names, hstep, hsaved⟩, hmigration, ?_⟩
      · rw [hmigration]
        exact hname
      · rw [hmigration]
        rfl
      · rw [Except.ok.inj hr, hstep.path_eq]
        rfl

/-- A state that is loaded obeys the key rule. -/
theorem loadState_obeys {s : SyncState} (h : loadState t c = .ok s) : s.ObeysKeyRule := by
  unfold loadState at h
  dsimp only at h
  split at h
  · cases h
    exact List.forall_mem_nil _
  · split at h
    · cases h
    · exact SyncState.ofText_obeys (mapError_eq_ok.1 h)

/-- A snapshot that was taken forward by files is not changed when it is again. -/
theorem advance_advance {files : List SourceFile} (hok : ∀ f ∈ files, f.error? = none)
    (hpaths : (files.map (·.path)).Nodup) (s : Snapshot) :
    (s.advance files).advance files = s.advance files := by
  have hperm := (advance_perm hok hpaths (s.advance files)).trans (advance_perm hok hpaths s).symm
  have hentries := eq_of_perm hperm ((s.advance files).advance files).files.sorted
    (s.advance files).files.sorted
  exact congrArg Snapshot.mk (PathMap.eq_of_entries hentries)

namespace Ran

variable {p : Plan} {files : List SourceFile}

/-- A run hides nothing. -/
theorem staysOpen (h : Ran t t₁ c p files) : t.StaysOpen t₁ := by
  obtain ⟨t₀, path, made, beside, names, hstep, hsaved⟩ := h.wrote
  exact hstep.staysOpen.trans hsaved.staysOpen

/-- The state behind a run obeys the key rule. -/
theorem obeys (h : Ran t t₁ c p files) : p.behind.ObeysKeyRule := by
  obtain ⟨hpaths, hread, -⟩ := readSources_paths h.read
  have hnext : ∀ e ∈ p.next.files.entries, ∀ t, e.2.table? = some t → t.ObeysKeyRule := by
    rw [h.next]
    refine advance_obeys h.ok hpaths ?_ _
    intro f hf
    obtain ⟨text, -, hfile⟩ := hread f hf
    exact ⟨text, hfile⟩
  refine SyncState.obeysKeyRule_iff.2 ⟨hnext, ?_⟩
  have hbefore := (SyncState.obeysKeyRule_iff.1 (loadState_obeys h.loaded)).2
  unfold Plan.behind
  dsimp only
  split
  · rw [List.forall_mem_append]
    refine ⟨hbefore, List.forall_mem_singleton.2 ?_⟩
    show ∀ e ∈ p.migration.declarativeTables.entries, _
    rw [h.tables]
    exact declarativeTables_obeys hnext
  · exact hbefore

/-- **The state behind a run is loaded from the tree that it leaves.** -/
theorem behind (h : Ran t t₁ c p files) : loadState t₁ c = .ok p.behind := by
  obtain ⟨t₀, path, made, beside, names, hstep, hsaved⟩ := h.wrote
  exact loadState_text h.obeys hsaved.locate

/-- A run leaves all files at places that names lead to. -/
theorem named (h : Ran t t₁ c p files) (hnamed : t.Named) : t₁.Named := by
  obtain ⟨t₀, path, made, beside, names, hstep, hsaved⟩ := h.wrote
  have hbefore : t₀.Named := by
    cases hstep with
    | nothing _ => exact hnamed
    | file _ hwritten =>
      intro place data hplace
      rw [hwritten.files] at hplace
      split at hplace
      · next hkey => exact ⟨_, hkey, locate_names hwritten.place⟩
      · exact hnamed _ _ hplace
  intro place data hplace
  rw [hsaved.files] at hplace
  split at hplace
  · next hkey => exact ⟨_, hkey, locate_names hsaved.place⟩
  · split at hplace
    · cases hplace
    · exact hbefore _ _ hplace

/-- **A run touches no source, if what it writes is apart from the sections.** -/
theorem kept (h : Ran t t₁ c p files) (hnamed : t.Named) (hapart : c.Apart) (place : String)
    (hsource : c.IsSource t place) : t₁.file? place = t.file? place := by
  -- names lead to the place, or no file is there before or behind the run
  obtain ⟨names, rfl, hnames⟩ | ⟨hbefore, hbehind⟩ :
      (∃ names, place = key names ∧ ∀ n ∈ names, IsName n ∧ n ≠ "..")
        ∨ t.file? place = none ∧ t₁.file? place = none := by
    cases hbefore : t.file? place with
    | some data => exact Or.inl (hnamed _ _ hbefore)
    | none =>
      cases hbehind : t₁.file? place with
      | some data => exact Or.inl (h.named hnamed _ _ hbehind)
      | none => exact Or.inr ⟨rfl, rfl⟩
  · obtain ⟨t₀, path, made, beside, state, hstep, hsaved⟩ := h.wrote
    have hmigration : t₀.file? (key names) = t.file? (key names) := by
      cases hstep with
      | nothing _ => rfl
      | file _ hwritten =>
        rw [hwritten.files, if_neg]
        intro hkey
        exact hapart.migration h.name hwritten (hkey ▸ hsource)
    rw [hsaved.files, if_neg, if_neg, hmigration]
    · intro hat
      exact hapart.besideState hsaved hnames hat (hsource.kept hstep.staysOpen)
    · intro hkey
      exact hapart.state hsaved (hkey ▸ hsource)
  · rw [hbefore, hbehind]

end Ran

/-! ## §2. The second run. -/

/-- The migration of no changes is not to be persisted. -/
theorem shouldPersist_unchanged (hname : checkMigrationName name = .ok ()) (createdAt : Stamp)
    (paths : List String) (next : Snapshot) :
    (synthesize name createdAt ⟨[], paths⟩ next).shouldPersist = false := by
  obtain ⟨hlines, hreview⟩ := synthesize_unchanged name createdAt paths next
  unfold Migration.shouldPersist
  rw [head_isEmpty (inline_of_checkMigrationName hname) hlines, hreview]
  rfl

/-- **A run behind another has nothing to do, if it reads the same files**: it has no change
and no migration, and it leaves the state and all files as they are. -/
theorem Ran.again {p : Plan} {files : List SourceFile} (h : Ran t t₁ c p files)
    (hread : readSources t₁ c = .ok files) (hname : checkMigrationName name = .ok ())
    (createdAt : Stamp) :
    ∃ t₂ m notices, generate t₁ c name createdAt = (t₂, .ok ⟨m, none, 0⟩, notices)
      ∧ loadState t₂ c = .ok p.behind ∧ ∀ place, t₂.file? place = t₁.file? place := by
  obtain ⟨hpaths, hfiles, -⟩ := readSources_paths h.read
  have htables : ∀ f ∈ files, ∀ t, f.table? = some t → t.columnNames.Nodup := by
    intro f hf table htable
    obtain ⟨text, -, hfile⟩ := hfiles f hf
    obtain ⟨st, -, hparse⟩ := (SourceFile.read_sound hfile).2 table htable
    exact Table.parse_names_nodup hparse
  have hsnapshot : p.behind.snapshot = p.state.snapshot.advance files := h.next
  have hdiff : treeDiff files p.behind.snapshot = ⟨[], (byPath files).map (·.path)⟩ := by
    rw [hsnapshot]
    exact treeDiff_advance h.ok hpaths htables _
  have hnext : p.behind.snapshot.advance files = p.behind.snapshot := by
    rw [hsnapshot]
    exact advance_advance h.ok hpaths _
  -- the plan of the second run
  let unchanged : TreeDiff := ⟨[], (byPath files).map (·.path)⟩
  let m := synthesize name createdAt unchanged p.behind.snapshot
  have hplan : (plan t₁ c name createdAt).1 = .ok ⟨p.behind, unchanged, p.behind.snapshot, m⟩ := by
    refine plan_ok.2 ⟨hname, h.behind, files, hread, ?_, hnext.symm, rfl⟩
    rw [compareTree_ok h.ok, hdiff]
  have hrest : m.shouldPersist = false := shouldPersist_unchanged hname createdAt _ _
  have hbehind : Plan.behind ⟨p.behind, unchanged, p.behind.snapshot, m⟩ = p.behind := by
    show (⟨p.behind.snapshot, if m.shouldPersist then _ else p.behind.history⟩ : SyncState) = _
    rw [hrest]
    rfl
  obtain ⟨t₀, path, made, beside, names, hstep, hsaved⟩ := h.wrote
  obtain ⟨t₂, hsave, hsame⟩ := hsaved.again
  obtain ⟨notices, hrun⟩ := generate_resting hplan hrest (hbehind.symm ▸ hsave)
  obtain ⟨made', beside', names', hsaved'⟩ := saveState_ok.1 hsave
  exact ⟨t₂, m, notices, hrun, loadState_text h.obeys hsaved'.locate, hsame⟩

/-- A file that a tree has and its snapshot has not is a change. -/
theorem changes_ne_nil {files : List SourceFile} (hpaths : (files.map (·.path)).Nodup)
    {s : Snapshot} {path : String} (hfile : path ∈ files.map (·.path))
    (hrecord : path ∉ s.files.paths) : (treeDiff files s).changes ≠ [] := by
  obtain ⟨change, hchange, -⟩ := (reports_added hpaths path).2 ⟨hfile, hrecord⟩
  exact List.ne_nil_of_mem hchange

/-- **A source that was not there before is a change to report.** -/
theorem Ran.reports_new {p : Plan} {files : List SourceFile} (h : Ran t t₁ c p files)
    (hnamed : t.Named) {place : String} (hsource : c.IsSource t place)
    (hbefore : t.file? place = none) (hbehind : t₁.file? place ≠ none)
    {t₂ : FileTree} {g₂ : Generated} {notices₂ : List Notice}
    (hrun : generate t₁ c name createdAt = (t₂, .ok g₂, notices₂)) : g₂.changes ≠ 0 := by
  obtain ⟨p₂, files₂, h₂, -, rfl⟩ := ran hrun
  obtain ⟨hpaths, hread, -⟩ := readSources_paths h.read
  obtain ⟨hpaths₂, -, found₂, hscan₂, hfound₂⟩ := readSources_paths h₂.read
  obtain ⟨s, hs, directory, name, hdirectory, hname, rfl⟩ := hsource
  obtain ⟨data, hdata⟩ := Option.ne_none_iff_exists'.1 hbehind
  -- the file is found at this path
  have hnew : key (parts s.path ++ [name]) ∈ files₂.map (·.path) := by
    obtain ⟨l, hl⟩ : ∃ l, sectionFiles t₁ s = .ok l := by
      unfold sectionFiles
      rw [directory_kept h.staysOpen hdirectory]
      exact ⟨_, rfl⟩
    obtain ⟨directory', hdirectory', -, hmem⟩ := sectionFiles_ok hl
    rw [directory_kept h.staysOpen hdirectory] at hdirectory'
    cases hdirectory'
    rw [hfound₂, mem_scan hscan₂]
    exact ⟨s, hs, l, hl, (hmem _).2 ⟨name, rfl, hname, mem_files.2 ⟨data, hdata⟩⟩⟩
  -- and it was not found there before
  have hold : key (parts s.path ++ [name]) ∉ files.map (·.path) := by
    intro hmem
    obtain ⟨f, hf, hpath⟩ := List.mem_map.1 hmem
    obtain ⟨text, htext, -⟩ := hread f hf
    rw [hpath] at htext
    obtain ⟨names, hlocate⟩ := readText_ok.1 htext
    obtain ⟨names', hkey, hnames'⟩ := h.named hnamed _ _ hdata
    obtain ⟨rest, rfl, rfl⟩ := names_below (directory_names hdirectory) hnames' hkey
    have hplace := locate_source hdirectory
      (fun n hn => hnames' n (List.mem_append_right _ hn)) (locate_taken hlocate).2
    have hfile := file?_of_locate hlocate
    rw [hplace, ← hkey, hbefore] at hfile
    cases hfile
  have hrecord : key (parts s.path ++ [name]) ∉ p₂.state.snapshot.files.paths := by
    have hstate : p₂.state = p.behind := Except.ok.inj (h₂.loaded.symm.trans h.behind)
    rw [hstate, show p.behind.snapshot = p.state.snapshot.advance files from h.next]
    intro hmem
    obtain ⟨e, he, hpath⟩ := List.mem_map.1 hmem
    obtain ⟨f, hf, hfpath⟩ := mem_advance h.ok hpaths _ he
    exact hold (List.mem_map.2 ⟨f, hf, hfpath.trans hpath⟩)
  show p₂.diff.changes.length ≠ 0
  rw [h₂.diff]
  intro hzero
  exact changes_ne_nil hpaths₂ hnew hrecord (List.eq_nil_of_length_eq_zero hzero)

/-! ## §3. Two runs. -/

theorem seedTree_named : seedTree.Named := by
  intro place data hplace
  have hmem : (place, .file data)
      ∈ [("sql", .directory), ("sql/a.sql", Node.file (.text "SELECT 1;"))] :=
    PathMap.mem_of_mem_ofList (PathMap.get?_eq_some.1 (file?_eq_some.1 hplace))
  simp only [List.mem_cons, Prod.mk.injEq, reduceCtorEq, and_false, false_or, List.not_mem_nil,
    or_false] at hmem
  refine ⟨["sql", "a.sql"], hmem.1, ?_⟩
  unfold IsName
  decide

/-- The first run over the project of one statement, if its migration and the state can be
written. -/
theorem generate_seed (path : String) (hstate : loadState seedTree c = .ok {})
    (hscan : scan seedTree c = .ok [⟨"sql", "sql/a.sql"⟩])
    (hwrite : (writeMigration seedTree c (seed.planFrom {}).migration).2 = .ok path)
    (hsave : (saveState (writeMigration seedTree c (seed.planFrom {}).migration).1 c
      (seed.planFrom {}).behind).2 = none) :
    ∃ g notices, generate seedTree c seed.name seed.createdAt
      = ((finishPlan (writeMigration seedTree c (seed.planFrom {}).migration).1 c (seed.planFrom {})
          (some path)).1, .ok g, notices)
      ∧ g.migration = (seed.planFrom {}).migration := by
  have hfinish : (finishPlan (writeMigration seedTree c (seed.planFrom {}).migration).1 c
      (seed.planFrom {}) (some path)).2
        = .ok ⟨(seed.planFrom {}).migration, some path, (seed.planFrom {}).diff.changes.length⟩ := by
    have hpath : (some path).isSome = (seed.planFrom {}).migration.shouldPersist :=
      seed_persists.symm
    rw [finishPlan_eq hpath]
    split
    · next f h =>
      rw [h] at hsave
      cases hsave
    · rfl
  obtain ⟨notices, hrun⟩ := generate_persisting path
    (plan_seed hstate hscan (by decide +kernel)) seed_persists hwrite hfinish
  exact ⟨_, notices, hrun, rfl⟩

/-- The migrations are written below the section. -/
def nestedConfig : Config := { migrationsDir := some "sql/migrations" }

end SchemaDrift
