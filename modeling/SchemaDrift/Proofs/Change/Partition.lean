/-
  SchemaDrift.Proofs.Change.Partition
  ───────────────────────────────────
  **EVERY PATH IS REPORTED ONCE, IN WHATEVER ORDER THE FILES COME.**

  A tree of files and a snapshot have paths in common and paths of their own.  Their
  difference sorts all of them out (`TreeDiff.Partitions`):

      only a file         reported as added
      only a record       reported as deleted
      a file and a record reported as modified, or listed as unmodified

  Each path is told once and in order.  Nothing of this depends on the order in which the
  files are given, and neither do the snapshot behind them and the migration
  (`compareTree_perm`, `advance_eq_of_perm`).  A file with an error stops it all, and then
  every such file is named.
-/

import Mathlib.Data.List.Nodup
import SchemaDrift.Migration.Synthesis
import SchemaDrift.Proofs.Change.Sections

namespace SchemaDrift

/-- The difference reports the path with the event. -/
def TreeDiff.Reports (d : TreeDiff) (event : FileEvent) (path : String) : Prop :=
  ∃ c ∈ d.changes, c.event = event ∧ c.path = path

/-- The difference tells of every path of the files and the snapshot what became of it. -/
structure TreeDiff.Partitions (d : TreeDiff) (files : List SourceFile) (s : Snapshot) : Prop where
  /-- A path is told exactly once, and no other path is. -/
  once : ∀ path, (d.changes.map (·.path) ++ d.unmodified).count path
    = if path ∈ files.map (·.path) ∨ path ∈ s.files.paths then 1 else 0
  added : ∀ path, d.Reports .added path ↔ path ∈ files.map (·.path) ∧ path ∉ s.files.paths
  deleted : ∀ path, d.Reports .deleted path ↔ path ∉ files.map (·.path) ∧ path ∈ s.files.paths
  kept : ∀ path, d.Reports .modified path ∨ path ∈ d.unmodified
    ↔ path ∈ files.map (·.path) ∧ path ∈ s.files.paths
  changes_sorted : d.changes.Pairwise fun c c' => c.path < c'.path
  unmodified_sorted : d.unmodified.Pairwise (· < ·)

variable {files files' : List SourceFile} {s : Snapshot}

/-! ## §1. Paths with a change. -/

/-- A change is kept at its own path. -/
theorem path_of_entry {e : String × FileChange}
    (h : e ∈ presentChanges files s ++ goneChanges files s) : e.2.path = e.1 := by
  rcases List.mem_append.1 h with h | h
  · obtain ⟨f, -, hf⟩ := List.mem_filterMap.1 h
    obtain ⟨c, hc, rfl⟩ := Option.map_eq_some_iff.1 hf
    unfold fileChange? at hc
    split at hc
    · cases hc
      rfl
    · obtain ⟨detail, -, rfl⟩ := Option.map_eq_some_iff.1 hc
      rfl
  · obtain ⟨r, -, rfl⟩ := List.mem_map.1 h
    rfl

/-- The changes stand in the order of their paths. -/
theorem changes_path_eq (h : (files.map (·.path)).Nodup) :
    (treeDiff files s).changes.map (·.path)
      = (PathMap.ofList (presentChanges files s ++ goneChanges files s)).paths := by
  show ((PathMap.ofList (presentChanges files s ++ goneChanges files s)).entries.map (·.2)).map _
    = _
  rw [List.map_map]
  refine List.map_congr_left ?_
  intro e he
  exact path_of_entry ((PathMap.ofList_perm (change_paths_nodup h)).mem_iff.1 he)

theorem changes_sorted (h : (files.map (·.path)).Nodup) :
    (treeDiff files s).changes.Pairwise fun c c' => c.path < c'.path := by
  have hpaths : ((treeDiff files s).changes.map (·.path)).Pairwise (· < ·) := by
    rw [changes_path_eq h]
    exact List.pairwise_map.2 (PathMap.ofList _).sorted
  exact List.pairwise_map.1 hpaths

/-! ## §2. Events. -/

/-- A path is reported as added if it is one of a file without a record. -/
theorem reports_added (h : (files.map (·.path)).Nodup) (path : String) :
    (treeDiff files s).Reports .added path
      ↔ path ∈ files.map (·.path) ∧ path ∉ s.files.paths := by
  have hnone : ∀ p, (s.get? p).isNone = true ↔ p ∉ s.files.paths := by
    intro p
    rw [PathMap.mem_paths, Option.isNone_iff_eq_none, ← Option.not_isSome_iff_eq_none,
      Option.isSome_iff_exists]
    rfl
  unfold TreeDiff.Reports
  constructor
  · rintro ⟨c, hc, hevent, rfl⟩
    have hsection : c ∈ (treeDiff files s).changes.filter (·.event = .added) :=
      List.mem_filter.2 ⟨hc, by simpa using hevent⟩
    rw [changes_added h] at hsection
    obtain ⟨f, hf, rfl⟩ := List.mem_map.1 hsection
    obtain ⟨hf, hfresh⟩ := List.mem_filter.1 hf
    exact ⟨List.mem_map_of_mem (mem_byPath.1 hf), (hnone _).1 hfresh⟩
  · rintro ⟨hpath, hfresh⟩
    obtain ⟨f, hf, rfl⟩ := List.mem_map.1 hpath
    have hsection : FileChange.added f ∈ (treeDiff files s).changes.filter (·.event = .added) := by
      rw [changes_added h]
      exact List.mem_map_of_mem (List.mem_filter.2 ⟨mem_byPath.2 hf, (hnone _).2 hfresh⟩)
    exact ⟨_, (List.mem_filter.1 hsection).1, rfl, rfl⟩

/-- A path is reported as deleted if it is one of a record without a file. -/
theorem reports_deleted (h : (files.map (·.path)).Nodup) (path : String) :
    (treeDiff files s).Reports .deleted path
      ↔ path ∉ files.map (·.path) ∧ path ∈ s.files.paths := by
  have hgone : ∀ e, e ∈ goneRecords files s
      ↔ e ∈ s.files.entries ∧ e.1 ∉ files.map (·.path) := by
    intro e
    unfold goneRecords
    rw [List.mem_filter]
    simp
  unfold TreeDiff.Reports
  constructor
  · rintro ⟨c, hc, hevent, rfl⟩
    have hsection : c ∈ (treeDiff files s).changes.filter (·.event = .deleted) :=
      List.mem_filter.2 ⟨hc, by simpa using hevent⟩
    rw [changes_deleted h] at hsection
    obtain ⟨e, he, rfl⟩ := List.mem_map.1 hsection
    obtain ⟨hrecord, hfree⟩ := (hgone e).1 he
    exact ⟨hfree, List.mem_map_of_mem hrecord⟩
  · rintro ⟨hfree, hpath⟩
    obtain ⟨e, he, rfl⟩ := List.mem_map.1 hpath
    have hsection : FileChange.deleted e.1 e.2
        ∈ (treeDiff files s).changes.filter (·.event = .deleted) := by
      rw [changes_deleted h]
      exact List.mem_map.2 ⟨e, (hgone e).2 ⟨he, hfree⟩, rfl⟩
    exact ⟨_, (List.mem_filter.1 hsection).1, rfl, rfl⟩

/-- A file that differs from its record is among the changes. -/
theorem mem_changes_modified (h : (files.map (·.path)).Nodup) {f : SourceFile} (hf : f ∈ files)
    {r : Record} {detail : Modification} (hr : s.get? f.path = some r)
    (hdetail : modification? f r = some detail) :
    .modified f r detail ∈ (treeDiff files s).changes := by
  have hsection : FileChange.modified f r detail
      ∈ (treeDiff files s).changes.filter (·.event = .modified) := by
    rw [changes_modified h]
    exact List.mem_filterMap.2 ⟨f, mem_byPath.2 hf, by rw [hr, Option.bind_some, hdetail]; rfl⟩
  exact (List.mem_filter.1 hsection).1

/-- A path is reported as modified if its file differs from its record. -/
theorem reports_modified (h : (files.map (·.path)).Nodup) (path : String) :
    (treeDiff files s).Reports .modified path
      ↔ ∃ f ∈ files, f.path = path ∧ ∃ r detail, s.get? f.path = some r
        ∧ modification? f r = some detail := by
  unfold TreeDiff.Reports
  constructor
  · rintro ⟨c, hc, hevent, rfl⟩
    have hsection : c ∈ (treeDiff files s).changes.filter (·.event = .modified) :=
      List.mem_filter.2 ⟨hc, by simpa using hevent⟩
    rw [changes_modified h] at hsection
    obtain ⟨f, hf, hc⟩ := List.mem_filterMap.1 hsection
    obtain ⟨r, hr, hc⟩ := Option.bind_eq_some_iff.1 hc
    obtain ⟨detail, hdetail, rfl⟩ := Option.map_eq_some_iff.1 hc
    exact ⟨f, mem_byPath.1 hf, rfl, r, detail, hr, hdetail⟩
  · rintro ⟨f, hf, rfl, r, detail, hr, hdetail⟩
    exact ⟨_, mem_changes_modified h hf hr hdetail, rfl, rfl⟩

/-! ## §3. Paths without a change. -/

/-- The unmodified paths are those of the files without a change, in order. -/
theorem unmodified_eq (files : List SourceFile) (s : Snapshot) : (treeDiff files s).unmodified
    = (byPath (files.filter fun f => (fileChange? s f).isNone)).map (·.path) := paths_mergeSort _

theorem unmodified_perm (files : List SourceFile) (s : Snapshot) : (treeDiff files s).unmodified.Perm
    ((files.filter fun f => (fileChange? s f).isNone).map (·.path)) := by
  rw [unmodified_eq]
  exact (byPath_perm _).map _

theorem mem_unmodified {path : String} : path ∈ (treeDiff files s).unmodified
    ↔ ∃ f ∈ files, f.path = path ∧ ∃ r, s.get? f.path = some r ∧ modification? f r = none := by
  rw [(unmodified_perm files s).mem_iff, List.mem_map]
  simp only [List.mem_filter, Option.isNone_iff_eq_none, and_assoc]
  refine exists_congr fun f => and_congr_right fun _ => ?_
  rw [and_comm]
  refine and_congr_right fun _ => ?_
  unfold fileChange?
  cases hr : s.get? f.path with
  | none => simp
  | some r => simp

/-- The unmodified paths stand in order. -/
theorem unmodified_sorted (h : (files.map (·.path)).Nodup) :
    (treeDiff files s).unmodified.Pairwise (· < ·) := by
  rw [unmodified_eq]
  exact List.pairwise_map.2 (byPath_sorted (h.sublist (List.filter_sublist.map _)))

/-- A path is reported as modified or unmodified if it has a file and a record. -/
theorem reports_kept (h : (files.map (·.path)).Nodup) (path : String) :
    (treeDiff files s).Reports .modified path ∨ path ∈ (treeDiff files s).unmodified
      ↔ path ∈ files.map (·.path) ∧ path ∈ s.files.paths := by
  rw [reports_modified h, mem_unmodified, List.mem_map, PathMap.mem_paths]
  constructor
  · rintro (⟨f, hf, rfl, r, -, hr, -⟩ | ⟨f, hf, rfl, r, hr, -⟩)
    · exact ⟨⟨f, hf, rfl⟩, r, hr⟩
    · exact ⟨⟨f, hf, rfl⟩, r, hr⟩
  · rintro ⟨⟨f, hf, rfl⟩, r, hr⟩
    cases hm : modification? f r with
    | none => exact Or.inr ⟨f, hf, rfl, r, hr, hm⟩
    | some detail => exact Or.inl ⟨f, hf, rfl, r, detail, hr, hm⟩

/-! ## §4. All paths. -/

/-- A path with a change is reported with one of three events. -/
theorem mem_changes_path {d : TreeDiff} {path : String} : path ∈ d.changes.map (·.path)
    ↔ d.Reports .added path ∨ d.Reports .modified path ∨ d.Reports .deleted path := by
  rw [List.mem_map]
  unfold TreeDiff.Reports
  constructor
  · rintro ⟨c, hc, rfl⟩
    cases c with
    | added f => exact Or.inl ⟨_, hc, rfl, rfl⟩
    | modified f r detail => exact Or.inr (Or.inl ⟨_, hc, rfl, rfl⟩)
    | deleted path r => exact Or.inr (Or.inr ⟨_, hc, rfl, rfl⟩)
  · rintro (⟨c, hc, -, hpath⟩ | ⟨c, hc, -, hpath⟩ | ⟨c, hc, -, hpath⟩)
    · exact ⟨c, hc, hpath⟩
    · exact ⟨c, hc, hpath⟩
    · exact ⟨c, hc, hpath⟩

/-- No path is told twice. -/
theorem told_nodup (h : (files.map (·.path)).Nodup) :
    ((treeDiff files s).changes.map (·.path) ++ (treeDiff files s).unmodified).Nodup := by
  have hlt : ∀ {l : List String}, l.Pairwise (· < ·) → l.Nodup := by
    intro l hl
    refine hl.imp ?_
    rintro p q hpq rfl
    exact String.lt_irrefl _ hpq
  refine List.nodup_append.2
    ⟨hlt (List.pairwise_map.2 (changes_sorted h)), hlt (unmodified_sorted h), ?_⟩
  · -- a path is told of one file, and that has a change or not
    rintro p hp q hq rfl
    obtain ⟨f, hf, hpath, r, hr, hnone⟩ := mem_unmodified.1 hq
    have hfile : p ∈ files.map (·.path) := hpath ▸ List.mem_map_of_mem hf
    have hrecord : p ∈ s.files.paths := PathMap.mem_paths.2 ⟨r, hpath ▸ hr⟩
    rcases mem_changes_path.1 hp with hadded | hmodified | hdeleted
    · exact ((reports_added h p).1 hadded).2 hrecord
    · obtain ⟨g, hg, hgpath, r', detail, hr', hdetail⟩ := (reports_modified h p).1 hmodified
      obtain rfl : g = f := List.inj_on_of_nodup_map h hg hf (hgpath.trans hpath.symm)
      rw [hr] at hr'
      rw [← Option.some.inj hr', hnone] at hdetail
      cases hdetail
    · exact ((reports_deleted h p).1 hdeleted).1 hfile

/-- **The difference of a tree and a snapshot sorts out all paths of both.** -/
theorem treeDiff_partitions (h : (files.map (·.path)).Nodup) (s : Snapshot) :
    (treeDiff files s).Partitions files s := by
  refine ⟨?_, reports_added h, reports_deleted h, reports_kept h, changes_sorted h,
    unmodified_sorted h⟩
  intro path
  have hmem : path ∈ (treeDiff files s).changes.map (·.path) ++ (treeDiff files s).unmodified
      ↔ path ∈ files.map (·.path) ∨ path ∈ s.files.paths := by
    have hadded := reports_added (s := s) h path
    have hdeleted := reports_deleted (s := s) h path
    have hkept := reports_kept (s := s) h path
    rw [List.mem_append, mem_changes_path]
    by_cases hfile : path ∈ files.map (·.path)
    · by_cases hrecord : path ∈ s.files.paths
      · rcases hkept.2 ⟨hfile, hrecord⟩ with hm | hu
        · simp [hm, hfile]
        · simp [hu, hfile]
      · simp [hadded.2 ⟨hfile, hrecord⟩, hfile]
    · by_cases hrecord : path ∈ s.files.paths
      · simp [hdeleted.2 ⟨hfile, hrecord⟩, hrecord]
      · rw [hadded, hdeleted]
        have hunmodified : ¬path ∈ (treeDiff files s).unmodified :=
          fun hu => hfile (hkept.1 (Or.inr hu)).1
        have hmodified : ¬(treeDiff files s).Reports .modified path :=
          fun hm => hfile (hkept.1 (Or.inl hm)).1
        simp [hfile, hrecord, hunmodified, hmodified]
  rw [(told_nodup h).count]
  simp only [hmem]

/-! ## §5. The order of the files. -/

/-- Two lists of files that hold the same have one difference from a snapshot. -/
theorem treeDiff_eq_of_perm (h : (files.map (·.path)).Nodup) (hperm : files.Perm files')
    (s : Snapshot) : treeDiff files s = treeDiff files' s := by
  have hany : ∀ path, files.any (·.path = path) = files'.any (·.path = path) := by
    intro path
    rw [Bool.eq_iff_iff, List.any_eq_true, List.any_eq_true]
    simp only [hperm.mem_iff]
  have hgone : goneChanges files s = goneChanges files' s := by
    unfold goneChanges
    simp only [hany]
  have hpresent : (presentChanges files s).Perm (presentChanges files' s) := hperm.filterMap _
  have hchanges : PathMap.ofList (presentChanges files s ++ goneChanges files s)
      = PathMap.ofList (presentChanges files' s ++ goneChanges files' s) := by
    refine PathMap.ofList_eq_of_perm (change_paths_nodup h) ?_
    rw [hgone]
    exact hpresent.append_right _
  have hsame : (treeDiff files s).unmodified = (treeDiff files' s).unmodified := by
    have h' : (files'.map (·.path)).Nodup := (hperm.map _).nodup_iff.1 h
    refine List.Perm.eq_of_pairwise ?_ (unmodified_sorted h) (unmodified_sorted h') ?_
    · intro p q _ _ hpq hqp
      exact absurd hpq (String.lt_asymm hqp)
    · have hfilter := (hperm.filter fun f => (fileChange? s f).isNone).map (·.path)
      exact ((unmodified_perm files s).trans hfilter).trans (unmodified_perm files' s).symm
  have hparts : ∀ fs, treeDiff fs s
      = ⟨(PathMap.ofList (presentChanges fs s ++ goneChanges fs s)).values,
        (treeDiff fs s).unmodified⟩ := fun _ => rfl
  rw [hparts files, hparts files', hchanges, hsame]

/-- **The order of the files does not matter to what is told of them.** -/
theorem compareTree_perm (hok : ∀ f ∈ files, f.error? = none) (h : (files.map (·.path)).Nodup)
    (hperm : files.Perm files') (s : Snapshot) : compareTree files s = compareTree files' s := by
  have hnone : ∀ fs : List SourceFile, (∀ f ∈ fs, f.error? = none) → fileErrors fs = [] := by
    intro fs hfs
    unfold fileErrors
    rw [List.filterMap_eq_nil_iff]
    intro f hf
    rw [hfs f hf]
    rfl
  unfold compareTree
  rw [hnone files hok, hnone files' fun f hf => hok f (hperm.mem_iff.2 hf),
    treeDiff_eq_of_perm h hperm]

/-- **The order of the files does not matter to the snapshot behind them.** -/
theorem advance_eq_of_perm (h : (files.map (·.path)).Nodup) (hperm : files.Perm files')
    (s : Snapshot) : s.advance files = s.advance files' := by
  unfold Snapshot.advance
  rw [PathMap.ofList_eq_of_perm (keyed_paths_nodup h fun f => Record.ofFile? f <|> s.get? f.path)
    (hperm.filterMap _)]

/-! ## §6. Files with errors. -/

/-- The errors are those of the failed files, in their order. -/
theorem fileErrors_failed (files : List SourceFile) :
    List.Forall₂ (fun f e => e.1 = f.path ∧ f.error? = some e.2)
      (files.filter (·.error?.isSome)) (fileErrors files) := by
  induction files with
  | nil => exact List.Forall₂.nil
  | cons f files ih =>
    unfold fileErrors
    cases he : f.error? with
    | none =>
      rw [List.filter_cons_of_neg (by rw [he]; exact Bool.false_ne_true),
        List.filterMap_cons_none (by rw [he]; rfl)]
      exact ih
    | some e =>
      rw [List.filter_cons_of_pos (by rw [he]; rfl),
        List.filterMap_cons_some (b := (f.path, e)) (by rw [he]; rfl)]
      exact List.Forall₂.cons ⟨rfl, he⟩ ih

/-- A tree with a failed file is not compared. -/
theorem compareTree_failed (h : ∃ f ∈ files, f.error? ≠ none) (s : Snapshot) :
    (compareTree files s).1 = .error (.unresolvedFileErrors (fileErrors files)) := by
  obtain ⟨f, hf, he⟩ := h
  have hsome : fileErrors files ≠ [] := by
    obtain ⟨e, he⟩ := Option.ne_none_iff_exists'.1 he
    refine List.ne_nil_of_mem (a := (f.path, e)) (List.mem_filterMap.2 ⟨f, hf, ?_⟩)
    rw [he]
    rfl
  unfold compareTree
  dsimp only
  rw [if_neg (by simpa using hsome)]

/-- **A tree with failed files is refused, and each of them is named with its error, in the
order of the files.  A tree without is compared: every path is told once, as what became of
it, and neither the difference nor the snapshot behind it nor the migration depends on the
order of the files.** -/
theorem compareTree_partitions (hpaths : (files.map (·.path)).Nodup) (s : Snapshot) :
    ((∃ f ∈ files, f.error? ≠ none) →
      ∃ errors, (compareTree files s).1 = .error (.unresolvedFileErrors errors)
        ∧ List.Forall₂ (fun f e => e.1 = f.path ∧ f.error? = some e.2)
          (files.filter (·.error?.isSome)) errors)
    ∧ ((∀ f ∈ files, f.error? = none) →
      ∃ d, (compareTree files s).1 = .ok d ∧ d.Partitions files s
        ∧ ∀ files' : List SourceFile, files.Perm files' →
          compareTree files s = compareTree files' s ∧ s.advance files = s.advance files'
          ∧ ∃ d', (compareTree files' s).1 = .ok d' ∧ ∀ name createdAt,
            (synthesize name createdAt d (s.advance files)).text
              = (synthesize name createdAt d' (s.advance files')).text
            ∧ (synthesize name createdAt d (s.advance files)).record
              = (synthesize name createdAt d' (s.advance files')).record) := by
  constructor
  · intro hfailed
    exact ⟨_, compareTree_failed hfailed s, fileErrors_failed files⟩
  · intro hok
    refine ⟨_, compareTree_ok hok s, treeDiff_partitions hpaths s, ?_⟩
    intro files' hperm
    have hsame := compareTree_perm hok hpaths hperm s
    have hnext := advance_eq_of_perm hpaths hperm s
    refine ⟨hsame, hnext, treeDiff files s, ?_, ?_⟩
    · rw [← hsame]
      exact compareTree_ok hok s
    · intro name createdAt
      rw [hnext]
      exact ⟨rfl, rfl⟩

/-- Four files: one is new, one is as it was, one has become another, and one has failed; a
fifth path has only a record. -/
theorem compareTree_partitions_users :
    let users : SourceFile := ⟨"users.sql", "1", ⟨false, false⟩, .ok ⟨[⟨"SELECT 1;", some 1⟩], none⟩⟩
    let logs : SourceFile := ⟨"logs.sql", "2", ⟨false, false⟩, .ok ⟨[⟨"SELECT 2;", some 1⟩], none⟩⟩
    let seed : SourceFile := ⟨"seed.sql", "3", ⟨false, true⟩, .ok ⟨[], none⟩⟩
    let failed : SourceFile := ⟨"a.sql", "4", ⟨true, true⟩, .error .directiveConflict⟩
    let s : Snapshot := ⟨.ofList [("logs.sql", .plain "2" ["2"]), ("seed.sql", .plain "0" ["0"]),
      ("gone.sql", .plain "5" [])]⟩
    (∃ errors, (compareTree [users, failed, logs] s).1 = .error (.unresolvedFileErrors errors)
        ∧ List.Forall₂ (fun f e => e.1 = f.path ∧ f.error? = some e.2)
          ([users, failed, logs].filter (·.error?.isSome)) errors)
      ∧ (∃ d, (compareTree [users, logs, seed] s).1 = .ok d ∧ d.Partitions [users, logs, seed] s)
      ∧ compareTree [users, logs, seed] s = compareTree [seed, users, logs] s
      ∧ s.advance [users, logs, seed] = s.advance [seed, users, logs] := by
  intro users logs seed failed s
  have hpaths : ([users, failed, logs].map (·.path)).Nodup := by decide
  have hpaths' : ([users, logs, seed].map (·.path)).Nodup := by decide
  obtain ⟨hfailed, -⟩ := compareTree_partitions hpaths s
  obtain ⟨-, hok⟩ := compareTree_partitions hpaths' s
  obtain ⟨d, hd, hpartitions, horder⟩ := hok (by decide)
  have hperm : ([users, logs] ++ [seed]).Perm ([seed] ++ [users, logs]) := List.perm_append_comm
  obtain ⟨hsame, hnext, -⟩ := horder [seed, users, logs] hperm
  exact ⟨hfailed ⟨failed, by simp, by decide⟩, ⟨d, hd, hpartitions⟩, hsame, hnext⟩

end SchemaDrift
