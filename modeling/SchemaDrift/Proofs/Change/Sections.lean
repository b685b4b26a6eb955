/-
  SchemaDrift.Proofs.Change.Sections
  ──────────────────────────────────
  **THE CHANGES OF ONE EVENT, IN THE ORDER OF THEIR PATHS.**

  A difference lists all changes in one order, by path.  The changes of one event are read
  off the sorted files, and those of files that are gone off the snapshot:

      added      the files without a record               (`changes_added`)
      modified   the files that differ from their record  (`changes_modified`)
      deleted    the records without a file               (`changes_deleted`)
-/

import Mathlib.Data.List.Basic
import SchemaDrift.Change.Detect
import SchemaDrift.Proofs.Snapshot.Entries

namespace SchemaDrift

/-! ## §1. Files by path. -/

/-- The files in the order of their paths. -/
def byPath (files : List SourceFile) : List SourceFile :=
  files.mergeSort fun f g => decide (f.path ≤ g.path)

theorem byPath_perm (files : List SourceFile) : (byPath files).Perm files :=
  List.mergeSort_perm _ _

theorem mem_byPath {files : List SourceFile} {f : SourceFile} : f ∈ byPath files ↔ f ∈ files :=
  (byPath_perm files).mem_iff

/-- Paths are sorted as their files are. -/
theorem paths_mergeSort (files : List SourceFile) :
    (files.map (·.path)).mergeSort (fun p q => decide (p ≤ q)) = (byPath files).map (·.path) := by
  unfold byPath
  refine (List.map_mergeSort ?_).symm
  intro f _ g _
  rfl

/-- Files with different paths stand strictly in order. -/
theorem byPath_sorted {files : List SourceFile} (h : (files.map (·.path)).Nodup) :
    (byPath files).Pairwise fun f g => f.path < g.path := by
  have hle : (byPath files).Pairwise fun f g => decide (f.path ≤ g.path) = true := by
    refine List.pairwise_mergeSort ?_ ?_ files
    · intro a b c hab hbc
      rw [decide_eq_true_eq] at hab hbc ⊢
      exact String.le_trans hab hbc
    · intro a b
      simpa using String.le_total a.path b.path
  have hne : (byPath files).Pairwise fun f g => f.path ≠ g.path := by
    have hnodup : ((byPath files).map (·.path)).Nodup := ((byPath_perm files).map _).nodup_iff.2 h
    exact List.pairwise_map.1 hnodup
  refine (hle.and hne).imp ?_
  intro f g hfg
  rcases Decidable.em (f.path < g.path) with hlt | hnlt
  · exact hlt
  · exact absurd (String.le_antisymm (of_decide_eq_true hfg.1) (String.not_lt.1 hnlt)) hfg.2

/-! ## §2. All changes. -/

/-- The changes of the files that are there, by path. -/
def presentChanges (files : List SourceFile) (s : Snapshot) : List (String × FileChange) :=
  files.filterMap fun f => (fileChange? s f).map fun c => (f.path, c)

/-- The changes of the files that are gone, by path. -/
def goneChanges (files : List SourceFile) (s : Snapshot) : List (String × FileChange) :=
  (s.files.entries.filter fun e => !files.any (·.path = e.1)).map fun e =>
    (e.1, FileChange.deleted e.1 e.2)

variable {files : List SourceFile} {s : Snapshot}

/-- What is made of files with different paths, at their paths, has different paths. -/
theorem keyed_paths_nodup {β : Type} (h : (files.map (·.path)).Nodup)
    (make? : SourceFile → Option β) :
    ((files.filterMap fun f => (make? f).map fun b => (f.path, b)).map (·.1)).Nodup := by
  refine h.sublist ?_
  clear h
  induction files with
  | nil => exact List.Sublist.refl _
  | cons f files ih =>
    rw [List.map_cons]
    cases hc : make? f with
    | none =>
      rw [List.filterMap_cons_none (by rw [hc]; rfl)]
      exact ih.cons _
    | some b =>
      rw [List.filterMap_cons_some (b := (f.path, b)) (by rw [hc]; rfl)]
      exact ih.cons_cons _

/-- No path changes twice. -/
theorem change_paths_nodup (h : (files.map (·.path)).Nodup) :
    ((presentChanges files s ++ goneChanges files s).map (·.1)).Nodup := by
  rw [List.map_append, List.nodup_append]
  refine ⟨keyed_paths_nodup h (fileChange? s), ?_, ?_⟩
  · have hgone : (goneChanges files s).map (·.1)
        = (s.files.entries.filter fun e => !files.any (·.path = e.1)).map (·.1) := by
      unfold goneChanges
      rw [List.map_map]
      rfl
    rw [hgone]
    exact (paths_nodup s.files.sorted).sublist (List.filter_sublist.map _)
  · intro p hp q hq hpq
    obtain ⟨e, he, rfl⟩ := List.mem_map.1 hp
    obtain ⟨d, hd, rfl⟩ := List.mem_map.1 hq
    obtain ⟨f, hf, hfe⟩ := List.mem_filterMap.1 he
    obtain ⟨c, -, rfl⟩ := Option.map_eq_some_iff.1 hfe
    obtain ⟨r, hr, rfl⟩ := List.mem_map.1 hd
    obtain ⟨-, hnone⟩ := List.mem_filter.1 hr
    rw [Bool.not_eq_true', List.any_eq_false] at hnone
    exact hnone f hf (by simpa using hpq)

/-- **A sorted row of changes of one event is the section of that event**, if it holds the
changes of the event. -/
theorem changes_eq_of_perm (h : (files.map (·.path)).Nodup) (event : FileEvent)
    {l : List (String × FileChange)} (hl : l.Pairwise EntryBefore)
    (hperm : l.Perm ((presentChanges files s ++ goneChanges files s).filter (·.2.event = event))) :
    (treeDiff files s).changes.filter (·.event = event) = l.map (·.2) := by
  have hall := PathMap.ofList_perm (change_paths_nodup (s := s) h)
  have hsection : (PathMap.ofList (presentChanges files s ++ goneChanges files s)).entries.filter
      (·.2.event = event) = l :=
    eq_of_perm ((hall.filter _).trans hperm.symm)
      ((PathMap.ofList (presentChanges files s ++ goneChanges files s)).sorted.filter _) hl
  rw [← hsection]
  show ((PathMap.ofList (presentChanges files s ++ goneChanges files s)).entries.map (·.2)).filter _
    = _
  rw [List.filter_map]
  rfl

/-- Files without errors are compared. -/
theorem compareTree_ok (h : ∀ f ∈ files, f.error? = none) (s : Snapshot) :
    (compareTree files s).1 = .ok (treeDiff files s) := by
  have hnone : fileErrors files = [] := by
    unfold fileErrors
    rw [List.filterMap_eq_nil_iff]
    intro f hf
    rw [h f hf]
    rfl
  unfold compareTree
  rw [hnone]
  rfl

/-! ## §3. The sections. -/

/-- What is made of the sorted files at their paths is sorted. -/
theorem filterMap_byPath_sorted (h : (files.map (·.path)).Nodup)
    (change? : SourceFile → Option FileChange) :
    ((byPath files).filterMap fun f => (change? f).map fun c => (f.path, c)).Pairwise
      EntryBefore := by
  refine List.pairwise_filterMap.2 ((byPath_sorted h).imp ?_)
  intro f g hfg d hd e he
  obtain ⟨c, -, rfl⟩ := Option.map_eq_some_iff.1 hd
  obtain ⟨c', -, rfl⟩ := Option.map_eq_some_iff.1 he
  exact hfg

/-- The changes of the files that are there, restricted to an event. -/
theorem present_filter (event : FileEvent) :
    (presentChanges files s).filter (·.2.event = event)
      = files.filterMap fun f => ((fileChange? s f).filter (·.event = event)).map fun c =>
          (f.path, c) := by
  unfold presentChanges
  rw [List.filter_filterMap]
  refine List.filterMap_congr ?_
  intro f _
  cases fileChange? s f with
  | none => rfl
  | some c => by_cases hc : c.event = event <;> simp [Option.filter, hc]

theorem gone_filter (event : FileEvent) (h : event ≠ .deleted) :
    (goneChanges files s).filter (·.2.event = event) = [] := by
  unfold goneChanges
  rw [List.filter_eq_nil_iff]
  intro e he
  obtain ⟨r, -, rfl⟩ := List.mem_map.1 he
  simp [FileChange.event, Ne.symm h]

/-- A section of files that are there. -/
theorem changes_present (h : (files.map (·.path)).Nodup) (event : FileEvent)
    (hevent : event ≠ .deleted) :
    (treeDiff files s).changes.filter (·.event = event)
      = (byPath files).filterMap fun f => (fileChange? s f).filter (·.event = event) := by
  rw [changes_eq_of_perm h event (filterMap_byPath_sorted h
    fun f => (fileChange? s f).filter (·.event = event)) ?_, List.map_filterMap]
  · refine List.filterMap_congr ?_
    intro f _
    rw [Option.map_map]
    exact Option.map_id'
  · rw [List.filter_append, gone_filter event hevent, List.append_nil, present_filter]
    exact (byPath_perm files).filterMap _

/-- **The added files are those without a record.** -/
theorem changes_added (h : (files.map (·.path)).Nodup) :
    (treeDiff files s).changes.filter (·.event = .added)
      = ((byPath files).filter fun f => (s.get? f.path).isNone).map .added := by
  rw [changes_present h .added (by decide), ← List.filterMap_eq_map, List.filterMap_filter]
  refine List.filterMap_congr ?_
  intro f _
  unfold fileChange?
  cases s.get? f.path with
  | none => rfl
  | some r => cases hm : modification? f r <;> simp [hm, Option.filter, FileChange.event]

/-- **The modified files are those that differ from their record.** -/
theorem changes_modified (h : (files.map (·.path)).Nodup) :
    (treeDiff files s).changes.filter (·.event = .modified)
      = (byPath files).filterMap fun f => (s.get? f.path).bind fun r =>
          (modification? f r).map (.modified f r) := by
  rw [changes_present h .modified (by decide)]
  refine List.filterMap_congr ?_
  intro f _
  unfold fileChange?
  cases s.get? f.path with
  | none => rfl
  | some r => cases hm : modification? f r <;> simp [hm, Option.filter, FileChange.event]

/-- The records at paths that no file has. -/
def goneRecords (files : List SourceFile) (s : Snapshot) : List (String × Record) :=
  s.files.entries.filter fun e => !files.any (·.path = e.1)

/-- **The deleted files are the records without a file.** -/
theorem changes_deleted (h : (files.map (·.path)).Nodup) :
    (treeDiff files s).changes.filter (·.event = .deleted)
      = (goneRecords files s).map fun e => .deleted e.1 e.2 := by
  have hsorted : (goneChanges files s).Pairwise EntryBefore :=
    List.pairwise_map.2 (s.files.sorted.filter _)
  have hnone : (presentChanges files s).filter (·.2.event = .deleted) = [] := by
    rw [present_filter, List.filterMap_eq_nil_iff]
    intro f _
    unfold fileChange?
    cases s.get? f.path with
    | none => rfl
    | some r => cases hm : modification? f r <;> simp [hm, Option.filter, FileChange.event]
  have hall : (goneChanges files s).filter (·.2.event = .deleted) = goneChanges files s := by
    rw [List.filter_eq_self]
    intro e he
    obtain ⟨r, -, rfl⟩ := List.mem_map.1 he
    rfl
  rw [changes_eq_of_perm h .deleted hsorted]
  · unfold goneChanges goneRecords
    rw [List.map_map]
    rfl
  · rw [List.filter_append, hnone, hall, List.nil_append]

/-- **A change is one of a file without a record, of a file that differs from its record, or
of a record without a file.** -/
theorem changes_cases (h : (files.map (·.path)).Nodup) {c : FileChange}
    (hc : c ∈ (treeDiff files s).changes) :
    (∃ f ∈ files, c = .added f)
      ∨ (∃ f ∈ files, ∃ r detail, s.get? f.path = some r ∧ modification? f r = some detail
        ∧ c = .modified f r detail)
      ∨ ∃ path r, (path, r) ∈ goneRecords files s ∧ c = .deleted path r := by
  have hsection : c ∈ (treeDiff files s).changes.filter (·.event = c.event) :=
    List.mem_filter.2 ⟨hc, by simp⟩
  cases c with
  | added f =>
    left
    rw [show (FileChange.added f).event = .added from rfl, changes_added h] at hsection
    obtain ⟨g, hg, heq⟩ := List.mem_map.1 hsection
    exact ⟨g, mem_byPath.1 (List.mem_filter.1 hg).1, heq.symm⟩
  | modified f r detail =>
    right; left
    rw [show (FileChange.modified f r detail).event = .modified from rfl,
      changes_modified h] at hsection
    obtain ⟨g, hg, heq⟩ := List.mem_filterMap.1 hsection
    obtain ⟨r', hr, heq⟩ := Option.bind_eq_some_iff.1 heq
    obtain ⟨detail', hdetail, heq⟩ := Option.map_eq_some_iff.1 heq
    exact ⟨g, mem_byPath.1 hg, r', detail', hr, hdetail, heq.symm⟩
  | deleted path r =>
    right; right
    rw [show (FileChange.deleted path r).event = .deleted from rfl,
      changes_deleted h] at hsection
    obtain ⟨e, he, heq⟩ := List.mem_map.1 hsection
    exact ⟨e.1, e.2, he, heq.symm⟩

end SchemaDrift
