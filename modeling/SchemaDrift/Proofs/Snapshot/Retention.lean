/-
  SchemaDrift.Proofs.Snapshot.Retention
  ─────────────────────────────────────
  **A SNAPSHOT KEEPS THE LAST GOOD RECORD OF EVERY FILE.**

  A tree may have a file at a path that was read well (`GoodIn`), one that failed
  (`FailsIn`), or none.  Trees follow each other; the record that stands at the end is that
  of the last good file, as long as nothing but failures came behind it (`LastGood`).

      step     one tree puts in its good records and keeps those of its failures
               (`get?_advance_iff`)
      run      the record behind any number of trees (`get?_foldl_advance_iff`)

  A file that comes back as it was last read well is therefore no change
  (`last_good_kept`).
-/

import SchemaDrift.Proofs.Change.Accepted
import SchemaDrift.Proofs.Change.Partition
import SchemaDrift.Proofs.Source.Reads

namespace SchemaDrift

open SchemaDrift.Sql SchemaDrift.Digest

/-! ## §1. What a tree has at a path. -/

/-- The tree has a file at the path that was read without error; its record is `r`. -/
def GoodIn (path : String) (r : Record) (tree : List SourceFile) : Prop :=
  ∃ f ∈ tree, f.path = path ∧ Record.ofFile? f = some r

/-- The tree has a file at the path, and that has an error. -/
def FailsIn (path : String) (tree : List SourceFile) : Prop :=
  ∃ f ∈ tree, f.path = path ∧ f.error? ≠ none

/-- The record is that of the last good file at the path: there is a file in every tree
behind that one, and each of them failed; or they all failed, and the record was there
before the first tree. -/
def LastGood (s : Snapshot) (trees : List (List SourceFile)) (path : String) (r : Record) : Prop :=
  (∃ before tree behind, trees = before ++ tree :: behind ∧ GoodIn path r tree
      ∧ ∀ t ∈ behind, FailsIn path t)
    ∨ (∀ t ∈ trees, FailsIn path t) ∧ s.get? path = some r

/-- A file has a record exactly if it has no error. -/
theorem ofFile_eq_none {f : SourceFile} : Record.ofFile? f = none ↔ f.error? ≠ none := by
  unfold Record.ofFile? SourceFile.error?
  cases f.content with
  | error e => simp
  | ok c => simp

variable {trees : List (List SourceFile)} {s : Snapshot}

/-! ## §2. One tree. -/

/-- The entries of a snapshot behind a tree are those that its files give, each at the path
of its own. -/
theorem mem_advance_iff {tree : List SourceFile} (hpaths : (tree.map (·.path)).Nodup)
    (s : Snapshot) {e : String × Record} : e ∈ (s.advance tree).files.entries
      ↔ ∃ f ∈ tree, (Record.ofFile? f <|> s.get? f.path) = some e.2 ∧ f.path = e.1 := by
  have hsub : ((tree.filterMap fun f =>
      (Record.ofFile? f <|> s.get? f.path).map fun r => (f.path, r)).map (·.1)).Sublist
        (tree.map (·.path)) := by
    clear hpaths
    induction tree with
    | nil => exact List.Sublist.slnil
    | cons f tree ih =>
      cases hr : (Record.ofFile? f <|> s.get? f.path) with
      | none =>
        rw [List.filterMap_cons_none (by rw [hr]; rfl)]
        exact ih.cons _
      | some r =>
        rw [List.filterMap_cons_some (b := (f.path, r)) (by rw [hr]; rfl)]
        exact ih.cons_cons _
  unfold Snapshot.advance
  rw [(PathMap.ofList_perm (hpaths.sublist hsub)).mem_iff, List.mem_filterMap]
  refine exists_congr fun f => and_congr_right fun _ => ?_
  rw [Option.map_eq_some_iff]
  constructor
  · rintro ⟨r, hr, rfl⟩
    exact ⟨hr, rfl⟩
  · rintro ⟨hr, hpath⟩
    exact ⟨e.2, hr, by rw [hpath]⟩

/-- **One tree**: a path has the record of its good file behind it, or keeps the record it
had while its file fails. -/
theorem get?_advance_iff {tree : List SourceFile} (hpaths : (tree.map (·.path)).Nodup)
    {path : String} {r : Record} : (s.advance tree).get? path = some r
      ↔ GoodIn path r tree ∨ FailsIn path tree ∧ s.get? path = some r := by
  have hentry : (s.advance tree).get? path = some r ↔ (path, r) ∈ (s.advance tree).files.entries :=
    PathMap.get?_eq_some
  rw [hentry, mem_advance_iff hpaths]
  constructor
  · rintro ⟨f, hf, hrecord, hpath⟩
    dsimp only at hrecord hpath
    cases hown : Record.ofFile? f with
    | some own =>
      rw [hown] at hrecord
      exact Or.inl ⟨f, hf, hpath, hown.trans hrecord⟩
    | none =>
      rw [hown, hpath] at hrecord
      exact Or.inr ⟨⟨f, hf, hpath, ofFile_eq_none.1 hown⟩, hrecord⟩
  · rintro (⟨f, hf, hpath, hown⟩ | ⟨⟨f, hf, hpath, herror⟩, hbefore⟩)
    · refine ⟨f, hf, ?_, hpath⟩
      rw [hown]
      rfl
    · refine ⟨f, hf, ?_, hpath⟩
      rw [ofFile_eq_none.2 herror, hpath]
      exact hbefore

/-! ## §3. Trees that follow each other. -/

/-- The last good file behind one more tree is one of that tree, or the one before if the
tree has a failure only. -/
theorem lastGood_concat {tree : List SourceFile} {path : String} {r : Record} :
    LastGood s (trees ++ [tree]) path r
      ↔ GoodIn path r tree ∨ FailsIn path tree ∧ LastGood s trees path r := by
  constructor
  · rintro (⟨before, good, behind, hsplit, hgood, hbehind⟩ | ⟨hfails, hs⟩)
    · rcases List.eq_nil_or_concat behind with rfl | ⟨behind, last, rfl⟩
      · obtain ⟨-, hlast⟩ := List.append_inj' hsplit rfl
        rw [List.singleton_inj.1 hlast]
        exact Or.inl hgood
      · rw [List.concat_eq_append] at hsplit hbehind
        rw [← List.cons_append, ← List.append_assoc] at hsplit
        obtain ⟨hfront, hlast⟩ := List.append_inj' hsplit rfl
        rw [List.forall_mem_append, List.forall_mem_singleton] at hbehind
        rw [List.singleton_inj.1 hlast]
        exact Or.inr ⟨hbehind.2, Or.inl ⟨before, good, behind, hfront, hgood, hbehind.1⟩⟩
    · rw [List.forall_mem_append, List.forall_mem_singleton] at hfails
      exact Or.inr ⟨hfails.2, Or.inr ⟨hfails.1, hs⟩⟩
  · rintro (hgood | ⟨hfails, ⟨before, good, behind, hsplit, hgood, hbehind⟩ | ⟨hall, hs⟩⟩)
    · exact Or.inl ⟨trees, tree, [], rfl, hgood, List.forall_mem_nil _⟩
    · refine Or.inl ⟨before, good, behind ++ [tree], ?_, hgood, ?_⟩
      · rw [hsplit, List.append_assoc, List.cons_append]
      · exact List.forall_mem_append.2 ⟨hbehind, List.forall_mem_singleton.2 hfails⟩
    · exact Or.inr ⟨List.forall_mem_append.2 ⟨hall, List.forall_mem_singleton.2 hfails⟩, hs⟩

/-- **However many trees there were, a path has the record of its last good file.** -/
theorem get?_foldl_advance_iff (hpaths : ∀ tree ∈ trees, (tree.map (·.path)).Nodup)
    {path : String} {r : Record} :
    (trees.foldl Snapshot.advance s).get? path = some r ↔ LastGood s trees path r := by
  -- from the last tree to the first
  induction trees using List.reverseRecOn with
  | nil =>
    constructor
    · exact fun h => Or.inr ⟨List.forall_mem_nil _, h⟩
    · rintro (⟨before, tree, behind, hsplit, -⟩ | ⟨-, h⟩)
      · exact absurd hsplit (by simp)
      · exact h
  | append_singleton trees tree ih =>
    rw [List.forall_mem_append, List.forall_mem_singleton] at hpaths
    rw [List.foldl_append, List.foldl_cons, List.foldl_nil, get?_advance_iff hpaths.2,
      lastGood_concat, ih hpaths.1]

/-- A path that the last tree does not have has no record. -/
theorem lastGood_absent {before : List (List SourceFile)} {tree : List SourceFile} {path : String}
    (habsent : path ∉ tree.map (·.path)) {r : Record} : ¬LastGood s (before ++ [tree]) path r := by
  rw [lastGood_concat]
  rintro (⟨f, hf, hpath, -⟩ | ⟨⟨f, hf, hpath, -⟩, -⟩)
  · exact habsent (hpath ▸ List.mem_map_of_mem hf)
  · exact habsent (hpath ▸ List.mem_map_of_mem hf)

/-- A path with no good file behind the last tree without it has no record. -/
theorem lastGood_lost {before behind : List (List SourceFile)} {tree : List SourceFile}
    {path : String} (habsent : path ∉ tree.map (·.path))
    (hbehind : ∀ t ∈ behind, ∀ r, ¬GoodIn path r t) {r : Record} :
    ¬LastGood s (before ++ tree :: behind) path r := by
  induction behind using List.reverseRecOn with
  | nil => exact lastGood_absent habsent
  | append_singleton behind last ih =>
    rw [List.forall_mem_append, List.forall_mem_singleton] at hbehind
    rw [← List.cons_append, ← List.append_assoc, lastGood_concat]
    rintro (hgood | ⟨-, hlast⟩)
    · exact hbehind.2 r hgood
    · exact ih hbehind.1 hlast

/-- A file that was read is at the path it was read from. -/
theorem SourceFile.path_of_read {path text : String} {f : SourceFile}
    (h : SourceFile.read path text = .ok f) : f.path = path := by
  unfold SourceFile.read at h
  split at h
  · cases h
    rfl
  · obtain ⟨content, -, h⟩ := bind_eq_ok.1 h
    rw [← Except.ok.inj h]

/-- A file that was read, with the record of it in the snapshot, is listed as unmodified. -/
theorem unmodified_of_record {files : List SourceFile} {f : SourceFile} (hf : f ∈ files)
    {text : String} (hread : SourceFile.read f.path text = .ok f) {r : Record}
    (hrecord : Record.ofFile? f = some r) (hr : s.get? f.path = some r) :
    f.path ∈ (treeDiff files s).unmodified := by
  refine mem_unmodified.2 ⟨f, hf, rfl, r, hr, modification?_self ?_ hrecord⟩
  intro t ht
  obtain ⟨st, -, hparse⟩ := (SourceFile.read_sound hread).2 t ht
  exact Table.parse_names_nodup hparse

/-- **A snapshot that is taken forward by trees holds the last good record of every path.**
A path that is not in the last tree has none; one that is there has the record of the latest
tree in which it was read without error, if every tree behind that one has it; failing that
it has the record from before the first tree, if every tree has it; otherwise it has none.
So a file that fails in any number of trees and comes back with the text it was last read
well from is listed as unmodified. -/
theorem last_good_kept (hpaths : ∀ tree ∈ trees, (tree.map (·.path)).Nodup) (s : Snapshot)
    (path : String) :
    let last := trees.foldl Snapshot.advance s
    (∀ before tree, trees = before ++ [tree] → path ∉ tree.map (·.path) → last.get? path = none)
    ∧ (∀ before tree behind r, trees = before ++ tree :: behind → GoodIn path r tree →
        (∀ t ∈ behind, FailsIn path t) → last.get? path = some r)
    ∧ ((∀ t ∈ trees, FailsIn path t) → last.get? path = s.get? path)
    ∧ (∀ before tree behind, trees = before ++ tree :: behind → path ∉ tree.map (·.path) →
        (∀ t ∈ behind, ∀ r, ¬GoodIn path r t) → last.get? path = none)
    ∧ (∀ r, last.get? path = some r ↔ LastGood s trees path r)
    ∧ ∀ text f r, SourceFile.read path text = .ok f → Record.ofFile? f = some r →
        LastGood s trees path r → ∀ files, f ∈ files → (∀ g ∈ files, g.error? = none) →
        ∃ d, (compareTree files last).1 = .ok d ∧ path ∈ d.unmodified := by
  intro last
  have hlast : ∀ r, last.get? path = some r ↔ LastGood s trees path r :=
    fun r => get?_foldl_advance_iff hpaths
  refine ⟨?_, ?_, ?_, ?_, hlast, ?_⟩
  · rintro before tree rfl habsent
    exact Option.eq_none_iff_forall_ne_some.2 fun r h => lastGood_absent habsent ((hlast r).1 h)
  · intro before tree behind r hsplit hgood hbehind
    exact (hlast r).2 (Or.inl ⟨before, tree, behind, hsplit, hgood, hbehind⟩)
  · intro hfails
    refine Option.ext fun r => (hlast r).trans ⟨?_, fun hs => Or.inr ⟨hfails, hs⟩⟩
    rintro (⟨before, tree, behind, rfl, ⟨f, hf, hpath, hrecord⟩, -⟩ | ⟨-, hs⟩)
    · -- no path has a good file and a failed one in one tree
      have htree : tree ∈ before ++ tree :: behind := by simp
      obtain ⟨g, hg, hgpath, herror⟩ := hfails tree htree
      have hsame : f = g :=
        List.inj_on_of_nodup_map (hpaths tree htree) hf hg (hpath.trans hgpath.symm)
      rw [hsame, ofFile_eq_none.2 herror] at hrecord
      cases hrecord
    · exact hs
  · rintro before tree behind rfl habsent hbehind
    exact Option.eq_none_iff_forall_ne_some.2
      fun r h => lastGood_lost habsent hbehind ((hlast r).1 h)
  · intro text f r hread hrecord hgood files hf hok
    have hpath : f.path = path := SourceFile.path_of_read hread
    refine ⟨treeDiff files last, compareTree_ok hok last, ?_⟩
    rw [← hpath] at hread
    rw [← hpath]
    exact unmodified_of_record hf hread hrecord (hpath.symm ▸ (hlast r).2 hgood)

/-- Two files and three trees: one file fails twice behind the first tree and comes back with
its text; the other is not in the last tree. -/
theorem last_good_kept_twice_failed :
    let text := "SELECT 1;"
    let seed : SourceFile := ⟨"seed.sql", hashOf text, ⟨false, false⟩, .ok ⟨[⟨text, some 1⟩], none⟩⟩
    let failed : SourceFile := ⟨"seed.sql", hashOf "SELECT '", ⟨false, false⟩,
      .error (.ofSplit (.unterminated .literal 1))⟩
    let gone : SourceFile := ⟨"gone.sql", hashOf "", ⟨false, false⟩, .ok ⟨[], none⟩⟩
    let trees := [[seed, gone], [gone, failed], [failed]]
    let last := trees.foldl Snapshot.advance {}
    SourceFile.read "seed.sql" text = .ok seed
      ∧ SourceFile.read "seed.sql" "SELECT '" = .ok failed
      ∧ (∀ tree ∈ trees, (tree.map (·.path)).Nodup)
      ∧ last.get? "gone.sql" = none
      ∧ last.get? "seed.sql" = some (.plain (hashOf text) [hashOf "SELECT 1"])
      ∧ ∃ d, (compareTree [seed] last).1 = .ok d ∧ "seed.sql" ∈ d.unmodified := by
  intro text seed failed gone trees last
  have hread : SourceFile.read "seed.sql" text = .ok seed :=
    SourceFile.read_ok _ (by decide +kernel) (by decide +kernel)
  have hfails : ∀ t ∈ [[gone, failed], [failed]], FailsIn "seed.sql" t := by
    refine List.forall_mem_cons.2 ⟨?_, List.forall_mem_singleton.2 ?_⟩
    · exact ⟨failed, by simp, rfl, by decide⟩
    · exact ⟨failed, by simp, rfl, by decide⟩
  have hrecord : Record.ofFile? seed = some (.plain (hashOf text) [hashOf "SELECT 1"]) := by
    decide +kernel
  have hgood : GoodIn "seed.sql" (.plain (hashOf text) [hashOf "SELECT 1"]) [seed, gone] :=
    ⟨seed, by simp, rfl, hrecord⟩
  have hpaths : ∀ tree ∈ trees, (tree.map (·.path)).Nodup := by decide
  obtain ⟨hgone, -⟩ := last_good_kept hpaths {} "gone.sql"
  obtain ⟨-, hkept, -, -, -, hback⟩ := last_good_kept hpaths {} "seed.sql"
  refine ⟨hread, by decide +kernel, hpaths, ?_, ?_, ?_⟩
  · exact hgone [[seed, gone], [gone, failed]] [failed] rfl (by decide)
  · exact hkept [] [seed, gone] _ _ rfl hgood hfails
  · exact hback text seed _ hread hrecord (Or.inl ⟨[], _, _, rfl, hgood, hfails⟩) [seed] (by simp)
      (by decide)

end SchemaDrift
