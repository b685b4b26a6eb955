/-
  SchemaDrift.Proofs.Project.Scan
  ───────────────────────────────
  **THE SOURCES OF A PROJECT WHEN ITS TREE CHANGES.**

  A place is a SOURCE if a file there would be found by the scan: it is below the directory
  of a section, and its name has the extension of source files.  A tree in which nothing is
  hidden, and in which every source holds what it held, has the same sources in the same
  order (`readSources_kept`), each found once (`scan_nodup`).
-/

import SchemaDrift.Proofs.Project.Plan
import SchemaDrift.Proofs.Project.Writing
import SchemaDrift.Proofs.Snapshot.Origin

namespace SchemaDrift

open SchemaDrift.FileTree SchemaDrift.Path

variable {t t' : FileTree} {c : Config} {s : Section}

/-! ## §1. Files below a directory. -/

namespace FileTree

theorem key_append {names rest : List String} (hnames : names ≠ []) (hrest : rest ≠ []) :
    key (names ++ rest) = key names ++ "/" ++ key rest := by
  unfold key
  induction names with
  | nil => exact absurd rfl hnames
  | cons n names ih =>
    cases names with
    | nil =>
      cases rest with
      | nil => exact absurd rfl hrest
      | cons m rest =>
        refine String.toList_inj.1 ?_
        simp [String.toList_intercalate]
    | cons m names =>
      have h := congrArg String.toList (ih (List.cons_ne_nil _ _))
      refine String.toList_inj.1 ?_
      simp only [String.toList_append, String.toList_intercalate, List.cons_append, List.map_cons]
        at h ⊢
      rw [List.intercalate_cons_cons, List.intercalate_cons_cons, h]
      simp

theorem key_singleton (name : String) : key [name] = name := by
  unfold key
  simp

/-- The key of a place goes on from that of its directory. -/
theorem toList_key_concat {names : List String} (h : names ≠ []) (name : String) :
    (key (names ++ [name])).toList = (key names ++ "/").toList ++ name.toList := by
  rw [key_append h (List.cons_ne_nil _ _), key_singleton, String.toList_append]

/-- A name is all that tells two places in a directory apart. -/
theorem key_concat_inj {names : List String} {name name' : String}
    (h : key (names ++ [name]) = key (names ++ [name'])) : name = name' := by
  by_cases hnil : names = []
  · rw [hnil, List.nil_append, List.nil_append, key_singleton, key_singleton] at h
    exact h
  · have htext := congrArg String.toList h
    rw [toList_key_concat hnil, toList_key_concat hnil] at htext
    exact String.toList_inj.1 (List.append_cancel_left htext)

theorem mem_files {place : String} : place ∈ t.files ↔ ∃ data, t.file? place = some data := by
  unfold files
  constructor
  · intro h
    obtain ⟨⟨place', node⟩, he, rfl⟩ := List.mem_map.1 h
    obtain ⟨hmem, hnode⟩ := List.mem_filter.1 he
    cases node with
    | directory => cases hnode
    | file data => exact ⟨data, file?_eq_some.2 (PathMap.get?_eq_some.2 hmem)⟩
  · intro ⟨data, h⟩
    have hmem := PathMap.get?_eq_some.1 (file?_eq_some.1 h)
    exact List.mem_map.2 ⟨_, List.mem_filter.2 ⟨hmem, rfl⟩, rfl⟩

theorem files_nodup (t : FileTree) : t.files.Nodup :=
  (paths_nodup t.entries.sorted).sublist (List.filter_sublist.map _)

/-- What is left of the place of a file when that of a directory is taken off. -/
theorem below_eq_some {directory : List String} (h : directory ≠ []) {place name : String} :
    (if (key directory ++ "/").toList.isPrefixOf place.toList then
      some (String.ofList (place.toList.drop (key directory ++ "/").toList.length)) else none)
        = some name ↔ place = key (directory ++ [name]) := by
  constructor
  · intro hbelow
    split at hbelow
    · next hlead =>
      obtain ⟨rest, hrest⟩ := List.isPrefixOf_iff_prefix.1 hlead
      rw [← hrest, List.drop_left] at hbelow
      refine String.toList_inj.1 ?_
      rw [toList_key_concat h, ← Option.some.inj hbelow, String.toList_ofList, hrest]
    · cases hbelow
  · intro hplace
    rw [hplace, toList_key_concat h,
      if_pos (List.isPrefixOf_iff_prefix.2 (List.prefix_append _ _)), List.drop_left,
      String.ofList_toList]

/-- **The files below a directory are those whose places go on from it.** -/
theorem mem_filesBelow {directory : List String} {name : String} :
    name ∈ t.filesBelow directory ↔ key (directory ++ [name]) ∈ t.files := by
  unfold filesBelow
  by_cases hnil : directory = []
  · rw [hnil, if_pos List.isEmpty_nil, List.nil_append, key_singleton]
  · rw [if_neg (by simpa using hnil)]
    dsimp only
    rw [List.mem_filterMap]
    simp only [below_eq_some hnil, exists_eq_right]

theorem filesBelow_nodup (t : FileTree) (directory : List String) :
    (t.filesBelow directory).Nodup := by
  unfold filesBelow
  by_cases hnil : directory = []
  · rw [hnil, if_pos List.isEmpty_nil]
    exact t.files_nodup
  · rw [if_neg (by simpa using hnil)]
    refine t.files_nodup.filterMap ?_
    intro place place' name h h'
    rw [Option.mem_def, below_eq_some hnil] at h h'
    rw [h, h']

end FileTree

/-! ## §2. The files of a section. -/

/-- A file with a source name below the directory of a section would be found there. -/
def Config.IsSource (c : Config) (t : FileTree) (place : String) : Prop :=
  ∃ s ∈ c.allSections, ∃ directory name, t.directory? s.path = some directory
    ∧ isSourceName name = true ∧ place = key (directory ++ [name])

/-- **A section has the files with source names below its directory**, each once. -/
theorem sectionFiles_ok {l : List String} (h : sectionFiles t s = .ok l) :
    ∃ directory, t.directory? s.path = some directory
      ∧ l.Nodup ∧ ∀ path, path ∈ l ↔ ∃ name, path = key (parts s.path ++ [name])
        ∧ isSourceName name = true ∧ key (directory ++ [name]) ∈ t.files := by
  unfold sectionFiles at h
  split at h
  · cases h
  · next directory hdirectory =>
    have hl := Except.ok.inj h
    refine ⟨directory, hdirectory, ?_, ?_⟩
    · rw [← hl, (List.mergeSort_perm _ _).nodup_iff]
      refine List.Nodup.map ?_ ((t.filesBelow_nodup directory).sublist List.filter_sublist)
      intro name name' hkey
      exact key_concat_inj hkey
    · intro path
      rw [← hl, List.mem_mergeSort, List.mem_map]
      constructor
      · intro ⟨name, hname, hpath⟩
        obtain ⟨hbelow, hsource⟩ := List.mem_filter.1 hname
        exact ⟨name, hpath.symm, hsource, mem_filesBelow.1 hbelow⟩
      · intro ⟨name, hpath, hsource, hfile⟩
        exact ⟨name, List.mem_filter.2 ⟨mem_filesBelow.2 hfile, hsource⟩, hpath.symm⟩

/-- The files of a section are sorted by path. -/
theorem sectionFiles_sorted {l : List String} (h : sectionFiles t s = .ok l) :
    l.Pairwise fun p q => decide (p ≤ q) = true := by
  unfold sectionFiles at h
  split at h
  · cases h
  · rw [← Except.ok.inj h]
    refine List.pairwise_mergeSort ?_ ?_ _
    · intro p q r hpq hqr
      rw [decide_eq_true_eq] at hpq hqr ⊢
      exact String.le_trans hpq hqr
    · intro p q
      simpa using String.le_total p q

/-- A section has files if its path is that of a directory. -/
theorem sectionFiles_directory {directory : List String}
    (h : t.directory? s.path = some directory) : ∃ l, sectionFiles t s = .ok l := by
  unfold sectionFiles
  rw [h]
  exact ⟨_, rfl⟩

theorem directory_eq_some {path : String} {directory : List String} :
    t.directory? path = some directory ↔ t.locate path = .taken directory .directory := by
  unfold directory?
  constructor
  · intro h
    split at h
    · next hlocate =>
      cases h
      exact hlocate
    · cases h
  · intro h
    rw [h]

/-- The names that a path of a directory leads to. -/
theorem directory_names {path : String} {directory : List String}
    (h : t.directory? path = some directory) : ∀ n ∈ directory, IsName n :=
  (locate_reached (locate_taken (directory_eq_some.1 h)).2).isName

/-- A path of a directory leads to it while what is open stays open. -/
theorem directory_kept (hstays : t.StaysOpen t') {path : String} {directory : List String}
    (h : t.directory? path = some directory) : t'.directory? path = some directory := by
  obtain ⟨hnode, hplace⟩ := locate_taken (directory_eq_some.1 h)
  have hopen := hstays _ ((locate_reached hplace).isOpen_of_directory hnode)
  rw [directory_eq_some, locate_placeOf hstays hplace, placeOf_taken hopen.self]
  intro data hfile
  rw [hopen.self] at hfile
  cases hfile

/-- A place of a source is one while what is open stays open. -/
theorem Config.IsSource.kept (hstays : t.StaysOpen t') {place : String}
    (h : c.IsSource t place) : c.IsSource t' place := by
  obtain ⟨s, hs, directory, name, hdirectory, hname, hkey⟩ := h
  exact ⟨s, hs, directory, name, directory_kept hstays hdirectory, hname, hkey⟩

/-- **A section has the files that it had, if nothing was done to its sources.** -/
theorem sectionFiles_kept (hstays : t.StaysOpen t')
    (hkept : ∀ place, c.IsSource t place → t'.file? place = t.file? place)
    (hs : s ∈ c.allSections) {l : List String} (h : sectionFiles t s = .ok l) :
    sectionFiles t' s = .ok l := by
  obtain ⟨directory, hdirectory, hnodup, hmem⟩ := sectionFiles_ok h
  have hdirectory' := directory_kept hstays hdirectory
  obtain ⟨l', h'⟩ := sectionFiles_directory hdirectory'
  obtain ⟨directory', hsame, hnodup', hmem'⟩ := sectionFiles_ok h'
  obtain rfl := Option.some.inj (hdirectory'.symm.trans hsame)
  have hperm : l'.Perm l := by
    refine (List.perm_ext_iff_of_nodup hnodup' hnodup).2 ?_
    intro path
    rw [hmem, hmem']
    refine exists_congr fun name => and_congr_right fun _ => and_congr_right fun hsource => ?_
    rw [mem_files, mem_files, hkept _ ⟨s, hs, directory, name, hdirectory, hsource, rfl⟩]
  rw [h', List.Perm.eq_of_pairwise ?_ (sectionFiles_sorted h') (sectionFiles_sorted h) hperm]
  intro p q _ _ hpq hqp
  exact String.le_antisymm (of_decide_eq_true hpq) (of_decide_eq_true hqp)

/-! ## §3. The scan. -/

/-- What the scan of sections found. -/
theorem scanSections_cons {seen : List String} {rest : List Section} {found : List FoundFile} :
    scanSections t seen (s :: rest) = .ok found
      ↔ ∃ l behind, sectionFiles t s = .ok l
        ∧ scanSections t (seen ++ l.filter (!seen.contains ·)) rest = .ok behind
        ∧ found = (l.filter (!seen.contains ·)).map (⟨s.name, ·⟩) ++ behind := by
  rw [scanSections, bind_eq_ok]
  constructor
  · rintro ⟨l, hl, h⟩
    obtain ⟨behind, hbehind, h⟩ := bind_eq_ok.1 h
    exact ⟨l, behind, hl, hbehind, (Except.ok.inj h).symm⟩
  · rintro ⟨l, behind, hl, hbehind, rfl⟩
    exact ⟨l, hl, bind_eq_ok.2 ⟨behind, hbehind, rfl⟩⟩

/-- The scan finds what it found where all sections have the files that they had. -/
theorem scanSections_kept {seen : List String} {sections : List Section} {found : List FoundFile}
    (hsame : ∀ s ∈ sections, ∀ l, sectionFiles t s = .ok l → sectionFiles t' s = .ok l)
    (h : scanSections t seen sections = .ok found) : scanSections t' seen sections = .ok found := by
  induction sections generalizing seen found with
  | nil => exact h
  | cons s rest ih =>
    obtain ⟨l, behind, hl, hbehind, hfound⟩ := scanSections_cons.1 h
    exact scanSections_cons.2 ⟨l, behind, hsame s List.mem_cons_self l hl,
      ih (fun s' hs' => hsame s' (List.mem_cons_of_mem _ hs')) hbehind, hfound⟩

/-- What is not seen is left. -/
theorem mem_unseen {l seen : List String} {path : String} :
    path ∈ l.filter (!seen.contains ·) ↔ path ∈ l ∧ path ∉ seen := by
  rw [List.mem_filter, Bool.not_eq_true', ← Bool.not_eq_true, List.contains_iff_mem]

/-- **Every file is found once**, and none that was seen before. -/
theorem scanSections_paths {seen : List String} {sections : List Section} {found : List FoundFile}
    (h : scanSections t seen sections = .ok found) :
    (found.map (·.path)).Nodup ∧ ∀ path, path ∈ found.map (·.path)
      ↔ path ∉ seen ∧ ∃ s ∈ sections, ∃ l, sectionFiles t s = .ok l ∧ path ∈ l := by
  induction sections generalizing seen found with
  | nil =>
    cases h
    refine ⟨List.nodup_nil, fun path => ?_⟩
    simp
  | cons s rest ih =>
    obtain ⟨l, behind, hl, hbehind, rfl⟩ := scanSections_cons.1 h
    obtain ⟨directory, -, hnodup, -⟩ := sectionFiles_ok hl
    obtain ⟨hnodup', hmem⟩ := ih hbehind
    -- the section adds those of its files that were not seen
    have hnew : ((l.filter (!seen.contains ·)).map (FoundFile.mk s.name)).map (·.path)
        = l.filter (!seen.contains ·) := by
      rw [List.map_map]
      exact List.map_id' _
    rw [List.map_append, hnew]
    refine ⟨List.nodup_append.2 ⟨hnodup.sublist List.filter_sublist, hnodup', ?_⟩, ?_⟩
    · rintro path hpath _ hpath' rfl
      exact ((hmem path).1 hpath').1 (List.mem_append_right _ hpath)
    · intro path
      rw [List.mem_append, hmem, mem_unseen, List.mem_append, mem_unseen, List.exists_mem_cons_iff]
      constructor
      · rintro (⟨hpath, hseen⟩ | ⟨hseen, hrest⟩)
        · exact ⟨hseen, Or.inl ⟨l, hl, hpath⟩⟩
        · exact ⟨fun hpath => hseen (Or.inl hpath), Or.inr hrest⟩
      · rintro ⟨hseen, ⟨l', hl', hpath⟩ | hrest⟩
        · rw [hl] at hl'
          cases hl'
          exact Or.inl ⟨hpath, hseen⟩
        · by_cases hpath : path ∈ l
          · exact Or.inl ⟨hpath, hseen⟩
          · exact Or.inr ⟨fun h => h.elim hseen fun h => hpath h.1, hrest⟩

theorem scan_nodup {found : List FoundFile} (h : scan t c = .ok found) :
    (found.map (·.path)).Nodup := (scanSections_paths h).1

/-- **The scan finds the files of all sections.** -/
theorem mem_scan {found : List FoundFile} (h : scan t c = .ok found) {path : String} :
    path ∈ found.map (·.path) ↔ ∃ s ∈ c.allSections, ∃ l, sectionFiles t s = .ok l ∧ path ∈ l := by
  rw [(scanSections_paths h).2]
  exact and_iff_right List.not_mem_nil

/-! ## §4. Reading what was found. -/

/-- What is left of named places when a directory is taken off are names. -/
theorem names_below {directory names : List String} {name : String}
    (hdirectory : ∀ n ∈ directory, IsName n) (hnames : ∀ n ∈ names, IsName n ∧ n ≠ "..")
    (h : key (directory ++ [name]) = key names) :
    ∃ rest, names = directory ++ rest ∧ name = key rest := by
  by_cases hnil : directory = []
  · rw [hnil, List.nil_append, key_singleton] at h
    exact ⟨names, by rw [hnil]; rfl, h⟩
  · have hlead : (key directory ++ "/").toList <+: (key names).toList := by
      rw [← h, toList_key_concat hnil]
      exact List.prefix_append _ _
    obtain ⟨rest, rfl⟩ := prefix_of_key hdirectory (fun n hn => (hnames n hn).1) hlead
    have hrest : rest ≠ [] := by
      rintro rfl
      have htext := congrArg (fun s : String => s.toList.length) h
      simp only [toList_key_concat hnil, List.append_nil, List.length_append,
        String.toList_append] at htext
      have hslash : "/".toList.length = 1 := by decide
      omega
    refine ⟨rest, rfl, ?_⟩
    rw [key_append hnil hrest] at h
    have htext := congrArg String.toList h
    rw [toList_key_concat hnil] at htext
    exact String.toList_inj.1 (List.append_cancel_left (htext.trans String.toList_append))

/-- **The path of a source leads to the source**, wherever it leads. -/
theorem locate_source {directory names rest : List String}
    (hdirectory : t.directory? s.path = some directory) (hrest : ∀ n ∈ rest, IsName n ∧ n ≠ "..")
    (h : t.locate (key (parts s.path ++ [key rest])) = t.placeOf names) :
    names = directory ++ rest := by
  have hparts : parts (key (parts s.path ++ [key rest])) = parts s.path ++ rest := by
    unfold key
    rw [parts_intercalate, List.flatMap_append, List.flatMap_singleton, ← key,
      parts_key fun n hn => (hrest n hn).1, ← parts_intercalate, ← key,
      parts_key fun n hn => parts_isName _ n hn]
  have hfront : t.follow [] (parts s.path) = .taken directory .directory := by
    obtain ⟨hnode, hplace⟩ := locate_taken (directory_eq_some.1 hdirectory)
    rw [(locate_eq_placeOf.1 hplace).2.2.1, placeOf_taken hnode]
  have hfollow := (locate_eq_placeOf.1 h).2.2.1
  rw [hparts, follow_append hfront] at hfollow
  exact follow_down (fun n hn => (hrest n hn).2) hfollow

theorem readText_ok {path text : String} : t.readText path = .ok text
    ↔ ∃ names, t.locate path = .taken names (.file (.text text)) := by
  unfold readText
  constructor
  · intro h
    split at h
    · next names text' hlocate =>
      cases h
      exact ⟨names, hlocate⟩
    all_goals cases h
  · intro ⟨names, h⟩
    rw [h]

/-- The file that is read at a path which was found is at a source. -/
theorem readText_source (hnamed : t.Named) {found : List FoundFile} (hscan : scan t c = .ok found)
    {path : String} (hpath : path ∈ found.map (·.path)) {names : List String} {data : FileData}
    (h : t.locate path = .taken names (.file data)) : c.IsSource t (key names) := by
  obtain ⟨s, hs, l, hl, hpath⟩ := (mem_scan hscan).1 hpath
  obtain ⟨directory, hdirectory, -, hmem⟩ := sectionFiles_ok hl
  obtain ⟨name, rfl, hsource, hfile⟩ := (hmem path).1 hpath
  obtain ⟨data', hfile⟩ := mem_files.1 hfile
  obtain ⟨names', hkey, hnames'⟩ := hnamed _ _ hfile
  obtain ⟨rest, rfl, rfl⟩ := names_below (directory_names hdirectory) hnames' hkey
  have hrest : ∀ n ∈ rest, IsName n ∧ n ≠ ".." := fun n hn =>
    hnames' n (List.mem_append_right _ hn)
  rw [locate_source hdirectory hrest (locate_taken h).2]
  exact ⟨s, hs, directory, key rest, hdirectory, hsource, hkey.symm⟩

/-- **The sources of a project are what they were, in a tree in which nothing was done to
them.** -/
theorem readSources_kept (hnamed : t.Named) (hstays : t.StaysOpen t')
    (hkept : ∀ place, c.IsSource t place → t'.file? place = t.file? place)
    {files : List SourceFile} (h : readSources t c = .ok files) :
    readSources t' c = .ok files := by
  obtain ⟨found, hscan, hread⟩ := readSources_ok.1 h
  have hscan' : scan t' c = .ok found :=
    scanSections_kept (fun s hs l hl => sectionFiles_kept hstays hkept hs hl) hscan
  refine readSources_ok.2 ⟨found, hscan', ?_⟩
  have hfound := (List.forall₂_and_left _ _).2
    ⟨fun f hf => (List.mem_map_of_mem hf : f.path ∈ found.map (·.path)), hread⟩
  refine hfound.imp ?_
  intro f file ⟨hpath, text, htext, hfile⟩
  obtain ⟨names, hlocate⟩ := readText_ok.1 htext
  have hsource := readText_source hnamed hscan hpath hlocate
  exact ⟨text, readText_ok.2 ⟨names, locate_file hstays hlocate (hkept _ hsource)⟩, hfile⟩

/-- What was read is at the paths that were found. -/
theorem readSources_paths {files : List SourceFile} (h : readSources t c = .ok files) :
    (files.map (·.path)).Nodup ∧ (∀ f ∈ files, ReadAt t f.path f)
      ∧ ∃ found, scan t c = .ok found ∧ files.map (·.path) = found.map (·.path) := by
  obtain ⟨found, hscan, hread⟩ := readSources_ok.1 h
  have hown : List.Forall₂ (fun (f : FoundFile) (file : SourceFile) =>
      file.path = f.path ∧ ReadAt t file.path file) found files := by
    refine hread.imp ?_
    intro f file hfile
    have hpath : file.path = f.path := by
      obtain ⟨text, -, htext⟩ := hfile
      rw [Except.ok.inj (htext.symm.trans (read_path htext f.path))]
    exact ⟨hpath, hpath ▸ hfile⟩
  have hall : files.map (·.path) = found.map (·.path) ∧ ∀ f ∈ files, ReadAt t f.path f := by
    clear hscan hread h
    induction hown with
    | nil => exact ⟨rfl, List.forall_mem_nil _⟩
    | cons h _ ih =>
      rw [List.map_cons, List.map_cons, h.1, ih.1]
      exact ⟨rfl, List.forall_mem_cons.2 ⟨h.2, ih.2⟩⟩
  exact ⟨hall.1 ▸ scan_nodup hscan, hall.2, found, hscan, hall.1⟩

end SchemaDrift
