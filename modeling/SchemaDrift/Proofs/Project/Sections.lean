/-
  SchemaDrift.Proofs.Project.Sections
  ───────────────────────────────────
  **WHICH SECTION A FILE IS FOUND IN.**

  Sections may overlap, lie in one another or be named twice.  A file below the directories of
  several of them is found in the first (`Listing`):

      views:  sql/views      sql/views/v.sql
      sql:    sql            sql/a.sql

  If one of the sections is no directory, then nothing is found, and the first such section is
  named (`scanSections_eq`).  What is found depends on the parts of the paths of the sections
  only, not on how these are written.
-/

import SchemaDrift.Proofs.Project.Layout

namespace SchemaDrift

open SchemaDrift.FileTree SchemaDrift.Path SchemaDrift.Text

/-! ## §1. Source names. -/

namespace Path

theorem splitOnce?_append {c : Char} {before : List Char} (h : c ∉ before) (behind : List Char) :
    splitOnce? c (before ++ c :: behind) = some (before, behind) := by
  induction before with
  | nil =>
    rw [List.nil_append, splitOnce?, if_pos rfl]
  | cons d before ih =>
    rw [List.mem_cons, not_or] at h
    rw [List.cons_append, splitOnce?, if_neg (Ne.symm h.1), ih h.2]
    rfl

/-- A name has an extension if that ends it behind a dot, which is neither its first character
nor in front of another dot. -/
theorem extension?_eq_some {name extension : String} : extension? name = some extension
    ↔ '.' ∉ extension.toList ∧ ∃ stem, stem ≠ "" ∧ name = stem ++ "." ++ extension := by
  unfold extension? splitExtension
  constructor
  · intro h
    split at h
    · cases h
    · cases h
    · next own stem hne hsplit =>
      cases h
      refine ⟨?_, String.ofList stem.reverse, ?_, ?_⟩
      · rw [String.toList_ofList, List.mem_reverse]
        exact splitOnce?_not_mem hsplit
      · intro hempty
        have hstem := congrArg String.toList hempty
        rw [String.toList_ofList] at hstem
        exact hne (List.reverse_eq_nil_iff.1 hstem)
      · have hname := congrArg List.reverse (splitOnce?_some hsplit)
        rw [List.reverse_reverse] at hname
        refine String.toList_inj.1 ?_
        rw [hname]
        simp
  · rintro ⟨hdot, stem, hstem, rfl⟩
    -- read from its end, the name has the extension in front of the first dot
    have hreverse : (stem ++ "." ++ extension).toList.reverse
        = extension.toList.reverse ++ '.' :: stem.toList.reverse := by
      simp
    rw [hreverse, splitOnce?_append (by rwa [List.mem_reverse])]
    cases hcs : stem.toList.reverse with
    | nil => exact absurd (String.toList_eq_nil_iff.1 (List.reverse_eq_nil_iff.1 hcs)) hstem
    | cons c cs =>
      dsimp only
      rw [List.reverse_reverse, String.ofList_toList]

/-- The last of the names ends in `.sql`, and begins with something in front of that. -/
def EndsInSource (names : List String) : Prop :=
  ∃ front stem, stem ≠ "" ∧ names = front ++ [stem ++ ".sql"]

theorem EndsInSource.ne_nil {names : List String} (h : EndsInSource names) : names ≠ [] := by
  obtain ⟨front, stem, -, rfl⟩ := h
  exact List.append_ne_nil_of_right_ne_nil _ (List.cons_ne_nil _ _)

/-- What names end in does not depend on the first of them. -/
theorem endsInSource_append (names : List String) {rest : List String} (h : rest ≠ []) :
    EndsInSource (names ++ rest) ↔ EndsInSource rest := by
  obtain ⟨front, name, rfl⟩ := rest.eq_nil_or_concat.resolve_left h
  unfold EndsInSource
  rw [List.concat_eq_append, ← List.append_assoc]
  constructor
  · rintro ⟨front', stem, hstem, heq⟩
    exact ⟨front, stem, hstem, by rw [(List.cons.inj (List.append_inj_right' heq rfl)).1]⟩
  · rintro ⟨front', stem, hstem, heq⟩
    exact ⟨names ++ front, stem, hstem, by rw [(List.cons.inj (List.append_inj_right' heq rfl)).1]⟩

/-- **A source file is one whose path ends in the name of one.** -/
theorem isSourceName_iff {path : String} :
    isSourceName path = true ↔ EndsInSource (parts path) := by
  have hname : ∀ name, extension? name = some "sql"
      ↔ ∃ stem, stem ≠ "" ∧ name = stem ++ ".sql" := by
    intro name
    rw [extension?_eq_some, and_iff_right (by decide)]
    simp only [String.append_assoc]
    rfl
  unfold isSourceName fileName?
  rw [decide_eq_true_eq]
  constructor
  · intro h
    split at h
    · cases h
    · cases h
    · next name _ hlast =>
      obtain ⟨stem, hstem, rfl⟩ := (hname name).1 h
      obtain ⟨front, hfront⟩ := List.getLast?_eq_some_iff.1 hlast
      exact ⟨front, stem, hstem, hfront⟩
  · rintro ⟨front, stem, hstem, hparts⟩
    rw [hparts, List.getLast?_concat]
    split
    · next hup =>
      -- the name of the directory above is too short for the extension
      have hlength := congrArg (fun s : String => s.toList.length) (Option.some.inj hup)
      have hext : ".sql".toList.length = 4 := by decide
      have hdots : "..".toList.length = 2 := by decide
      simp only [String.toList_append, List.length_append] at hlength
      omega
    · next hnone => cases hnone
    · next name _ hlast =>
      cases hlast
      exact (hname _).2 ⟨stem, hstem, rfl⟩

end Path

/-! ## §2. Directories. -/

namespace Path

/-- Every character of a path but slashes and dots is in one of its parts. -/
theorem mem_parts {path : String} {c : Char} (hslash : c ≠ '/') (hdot : c ≠ '.') :
    (∃ n ∈ parts path, c ∈ n.toList) ↔ c ∈ path.toList := by
  have hpieces : (∃ piece ∈ splitBy (· == '/') path.toList, c ∈ piece) ↔ c ∈ path.toList :=
    exists_mem_splitBy (p := (· == '/')) (beq_false_of_ne hslash)
  rw [← hpieces]
  constructor
  · rintro ⟨n, hn, hc⟩
    obtain ⟨piece, hpiece, rfl⟩ := List.mem_map.1 (List.mem_filter.1 hn).1
    exact ⟨piece, hpiece, by rwa [String.toList_ofList] at hc⟩
  · rintro ⟨piece, hpiece, hc⟩
    have hc' : c ∈ (String.ofList piece).toList := by rwa [String.toList_ofList]
    refine ⟨_, List.mem_filter.2 ⟨List.mem_map_of_mem hpiece, ?_⟩, hc'⟩
    rw [Bool.and_eq_true, decide_eq_true_eq, decide_eq_true_eq]
    constructor
    · intro hempty
      rw [hempty] at hc'
      exact absurd hc' List.not_mem_nil
    · intro hsingle
      rw [hsingle] at hc'
      exact hdot (List.mem_singleton.1 hc')

end Path

namespace FileTree

variable {t : FileTree}

/-- Whether a path is that of a directory is told by its parts, unless it begins outside. -/
theorem directory?_eq_some {path : String} {directory : List String} :
    t.directory? path = some directory ↔ (∀ n ∈ parts path, '\x00' ∉ n.toList)
      ∧ isAbsolute path = false ∧ t.follow [] (parts path) = .taken directory .directory := by
  have hnul : (∀ n ∈ parts path, '\x00' ∉ n.toList) ↔ path.toList.contains '\x00' = false := by
    rw [← Bool.not_eq_true, List.contains_iff_mem, ← mem_parts (by decide) (by decide)]
    simp only [not_exists, not_and]
  rw [hnul, directory_eq_some]
  constructor
  · intro h
    obtain ⟨hnode, hplace⟩ := locate_taken h
    obtain ⟨hclean, hrelative, hfollow, -⟩ := locate_eq_placeOf.1 hplace
    exact ⟨hclean, hrelative, hfollow.trans (placeOf_taken hnode)⟩
  · rintro ⟨hclean, hrelative, hfollow⟩
    unfold locate
    rw [if_neg (Bool.eq_false_iff.1 hclean), if_neg (Bool.eq_false_iff.1 hrelative), hfollow]

/-- Paths of the same parts are those of one directory. -/
theorem directory?_congr {path path' : String} (hrelative : isAbsolute path = isAbsolute path')
    (hparts : parts path = parts path') : t.directory? path = t.directory? path' := by
  refine Option.ext fun directory => ?_
  rw [directory?_eq_some, directory?_eq_some, hrelative, hparts]

end FileTree

/-! ## §3. The files of one section. -/

namespace Section

/-- The path of the section is relative and leads down. -/
structure LeadsDown (s : Section) : Prop where
  relative : isAbsolute s.path = false
  down : ".." ∉ parts s.path

instance (s : Section) : Decidable s.LeadsDown :=
  decidable_of_iff (isAbsolute s.path = false ∧ ".." ∉ parts s.path)
    ⟨fun h => ⟨h.1, h.2⟩, fun h => ⟨h.relative, h.down⟩⟩

/-- The place is below the directory of the section, at any depth. -/
def Holds (s : Section) (place : String) : Prop :=
  ∃ rest, rest ≠ [] ∧ parts place = parts s.path ++ rest

instance (s : Section) (place : String) : Decidable (s.Holds place) :=
  decidable_of_iff (parts s.path <+: parts place ∧ parts place ≠ parts s.path) <| by
    constructor
    · rintro ⟨⟨rest, hrest⟩, hne⟩
      refine ⟨rest, ?_, hrest.symm⟩
      rintro rfl
      exact hne (hrest.symm.trans (List.append_nil _))
    · rintro ⟨rest, hne, hrest⟩
      refine ⟨⟨rest, hrest.symm⟩, ?_⟩
      rw [hrest]
      exact mt List.append_right_eq_self.1 hne

/-- The sections have the same name, and paths that differ in slashes and dots only. -/
structure Respelled (s s' : Section) : Prop where
  name : s.name = s'.name
  relative : isAbsolute s.path = isAbsolute s'.path
  parts : parts s.path = parts s'.path

end Section

variable {t : FileTree} {s s' : Section} {sections sections' : List Section} {place : String}

/-- There is a file at the place, and it has the extension `sql`. -/
def FileTree.HasSource (t : FileTree) (place : String) : Prop :=
  (∃ data, t.file? place = some data) ∧ EndsInSource (parts place)

/-- The key of names may be taken for a name in the key of more. -/
theorem FileTree.key_append_key (names : List String) {rest : List String} (h : rest ≠ []) :
    key (names ++ [key rest]) = key (names ++ rest) := by
  by_cases hnil : names = []
  · rw [hnil, List.nil_append, List.nil_append, key_singleton]
  · rw [key_append hnil (List.cons_ne_nil _ _), key_append hnil h, key_singleton]

/-- **A section has the source files below its path**, in order and each once. -/
theorem sectionFiles_down (hnamed : t.Named) (hs : s.LeadsDown) {l : List String}
    (h : sectionFiles t s = .ok l) :
    l.Pairwise (· < ·) ∧ ∀ place, place ∈ l ↔ t.HasSource place ∧ s.Holds place := by
  obtain ⟨directory, hdirectory, hnodup, hmem⟩ := sectionFiles_ok h
  obtain ⟨-, hplace⟩ := locate_taken (directory_eq_some.1 hdirectory)
  obtain rfl := locate_down (fun n hn hup => hs.down (hup ▸ hn)) hplace
  constructor
  · refine (hnodup.and (sectionFiles_sorted h)).imp ?_
    intro p q ⟨hne, hle⟩
    exact String.not_le.1 fun hge => hne (String.le_antisymm (of_decide_eq_true hle) hge)
  · intro place
    rw [hmem]
    constructor
    · rintro ⟨name, rfl, hsource, hfile⟩
      obtain ⟨data, hfile⟩ := mem_files.1 hfile
      obtain ⟨names, hkey, hnames⟩ := hnamed _ _ hfile
      obtain ⟨rest, hrest, rfl⟩ := names_below (directory_names hdirectory) hnames hkey
      have hparts : parts (key names) = parts s.path ++ rest := by
        rw [parts_key fun n hn => (hnames n hn).1, hrest]
      rw [isSourceName_iff, parts_key fun n hn => (hnames n (hrest ▸ List.mem_append_right _ hn)).1]
        at hsource
      rw [hkey] at hfile ⊢
      refine ⟨⟨⟨data, hfile⟩, ?_⟩, rest, hsource.ne_nil, hparts⟩
      rw [hparts]
      exact (endsInSource_append _ hsource.ne_nil).2 hsource
    · rintro ⟨⟨⟨data, hfile⟩, hends⟩, rest, hrest, hparts⟩
      obtain ⟨names, rfl, hnames⟩ := hnamed _ _ hfile
      rw [parts_key fun n hn => (hnames n hn).1] at hends hparts
      -- what is behind the directory is one name to the scan
      have hkey : key (parts s.path ++ [key rest]) = key names := by
        rw [key_append_key _ hrest, hparts]
      refine ⟨key rest, hkey.symm, ?_, mem_files.2 ⟨data, hkey ▸ hfile⟩⟩
      rw [isSourceName_iff,
        parts_key fun n hn => (hnames n (hparts ▸ List.mem_append_right _ hn)).1]
      rw [hparts] at hends
      exact (endsInSource_append _ hrest).1 hends

/-- How the path of a section is written makes no difference. -/
theorem Section.Respelled.sectionFiles (h : s.Respelled s') {l : List String}
    (hl : sectionFiles t s = .ok l) : sectionFiles t s' = .ok l := by
  unfold SchemaDrift.sectionFiles at hl ⊢
  rw [← directory?_congr h.relative h.parts, ← h.parts]
  split at hl
  · cases hl
  · exact hl

/-! ## §4. All sections. -/

/-- The number of sections in front of the first that holds a place. -/
def turn (sections : List Section) (place : String) : Nat :=
  sections.findIdx fun s => s.Holds place

theorem turn_of_holds (h : s.Holds place) : turn (s :: sections) place = 0 := by
  unfold turn
  rw [List.findIdx_cons, decide_eq_true h, cond_true]

theorem turn_of_not_holds (h : ¬s.Holds place) :
    turn (s :: sections) place = turn sections place + 1 := by
  unfold turn
  rw [List.findIdx_cons, decide_eq_false h, cond_false]

/-- **The source files that sections hold.** -/
structure Listing (t : FileTree) (sections : List Section) (found : List FoundFile) : Prop where
  /-- No file is found twice. -/
  once : (found.map (·.path)).Nodup
  /-- The files are those that a section holds, and each is found in the first that does. -/
  mem : ∀ f, f ∈ found ↔ t.HasSource f.path
    ∧ ∃ s, sections.find? (fun s => s.Holds f.path) = some s ∧ f.sectionName = s.name
  /-- The files of one section stand together, sorted by path, and those of the next behind. -/
  sorted : found.Pairwise fun f g => turn sections f.path < turn sections g.path
    ∨ turn sections f.path = turn sections g.path ∧ f.path < g.path

/-- The scan stops at the first section whose path is not that of a directory. -/
theorem scanSections_error (seen : List String)
    (h : sections.find? (fun s => (t.directory? s.path).isNone) = some s) :
    scanSections t seen sections = .error (.directoryNotFound (fromRoot s.path)) := by
  induction sections generalizing seen with
  | nil => cases h
  | cons s' rest ih =>
    rw [scanSections]
    cases hdirectory : t.directory? s'.path with
    | none =>
      rw [List.find?_cons_of_pos (by rw [hdirectory]; rfl)] at h
      have herror : sectionFiles t s' = .error (.directoryNotFound (fromRoot s'.path)) := by
        unfold sectionFiles
        rw [hdirectory]
      rw [herror, ← Option.some.inj h]
      rfl
    | some directory =>
      rw [List.find?_cons_of_neg (by rw [hdirectory]; exact Bool.false_ne_true)] at h
      obtain ⟨l, hl⟩ := sectionFiles_directory hdirectory
      rw [hl]
      show (scanSections t (seen ++ l.filter (!seen.contains ·)) rest >>= fun behind => _) = _
      rw [ih _ h]
      rfl

/-- The scan goes through all sections whose paths are those of directories. -/
theorem scanSections_directories (seen : List String)
    (h : ∀ s ∈ sections, ∃ directory, t.directory? s.path = some directory) :
    ∃ found, scanSections t seen sections = .ok found := by
  induction sections generalizing seen with
  | nil => exact ⟨[], rfl⟩
  | cons s rest ih =>
    obtain ⟨⟨directory, hdirectory⟩, hrest⟩ := List.forall_mem_cons.1 h
    obtain ⟨l, hl⟩ := sectionFiles_directory hdirectory
    obtain ⟨behind, hbehind⟩ := ih (seen ++ l.filter (!seen.contains ·)) hrest
    exact ⟨_, scanSections_cons.2 ⟨l, behind, hl, hbehind, rfl⟩⟩

/-- The scan does not tell how the paths of sections are written. -/
theorem scanSections_respelled {seen : List String} {found : List FoundFile}
    (hsections : List.Forall₂ Section.Respelled sections sections')
    (h : scanSections t seen sections = .ok found) : scanSections t seen sections' = .ok found := by
  induction hsections generalizing seen found with
  | nil => exact h
  | cons hs _ ih =>
    obtain ⟨l, behind, hl, hbehind, rfl⟩ := scanSections_cons.1 h
    rw [hs.name]
    exact scanSections_cons.2 ⟨l, behind, hs.sectionFiles hl, ih hbehind, rfl⟩

/-- **What the scan adds to what it has seen** are the source files that its sections hold, each
from the first of them. -/
theorem mem_scanSections (hnamed : t.Named) (hsections : ∀ s ∈ sections, s.LeadsDown)
    {seen : List String} {found : List FoundFile} (h : scanSections t seen sections = .ok found)
    (f : FoundFile) : f ∈ found ↔ f.path ∉ seen ∧ t.HasSource f.path
      ∧ ∃ s, sections.find? (fun s => s.Holds f.path) = some s ∧ f.sectionName = s.name := by
  induction sections generalizing seen found with
  | nil =>
    cases h
    simp
  | cons s rest ih =>
    obtain ⟨hs, hrest⟩ := List.forall_mem_cons.1 hsections
    obtain ⟨l, behind, hl, hbehind, rfl⟩ := scanSections_cons.1 h
    have hmem := (sectionFiles_down hnamed hs hl).2 f.path
    have hown : f ∈ (l.filter (!seen.contains ·)).map (⟨s.name, ·⟩)
        ↔ f.sectionName = s.name ∧ f.path ∈ l.filter (!seen.contains ·) := by
      rw [List.mem_map]
      constructor
      · rintro ⟨path, hpath, rfl⟩
        exact ⟨rfl, hpath⟩
      · rintro ⟨hname, hpath⟩
        exact ⟨f.path, hpath, by rw [← hname]⟩
    rw [List.mem_append, hown, ih hrest hbehind, List.mem_append, mem_unseen, hmem]
    -- a file that the section holds is new or seen, and in both cases none of those behind
    by_cases hholds : s.Holds f.path
    · rw [List.find?_cons_of_pos (by simpa using hholds)]
      constructor
      · rintro (⟨hname, ⟨hsource, -⟩, hseen⟩ | ⟨hseen, hsource, -⟩)
        · exact ⟨hseen, hsource, s, rfl, hname⟩
        · exact absurd (Or.inr ⟨⟨hsource, hholds⟩, fun h => hseen (Or.inl h)⟩) hseen
      · rintro ⟨hseen, hsource, _, hfirst, hname⟩
        cases hfirst
        exact Or.inl ⟨hname, ⟨hsource, hholds⟩, hseen⟩
    · rw [List.find?_cons_of_neg (by simpa using hholds)]
      constructor
      · rintro (⟨-, ⟨-, h⟩, -⟩ | ⟨hseen, hbehind⟩)
        · exact absurd h hholds
        · exact ⟨fun h => hseen (Or.inl h), hbehind⟩
      · rintro ⟨hseen, hbehind⟩
        exact Or.inr ⟨fun h => h.elim hseen fun h => hholds h.1.2, hbehind⟩

/-- **The scan goes through the sections in turn**, and through the files of each by path. -/
theorem scanSections_sorted (hnamed : t.Named) (hsections : ∀ s ∈ sections, s.LeadsDown)
    {seen : List String} {found : List FoundFile} (h : scanSections t seen sections = .ok found) :
    found.Pairwise fun f g => turn sections f.path < turn sections g.path
      ∨ turn sections f.path = turn sections g.path ∧ f.path < g.path := by
  induction sections generalizing seen found with
  | nil =>
    cases h
    exact List.Pairwise.nil
  | cons s rest ih =>
    obtain ⟨hs, hrest⟩ := List.forall_mem_cons.1 hsections
    obtain ⟨l, behind, hl, hbehind, rfl⟩ := scanSections_cons.1 h
    obtain ⟨hsorted, hmem⟩ := sectionFiles_down hnamed hs hl
    have hown : ∀ f ∈ (l.filter (!seen.contains ·)).map (FoundFile.mk s.name ·),
        turn (s :: rest) f.path = 0 := by
      intro f hf
      obtain ⟨path, hpath, rfl⟩ := List.mem_map.1 hf
      exact turn_of_holds ((hmem path).1 (mem_unseen.1 hpath).1).2
    have hother : ∀ f ∈ behind, turn (s :: rest) f.path = turn rest f.path + 1 := by
      intro f hf
      obtain ⟨hseen, hsource, -⟩ := (mem_scanSections hnamed hrest hbehind f).1 hf
      -- else it would have been found in the first section
      refine turn_of_not_holds fun hholds => ?_
      rw [List.mem_append, mem_unseen] at hseen
      exact hseen (Or.inr ⟨(hmem _).2 ⟨hsource, hholds⟩, fun h => hseen (Or.inl h)⟩)
    have hpaths : ((l.filter (!seen.contains ·)).map (FoundFile.mk s.name ·)).Pairwise
        fun f g => f.path < g.path :=
      List.pairwise_map.2 (hsorted.sublist List.filter_sublist)
    refine List.pairwise_append.2 ⟨?_, ?_, ?_⟩
    · refine List.Pairwise.imp_of_mem ?_ hpaths
      intro f g hf hg hlt
      exact Or.inr ⟨(hown f hf).trans (hown g hg).symm, hlt⟩
    · refine List.Pairwise.imp_of_mem ?_ (ih hrest hbehind)
      intro f g hf hg hlt
      rw [hother f hf, hother g hg, Nat.succ_lt_succ_iff, Nat.succ_inj]
      exact hlt
    · intro f hf g hg
      rw [hown f hf, hother g hg]
      exact Or.inl (Nat.succ_pos _)

/-- A tree with a directory of views among its sources. -/
def viewsTree : FileTree :=
  ⟨.ofList [("sql", .directory), ("sql/README.md", .file (.text "Views are in views.")),
    ("sql/a.sql", .file (.text "SELECT 1;")), ("sql/views", .directory),
    ("sql/views/v.sql", .file (.text "SELECT 2;"))]⟩

theorem viewsTree_named : viewsTree.Named := by
  intro place data hplace
  have hmem := PathMap.mem_of_mem_ofList (PathMap.get?_eq_some.1 (file?_eq_some.1 hplace))
  have hplaces : place ∈ ["sql/README.md", "sql/a.sql", "sql/views/v.sql"] := by
    simp only [List.mem_cons, Prod.mk.injEq, reduceCtorEq, and_false, false_or, List.not_mem_nil,
      or_false] at hmem
    simp only [List.mem_cons, List.not_mem_nil, or_false]
    exact hmem.imp And.left (Or.imp And.left And.left)
  have hparts : ∀ place ∈ ["sql/README.md", "sql/a.sql", "sql/views/v.sql"],
      place = key (parts place) ∧ ∀ n ∈ parts place, n ≠ ".." := by decide +kernel
  obtain ⟨hkey, hup⟩ := hparts place hplaces
  exact ⟨parts place, hkey, fun n hn => ⟨isName_of_mem_parts hn, hup n hn⟩⟩

end SchemaDrift
