/-
  SchemaDrift.Proofs.Project.Layout
  ─────────────────────────────────
  **A LAYOUT IN WHICH NOTHING THAT IS WRITTEN IS A SOURCE.**

  Paths without double dots lead down, to the place that their parts name: so the names of
  what a run writes can be read off the settings.  If the path of no section begins that of
  the migrations or that of the state (`Config.Apart`), then no migration, no state and no
  file beside a state is at a source (`Config.Apart.migration`, `.state`, `.besideState`).  The
  settings that are taken when none are given are such a layout.
-/

import SchemaDrift.Proofs.Project.Commit
import SchemaDrift.Proofs.Project.Scan
import SchemaDrift.Proofs.Time.RoundTrip

namespace SchemaDrift

open SchemaDrift.FileTree SchemaDrift.Path

variable {t t' made : FileTree} {c : Config} {beside names : List String}

/-! ## §1. Places that are named by the settings. -/

namespace Path

/-- The parts of a path inside another are those of the one and then those of the other. -/
theorem parts_join {base path : String} (h : isAbsolute path = false) :
    parts (join base path) = parts base ++ parts path := by
  have hslash : ∀ front back : String, parts (front ++ "/" ++ back) = parts front ++ parts back := by
    intro front back
    have htext : front ++ "/" ++ back = "/".intercalate [front, back] := by
      refine String.toList_inj.1 ?_
      simp
    rw [htext, parts_intercalate, List.flatMap_cons, List.flatMap_singleton]
  unfold join
  rw [if_neg (by rw [h]; exact Bool.false_ne_true)]
  split
  · next hend =>
    rcases Bool.or_eq_true_iff.1 hend with hempty | hlast
    · rw [String.isEmpty_iff.1 hempty, String.empty_append]
      rfl
    · -- the slash between them is there already
      obtain ⟨front, hfront⟩ : ∃ front, base = front ++ "/" := by
        refine ⟨String.ofList base.toList.dropLast, String.toList_inj.1 ?_⟩
        rw [String.toList_append, String.toList_ofList]
        exact (List.dropLast_append_getLast? '/' (of_decide_eq_true hlast)).symm
      have hbase := hslash front ""
      rw [String.append_empty] at hbase
      rw [hfront, hslash, hbase, List.append_assoc]
      rfl
  · exact hslash base path

/-- The way from the root of the project to a path is the path. -/
theorem parts_fromRoot (path : String) : parts (fromRoot path) = parts path := by
  unfold fromRoot
  by_cases habsolute : isAbsolute path = true
  · unfold join
    rw [if_pos habsolute]
  · rw [parts_join (Bool.eq_false_iff.2 habsolute)]
    rfl

/-- A path that leads down is located at the place of its parts. -/
theorem locate_down {path : String} (hdown : ∀ n ∈ parts path, n ≠ "..")
    (h : t.locate path = t.placeOf names) : names = parts path :=
  follow_down hdown (locate_eq_placeOf.1 h).2.2.1

end Path

theorem Stamp.slash_not_mem_toDigits (createdAt : Stamp) : '/' ∉ createdAt.toDigits.toList := by
  have hpadded : ∀ width n, '/' ∉ Stamp.padded width n := fun width n h =>
    absurd (Stamp.isDigit_padded width n '/' h) (by decide)
  have hyear : '/' ∉ Stamp.yearText createdAt.year := by
    unfold Stamp.yearText
    split
    · simp [hpadded]
    · split
      · simp [hpadded]
      · exact hpadded _ _
  unfold Stamp.toDigits Stamp.joined
  simp [hyear, hpadded]

/-- The name of the file of a migration is not as short as this. -/
theorem migrationFileName_ne {s : String} (hs : s.toList.length < 4) (name : String)
    (createdAt : Stamp) : migrationFileName name createdAt ≠ s := by
  intro heq
  rw [← heq] at hs
  unfold migrationFileName at hs
  have hextension : ".sql".toList.length = 4 := by decide
  rw [String.toList_append, List.length_append] at hs
  omega

/-- The name of the file of a migration is one name. -/
theorem isName_migrationFileName {name : String} (hname : checkMigrationName name = .ok ())
    (createdAt : Stamp) : IsName (migrationFileName name createdAt) := by
  refine ⟨migrationFileName_ne (by decide) _ _, migrationFileName_ne (by decide) _ _, ?_⟩
  have hown : '/' ∉ name.toList := by
    intro hmem
    have hchar : isNameChar '/' = false := by decide +kernel
    rw [isNameChar_of_checkMigrationName hname '/' hmem] at hchar
    cases hchar
  unfold migrationFileName
  simp only [String.toList_append, List.mem_append, not_or]
  exact ⟨⟨⟨createdAt.slash_not_mem_toDigits, by decide⟩, hown⟩, by decide⟩

/-- The path of a migration goes on from that of all migrations by one name. -/
theorem Config.parts_migrationPath {m : Migration} (hname : checkMigrationName m.name = .ok ()) :
    parts (c.migrationPath m)
      = parts c.migrationsPath ++ [migrationFileName m.name m.createdAt] := by
  have hfile := isName_migrationFileName hname m.createdAt
  have hrelative : isAbsolute (migrationFileName m.name m.createdAt) = false := by
    refine decide_eq_false ?_
    intro hhead
    exact hfile.2.2 (List.mem_of_mem_head? hhead)
  unfold migrationPath
  rw [parts_join hrelative, parts_fromRoot, parts_name hfile]

/-! ## §2. Sections apart from what is written. -/

/-- All paths lead down, and that of no section begins one that is written to. -/
structure Config.Apart (c : Config) : Prop where
  written : ∀ n ∈ parts c.migrationsPath ++ parts c.statePath, n ≠ ".."
  sections : ∀ s ∈ c.allSections, (∀ n ∈ parts s.path, n ≠ "..")
    ∧ ¬parts s.path <+: parts c.migrationsPath ∧ ¬parts s.path <+: parts c.statePath

/-- **A source is below the path of a section**, if that leads down. -/
theorem Config.IsSource.below (hdown : ∀ s ∈ c.allSections, ∀ n ∈ parts s.path, n ≠ "..")
    (hnames : ∀ n ∈ names, IsName n ∧ n ≠ "..") (h : c.IsSource t (key names)) :
    ∃ s ∈ c.allSections, ∃ rest, t.Open (parts s.path) ∧ rest ≠ []
      ∧ names = parts s.path ++ rest := by
  obtain ⟨s, hs, directory, name, hdirectory, hname, hkey⟩ := h
  obtain ⟨hnode, hplace⟩ := locate_taken (directory_eq_some.1 hdirectory)
  obtain rfl := locate_down (hdown s hs) hplace
  obtain ⟨rest, hrest, hname'⟩ := names_below (directory_names hdirectory) hnames hkey.symm
  refine ⟨s, hs, rest, (locate_reached hplace).isOpen_of_directory hnode, ?_, hrest⟩
  rintro rfl
  rw [hname'] at hname
  exact absurd hname (by decide)

namespace Config.Apart

theorem down (h : c.Apart) : ∀ s ∈ c.allSections, ∀ n ∈ parts s.path, n ≠ ".." :=
  fun s hs => (h.sections s hs).1

/-- **A migration that was written is no source.** -/
theorem migration (h : c.Apart) {m : Migration} (hname : checkMigrationName m.name = .ok ())
    (hwritten : MigrationWritten t t' c m made names) {t₀ : FileTree} :
    ¬c.IsSource t₀ (key names) := by
  intro hsource
  obtain ⟨s, hs, rest, -, hne, hrest⟩ := hsource.below h.down (locate_names hwritten.place)
  have hparts := c.parts_migrationPath hname
  have hplace : names = parts c.migrationsPath ++ [migrationFileName m.name m.createdAt] := by
    rw [← hparts]
    refine locate_down ?_ hwritten.place
    intro n hn
    rw [hparts] at hn
    rcases List.mem_append.1 hn with hn | hn
    · exact h.written n (List.mem_append_left _ hn)
    · rw [List.mem_singleton.1 hn]
      exact migrationFileName_ne (by decide) _ _
  refine (h.sections s hs).2.1 ?_
  have hlead : parts s.path <+: parts c.migrationsPath ++ [migrationFileName m.name m.createdAt] :=
    ⟨rest, hrest.symm.trans hplace⟩
  refine (List.prefix_concat_iff.1 hlead).resolve_left ?_
  intro hwhole
  rw [hrest, hwhole, List.append_right_eq_self] at hplace
  exact hne hplace

variable {text : String}

/-- **The state that was saved is no source.** -/
theorem state (h : c.Apart) (hsaved : Saved t t' c text made beside names) {t₀ : FileTree} :
    ¬c.IsSource t₀ (key names) := by
  intro hsource
  obtain ⟨s, hs, rest, -, -, hrest⟩ := hsource.below h.down (locate_names hsaved.place)
  have hplace : names = parts c.statePath := by
    rw [← parts_fromRoot]
    refine locate_down ?_ hsaved.place
    rw [parts_fromRoot]
    exact fun n hn => h.written n (List.mem_append_right _ hn)
  exact (h.sections s hs).2.2 ⟨rest, hrest.symm.trans hplace⟩

/-- **Nothing beside the state is a source**, and no source is below it. -/
theorem besideState (h : c.Apart) (hsaved : Saved t t' c text made beside names) {place : List String}
    (hnames : ∀ n ∈ place, IsName n ∧ n ≠ "..") (hat : IsAt beside (key place)) :
    ¬c.IsSource t (key place) := by
  intro hsource
  obtain ⟨s, hs, rest, hopen, -, hrest⟩ := hsource.below h.down hnames
  have hreached := hsaved.besideReached
  have hlead : beside <+: place := by
    rcases hat with hsame | hbelow
    · have hplace := key_inj (fun n hn => (hnames n hn).1) hreached.isName hsame
      exact ⟨[], by rw [List.append_nil, hplace]⟩
    · exact prefix_of_key hreached.isName (fun n hn => (hnames n hn).1) hbelow
  -- the file beside the state stands on no way to an open directory
  have hclosed : ¬beside <+: parts s.path := fun hway =>
    hsaved.besideFree ((hsaved.grows.staysOpen _ hopen).directory beside hway)
  obtain hway | hway := List.prefix_or_prefix_of_prefix hlead ⟨rest, hrest.symm⟩
  · exact hclosed hway
  · obtain ⟨front, name, hparts, hup, hbeside⟩ := Config.besideParts_file hsaved.besideFile
    rw [parts_fromRoot] at hparts
    have hplace : beside = front ++ [(splitExtension name).1 ++ "." ++ "json.tmp"] := by
      rw [← hbeside, ← parts_key c.besideParts_isName]
      refine locate_down ?_ hsaved.besidePlace
      rw [parts_key c.besideParts_isName, hbeside]
      intro n hn
      rcases List.mem_append.1 hn with hn | hn
      · refine h.written n (List.mem_append_right _ ?_)
        rw [hparts]
        exact List.mem_append_left _ hn
      · rw [List.mem_singleton.1 hn]
        exact beside_ne_up _
    rw [hplace] at hway
    rcases List.prefix_concat_iff.1 hway with hwhole | hfront
    · exact hclosed ⟨[], by rw [List.append_nil, hplace, hwhole]⟩
    · exact (h.sections s hs).2.2 (hparts ▸ hfront.trans (List.prefix_append _ _))

end Config.Apart

end SchemaDrift
