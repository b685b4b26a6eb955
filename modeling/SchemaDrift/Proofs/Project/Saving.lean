/-
  SchemaDrift.Proofs.Project.Saving
  ─────────────────────────────────
  **WHAT A SAVE DOES TO THE FILES.**

  A state that was saved holds its text, and the file beside it is gone (`Saved.files`);
  saved again, it changes nothing (`Saved.again`).  A save that fails has written at most the
  file beside the state (`saveState_failed`, `Unsaved.files`).  That file is never the state
  itself, whatever the path of the state (`beside_ne_state`): no name has an extension with a
  dot in it.
-/

import SchemaDrift.Proofs.Project.Plan
import SchemaDrift.Proofs.Project.Store

namespace SchemaDrift

open SchemaDrift.FileTree SchemaDrift.Path

variable {t t' made : FileTree} {c : Config} {s : SyncState} {beside names : List String}

/-! ## §1. The name beside the state. -/

/-- The file beside the state has a name of its own. -/
theorem Config.besideParts_file (h : namesDirectory (key c.besideParts) = false) :
    ∃ front name, parts (fromRoot c.statePath) = front ++ [name] ∧ name ≠ ".."
      ∧ c.besideParts = front ++ [(splitExtension name).1 ++ "." ++ "json.tmp"] := by
  obtain ⟨front, last, hbeside, hup⟩ := exists_last h
  rw [parts_key c.besideParts_isName] at hbeside
  rw [hbeside]
  unfold besideParts withExtension at hbeside
  split at hbeside
  · next hnone =>
    rw [hbeside, List.getLast?_concat] at hnone
    cases hnone
  · next hdots =>
    rw [hbeside, List.getLast?_concat] at hdots
    exact absurd (Option.some.inj hdots) hup
  · next name hname hlast =>
    obtain ⟨hfront, hlast'⟩ := List.append_inj' hbeside rfl
    refine ⟨front, name, ?_, ?_, ?_⟩
    · rw [← hfront]
      exact (List.dropLast_append_getLast? name hlast).symm
    · intro hdots
      exact hname hdots
    · rw [hlast']

theorem beside_ne_up (stem : String) : stem ++ "." ++ "json.tmp" ≠ ".." := by
  intro hdots
  have hlength := congrArg (fun s : String => s.toList.length) hdots
  simp only [String.toList_append, List.length_append] at hlength
  have hextension : "json.tmp".toList.length = 8 := by decide
  have htwo : "..".toList.length = 2 := by decide
  omega

/-- The name of the file beside the state. -/
theorem beside_last (hplace : made.locate (key c.besideParts) = made.placeOf beside)
    (hfile : namesDirectory (key c.besideParts) = false) :
    ∃ front name, parts (fromRoot c.statePath) = front ++ [name] ∧ name ≠ ".."
      ∧ beside.getLast? = some ((splitExtension name).1 ++ "." ++ "json.tmp") := by
  obtain ⟨front, name, hparts, hup, hbeside⟩ := Config.besideParts_file hfile
  have hfollow := (locate_eq_placeOf.1 hplace).2.2.1
  rw [parts_key c.besideParts_isName, hbeside] at hfollow
  exact ⟨front, name, hparts, hup, follow_last (beside_ne_up _) hfollow⟩

/-- **The file beside the state is not the state.** -/
theorem beside_ne_state (hplace : made.locate (key c.besideParts) = made.placeOf beside)
    (hfile : namesDirectory (key c.besideParts) = false)
    (h : t.locate (fromRoot c.statePath) = t.placeOf names) : names ≠ beside := by
  obtain ⟨front, name, hparts, hup, hlast⟩ := beside_last hplace hfile
  have hfollow := (locate_eq_placeOf.1 h).2.2.1
  rw [hparts] at hfollow
  intro heq
  rw [heq] at hfollow
  have hsame := Option.some.inj (hlast.symm.trans (follow_last hup hfollow))
  exact splitExtension_ne (by decide) name hsame

/-! ## §2. A save that failed. -/

/-- What the save of a state has written that could not be moved into its place. -/
structure BesideWritten (t t' : FileTree) (c : Config) (text : String) (made : FileTree)
    (beside : List String) : Prop where
  grows : t.Grows made
  place : made.locate (key c.besideParts) = made.placeOf beside
  free : made.node? beside ≠ some .directory
  file : namesDirectory (key c.besideParts) = false
  result : t' = made.withBeside beside text

namespace BesideWritten

variable {text : String}

/-- Writing the file beside the state closes nothing. -/
theorem staysOpen (h : BesideWritten t t' c text made beside) : t.StaysOpen t' := by
  rw [h.result]
  exact h.grows.staysOpen.trans (staysOpen_put (ne_nil_of_node? h.free) h.free _)

/-- No other file is touched. -/
theorem files (h : BesideWritten t t' c text made beside) (place : String) :
    t'.file? place = if place = key beside then some (.text text) else t.file? place := by
  rw [h.result, withBeside, file?_put, h.grows.files]

/-- The file is where the path beside that of the state leads. -/
theorem follow (h : BesideWritten t t' c text made beside) :
    t'.follow [] c.besideParts = .taken beside (.file (.text text)) := by
  rw [h.result]
  exact follow_beside h.place h.free

end BesideWritten

/-- What a save that failed left: directories, or the file beside the state as well. -/
inductive Unsaved (t t' : FileTree) (c : Config) (text : String) : Prop where
  | directories (h : t.Grows t')
  | beside {made : FileTree} {beside : List String} (h : BesideWritten t t' c text made beside)

/-- **A state that could not be saved left directories and the file beside it at most.** -/
theorem saveState_failed {f : Fault} (h : saveState t c s = (t', some f)) :
    f.IsSaving ∧ Unsaved t t' c s.toText := by
  unfold saveState at h
  dsimp only at h
  split at h
  · cases h
    exact ⟨trivial, .directories (Grows.refl t)⟩
  · have hgrows := makeStateDirectory_grows t c
    split at h
    · next made e hmade =>
      rw [hmade] at hgrows
      cases h
      exact ⟨trivial, .directories hgrows⟩
    · next made hmade =>
      rw [hmade] at hgrows
      split at h
      · cases h
        exact ⟨trivial, .directories hgrows⟩
      · next t₂ hwrite =>
        split at h
        · obtain ⟨beside, hplace, hfree, hfile, hresult⟩ := writeFile_ok.1 hwrite
          cases h
          exact ⟨trivial, .beside ⟨hgrows, hplace, hfree, hfile, hresult⟩⟩
        · cases h

namespace Unsaved

variable {text : String}

theorem staysOpen (h : Unsaved t t' c text) : t.StaysOpen t' := by
  cases h with
  | directories h => exact h.staysOpen
  | beside h => exact h.staysOpen

/-- **No file differs but that beside the state.** -/
theorem files (h : Unsaved t t' c text) {place : String} (hplace : t'.file? place ≠ t.file? place) :
    ∃ beside, t'.follow [] c.besideParts = .taken beside (.file (.text text))
      ∧ place = key beside := by
  cases h with
  | directories h => exact absurd (h.files place) hplace
  | beside h =>
    rw [h.files] at hplace
    split at hplace
    · next hsame => exact ⟨_, h.follow, hsame⟩
    · exact absurd rfl hplace

/-- The file of the state is what it was. -/
theorem state (h : Unsaved t t' c text) (hstate : t.locate (fromRoot c.statePath) = t.placeOf names) :
    t'.file? (key names) = t.file? (key names) := by
  cases h with
  | directories h => exact h.files _
  | beside h =>
    rw [h.files, if_neg]
    intro hkey
    exact beside_ne_state h.place h.file hstate
      (key_inj (locate_reached hstate).isName (locate_reached h.place).isName hkey)

end Unsaved

/-! ## §3. A save that succeeded. -/

/-- A state that was saved is beside no file that was moved into its place. -/
theorem Saved.apart {text : String} (h : Saved t t' c text made beside names) : beside ≠ names :=
  fun heq => beside_ne_state h.besidePlace h.besideFile h.place heq.symm

/-- **What a save does to the files**: the state holds its text, the file beside it is gone,
and no other is touched. -/
theorem Saved.files {text : String} (h : Saved t t' c text made beside names) (place : String) :
    t'.file? place = if place = key names then some (.text text)
      else if IsAt beside place then none else t.file? place := by
  rw [h.result, if_neg h.apart, file?_put]
  by_cases hplace : place = key names
  · rw [if_pos hplace, if_pos hplace]
  · rw [if_neg hplace, if_neg hplace]
    by_cases hat : IsAt beside place
    · rw [if_pos hat]
      unfold file?
      rw [get?_cut_none hat]
    · have hother : place ≠ key beside := fun heq => hat (Or.inl heq)
      have hbeside : (made.withBeside beside text).file? place = made.file? place := by
        rw [withBeside, file?_put, if_neg hother]
      rw [if_neg hat, ← h.grows.files, ← hbeside]
      unfold file?
      rw [get?_cut hat]

/-- **A state that was saved can be saved again**, which changes no file if it is the same. -/
theorem Saved.again (h : Saved t t' c s.toText made beside names) :
    ∃ t'', saveState t' c s = (t'', none) ∧ ∀ place, t''.file? place = t'.file? place := by
  have hstays : made.StaysOpen t' :=
    (staysOpen_put (ne_nil_of_node? h.besideFree) h.besideFree _).trans h.staysOpen_move
  -- the directories are there, and the file beside was moved away
  have hdirectories : t'.makeParts (parts (fromRoot c.statePath)).dropLast = (t', none) :=
    makeParts_again (fun n hn => parts_isName _ n ((List.dropLast_sublist _).mem hn))
      h.directories hstays
  have hgone : t'.node? beside = none := by
    have hother : key beside ≠ key names := fun heq => h.apart
      (key_inj h.besideReached.isName (locate_reached h.place).isName heq)
    rw [node?_cons (ne_nil_of_node? h.besideFree), h.result, if_neg h.apart, get?_put,
      if_neg hother, get?_cut_none (Or.inl rfl)]
  have hfree : t'.node? beside ≠ some .directory := by
    rw [hgone]
    intro hdirectory
    cases hdirectory
  have hstate : (t'.withBeside beside s.toText).node? names = some (.file (.text s.toText)) := by
    have hother : key names ≠ key beside := fun heq => h.apart
      (key_inj h.besideReached.isName (locate_reached h.place).isName heq.symm)
    have hne := ne_nil_of_node? h.free
    rw [node?_cons hne, withBeside, get?_put, if_neg hother, ← node?_cons hne, h.node?]
  -- so that every step of saving succeeds as it did
  have hagain : Saved t'
      (if beside = names then t'.withBeside beside s.toText
        else ((t'.withBeside beside s.toText).cut beside).put names (.file (.text s.toText)))
      c s.toText t' beside names := by
    refine ⟨h.relative, hdirectories, locate_placeOf hstays h.besidePlace fun _ _ => h.besideFile,
      hfree, h.besideFile, ?_, ?_, h.file, rfl⟩
    · exact locate_placeOf (h.staysOpen_move.trans
        (staysOpen_put (ne_nil_of_node? h.besideFree) hfree _)) h.place fun _ _ => h.file
    · rw [hstate]
      intro hdirectory
      cases hdirectory
  refine ⟨_, saveState_ok.2 ⟨t', beside, names, hagain⟩, fun place => ?_⟩
  rw [hagain.files, h.files]
  split
  · rfl
  · split
    · rfl
    · rfl

end SchemaDrift
