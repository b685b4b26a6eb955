/-
  SchemaDrift.Proofs.Project.Store
  ────────────────────────────────
  **THE STATE THAT WAS SAVED IS THE STATE THAT IS LOADED.**

  Saving makes the directories on the way, writes the file beside the state and moves it into
  its place (`saveState_ok`).  The move takes what was written a moment before: the path of
  the file beside the state leads to the same place still.  Behind it the state's own path
  leads to a file that holds the text of the state and nothing else, from which the state is
  read back.
-/

import SchemaDrift.Project.Store
import SchemaDrift.Proofs.Project.Writing
import SchemaDrift.Proofs.Snapshot.RoundTrip

namespace SchemaDrift

open SchemaDrift.FileTree SchemaDrift.Path SchemaDrift.Text

/-! ## §1. The file beside the state. -/

namespace Path

theorem splitOnce?_some {c : Char} {s before behind : List Char}
    (h : splitOnce? c s = some (before, behind)) : s = before ++ c :: behind := by
  induction s generalizing before with
  | nil => cases h
  | cons d s ih =>
    unfold splitOnce? at h
    split at h
    · next hd =>
      cases h
      rw [hd]
      rfl
    · obtain ⟨⟨before', behind'⟩, hrest, heq⟩ := Option.map_eq_some_iff.1 h
      cases heq
      rw [ih hrest]
      rfl

theorem splitOnce?_not_mem {c : Char} {s before behind : List Char}
    (h : splitOnce? c s = some (before, behind)) : c ∉ before := by
  induction s generalizing before with
  | nil => cases h
  | cons d s ih =>
    unfold splitOnce? at h
    split at h
    · cases h
      exact List.not_mem_nil
    · next hd =>
      obtain ⟨⟨before', behind'⟩, hrest, heq⟩ := Option.map_eq_some_iff.1 h
      cases heq
      rw [List.mem_cons, not_or]
      exact ⟨Ne.symm hd, ih hrest⟩

/-- An extension that has a dot in it is that of no name. -/
theorem splitExtension_ne {extension : String} (hdot : '.' ∈ extension.toList) (name : String) :
    (splitExtension name).1 ++ "." ++ extension ≠ name := by
  have hlonger : name ++ "." ++ extension ≠ name := by
    intro h
    have hlength := congrArg (fun s : String => s.toList.length) h
    have hone : ".".toList.length = 1 := by decide
    simp only [String.toList_append, List.length_append] at hlength
    omega
  unfold splitExtension
  split
  · exact hlonger
  · exact hlonger
  · next own stem hne hsplit =>
    intro h
    have hname := congrArg List.reverse (splitOnce?_some hsplit)
    have htext := congrArg String.toList h
    rw [List.reverse_reverse] at hname
    rw [hname] at htext
    simp only [String.toList_append, String.toList_ofList, List.reverse_append, List.reverse_cons,
      List.append_assoc] at htext
    have hext : extension.toList = own.reverse :=
      (List.cons.inj (List.append_cancel_left htext)).2
    rw [hext, List.mem_reverse] at hdot
    exact splitOnce?_not_mem hsplit hdot

/-- A file name without its extension is a beginning of it. -/
theorem stem_leads (name : String) :
    (splitExtension name).1.toList <+: name.toList := by
  unfold splitExtension
  split
  · exact List.prefix_refl _
  · exact List.prefix_refl _
  · next extension stem hne hsplit =>
    refine ⟨'.' :: extension.reverse, ?_⟩
    rw [String.toList_ofList]
    have hname := congrArg List.reverse (splitOnce?_some hsplit)
    rw [List.reverse_reverse] at hname
    rw [hname]
    simp

/-- A name with another extension is a name. -/
theorem isName_withExtension {parts : List String} (hparts : ∀ n ∈ parts, IsName n)
    {extension : String} (hne : extension ≠ "") (hslash : '/' ∉ extension.toList) :
    ∀ n ∈ withExtension parts extension, IsName n := by
  unfold withExtension
  split
  · exact hparts
  · exact hparts
  · next name hlast hname =>
    have hmem : name ∈ parts := List.mem_of_getLast? hname
    intro n hn
    rcases List.mem_append.1 hn with hn | hn
    · exact hparts n ((List.dropLast_sublist parts).mem hn)
    · rw [List.mem_singleton.1 hn]
      -- with a dot and an extension the name is neither empty nor a dot
      refine ⟨?_, ?_, ?_⟩
      · intro h
        have htext := congrArg String.toList h
        simp at htext
      · intro h
        have hlength := congrArg (fun s : String => s.toList.length) h
        have hpos : extension.toList ≠ [] := by
          intro hnil
          exact hne (String.toList_inj.1 (by rw [hnil]; rfl))
        have hpos' := List.length_pos_of_ne_nil hpos
        simp only [String.toList_append, List.length_append] at hlength
        have hdot : ".".toList.length = 1 := by decide
        omega
      · simp only [String.toList_append, List.mem_append, not_or]
        refine ⟨⟨?_, by decide⟩, hslash⟩
        intro hmem'
        exact (hparts name hmem).2.2 ((stem_leads name).subset hmem')

end Path

/-- The names that the path of the file beside the state is made of. -/
def Config.besideParts (c : Config) : List String :=
  withExtension (parts (fromRoot c.statePath)) "json.tmp"

theorem Config.besideParts_isName (c : Config) : ∀ n ∈ c.besideParts, IsName n :=
  isName_withExtension (parts_isName _) (by decide) (by decide)

/-- The tree with a text in the file beside the state. -/
def FileTree.withBeside (t : FileTree) (beside : List String) (text : String) : FileTree :=
  t.put beside (.file (.text text))

/-! ## §2. Saving. -/

/-- The directory of the state is made. -/
theorem makeStateDirectory_grows (t : FileTree) (c : Config) :
    t.Grows (t.makeParts (parts (fromRoot c.statePath)).dropLast).1 :=
  (makeParts_grows fun n hn => parts_isName _ n ((List.dropLast_sublist _).mem hn)).1

/-- What saving a state did, step by step. -/
structure Saved (t t' : FileTree) (c : Config) (text : String) (made : FileTree)
    (beside names : List String) : Prop where
  relative : isAbsolute (fromRoot c.statePath) = false
  directories : t.makeParts (parts (fromRoot c.statePath)).dropLast = (made, none)
  /-- Where the file beside the state is written. -/
  besidePlace : made.locate (key c.besideParts) = made.placeOf beside
  besideFree : made.node? beside ≠ some .directory
  besideFile : namesDirectory (key c.besideParts) = false
  /-- Where it is moved to. -/
  place : (made.withBeside beside text).locate (fromRoot c.statePath)
    = (made.withBeside beside text).placeOf names
  free : (made.withBeside beside text).node? names ≠ some .directory
  file : namesDirectory (fromRoot c.statePath) = false
  result : t' = if beside = names then made.withBeside beside text
    else ((made.withBeside beside text).cut beside).put names (.file (.text text))

variable {t t' made : FileTree} {c : Config} {s : SyncState} {beside names : List String}

/-- What was written beside the state is what is found there. -/
theorem follow_beside {text : String}
    (hplace : made.locate (key c.besideParts) = made.placeOf beside)
    (hfree : made.node? beside ≠ some .directory) :
    (made.withBeside beside text).follow [] c.besideParts
      = .taken beside (.file (.text text)) := by
  obtain ⟨-, -, hfollow, -⟩ := locate_eq_placeOf.1 hplace
  have hne := ne_nil_of_node? hfree
  rw [parts_key c.besideParts_isName] at hfollow
  unfold withBeside
  rw [follow_placeOf (staysOpen_put hne hfree _) (Open.nil made) c.besideParts_isName hfollow,
    placeOf_taken (node?_put hne _)]

/-- **Saving succeeds exactly if its steps do**, and then it is what they leave. -/
theorem saveState_ok : saveState t c s = (t', none)
    ↔ ∃ made beside names, Saved t t' c s.toText made beside names := by
  unfold saveState
  dsimp only
  constructor
  · intro h
    split at h
    · cases h
    · next habsolute =>
      split at h
      · cases h
      · next made hmade =>
        split at h
        · cases h
        · next t₂ hwrite =>
          obtain ⟨beside, hbeside, hbesideFree, hbesideFile, rfl⟩ := writeFile_ok.1 hwrite
          split at h
          · cases h
          · next t₃ hmove =>
            obtain ⟨beside', names, data, hsource, hplace, hfree, hfile, ht₃⟩ :=
              (moveFile_ok c.besideParts_isName).1 hmove
            -- the file that is moved is the one that was written
            have hbefore : (made.withBeside beside s.toText).follow [] c.besideParts
                = .taken beside (.file (.text s.toText)) := follow_beside hbeside hbesideFree
            have hdata := hbefore.symm.trans hsource
            cases hdata
            cases h
            exact ⟨made, beside, names, Bool.eq_false_iff.2 habsolute, hmade, hbeside,
              hbesideFree, hbesideFile, hplace, hfree, hfile, ht₃⟩
  · intro ⟨made, beside, names, hsaved⟩
    have hwrite : made.writeFile (key (withExtension (parts (fromRoot c.statePath)) "json.tmp"))
        (.text s.toText) = .ok (made.withBeside beside s.toText) :=
      writeFile_ok.2 ⟨beside, hsaved.besidePlace, hsaved.besideFree, hsaved.besideFile, rfl⟩
    have hmove : (made.withBeside beside s.toText).moveFile
        (withExtension (parts (fromRoot c.statePath)) "json.tmp") (fromRoot c.statePath) = .ok t' :=
      (moveFile_ok c.besideParts_isName).2 ⟨beside, names, .text s.toText,
        follow_beside hsaved.besidePlace hsaved.besideFree, hsaved.place, hsaved.free, hsaved.file,
        hsaved.result⟩
    rw [if_neg (by rw [hsaved.relative]; exact Bool.false_ne_true), hsaved.directories]
    dsimp only
    rw [hwrite]
    dsimp only
    rw [hmove]

namespace Saved

variable {text : String}

/-- The directories are made before anything is written. -/
theorem grows (h : Saved t t' c text made beside names) : t.Grows made := by
  have hgrows := makeStateDirectory_grows t c
  rw [h.directories] at hgrows
  exact hgrows

/-- The file beside the state is at a place in an open directory. -/
theorem besideReached (h : Saved t t' c text made beside names) : made.Reached beside :=
  locate_reached h.besidePlace

theorem node?_beside (h : Saved t t' c text made beside names) :
    (made.withBeside beside text).node? beside = some (.file (.text text)) :=
  node?_put (ne_nil_of_node? h.besideFree) _

/-- Moving the file closes nothing. -/
theorem staysOpen_move (h : Saved t t' c text made beside names) :
    (made.withBeside beside text).StaysOpen t' := by
  rw [h.result]
  split
  · exact StaysOpen.refl _
  · have hfile : (made.withBeside beside text).node? beside ≠ some .directory := by
      rw [h.node?_beside]
      intro hdirectory
      cases hdirectory
    have hne := ne_nil_of_node? h.free
    have hfree : ((made.withBeside beside text).cut beside).node? names ≠ some .directory := by
      intro hdirectory
      rw [node?_cons hne] at hdirectory
      by_cases hat : IsAt beside (key names)
      · rw [get?_cut_none hat] at hdirectory
        cases hdirectory
      · rw [get?_cut hat, ← node?_cons hne] at hdirectory
        exact h.free hdirectory
    exact (staysOpen_cut h.besideReached.isName hfile).trans (staysOpen_put hne hfree _)

/-- **Saving closes nothing.** -/
theorem staysOpen (h : Saved t t' c text made beside names) : t.StaysOpen t' :=
  (h.grows.staysOpen.trans
    (staysOpen_put (ne_nil_of_node? h.besideFree) h.besideFree (.file (.text text)))).trans
      h.staysOpen_move

theorem node? (h : Saved t t' c text made beside names) :
    t'.node? names = some (.file (.text text)) := by
  rw [h.result]
  split
  · next hsame =>
    rw [← hsame]
    exact h.node?_beside
  · exact node?_put (ne_nil_of_node? h.free) _

/-- **The path of the state leads to a file that holds what was saved.** -/
theorem locate (h : Saved t t' c text made beside names) :
    t'.locate (fromRoot c.statePath) = .taken names (.file (.text text)) := by
  rw [locate_placeOf h.staysOpen_move h.place fun _ _ => h.file]
  exact placeOf_taken h.node?

end Saved

/-! ## §3. Loading. -/

/-- A state is loaded from the file that holds its text. -/
theorem loadState_text (hkey : s.ObeysKeyRule)
    (h : t.locate (fromRoot c.statePath) = .taken names (.file (.text s.toText))) :
    loadState t c = .ok s := by
  have hexists : t.pathExists (fromRoot c.statePath) = true := by
    unfold pathExists
    rw [h]
  have hread : t.readText (fromRoot c.statePath) = .ok s.toText := by
    unfold readText
    rw [h]
  unfold loadState
  dsimp only
  rw [hexists, Bool.not_true, if_neg Bool.false_ne_true, hread]
  dsimp only
  rw [SyncState.ofText_toText hkey]
  rfl

/-- **A state all of whose tables obey the key rule is loaded as it was saved**, into whatever
tree, and to whatever path: what its text says is the state. -/
theorem loadState_saveState (hkey : s.ObeysKeyRule) :
    SyncState.ofText s.toText = .ok s
      ∧ ∀ t t' c, saveState t c s = (t', none) → loadState t' c = .ok s := by
  refine ⟨SyncState.ofText_toText hkey, ?_⟩
  intro t t' c hsave
  obtain ⟨made, beside, names, hsaved⟩ := saveState_ok.1 hsave
  exact loadState_text hkey hsaved.locate

/-- A path of another alphabet, a record of each kind, a key that names no schema, text that
needs escapes, a stamp of the year nought with a leap second and nanoseconds; saved into a tree
with nothing in it. -/
theorem loadState_saveState_first :
    let key : ForeignKey := ⟨none, "teams", some "id", some "SET NULL", none⟩
    let id : Column := ⟨"id", "INT", false, none, true, true, none, none⟩
    let team : Column := ⟨"team", "TEXT", true, some "'a\"\\\n\x01é'", false, false, some key,
      some "team <> ''"⟩
    let record : DeclarativeRecord := ⟨"raw", "hash", some ⟨"public", "users", [id, team]⟩⟩
    let s : SyncState :=
      { snapshot := ⟨.ofList [("схема/users.sql", .declarative record),
          ("seed.sql", .plain "raw" ["one", "two"])]⟩
        history := [⟨"first", ⟨0, 2, 29, 23, 59, 60, 1000000, by decide⟩, [⟨"one", "seed.sql"⟩],
          .ofList [("схема/users.sql", record)]⟩] }
    s.ObeysKeyRule ∧ saveState {} {} s = ((saveState {} {} s).1, none)
      ∧ SyncState.ofText s.toText = .ok s ∧ loadState (saveState {} {} s).1 {} = .ok s := by
  intro key id team record s
  have hkey : s.ObeysKeyRule := by decide +kernel
  have hsave : saveState {} {} s = ((saveState {} {} s).1, none) := Prod.ext rfl rfl
  obtain ⟨htext, hload⟩ := loadState_saveState hkey
  exact ⟨hkey, hsave, htext, hload {} _ {} hsave⟩

end SchemaDrift
