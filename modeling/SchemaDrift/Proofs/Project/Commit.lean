/-
  SchemaDrift.Proofs.Project.Commit
  ─────────────────────────────────
  **WHAT CARRYING A PLAN OUT DOES TO THE FILES.**

  The migration is written first, if it is to be persisted, where nothing was before
  (`writeMigration_ok`); then the state is saved (`commit_cases`).  The file of a migration
  and the file beside the state are never the same: the names of one end in `.sql`, those of
  the other in `.json.tmp`.
-/

import SchemaDrift.Proofs.Project.Saving

namespace SchemaDrift

open SchemaDrift.FileTree SchemaDrift.Path

variable {t t' made : FileTree} {c : Config} {s : SyncState} {beside names : List String}

/-! ## §1. Writing the migration. -/

/-- The path of the file of a migration, as it is shown. -/
def Config.migrationPath (c : Config) (m : Migration) : String :=
  Path.join (fromRoot c.migrationsPath) (migrationFileName m.name m.createdAt)

/-- The path of a migration ends in the extension of source files. -/
theorem Config.migrationPath_suffix (c : Config) (m : Migration) :
    ∃ front, c.migrationPath m = front ++ ".sql" := by
  unfold migrationPath Path.join migrationFileName
  split
  · exact ⟨_, rfl⟩
  · split
    · exact ⟨_, (String.append_assoc).symm⟩
    · exact ⟨_, (String.append_assoc).symm⟩

/-- What writing a migration did. -/
structure MigrationWritten (t t' : FileTree) (c : Config) (m : Migration) (made : FileTree)
    (names : List String) : Prop where
  /-- The directories on the way were made. -/
  grows : t.Grows made
  place : made.locate (c.migrationPath m) = made.placeOf names
  vacant : made.node? names = none
  file : namesDirectory (c.migrationPath m) = false
  result : t' = made.put names (.file (.text m.text))

theorem makeDirectory_grows (t : FileTree) (path : String) : t.Grows (t.makeDirectory path).1 := by
  unfold makeDirectory
  split
  · exact Grows.refl t
  · exact (makeParts_grows (parts_isName path)).1

/-- **A migration is written where nothing was.** -/
theorem writeMigration_ok {m : Migration} {path : String}
    (h : writeMigration t c m = (t', .ok path)) :
    path = c.migrationPath m ∧ ∃ made names, MigrationWritten t t' c m made names := by
  unfold writeMigration at h
  dsimp only at h
  split at h
  · cases h
  · next made hmade =>
    split at h
    · cases h
    · next hexists =>
      split at h
      · cases h
      · next t₁ hwrite =>
        obtain ⟨ht', hpath⟩ := Prod.mk.inj h
        obtain ⟨names, hplace, -, hfile, hresult⟩ := writeFile_ok.1 hwrite
        refine ⟨(Except.ok.inj hpath).symm, made, names, ?_, hplace, ?_, hfile,
          ht'.symm.trans hresult⟩
        · have hgrows := makeDirectory_grows t (fromRoot c.migrationsPath)
          rw [hmade] at hgrows
          exact hgrows
        · -- what is there would be a file or a directory that exists already
          cases hnode : made.node? names with
          | none => rfl
          | some node =>
            unfold pathExists at hexists
            rw [hplace, placeOf_taken hnode] at hexists
            exact absurd rfl hexists

/-- A migration that could not be written left directories at most, and its fault is none of
saving the state. -/
theorem writeMigration_failed {m : Migration} {f : Fault}
    (h : writeMigration t c m = (t', .error f)) :
    t.Grows t' ∧ ¬f.IsSaving := by
  have hgrows := makeDirectory_grows t (fromRoot c.migrationsPath)
  unfold writeMigration at h
  dsimp only at h
  split at h
  · next made e hmade =>
    rw [hmade] at hgrows
    cases h
    exact ⟨hgrows, id⟩
  · next made hmade =>
    rw [hmade] at hgrows
    split at h
    · cases h
      exact ⟨hgrows, id⟩
    · split at h
      · cases h
        exact ⟨hgrows, id⟩
      · cases h

namespace MigrationWritten

variable {m : Migration}

theorem ne_nil (h : MigrationWritten t t' c m made names) : names ≠ [] := by
  refine ne_nil_of_node? (t := made) ?_
  rw [h.vacant]
  intro hdirectory
  cases hdirectory

theorem staysOpen_made (h : MigrationWritten t t' c m made names) : made.StaysOpen t' := by
  rw [h.result]
  refine staysOpen_put h.ne_nil ?_ _
  rw [h.vacant]
  intro hdirectory
  cases hdirectory

/-- Writing the migration closes nothing. -/
theorem staysOpen (h : MigrationWritten t t' c m made names) : t.StaysOpen t' :=
  h.grows.staysOpen.trans h.staysOpen_made

/-- There was no file before. -/
theorem isNew (h : MigrationWritten t t' c m made names) : t.file? (key names) = none := by
  have hvacant := h.vacant
  rw [node?_cons h.ne_nil] at hvacant
  rw [← h.grows.files]
  unfold file?
  rw [hvacant]

/-- No other file is touched. -/
theorem files (h : MigrationWritten t t' c m made names) (place : String) :
    t'.file? place = if place = key names then some (.text m.text) else t.file? place := by
  rw [h.result, file?_put, h.grows.files]

/-- The path of a migration that was written leads to the place of its file in every tree in
which what was open is open. -/
theorem locate (h : MigrationWritten t t' c m made names) {t'' : FileTree}
    (hstays : t'.StaysOpen t'') : t''.locate (c.migrationPath m) = t''.placeOf names :=
  locate_placeOf (h.staysOpen_made.trans hstays) h.place fun _ _ => h.file

/-- The name of its file has the extension of source files. -/
theorem last (h : MigrationWritten t t' c m made names) :
    ∃ lead, names.getLast? = some (lead ++ ".sql") := by
  obtain ⟨path, hpath⟩ := c.migrationPath_suffix m
  obtain ⟨front, lead, hparts⟩ := parts_suffix path (s := ".sql") (by decide) (by decide)
  have hfollow := (locate_eq_placeOf.1 h.place).2.2.1
  rw [hpath, hparts] at hfollow
  refine ⟨lead, follow_last ?_ hfollow⟩
  intro hup
  have hlength := congrArg (fun s : String => s.toList.length) hup
  simp only [String.toList_append, List.length_append] at hlength
  have hextension : ".sql".toList.length = 4 := by decide
  have hdots : "..".toList.length = 2 := by decide
  omega

end MigrationWritten

/-- **The file beside the state is not that of a migration.** -/
theorem beside_ne_migration {m : Migration}
    (hplace : made.locate (key c.besideParts) = made.placeOf beside)
    (hfile : namesDirectory (key c.besideParts) = false) {t₀ t₁ made₀ : FileTree}
    (h : MigrationWritten t₀ t₁ c m made₀ names) : names ≠ beside := by
  obtain ⟨front, name, -, -, hlast⟩ := beside_last hplace hfile
  obtain ⟨lead, hlast'⟩ := h.last
  intro heq
  rw [heq] at hlast'
  -- the last characters of the two names differ
  have hend := congrArg (fun s : String => s.toList.getLast?) (Option.some.inj (hlast'.symm.trans hlast))
  simp only [String.toList_append] at hend
  rw [List.getLast?_append_of_ne_nil _ (by decide), List.getLast?_append_of_ne_nil _ (by decide)]
    at hend
  exact absurd hend (by decide)

/-- The file of a migration is what was written. -/
theorem Unsaved.migration {text : String} (h : Unsaved t t' c text) {t₀ : FileTree} {m : Migration}
    (hwritten : MigrationWritten t₀ t c m made names) :
    t'.locate (c.migrationPath m) = .taken names (.file (.text m.text)) := by
  have hsame : t'.file? (key names) = t.file? (key names) := by
    cases h with
    | directories h => exact h.files _
    | beside h =>
      rw [h.files, if_neg]
      intro hkey
      exact beside_ne_migration h.place h.file hwritten
        (key_inj (locate_reached hwritten.place).isName (locate_reached h.place).isName hkey)
  rw [hwritten.files, if_pos rfl, file?_eq_some, ← node?_cons hwritten.ne_nil] at hsame
  rw [hwritten.locate h.staysOpen, placeOf_taken hsame]

/-! ## §2. Carrying out. -/

/-- The state behind a plan. -/
def Plan.behind (p : Plan) : SyncState where
  snapshot := p.next
  history :=
    if p.migration.shouldPersist then p.state.history ++ [p.migration.record] else p.state.history

/-- The migration of a plan is written, if it is to be persisted: the tree before the state
is saved, and the path of the migration. -/
inductive MigrationStep (t : FileTree) (c : Config) (m : Migration) :
    FileTree → Option String → Prop where
  | nothing (h : m.shouldPersist = false) : MigrationStep t c m t none
  | file {t' made : FileTree} {names : List String} (h : m.shouldPersist = true)
      (hwritten : MigrationWritten t t' c m made names) :
      MigrationStep t c m t' (some (c.migrationPath m))

theorem MigrationStep.path_eq {t₁ : FileTree} {m : Migration} {path : Option String}
    (h : MigrationStep t c m t₁ path) :
    path = if m.shouldPersist then some (c.migrationPath m) else none := by
  cases h with
  | nothing hrest => rw [hrest, if_neg Bool.false_ne_true]
  | file hpersist _ => rw [if_pos hpersist]

/-- The migration that was written is not the file of the state, if there was one. -/
theorem MigrationStep.state {t₁ : FileTree} {m : Migration} {path : Option String} {names : List String}
    {data : FileData} (h : MigrationStep t c m t₁ path) (hstate : t.file? (key names) = some data) :
    t₁.file? (key names) = some data := by
  cases h with
  | nothing _ => exact hstate
  | file _ hwritten =>
    rw [hwritten.files, if_neg, hstate]
    intro hkey
    rw [hkey, hwritten.isNew] at hstate
    cases hstate

theorem MigrationStep.staysOpen {t₁ : FileTree} {m : Migration} {path : Option String}
    (h : MigrationStep t c m t₁ path) : t.StaysOpen t₁ := by
  cases h with
  | nothing _ => exact StaysOpen.refl t
  | file _ hwritten => exact hwritten.staysOpen

/-- What is left to do when the migration is written is to save the state behind the plan. -/
theorem finishPlan_eq {p : Plan} {path : Option String}
    (hpath : path.isSome = p.migration.shouldPersist) : finishPlan t c p path
      = match saveState t c p.behind with
        | (t', some f) => (t', .error f)
        | (t', none) => (t', .ok ⟨p.migration, path, p.diff.changes.length⟩) := by
  unfold finishPlan Plan.behind
  rw [← hpath]
  cases path with
  | some path => rfl
  | none => rfl

theorem finishPlan_cases {p : Plan} {path : Option String} {r : Except Fault Generated}
    (hpath : path.isSome = p.migration.shouldPersist) (h : finishPlan t c p path = (t', r)) :
    (∃ f, r = .error f ∧ saveState t c p.behind = (t', some f))
      ∨ (r = .ok ⟨p.migration, path, p.diff.changes.length⟩
        ∧ saveState t c p.behind = (t', none)) := by
  rw [finishPlan_eq hpath] at h
  split at h
  · next t₂ f hsave =>
    obtain ⟨rfl, rfl⟩ := Prod.mk.inj h
    exact Or.inl ⟨f, rfl, hsave⟩
  · next t₂ hsave =>
    obtain ⟨rfl, rfl⟩ := Prod.mk.inj h
    exact Or.inr ⟨rfl, hsave⟩

/-- **A plan is carried out by writing its migration and saving the state behind it**; it
fails at the one or at the other. -/
theorem commit_cases {p : Plan} {r : Except Fault Generated} {notices : List Notice}
    (h : commit t c p = (t', r, notices)) :
    (∃ f, r = .error f ∧ t.Grows t' ∧ ¬f.IsSaving)
      ∨ ∃ t₁ path, MigrationStep t c p.migration t₁ path
        ∧ ((∃ f, r = .error f ∧ saveState t₁ c p.behind = (t', some f))
          ∨ (r = .ok ⟨p.migration, path, p.diff.changes.length⟩
            ∧ saveState t₁ c p.behind = (t', none))) := by
  unfold commit at h
  split at h
  · next hpersist =>
    split at h
    · next t₁ f hwrite =>
      obtain ⟨rfl, hr⟩ := Prod.mk.inj h
      exact Or.inl ⟨f, (Prod.mk.inj hr).1.symm, writeMigration_failed hwrite⟩
    · next t₁ path hwrite =>
      obtain ⟨hpath, made, names, hwritten⟩ := writeMigration_ok hwrite
      have hfinish : finishPlan t₁ c p (some path) = (t', r) :=
        Prod.ext (Prod.mk.inj h).1 (Prod.mk.inj (Prod.mk.inj h).2).1
      refine Or.inr ⟨t₁, some path, ?_, finishPlan_cases hpersist.symm hfinish⟩
      rw [hpath]
      exact .file hpersist hwritten
  · next hpersist =>
    have hnone : p.migration.shouldPersist = false := Bool.eq_false_iff.2 hpersist
    have hfinish : finishPlan t c p none = (t', r) :=
      Prod.ext (Prod.mk.inj h).1 (Prod.mk.inj (Prod.mk.inj h).2).1
    exact Or.inr ⟨t, none, .nothing hnone, finishPlan_cases hnone.symm hfinish⟩

/-- **A run works a plan out, which changes nothing, and carries it out.** -/
theorem generate_cases {name : String} {createdAt : Stamp} {r : Except Stop Generated}
    {notices : List Notice} (h : generate t c name createdAt = (t', r, notices)) :
    (∃ e, r = .error e ∧ t' = t ∧ (plan t c name createdAt).1 = .error e)
      ∨ ∃ p r' notices', (plan t c name createdAt).1 = .ok p
        ∧ commit t c p = (t', r', notices') ∧ r = r'.mapError .fault := by
  unfold generate at h
  split at h
  · next e notices' hplan =>
    obtain ⟨ht, hr⟩ := Prod.mk.inj h
    exact Or.inl ⟨e, (Prod.mk.inj hr).1.symm, ht.symm, congrArg Prod.fst hplan⟩
  · next p notices' hplan =>
    rcases hcommit : commit t c p with ⟨t₁, r', more⟩
    rw [hcommit] at h
    obtain ⟨rfl, hr⟩ := Prod.mk.inj h
    exact Or.inr ⟨p, r', more, congrArg Prod.fst hplan, hcommit, (Prod.mk.inj hr).1.symm⟩

/-- How a run goes on when there is no migration to write. -/
theorem generate_resting {name : String} {createdAt : Stamp} {p : Plan}
    (hplan : (plan t c name createdAt).1 = .ok p) (hnone : p.migration.shouldPersist = false)
    (hsave : saveState t c p.behind = (t', none)) :
    ∃ notices, generate t c name createdAt
      = (t', .ok ⟨p.migration, none, p.diff.changes.length⟩, notices) := by
  have hpath : (none : Option String).isSome = p.migration.shouldPersist := hnone.symm
  have hcommit : commit t c p = (t', .ok ⟨p.migration, none, p.diff.changes.length⟩,
      [.info "No schema changes; no migration written"]) := by
    unfold commit
    rw [if_neg (by rw [hnone]; exact Bool.false_ne_true), finishPlan_eq hpath, hsave]
  unfold generate
  split
  · next e notices h =>
    rw [h] at hplan
    cases hplan
  · next p' notices h =>
    rw [h] at hplan
    cases hplan
    rw [hcommit]
    exact ⟨_, rfl⟩

/-- How a run goes on when its migration is written. -/
theorem generate_persisting (path : String) {name : String} {createdAt : Stamp} {p : Plan}
    (hplan : (plan t c name createdAt).1 = .ok p) (hpersist : p.migration.shouldPersist = true)
    (hwrite : (writeMigration t c p.migration).2 = .ok path) {r : Except Fault Generated}
    (hfinish : (finishPlan (writeMigration t c p.migration).1 c p (some path)).2 = r) :
    ∃ notices, generate t c name createdAt
      = ((finishPlan (writeMigration t c p.migration).1 c p (some path)).1, r.mapError .fault,
        notices) := by
  -- the migration is written, and the plan finished behind it
  have hcommit : commit t c p
      = ((finishPlan (writeMigration t c p.migration).1 c p (some path)).1,
        (finishPlan (writeMigration t c p.migration).1 c p (some path)).2,
        [.status "Wrote" path]) := by
    unfold commit
    rw [if_pos hpersist]
    split
    · next t₁ f h =>
      rw [h] at hwrite
      cases hwrite
    · next t₁ path' h =>
      rw [h] at hwrite ⊢
      cases hwrite
      rfl
  unfold generate
  split
  · next e notices h =>
    rw [h] at hplan
    cases hplan
  · next p' notices h =>
    rw [h] at hplan
    cases hplan
    rw [hcommit, hfinish]
    exact ⟨_, rfl⟩

end SchemaDrift
