/-
  SchemaDrift.Proofs.Project.Failure
  ──────────────────────────────────
  **WHAT A RUN THAT FAILED LEAVES BEHIND.**

  Everything is read and worked out before anything is written.  So a run that fails at its
  name, at the state, at the sources or at its migration has changed no file.  One that fails
  when the state is saved has written its migration already, and may have written the file
  beside the state; every other file, that of the state with it, is as it was
  (`generate_failed`).
-/

import SchemaDrift.Proofs.Project.Commit

namespace SchemaDrift

open SchemaDrift.Digest SchemaDrift.FileTree SchemaDrift.Path

variable {t t' : FileTree} {c : Config} {name : String} {createdAt : Stamp} {e : Stop}
  {notices : List Notice}

/-- The files of the tree `t'`, left by a run that could not save the state behind its plan. -/
structure LeftUnsaved (t t' : FileTree) (c : Config) (p : Plan) : Prop where
  /-- A migration that is to be persisted stands, with its whole text, where no file was. -/
  migration : p.migration.shouldPersist = true → ∃ names,
    t'.locate (c.migrationPath p.migration) = .taken names (.file (.text p.migration.text))
      ∧ t.file? (key names) = none
  /-- No other file differs, that beside the state apart, which has the whole text of the
  state. -/
  others : ∀ place, t'.file? place ≠ t.file? place →
    (p.migration.shouldPersist = true ∧ ∃ names node,
      t'.locate (c.migrationPath p.migration) = .taken names node ∧ place = key names)
    ∨ ∃ beside, t'.follow [] c.besideParts = .taken beside (.file (.text p.behind.toText))
      ∧ place = key beside

/-- A save that failed behind a migration left that, and the file beside the state. -/
theorem leftUnsaved {t₁ : FileTree} {p : Plan} {path : Option String}
    (hwritten : MigrationStep t c p.migration t₁ path) (hsave : Unsaved t₁ t' c p.behind.toText) :
    LeftUnsaved t t' c p := by
  cases hwritten with
  | nothing hnone =>
    refine ⟨?_, fun place hplace => Or.inr (hsave.files hplace)⟩
    intro hpersist
    rw [hnone] at hpersist
    cases hpersist
  | file hpersist hwritten =>
    have hmigration := hsave.migration hwritten
    refine ⟨fun _ => ⟨_, hmigration, hwritten.isNew⟩, ?_⟩
    intro place hplace
    by_cases hsame : t'.file? place = t₁.file? place
    · -- it differed already when the state was to be saved
      rw [hsame, hwritten.files] at hplace
      split at hplace
      · next hkey => exact Or.inl ⟨hpersist, _, _, hmigration, hkey⟩
      · exact absurd rfl hplace
    · exact Or.inr (hsave.files hsame)

/-- **A run that failed has changed no file, unless it is the state that could not be saved.**
Then it leaves the migration of its plan, and it may leave the file beside the state; no other
file has been made, changed or removed.  In no case is the file of the state another. -/
theorem generate_failed (h : generate t c name createdAt = (t', .error e, notices)) :
    ((∀ f, e = .fault f → ¬f.IsSaving) → ∀ place, t'.file? place = t.file? place)
      ∧ (∀ f, e = .fault f → f.IsSaving →
          ∃ p, (plan t c name createdAt).1 = .ok p ∧ LeftUnsaved t t' c p)
      ∧ ∀ names data, t.locate (fromRoot c.statePath) = .taken names (.file data) →
          t'.locate (fromRoot c.statePath) = .taken names (.file data) := by
  rcases generate_cases h with ⟨e', he, rfl, hplan⟩ | ⟨p, r, notices', hplan, hcommit, hr⟩
  · cases he
    refine ⟨fun _ _ => rfl, ?_, fun _ _ hstate => hstate⟩
    intro f hf hsaving
    rw [hf] at hplan
    exact absurd hsaving (not_isSaving_plan hplan)
  · rcases commit_cases hcommit with ⟨f, rfl, hgrows, hnot⟩
      | ⟨t₁, path, hwritten, ⟨f, rfl, hsave⟩ | ⟨rfl, -⟩⟩
    · -- it failed at the migration
      cases hr
      refine ⟨fun _ => hgrows.files, ?_, ?_⟩
      · intro f' hf hsaving
        cases hf
        exact absurd hsaving hnot
      · intro names data hstate
        exact locate_file hgrows.staysOpen hstate (hgrows.files _)
    · -- it failed at the state
      cases hr
      obtain ⟨hsaving, hsave⟩ := saveState_failed hsave
      refine ⟨?_, fun _ _ _ => ⟨p, hplan, leftUnsaved hwritten hsave⟩, ?_⟩
      · intro hnot
        exact absurd hsaving (hnot f rfl)
      · intro names data hstate
        have hfile := hwritten.state (file?_of_locate hstate)
        have hplace := locate_file hwritten.staysOpen hstate
          (hfile.trans (file?_of_locate hstate).symm)
        exact locate_file hsave.staysOpen hplace (hsave.state (locate_taken hplace).2)
    · cases hr

/-- A project of one statement. -/
def seed : Release :=
  ⟨"first", ⟨2024, 3, 1, 12, 30, 0, 0, by decide⟩,
    [⟨"sql/a.sql", hashOf "SELECT 1;", ⟨false, false⟩, .ok ⟨[⟨"SELECT 1;", some 1⟩], none⟩⟩]⟩

def seedTree : FileTree where
  entries := .ofList [("sql", .directory), ("sql/a.sql", .file (.text "SELECT 1;"))]

theorem read_seed : SourceFile.read "sql/a.sql" "SELECT 1;"
    = .ok ⟨"sql/a.sql", hashOf "SELECT 1;", ⟨false, false⟩,
        .ok ⟨[⟨"SELECT 1;", some 1⟩], none⟩⟩ :=
  SourceFile.read_ok _ (by decide +kernel) (by decide +kernel)

/-- Its migration is to be persisted. -/
theorem seed_persists : (seed.planFrom {}).migration.shouldPersist = true := by
  have hplain : seed.Plain ["SELECT 1;"] :=
    ⟨by decide, by decide, by decide,
      List.forall_mem_singleton.2 ⟨_, List.mem_cons_self, read_seed⟩, by decide, by decide⟩
  have hnothing : (({} : SyncState).snapshot).Traced ["SELECT 1;"] := by
    intro path record h
    cases h
  exact planFrom_persists hnothing hplain (o := ⟨hashOf "SELECT 1", "sql/a.sql"⟩) (by decide +kernel)

/-- With any settings that have it scanned, it has the plan of a first release. -/
theorem plan_seed (hstate : loadState t c = .ok {}) (hscan : scan t c = .ok [⟨"sql", "sql/a.sql"⟩])
    (htext : t.readText "sql/a.sql" = .ok "SELECT 1;") :
    (plan t c seed.name seed.createdAt).1 = .ok (seed.planFrom {}) :=
  plan_release (by decide +kernel) hstate
    (readSources_ok.2 ⟨_, hscan, .cons ⟨_, htext, read_seed⟩ .nil⟩) (by decide)

/-- The project with a file where the directory of the state was to be made. -/
def blockedTree : FileTree := seedTree.put ["blocked"] (.file (.text ""))

def blockedConfig : Config := { stateFile := some "blocked/state.json" }

/-- A migration is written to it, and then the run fails. -/
theorem generate_blocked :
    ∃ t' notices, generate blockedTree blockedConfig seed.name seed.createdAt
        = (t', .error (.fault (.stateSave "./blocked/state.json" SystemError.alreadyExists.text)),
          notices)
      ∧ blockedTree.file? "migrations/20240301123000_first.sql" = none
      ∧ (t'.file? "migrations/20240301123000_first.sql").isSome = true := by
  have hplan : (plan blockedTree blockedConfig seed.name seed.createdAt).1 = .ok (seed.planFrom {}) :=
    plan_seed (by decide +kernel) (by decide +kernel) (by decide +kernel)
  obtain ⟨notices, hrun⟩ := generate_persisting
    "./migrations/20240301123000_first.sql"
    (r := .error (.stateSave "./blocked/state.json" SystemError.alreadyExists.text))
    hplan seed_persists (by decide +kernel) (by decide +kernel)
  exact ⟨_, notices, hrun, by decide +kernel, by decide +kernel⟩

/-- The state cannot be saved, and a migration was to be persisted. -/
theorem generate_failed_blocked :
    ∃ t' f notices, generate blockedTree blockedConfig seed.name seed.createdAt
        = (t', .error (.fault f), notices)
      ∧ f.IsSaving
      ∧ (∃ p, (plan blockedTree blockedConfig seed.name seed.createdAt).1 = .ok p
        ∧ LeftUnsaved blockedTree t' blockedConfig p)
      ∧ ∀ names data, blockedTree.locate (fromRoot blockedConfig.statePath)
            = .taken names (.file data) →
          t'.locate (fromRoot blockedConfig.statePath) = .taken names (.file data) := by
  obtain ⟨t', notices, hrun, -⟩ := generate_blocked
  obtain ⟨-, hleft, hstate⟩ := generate_failed hrun
  exact ⟨t', _, notices, hrun, trivial, hleft _ rfl trivial, hstate⟩

/-- **A run that fails can leave its migration.** -/
theorem failed_run_leaves_migration :
    ∃ t c name createdAt t' e notices place, generate t c name createdAt = (t', .error e, notices)
      ∧ t'.file? place ≠ t.file? place := by
  obtain ⟨t', notices, hrun, hbefore, hbehind⟩ := generate_blocked
  refine ⟨_, _, _, _, t', _, notices, "migrations/20240301123000_first.sql", hrun, ?_⟩
  rw [hbefore]
  exact Option.isSome_iff_ne_none.1 hbehind

end SchemaDrift
