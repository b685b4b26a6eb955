/-
  SchemaDrift.Proofs.Project.Plan
  ───────────────────────────────
  **WHAT A PLAN IS MADE FROM.**

  A plan is worked out from a valid name, the state that is loaded, and the source files that
  are read, none of which has an error (`plan_ok`).  Nothing is saved for it, and so no fault
  of working it out is one of saving (`not_isSaving_plan`).
-/

import SchemaDrift.Project.Generate
import SchemaDrift.Proofs.Except
import SchemaDrift.Proofs.Migration.Run

namespace SchemaDrift

variable {t : FileTree} {c : Config} {name : String} {createdAt : Stamp}

/-- Once everything is read, a plan is the difference and what is made of it. -/
theorem plan_eq {s : SyncState} {files : List SourceFile}
    (hname : checkMigrationName name = .ok ()) (hstate : loadState t c = .ok s)
    (hfiles : readSources t c = .ok files) : plan t c name createdAt
      = match compareTree files s.snapshot with
        | (.error f, notices) => (.error (.fault f), notices)
        | (.ok diff, notices) =>
          let next := s.snapshot.advance files
          let migration := synthesize name createdAt diff next
          (.ok ⟨s, diff, next, migration⟩, notices ++ reviewNotices migration) := by
  unfold plan
  rw [hname, hstate, hfiles]
  rfl

/-- Either everything is read, or what cannot be read is why there is no plan. -/
theorem plan_cases (t : FileTree) (c : Config) (name : String) (createdAt : Stamp) :
    (∃ e, (plan t c name createdAt).1 = .error e
      ∧ ((∃ f, e = .fault f ∧ (checkMigrationName name = .error f ∨ loadState t c = .error f))
        ∨ readSources t c = .error e))
    ∨ ∃ s files, checkMigrationName name = .ok () ∧ loadState t c = .ok s
      ∧ readSources t c = .ok files := by
  unfold plan
  cases hname : checkMigrationName name with
  | error f => exact Or.inl ⟨_, rfl, Or.inl ⟨f, rfl, Or.inl rfl⟩⟩
  | ok u =>
    cases hstate : loadState t c with
    | error f => exact Or.inl ⟨_, rfl, Or.inl ⟨f, rfl, Or.inr rfl⟩⟩
    | ok s =>
      cases hfiles : readSources t c with
      | error e => exact Or.inl ⟨_, rfl, Or.inr rfl⟩
      | ok files => exact Or.inr ⟨s, files, rfl, rfl, rfl⟩

/-- **A plan is worked out from what the project holds**, and only if all of it can be read. -/
theorem plan_ok {p : Plan} : (plan t c name createdAt).1 = .ok p
    ↔ checkMigrationName name = .ok () ∧ loadState t c = .ok p.state
      ∧ ∃ files, readSources t c = .ok files
        ∧ (compareTree files p.state.snapshot).1 = .ok p.diff
        ∧ p.next = p.state.snapshot.advance files
        ∧ p.migration = synthesize name createdAt p.diff p.next := by
  constructor
  · intro h
    rcases plan_cases t c name createdAt with ⟨e, he, -⟩ | ⟨s, files, hname, hstate, hfiles⟩
    · rw [he] at h
      cases h
    · rw [plan_eq hname hstate hfiles] at h
      split at h
      · cases h
      · next diff notices hdiff =>
        cases h
        exact ⟨hname, hstate, files, hfiles, congrArg Prod.fst hdiff, rfl, rfl⟩
  · intro ⟨hname, hstate, files, hfiles, hdiff, hnext, hmigration⟩
    rw [plan_eq hname hstate hfiles]
    split
    · next f notices hdiff' =>
      rw [hdiff'] at hdiff
      cases hdiff
    · next diff notices hdiff' =>
      rw [hdiff'] at hdiff
      obtain ⟨state, diff', next, migration⟩ := p
      cases hdiff
      dsimp only at hnext hmigration
      rw [hmigration, hnext]

/-! ## §2. Reading the sources. -/

/-- The source file at a path of the tree. -/
def ReadAt (t : FileTree) (path : String) (f : SourceFile) : Prop :=
  ∃ text, t.readText path = .ok text ∧ SourceFile.read path text = .ok f

theorem readSource_ok {path : String} {f : SourceFile} :
    readSource t path = .ok f ↔ ReadAt t path f := by
  unfold readSource ReadAt
  cases htext : t.readText path with
  | error e =>
    constructor
    · intro h
      cases h
    · intro ⟨text, h, _⟩
      cases h
  | ok text =>
    dsimp only
    rw [mapError_eq_ok]
    constructor
    · exact fun h => ⟨text, rfl, h⟩
    · intro ⟨text', htext', hread⟩
      rw [Except.ok.inj htext']
      exact hread

/-- **The sources of a project are the files that are found, each read at its path.** -/
theorem readSources_ok {files : List SourceFile} : readSources t c = .ok files
    ↔ ∃ found, scan t c = .ok found ∧ List.Forall₂ (fun f => ReadAt t f.path) found files := by
  unfold readSources
  rw [bind_eq_ok]
  simp only [mapError_eq_ok, mapM_ok, readSource_ok]

/-! ## §3. The plan of a release. -/

/-- The plan of a release behind a state. -/
def Release.planFrom (r : Release) (s : SyncState) : Plan :=
  let diff := treeDiff r.files s.snapshot
  let next := s.snapshot.advance r.files
  ⟨s, diff, next, synthesize r.name r.createdAt diff next⟩

/-- Where the state is loaded and the files are read, all of them without a fault, the plan is
that of the release. -/
theorem plan_release {r : Release} {s : SyncState} (hname : checkMigrationName r.name = .ok ())
    (hstate : loadState t c = .ok s) (hfiles : readSources t c = .ok r.files)
    (hok : ∀ f ∈ r.files, f.error? = none) :
    (plan t c r.name r.createdAt).1 = .ok (r.planFrom s) :=
  plan_ok.2 ⟨hname, hstate, r.files, hfiles, compareTree_ok hok _, rfl, rfl⟩

/-- The migration of plain files behind a traced state is to be persisted, if there is a
statement in it. -/
theorem planFrom_persists {texts : List String} {r : Release} {s : SyncState}
    (hs : s.snapshot.Traced texts) (hr : r.Plain texts) {o : StatementOrigin}
    (ho : o ∈ (r.planFrom s).migration.record.statements) :
    (r.planFrom s).migration.shouldPersist = true :=
  shouldPersist_of_statement hs hr _ ho

/-! ## §4. Faults. -/

/-- The fault is one of saving the state. -/
def Fault.IsSaving : Fault → Prop
  | .stateSave _ _ => True
  | _ => False

theorem not_isSaving_checkMigrationName {f : Fault} (h : checkMigrationName name = .error f) :
    ¬f.IsSaving := by
  unfold checkMigrationName at h
  split at h
  · cases h
    exact id
  · split at h
    · cases h
      exact id
    · cases h

theorem not_isSaving_loadState {f : Fault} (h : loadState t c = .error f) : ¬f.IsSaving := by
  unfold loadState at h
  dsimp only at h
  split at h
  · cases h
  · split at h
    · cases h
      exact id
    · obtain ⟨e, -, rfl⟩ := mapError_eq_error.1 h
      exact id

theorem not_isSaving_sectionFiles {s : Section} {f : Fault} (h : sectionFiles t s = .error f) :
    ¬f.IsSaving := by
  unfold sectionFiles at h
  split at h
  · cases h
    exact id
  · cases h

theorem not_isSaving_scanSections {seen : List String} {sections : List Section} {f : Fault}
    (h : scanSections t seen sections = .error f) : ¬f.IsSaving := by
  induction sections generalizing seen with
  | nil => cases h
  | cons s rest ih =>
    unfold scanSections at h
    rcases bind_eq_error.1 h with hfound | ⟨found, -, h⟩
    · exact not_isSaving_sectionFiles hfound
    · rcases bind_eq_error.1 h with hrest | ⟨behind, -, h⟩
      · exact ih hrest
      · cases h

theorem not_isSaving_ofReading (path : String) (e : SystemError) :
    ¬(Fault.ofReading path e).IsSaving := by
  unfold Fault.ofReading
  split
  · exact id
  · exact id
  · exact id

theorem not_isSaving_readSources {f : Fault} (h : readSources t c = .error (.fault f)) :
    ¬f.IsSaving := by
  unfold readSources at h
  rcases bind_eq_error.1 h with h | ⟨found, -, h⟩
  · obtain ⟨f', hscan, heq⟩ := mapError_eq_error.1 h
    cases heq
    exact not_isSaving_scanSections hscan
  · obtain ⟨file, -, hread⟩ := mapM_error h
    unfold readSource at hread
    split at hread
    · cases hread
      exact not_isSaving_ofReading _ _
    · obtain ⟨halt, -, heq⟩ := mapError_eq_error.1 hread
      cases heq

theorem not_isSaving_compareTree {files : List SourceFile} {s : Snapshot} {f : Fault}
    (h : (compareTree files s).1 = .error f) : ¬f.IsSaving := by
  unfold compareTree at h
  dsimp only at h
  split at h
  · cases h
  · cases h
    exact id

/-- **Working out a plan saves nothing**, and has no fault of that. -/
theorem not_isSaving_plan {f : Fault} (h : (plan t c name createdAt).1 = .error (.fault f)) :
    ¬f.IsSaving := by
  rcases plan_cases t c name createdAt with ⟨e, he, hread⟩ | ⟨s, files, hname, hstate, hfiles⟩
  · obtain rfl := Except.error.inj (he.symm.trans h)
    rcases hread with ⟨f', hf, hname | hstate⟩ | hfiles
    · cases hf
      exact not_isSaving_checkMigrationName hname
    · cases hf
      exact not_isSaving_loadState hstate
    · exact not_isSaving_readSources hfiles
  · rw [plan_eq hname hstate hfiles] at h
    split at h
    · next f' notices hdiff =>
      cases h
      exact not_isSaving_compareTree (congrArg Prod.fst hdiff)
    · cases h

end SchemaDrift
