/-
  SchemaDrift.Proofs.Project.Touched
  ──────────────────────────────────
  **A RUN THAT SUCCEEDED TOUCHES WHAT IT REPORTS.**

  Where a run writes is told by its settings alone: the state, the file beside it, and the
  migration are at the places that their paths come down to (`Saved.statePlace`,
  `Saved.besidePlace`, `MigrationWritten.place_eq`).  No other file differs behind the run,
  the migration is new, and what is loaded behind it is what was loaded before it, taken
  forward (`Ran.touched`).

  Over many calls the history grows by one entry for every migration that was written, and
  if nobody takes a migration away, each of them stands in a file of its own
  (`Calls.history`, `Calls.migrations`).
-/

import SchemaDrift.Proofs.Project.Again

namespace SchemaDrift

open SchemaDrift.FileTree SchemaDrift.Path

variable {t t' t₁ made : FileTree} {c : Config} {beside names : List String} {text : String}
  {m : Migration}

/-! ## §1. The places of what is written. -/

/-- The place of the state. -/
def Config.statePlace (c : Config) : List String := settle [] (parts c.statePath)

/-- The place of the file beside the state. -/
def Config.besidePlace (c : Config) : List String := settle [] c.besideParts

/-- The place of the directory of the migrations. -/
def Config.migrationsPlace (c : Config) : List String := settle [] (parts c.migrationsPath)

/-- The place of the file of a migration. -/
def Config.migrationPlace (c : Config) (m : Migration) : List String :=
  c.migrationsPlace ++ [migrationFileName m.name m.createdAt]

/-- The names are those of a place inside the directory of the migrations. -/
def Config.Inside (c : Config) (names : List String) : Prop :=
  ∃ below, below ≠ [] ∧ names = c.migrationsPlace ++ below

theorem Config.migrationPlace_ne_nil (c : Config) (m : Migration) : c.migrationPlace m ≠ [] :=
  List.append_ne_nil_of_right_ne_nil _ (List.cons_ne_nil _ _)

theorem Config.inside_migrationPlace (c : Config) (m : Migration) : c.Inside (c.migrationPlace m) :=
  ⟨_, List.cons_ne_nil _ _, rfl⟩

/-- Whether a place is inside the directory of the migrations is told by the directory that
it is in. -/
theorem Config.Inside.sibling {directory : List String} {name : String}
    (h : c.Inside (directory ++ [name])) (other : String) : c.Inside (directory ++ [other]) := by
  obtain ⟨below, hne, hbelow⟩ := h
  obtain ⟨rest, last, rfl⟩ := below.eq_nil_or_concat.resolve_left hne
  rw [List.concat_eq_append, ← List.append_assoc] at hbelow
  rw [(List.append_inj' hbelow rfl).1, List.append_assoc]
  exact ⟨_, List.append_ne_nil_of_right_ne_nil _ (List.cons_ne_nil _ _), rfl⟩

/-- The file beside the state is in the directory of the state. -/
theorem Config.inside_besidePlace (h : c.Inside c.besidePlace) : c.Inside c.statePlace := by
  unfold besidePlace besideParts withExtension at h
  unfold statePlace
  rw [parts_fromRoot] at h
  split at h
  · exact h
  · exact h
  · next last hup hlast =>
    obtain ⟨front, hparts⟩ : ∃ front, parts c.statePath = front ++ [last] :=
      ⟨_, (List.dropLast_append_getLast? last hlast).symm⟩
    rw [hparts, List.dropLast_concat, settle_concat (beside_ne_up _)] at h
    rw [hparts, settle_concat hup]
    exact h.sibling last

/-- Places are made of names. -/
theorem Config.isName_statePlace (c : Config) : ∀ n ∈ c.statePlace, IsName n :=
  settle_forall (fun n hn _ => parts_isName _ n hn) (List.forall_mem_nil _)

theorem Config.isName_besidePlace (c : Config) : ∀ n ∈ c.besidePlace, IsName n :=
  settle_forall (fun n hn _ => c.besideParts_isName n hn) (List.forall_mem_nil _)

theorem Config.isName_migrationPlace (c : Config) (hname : checkMigrationName m.name = .ok ()) :
    ∀ n ∈ c.migrationPlace m, IsName n :=
  List.forall_mem_append.2
    ⟨settle_forall (fun n hn _ => parts_isName _ n hn) (List.forall_mem_nil _),
      List.forall_mem_singleton.2 (isName_migrationFileName hname m.createdAt)⟩

theorem locate_settle {path : String} (h : t.locate path = t.placeOf names) :
    names = settle [] (parts path) :=
  follow_settle (locate_eq_placeOf.1 h).2.2.1

namespace Saved

theorem statePlace (h : Saved t t' c text made beside names) : names = c.statePlace := by
  rw [locate_settle h.place, parts_fromRoot]
  rfl

theorem besidePlace_eq (h : Saved t t' c text made beside names) : beside = c.besidePlace := by
  rw [locate_settle h.besidePlace, parts_key c.besideParts_isName]
  rfl

end Saved

theorem MigrationWritten.place_eq (h : MigrationWritten t t' c m made names)
    (hname : checkMigrationName m.name = .ok ()) : names = c.migrationPlace m := by
  rw [locate_settle h.place, c.parts_migrationPath hname,
    settle_concat (migrationFileName_ne (by decide) _ _)]
  rfl

/-! ## §2. Files in directories. -/

namespace FileTree

/-- Every file of the tree is in a directory that can be come to. -/
def Rooted (t : FileTree) : Prop :=
  ∀ place data, t.file? place = some data → ∃ names, place = key names ∧ t.Reached names

/-- A tree has its files in directories if it has no others than those of a tree that had,
in directories that stay, and those that paths lead to. -/
theorem Rooted.kept (h : t.Rooted) (hstays : t.StaysOpen t')
    (hfiles : ∀ place data, t'.file? place = some data →
      t.file? place = some data ∨ ∃ names, place = key names ∧ t'.Reached names) : t'.Rooted := by
  intro place data hplace
  rcases hfiles place data hplace with hbefore | hreached
  · obtain ⟨names, hkey, hreached⟩ := h _ _ hbefore
    exact ⟨names, hkey, hstays.reached hreached⟩
  · exact hreached

end FileTree

theorem MigrationStep.rooted {path : Option String} (h : MigrationStep t c m t' path)
    (hrooted : t.Rooted) : t'.Rooted := by
  cases h with
  | nothing _ => exact hrooted
  | file _ hwritten =>
    refine hrooted.kept hwritten.staysOpen ?_
    intro place data hplace
    rw [hwritten.files] at hplace
    split at hplace
    · next hkey =>
      exact Or.inr ⟨_, hkey, hwritten.staysOpen_made.reached (locate_reached hwritten.place)⟩
    · exact Or.inl hplace

namespace Saved

/-- In a tree with its files in directories, no file is below the one beside the state. -/
theorem isAt (h : Saved t t' c text made beside names) (hrooted : t.Rooted) {place : String}
    (hfile : t.file? place ≠ none) (hat : IsAt beside place) : place = key beside := by
  obtain ⟨data, hdata⟩ := Option.ne_none_iff_exists'.1 hfile
  obtain ⟨there, rfl, hreached⟩ := hrooted _ _ hdata
  rcases hat with hsame | hbelow
  · exact hsame
  · -- it would be a directory on the way
    obtain ⟨rest, rfl⟩ := prefix_of_key h.besideReached.isName hreached.isName hbelow
    rcases rest.eq_nil_or_concat with rfl | ⟨front, name, rfl⟩
    · rw [List.append_nil]
    · have hopen := hreached.isOpen
      rw [List.concat_eq_append, ← List.append_assoc, List.dropLast_concat] at hopen
      exact absurd ((h.grows.staysOpen _ hopen).directory beside (List.prefix_append _ _))
        h.besideFree

/-- **No file differs but that of the state and that beside it.** -/
theorem files_rooted (h : Saved t t' c text made beside names) (hrooted : t.Rooted)
    {place : String} (hstate : place ≠ key names) (hbeside : place ≠ key beside) :
    t'.file? place = t.file? place := by
  rw [h.files, if_neg hstate]
  split
  · next hat =>
    by_contra hfile
    exact hbeside (h.isAt hrooted (Ne.symm hfile) hat)
  · rfl

theorem rooted (h : Saved t t' c text made beside names) (hrooted : t.Rooted) : t'.Rooted := by
  refine hrooted.kept h.staysOpen ?_
  intro place data hplace
  rw [h.files] at hplace
  split at hplace
  · next hkey => exact Or.inr ⟨_, hkey, h.staysOpen_move.reached (locate_reached h.place)⟩
  · split at hplace
    · cases hplace
    · exact Or.inl hplace

end Saved

/-! ## §3. One call. -/

/-- What a call that succeeded did to the tree `t`, from which it made the tree `t₁`. -/
structure Touched (t : FileTree) (c : Config) (name : String) (createdAt : Stamp) (g : Generated)
    (t₁ : FileTree) : Prop where
  valid : checkMigrationName name = .ok ()
  name : g.migration.name = name
  createdAt : g.migration.createdAt = createdAt
  /-- It says where it wrote a migration, if there was one to be persisted. -/
  path : g.migrationPath
    = if g.migration.shouldPersist then some (c.migrationPath g.migration) else none
  /-- Nothing was there before, and now the whole text is. -/
  migration : g.migration.shouldPersist = true →
    t.node? (c.migrationPlace g.migration) = none
      ∧ t₁.locate (c.migrationPath g.migration)
        = .taken (c.migrationPlace g.migration) (.file (.text g.migration.text))
  /-- No other file differs, those of the state apart. -/
  others : ∀ place, t₁.file? place ≠ t.file? place →
    place = key c.statePlace ∨ place = key c.besidePlace
      ∨ g.migration.shouldPersist = true ∧ place = key (c.migrationPlace g.migration)
  /-- The state is the one that was loaded, taken forward by the files that were read. -/
  state : ∃ s s' files, loadState t c = .ok s ∧ readSources t c = .ok files
    ∧ loadState t₁ c = .ok s'
    ∧ t₁.locate (fromRoot c.statePath) = .taken c.statePlace (.file (.text s'.toText))
    ∧ s'.snapshot = s.snapshot.advance files
    ∧ s'.history = if g.migration.shouldPersist then s.history ++ [g.migration.record]
        else s.history

namespace MigrationWritten

theorem ofNode? (h : MigrationWritten t t' c m made names) : t.node? names = none := by
  cases hnode : t.node? names with
  | none => rfl
  | some node => exact absurd (h.vacant.symm.trans (h.grows.node? hnode)) (Option.some_ne_none _).symm

/-- A migration stands behind the save of the state, if the state is not where it is. -/
theorem saved {t₀ : FileTree} (h : MigrationWritten t₀ t c m made names)
    {made' : FileTree} {beside state : List String} (hsaved : Saved t t' c text made' beside state)
    (hrooted : t.Rooted) (hstate : names ≠ state) :
    t'.locate (c.migrationPath m) = .taken names (.file (.text m.text)) := by
  have hnames := (locate_reached h.place).isName
  have hsame : t'.file? (key names) = t.file? (key names) := by
    refine hsaved.files_rooted hrooted ?_ ?_
    · exact fun hkey => hstate (key_inj hnames (locate_reached hsaved.place).isName hkey)
    · exact fun hkey => beside_ne_migration hsaved.besidePlace hsaved.besideFile h
        (key_inj hnames hsaved.besideReached.isName hkey)
  rw [h.files, if_pos rfl, file?_eq_some, ← node?_cons h.ne_nil] at hsame
  rw [h.locate hsaved.staysOpen, placeOf_taken hsame]

end MigrationWritten

variable {name : String} {createdAt : Stamp} {g : Generated} {notices : List Notice}

/-- **A call that succeeded touches what it reports**, and saves what it loaded, taken
forward. -/
theorem Ran.touched {p : Plan} {files : List SourceFile} (h : Ran t t₁ c p files)
    (hmigration : p.migration = synthesize name createdAt p.diff p.next) (hrooted : t.Rooted)
    (hout : ¬c.Inside c.statePlace) : Touched t c name createdAt (p.report c) t₁ := by
  obtain ⟨t₀, path, made, beside, state, hstep, hsaved⟩ := h.wrote
  have hrooted₀ := hstep.rooted hrooted
  obtain rfl := hsaved.statePlace
  obtain rfl := hsaved.besidePlace_eq
  have hname : p.migration.name = name := congrArg Migration.name hmigration
  refine ⟨hname ▸ h.name, hname, congrArg Migration.createdAt hmigration, rfl, ?migration,
    ?others, p.state, p.behind, files, h.loaded, h.read, h.behind, hsaved.locate, h.next, rfl⟩
  case migration =>
    intro hpersist
    cases hstep with
    | nothing hrest =>
      rw [show (p.report c).migration = p.migration from rfl, hrest] at hpersist
      cases hpersist
    | file _ hwritten =>
      obtain rfl := hwritten.place_eq h.name
      refine ⟨hwritten.ofNode?, hwritten.saved hsaved hrooted₀ ?_⟩
      intro hstate
      exact hout (hstate ▸ c.inside_migrationPlace p.migration)
  case others =>
    intro place hplace
    -- a place that changed is the state's, the one beside it, or the migration's
    by_cases hstate : place = key c.statePlace
    · exact Or.inl hstate
    · by_cases hbeside : place = key c.besidePlace
      · exact Or.inr (Or.inl hbeside)
      · rw [hsaved.files_rooted hrooted₀ hstate hbeside] at hplace
        cases hstep with
        | nothing _ => exact absurd rfl hplace
        | file hpersist hwritten =>
          rw [hwritten.files] at hplace
          split at hplace
          · next hkey =>
            rw [hwritten.place_eq h.name] at hkey
            exact Or.inr (Or.inr ⟨hpersist, hkey⟩)
          · exact absurd rfl hplace

theorem Ran.rooted {p : Plan} {files : List SourceFile} (h : Ran t t₁ c p files)
    (hrooted : t.Rooted) : t₁.Rooted := by
  obtain ⟨t₀, path, made, beside, state, hstep, hsaved⟩ := h.wrote
  exact hsaved.rooted (hstep.rooted hrooted)

/-! ## §4. Many calls. -/

/-- Calls that succeeded, from the tree `t` to the tree `t'`, with what they reported.
Between two of them files may be edited as `edit` says. -/
inductive Calls (c : Config) (edit : FileTree → FileTree → Prop) (t : FileTree) :
    List Generated → FileTree → Prop where
  | nothing : Calls c edit t [] t
  | edited {gs : List Generated} {t₁ t₂ : FileTree} (h : Calls c edit t gs t₁)
      (hedit : edit t₁ t₂) : Calls c edit t gs t₂
  | call {gs : List Generated} {t₁ t₂ : FileTree} {name : String} {createdAt : Stamp}
      {g : Generated} {notices : List Notice} (h : Calls c edit t gs t₁)
      (hrun : generate t₁ c name createdAt = (t₂, .ok g, notices)) : Calls c edit t (gs ++ [g]) t₂

/-- The path of the state leads to the same. -/
def Config.KeepsState (c : Config) (t t' : FileTree) : Prop :=
  t'.locate (fromRoot c.statePath) = t.locate (fromRoot c.statePath)

/-- The files inside the directory of the migrations stay as they are; there may be more. -/
def Config.KeepsMigrations (c : Config) (t t' : FileTree) : Prop :=
  ∀ names data, (∀ n ∈ names, IsName n) → c.Inside names →
    t.file? (key names) = some data → t'.file? (key names) = some data

/-- The migrations of calls that wrote one. -/
def written (gs : List Generated) : List Migration :=
  (gs.filter fun g => g.migrationPath.isSome).map (·.migration)

theorem written_append (gs gs' : List Generated) : written (gs ++ gs') = written gs ++ written gs' := by
  unfold written
  rw [List.filter_append, List.map_append]

theorem Config.KeepsState.loadState (h : c.KeepsState t t') : loadState t' c = loadState t c := by
  unfold SchemaDrift.loadState pathExists readText
  dsimp only
  rw [show t'.locate (fromRoot c.statePath) = t.locate (fromRoot c.statePath) from h]

/-- The migrations were written between the trees `t` and `t'`, each to a file of its own. -/
structure Config.Writes (c : Config) (t : FileTree) (ms : List Migration) (t' : FileTree) :
    Prop where
  kept : c.KeepsMigrations t t'
  apart : (ms.map fun m => key (c.migrationPlace m)).Nodup
  valid : ∀ m ∈ ms, checkMigrationName m.name = .ok ()
  fresh : ∀ m ∈ ms, t.file? (key (c.migrationPlace m)) = none
  stands : ∀ m ∈ ms, t'.file? (key (c.migrationPlace m)) = some (.text m.text)

namespace Config.Writes

theorem none (h : c.KeepsMigrations t t') : c.Writes t [] t' :=
  ⟨h, List.nodup_nil, List.forall_mem_nil _, List.forall_mem_nil _, List.forall_mem_nil _⟩

/-- One migration after another. -/
theorem append {ms ms' : List Migration} (h : c.Writes t ms t₁) (h' : c.Writes t₁ ms' t') :
    c.Writes t (ms ++ ms') t' := by
  have hplace : ∀ m ∈ ms ++ ms', checkMigrationName m.name = .ok () :=
    List.forall_mem_append.2 ⟨h.valid, h'.valid⟩
  refine ⟨fun names data hnames hinside hfile =>
    h'.kept _ _ hnames hinside (h.kept _ _ hnames hinside hfile), ?apart, hplace, ?fresh, ?stands⟩
  case apart =>
    rw [List.map_append, List.nodup_append]
    refine ⟨h.apart, h'.apart, ?_⟩
    -- where one stands no other is new
    intro place hmem place' hmem' hsame
    obtain ⟨m, hm, rfl⟩ := List.mem_map.1 hmem
    obtain ⟨m', hm', rfl⟩ := List.mem_map.1 hmem'
    have hstands := h.stands m hm
    rw [hsame, h'.fresh m' hm'] at hstands
    cases hstands
  case fresh =>
    refine List.forall_mem_append.2 ⟨h.fresh, ?_⟩
    intro m hm
    by_contra hbefore
    obtain ⟨data, hdata⟩ := Option.ne_none_iff_exists'.1 hbefore
    have hstill := h.kept _ _ (c.isName_migrationPlace (h'.valid m hm)) (c.inside_migrationPlace m)
      hdata
    rw [h'.fresh m hm] at hstill
    cases hstill
  case stands =>
    refine List.forall_mem_append.2 ⟨?_, h'.stands⟩
    intro m hm
    exact h'.kept _ _ (c.isName_migrationPlace (h.valid m hm)) (c.inside_migrationPlace m)
      (h.stands m hm)

end Config.Writes

namespace Touched

theorem written_eq (h : Touched t c name createdAt g t₁) :
    written [g] = if g.migration.shouldPersist then [g.migration] else [] := by
  unfold written
  rw [List.filter_singleton, h.path]
  cases g.migration.shouldPersist with
  | true => rfl
  | false => rfl

/-- The history grows by the record of the migration that was written. -/
theorem history (h : Touched t c name createdAt g t₁) {s : SyncState} (hs : loadState t c = .ok s) :
    ∃ s', loadState t₁ c = .ok s'
      ∧ s'.history = s.history ++ (written [g]).map (·.record) := by
  obtain ⟨s₀, s', files, hs₀, -, hs', -, -, hhistory⟩ := h.state
  obtain rfl := Except.ok.inj (hs.symm.trans hs₀)
  refine ⟨s', hs', ?_⟩
  rw [hhistory, h.written_eq]
  split
  · rfl
  · exact (List.append_nil _).symm

theorem vacant (h : Touched t c name createdAt g t₁) (hpersist : g.migration.shouldPersist = true) :
    t.file? (key (c.migrationPlace g.migration)) = none := by
  have hnode := (h.migration hpersist).1
  rw [node?_cons (c.migrationPlace_ne_nil g.migration)] at hnode
  unfold file?
  rw [hnode]

/-- No file inside the directory of the migrations is touched. -/
theorem keepsMigrations (h : Touched t c name createdAt g t₁) (hout : ¬c.Inside c.statePlace) :
    c.KeepsMigrations t t₁ := by
  intro names data hnames hinside hbefore
  by_contra hbehind
  rcases h.others (key names) (by rwa [hbefore]) with hkey | hkey | ⟨hpersist, hkey⟩
  · rw [key_inj hnames c.isName_statePlace hkey] at hinside
    exact hout hinside
  · rw [key_inj hnames c.isName_besidePlace hkey] at hinside
    exact hout (c.inside_besidePlace hinside)
  · rw [hkey, h.vacant hpersist] at hbefore
    cases hbefore

/-- The migration that was written stands in its file. -/
theorem writes (h : Touched t c name createdAt g t₁) (hout : ¬c.Inside c.statePlace) :
    c.Writes t (written [g]) t₁ := by
  have hkept := h.keepsMigrations hout
  rw [h.written_eq]
  split
  · next hpersist =>
    refine ⟨hkept, List.nodup_singleton _, List.forall_mem_singleton.2 ?_,
      List.forall_mem_singleton.2 (h.vacant hpersist),
      List.forall_mem_singleton.2 (file?_of_locate (h.migration hpersist).2)⟩
    rw [h.name]
    exact h.valid
  · exact .none hkept

end Touched

/-- A call that succeeded touches what it reports. -/
theorem touched (h : generate t c name createdAt = (t₁, .ok g, notices)) (hrooted : t.Rooted)
    (hout : ¬c.Inside c.statePlace) : Touched t c name createdAt g t₁ ∧ t₁.Rooted := by
  obtain ⟨p, files, hran, hmigration, rfl⟩ := ran h
  exact ⟨hran.touched hmigration hrooted hout, hran.rooted hrooted⟩

namespace Calls

variable {edit : FileTree → FileTree → Prop} {gs : List Generated}

theorem rooted (h : Calls c edit t gs t') (hedit : ∀ t t', edit t t' → t'.Rooted)
    (hout : ¬c.Inside c.statePlace) (hrooted : t.Rooted) : t'.Rooted := by
  induction h with
  | nothing => exact hrooted
  | edited _ hedited _ => exact hedit _ _ hedited
  | call _ hrun ih => exact (touched hrun ih hout).2

/-- **The history is only added to**: by one entry for every migration that was written, in
order. -/
theorem history (h : Calls c edit t gs t')
    (hedit : ∀ t t', edit t t' → t'.Rooted ∧ c.KeepsState t t') (hout : ¬c.Inside c.statePlace)
    (hrooted : t.Rooted) {s : SyncState} (hs : loadState t c = .ok s) :
    ∃ s', loadState t' c = .ok s' ∧ s'.history = s.history ++ (written gs).map (·.record) := by
  induction h with
  | nothing => exact ⟨s, hs, (List.append_nil _).symm⟩
  | edited _ hedited ih =>
    obtain ⟨s', hs', hhistory⟩ := ih
    exact ⟨s', (hedit _ _ hedited).2.loadState.trans hs', hhistory⟩
  | call hcalls hrun ih =>
    obtain ⟨s₁, hs₁, hhistory₁⟩ := ih
    have hrooted₁ := hcalls.rooted (fun t t' h => (hedit t t' h).1) hout hrooted
    obtain ⟨s', hs', hhistory⟩ := (touched hrun hrooted₁ hout).1.history hs₁
    refine ⟨s', hs', ?_⟩
    rw [hhistory, hhistory₁, written_append, List.map_append, List.append_assoc]

/-- **Every migration that was written stands in a file of its own**, where none was before,
if nobody touches the migrations. -/
theorem writes (h : Calls c edit t gs t') (hedit : ∀ t t', edit t t' → t'.Rooted)
    (hkept : ∀ t t', edit t t' → c.KeepsMigrations t t') (hout : ¬c.Inside c.statePlace)
    (hrooted : t.Rooted) : c.Writes t (written gs) t' := by
  induction h with
  | nothing => exact .none fun _ _ _ _ hfile => hfile
  | edited _ hedited ih =>
    have h := ih.append (.none (hkept _ _ hedited))
    rwa [List.append_nil] at h
  | call hcalls hrun ih =>
    rw [written_append]
    exact ih.append ((touched hrun (hcalls.rooted hedit hout hrooted) hout).1.writes hout)

end Calls

/-- **A call that succeeded touches what it reports.**  The state is not inside the directory of
the migrations.  Then no file is made, changed or removed but that of the state, the one beside
it and, if it is to be persisted, the migration, which holds its whole text where nothing was;
what is saved is what was loaded, taken forward.

Over many calls, with whatever edits between them that leave the state alone, the history is
only added to, by one entry for every migration that was written.  If the edits leave the
migrations alone too, each of them stands in a file of its own. -/
theorem generate_touches (hout : ¬c.Inside c.statePlace) :
    (∀ {t t₁ : FileTree} {name : String} {createdAt : Stamp} {g : Generated}
        {notices : List Notice}, t.Rooted → generate t c name createdAt = (t₁, .ok g, notices) →
      Touched t c name createdAt g t₁)
    ∧ ∀ {edit : FileTree → FileTree → Prop},
      (∀ t t', edit t t' → t'.Rooted ∧ c.KeepsState t t') →
      ∀ {t t' : FileTree} {gs : List Generated} {s : SyncState}, t.Rooted →
        Calls c edit t gs t' → loadState t c = .ok s →
        (∃ s', loadState t' c = .ok s' ∧ s'.history = s.history ++ (written gs).map (·.record))
        ∧ ((∀ t t', edit t t' → c.KeepsMigrations t t') → c.Writes t (written gs) t') := by
  refine ⟨fun hrooted h => (touched h hrooted hout).1, ?_⟩
  intro edit hedit t t' gs s hrooted h hs
  exact ⟨h.history hedit hout hrooted hs,
    fun hkept => h.writes (fun t t' he => (hedit t t' he).1) hkept hout hrooted⟩

theorem seedTree_rooted : seedTree.Rooted := by
  intro place data hplace
  have hmem : (place, .file data)
      ∈ [("sql", .directory), ("sql/a.sql", Node.file (.text "SELECT 1;"))] :=
    PathMap.mem_of_mem_ofList (PathMap.get?_eq_some.1 (file?_eq_some.1 hplace))
  simp only [List.mem_cons, Prod.mk.injEq, reduceCtorEq, and_false, false_or, List.not_mem_nil,
    or_false] at hmem
  have hopen : seedTree.Open ["sql"] :=
    (Open.nil seedTree).concat (by unfold IsName; decide) (by decide +kernel)
  exact ⟨["sql"] ++ ["a.sql"], hmem.1, hopen.reached_concat (by unfold IsName; decide)⟩

/-- An edit that leaves the state and the migrations alone. -/
def Config.Spared (c : Config) (t t' : FileTree) : Prop :=
  t'.Rooted ∧ c.KeepsState t t' ∧ c.KeepsMigrations t t'

/-- With no settings given, two calls on the project of one statement: the first writes its
migration, the second has none to write. -/
theorem generate_touches_seed :
    ¬Config.Inside {} (Config.statePlace {}) ∧ seedTree.Rooted ∧ loadState seedTree {} = .ok {}
      ∧ ∃ t₁ t₂ g g₂ notices, generate seedTree {} seed.name seed.createdAt = (t₁, .ok g, notices)
        ∧ Touched seedTree {} seed.name seed.createdAt g t₁
        ∧ Calls {} (Config.Spared {}) seedTree [g, g₂] t₂
        ∧ written [g, g₂] = [g.migration]
        ∧ (∃ s, loadState t₂ {} = .ok s ∧ s.history = [g.migration.record])
        ∧ Config.Writes {} seedTree [g.migration] t₂ := by
  have hout : ¬Config.Inside {} (Config.statePlace {}) := by
    rintro ⟨below, -, hbelow⟩
    rw [show Config.statePlace {} = [".sqlsync", "state.json"] by decide +kernel,
      show Config.migrationsPlace {} = ["migrations"] by decide +kernel] at hbelow
    exact absurd (List.cons.inj hbelow).1 (by decide)
  obtain ⟨hone, hmany⟩ := generate_touches hout
  have hstate : loadState seedTree {} = .ok {} := by decide +kernel
  obtain ⟨g, notices, hrun, hmigration⟩ := generate_seed (c := {})
    "./migrations/20240301123000_first.sql" hstate (by decide +kernel) (by decide +kernel)
    (by decide +kernel)
  -- the second call behind the first
  obtain ⟨p, files, hran, -⟩ := ran hrun
  have hread := readSources_kept seedTree_named hran.staysOpen
    (hran.kept seedTree_named ⟨by decide, by decide⟩) hran.read
  have hsecond : checkMigrationName "second" = .ok () := by decide +kernel
  obtain ⟨t₂, m, notices₂, hrun₂, -⟩ := hran.again hread hsecond seed.createdAt
  have hcalls : Calls {} (Config.Spared {}) seedTree [g, ⟨m, none, 0⟩] t₂ :=
    .call (.call .nothing hrun) hrun₂
  have htouched := hone seedTree_rooted hrun
  have hwritten : written [g, ⟨m, none, 0⟩] = [g.migration] := by
    have hpersist : g.migration.shouldPersist = true := hmigration ▸ seed_persists
    rw [show [g, ⟨m, none, 0⟩] = [g] ++ [(⟨m, none, 0⟩ : Generated)] from rfl, written_append,
      htouched.written_eq, if_pos hpersist]
    rfl
  obtain ⟨⟨s, hs, hhistory⟩, hwrites⟩ :=
    hmany (fun _ _ h => ⟨h.1, h.2.1⟩) seedTree_rooted hcalls hstate
  rw [hwritten] at hhistory hwrites
  exact ⟨hout, seedTree_rooted, hstate, _, t₂, g, _, notices, hrun, htouched, hcalls, hwritten,
    ⟨s, hs, hhistory⟩, hwrites fun _ _ h => h.2.2⟩

end SchemaDrift
