/-
  SchemaDrift.Proofs.Snapshot.KeyRule
  ───────────────────────────────────
  **NO STATE COMES TO BREAK THE KEY RULE.**

  A column that is read from JSON is made to obey the key rule, and so is one that is read
  from a definition.  So a state that was loaded obeys it, whatever its file says
  (`SyncState.ofText_obeys`), and a snapshot does that was taken forward by files without
  error (`advance_obeys`).
-/

import SchemaDrift.Proofs.Change.Accepted
import SchemaDrift.Proofs.Snapshot.RoundTrip

namespace SchemaDrift

open SchemaDrift.Json

/-! ## §1. What is read from JSON. -/

theorem mem_of_mapM {α β : Type} {read : α → Option β} {l : List α} {l' : List β}
    (h : l.mapM read = some l') : ∀ b ∈ l', ∃ a ∈ l, read a = some b := by
  induction l generalizing l' with
  | nil =>
    cases h
    exact List.forall_mem_nil _
  | cons a l ih =>
    rw [List.mapM_cons] at h
    obtain ⟨b, hb, h⟩ := Option.bind_eq_some_iff.1 h
    obtain ⟨bs, hbs, h⟩ := Option.bind_eq_some_iff.1 h
    cases h
    refine List.forall_mem_cons.2 ⟨⟨a, List.mem_cons_self, hb⟩, ?_⟩
    intro b' hb'
    obtain ⟨a', ha', hread⟩ := ih hbs b' hb'
    exact ⟨a', List.mem_cons_of_mem _ ha', hread⟩

/-- What holds of all that can be read holds of the elements of a list. -/
theorem forall_mem_asList {α : Type} {read : Json → Option α} {P : α → Prop}
    (hread : ∀ {j a}, read j = some a → P a) {field : Option Json} {l : List α}
    (h : required? (asList? read) field = some l) : ∀ a ∈ l, P a := by
  obtain ⟨j, -, h⟩ := Option.bind_eq_some_iff.1 h
  intro a ha
  cases j with
  | array vs =>
    obtain ⟨v, -, hv⟩ := mem_of_mapM h a ha
    exact hread hv
  | _ => cases h

/-- What holds of all that can be read holds of the values of a map. -/
theorem forall_mem_asMap {α : Type} {read : Json → Option α} {P : α → Prop}
    (hread : ∀ {j a}, read j = some a → P a) {field : Option Json} {l : List (String × α)}
    (h : required? (asMap? read) field = some l) : ∀ e ∈ (PathMap.ofList l).entries, P e.2 := by
  obtain ⟨j, -, h⟩ := Option.bind_eq_some_iff.1 h
  intro e he
  cases j with
  | object ms =>
    obtain ⟨m, -, hm⟩ := mem_of_mapM h e (PathMap.mem_of_mem_ofList he)
    obtain ⟨a, ha, rfl⟩ := Option.map_eq_some_iff.1 hm
    exact hread ha
  | _ => cases h

/-- A column that is read obeys the key rule. -/
theorem Column.ofJson?_obeys {j : Json} {c : Column} (h : ofJson? j = some c) :
    c.ObeysKeyRule := by
  unfold ofJson? at h
  simp only [Option.bind_eq_bind, Option.bind_eq_some_iff] at h
  obtain ⟨fields, -, h⟩ := h
  split at h
  · simp only [Option.bind_eq_some_iff] at h
    obtain ⟨_, -, _, -, _, -, _, -, _, -, _, -, _, -, _, -, h⟩ := h
    rw [← Option.some.inj h]
    exact enforceKey_obeys _
  · cases h

theorem Table.ofJson?_obeys {j : Json} {t : Table} (h : ofJson? j = some t) :
    t.ObeysKeyRule := by
  unfold ofJson? at h
  simp only [Option.bind_eq_bind, Option.bind_eq_some_iff] at h
  obtain ⟨fields, -, h⟩ := h
  split at h
  · simp only [Option.bind_eq_some_iff] at h
    obtain ⟨_, -, _, -, columns, hcolumns, h⟩ := h
    rw [← Option.some.inj h]
    exact forall_mem_asList Column.ofJson?_obeys hcolumns
  · cases h

theorem DeclarativeRecord.ofJson?_obeys {j : Json} {r : DeclarativeRecord}
    (h : ofJson? j = some r) : ∀ t, r.table = some t → t.ObeysKeyRule := by
  unfold ofJson? at h
  simp only [Option.bind_eq_bind, Option.bind_eq_some_iff] at h
  obtain ⟨fields, -, h⟩ := h
  split at h
  · next rawHash statementHash field =>
    simp only [Option.bind_eq_some_iff] at h
    obtain ⟨_, -, _, -, table, htable, h⟩ := h
    rw [← Option.some.inj h]
    intro t ht
    rw [show table = some t from ht] at htable
    unfold optional? asOption? at htable
    split at htable
    · cases htable
    · split at htable
      · cases htable
      · obtain ⟨t', ht', heq⟩ := Option.map_eq_some_iff.1 htable
        cases heq
        exact Table.ofJson?_obeys ht'
  · cases h

theorem Record.ofJson?_obeys {j : Json} {r : Record} (h : ofJson? j = some r) :
    ∀ t, r.table? = some t → t.ObeysKeyRule := by
  unfold ofJson? at h
  split at h
  · cases h
  · simp only [Option.bind_eq_bind, Option.bind_eq_some_iff] at h
    obtain ⟨⟨kind, fields⟩, -, h⟩ := h
    dsimp only at h
    split at h
    · obtain ⟨values, -, h⟩ := Option.bind_eq_some_iff.1 h
      split at h
      · obtain ⟨_, -, h⟩ := Option.bind_eq_some_iff.1 h
        obtain ⟨_, -, h⟩ := Option.bind_eq_some_iff.1 h
        cases h
        intro t ht
        cases ht
      · cases h
    · obtain ⟨record, hrecord, h⟩ := Option.bind_eq_some_iff.1 h
      cases h
      exact DeclarativeRecord.ofJson?_obeys hrecord
    · cases h

theorem Snapshot.ofJson?_obeys {j : Json} {s : Snapshot} (h : ofJson? j = some s) :
    ∀ e ∈ s.files.entries, ∀ t, e.2.table? = some t → t.ObeysKeyRule := by
  unfold ofJson? at h
  simp only [Option.bind_eq_bind, Option.bind_eq_some_iff] at h
  obtain ⟨fields, -, h⟩ := h
  split at h
  · obtain ⟨files, hfiles, h⟩ := Option.bind_eq_some_iff.1 h
    rw [← Option.some.inj h]
    exact forall_mem_asMap Record.ofJson?_obeys hfiles
  · cases h

theorem MigrationRecord.ofJson?_obeys {j : Json} {m : MigrationRecord} (h : ofJson? j = some m) :
    ∀ e ∈ m.declarativeTables.entries, ∀ t, e.2.table = some t → t.ObeysKeyRule := by
  unfold ofJson? at h
  simp only [Option.bind_eq_bind, Option.bind_eq_some_iff] at h
  obtain ⟨fields, -, h⟩ := h
  split at h
  · simp only [Option.bind_eq_some_iff] at h
    obtain ⟨_, -, _, -, _, -, tables, htables, h⟩ := h
    rw [← Option.some.inj h]
    exact forall_mem_asMap DeclarativeRecord.ofJson?_obeys htables
  · cases h

/-! ## §2. States. -/

/-- A state obeys the key rule if all its records do. -/
theorem SyncState.obeysKeyRule_iff {s : SyncState} : s.ObeysKeyRule
    ↔ (∀ e ∈ s.snapshot.files.entries, ∀ t, e.2.table? = some t → t.ObeysKeyRule)
      ∧ ∀ m ∈ s.history, ∀ e ∈ m.declarativeTables.entries, ∀ t, e.2.table = some t →
          t.ObeysKeyRule := by
  unfold SyncState.ObeysKeyRule SyncState.tables PathMap.values
  constructor
  · intro h
    refine ⟨?_, ?_⟩
    · intro e he t ht
      exact h t (List.mem_append_left _
        (List.mem_filterMap.2 ⟨e.2, List.mem_map_of_mem he, ht⟩))
    · intro m hm e he t ht
      exact h t (List.mem_append_right _ (List.mem_flatMap.2
        ⟨m, hm, List.mem_filterMap.2 ⟨e.2, List.mem_map_of_mem he, ht⟩⟩))
  · intro ⟨hsnapshot, hhistory⟩ t ht
    rcases List.mem_append.1 ht with ht | ht
    · obtain ⟨r, hr, ht⟩ := List.mem_filterMap.1 ht
      obtain ⟨e, he, rfl⟩ := List.mem_map.1 hr
      exact hsnapshot e he t ht
    · obtain ⟨m, hm, ht⟩ := List.mem_flatMap.1 ht
      obtain ⟨r, hr, ht⟩ := List.mem_filterMap.1 ht
      obtain ⟨e, he, rfl⟩ := List.mem_map.1 hr
      exact hhistory m hm e he t ht

/-- **A state that was loaded obeys the key rule.** -/
theorem SyncState.ofText_obeys {text : String} {s : SyncState} (h : ofText text = .ok s) :
    s.ObeysKeyRule := by
  unfold ofText at h
  split at h
  · cases h
  · next version s' hs' =>
    obtain ⟨j, -, hj⟩ := Option.bind_eq_some_iff.1 hs'
    unfold ofJson? at hj
    simp only [Option.bind_eq_bind, Option.bind_eq_some_iff] at hj
    obtain ⟨fields, -, hj⟩ := hj
    have hstate : s' = s := by
      split at h
      · exact Except.ok.inj h
      · cases h
    rw [← hstate]
    split at hj
    · simp only [Option.bind_eq_some_iff] at hj
      obtain ⟨_, -, snapshot, hsnapshot, history, hhistory, hj⟩ := hj
      obtain ⟨-, rfl⟩ := Prod.mk.inj (Option.some.inj hj)
      obtain ⟨j', -, hsnapshot⟩ := Option.bind_eq_some_iff.1 hsnapshot
      -- the snapshot and the records of the history are read by readers that ensure the rule
      refine SyncState.obeysKeyRule_iff.2 ⟨Snapshot.ofJson?_obeys hsnapshot, ?_⟩
      unfold orElse? at hhistory
      split at hhistory
      · rw [← Option.some.inj hhistory]
        exact List.forall_mem_nil _
      · next j =>
        have hrequired : required? (asList? MigrationRecord.ofJson?) (some j) = some history :=
          hhistory
        exact forall_mem_asList MigrationRecord.ofJson?_obeys hrequired
    · cases hj

variable {files : List SourceFile}

/-- The tables of files that were read obey the key rule, and so do their records. -/
theorem advance_obeys (hok : ∀ f ∈ files, f.error? = none) (hpaths : (files.map (·.path)).Nodup)
    (hread : ∀ f ∈ files, ∃ text, SourceFile.read f.path text = .ok f) (s : Snapshot) :
    ∀ e ∈ (s.advance files).files.entries, ∀ t, e.2.table? = some t → t.ObeysKeyRule := by
  intro e he t ht
  obtain ⟨f, hf, hfe⟩ := List.mem_filterMap.1 ((advance_perm hok hpaths s).mem_iff.1 he)
  obtain ⟨r, hr, rfl⟩ := Option.map_eq_some_iff.1 hfe
  rcases ofFile_cases hr with ⟨-, hashes, rfl⟩ | ⟨-, hash, rfl⟩
  · cases ht
  · obtain ⟨text, hfile⟩ := hread f hf
    obtain ⟨st, -, hparse⟩ := (SourceFile.read_sound hfile).2 t ht
    exact Table.parse_obeys hparse

/-- So do the tables that are kept with a migration. -/
theorem declarativeTables_obeys {s : Snapshot}
    (h : ∀ e ∈ s.files.entries, ∀ t, e.2.table? = some t → t.ObeysKeyRule) :
    ∀ e ∈ s.declarativeTables.entries, ∀ t, e.2.table = some t → t.ObeysKeyRule := by
  intro e he t ht
  obtain ⟨⟨path, r⟩, hr, hrecord⟩ := List.mem_filterMap.1 he
  obtain ⟨record, hdeclared, rfl⟩ := Option.map_eq_some_iff.1 hrecord
  cases r with
  | plain rawHash hashes => cases hdeclared
  | declarative record' =>
    cases hdeclared
    exact h _ hr t ht

end SchemaDrift
