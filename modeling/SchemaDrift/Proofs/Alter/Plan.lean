/-
  SchemaDrift.Proofs.Alter.Plan
  ─────────────────────────────
  **THE FOUR GROUPS OF COLUMNS A DIFFERENCE IS MADE OF.**

  Between two tables a column is RENAMED, ADDED, DROPPED or KEPT.  Here the groups are
  lists of columns, no more of places in a table, and the steps from one table to the
  other are read off them:

      steps old new = renamings, added, dropped, kept        (`steps_eq`)

  If neither table has a name twice, the groups have no name in common: a renaming goes
  from a name that is gone to a name that is new, each used once (`renamings_apart`), and
  what is left of the gone and of the new names is dropped and added.  If the tables have
  the same columns, the groups leave nothing to do (`steps_eq_nil`).
-/

import Mathlib.Data.List.Nodup
import Mathlib.Logic.Function.Basic
import Mathlib.Tactic.Push
import SchemaDrift.Alter.Operation
import SchemaDrift.Proofs.Rename.Matching

namespace SchemaDrift.Alter

open SchemaDrift.Rename

/-! ## §1. The groups. -/

/-- A renaming: the column before and behind it, and the pairing it comes from. -/
structure Renaming where
  source : Column
  target : Column
  pairing : Pairing
  deriving Repr, DecidableEq

/-- The columns that a pairing names by their places. -/
def renaming? (old new : Table) (p : Pairing) : Option Renaming :=
  match old.columns[p.oldIndex]?, new.columns[p.newIndex]? with
  | some a, some b => some ⟨a, b, p⟩
  | _, _ => none

/-- The renamings from one table to another, in the order in which they are made. -/
def renamings (old new : Table) : List Renaming := (renames old new).filterMap (renaming? old new)

/-- The new columns that no renaming leads to. -/
def added (old new : Table) : List Column :=
  ((columnsBeside new old.columnNames).filter fun (j, _) =>
    !(renames old new).any (·.newIndex = j)).map (·.2)

/-- The old columns that no renaming starts from. -/
def dropped (old new : Table) : List Column :=
  ((columnsBeside old new.columnNames).filter fun (i, _) =>
    !(renames old new).any (·.oldIndex = i)).map (·.2)

/-- The columns of both tables, before and behind, in the order of the new table. -/
def kept (old new : Table) : List (Column × Column) :=
  new.columns.filterMap fun c => (old.column? c.name).map fun before => (before, c)

/-- The steps of a renaming. -/
def Renaming.steps (r : Renaming) : List Step :=
  .rename r.source r.target r.pairing :: modification r.source r.target true

/-- The steps of the columns that stay. -/
def keptSteps (old new : Table) : List Step :=
  (kept old new).flatMap fun p => modification p.1 p.2 false

/-! ## §2. The steps are read off the groups. -/

theorem renameSteps_eq (old new : Table) (p : Pairing) :
    renameSteps old new p = ((renaming? old new p).map Renaming.steps).getD [] := by
  unfold renameSteps renaming?
  cases old.columns[p.oldIndex]? <;> cases new.columns[p.newIndex]? <;> rfl

theorem flatMap_renameSteps (old new : Table) (ps : List Pairing) :
    ps.flatMap (renameSteps old new)
      = (ps.filterMap (renaming? old new)).flatMap Renaming.steps := by
  induction ps with
  | nil => rfl
  | cons p ps ih =>
    rw [List.flatMap_cons, ih, renameSteps_eq]
    cases h : renaming? old new p with
    | none => rw [List.filterMap_cons_none h]; rfl
    | some r => rw [List.filterMap_cons_some h, List.flatMap_cons]; rfl

theorem flatMap_kept (old : Table) (cs : List Column) :
    (cs.flatMap fun c => match old.column? c.name with
        | some before => modification before c false
        | none => [])
      = (cs.filterMap fun c => (old.column? c.name).map fun before => (before, c)).flatMap
          fun p => modification p.1 p.2 false := by
  induction cs with
  | nil => rfl
  | cons c cs ih =>
    rw [List.flatMap_cons, ih]
    cases h : old.column? c.name with
    | none => rw [List.filterMap_cons_none (by rw [h]; rfl)]; rfl
    | some before =>
      rw [List.filterMap_cons_some (b := (before, c)) (by rw [h]; rfl), List.flatMap_cons]

/-- **The steps from one table to another, group by group.** -/
theorem steps_eq (old new : Table) :
    steps old new = (renamings old new).flatMap Renaming.steps
      ++ (added old new).map .add ++ (dropped old new).map .drop ++ keptSteps old new := by
  unfold renamings added dropped keptSteps kept
  rw [← flatMap_renameSteps, ← flatMap_kept, List.map_map, List.map_map]
  rfl

/-! ## §3. Members of the groups. -/

theorem mem_columnsBeside {t : Table} {names : List String} {i : Nat} {c : Column} :
    (i, c) ∈ columnsBeside t names ↔ t.columns[i]? = some c ∧ c.name ∉ names := by
  unfold columnsBeside
  rw [List.mem_filter, List.mem_map]
  constructor
  · rintro ⟨⟨⟨c', i'⟩, hmem, heq⟩, hname⟩
    cases heq
    exact ⟨List.mem_zipIdx_iff_getElem?.1 hmem, by simpa using hname⟩
  · rintro ⟨hget, hname⟩
    exact ⟨⟨(c, i), List.mem_zipIdx_iff_getElem?.2 hget, rfl⟩, by simpa using hname⟩

/-- Both columns of a pairing exist, the one under a name that is gone and the other under
a name that is new. -/
theorem mem_renames {old new : Table} {p : Pairing} (h : p ∈ renames old new) :
    ∃ a b, old.columns[p.oldIndex]? = some a ∧ a.name ∉ new.columnNames
      ∧ new.columns[p.newIndex]? = some b ∧ b.name ∉ old.columnNames := by
  obtain ⟨⟨a, ha⟩, ⟨b, hb⟩⟩ := mem_matching h
  obtain ⟨hold, hgone⟩ := mem_columnsBeside.1 ha
  obtain ⟨hnew, hfresh⟩ := mem_columnsBeside.1 hb
  exact ⟨a, b, hold, hgone, hnew, hfresh⟩

theorem renaming?_eq_some {old new : Table} {p : Pairing} {r : Renaming} :
    renaming? old new p = some r ↔
      r.pairing = p ∧ old.columns[p.oldIndex]? = some r.source
        ∧ new.columns[p.newIndex]? = some r.target := by
  obtain ⟨a, b, q⟩ := r
  unfold renaming?
  cases old.columns[p.oldIndex]? with
  | none => simp
  | some a' =>
    cases new.columns[p.newIndex]? with
    | none => simp
    | some b' =>
      simp only [Option.some.injEq, Renaming.mk.injEq]
      constructor
      · rintro ⟨rfl, rfl, rfl⟩
        exact ⟨rfl, rfl, rfl⟩
      · rintro ⟨rfl, rfl, rfl⟩
        exact ⟨rfl, rfl, rfl⟩

theorem mem_renamings {old new : Table} {r : Renaming} :
    r ∈ renamings old new ↔ r.pairing ∈ renames old new
      ∧ old.columns[r.pairing.oldIndex]? = some r.source
      ∧ new.columns[r.pairing.newIndex]? = some r.target := by
  unfold renamings
  rw [List.mem_filterMap]
  constructor
  · rintro ⟨p, hp, hr⟩
    obtain ⟨rfl, hold, hnew⟩ := renaming?_eq_some.1 hr
    exact ⟨hp, hold, hnew⟩
  · rintro ⟨hp, hold, hnew⟩
    exact ⟨r.pairing, hp, renaming?_eq_some.2 ⟨rfl, hold, hnew⟩⟩

/-- A renaming leads from an old column whose name is gone to a new one whose name is
new. -/
theorem renaming_mem {old new : Table} {r : Renaming} (h : r ∈ renamings old new) :
    r.source ∈ old.columns ∧ r.source.name ∉ new.columnNames
      ∧ r.target ∈ new.columns ∧ r.target.name ∉ old.columnNames := by
  obtain ⟨hp, hold, hnew⟩ := mem_renamings.1 h
  obtain ⟨a, b, ha, hgone, hb, hfresh⟩ := mem_renames hp
  rw [hold] at ha
  rw [hnew] at hb
  cases ha
  cases hb
  exact ⟨List.mem_of_getElem? hold, hgone, List.mem_of_getElem? hnew, hfresh⟩

theorem mem_kept {old new : Table} {before c : Column} :
    (before, c) ∈ kept old new ↔ c ∈ new.columns ∧ old.column? c.name = some before := by
  unfold kept
  rw [List.mem_filterMap]
  constructor
  · rintro ⟨d, hd, hmap⟩
    obtain ⟨b, hb, heq⟩ := Option.map_eq_some_iff.1 hmap
    cases heq
    exact ⟨hd, hb⟩
  · rintro ⟨hc, hb⟩
    exact ⟨c, hc, by rw [hb]; rfl⟩

/-- Every step is of one of the groups. -/
theorem mem_steps {old new : Table} {s : Step} :
    s ∈ steps old new ↔ (∃ r ∈ renamings old new, s ∈ r.steps)
      ∨ (∃ c ∈ added old new, s = .add c) ∨ (∃ c ∈ dropped old new, s = .drop c)
      ∨ ∃ p ∈ kept old new, s ∈ modification p.1 p.2 false := by
  rw [steps_eq]
  unfold keptSteps
  simp only [List.mem_append, List.mem_flatMap, List.mem_map, or_assoc, eq_comm]

theorem mem_modification {s : Step} {a c : Column} {renamed : Bool} :
    s ∈ modification a c renamed ↔ columnChanges a c ≠ [] ∧ s = .modify a c renamed := by
  unfold modification
  by_cases h : columnChanges a c = []
  · simp [h]
  · simp [h]

theorem rename_mem_steps {old new : Table} {a b : Column} {p : Pairing} :
    .rename a b p ∈ steps old new ↔ ⟨a, b, p⟩ ∈ renamings old new := by
  rw [mem_steps]
  simp only [Renaming.steps, List.mem_cons, mem_modification, Step.rename.injEq, reduceCtorEq,
    and_false, or_false, exists_false]
  constructor
  · rintro ⟨r, hr, rfl, rfl, rfl⟩
    exact hr
  · exact fun hr => ⟨_, hr, rfl, rfl, rfl⟩

theorem add_mem_steps {old new : Table} {c : Column} :
    .add c ∈ steps old new ↔ c ∈ added old new := by
  rw [mem_steps]
  simp [Renaming.steps, mem_modification]

theorem drop_mem_steps {old new : Table} {c : Column} :
    .drop c ∈ steps old new ↔ c ∈ dropped old new := by
  rw [mem_steps]
  simp [Renaming.steps, mem_modification]

/-! ## §4. The groups have no name in common. -/

/-- In a table without a name twice, columns at different places have different names. -/
theorem index_eq_of_name_eq {t : Table} (ht : t.columnNames.Nodup) {i j : Nat} {a b : Column}
    (ha : t.columns[i]? = some a) (hb : t.columns[j]? = some b) (hab : a.name = b.name) :
    i = j := by
  have hi : t.columnNames[i]? = some a.name := by
    rw [Table.columnNames, List.getElem?_map, ha]; rfl
  have hj : t.columnNames[j]? = some b.name := by
    rw [Table.columnNames, List.getElem?_map, hb]; rfl
  obtain ⟨hlt, -⟩ := List.getElem?_eq_some_iff.1 hi
  exact (List.getElem?_inj hlt ht).1 (by rw [hi, hj, hab])

/-- In a table without a name twice, a name tells the column. -/
theorem column_eq_of_name_eq {t : Table} (ht : t.columnNames.Nodup) {a b : Column}
    (ha : a ∈ t.columns) (hb : b ∈ t.columns) (hab : a.name = b.name) : a = b := by
  obtain ⟨i, hi⟩ := List.mem_iff_getElem?.1 ha
  obtain ⟨j, hj⟩ := List.mem_iff_getElem?.1 hb
  have hij : i = j := index_eq_of_name_eq ht hi hj hab
  subst hij
  rw [hi] at hj
  exact Option.some.inj hj

/-- A column is found under its name. -/
theorem column?_name {t : Table} (ht : t.columnNames.Nodup) {c : Column} (hc : c ∈ t.columns) :
    t.column? c.name = some c := by
  unfold Table.column?
  cases h : t.columns.find? (·.name = c.name) with
  | none =>
    have := List.find?_eq_none.1 h c hc
    simp at this
  | some d =>
    have hname : d.name = c.name := by simpa using List.find?_some h
    rw [column_eq_of_name_eq ht (List.mem_of_find?_eq_some h) hc hname]

/-- A name of the table is the name of a column. -/
theorem column?_eq_some {t : Table} {name : String} {c : Column} (h : t.column? name = some c) :
    c ∈ t.columns ∧ c.name = name :=
  ⟨List.mem_of_find?_eq_some h, by simpa using List.find?_some h⟩

/-- A column of a table is the one that is found under its name. -/
theorem mem_columns_iff {t : Table} (ht : t.columnNames.Nodup) {c : Column} :
    c ∈ t.columns ↔ t.column? c.name = some c :=
  ⟨column?_name ht, fun h => (column?_eq_some h).1⟩

/-- A name under which no column is found is no name of the table. -/
theorem column?_eq_none {t : Table} {name : String} :
    t.column? name = none ↔ name ∉ t.columnNames := by
  unfold Table.column? Table.columnNames
  rw [List.find?_eq_none, List.mem_map]
  simp

variable {old new : Table}

/-- No name is renamed twice and none is given twice. -/
theorem renamings_apart (ho : old.columnNames.Nodup) (hn : new.columnNames.Nodup) :
    (renamings old new).Pairwise fun r q =>
      r.source.name ≠ q.source.name ∧ r.target.name ≠ q.target.name := by
  refine List.Pairwise.filterMap _ ?_ (matching_pairwise _ _)
  intro p p' hpp r hr q hq
  obtain ⟨-, hrold, hrnew⟩ := renaming?_eq_some.1 hr
  obtain ⟨-, hqold, hqnew⟩ := renaming?_eq_some.1 hq
  constructor
  · intro he
    exact hpp.1 (index_eq_of_name_eq ho hrold hqold he)
  · intro he
    exact hpp.2 (index_eq_of_name_eq hn hrnew hqnew he)

/-- The source of a renaming, or its target, tells the renaming. -/
theorem renaming_unique (ho : old.columnNames.Nodup) (hn : new.columnNames.Nodup)
    {r q : Renaming} (hr : r ∈ renamings old new) (hq : q ∈ renamings old new)
    (h : r.source.name = q.source.name ∨ r.target.name = q.target.name) : r = q := by
  have hapart := renamings_apart ho hn
  refine List.Pairwise.forall_of_forall_of_flip (l := renamings old new)
    (R := fun a b => a.source.name = b.source.name ∨ a.target.name = b.target.name → a = b)
    (fun _ _ _ => rfl) (hapart.imp ?_) (hapart.imp ?_) hr hq h
  · intro a b hab hname
    exact absurd hname (not_or.2 hab)
  · intro a b hab hname
    exact absurd hname (not_or.2 ⟨Ne.symm hab.1, Ne.symm hab.2⟩)

/-- The columns beside some names that no pair takes are those whose name no renaming takes, the
pairs telling columns by their index and the renamings by their name. -/
theorem mem_unpaired {t : Table} {names : List String} {rs : List Renaming} (taken : Nat → Bool)
    (side : Renaming → Column) (htaken : ∀ {i : Nat} {c : Column}, t.columns[i]? = some c →
      (taken i = true ↔ ∃ r ∈ rs, (side r).name = c.name)) {c : Column} :
    c ∈ ((columnsBeside t names).filter fun e => !taken e.1).map (·.2)
      ↔ c ∈ t.columns ∧ c.name ∉ names ∧ ∀ r ∈ rs, (side r).name ≠ c.name := by
  have hfree : ∀ {i : Nat}, t.columns[i]? = some c →
      ((!taken i) = true ↔ ∀ r ∈ rs, (side r).name ≠ c.name) := by
    intro i hi
    rw [Bool.not_eq_true', ← Bool.not_eq_true, htaken hi]
    simp
  rw [List.mem_map]
  constructor
  · rintro ⟨⟨i, d⟩, hd, rfl⟩
    obtain ⟨hbeside, hnot⟩ := List.mem_filter.1 hd
    obtain ⟨hget, hname⟩ := mem_columnsBeside.1 hbeside
    exact ⟨List.mem_of_getElem? hget, hname, (hfree hget).1 hnot⟩
  · rintro ⟨hc, hname, hnot⟩
    obtain ⟨i, hi⟩ := List.mem_iff_getElem?.1 hc
    exact ⟨(i, c), List.mem_filter.2 ⟨mem_columnsBeside.2 ⟨hi, hname⟩, (hfree hi).2 hnot⟩, rfl⟩

/-- A new column is added when its name is new and no renaming leads to it. -/
theorem mem_added (hn : new.columnNames.Nodup) {c : Column} :
    c ∈ added old new ↔ c ∈ new.columns ∧ c.name ∉ old.columnNames
      ∧ ∀ r ∈ renamings old new, r.target.name ≠ c.name := by
  refine mem_unpaired (fun j => (renames old new).any (·.newIndex = j)) Renaming.target
    fun {j d} hj => ?_
  rw [List.any_eq_true]
  constructor
  · rintro ⟨p, hp, hpj⟩
    obtain ⟨a, b, ha, -, hb, -⟩ := mem_renames hp
    refine ⟨⟨a, b, p⟩, mem_renamings.2 ⟨hp, ha, hb⟩, ?_⟩
    rw [of_decide_eq_true hpj, hj] at hb
    rw [Option.some.inj hb]
  · rintro ⟨r, hr, hname⟩
    obtain ⟨hp, -, hnew⟩ := mem_renamings.1 hr
    exact ⟨r.pairing, hp, decide_eq_true (index_eq_of_name_eq hn hnew hj hname)⟩

/-- An old column is dropped when its name is gone and no renaming starts from it. -/
theorem mem_dropped (ho : old.columnNames.Nodup) {c : Column} :
    c ∈ dropped old new ↔ c ∈ old.columns ∧ c.name ∉ new.columnNames
      ∧ ∀ r ∈ renamings old new, r.source.name ≠ c.name := by
  refine mem_unpaired (fun i => (renames old new).any (·.oldIndex = i)) Renaming.source
    fun {i d} hi => ?_
  rw [List.any_eq_true]
  constructor
  · rintro ⟨p, hp, hpi⟩
    obtain ⟨a, b, ha, -, hb, -⟩ := mem_renames hp
    refine ⟨⟨a, b, p⟩, mem_renamings.2 ⟨hp, ha, hb⟩, ?_⟩
    rw [of_decide_eq_true hpi, hi] at ha
    rw [Option.some.inj ha]
  · rintro ⟨r, hr, hname⟩
    obtain ⟨hp, hold, -⟩ := mem_renamings.1 hr
    exact ⟨r.pairing, hp, decide_eq_true (index_eq_of_name_eq ho hold hi hname)⟩

/-- The columns beside some names are columns of the table, in its order. -/
theorem columnsBeside_sublist (t : Table) (names : List String) :
    ((columnsBeside t names).map (·.2)).Sublist t.columns := by
  have hbeside := List.Sublist.map Prod.snd (List.filter_sublist (l := t.columns.zipIdx.map Prod.swap)
    (p := fun e => !names.contains e.2.name))
  have hfull : (t.columns.zipIdx.map Prod.swap).map (·.2) = t.columns := by
    rw [List.map_map]
    exact List.zipIdx_map_fst 0 t.columns
  rw [hfull] at hbeside
  exact hbeside

theorem added_names_nodup (hn : new.columnNames.Nodup) :
    ((added old new).map (·.name)).Nodup := by
  refine hn.sublist (List.Sublist.map _ ?_)
  exact (List.filter_sublist.map _).trans (columnsBeside_sublist new _)

theorem dropped_names_nodup (ho : old.columnNames.Nodup) :
    ((dropped old new).map (·.name)).Nodup := by
  refine ho.sublist (List.Sublist.map _ ?_)
  exact (List.filter_sublist.map _).trans (columnsBeside_sublist old _)

/-- No name is kept twice. -/
theorem kept_names_nodup (hn : new.columnNames.Nodup) :
    ((kept old new).map (·.2.name)).Nodup := by
  unfold List.Nodup
  rw [List.pairwise_map]
  refine List.Pairwise.filterMap _ ?_ (List.pairwise_map.1 hn)
  intro c d hcd p hp q hq
  obtain ⟨-, -, rfl⟩ := Option.map_eq_some_iff.1 hp
  obtain ⟨-, -, rfl⟩ := Option.map_eq_some_iff.1 hq
  exact hcd

/-- The names a renaming is about. -/
def Renaming.names (r : Renaming) : List String := [r.source.name, r.target.name]

/-- The names that the steps from one table to another are about, group by group. -/
def touchedNames (old new : Table) : List String :=
  (renamings old new).flatMap Renaming.names ++ (added old new).map (·.name)
    ++ (dropped old new).map (·.name) ++ (kept old new).map (·.2.name)

theorem renaming_names_nodup (ho : old.columnNames.Nodup) (hn : new.columnNames.Nodup) :
    ((renamings old new).flatMap Renaming.names).Nodup := by
  rw [List.nodup_flatMap]
  constructor
  · intro r hr
    obtain ⟨hsource, -, -, hfresh⟩ := renaming_mem hr
    have hne : r.source.name ≠ r.target.name := by
      intro he
      exact hfresh (he ▸ List.mem_map_of_mem hsource)
    simpa [Renaming.names] using hne
  · refine (renamings_apart ho hn).imp_of_mem ?_
    intro r q hr hq hrq
    obtain ⟨hrs, hrgone, hrt, hrfresh⟩ := renaming_mem hr
    obtain ⟨hqs, hqgone, hqt, hqfresh⟩ := renaming_mem hq
    have hst : r.source.name ≠ q.target.name := by
      intro he
      exact hqfresh (he ▸ List.mem_map_of_mem hrs)
    have hts : r.target.name ≠ q.source.name := by
      intro he
      exact hrfresh (he ▸ List.mem_map_of_mem hqs)
    simp [Function.onFun, Renaming.names, List.disjoint_left, hrq.1, hrq.2, hst, hts]

/-- **The steps from one table to another touch no name twice.** -/
theorem touchedNames_nodup (ho : old.columnNames.Nodup) (hn : new.columnNames.Nodup) :
    (touchedNames old new).Nodup := by
  have hkept : ∀ name ∈ (kept old new).map (·.2.name),
      name ∈ old.columnNames ∧ name ∈ new.columnNames := by
    intro name hname
    obtain ⟨⟨before, c⟩, hc, rfl⟩ := List.mem_map.1 hname
    obtain ⟨hnew, hold⟩ := mem_kept.1 hc
    obtain ⟨hb, hbn⟩ := column?_eq_some hold
    exact ⟨hbn ▸ List.mem_map_of_mem hb, List.mem_map_of_mem hnew⟩
  unfold touchedNames
  refine List.Nodup.append (List.Nodup.append (List.Nodup.append
    (renaming_names_nodup ho hn) (added_names_nodup hn) ?_) (dropped_names_nodup ho) ?_)
    (kept_names_nodup hn) ?_
  · -- an added column is new, and no rename leads to it
    intro name hr ha
    obtain ⟨c, hc, rfl⟩ := List.mem_map.1 ha
    obtain ⟨-, hfresh, hfree⟩ := (mem_added hn).1 hc
    obtain ⟨r, hr, hname⟩ := List.mem_flatMap.1 hr
    obtain ⟨hsource, -, -, -⟩ := renaming_mem hr
    rcases List.mem_pair.1 hname with he | he
    · exact hfresh (he ▸ List.mem_map_of_mem hsource)
    · exact hfree r hr he.symm
  · -- a dropped column is gone, and no rename starts from it
    intro name hra hd
    obtain ⟨c, hc, rfl⟩ := List.mem_map.1 hd
    obtain ⟨hold, hgone, hfree⟩ := (mem_dropped ho).1 hc
    rcases List.mem_append.1 hra with hr | ha
    · obtain ⟨r, hr, hname⟩ := List.mem_flatMap.1 hr
      obtain ⟨-, -, htarget, -⟩ := renaming_mem hr
      rcases List.mem_pair.1 hname with he | he
      · exact hfree r hr he.symm
      · exact hgone (he ▸ List.mem_map_of_mem htarget)
    · obtain ⟨a, ha, he⟩ := List.mem_map.1 ha
      obtain ⟨hnew, -, -⟩ := (mem_added hn).1 ha
      exact hgone (he ▸ List.mem_map_of_mem hnew)
  · -- a kept column is in both tables
    intro name hrad hk
    obtain ⟨hold, hnew⟩ := hkept name hk
    rcases List.mem_append.1 hrad with hra | hd
    · rcases List.mem_append.1 hra with hr | ha
      · obtain ⟨r, hr, hname⟩ := List.mem_flatMap.1 hr
        obtain ⟨-, hgone, -, hfresh⟩ := renaming_mem hr
        rcases List.mem_pair.1 hname with he | he
        · exact hgone (he ▸ hnew)
        · exact hfresh (he ▸ hold)
      · obtain ⟨a, ha, he⟩ := List.mem_map.1 ha
        obtain ⟨-, hfresh, -⟩ := (mem_added hn).1 ha
        exact hfresh (he ▸ hold)
    · obtain ⟨a, ha, he⟩ := List.mem_map.1 hd
      obtain ⟨-, hgone, -⟩ := (mem_dropped ho).1 ha
      exact hgone (he ▸ hnew)

/-- **The steps from one table to another touch every name of either table.** -/
theorem mem_touchedNames (ho : old.columnNames.Nodup) (hn : new.columnNames.Nodup)
    {name : String} (h : name ∈ old.columnNames ∨ name ∈ new.columnNames) :
    name ∈ touchedNames old new := by
  unfold touchedNames
  simp only [List.mem_append, List.mem_flatMap, or_assoc]
  by_cases hold : name ∈ old.columnNames
  · obtain ⟨b, hb, rfl⟩ := List.mem_map.1 hold
    by_cases hnew : b.name ∈ new.columnNames
    · obtain ⟨c, hc, hcb⟩ := List.mem_map.1 hnew
      have hmem : (b, c) ∈ kept old new := mem_kept.2 ⟨hc, by rw [hcb, column?_name ho hb]⟩
      exact Or.inr (Or.inr (Or.inr (hcb ▸ List.mem_map_of_mem hmem)))
    · by_cases hfree : ∀ r ∈ renamings old new, r.source.name ≠ b.name
      · have hmem : b ∈ dropped old new := (mem_dropped ho).2 ⟨hb, hnew, hfree⟩
        exact Or.inr (Or.inr (Or.inl (List.mem_map_of_mem hmem)))
      · push Not at hfree
        obtain ⟨r, hr, hname⟩ := hfree
        exact Or.inl ⟨r, hr, hname ▸ List.mem_cons_self⟩
  · have hnew : name ∈ new.columnNames := h.resolve_left hold
    obtain ⟨c, hc, rfl⟩ := List.mem_map.1 hnew
    by_cases hfree : ∀ r ∈ renamings old new, r.target.name ≠ c.name
    · have hmem : c ∈ added old new := (mem_added hn).2 ⟨hc, hold, hfree⟩
      exact Or.inr (Or.inl (List.mem_map_of_mem hmem))
    · push Not at hfree
      obtain ⟨r, hr, hname⟩ := hfree
      exact Or.inl ⟨r, hr, hname ▸ List.mem_cons_of_mem _ List.mem_cons_self⟩

/-! ## §5. Tables of the same columns. -/

theorem columnChanges_self (c : Column) : columnChanges c c = [] := by
  unfold columnChanges
  rw [List.filter_eq_nil_iff]
  intro change _
  cases change <;> simp [ColumnChange.holds]

/-- All names of the columns are among the names. -/
theorem columnsBeside_eq_nil {t : Table} {names : List String}
    (h : ∀ c ∈ t.columns, c.name ∈ names) : columnsBeside t names = [] := by
  rw [List.eq_nil_iff_forall_not_mem]
  intro e he
  obtain ⟨hget, hname⟩ := mem_columnsBeside.1 (show (e.1, e.2) ∈ _ from he)
  exact hname (h _ (List.mem_of_getElem? hget))

/-- **No step leads from a table to one of the same columns**, in whatever order they stand. -/
theorem steps_eq_nil (hn : new.columnNames.Nodup)
    (h : ∀ c, c ∈ old.columns ↔ c ∈ new.columns) : steps old new = [] := by
  have hgone : columnsBeside old new.columnNames = [] :=
    columnsBeside_eq_nil fun c hc => List.mem_map_of_mem ((h c).1 hc)
  have hfresh : columnsBeside new old.columnNames = [] :=
    columnsBeside_eq_nil fun c hc => List.mem_map_of_mem ((h c).2 hc)
  have hrenames : renames old new = [] := by
    rw [List.eq_nil_iff_forall_not_mem]
    intro p hp
    obtain ⟨a, b, ha, hname, -⟩ := mem_renames hp
    exact hname (List.mem_map_of_mem ((h a).1 (List.mem_of_getElem? ha)))
  have hkept : keptSteps old new = [] := by
    unfold keptSteps
    rw [List.flatMap_eq_nil_iff]
    intro p hp
    -- what is found under the name of a column is that column, so it is compared with itself
    obtain ⟨hc, hfind⟩ := mem_kept.1 (show (p.1, p.2) ∈ _ from hp)
    obtain ⟨hbefore, hname⟩ := column?_eq_some hfind
    have hsame : p.1 = p.2 := column_eq_of_name_eq hn ((h p.1).1 hbefore) hc hname
    unfold modification
    rw [hsame, columnChanges_self]
    rfl
  rw [steps_eq, hkept]
  unfold renamings added dropped
  rw [hrenames, hgone, hfresh]
  rfl

end SchemaDrift.Alter
