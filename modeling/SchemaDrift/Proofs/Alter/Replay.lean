/-
  SchemaDrift.Proofs.Alter.Replay
  ───────────────────────────────
  **REPLAYED ON THE OLD COLUMNS, A DIFFERENCE LEADS TO THE NEW ONES.**

  A replay performs the operations of a difference on the columns of a table, where an
  operation that finds a column missing, or in its way, cannot be performed:

      rename    the source is there and the target is not
      add       no column of the name is there
      drop      the column is there
      modify    the column is there, and takes over the changes that are listed

  The replay of `diff old new` never stops, and leaves the columns of `new`
  (`replay_diff`).  One thing may stay behind: where a column differs only in its part in
  the primary key and the key is dropped already, there is no statement left to make.

  The groups of columns touch no name twice, so each can be replayed by itself
  (`Settles`), and what one group leaves is what the next one finds.
-/

import SchemaDrift.Proofs.Alter.Operations
import SchemaDrift.Proofs.Alter.Plan

namespace SchemaDrift.Alter

/-! ## §1. The attributes of a column. -/

/-- What is declared of a column besides its name. -/
structure Attributes where
  dataType : String
  nullable : Bool
  defaultExpr : Option String
  inPrimaryKey : Bool
  explicitlyUnique : Bool
  foreignKey : Option ForeignKey
  checkExpr : Option String
  deriving Repr, DecidableEq

/-- The attributes of a column. -/
def attributes (c : Column) : Attributes where
  dataType := c.dataType
  nullable := c.nullable
  defaultExpr := c.defaultExpr
  inPrimaryKey := c.inPrimaryKey
  explicitlyUnique := explicitUnique c
  foreignKey := c.foreignKey
  checkExpr := c.checkExpr

/-- The attributes with the one that `change` is about taken over from `source`. -/
def Attributes.take (source a : Attributes) (change : ColumnChange) : Attributes :=
  match change with
  | .type => { a with dataType := source.dataType }
  | .nullability => { a with nullable := source.nullable }
  | .default => { a with defaultExpr := source.defaultExpr }
  | .primaryKey => { a with inPrimaryKey := source.inPrimaryKey }
  | .unique => { a with explicitlyUnique := source.explicitlyUnique }
  | .foreignKey => { a with foreignKey := source.foreignKey }
  | .check => { a with checkExpr := source.checkExpr }

/-- Of an attribute that does not differ, old and new column give the same. -/
theorem take_of_not_holds {old new : Column} {change : ColumnChange}
    (h : change.holds old new = false) (a : Attributes) :
    (attributes new).take a change = (attributes old).take a change := by
  cases change <;> simp_all [ColumnChange.holds, Attributes.take, attributes]

/-- **What changes about a column is all that has to be taken over.** -/
theorem take_columnChanges (old new : Column) :
    (columnChanges old new).foldl (attributes new).take (attributes old) = attributes new := by
  -- an attribute of `old` that is still there is taken over whether it is listed or not
  have htake : ∀ change a, (attributes old).take a change = a →
      (if change.holds old new then (attributes new).take a change else a)
        = (attributes new).take a change := by
    intro change a ha
    by_cases h : change.holds old new = true
    · rw [if_pos h]
    · rw [if_neg h, take_of_not_holds (by simpa using h), ha]
  unfold columnChanges
  rw [List.foldl_filter]
  simp only [List.foldl_cons, List.foldl_nil]
  rw [htake .type _ rfl, htake .nullability _ rfl, htake .default _ rfl,
    htake .primaryKey _ rfl, htake .unique _ rfl, htake .foreignKey _ rfl, htake .check _ rfl]
  rfl

/-- Columns without a change have the same attributes. -/
theorem attributes_eq_of_columnChanges_nil {old new : Column} (h : columnChanges old new = []) :
    attributes old = attributes new := by
  have htake := take_columnChanges old new
  rw [h] at htake
  exact htake

/-- Columns that differ only in their part in the primary key. -/
theorem attributes_of_columnChanges_key {old new : Column}
    (h : columnChanges old new = [.primaryKey]) :
    attributes old = { attributes new with inPrimaryKey := old.inPrimaryKey } := by
  have htake := take_columnChanges old new
  rw [h] at htake
  rw [← htake]
  rfl

/-! ## §2. Replays. -/

/-- The columns of a table while it is altered: what is under a name, if anything is. -/
abbrev Columns := String → Option Attributes

/-- The columns of a table. -/
def columnsOf (t : Table) : Columns := fun name => (t.column? name).map attributes

/-- What an operation does to the columns; what it adds or takes over comes from `new`. -/
def perform (new : Table) (cols : Columns) : OperationKind → Option Columns
  | .rename source target _ _ =>
    match cols source, cols target with
    | some a, none => some (Function.update (Function.update cols source none) target (some a))
    | _, _ => none
  | .add name =>
    match new.column? name, cols name with
    | some c, none => some (Function.update cols name (some (attributes c)))
    | _, _ => none
  | .drop name =>
    match cols name with
    | some _ => some (Function.update cols name none)
    | none => none
  | .modify name changes =>
    match new.column? name, cols name with
    | some c, some a =>
      some (Function.update cols name (some (changes.foldl (attributes c).take a)))
    | _, _ => none

/-- The operations performed one behind the other. -/
def replay (new : Table) (cols : Columns) (kinds : List OperationKind) : Option Columns :=
  kinds.foldlM (perform new) cols

theorem replay_cons {new : Table} {cols mid : Columns} {k : OperationKind}
    {ks : List OperationKind} (h : perform new cols k = some mid) :
    replay new cols (k :: ks) = replay new mid ks := by
  unfold replay
  rw [List.foldlM_cons, h]
  rfl

theorem replay_append {new : Table} {cols mid : Columns} {xs ys : List OperationKind}
    (h : replay new cols xs = some mid) : replay new cols (xs ++ ys) = replay new mid ys := by
  unfold replay at h ⊢
  rw [List.foldlM_append, h]
  rfl

/-! ## §3. One group of columns. -/

/-- What may stand under a name when the steps about it are replayed: the column of `new`,
or what there was if only its part in the primary key differs. -/
def Reached (old new : Table) (name : String) (a : Option Attributes) : Prop :=
  a = columnsOf new name ∨ ∃ before c, old.column? name = some before
    ∧ new.column? name = some c ∧ columnChanges before c = [.primaryKey]
    ∧ a = some (attributes before)

/-- The steps, replayed where the columns under `names` are those of `old`, lead to those
of `new` and leave all others. -/
def Settles (old new : Table) (t : Target) (names : List String) (ss : List Step) : Prop :=
  ∀ d cols, (∀ name ∈ names, cols name = columnsOf old name) →
    ∃ final, replay new cols (t.kinds d ss) = some final
      ∧ (∀ name ∈ names, Reached old new name (final name))
      ∧ ∀ name, name ∉ names → final name = cols name

variable {old new : Table} {t : Target}

theorem settles_nil : Settles old new t [] [] := by
  intro d cols _
  exact ⟨cols, rfl, by simp, by simp⟩

/-- **Groups without a name in common are replayed one behind the other.** -/
theorem Settles.append {ns ms : List String} {xs ys : List Step}
    (hx : Settles old new t ns xs) (hy : Settles old new t ms ys) (hd : ns.Disjoint ms) :
    Settles old new t (ns ++ ms) (xs ++ ys) := by
  intro d cols hcols
  obtain ⟨mid, hrun, hreached, hframe⟩ := hx d cols
    (fun name h => hcols name (List.mem_append_left _ h))
  have hmid : ∀ name ∈ ms, mid name = columnsOf old name := by
    intro name h
    rw [hframe name (fun hn => hd hn h)]
    exact hcols name (List.mem_append_right _ h)
  obtain ⟨final, hrun', hreached', hframe'⟩ := hy (d || xs.any Target.touchesKey) mid hmid
  refine ⟨final, ?_, ?_, ?_⟩
  · rw [Target.kinds_append, replay_append hrun, hrun']
  · intro name h
    rcases List.mem_append.1 h with hn | hm
    · rw [hframe' name (fun hm => hd hn hm)]
      exact hreached name hn
    · exact hreached' name hm
  · intro name h
    rw [hframe' name (fun hm => h (List.mem_append_right _ hm)),
      hframe name (fun hn => h (List.mem_append_left _ hn))]

/-- A list of groups without a name twice. -/
theorem settles_flatMap {α : Type} (names : α → List String) (steps : α → List Step)
    (l : List α) (h : ∀ x ∈ l, Settles old new t (names x) (steps x))
    (hnodup : (l.flatMap names).Nodup) :
    Settles old new t (l.flatMap names) (l.flatMap steps) := by
  induction l with
  | nil => exact settles_nil
  | cons x l ih =>
    rw [List.flatMap_cons] at hnodup ⊢
    obtain ⟨-, hrest, hdisjoint⟩ := List.nodup_append'.1 hnodup
    exact (h x List.mem_cons_self).append
      (ih (fun y hy => h y (List.mem_cons_of_mem _ hy)) hrest) hdisjoint

/-! ## §4. The steps about one column. -/

theorem columnsOf_of_mem {u : Table} (hu : u.columnNames.Nodup) {c : Column}
    (hc : c ∈ u.columns) : columnsOf u c.name = some (attributes c) := by
  unfold columnsOf
  rw [column?_name hu hc]
  rfl

theorem columnsOf_of_not_mem {u : Table} {name : String} (h : name ∉ u.columnNames) :
    columnsOf u name = none := by
  unfold columnsOf
  rw [column?_eq_none.2 h]
  rfl

/-- A column that is added. -/
theorem settles_add (hn : new.columnNames.Nodup) {c : Column} (hc : c ∈ new.columns)
    (hfresh : c.name ∉ old.columnNames) : Settles old new t [c.name] [.add c] := by
  intro d cols hcols
  have hnone : cols c.name = none := by
    rw [hcols c.name List.mem_cons_self, columnsOf_of_not_mem hfresh]
  have hadd : perform new cols (.add c.name)
      = some (Function.update cols c.name (some (attributes c))) := by
    simp only [perform, column?_name hn hc, hnone]
  refine ⟨_, replay_cons hadd, ?_, ?_⟩
  · intro name h
    rw [List.mem_singleton.1 h, Function.update_self]
    exact Or.inl (columnsOf_of_mem hn hc).symm
  · intro name h
    exact Function.update_of_ne (fun he => h (List.mem_singleton.2 he)) _ _

/-- A column that is dropped. -/
theorem settles_drop (ho : old.columnNames.Nodup) {c : Column} (hc : c ∈ old.columns)
    (hgone : c.name ∉ new.columnNames) : Settles old new t [c.name] [.drop c] := by
  intro d cols hcols
  have hsome : cols c.name = some (attributes c) := by
    rw [hcols c.name List.mem_cons_self, columnsOf_of_mem ho hc]
  have hdrop : perform new cols (.drop c.name) = some (Function.update cols c.name none) := by
    simp only [perform, hsome]
  refine ⟨_, replay_cons hdrop, ?_, ?_⟩
  · intro name h
    rw [List.mem_singleton.1 h, Function.update_self]
    exact Or.inl (columnsOf_of_not_mem hgone).symm
  · intro name h
    exact Function.update_of_ne (fun he => h (List.mem_singleton.2 he)) _ _

/-- A modification makes a column what it is in `new`. -/
theorem perform_modify (hn : new.columnNames.Nodup) {a c : Column} (hc : c ∈ new.columns)
    {cols : Columns} (hcols : cols c.name = some (attributes a)) :
    perform new cols (.modify c.name (columnChanges a c))
      = some (Function.update cols c.name (some (attributes c))) := by
  simp only [perform, column?_name hn hc, hcols, take_columnChanges]

/-- Every change but that of the key takes a statement. -/
theorem modify_ne_nil {d : Bool} {a c : Column} {changes : List ColumnChange}
    {change : ColumnChange} (hmem : change ∈ changes) (hkey : change ≠ .primaryKey) :
    t.modify d a c changes ≠ [] := by
  intro hnil
  unfold Target.modify at hnil
  obtain ⟨hfront, -⟩ := List.append_eq_nil_iff.1 hnil
  obtain ⟨hdrops, hplace⟩ := List.append_eq_nil_iff.1 hfront
  have hdrop := List.flatMap_eq_nil_iff.1 hdrops change hmem
  have hinPlace := List.flatMap_eq_nil_iff.1 hplace change hmem
  rw [if_neg hkey] at hdrop
  cases change with
  | type => simp [Target.inPlace] at hinPlace
  | nullability => simp [Target.inPlace] at hinPlace
  | default => cases hd : c.defaultExpr <;> simp [Target.inPlace, hd] at hinPlace
  | primaryKey => exact hkey rfl
  | unique => simp [Target.dropConstraint, Target.constraint?] at hdrop
  | foreignKey => simp [Target.dropConstraint, Target.constraint?] at hdrop
  | check => simp [Target.dropConstraint, Target.constraint?] at hdrop

/-- No change is listed twice. -/
theorem columnChanges_nodup (a c : Column) : (columnChanges a c).Nodup := by
  unfold columnChanges
  exact List.Nodup.filter _ (by decide)

/-- **A modification is left out only where nothing but the key changes.** -/
theorem columnChanges_of_omitted {d renamed : Bool} {a c : Column}
    (hchanges : columnChanges a c ≠ [])
    (h : Target.isOmitted (.modify a c renamed) (t.operation d (.modify a c renamed)) = true) :
    renamed = false ∧ columnChanges a c = [.primaryKey] := by
  obtain ⟨hrenamed, hsql⟩ := Bool.and_eq_true_iff.1 h
  have hnil : t.modify d a c (columnChanges a c) = [] := List.isEmpty_iff.1 hsql
  have hall : ∀ change ∈ columnChanges a c, change = .primaryKey := by
    intro change hmem
    by_contra hkey
    exact modify_ne_nil hmem hkey hnil
  refine ⟨by simpa using hrenamed, ?_⟩
  have hnodup := columnChanges_nodup a c
  cases hlist : columnChanges a c with
  | nil => exact absurd hlist hchanges
  | cons x rest =>
    rw [hlist] at hall hnodup
    cases rest with
    | nil => rw [hall x List.mem_cons_self]
    | cons y rest =>
      have hx := hall x List.mem_cons_self
      have hy := hall y (List.mem_cons_of_mem _ List.mem_cons_self)
      rw [hx, hy] at hnodup
      simp at hnodup

/-- A column that keeps its name. -/
theorem settles_kept (hn : new.columnNames.Nodup) {before c : Column} (hc : c ∈ new.columns)
    (hbefore : old.column? c.name = some before) :
    Settles old new t [c.name] (modification before c false) := by
  intro d cols hcols
  have hsome : cols c.name = some (attributes before) := by
    rw [hcols c.name List.mem_cons_self, columnsOf, hbefore]
    rfl
  unfold modification
  by_cases hnil : columnChanges before c = []
  · rw [hnil]
    refine ⟨cols, rfl, ?_, fun name _ => rfl⟩
    intro name h
    rw [List.mem_singleton.1 h, hsome, attributes_eq_of_columnChanges_nil hnil]
    exact Or.inl (columnsOf_of_mem hn hc).symm
  · rw [if_neg (by simpa using hnil), Target.kinds_cons]
    by_cases homit : Target.isOmitted (.modify before c false)
        (t.operation d (.modify before c false)) = true
    · obtain ⟨-, hkey⟩ := columnChanges_of_omitted hnil homit
      rw [if_pos homit]
      refine ⟨cols, rfl, ?_, fun name _ => rfl⟩
      intro name h
      rw [List.mem_singleton.1 h]
      exact Or.inr ⟨before, c, hbefore, column?_name hn hc, hkey, hsome⟩
    · rw [if_neg homit]
      refine ⟨_, replay_cons (perform_modify hn hc hsome), ?_, ?_⟩
      · intro name h
        rw [List.mem_singleton.1 h, Function.update_self]
        exact Or.inl (columnsOf_of_mem hn hc).symm
      · intro name h
        exact Function.update_of_ne (fun he => h (List.mem_singleton.2 he)) _ _

/-- A column that is renamed, with the modification behind it. -/
theorem settles_renaming (ho : old.columnNames.Nodup) (hn : new.columnNames.Nodup)
    {r : Renaming} (hr : r ∈ renamings old new) :
    Settles old new t r.names r.steps := by
  obtain ⟨hsource, hgone, htarget, hfresh⟩ := renaming_mem hr
  have hne : r.source.name ≠ r.target.name := by
    intro he
    exact hgone (he ▸ List.mem_map_of_mem htarget)
  intro d cols hcols
  have hsome : cols r.source.name = some (attributes r.source) := by
    rw [hcols _ List.mem_cons_self, columnsOf_of_mem ho hsource]
  have hnone : cols r.target.name = none := by
    rw [hcols _ (List.mem_cons_of_mem _ List.mem_cons_self), columnsOf_of_not_mem hfresh]
  have hrename : perform new cols (.rename r.source.name r.target.name r.pairing.score
      r.pairing.unsure) = some (Function.update (Function.update cols r.source.name none)
        r.target.name (some (attributes r.source))) := by
    simp only [perform, hsome, hnone]
  -- only the two names of the rename change
  have hframe : ∀ (a b : Option Attributes) name, name ∉ r.names →
      Function.update (Function.update cols r.source.name a) r.target.name b name = cols name := by
    intro a b name h
    have hs : name ≠ r.source.name := fun he => h (he ▸ List.mem_cons_self)
    have ht : name ≠ r.target.name := fun he => h (he ▸ List.mem_cons_of_mem _ List.mem_cons_self)
    rw [Function.update_of_ne ht, Function.update_of_ne hs]
  have hreached : ∀ name ∈ r.names, Reached old new name
      (Function.update (Function.update cols r.source.name none) r.target.name
        (some (attributes r.target)) name) := by
    intro name h
    rcases List.mem_pair.1 h with rfl | rfl
    · rw [Function.update_of_ne hne, Function.update_self]
      exact Or.inl (columnsOf_of_not_mem hgone).symm
    · rw [Function.update_self]
      exact Or.inl (columnsOf_of_mem hn htarget).symm
  unfold Renaming.steps modification
  by_cases hnil : columnChanges r.source r.target = []
  · rw [attributes_eq_of_columnChanges_nil hnil] at hrename
    rw [hnil]
    exact ⟨_, replay_cons hrename, hreached, hframe _ _⟩
  · -- behind a rename a modification is never left out
    have hstays : ∀ d', Target.isOmitted (.modify r.source r.target true)
        (t.operation d' (.modify r.source r.target true)) ≠ true := by
      intro d' h
      obtain ⟨hfalse, -⟩ := columnChanges_of_omitted hnil h
      cases hfalse
    have hmodify := perform_modify hn htarget (a := r.source)
      (Function.update_self r.target.name (some (attributes r.source))
        (Function.update cols r.source.name none))
    rw [Function.update_idem] at hmodify
    rw [if_neg (by simpa using hnil), Target.kinds_cons, if_neg (by simp [Target.isOmitted]),
      Target.kinds_cons, if_neg (hstays _)]
    exact ⟨_, (replay_cons hrename).trans (replay_cons hmodify), hreached, hframe _ _⟩

/-! ## §5. All columns. -/

/-- The steps from one table to another settle every name they touch. -/
theorem settles_steps (ho : old.columnNames.Nodup) (hn : new.columnNames.Nodup) (t : Target) :
    Settles old new t (touchedNames old new) (steps old new) := by
  have hnodup := touchedNames_nodup ho hn
  rw [steps_eq]
  unfold touchedNames at hnodup ⊢
  obtain ⟨hrad, hk, hradk⟩ := List.nodup_append'.1 hnodup
  obtain ⟨hra, hd, hrad'⟩ := List.nodup_append'.1 hrad
  obtain ⟨hr, ha, hra'⟩ := List.nodup_append'.1 hra
  have hadded : Settles old new t ((added old new).map (·.name)) ((added old new).map .add) := by
    rw [List.map_eq_flatMap] at ha
    rw [List.map_eq_flatMap, List.map_eq_flatMap]
    refine settles_flatMap _ _ _ ?_ ha
    intro c hc
    obtain ⟨hnew, hfresh, -⟩ := (mem_added hn).1 hc
    exact settles_add hn hnew hfresh
  have hdropped : Settles old new t ((dropped old new).map (·.name))
      ((dropped old new).map .drop) := by
    rw [List.map_eq_flatMap] at hd
    rw [List.map_eq_flatMap, List.map_eq_flatMap]
    refine settles_flatMap _ _ _ ?_ hd
    intro c hc
    obtain ⟨hold, hgone, -⟩ := (mem_dropped ho).1 hc
    exact settles_drop ho hold hgone
  have hkept : Settles old new t ((kept old new).map (·.2.name)) (keptSteps old new) := by
    rw [List.map_eq_flatMap] at hk
    rw [List.map_eq_flatMap]
    refine settles_flatMap _ _ _ ?_ hk
    intro p hp
    obtain ⟨hnew, hbefore⟩ := mem_kept.1 hp
    exact settles_kept hn hnew hbefore
  have hrenamed := settles_flatMap Renaming.names Renaming.steps (renamings old new)
    (fun r hr => settles_renaming (t := t) ho hn hr) hr
  exact ((hrenamed.append hadded hra').append hdropped hrad').append hkept hradk

/-- The operations of all steps can be replayed, and every name is settled behind them. -/
theorem exists_replay (ho : old.columnNames.Nodup) (hn : new.columnNames.Nodup) (t : Target) :
    ∃ final, replay new (columnsOf old) (t.kinds false (steps old new)) = some final
      ∧ ∀ name, Reached old new name (final name) := by
  obtain ⟨final, hrun, hreached, hframe⟩ :=
    settles_steps ho hn t false (columnsOf old) (fun _ _ => rfl)
  refine ⟨final, hrun, ?_⟩
  intro name
  by_cases hname : name ∈ touchedNames old new
  · exact hreached name hname
  · have hneither : ¬(name ∈ old.columnNames ∨ name ∈ new.columnNames) :=
      fun h => hname (mem_touchedNames ho hn h)
    obtain ⟨hold, hnew⟩ := not_or.1 hneither
    rw [hframe name hname, columnsOf_of_not_mem hold]
    exact Or.inl (columnsOf_of_not_mem hnew).symm

theorem columnsOf_isSome {u : Table} {name : String} :
    (columnsOf u name).isSome ↔ name ∈ u.columnNames := by
  unfold columnsOf
  rw [Option.isSome_map, Option.isSome_iff_ne_none, Ne, column?_eq_none, not_not]

/-- Where a name is settled, a column stands exactly if `new` has one. -/
theorem Reached.isSome_iff {name : String} {a : Option Attributes} (h : Reached old new name a) :
    a.isSome ↔ name ∈ new.columnNames := by
  rcases h with rfl | ⟨before, c, -, hc, -, rfl⟩
  · exact columnsOf_isSome
  · obtain ⟨hmem, rfl⟩ := column?_eq_some hc
    exact iff_of_true rfl (List.mem_map_of_mem hmem)

/-- **Replayed on the columns of the old table, the difference of two tables never stops,
and leaves the columns of the new one**, except that a column may keep its part in the
primary key where it differs in nothing else. -/
theorem replay_diff (ho : old.columnNames.Nodup) (hn : new.columnNames.Nodup) :
    ∃ final, replay new (columnsOf old) ((diff old new).map (·.kind)) = some final
      ∧ (∀ name, (final name).isSome ↔ name ∈ new.columnNames)
      ∧ ∀ c ∈ new.columns, final c.name = some (attributes c)
        ∨ ∃ before ∈ old.columns, before.name = c.name ∧ columnChanges before c = [.primaryKey]
          ∧ final c.name = some { attributes c with inPrimaryKey := before.inPrimaryKey } := by
  obtain ⟨final, hrun, hreached⟩ := exists_replay ho hn ⟨new, keyChanges old new⟩
  refine ⟨final, ?_, fun name => (hreached name).isSome_iff, ?_⟩
  · unfold diff
    rw [appendToLast_kinds]
    exact hrun
  · intro c hc
    rcases hreached c.name with h | ⟨before, c', hb, hc', hkey, h⟩
    · exact Or.inl (h.trans (columnsOf_of_mem hn hc))
    · rw [column?_name hn hc] at hc'
      cases hc'
      obtain ⟨hmem, hname⟩ := column?_eq_some hb
      refine Or.inr ⟨before, hmem, hname, hkey, ?_⟩
      rw [h, attributes_of_columnChanges_key hkey]

/-- A table of users before, and the same table behind: one column is kept and changed, one
is likely renamed, one is new and one is gone. -/
theorem replay_diff_users :
    let old : Table := ⟨"public", "users", [⟨"id", "INT", true, none, false, false, none, none⟩,
      ⟨"user_name", "TEXT", true, none, false, true, none, none⟩,
      ⟨"note", "TEXT", true, none, false, false, none, none⟩]⟩
    let new : Table := ⟨"public", "users", [⟨"id", "INT", false, none, true, true, none, none⟩,
      ⟨"username", "TEXT", false, none, false, false, none, none⟩,
      ⟨"born_at", "DATE", true, some "now()", false, false, none, none⟩]⟩
    ∃ final, replay new (columnsOf old) ((diff old new).map (·.kind)) = some final
      ∧ (∀ name, (final name).isSome ↔ name ∈ new.columnNames)
      ∧ ∀ c ∈ new.columns, final c.name = some (attributes c)
        ∨ ∃ before ∈ old.columns, before.name = c.name ∧ columnChanges before c = [.primaryKey]
          ∧ final c.name = some { attributes c with inPrimaryKey := before.inPrimaryKey } :=
  replay_diff (by decide) (by decide)

end SchemaDrift.Alter
