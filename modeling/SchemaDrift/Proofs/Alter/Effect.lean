/-
  SchemaDrift.Proofs.Alter.Effect
  ───────────────────────────────
  **A DIFFERENCE WITHOUT A STATEMENT IS NONE.**

  A modification without a statement is left out, and what is not left out has a statement,
  but for a modification behind a rename.  So a difference is either empty or it does
  something (`exists_statement`); and it is empty exactly where the tables have the same
  columns, in whatever order (`diff_eq_nil_iff`).

  The one modification that may have no statement is that of the primary key; but then the
  key changes for the whole table, and its first column drops it.
-/

import SchemaDrift.Proofs.Alter.KeyPlacement

namespace SchemaDrift.Alter

variable {old new : Table} {t : Target}

/-! ## §1. Differences with operations. -/

/-- The statements of an operation are kept when the new key is added. -/
theorem exists_appendToLast {x : Operation × Bool} {ops : List (Operation × Bool)} (hx : x ∈ ops)
    (sqls : List String) : ∃ o ∈ appendToLast sqls ops, x.1.sql ⊆ o.sql := by
  induction ops with
  | nil => cases hx
  | cons y rest ih =>
    obtain ⟨o, touches⟩ := y
    unfold appendToLast
    split
    · rcases List.mem_cons.1 hx with rfl | hx
      · exact ⟨_, List.mem_cons_self, List.subset_append_left _ _⟩
      · exact ⟨x.1, List.mem_cons_of_mem _ (List.mem_map_of_mem hx), List.Subset.refl _⟩
    · rcases List.mem_cons.1 hx with rfl | hx
      · exact ⟨o, List.mem_cons_self, List.Subset.refl _⟩
      · obtain ⟨o', ho', hsub⟩ := ih hx
        exact ⟨o', List.mem_cons_of_mem _ ho', hsub⟩

/-- **A difference with an operation has a statement.** -/
theorem exists_statement (h : diff old new ≠ []) : ∃ o ∈ diff old new, ∃ sql, sql ∈ o.sql := by
  have hops : ∃ x ∈ (target old new).operations false (steps old new), x.1.sql ≠ [] := by
    obtain ⟨x, hx⟩ : ∃ x, x ∈ (target old new).operations false (steps old new) := by
      refine List.exists_mem_of_ne_nil _ ?_
      intro hnil
      refine h ?_
      show appendToLast _ ((target old new).operations false (steps old new)) = []
      rw [hnil]
      rfl
    obtain ⟨d, s, hs, rfl, hstays, -⟩ := mem_operations _ hx
    rcases mem_steps.1 hs with ⟨r, hr, -⟩ | ⟨c, -, rfl⟩ | ⟨c, -, rfl⟩ | ⟨p, -, hp⟩
    · -- a renaming begins with a step that has a statement
      have hrename : .rename r.source r.target r.pairing ∈ steps old new :=
        rename_mem_steps.2 hr
      obtain ⟨d', hd'⟩ := exists_operation (target old new) (d := false) hrename fun _ => rfl
      exact ⟨_, hd', List.cons_ne_nil _ _⟩
    · refine ⟨_, hx, ?_⟩
      dsimp only [Target.operation]
      split
      · exact List.append_ne_nil_of_right_ne_nil _ (List.cons_ne_nil _ _)
      · exact List.cons_ne_nil _ _
    · exact ⟨_, hx, List.append_ne_nil_of_right_ne_nil _ (List.cons_ne_nil _ _)⟩
    · obtain ⟨-, rfl⟩ := mem_modification.1 hp
      refine ⟨_, hx, ?_⟩
      intro hnil
      unfold Target.isOmitted at hstays
      dsimp only at hstays hnil
      rw [hnil] at hstays
      cases hstays
  obtain ⟨x, hx, hsql⟩ := hops
  obtain ⟨sql, hsql⟩ := List.exists_mem_of_ne_nil _ hsql
  obtain ⟨o, ho, hsub⟩ := exists_appendToLast hx (target old new).addKey
  exact ⟨o, ho, sql, hsub hsql⟩

/-! ## §2. Differences without operations. -/

/-- Where the key is rebuilt, the first step that touches it has an operation. -/
theorem operations_ne_nil (ht : t.rebuildsKey = true) {ss : List Step}
    (h : ∃ s ∈ ss, Target.touchesKey s = true) : t.operations false ss ≠ [] := by
  induction ss with
  | nil =>
    obtain ⟨s, hs, -⟩ := h
    cases hs
  | cons s ss ih =>
    rw [Target.operations_cons]
    by_cases htouches : Target.touchesKey s = true
    · refine List.append_ne_nil_of_left_ne_nil ?_ _
      -- a step that touches the key is told: a modification drops the key at least
      have hstays : Target.isOmitted s (t.operation false s) = false := by
        cases s with
        | rename a b p => rfl
        | add c => rfl
        | drop c => rfl
        | modify a c renamed =>
          have hkey : .primaryKey ∈ columnChanges a c := by
            unfold columnChanges
            exact List.mem_filter.2 ⟨by simp, htouches⟩
          have hdrop : t.dropKey false ≠ [] := by
            unfold Target.dropKey
            rw [ht]
            exact List.cons_ne_nil _ _
          have hsql : t.modify false a c (columnChanges a c) ≠ [] := by
            intro hnil
            unfold Target.modify at hnil
            obtain ⟨hfront, -⟩ := List.append_eq_nil_iff.1 hnil
            obtain ⟨hdrops, -⟩ := List.append_eq_nil_iff.1 hfront
            have hnone := List.flatMap_eq_nil_iff.1 hdrops .primaryKey hkey
            rw [if_pos rfl] at hnone
            exact hdrop hnone
          unfold Target.isOmitted
          dsimp only [Target.operation]
          rw [List.isEmpty_eq_false_iff.2 hsql, Bool.and_false]
      unfold Target.stepOperations
      rw [hstays]
      exact List.cons_ne_nil _ _
    · have hs : Target.touchesKey s = false := by simpa using htouches
      rw [hs, Bool.or_false]
      refine List.append_ne_nil_of_right_ne_nil _ (ih ?_)
      obtain ⟨s', hs', hkey⟩ := h
      rcases List.mem_cons.1 hs' with rfl | hs'
      · exact absurd hkey htouches
      · exact ⟨s', hs', hkey⟩

/-- Without a rename the key keeps its names. -/
theorem renamedKey_of_no_rename (h : renamings old new = []) :
    renamedKey old new = old.keyColumns := by
  have hnone : renames old new = [] := by
    rw [List.eq_nil_iff_forall_not_mem]
    intro p hp
    obtain ⟨a, b, ha, -, hb, -⟩ := mem_renames hp
    have hr : (⟨a, b, p⟩ : Renaming) ∈ renamings old new := mem_renamings.2 ⟨hp, ha, hb⟩
    rw [h] at hr
    cases hr
  unfold renamedKey
  rw [hnone]
  simp

/-- **Without an operation the columns of both tables have the same attributes.** -/
theorem columnsOf_eq_of_diff_nil (ho : old.columnNames.Nodup) (hn : new.columnNames.Nodup)
    (h : diff old new = []) (name : String) : columnsOf old name = columnsOf new name := by
  have hops : (target old new).operations false (steps old new) = [] := by
    have hnil : appendToLast (target old new).addKey
        ((target old new).operations false (steps old new)) = [] := h
    have hkinds := appendToLast_kinds (target old new).addKey
      ((target old new).operations false (steps old new))
    rw [hnil] at hkinds
    exact List.map_eq_nil_iff.1 hkinds.symm
  obtain ⟨final, hrun, hreached⟩ := exists_replay ho hn (target old new)
  unfold Target.kinds at hrun
  rw [hops] at hrun
  have hfinal : columnsOf old = final := Option.some.inj hrun
  rw [← hfinal] at hreached
  rcases hreached name with hname | ⟨before, c, hbefore, hc, hkey, -⟩
  · exact hname
  · -- the key of the column changes, so that of the table does, and its drop is an operation
    exfalso
    obtain ⟨hmem, rfl⟩ := column?_eq_some hc
    obtain ⟨hmem', hname⟩ := column?_eq_some hbefore
    have hdiffers : before.inPrimaryKey ≠ c.inPrimaryKey := by
      have hholds : ColumnChange.primaryKey ∈ columnChanges before c := by
        rw [hkey]
        exact List.mem_cons_self
      simpa [ColumnChange.holds] using (List.mem_filter.1 hholds).2
    have hstep : .modify before c false ∈ steps old new := by
      refine mem_steps.2 (Or.inr (Or.inr (Or.inr ⟨(before, c), mem_kept.2 ⟨hmem, hbefore⟩, ?_⟩)))
      exact mem_modification.2 ⟨by rw [hkey]; exact List.cons_ne_nil _ _, rfl⟩
    have hnone : renamings old new = [] := by
      rw [List.eq_nil_iff_forall_not_mem]
      intro r hr
      have hrename : .rename r.source r.target r.pairing ∈ steps old new :=
        rename_mem_steps.2 hr
      obtain ⟨d, hd⟩ := exists_operation (target old new) (d := false) hrename fun _ => rfl
      rw [hops] at hd
      cases hd
    have hrebuilds : (target old new).rebuildsKey = true := by
      show keyChanges old new = true
      unfold keyChanges
      rw [decide_eq_true_eq, renamedKey_of_no_rename hnone]
      intro hsame
      refine hdiffers (Bool.eq_iff_iff.2 ?_)
      rw [← mem_keyColumns ho hmem', ← mem_keyColumns hn hmem, hname, hsame]
    have htouches : Target.touchesKey (.modify before c false) = true := by
      simpa [Target.touchesKey] using hdiffers
    exact operations_ne_nil hrebuilds ⟨_, hstep, htouches⟩ hops

/-- Columns that obey the key rule are equal if their names and attributes are. -/
theorem column_eq_of_attributes {a b : Column} (ha : a.ObeysKeyRule) (hb : b.ObeysKeyRule)
    (hname : a.name = b.name) (h : attributes a = attributes b) : a = b := by
  obtain ⟨name, dataType, nullable, default, key, unique, reference, check⟩ := a
  obtain ⟨name', dataType', nullable', default', key', unique', reference', check'⟩ := b
  unfold attributes at h
  simp only [Attributes.mk.injEq] at h
  obtain ⟨rfl, rfl, rfl, rfl, hunique, rfl, rfl⟩ := h
  obtain rfl : name = name' := hname
  have hsame : unique = unique' := by
    cases key with
    | true => exact (ha rfl).2.trans (hb rfl).2.symm
    | false => simpa [explicitUnique] using hunique
  rw [hsame]

/-- **Without an operation both tables have the same columns**, in whatever order. -/
theorem column?_eq_of_diff_nil (ho : old.columnNames.Nodup) (hn : new.columnNames.Nodup)
    (hold : ∀ c ∈ old.columns, c.ObeysKeyRule) (hnew : ∀ c ∈ new.columns, c.ObeysKeyRule)
    (h : diff old new = []) (name : String) : old.column? name = new.column? name := by
  have hsame := columnsOf_eq_of_diff_nil ho hn h name
  unfold columnsOf at hsame
  cases ha : old.column? name with
  | none =>
    rw [ha] at hsame
    exact (Option.map_eq_none_iff.1 hsame.symm).symm
  | some a =>
    rw [ha] at hsame
    obtain ⟨b, hb, hattributes⟩ := Option.map_eq_some_iff.1 hsame.symm
    obtain ⟨hamem, haname⟩ := column?_eq_some ha
    obtain ⟨hbmem, hbname⟩ := column?_eq_some hb
    rw [hb, column_eq_of_attributes (hold a hamem) (hnew b hbmem) (haname.trans hbname.symm)
      hattributes.symm]

/-- **A difference is empty exactly if both tables have the same columns**, in whatever
order. -/
theorem diff_eq_nil_iff (ho : old.columnNames.Nodup) (hn : new.columnNames.Nodup)
    (hold : ∀ c ∈ old.columns, c.ObeysKeyRule) (hnew : ∀ c ∈ new.columns, c.ObeysKeyRule) :
    diff old new = [] ↔ old.columns.Perm new.columns := by
  constructor
  · intro h
    rw [List.perm_ext_iff_of_nodup (List.Nodup.of_map _ ho) (List.Nodup.of_map _ hn)]
    intro c
    rw [mem_columns_iff ho, mem_columns_iff hn, column?_eq_of_diff_nil ho hn hold hnew h]
  · intro h
    unfold diff
    rw [steps_eq_nil hn fun c => h.mem_iff]
    rfl

/-- A key of two columns whose columns are declared in the other order. -/
theorem diff_of_reordered_key :
    let old : Table := ⟨"club", "members", [⟨"number", "INT", false, none, true, true, none, none⟩,
      ⟨"mail", "TEXT", false, some "''", true, true, none, none⟩]⟩
    let new : Table := ⟨"club", "members", [⟨"mail", "TEXT", false, some "''", true, true, none, none⟩,
      ⟨"number", "INT", false, none, true, true, none, none⟩]⟩
    keyChanges old new = true ∧ diff old new = [] :=
  ⟨by decide +kernel, (diff_eq_nil_iff (by decide) (by decide) (by decide) (by decide)).2
    (by decide)⟩

end SchemaDrift.Alter
