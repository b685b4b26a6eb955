/-
  SchemaDrift.Proofs.Alter.KeyRebuild
  ───────────────────────────────────
  **A PRIMARY KEY THAT CHANGES IS DROPPED ONCE AND ADDED ONCE.**

  The old key is dropped in front of the statements of the first step that touches the key,
  and the new one is added behind those of the last (`key_rebuilt`):

      front          nothing that the old key could stand in the way of
      DROP CONSTRAINT IF EXISTS t_pkey
      middle
      ADD CONSTRAINT t_pkey PRIMARY KEY (...)
      back           nothing that the new key waits for

  A step touches the key exactly if the old key, under the new names of its columns, has not
  the columns of the new one (`touches_iff`).
-/

import SchemaDrift.Proofs.Alter.KeyStatements
import SchemaDrift.Proofs.Alter.Sparing

namespace SchemaDrift.Alter

open SchemaDrift.Sql

variable {old new : Table}

/-! ## §1. The old key and the new one. -/

/-- The old key cannot stand in the way of the statement: it adds no column of the new key,
drops none of the old one, and lets no column of the old one be null. -/
structure ClearOfOldKey (old new : Table) (sql : String) : Prop where
  noAddition : ∀ name ∈ new.keyColumns, clause? sql ≠ some (.add name)
  noDrop : ∀ name ∈ old.keyColumns, clause? sql ≠ some (.drop name)
  noNull : ∀ name ∈ old.keyColumns, sql ≠ alterTable new
    ("ALTER COLUMN " ++ quoteIdent (newName old new name) ++ " " ++ "DROP NOT NULL")

/-- The new key does not wait for the statement: it forbids no column of the key to be
null. -/
def ClearOfNewKey (new : Table) (sql : String) : Prop :=
  ∀ name ∈ new.keyColumns, sql ≠ alterTable new
    ("ALTER COLUMN " ++ quoteIdent name ++ " " ++ "SET NOT NULL")

/-- The old key, under the new names of its columns, has the columns of the new one. -/
def SameKey (old new : Table) : Prop :=
  ∀ name, name ∈ old.keyColumns.map (newName old new) ↔ name ∈ new.keyColumns

/-! ## §2. Steps that touch the key. -/

/-- A column has its new name in the key that it becomes part of. -/
theorem Becomes.newName (ho : old.columnNames.Nodup) (hn : new.columnNames.Nodup)
    {a c : Column} (h : Becomes old new a c) : newName old new a.name = c.name := by
  rcases h with hkept | ⟨r, hr, rfl, rfl⟩
  · obtain ⟨hc, ha⟩ := mem_kept.1 hkept
    obtain ⟨-, hname⟩ := column?_eq_some ha
    rw [newName_of_no_rename, hname]
    intro r hr he
    obtain ⟨-, hgone, -, -⟩ := renaming_mem hr
    exact hgone (he ▸ hname ▸ List.mem_map_of_mem hc)
  · exact newName_source ho hn hr

/-- An old column is dropped, or becomes a new one. -/
theorem dropped_or_becomes (new : Table) (ho : old.columnNames.Nodup) {a : Column}
    (ha : a ∈ old.columns) :
    a ∈ dropped old new ∨ ∃ c, Becomes old new a c := by
  rcases newName_cases old new a.name with ⟨r, hr, hname⟩ | hstays
  · obtain ⟨hsource, -, -, -⟩ := renaming_mem hr
    exact Or.inr ⟨r.target, Or.inr ⟨r, hr, column_eq_of_name_eq ho hsource ha hname, rfl⟩⟩
  · by_cases hnew : a.name ∈ new.columnNames
    · obtain ⟨c, hc, hname⟩ := List.mem_map.1 hnew
      exact Or.inr ⟨c, Or.inl (mem_kept.2 ⟨hc, by rw [hname, column?_name ho ha]⟩)⟩
    · exact Or.inl ((mem_dropped ho).2 ⟨ha, hnew, hstays⟩)

/-- A new column is added, or an old one becomes it. -/
theorem added_or_becomes (old : Table) (hn : new.columnNames.Nodup) {c : Column}
    (hc : c ∈ new.columns) :
    c ∈ added old new ∨ ∃ a, Becomes old new a c := by
  by_cases hold : c.name ∈ old.columnNames
  · cases ha : old.column? c.name with
    | none => exact absurd hold (column?_eq_none.1 ha)
    | some a => exact Or.inr ⟨a, Or.inl (mem_kept.2 ⟨hc, ha⟩)⟩
  · by_cases hfree : ∀ r ∈ renamings old new, r.target.name ≠ c.name
    · exact Or.inl ((mem_added hn).2 ⟨hc, hold, hfree⟩)
    · push Not at hfree
      obtain ⟨r, hr, hname⟩ := hfree
      obtain ⟨-, -, htarget, -⟩ := renaming_mem hr
      exact Or.inr ⟨r.source, Or.inr ⟨r, hr, rfl, column_eq_of_name_eq hn htarget hc hname⟩⟩

/-- No old column becomes one that is added. -/
theorem not_becomes_added (hn : new.columnNames.Nodup) {a c : Column} (hc : c ∈ added old new) :
    ¬Becomes old new a c := by
  obtain ⟨-, hfresh, hfree⟩ := (mem_added hn).1 hc
  rintro (hkept | ⟨r, hr, -, rfl⟩)
  · obtain ⟨ha, hname⟩ := column?_eq_some (mem_kept.1 hkept).2
    exact hfresh (hname ▸ List.mem_map_of_mem ha)
  · exact hfree r hr rfl

/-- What an old column becomes is told by its new name. -/
theorem becomes_of_newName (ho : old.columnNames.Nodup) (hn : new.columnNames.Nodup)
    {a c : Column} (ha : a ∈ old.columns) (hc : c ∈ new.columns)
    (h : newName old new a.name = c.name) : Becomes old new a c := by
  rcases dropped_or_becomes new ho ha with hdropped | ⟨c', hbecomes⟩
  · obtain ⟨-, hgone, hfree⟩ := (mem_dropped ho).1 hdropped
    rw [newName_of_no_rename hfree] at h
    exact absurd (h ▸ List.mem_map_of_mem hc) hgone
  · rw [hbecomes.newName ho hn] at h
    rw [← column_eq_of_name_eq hn hbecomes.mem.2 hc h]
    exact hbecomes

/-- No two old columns become the same one. -/
theorem Becomes.source_unique (ho : old.columnNames.Nodup) (hn : new.columnNames.Nodup)
    {a b c : Column} (ha : Becomes old new a c) (hb : Becomes old new b c) : a = b := by
  rcases ha with hkept | ⟨r, hr, rfl, rfl⟩
  · obtain ⟨hold, hname⟩ := column?_eq_some (mem_kept.1 hkept).2
    rcases hb with hkept' | ⟨q, hq, -, rfl⟩
    · exact Option.some.inj ((mem_kept.1 hkept).2.symm.trans (mem_kept.1 hkept').2)
    · obtain ⟨-, -, -, hfresh⟩ := renaming_mem hq
      exact absurd (hname ▸ List.mem_map_of_mem hold) hfresh
  · obtain ⟨-, -, -, hfresh⟩ := renaming_mem hr
    rcases hb with hkept' | ⟨q, hq, rfl, hsame⟩
    · obtain ⟨hold, hname⟩ := column?_eq_some (mem_kept.1 hkept').2
      exact absurd (hname ▸ List.mem_map_of_mem hold) hfresh
    · rw [renaming_unique ho hn hr hq (Or.inr (by rw [hsame]))]

/-- The old key under its new names consists of what its columns become, and of the names of
those that are dropped. -/
theorem mem_oldKey (ho : old.columnNames.Nodup) {name : String} :
    name ∈ old.keyColumns.map (newName old new)
      ↔ ∃ a ∈ old.columns, a.inPrimaryKey = true ∧ newName old new a.name = name := by
  rw [List.mem_map]
  constructor
  · rintro ⟨_, hname, heq⟩
    obtain ⟨a, ha, rfl⟩ := List.mem_map.1 hname
    exact ⟨a, (List.mem_filter.1 ha).1, (List.mem_filter.1 ha).2, heq⟩
  · rintro ⟨a, ha, hkey, heq⟩
    exact ⟨a.name, (mem_keyColumns ho ha).2 hkey, heq⟩

/-- **Both keys have the same columns exactly if no column is put into the key and none is
taken out of it.** -/
theorem sameKey_iff (ho : old.columnNames.Nodup) (hn : new.columnNames.Nodup) :
    SameKey old new ↔ (∀ c ∈ added old new, c.inPrimaryKey = false)
      ∧ (∀ a ∈ dropped old new, a.inPrimaryKey = false)
      ∧ ∀ a c, Becomes old new a c → a.inPrimaryKey = c.inPrimaryKey := by
  constructor
  · intro hsame
    -- a column of the new key is one that a column of the old key has become
    have hsource : ∀ c ∈ new.columns, c.inPrimaryKey = true →
        ∃ a, a.inPrimaryKey = true ∧ Becomes old new a c := by
      intro c hc hkey
      obtain ⟨a, ha, hakey, hname⟩ :=
        (mem_oldKey ho).1 ((hsame c.name).2 ((mem_keyColumns hn hc).2 hkey))
      exact ⟨a, hakey, becomes_of_newName ho hn ha hc hname⟩
    refine ⟨?_, ?_, ?_⟩
    · intro c hc
      rw [← Bool.not_eq_true]
      intro hkey
      obtain ⟨a, -, hbecomes⟩ := hsource c ((mem_added hn).1 hc).1 hkey
      exact not_becomes_added hn hc hbecomes
    · intro a ha
      obtain ⟨hold, hgone, hfree⟩ := (mem_dropped ho).1 ha
      rw [← Bool.not_eq_true]
      intro hkey
      have hmem := (hsame a.name).1 ((mem_oldKey ho).2 ⟨a, hold, hkey, newName_of_no_rename hfree⟩)
      obtain ⟨c, hc, hname⟩ := List.mem_map.1 hmem
      exact hgone (hname ▸ List.mem_map_of_mem (List.mem_filter.1 hc).1)
    · intro a c hbecomes
      obtain ⟨ha, hc⟩ := hbecomes.mem
      rw [Bool.eq_iff_iff]
      constructor
      · intro hkey
        exact (mem_keyColumns hn hc).1
          ((hsame c.name).1 ((mem_oldKey ho).2 ⟨a, ha, hkey, hbecomes.newName ho hn⟩))
      · intro hkey
        obtain ⟨b, hbkey, hb⟩ := hsource c hc hkey
        rw [hbecomes.source_unique ho hn hb]
        exact hbkey
  · rintro ⟨hadded, hdropped, hkeep⟩ name
    rw [mem_oldKey ho]
    constructor
    · rintro ⟨a, ha, hkey, rfl⟩
      rcases dropped_or_becomes new ho ha with hgone | ⟨c, hbecomes⟩
      · rw [hdropped a hgone] at hkey
        cases hkey
      · rw [hbecomes.newName ho hn, mem_keyColumns hn hbecomes.mem.2, ← hkeep a c hbecomes]
        exact hkey
    · intro hname
      obtain ⟨c, hc, rfl⟩ := List.mem_map.1 hname
      obtain ⟨hmem, hkey⟩ := List.mem_filter.1 hc
      rcases added_or_becomes old hn hmem with hfresh | ⟨a, hbecomes⟩
      · rw [hadded c hfresh] at hkey
        cases hkey
      · exact ⟨a, hbecomes.mem.1, (hkeep a c hbecomes).trans hkey, hbecomes.newName ho hn⟩

/-- **A step touches the key exactly if the keys have not the same columns.** -/
theorem touches_iff (ho : old.columnNames.Nodup) (hn : new.columnNames.Nodup) :
    (∃ s ∈ steps old new, Target.touchesKey s = true) ↔ ¬SameKey old new := by
  rw [sameKey_iff ho hn]
  constructor
  · rintro ⟨s, hs, htouches⟩ ⟨hadded, hdropped, hkeep⟩
    -- a step that touches the key changes who is in it
    cases s with
    | rename a b p => cases htouches
    | modify a c renamed =>
      have hdiffers : a.inPrimaryKey ≠ c.inPrimaryKey := by
        simpa [Target.touchesKey] using htouches
      exact hdiffers (hkeep a c (becomes_of_modify hs))
    | add c =>
      have hkey : c.inPrimaryKey = true := htouches
      rw [hadded c (add_mem_steps.1 hs)] at hkey
      cases hkey
    | drop a =>
      have hkey : a.inPrimaryKey = true := htouches
      rw [hdropped a (drop_mem_steps.1 hs)] at hkey
      cases hkey
  · intro hdiffers
    by_contra hnone
    have huntouched : ∀ s ∈ steps old new, Target.touchesKey s = false := by
      intro s hs
      rw [← Bool.not_eq_true]
      exact fun htouches => hnone ⟨s, hs, htouches⟩
    refine hdiffers ⟨?_, ?_, ?_⟩
    · exact fun c hc => huntouched _ (add_mem_steps.2 hc)
    · exact fun a ha => huntouched _ (drop_mem_steps.2 ha)
    · intro a c hbecomes
      by_contra hkey
      have hchange : ColumnChange.primaryKey ∈ columnChanges a c :=
        List.mem_filter.2 ⟨by decide, by simpa [ColumnChange.holds] using hkey⟩
      obtain ⟨renamed, hs⟩ := hbecomes.modify hchange
      have htouches := huntouched _ hs
      simp [Target.touchesKey] at htouches
      exact hkey htouches

/-- If they have not, the key of the table changes. -/
theorem keyChanges_of_not_sameKey (ho : old.columnNames.Nodup) (hn : new.columnNames.Nodup)
    (h : ¬SameKey old new) : keyChanges old new = true := by
  unfold keyChanges
  rw [decide_eq_true_eq, renamedKey_eq ho hn]
  intro heq
  exact h fun name => by rw [heq]

/-! ## §3. The statements of a difference. -/

variable {t : Target}

/-- Where the key is dropped already, or no step touches it, an operation has the statements
of its step besides the drop of the key. -/
theorem plain_of_mem {d : Bool} {ss : List Step}
    (hplain : d = true ∨ ∀ s ∈ ss, Target.touchesKey s = false) {x : Operation × Bool}
    (hx : x ∈ t.operations d ss) :
    ∃ s ∈ ss, x.1.sql = (t.operation true s).sql ∧ x.2 = Target.touchesKey s := by
  obtain ⟨d', s, hs, rfl, -, hd⟩ := mem_operations t hx
  refine ⟨s, hs, ?_, rfl⟩
  rcases hplain with rfl | huntouched
  · rw [hd rfl]
  · rw [operation_untouched (huntouched s hs)]

/-- A statement of operations is one of one of them. -/
theorem mem_statements {ops : List (Operation × Bool)} {sql : String} :
    sql ∈ statements (ops.map (·.1)) ↔ ∃ x ∈ ops, sql ∈ x.1.sql := by
  unfold statements
  simp [List.mem_flatMap]

/-- **The statements of a step that leaves the key alone need not wait for its drop.** -/
theorem clearOfOldKey_of_untouched (ho : old.columnNames.Nodup) (hn : new.columnNames.Nodup)
    (hnew : ∀ c ∈ new.columns, c.ObeysKeyRule) {s : Step} (hs : s ∈ steps old new)
    (huntouched : Target.touchesKey s = false) {sql : String}
    (h : sql ∈ ((target old new).operation true s).sql) : ClearOfOldKey old new sql := by
  have hdeed : ∀ {deed : Deed}, deed? (fun _ => []) sql = some deed → s.Does new.name deed :=
    fun hread => does_of_mem h hread
  refine ⟨?_, ?_, ?_⟩
  · intro name hname hread
    have hdoes : s.Does new.name (.add name) := hdeed (by unfold deed?; rw [hread])
    cases hdoes with
    | add c =>
      obtain ⟨hc, -, -⟩ := (mem_added hn).1 (add_mem_steps.1 hs)
      have hkey : c.inPrimaryKey = false := huntouched
      rw [(mem_keyColumns hn hc).1 hname] at hkey
      cases hkey
  · intro name hname hread
    have hdoes : s.Does new.name (.drop name) := hdeed (by unfold deed?; rw [hread])
    cases hdoes with
    | drop c =>
      obtain ⟨hc, -, -⟩ := (mem_dropped ho).1 (drop_mem_steps.1 hs)
      have hkey : c.inPrimaryKey = false := huntouched
      rw [(mem_keyColumns ho hc).1 hname] at hkey
      cases hkey
  · rintro name hname rfl
    obtain ⟨a, c, renamed, rfl⟩ := modify_of_alterColumn h
    obtain ⟨hnew', -, haction⟩ := nullability_of_mem (by decide) h
    have hbecomes := becomes_of_modify hs
    -- the column of the old key under this name has become `c`, which may be null
    obtain ⟨b, hb, rfl⟩ := List.mem_map.1 hname
    obtain ⟨hbmem, hbkey⟩ := List.mem_filter.1 hb
    have hbc := becomes_of_newName ho hn hbmem hbecomes.mem.2 hnew'.symm
    have hakey : a.inPrimaryKey = true := by
      rw [hbecomes.source_unique ho hn hbc]
      exact hbkey
    have hsame : a.inPrimaryKey = c.inPrimaryKey := by
      simpa [Target.touchesKey] using huntouched
    obtain ⟨hnull, -⟩ := hnew c hbecomes.mem.2 (hsame ▸ hakey)
    rw [hnull] at haction
    exact absurd haction (by decide)

/-- **No statement of a step that leaves the key alone keeps the new one waiting.** -/
theorem clearOfNewKey_of_untouched (hn : new.columnNames.Nodup)
    (hold : ∀ c ∈ old.columns, c.ObeysKeyRule) {s : Step} (hs : s ∈ steps old new)
    (huntouched : Target.touchesKey s = false) {sql : String}
    (h : sql ∈ ((target old new).operation true s).sql) : ClearOfNewKey new sql := by
  rintro name hname rfl
  obtain ⟨a, c, renamed, rfl⟩ := modify_of_alterColumn h
  obtain ⟨rfl, hdiffers, haction⟩ := nullability_of_mem (by decide) h
  obtain ⟨ha, hc⟩ := (becomes_of_modify hs).mem
  have hkey : c.inPrimaryKey = true := (mem_keyColumns hn hc).1 hname
  have hsame : a.inPrimaryKey = c.inPrimaryKey := by
    simpa [Target.touchesKey] using huntouched
  -- the column was in the old key too, so it could not be null before
  obtain ⟨hnull, -⟩ := hold a ha (hsame.trans hkey)
  have hnull' : c.nullable = true := by
    rw [hnull] at hdiffers
    simpa using hdiffers
  rw [hnull'] at haction
  exact absurd haction (by decide)

/-- The new key, if it changes for the table. -/
theorem addKey_eq (h : t.rebuildsKey = true) : t.addKey = keyAddition t.table := by
  unfold Target.addKey keyAddition
  rw [h]
  simp only [Bool.not_true, Bool.false_or, List.isEmpty_map]
  rfl

/-- Besides the drop of the key, the statements of a step of a difference leave it. -/
theorem leavesKey_of_step (hn : new.columnNames.Nodup) {s : Step} (hs : s ∈ steps old new)
    (hkey : keyChanges old new = true ∨ Target.touchesKey s = false) {sql : String}
    (h : sql ∈ ((target old new).operation true s).sql) : LeavesKey new sql := by
  refine leavesKey_operation (t := target old new) hn (step_within hs) ?_ h
  rintro c rfl hc
  rcases hkey with hchanges | huntouched
  · exact hchanges
  · have hnone : c.inPrimaryKey = false := huntouched
    rw [hc] at hnone
    cases hnone

/-- **The statements of a difference around the first and the last step that touch the key.** -/
theorem statements_rebuilt (hkey : keyChanges old new = true) {xs ys : List Step} {s : Step}
    (hsteps : steps old new = xs ++ s :: ys)
    (hxs : ∀ s' ∈ xs, Target.touchesKey s' = false) (hs : Target.touchesKey s = true) :
    ∃ later back,
      (target old new).operations true ys = later ++ back ∧ (∀ x ∈ back, x.2 = false)
      ∧ statements (diff old new)
        = statements (((target old new).operations false xs).map (·.1))
          ++ keyDrop new :: ((((target old new).operation true s).sql ++ statements (later.map (·.1)))
            ++ keyAddition new ++ statements (back.map (·.1))) := by
  obtain ⟨t, ht⟩ : ∃ t, t = target old new := ⟨_, rfl⟩
  have hbuilt : t.rebuildsKey = true := by
    rw [ht]
    exact hkey
  have htable : t.table = new := by rw [ht]; rfl
  have hsql := operation_touched hbuilt hs
  have hfirst : t.stepOperations false s = [(t.operation false s, true)] := by
    have hstays : Target.isOmitted s (t.operation false s) = false := by
      unfold Target.isOmitted
      rw [hsql]
      cases s <;> simp
    unfold Target.stepOperations
    rw [hstays, hs]
    rfl
  have hany : xs.any Target.touchesKey = false := by
    rw [List.any_eq_false]
    intro s' hs'
    rw [hxs s' hs']
    exact Bool.false_ne_true
  have hops : t.operations false (steps old new)
      = t.operations false xs ++ (t.operation false s, true) :: t.operations true ys := by
    rw [hsteps, Target.operations_append, Target.operations_cons, hany, Bool.false_or, hfirst, hs,
      Bool.or_true]
    rfl
  -- the last operation that touches the key is this one or one behind it
  obtain ⟨f, ⟨o, flag⟩, back, hsplit, hflag, hback⟩ := exists_last
    (p := fun x : Operation × Bool => x.2 = true)
    ⟨_, List.mem_cons_self (a := (t.operation false s, true)) (l := t.operations true ys), rfl⟩
  cases hflag
  have huntouched : ∀ x ∈ back, x.2 = false := fun x hx => by simpa using hback x hx
  obtain ⟨later, hlater, hbehind⟩ : ∃ later, f ++ [(o, true)] = (t.operation false s, true) :: later
      ∧ t.operations true ys = later ++ back := by
    cases f with
    | nil =>
      rw [List.nil_append] at hsplit
      obtain ⟨hhead, hrest⟩ := List.cons.inj hsplit
      exact ⟨[], by rw [hhead]; rfl, hrest⟩
    | cons x f =>
      rw [List.cons_append] at hsplit
      obtain ⟨hhead, hrest⟩ := List.cons.inj hsplit
      exact ⟨f ++ [(o, true)], by rw [hhead]; rfl, by rw [hrest, List.append_assoc]; rfl⟩
  refine ⟨later, back, ht ▸ hbehind, huntouched, ?_⟩
  have hdiff : diff old new
      = (t.operations false xs ++ f).map (·.1)
        ++ { o with sql := o.sql ++ keyAddition new } :: back.map (·.1) := by
    have hcut : t.operations false (steps old new)
        = (t.operations false xs ++ f) ++ (o, true) :: back := by
      rw [hops, hsplit, List.append_assoc]
    rw [← htable, ← addKey_eq hbuilt, ← appendToLast_split _ _ _ _ huntouched, ← hcut, ht]
    rfl
  -- up to the addition stand the statements of `f` and `o`, the first of which drop the key
  have hmiddle : statements (f.map (·.1)) ++ o.sql
      = keyDrop new :: ((t.operation true s).sql ++ statements (later.map (·.1))) := by
    have hlist := congrArg (fun l : List (Operation × Bool) => statements (l.map (·.1))) hlater
    unfold statements at hlist ⊢
    simp only [List.map_append, List.map_cons, List.map_nil, List.flatMap_append,
      List.flatMap_cons, List.flatMap_nil, List.append_nil, hsql, htable] at hlist
    rw [hlist]
    rfl
  rw [hdiff, ← ht]
  calc statements ((t.operations false xs ++ f).map (·.1)
        ++ { o with sql := o.sql ++ keyAddition new } :: back.map (·.1))
      = statements ((t.operations false xs).map (·.1)) ++ ((statements (f.map (·.1)) ++ o.sql)
          ++ (keyAddition new ++ statements (back.map (·.1)))) := by
        unfold statements
        simp only [List.map_append, List.flatMap_append, List.flatMap_cons, List.append_assoc]
    _ = _ := by
        rw [hmiddle]
        simp only [List.cons_append, List.append_assoc]

/-- **A primary key that changes is dropped once and rebuilt once**, around the statements that
it stands in the way of or waits for; one that does not change is left alone. -/
theorem key_rebuilt (ho : old.columnNames.Nodup) (hn : new.columnNames.Nodup)
    (hold : ∀ c ∈ old.columns, c.ObeysKeyRule) (hnew : ∀ c ∈ new.columns, c.ObeysKeyRule) :
    (SameKey old new → ∀ sql ∈ statements (diff old new), LeavesKey new sql)
      ∧ (¬SameKey old new → ∃ front middle back,
        statements (diff old new) = front ++ keyDrop new :: (middle ++ keyAddition new ++ back)
          ∧ (∀ sql ∈ front ++ middle ++ back, LeavesKey new sql)
          ∧ (∀ sql ∈ front, ClearOfOldKey old new sql)
          ∧ ∀ sql ∈ back, ClearOfNewKey new sql) := by
  constructor
  · intro hsame sql hsql
    have huntouched : ∀ s ∈ steps old new, Target.touchesKey s = false := by
      intro s hs
      rw [← Bool.not_eq_true]
      exact fun htouches => (touches_iff ho hn).1 ⟨s, hs, htouches⟩ hsame
    have hplain : ∀ x ∈ (target old new).operations false (steps old new), ∃ s ∈ steps old new,
        x.1.sql = ((target old new).operation true s).sql ∧ x.2 = Target.touchesKey s :=
      fun x hx => plain_of_mem (Or.inr huntouched) hx
    have hdiff : diff old new
        = ((target old new).operations false (steps old new)).map (·.1) := by
      refine appendToLast_untouched _ fun x hx => ?_
      obtain ⟨s, hs, -, hflag⟩ := hplain x hx
      rw [hflag, huntouched s hs]
    rw [hdiff, mem_statements] at hsql
    obtain ⟨x, hx, hsql⟩ := hsql
    obtain ⟨s, hs, heq, -⟩ := hplain x hx
    exact leavesKey_of_step hn hs (Or.inr (huntouched s hs)) (heq ▸ hsql)
  · intro hdiffers
    have hkey := keyChanges_of_not_sameKey ho hn hdiffers
    -- the first step that touches the key
    have hfound := List.find?_isSome.2 ((touches_iff ho hn).2 hdiffers)
    obtain ⟨s, hfind⟩ := Option.isSome_iff_exists.1 hfound
    obtain ⟨htouches, xs, ys, hsteps, hxs⟩ := List.find?_eq_some_iff_append.1 hfind
    have huntouched : ∀ s' ∈ xs, Target.touchesKey s' = false := fun s' hs' => by
      simpa using hxs s' hs'
    obtain ⟨later, back, hops, hback, hstatements⟩ :=
      statements_rebuilt hkey hsteps huntouched htouches
    -- every other statement is one of a step besides the drop of the key
    have hfront : ∀ sql ∈ statements (((target old new).operations false xs).map (·.1)),
        ∃ s' ∈ xs, sql ∈ ((target old new).operation true s').sql := by
      intro sql hsql
      obtain ⟨x, hx, hsql⟩ := mem_statements.1 hsql
      obtain ⟨s', hs', heq, -⟩ := plain_of_mem (Or.inr huntouched) hx
      exact ⟨s', hs', heq ▸ hsql⟩
    have hbehind : ∀ x ∈ later ++ back, ∃ s' ∈ ys,
        x.1.sql = ((target old new).operation true s').sql ∧ x.2 = Target.touchesKey s' :=
      fun x hx => plain_of_mem (Or.inl rfl) (hops ▸ hx)
    have hmem : ∀ s' ∈ xs ++ s :: ys, s' ∈ steps old new := fun s' hs' => hsteps ▸ hs'
    refine ⟨_, _, _, hstatements, ?_, ?_, ?_⟩
    · intro sql hsql
      have hleaves : ∀ s' ∈ xs ++ s :: ys, sql ∈ ((target old new).operation true s').sql →
          LeavesKey new sql := fun s' hs' => leavesKey_of_step hn (hmem s' hs') (Or.inl hkey)
      have hlater : ∀ x ∈ later ++ back, sql ∈ x.1.sql → LeavesKey new sql := by
        intro x hx hsql
        obtain ⟨s', hs', heq, -⟩ := hbehind x hx
        exact hleaves s' (List.mem_append_right _ (List.mem_cons_of_mem _ hs')) (heq ▸ hsql)
      rcases List.mem_append.1 hsql with hsql | hsql
      · rcases List.mem_append.1 hsql with hsql | hsql
        · obtain ⟨s', hs', hsql⟩ := hfront sql hsql
          exact hleaves s' (List.mem_append_left _ hs') hsql
        · rcases List.mem_append.1 hsql with hsql | hsql
          · exact hleaves s (List.mem_append_right _ List.mem_cons_self) hsql
          · obtain ⟨x, hx, hsql⟩ := mem_statements.1 hsql
            exact hlater x (List.mem_append_left _ hx) hsql
      · obtain ⟨x, hx, hsql⟩ := mem_statements.1 hsql
        exact hlater x (List.mem_append_right _ hx) hsql
    · intro sql hsql
      obtain ⟨s', hs', hsql⟩ := hfront sql hsql
      exact clearOfOldKey_of_untouched ho hn hnew (hmem s' (List.mem_append_left _ hs'))
        (huntouched s' hs') hsql
    · intro sql hsql
      obtain ⟨x, hx, hsql⟩ := mem_statements.1 hsql
      obtain ⟨s', hs', heq, hflag⟩ := hbehind x (List.mem_append_right _ hx)
      exact clearOfNewKey_of_untouched hn hold
        (hmem s' (List.mem_append_right _ (List.mem_cons_of_mem _ hs')))
        (hflag.symm.trans (hback x hx)) (heq ▸ hsql)

/-- A key that moves from one kept column, which may be null from then on, to another, which
may not. -/
theorem key_rebuilt_members :
    let old : Table := ⟨"club", "members", [⟨"number", "INT", false, none, true, true, none, none⟩,
      ⟨"mail", "TEXT", true, none, false, true, none, none⟩]⟩
    let new : Table := ⟨"club", "members", [⟨"mail", "TEXT", false, none, true, true, none, none⟩,
      ⟨"number", "INT", true, none, false, false, none, none⟩]⟩
    ¬SameKey old new ∧ ∃ front middle back,
      statements (diff old new) = front ++ keyDrop new :: (middle ++ keyAddition new ++ back)
        ∧ (∀ sql ∈ front ++ middle ++ back, LeavesKey new sql)
        ∧ (∀ sql ∈ front, ClearOfOldKey old new sql)
        ∧ ∀ sql ∈ back, ClearOfNewKey new sql := by
  intro old new
  have hdiffers : ¬SameKey old new := by
    intro hsame
    have hmail : "mail" ∈ old.keyColumns.map (newName old new) := (hsame "mail").2 (by decide)
    exact absurd hmail (by decide +kernel)
  exact ⟨hdiffers, (key_rebuilt (by decide) (by decide) (by decide) (by decide)).2 hdiffers⟩

end SchemaDrift.Alter
