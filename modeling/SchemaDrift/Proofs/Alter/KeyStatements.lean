/-
  SchemaDrift.Proofs.Alter.KeyStatements
  ──────────────────────────────────────
  **WHICH STATEMENTS OF A STEP ARE ABOUT THE PRIMARY KEY.**

  Of the statements of a step one may drop the primary key of the table: the first one, and
  only if the step is the first to touch the key (`operation_touched`, `operation_untouched`).
  All others leave the key as it is (`leavesKey_operation`): they do not drop it, do not add it
  and declare it of no column, whatever names the texts are made of.

  A statement that lets a column be null, or forbids it, comes of a change of that alone
  (`nullability_of_mem`).
-/

import SchemaDrift.Proofs.Alter.Constraint
import SchemaDrift.Proofs.Alter.Wording

namespace SchemaDrift.Alter

open SchemaDrift.Sql SchemaDrift.Text

/-! ## §1. Statements about the key. -/

/-- A statement that alters a table. -/
def alterTable (t : Table) (what : String) : String :=
  "ALTER TABLE " ++ t.sqlName ++ " " ++ what ++ ";"

/-- The statement that drops the key of a table. -/
def keyDrop (t : Table) : String :=
  alterTable t ("DROP CONSTRAINT IF EXISTS " ++ quoteIdent (defaultKeyName t.name))

/-- The statement that adds the key of a table, if it has one. -/
def keyAddition (t : Table) : List String :=
  if t.keyColumns.isEmpty then []
  else [alterTable t ("ADD CONSTRAINT " ++ quoteIdent (defaultKeyName t.name) ++ " PRIMARY KEY ("
    ++ ", ".intercalate (t.keyColumns.map quoteIdent) ++ ")")]

/-- The constraint that a statement drops. -/
def droppedConstraint? (sql : String) : Option String :=
  (constraintName? "DROP CONSTRAINT IF EXISTS " sql).map (·.1)

/-- The constraint that a statement adds. -/
def addedConstraint? (sql : String) : Option String :=
  (constraintName? "ADD CONSTRAINT " sql).map (·.1)

/-- The statement does not drop the key of the table, does not add it, and adds no column of
the key with the key declared of it. -/
structure LeavesKey (t : Table) (sql : String) : Prop where
  notDropped : droppedConstraint? sql ≠ some (defaultKeyName t.name)
  notAdded : addedConstraint? sql ≠ some (defaultKeyName t.name)
  notDeclared : ∀ c ∈ t.columns, c.inPrimaryKey = true →
    sql ≠ alterTable t ("ADD COLUMN " ++ c.toSql)

/-! ## §2. Texts are told apart. -/

variable {t : Target}

/-- What is said of a table is read off the statement. -/
theorem alter_inj {a b : String} (h : t.alter a = t.alter b) : a = b := by
  have hread := congrArg altered? h
  rw [altered?_alter, altered?_alter] at hread
  exact String.toList_injective (List.append_cancel_right (Option.some.inj hread))

/-- What is said of a column is read off the clause. -/
theorem alterColumn_inj {a b x y : String}
    (h : "ALTER COLUMN " ++ quoteIdent a ++ " " ++ x = "ALTER COLUMN " ++ quoteIdent b ++ " " ++ y) :
    a = b ∧ x = y := by
  have hblank : ∀ rest, EndsName (" ".toList ++ rest) := fun _ => endsName_append ⟨' ', by decide⟩
  have hlist := congrArg String.toList h
  simp only [String.toList_append, List.append_assoc] at hlist
  have hname := congrArg name? (List.append_cancel_left hlist)
  rw [name?_quoteIdent _ _ (hblank _), name?_quoteIdent _ _ (hblank _)] at hname
  obtain ⟨hab, hxy⟩ := Prod.mk.inj (Option.some.inj hname)
  exact ⟨String.toList_injective hab,
    String.toList_injective (List.append_cancel_left hxy)⟩

/-- A column of the key is declared with it, unless it is left to the table. -/
theorem toSql_withoutPrimaryKey {c : Column} (h : c.inPrimaryKey = true) :
    c.withoutPrimaryKey.toSql ≠ c.toSql := by
  intro heq
  have hlength := congrArg String.length heq
  unfold Column.toSql Column.withoutPrimaryKey at hlength
  simp [h, String.length_append] at hlength

/-! ## §3. Statements that leave the key. -/

/-- Behind other words no constraint is read. -/
theorem constraintName?_none {front what : String}
    (h : literally? front.toList (what.toList ++ ";".toList) = none) :
    constraintName? front (t.alter what) = none := by
  unfold constraintName?
  rw [altered?_alter, Option.bind_some, h]
  rfl

/-- A statement that is read as no addition of a column declares no key. -/
theorem not_declared {sql : String} (hclause : ∀ name, clause? sql ≠ some (.add name)) :
    ∀ c ∈ t.table.columns, c.inPrimaryKey = true →
      sql ≠ alterTable t.table ("ADD COLUMN " ++ c.toSql) := by
  rintro c - - rfl
  exact hclause c.name (clause?_add t c)

/-- A statement about no constraint leaves the key, unless it declares it. -/
theorem leavesKey_of_other {what : String}
    (hdrop : literally? "DROP CONSTRAINT IF EXISTS ".toList (what.toList ++ ";".toList) = none)
    (hadd : literally? "ADD CONSTRAINT ".toList (what.toList ++ ";".toList) = none)
    (hdeclared : ∀ c ∈ t.table.columns, c.inPrimaryKey = true →
      t.alter what ≠ alterTable t.table ("ADD COLUMN " ++ c.toSql)) :
    LeavesKey t.table (t.alter what) := by
  refine ⟨?_, ?_, hdeclared⟩
  · unfold droppedConstraint?
    rw [constraintName?_none hdrop]
    exact nofun
  · unfold addedConstraint?
    rw [constraintName?_none hadd]
    exact nofun

theorem leavesKey_rename (a b : String) :
    LeavesKey t.table (t.alter ("RENAME COLUMN " ++ quoteIdent a ++ " TO " ++ quoteIdent b)) := by
  refine leavesKey_of_other ?_ ?_ (not_declared fun name => by rw [clause?_rename]; exact nofun)
  all_goals simp only [String.toList_append, List.append_assoc]; rfl

theorem leavesKey_drop (a : String) :
    LeavesKey t.table (t.alter ("DROP COLUMN " ++ quoteIdent a)) := by
  refine leavesKey_of_other ?_ ?_ (not_declared fun name => by rw [clause?_drop]; exact nofun)
  all_goals simp only [String.toList_append, List.append_assoc]; rfl

theorem leavesKey_alterColumn (a action : String) :
    LeavesKey t.table (t.alter ("ALTER COLUMN " ++ quoteIdent a ++ " " ++ action)) := by
  refine leavesKey_of_other ?_ ?_
    (not_declared fun name => by rw [clause?_alterColumn]; exact nofun)
  all_goals simp only [String.toList_append, List.append_assoc]; rfl

/-- An addition of a column leaves the key if it is not the declaration of a column of it. -/
theorem leavesKey_add (hn : t.table.columnNames.Nodup) {c : Column} (hc : c ∈ t.table.columns)
    {e : Column} (hname : e.name = c.name) (he : c.inPrimaryKey = true → e.toSql ≠ c.toSql) :
    LeavesKey t.table (t.alter ("ADD COLUMN " ++ e.toSql)) := by
  refine leavesKey_of_other ?_ ?_ ?_
  · simp only [String.toList_append, List.append_assoc]; rfl
  · simp only [String.toList_append, List.append_assoc]; rfl
  · intro c' hc' hkey htext
    have heq : t.alter ("ADD COLUMN " ++ e.toSql) = t.alter ("ADD COLUMN " ++ c'.toSql) := htext
    have hread := congrArg clause? heq
    rw [clause?_add, clause?_add] at hread
    have hsame : e.name = c'.name := by simpa using hread
    obtain rfl := column_eq_of_name_eq hn hc hc' (hname.symm.trans hsame)
    have hlist := congrArg String.toList (alter_inj heq)
    rw [String.toList_append, String.toList_append] at hlist
    exact he hkey (String.toList_injective (List.append_cancel_left hlist))

/-- The drop of the constraint of a column is no drop of the key. -/
theorem leavesKey_dropConstraint (a : String) (k : ConstraintKind) :
    LeavesKey t.table (t.alter ("DROP CONSTRAINT IF EXISTS "
      ++ quoteIdent (defaultName t.table.name a k))) := by
  have hname := constraintName?_alter t "DROP CONSTRAINT IF EXISTS " (defaultName t.table.name a k)
    "" (endsName_cons (by decide))
  rw [String.append_empty] at hname
  refine ⟨?_, ?_, not_declared fun name => by rw [clause?_dropConstraint]; exact nofun⟩
  · unfold droppedConstraint?
    rw [hname]
    intro h
    exact defaultName_ne_key _ _ _ (Option.some.inj h)
  · unfold addedConstraint?
    rw [constraintName?_none (by simp only [String.toList_append, List.append_assoc]; rfl)]
    exact nofun

/-- The addition of a constraint of a column is no addition of the key. -/
theorem leavesKey_addConstraint {c : Column} {k : ConstraintKind} {definition : String}
    (h : k.definition? c = some definition) (a : String) :
    LeavesKey t.table (t.alter ("ADD CONSTRAINT " ++ quoteIdent (defaultName t.table.name a k)
      ++ " " ++ definition)) := by
  have hend : EndsName ((" " ++ definition).toList ++ ";".toList) := by
    rw [String.toList_append, List.append_assoc]
    exact endsName_append ⟨' ', by decide⟩
  have hname := constraintName?_alter t "ADD CONSTRAINT " (defaultName t.table.name a k)
    (" " ++ definition) hend
  rw [← String.append_assoc] at hname
  refine ⟨?_, ?_, not_declared fun name => by rw [clause?_definition t h]; exact nofun⟩
  · unfold droppedConstraint?
    rw [constraintName?_none (by simp only [String.toList_append, List.append_assoc]; rfl)]
    exact nofun
  · unfold addedConstraint?
    rw [hname]
    intro h
    exact defaultName_ne_key _ _ _ (Option.some.inj h)

/-! ## §4. The statements of a step. -/

/-- Without a change of the key a modification does not ask whether it is dropped. -/
theorem modify_untouched {a c : Column} (h : a.inPrimaryKey = c.inPrimaryKey) (d : Bool) :
    t.modify d a c (columnChanges a c) = t.modify true a c (columnChanges a c) := by
  have hkey : ColumnChange.primaryKey ∉ columnChanges a c := by
    intro hmem
    have hholds := (List.mem_filter.1 hmem).2
    simp [ColumnChange.holds, h] at hholds
  have hdrops : ∀ change ∈ columnChanges a c,
      t.dropChanged d a c change = t.dropChanged true a c change := by
    intro change hchange
    have hne : change ≠ .primaryKey := fun he => hkey (he ▸ hchange)
    unfold Target.dropChanged
    rw [if_neg hne, if_neg hne]
  rw [modify_eq, modify_eq, List.flatMap_congr hdrops]

/-- **A step that leaves the key does not ask whether it is dropped.** -/
theorem operation_untouched {s : Step} (h : Target.touchesKey s = false) (d : Bool) :
    t.operation d s = t.operation true s := by
  cases s with
  | rename a b p => rfl
  | modify a c renamed =>
    have hsame : a.inPrimaryKey = c.inPrimaryKey := by simpa [Target.touchesKey] using h
    unfold Target.operation
    dsimp only
    rw [modify_untouched hsame]
  | add c =>
    have hkey : c.inPrimaryKey = false := h
    simp [Target.operation, hkey]
  | drop c =>
    have hkey : c.inPrimaryKey = false := h
    simp [Target.operation, hkey]

/-- With a change of the key, its drop stands in front of the other statements of a
modification. -/
theorem modify_touched (ht : t.rebuildsKey = true) {a c : Column}
    (h : a.inPrimaryKey ≠ c.inPrimaryKey) :
    t.modify false a c (columnChanges a c)
      = keyDrop t.table :: t.modify true a c (columnChanges a c) := by
  have hdrop : t.dropKey false = [keyDrop t.table] := by
    unfold Target.dropKey
    rw [ht]
    rfl
  -- the changes listed in front of the key replace no constraint
  have hchanges : ∃ front back, columnChanges a c = front ++ .primaryKey :: back
      ∧ (∀ change ∈ front, ∀ d, t.dropChanged d a c change = [])
      ∧ ∀ change ∈ back, change ≠ .primaryKey := by
    refine ⟨[.type, .nullability, .default].filter (·.holds a c),
      [.unique, .foreignKey, .check].filter (·.holds a c), ?_, ?_, ?_⟩
    · have hholds : ColumnChange.primaryKey.holds a c = true := by
        simpa [ColumnChange.holds] using h
      have hsplit : columnChanges a c = (([.type, .nullability, .default] : List ColumnChange)
          ++ .primaryKey :: ([.unique, .foreignKey, .check] : List ColumnChange)).filter
            (·.holds a c) := rfl
      rw [hsplit, List.filter_append]
      exact congrArg _ (List.filter_cons_of_pos hholds)
    · intro change hchange d
      have hmem := (List.mem_filter.1 hchange).1
      simp only [List.mem_cons, List.not_mem_nil, or_false] at hmem
      rcases hmem with rfl | rfl | rfl <;> rfl
    · intro change hchange
      have hmem := (List.mem_filter.1 hchange).1
      simp only [List.mem_cons, List.not_mem_nil, or_false] at hmem
      rcases hmem with rfl | rfl | rfl <;> decide
  obtain ⟨front, back, heq, hfront, hback⟩ := hchanges
  have hdrops : ∀ d, (columnChanges a c).flatMap (t.dropChanged d a c)
      = t.dropKey d ++ back.flatMap (t.dropChanged true a c) := by
    intro d
    have hrest : back.flatMap (t.dropChanged d a c) = back.flatMap (t.dropChanged true a c) := by
      refine List.flatMap_congr fun change hchange => ?_
      unfold Target.dropChanged
      rw [if_neg (hback change hchange), if_neg (hback change hchange)]
    rw [heq, List.flatMap_append, List.flatMap_cons, hrest,
      List.flatMap_eq_nil_iff.2 fun change hchange => hfront change hchange d]
    rfl
  rw [modify_eq, modify_eq, hdrops, hdrops, hdrop]
  simp [Target.dropKey]

/-- **The first step that touches the key drops it in front of its statements.** -/
theorem operation_touched (ht : t.rebuildsKey = true) {s : Step}
    (h : Target.touchesKey s = true) :
    (t.operation false s).sql = keyDrop t.table :: (t.operation true s).sql := by
  have hdrop : t.dropKey false = [keyDrop t.table] := by
    unfold Target.dropKey
    rw [ht]
    rfl
  have hdropped : t.dropKey true = [] := by
    unfold Target.dropKey
    rw [Bool.not_true, Bool.and_false]
    rfl
  cases s with
  | rename a b p => cases h
  | modify a c renamed =>
    have hdiffers : a.inPrimaryKey ≠ c.inPrimaryKey := by simpa [Target.touchesKey] using h
    exact modify_touched ht hdiffers
  | add c =>
    have hkey : c.inPrimaryKey = true := h
    simp [Target.operation, hkey, ht, hdrop, hdropped]
  | drop c =>
    have hkey : c.inPrimaryKey = true := h
    simp [Target.operation, hkey, hdrop, hdropped]

/-- **Besides the drop of the key, the statements of a step leave it.** -/
theorem leavesKey_operation (hn : t.table.columnNames.Nodup) {old : Table} {s : Step}
    (hs : s.Within old t.table) (hbuilt : ∀ c, s = .add c → c.inPrimaryKey = true →
      t.rebuildsKey = true) {sql : String} (h : sql ∈ (t.operation true s).sql) :
    LeavesKey t.table sql := by
  -- the key is dropped already, so that no statement drops it again
  have hdropped : t.dropKey true = [] := by
    unfold Target.dropKey
    rw [Bool.not_true, Bool.and_false]
    rfl
  cases s with
  | rename a b p =>
    rw [List.mem_singleton.1 h]
    exact leavesKey_rename _ _
  | modify a c renamed =>
    rcases mem_modify h with hkey | ⟨k, -, rfl⟩ | ⟨action, -, rfl⟩ | ⟨k, definition, hk, rfl⟩
    · rw [hdropped] at hkey
      cases hkey
    · exact leavesKey_dropConstraint _ _
    · exact leavesKey_alterColumn _ _
    · exact leavesKey_addConstraint hk _
  | add c =>
    simp only [Target.operation, hdropped, List.nil_append] at h
    split at h
    · next hkey =>
      rw [List.mem_singleton.1 h]
      exact leavesKey_add hn hs rfl toSql_withoutPrimaryKey
    · next hkey =>
      rw [List.mem_singleton.1 h]
      refine leavesKey_add hn hs rfl fun hc => ?_
      rw [hbuilt c rfl hc, hc] at hkey
      exact absurd rfl hkey
  | drop c =>
    have hsql : sql ∈ (if c.inPrimaryKey then t.dropKey true else [])
        ++ [t.alter ("DROP COLUMN " ++ quoteIdent c.name)] := h
    rw [hdropped, ite_self, List.nil_append] at hsql
    rw [List.mem_singleton.1 hsql]
    exact leavesKey_drop _

/-- A statement that lets a column be null, or forbids it, comes of a change of that. -/
theorem nullability_of_mem {d : Bool} {a c : Column} {name action : String}
    (haction : action ∈ ["DROP NOT NULL", "SET NOT NULL"])
    (h : t.alter ("ALTER COLUMN " ++ quoteIdent name ++ " " ++ action)
      ∈ t.modify d a c (columnChanges a c)) :
    c.name = name ∧ a.nullable ≠ c.nullable
      ∧ action = (if c.nullable then "DROP" else "SET") ++ " NOT NULL" := by
  have hread := clause?_alterColumn t name action
  rw [modify_eq] at h
  rcases List.mem_append.1 h with h | h
  · -- no drop of a constraint
    obtain ⟨change, -, hsql⟩ := List.mem_flatMap.1 h
    unfold Target.dropChanged at hsql
    split at hsql
    · rw [mem_dropKey hsql, clause?_dropConstraint] at hread
      cases hread
    · obtain ⟨k, -, htext⟩ := mem_dropConstraint hsql
      rw [htext, clause?_dropConstraint] at hread
      cases hread
  rcases List.mem_append.1 h with h | h
  · obtain ⟨change, hchange, hsql⟩ := List.mem_flatMap.1 h
    have hholds := (List.mem_filter.1 hchange).2
    have hsame : ∀ {x}, t.alter ("ALTER COLUMN " ++ quoteIdent name ++ " " ++ action)
        ∈ [t.alter ("ALTER COLUMN " ++ quoteIdent c.name ++ " " ++ x)] → name = c.name ∧ action = x :=
      fun hmem => alterColumn_inj (alter_inj (List.mem_singleton.1 hmem))
    simp only [List.mem_cons, List.not_mem_nil, or_false] at haction
    cases change with
    | nullability =>
      obtain ⟨hname, hact⟩ := hsame hsql
      exact ⟨hname.symm, by simpa [ColumnChange.holds] using hholds, hact⟩
    | type =>
      obtain ⟨-, hact⟩ := hsame hsql
      have hlist := congrArg String.toList hact
      rcases haction with rfl | rfl <;> simp [String.toList_append] at hlist
    | default =>
      cases hdefault : c.defaultExpr with
      | none =>
        simp only [Target.inPlace, hdefault] at hsql
        obtain ⟨-, hact⟩ := hsame hsql
        rcases haction with rfl | rfl <;> exact absurd hact (by decide)
      | some e =>
        simp only [Target.inPlace, hdefault] at hsql
        obtain ⟨-, hact⟩ := hsame hsql
        have hlist := congrArg String.toList hact
        rcases haction with rfl | rfl <;> simp [String.toList_append] at hlist
    | primaryKey => cases hsql
    | unique => cases hsql
    | foreignKey => cases hsql
    | check => cases hsql
  · -- no addition of a constraint
    obtain ⟨change, -, hsql⟩ := List.mem_flatMap.1 h
    obtain ⟨k, definition, hk, htext⟩ := mem_addConstraint hsql
    rw [htext, clause?_definition t hk] at hread
    cases hread

/-- A statement about a column that stays is one of its modification. -/
theorem modify_of_alterColumn {d : Bool} {s : Step} {name action : String}
    (h : t.alter ("ALTER COLUMN " ++ quoteIdent name ++ " " ++ action) ∈ (t.operation d s).sql) :
    ∃ a c renamed, s = .modify a c renamed := by
  have hread := clause?_alterColumn t name action
  have hkey : ∀ {d : Bool}, t.alter ("ALTER COLUMN " ++ quoteIdent name ++ " " ++ action)
      ∉ t.dropKey d := by
    intro d hmem
    rw [mem_dropKey hmem, clause?_dropConstraint] at hread
    cases hread
  have hadd : ∀ e : Column, t.alter ("ALTER COLUMN " ++ quoteIdent name ++ " " ++ action)
      ≠ t.alter ("ADD COLUMN " ++ e.toSql) := by
    intro e htext
    rw [htext, clause?_add] at hread
    cases hread
  -- no other step writes this clause
  cases s with
  | rename a b p =>
    rw [List.mem_singleton.1 h, clause?_rename] at hread
    cases hread
  | modify a c renamed => exact ⟨a, c, renamed, rfl⟩
  | add c =>
    simp only [Target.operation] at h
    split at h
    · rcases List.mem_append.1 h with h | h
      · exact absurd h hkey
      · exact absurd (List.mem_singleton.1 h) (hadd _)
    · exact absurd (List.mem_singleton.1 h) (hadd _)
  | drop c =>
    rcases List.mem_append.1 h with h | h
    · split at h
      · exact absurd h hkey
      · cases h
    · rw [List.mem_singleton.1 h, clause?_drop] at hread
      cases hread

end SchemaDrift.Alter
