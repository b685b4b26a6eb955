/-
  SchemaDrift.Proofs.Alter.Modification
  ─────────────────────────────────────
  **THE STATEMENTS THAT A MODIFICATION IS MADE OF.**

  The statements that modify a column stand in three rows,

      DROP CONSTRAINT IF EXISTS ...     what is replaced         (`Target.dropChanged`)
      ALTER COLUMN c ...                what changes in place    (`InPlace`)
      ADD CONSTRAINT ...                what replaces it         (`ConstraintKind.definition?`)

  and every one of them has one of four texts (`mem_modify`).

  A constraint of a column is named after the table, the column and what the constraint is
  (`defaultName`).  This is also the name that the database gives to a constraint that is
  declared of the column without a name.
-/

import SchemaDrift.Alter.Operation

namespace SchemaDrift.Alter

open SchemaDrift.Sql

/-! ## §1. Constraints of one column. -/

/-- What a constraint of one column is. -/
inductive ConstraintKind where
  | unique
  | foreignKey
  | check
  deriving Repr, DecidableEq

namespace ConstraintKind

/-- The ending of the names of such constraints. -/
def suffix : ConstraintKind → String
  | unique => "key"
  | foreignKey => "fkey"
  | check => "check"

/-- The change of a column that is one of such a constraint. -/
def change : ConstraintKind → ColumnChange
  | unique => .unique
  | foreignKey => .foreignKey
  | check => .check

/-- Such a constraint is declared of the column. -/
def isDeclared (k : ConstraintKind) (c : Column) : Bool :=
  match k with
  | unique => explicitUnique c
  | foreignKey => c.foreignKey.isSome
  | check => c.checkExpr.isSome

/-- What such a constraint of the column says, if it is declared. -/
def definition? (k : ConstraintKind) (c : Column) : Option String :=
  match k with
  | unique => if explicitUnique c then some ("UNIQUE (" ++ quoteIdent c.name ++ ")") else none
  | foreignKey =>
    c.foreignKey.map fun key => "FOREIGN KEY (" ++ quoteIdent c.name ++ ") " ++ key.toSql
  | check => c.checkExpr.map fun e => "CHECK (" ++ e ++ ")"

/-- It says something exactly if it is declared. -/
theorem isSome_definition? (k : ConstraintKind) (c : Column) :
    (k.definition? c).isSome = k.isDeclared c := by
  cases k with
  | unique =>
    unfold definition? isDeclared
    cases explicitUnique c <;> rfl
  | foreignKey => exact Option.isSome_map
  | check => exact Option.isSome_map

/-- Without the change a column keeps the constraint. -/
theorem isDeclared_of_unchanged {k : ConstraintKind} {a c : Column}
    (h : k.change.holds a c = false) : k.isDeclared a = k.isDeclared c := by
  cases k with
  | unique => simpa [change, ColumnChange.holds, isDeclared] using h
  | foreignKey =>
    have hsame : a.foreignKey = c.foreignKey := by simpa [change, ColumnChange.holds] using h
    exact congrArg Option.isSome hsame
  | check =>
    have hsame : a.checkExpr = c.checkExpr := by simpa [change, ColumnChange.holds] using h
    exact congrArg Option.isSome hsame

end ConstraintKind

/-- The name that a constraint of one column gets if none is given. -/
def defaultName (table column : String) (k : ConstraintKind) : String :=
  table ++ "_" ++ column ++ "_" ++ k.suffix

/-- The name of the primary key. -/
def defaultKeyName (table : String) : String := table ++ "_pkey"

/-- Texts with different endings of one kind or another. -/
theorem suffix_injective {a b : List Char} {j k : ConstraintKind}
    (h : a ++ '_' :: j.suffix.toList = b ++ '_' :: k.suffix.toList) : a = b ∧ j = k := by
  have hreverse := congrArg List.reverse h
  rw [List.reverse_append, List.reverse_append] at hreverse
  cases j <;> cases k <;>
    simp_all [ConstraintKind.suffix]

/-- **A default name tells the column and what the constraint is.** -/
theorem defaultName_injective {table a b : String} {j k : ConstraintKind}
    (h : defaultName table a j = defaultName table b k) : a = b ∧ j = k := by
  have hlist := congrArg String.toList h
  unfold defaultName at hlist
  simp only [String.toList_append, List.append_assoc] at hlist
  have hbehind := List.append_cancel_left (List.append_cancel_left hlist)
  obtain ⟨hname, hkind⟩ := suffix_injective hbehind
  exact ⟨String.toList_injective hname, hkind⟩

/-- It is not the name of the key. -/
theorem defaultName_ne_key (table a : String) (k : ConstraintKind) :
    defaultName table a k ≠ defaultKeyName table := by
  intro h
  have hlist := congrArg String.toList h
  unfold defaultName defaultKeyName at hlist
  simp only [String.toList_append, List.append_assoc] at hlist
  have hbehind := congrArg List.reverse (List.append_cancel_left hlist)
  cases k <;> simp [ConstraintKind.suffix] at hbehind

/-! ## §2. The statements. -/

/-- What is said of a column that stays. -/
inductive InPlace (c : Column) : String → Prop where
  | type : InPlace c ("TYPE " ++ c.dataType ++ " USING " ++ quoteIdent c.name ++ "::" ++ c.dataType)
  | nullability (action : String) (h : action ∈ ["DROP NOT NULL", "SET NOT NULL"]) :
    InPlace c action
  | setDefault (e : String) (h : c.defaultExpr = some e) : InPlace c ("SET DEFAULT " ++ e)
  | dropDefault : InPlace c "DROP DEFAULT"

variable {t : Target} {d : Bool} {a c : Column} {change : ColumnChange} {sql : String}

/-- The old key is dropped by its name. -/
theorem mem_dropKey (h : sql ∈ t.dropKey d) : sql = t.alter ("DROP CONSTRAINT IF EXISTS "
    ++ quoteIdent (defaultKeyName t.table.name)) := by
  unfold Target.dropKey at h
  split at h
  · exact List.mem_singleton.1 h
  · cases h

/-- A change is one of a constraint, or replaces none. -/
theorem kind_of_change (change : ColumnChange) :
    (∃ k : ConstraintKind, change = k.change) ∨ ∀ c, Target.constraint? c change = none := by
  cases change with
  | type => exact Or.inr fun _ => rfl
  | nullability => exact Or.inr fun _ => rfl
  | default => exact Or.inr fun _ => rfl
  | primaryKey => exact Or.inr fun _ => rfl
  | unique => exact Or.inl ⟨.unique, rfl⟩
  | foreignKey => exact Or.inl ⟨.foreignKey, rfl⟩
  | check => exact Or.inl ⟨.check, rfl⟩

/-- What the change of a constraint puts in its place. -/
theorem constraint?_change (c : Column) (k : ConstraintKind) :
    Target.constraint? c k.change = some (k.suffix, k.definition? c) := by
  cases k <;> rfl

theorem dropConstraint_change (a c : Column) (k : ConstraintKind) :
    t.dropConstraint a c k.change = [t.alter ("DROP CONSTRAINT IF EXISTS "
      ++ quoteIdent (defaultName t.table.name a.name k))] := by
  unfold Target.dropConstraint
  rw [constraint?_change]
  rfl

theorem mem_dropConstraint (h : sql ∈ t.dropConstraint a c change) :
    ∃ k : ConstraintKind, change = k.change
      ∧ sql = t.alter ("DROP CONSTRAINT IF EXISTS "
        ++ quoteIdent (defaultName t.table.name a.name k)) := by
  rcases kind_of_change change with ⟨k, rfl⟩ | hnone
  · rw [dropConstraint_change] at h
    exact ⟨k, rfl, List.mem_singleton.1 h⟩
  · unfold Target.dropConstraint at h
    rw [hnone] at h
    cases h

theorem addConstraint_change {k : ConstraintKind} {definition : String}
    (h : k.definition? c = some definition) : t.addConstraint c k.change
      = [t.alter ("ADD CONSTRAINT " ++ quoteIdent (defaultName t.table.name c.name k)
        ++ " " ++ definition)] := by
  unfold Target.addConstraint
  rw [constraint?_change, h]
  rfl

theorem mem_addConstraint (h : sql ∈ t.addConstraint c change) :
    ∃ (k : ConstraintKind) (definition : String), k.definition? c = some definition
      ∧ sql = t.alter ("ADD CONSTRAINT " ++ quoteIdent (defaultName t.table.name c.name k)
        ++ " " ++ definition) := by
  rcases kind_of_change change with ⟨k, rfl⟩ | hnone
  · cases hdefinition : k.definition? c with
    | none =>
      unfold Target.addConstraint at h
      rw [constraint?_change, hdefinition] at h
      cases h
    | some definition =>
      rw [addConstraint_change hdefinition] at h
      exact ⟨k, definition, hdefinition, List.mem_singleton.1 h⟩
  · unfold Target.addConstraint at h
    rw [hnone] at h
    cases h

theorem mem_inPlace (h : sql ∈ t.inPlace c change) : ∃ action, InPlace c action
    ∧ sql = t.alter ("ALTER COLUMN " ++ quoteIdent c.name ++ " " ++ action) := by
  cases change with
  | type => exact ⟨_, .type, List.mem_singleton.1 h⟩
  | nullability =>
    refine ⟨_, .nullability _ ?_, List.mem_singleton.1 h⟩
    cases c.nullable
    · decide
    · decide
  | default =>
    cases hdefault : c.defaultExpr with
    | none =>
      simp only [Target.inPlace, hdefault] at h
      exact ⟨_, .dropDefault, List.mem_singleton.1 h⟩
    | some e =>
      simp only [Target.inPlace, hdefault] at h
      exact ⟨_, .setDefault e hdefault, List.mem_singleton.1 h⟩
  | primaryKey => cases h
  | unique => cases h
  | foreignKey => cases h
  | check => cases h

/-- The drop of what a change replaces. -/
def Target.dropChanged (t : Target) (d : Bool) (a c : Column) (change : ColumnChange) :
    List String :=
  if change = .primaryKey then t.dropKey d else t.dropConstraint a c change

theorem modify_eq (d : Bool) (a c : Column) (changes : List ColumnChange) :
    t.modify d a c changes = changes.flatMap (t.dropChanged d a c)
      ++ (changes.flatMap (t.inPlace c) ++ changes.flatMap (t.addConstraint c)) :=
  List.append_assoc _ _ _

/-- **A statement of a modification drops the key or a constraint that changes, changes
something in place, or adds a constraint that is declared.** -/
theorem mem_modify {changes : List ColumnChange} (h : sql ∈ t.modify d a c changes) :
    sql ∈ t.dropKey d
      ∨ (∃ k : ConstraintKind, k.change ∈ changes
        ∧ sql = t.alter ("DROP CONSTRAINT IF EXISTS "
          ++ quoteIdent (defaultName t.table.name a.name k)))
      ∨ (∃ action, InPlace c action
        ∧ sql = t.alter ("ALTER COLUMN " ++ quoteIdent c.name ++ " " ++ action))
      ∨ ∃ (k : ConstraintKind) (definition : String), k.definition? c = some definition
        ∧ sql = t.alter ("ADD CONSTRAINT " ++ quoteIdent (defaultName t.table.name c.name k)
          ++ " " ++ definition) := by
  rw [modify_eq] at h
  rcases List.mem_append.1 h with h | h
  · obtain ⟨change, hchange, hsql⟩ := List.mem_flatMap.1 h
    unfold Target.dropChanged at hsql
    split at hsql
    · exact Or.inl hsql
    · obtain ⟨k, rfl, htext⟩ := mem_dropConstraint hsql
      exact Or.inr (Or.inl ⟨k, hchange, htext⟩)
  · rcases List.mem_append.1 h with h | h
    · obtain ⟨change, -, hsql⟩ := List.mem_flatMap.1 h
      exact Or.inr (Or.inr (Or.inl (mem_inPlace hsql)))
    · obtain ⟨change, -, hsql⟩ := List.mem_flatMap.1 h
      exact Or.inr (Or.inr (Or.inr (mem_addConstraint hsql)))

end SchemaDrift.Alter
