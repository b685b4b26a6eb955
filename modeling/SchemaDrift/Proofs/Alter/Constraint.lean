/-
  SchemaDrift.Proofs.Alter.Constraint
  ───────────────────────────────────
  **THE CONSTRAINTS IN FORCE ON A TABLE, AND WHAT STATEMENTS DO TO THEM.**

  A constraint that is declared of one column and given no name gets one from the database,
  made of the table, the column and what it is (`defaultName`).  The name stays when the
  column is renamed.  A constraint is dropped by its name, or with a column that it is about.

      CREATE TABLE, ADD COLUMN a ...    the constraints declared of the columns
      RENAME COLUMN a TO b              what is about a is about b, under its old name
      DROP COLUMN a                     nothing is left that is about a
      ADD CONSTRAINT n ... (a)          a constraint n about a
      DROP CONSTRAINT IF EXISTS n       nothing is left under the name n

  Which columns a condition is about only the database can tell; `mentions` stands for what
  it finds in the text of the condition.
-/

import SchemaDrift.Proofs.Alter.Execution

namespace SchemaDrift.Alter

open SchemaDrift.Sql SchemaDrift.Text

/-! ## §1. Statements about constraints. -/

/-- A constraint in force: its name and the columns that it is about. -/
structure Constraint where
  name : String
  columns : List String
  deriving Repr, DecidableEq

/-- What a statement does to the constraints of the table. -/
inductive Deed where
  | rename (source target : String)
  | add (column : String)
  | drop (column : String)
  | constrain (c : Constraint)
  | unconstrain (name : String)
  deriving Repr, DecidableEq

/-- Reads the name of a constraint behind some words, and what follows it. -/
def constraintName? (front sql : String) : Option (String × List Char) :=
  (altered? sql).bind fun s =>
    (literally? front.toList s).bind fun s =>
      (name? s).map fun (n, behind) => (String.ofList n, behind)

/-- Reads the condition of a constraint, up to the bracket and the semicolon at the end. -/
def condition? (s : List Char) : Option String :=
  (literally? " CHECK (".toList s).map fun e => String.ofList (e.take (e.length - 2))

/-- Reads what a statement does to constraints. -/
def deed? (mentions : String → List String) (sql : String) : Option Deed :=
  match clause? sql with
  | some (.rename source target) => some (.rename source target)
  | some (.add column) => some (.add column)
  | some (.drop column) => some (.drop column)
  | some (.constrain columns) =>
    (constraintName? "ADD CONSTRAINT " sql).map fun (n, definition) =>
      .constrain ⟨n, ((condition? definition).map mentions).getD columns⟩
  | some .unconstrain =>
    (constraintName? "DROP CONSTRAINT IF EXISTS " sql).map fun (n, _) => .unconstrain n
  | some (.alter _) | none => none

variable (mentions : String → List String)

/-- The columns that a declared constraint of a column is about. -/
def ConstraintKind.columns (k : ConstraintKind) (c : Column) : List String :=
  match k with
  | .unique | .foreignKey => [c.name]
  | .check => (c.checkExpr.map mentions).getD []

/-- The constraints that are declared of a column, under their default names. -/
def declared (table : String) (c : Column) : List Constraint :=
  ([.unique, .foreignKey, .check].filter fun k : ConstraintKind => k.isDeclared c).map fun k =>
    ⟨defaultName table c.name k, k.columns mentions c⟩

/-- The constraints in force behind the creation of a table. -/
def created (t : Table) : List Constraint :=
  t.columns.flatMap (declared mentions t.name)
    ++ if t.keyColumns.isEmpty then [] else [⟨defaultKeyName t.name, t.keyColumns⟩]

/-- What a deed does to the constraints in force; what an added column declares is taken from
the new definition of the table. -/
def Deed.perform (new : Table) (s : List Constraint) : Deed → List Constraint
  | rename source target =>
    s.map fun x => { x with columns := x.columns.map fun c => if c = source then target else c }
  | add column => s ++ ((new.column? column).map (declared mentions new.name)).getD []
  | drop column => s.filter fun x => !x.columns.contains column
  | constrain x => s ++ [x]
  | unconstrain name => s.filter (·.name ≠ name)

/-- The constraints in force behind a statement. -/
def enforce (new : Table) (s : List Constraint) (sql : String) : List Constraint :=
  ((deed? mentions sql).map (Deed.perform mentions new s)).getD s

/-- The constraints in force behind statements. -/
def enforceAll (new : Table) (s : List Constraint) (sqls : List String) : List Constraint :=
  sqls.foldl (enforce mentions new) s

theorem enforceAll_append (new : Table) (s : List Constraint) (xs ys : List String) :
    enforceAll mentions new s (xs ++ ys)
      = enforceAll mentions new (enforceAll mentions new s xs) ys := List.foldl_append

/-! ## §2. Statements are read as they are meant. -/

variable (t : Target)

theorem constraintName?_alter (front n definition : String)
    (h : EndsName (definition.toList ++ ";".toList)) :
    constraintName? front (t.alter (front ++ quoteIdent n ++ definition))
      = some (n, definition.toList ++ ";".toList) := by
  unfold constraintName?
  rw [altered?_alter]
  simp only [String.toList_append, List.append_assoc, literally?_append, Option.bind_some,
    name?_quoteIdent _ _ h, Option.map_some, String.ofList_toList]

theorem deed?_rename (a b : String) :
    deed? mentions (t.alter ("RENAME COLUMN " ++ quoteIdent a ++ " TO " ++ quoteIdent b))
      = some (.rename a b) := by
  unfold deed?
  rw [clause?_rename]

theorem deed?_add (c : Column) :
    deed? mentions (t.alter ("ADD COLUMN " ++ c.toSql)) = some (.add c.name) := by
  unfold deed?
  rw [clause?_add]

theorem deed?_drop (a : String) :
    deed? mentions (t.alter ("DROP COLUMN " ++ quoteIdent a)) = some (.drop a) := by
  unfold deed?
  rw [clause?_drop]

theorem deed?_alterColumn (a what : String) :
    deed? mentions (t.alter ("ALTER COLUMN " ++ quoteIdent a ++ " " ++ what)) = none := by
  unfold deed?
  rw [clause?_alterColumn]

/-- A constraint is dropped under the name that is written. -/
theorem deed?_dropConstraint (n : String) :
    deed? mentions (t.alter ("DROP CONSTRAINT IF EXISTS " ++ quoteIdent n))
      = some (.unconstrain n) := by
  have hname := constraintName?_alter t "DROP CONSTRAINT IF EXISTS " n "" (endsName_cons (by decide))
  rw [String.append_empty] at hname
  unfold deed?
  rw [clause?_dropConstraint, hname]
  rfl

/-- A constraint that lists columns is about those. -/
theorem deed?_columns {k : String} (hk : k ∈ [" PRIMARY KEY (", " UNIQUE (", " FOREIGN KEY ("])
    (n c : String) (cs : List String) (behind : String) :
    deed? mentions (t.alter ("ADD CONSTRAINT " ++ quoteIdent n
        ++ (k ++ ", ".intercalate ((c :: cs).map quoteIdent) ++ (")" ++ behind))))
      = some (.constrain ⟨n, c :: cs⟩) := by
  have hfront : ∃ d ∈ k.toList.head?, isNameChar d = false ∧ d ≠ '"' := by
    refine ⟨' ', ?_, by decide⟩
    simp only [List.mem_cons, List.not_mem_nil, or_false] at hk
    rcases hk with rfl | rfl | rfl <;> rfl
  have hend : EndsName ((k ++ ", ".intercalate ((c :: cs).map quoteIdent)
      ++ (")" ++ behind)).toList ++ ";".toList) := by
    simp only [String.toList_append, List.append_assoc]
    exact endsName_append hfront
  -- a list of columns is no condition
  have hcondition : ∀ s, condition? (k.toList ++ s) = none := by
    intro s
    simp only [List.mem_cons, List.not_mem_nil, or_false] at hk
    rcases hk with rfl | rfl | rfl <;> rfl
  unfold deed?
  rw [clause?_constraint t hk n c cs behind, constraintName?_alter t "ADD CONSTRAINT " n _ hend]
  simp only [String.toList_append, List.append_assoc, hcondition, Option.map_some, Option.map_none,
    Option.getD_none]

/-- A condition is about the columns that it mentions. -/
theorem deed?_condition (n e : String) :
    deed? mentions (t.alter ("ADD CONSTRAINT " ++ quoteIdent n ++ (" CHECK (" ++ e ++ ")")))
      = some (.constrain ⟨n, mentions e⟩) := by
  have hend : EndsName (" CHECK (" ++ e ++ ")").toList := by
    rw [String.toList_append, String.toList_append, List.append_assoc]
    exact endsName_append ⟨' ', by decide⟩
  have hend' : EndsName ((" CHECK (" ++ e ++ ")").toList ++ ";".toList) := by
    simp only [String.toList_append, List.append_assoc]
    exact endsName_append ⟨' ', by decide⟩
  have hclause := clause?_addConstraint t n (" CHECK (" ++ e ++ ")") hend
  rw [constraint?_check] at hclause
  -- behind the condition stand two characters, the bracket and the semicolon
  have hcondition : condition? ((" CHECK (" ++ e ++ ")").toList ++ ";".toList) = some e := by
    unfold condition?
    simp only [String.toList_append, List.append_assoc, literally?_append, Option.map_some]
    simp
  unfold deed?
  rw [hclause, constraintName?_alter t "ADD CONSTRAINT " n _ hend']
  dsimp only
  rw [Option.map_some, hcondition]
  rfl

/-! ## §3. Statements of modifications. -/

variable {mentions}

/-- The drop of the old key. -/
theorem deed?_dropKey {d : Bool} {sql : String} (h : sql ∈ t.dropKey d) :
    deed? mentions sql = some (.unconstrain (defaultKeyName t.table.name)) := by
  rw [mem_dropKey h, deed?_dropConstraint]

/-- The addition of a constraint of a column. -/
theorem deed?_definition {c : Column} {k : ConstraintKind} {definition : String}
    (h : k.definition? c = some definition) (n : String) :
    deed? mentions (t.alter ("ADD CONSTRAINT " ++ quoteIdent n ++ " " ++ definition))
      = some (.constrain ⟨n, k.columns mentions c⟩) := by
  have hone : ", ".intercalate ([c.name].map quoteIdent) = quoteIdent c.name := rfl
  -- each kind is written with fixed words in front of what it names
  cases k with
  | unique =>
    unfold ConstraintKind.definition? at h
    dsimp only at h
    split at h
    · cases h
      have hread := deed?_columns mentions t (k := " UNIQUE (") (by decide) n c.name [] ""
      rw [hone] at hread
      rw [ConstraintKind.columns, ← hread]
      simp only [String.append_assoc]
      rfl
    · cases h
  | foreignKey =>
    obtain ⟨key, -, rfl⟩ := Option.map_eq_some_iff.1 h
    have hread := deed?_columns mentions t (k := " FOREIGN KEY (") (by decide) n c.name []
      (" " ++ key.toSql)
    rw [hone] at hread
    rw [ConstraintKind.columns, ← hread]
    simp only [String.append_assoc]
    rfl
  | check =>
    obtain ⟨e, he, rfl⟩ := Option.map_eq_some_iff.1 h
    rw [ConstraintKind.columns, he, Option.map_some, Option.getD_some,
      ← deed?_condition mentions t n e]
    simp only [String.append_assoc]
    rfl

/-- The new key is a constraint more. -/
theorem deed?_addKey {sql : String} (h : sql ∈ t.addKey) :
    ∃ x, deed? mentions sql = some (.constrain x) := by
  unfold Target.addKey at h
  dsimp only at h
  split at h
  · cases h
  · next hbuilt =>
    cases hkey : t.table.keyColumns with
    | nil => simp [hkey] at hbuilt
    | cons c cs =>
      have hread := deed?_columns mentions t (k := " PRIMARY KEY (") (by decide)
        (defaultKeyName t.table.name) c cs ""
      rw [hkey] at h
      refine ⟨⟨defaultKeyName t.table.name, c :: cs⟩, ?_⟩
      rw [List.mem_singleton.1 h, ← hread]
      simp only [String.append_assoc]
      rfl

end SchemaDrift.Alter
