/-
  SchemaDrift.Proofs.Alter.Wording
  ────────────────────────────────
  **WHAT THE STATEMENTS OF A DIFFERENCE SAY.**

  Every statement of a difference alters the new table, and there are only so many things
  that it can say (`Wording`).  Of the old table nothing is said but names of columns; the
  types, defaults, conditions and references are those of the new one.
-/

import SchemaDrift.Proofs.Alter.Execution

namespace SchemaDrift.Alter

open SchemaDrift.Sql

/-! ## §1. Columns of steps. -/

/-- The columns a step is about are columns of the two tables. -/
def Step.Within (old new : Table) : Step → Prop
  | .rename a b _ => a ∈ old.columns ∧ b ∈ new.columns
  | .modify a b _ => a ∈ old.columns ∧ b ∈ new.columns
  | .add c => c ∈ new.columns
  | .drop c => c ∈ old.columns

variable {old new : Table}

theorem step_within {s : Step} (h : s ∈ steps old new) : s.Within old new := by
  have hbeside : ∀ {t : Table} {names : List String} {p : Nat × Column → Bool} {c : Column},
      c ∈ ((columnsBeside t names).filter p).map (·.2) → c ∈ t.columns := by
    intro t names p c hc
    exact ((List.filter_sublist.map _).trans (columnsBeside_sublist t names)).subset hc
  rcases mem_steps.1 h with ⟨r, hr, hs⟩ | ⟨c, hc, rfl⟩ | ⟨c, hc, rfl⟩ | ⟨p, hp, hs⟩
  · obtain ⟨hsource, -, htarget, -⟩ := renaming_mem hr
    rcases List.mem_cons.1 hs with rfl | hs
    · exact ⟨hsource, htarget⟩
    · obtain ⟨-, rfl⟩ := mem_modification.1 hs
      exact ⟨hsource, htarget⟩
  · exact hbeside hc
  · exact hbeside hc
  · obtain ⟨-, rfl⟩ := mem_modification.1 hs
    obtain ⟨hnew, hold⟩ := mem_kept.1 hp
    exact ⟨(column?_eq_some hold).1, hnew⟩

/-! ## §2. Wordings. -/

/-- What a constraint of a column says. -/
inductive Definition (c : Column) : String → Prop where
  | unique : Definition c ("UNIQUE (" ++ quoteIdent c.name ++ ")")
  | foreignKey (k : ForeignKey) (h : c.foreignKey = some k) :
    Definition c ("FOREIGN KEY (" ++ quoteIdent c.name ++ ") " ++ k.toSql)
  | check (e : String) (h : c.checkExpr = some e) : Definition c ("CHECK (" ++ e ++ ")")

/-- What a statement says behind the name of the table. -/
inductive Wording (old new : Table) (t : Target) : String → Prop where
  | rename {a b : Column} (ha : a ∈ old.columns) (hb : b ∈ new.columns) :
    Wording old new t ("RENAME COLUMN " ++ quoteIdent a.name ++ " TO " ++ quoteIdent b.name)
  | dropKey : Wording old new t ("DROP CONSTRAINT IF EXISTS " ++ t.keyName)
  | dropConstraint {a : Column} (ha : a ∈ old.columns) (suffix : String)
      (h : suffix ∈ ["key", "fkey", "check"]) :
    Wording old new t ("DROP CONSTRAINT IF EXISTS " ++ t.constraintName a.name suffix)
  | inPlace {c : Column} (hc : c ∈ new.columns) {action : String} (h : InPlace c action) :
    Wording old new t ("ALTER COLUMN " ++ quoteIdent c.name ++ " " ++ action)
  | addConstraint {c : Column} (hc : c ∈ new.columns) (suffix : String)
      (h : suffix ∈ ["key", "fkey", "check"]) {definition : String} (hd : Definition c definition) :
    Wording old new t
      ("ADD CONSTRAINT " ++ t.constraintName c.name suffix ++ " " ++ definition)
  | add {c : Column} (hc : c ∈ new.columns) : Wording old new t ("ADD COLUMN " ++ c.toSql)
  | addWithoutKey {c : Column} (hc : c ∈ new.columns) :
    Wording old new t ("ADD COLUMN " ++ c.withoutPrimaryKey.toSql)
  | drop {c : Column} (hc : c ∈ old.columns) :
    Wording old new t ("DROP COLUMN " ++ quoteIdent c.name)
  | addKey : Wording old new t ("ADD CONSTRAINT " ++ t.keyName ++ " PRIMARY KEY ("
      ++ ", ".intercalate (t.table.keyColumns.map quoteIdent) ++ ")")

/-- The statement alters the table, with one of the wordings. -/
def Worded (old new : Table) (t : Target) (sql : String) : Prop :=
  ∃ what, Wording old new t what ∧ sql = t.alter what

variable {t : Target}

theorem worded_dropKey {d : Bool} {sql : String} (h : sql ∈ t.dropKey d) :
    Worded old new t sql :=
  ⟨_, .dropKey, mem_dropKey h⟩

theorem worded_addKey {sql : String} (h : sql ∈ t.addKey) : Worded old new t sql := by
  unfold Target.addKey at h
  dsimp only at h
  split at h
  · cases h
  · exact ⟨_, .addKey, List.mem_singleton.1 h⟩

theorem suffix_mem (k : ConstraintKind) : k.suffix ∈ ["key", "fkey", "check"] := by
  cases k <;> decide

/-- What is declared of a column is one of the three definitions. -/
theorem definition_of {c : Column} {k : ConstraintKind} {definition : String}
    (h : k.definition? c = some definition) : Definition c definition := by
  cases k with
  | unique =>
    unfold ConstraintKind.definition? at h
    dsimp only at h
    split at h
    · cases h
      exact .unique
    · cases h
  | foreignKey =>
    obtain ⟨key, hkey, rfl⟩ := Option.map_eq_some_iff.1 h
    exact .foreignKey key hkey
  | check =>
    obtain ⟨e, he, rfl⟩ := Option.map_eq_some_iff.1 h
    exact .check e he

/-- The statements of a step. -/
theorem worded_operation {d : Bool} {s : Step} (hs : s.Within old new) {sql : String}
    (h : sql ∈ (t.operation d s).sql) : Worded old new t sql := by
  cases s with
  | rename a b p => exact ⟨_, .rename hs.1 hs.2, List.mem_singleton.1 h⟩
  | modify a c renamed =>
    rcases mem_modify h with hkey | ⟨k, -, rfl⟩ | ⟨action, haction, rfl⟩ | ⟨k, definition, hk, rfl⟩
    · exact worded_dropKey hkey
    · exact ⟨_, .dropConstraint hs.1 k.suffix (suffix_mem k), rfl⟩
    · exact ⟨_, .inPlace hs.2 haction, rfl⟩
    · exact ⟨_, .addConstraint hs.2 k.suffix (suffix_mem k) (definition_of hk), rfl⟩
  | add c =>
    simp only [Target.operation] at h
    split at h
    · rcases List.mem_append.1 h with h | h
      · exact worded_dropKey h
      · exact ⟨_, .addWithoutKey hs, List.mem_singleton.1 h⟩
    · exact ⟨_, .add hs, List.mem_singleton.1 h⟩
  | drop c =>
    rcases List.mem_append.1 h with h | h
    · split at h
      · exact worded_dropKey h
      · cases h
    · exact ⟨_, .drop hs, List.mem_singleton.1 h⟩

/-- Appending changes no kind of an operation, and adds nothing but what is appended. -/
theorem mem_appendToLast {sqls : List String} {ops : List (Operation × Bool)} {o : Operation}
    (ho : o ∈ appendToLast sqls ops) :
    ∃ x ∈ ops, o.kind = x.1.kind ∧ ∀ sql ∈ o.sql, sql ∈ x.1.sql ∨ sql ∈ sqls := by
  induction ops with
  | nil => cases ho
  | cons x rest ih =>
    obtain ⟨o', touches⟩ := x
    have hkept : ∀ {y : Operation × Bool}, y ∈ (o', touches) :: rest → o = y.1 →
        ∃ x ∈ (o', touches) :: rest,
          o.kind = x.1.kind ∧ ∀ sql ∈ o.sql, sql ∈ x.1.sql ∨ sql ∈ sqls :=
      fun hy h => ⟨_, hy, by rw [h], fun sql hsql => Or.inl (h ▸ hsql)⟩
    unfold appendToLast at ho
    split at ho
    · rcases List.mem_cons.1 ho with rfl | ho
      · exact ⟨(o', touches), List.mem_cons_self, rfl, fun sql hsql => List.mem_append.1 hsql⟩
      · obtain ⟨x, hx, h⟩ := List.mem_map.1 ho
        exact hkept (List.mem_cons_of_mem _ hx) h.symm
    · rcases List.mem_cons.1 ho with h | ho
      · exact hkept List.mem_cons_self h
      · obtain ⟨x, hx, h⟩ := ih ho
        exact ⟨x, List.mem_cons_of_mem _ hx, h⟩

/-- **An operation of a difference is that of one of its steps**, up to the new key. -/
theorem mem_diff {o : Operation} (ho : o ∈ diff old new) :
    ∃ d, ∃ s ∈ steps old new, o.kind = (Target.operation ⟨new, keyChanges old new⟩ d s).kind
      ∧ ∀ sql ∈ o.sql, sql ∈ (Target.operation ⟨new, keyChanges old new⟩ d s).sql
        ∨ sql ∈ Target.addKey ⟨new, keyChanges old new⟩ := by
  unfold diff at ho
  obtain ⟨x, hx, hkind, hsql⟩ := mem_appendToLast ho
  obtain ⟨d, s, hs, rfl, -, -⟩ := mem_operations _ hx
  exact ⟨d, s, hs, hkind, hsql⟩

/-- **Every statement of a difference alters the new table with one of the wordings.** -/
theorem worded_diff {o : Operation} (ho : o ∈ diff old new) {sql : String} (h : sql ∈ o.sql) :
    Worded old new ⟨new, keyChanges old new⟩ sql := by
  obtain ⟨d, s, hs, -, hsql⟩ := mem_diff ho
  rcases hsql sql h with h | h
  · exact worded_operation (step_within hs) h
  · exact worded_addKey h

end SchemaDrift.Alter
