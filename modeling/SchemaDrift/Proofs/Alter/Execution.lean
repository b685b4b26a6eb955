/-
  SchemaDrift.Proofs.Alter.Execution
  ──────────────────────────────────
  **WHERE AN OPERATION CAN BE REPLAYED, ITS STATEMENTS CAN BE RUN.**

  A replay performs an operation on the columns, a database runs its statements one by one
  on their names.  The statements of an operation name no column but those the operation is
  about, so they run wherever the operation can be performed, and behind them the names are
  those of the columns behind the operation (`Faithful`, `operation_faithful`).

  The new key is a statement more, behind the last operation that touches the key
  (`appendToLast_split`).
-/

import SchemaDrift.Proofs.Alter.Clause
import SchemaDrift.Proofs.Alter.Modification
import SchemaDrift.Proofs.Alter.Replay

namespace SchemaDrift.Alter

open SchemaDrift.Sql

/-! ## §1. Statements of an operation. -/

/-- The names under which a column stands. -/
def domain (cols : Columns) : Names := fun name => (cols name).isSome

theorem domain_update (cols : Columns) (name : String) (a : Option Attributes) :
    domain (Function.update cols name a) = Function.update (domain cols) name a.isSome := by
  funext n
  unfold domain
  by_cases h : n = name
  · rw [h, Function.update_self, Function.update_self]
  · rw [Function.update_of_ne h, Function.update_of_ne h]

theorem domain_columnsOf (t : Table) : domain (columnsOf t) = namesOf t := by
  funext name
  unfold domain namesOf
  rw [Bool.eq_iff_iff, columnsOf_isSome, List.contains_iff_mem]

/-- The statements of the operation do to the names what it does to the columns. -/
def Faithful (new : Table) (o : Operation) : Prop :=
  ∀ cols cols', perform new cols o.kind = some cols' →
    executeAll (domain cols) o.sql = some (domain cols')

/-- A statement that asks only for columns that are there leaves the names as they are. -/
theorem execute_of_clause {names : Names} {sql : String} {c : Clause} (hread : clause? sql = some c)
    (hstay : c.perform names = some names) : execute names sql = some names := by
  unfold execute
  rw [hread]
  exact hstay

variable (t : Target)

theorem execute_dropConstraint (names : Names) (n : String) :
    execute names (t.alter ("DROP CONSTRAINT IF EXISTS " ++ quoteIdent n)) = some names :=
  execute_of_clause (clause?_dropConstraint t _) rfl

theorem execute_dropKey (names : Names) (d : Bool) :
    executeAll names (t.dropKey d) = some names := by
  refine executeAll_of_stays fun sql hsql => ?_
  rw [mem_dropKey hsql, execute_dropConstraint]

/-- What is read of a constraint that lists columns. -/
theorem clause?_constraint {k : String}
    (hk : k ∈ [" PRIMARY KEY (", " UNIQUE (", " FOREIGN KEY ("]) (n c : String)
    (cs : List String) (behind : String) :
    clause? (t.alter ("ADD CONSTRAINT " ++ quoteIdent n
        ++ (k ++ ", ".intercalate ((c :: cs).map quoteIdent) ++ (")" ++ behind))))
      = some (.constrain (c :: cs)) := by
  have hend : EndsName (k ++ ", ".intercalate ((c :: cs).map quoteIdent)
      ++ (")" ++ behind)).toList := by
    rw [String.toList_append, String.toList_append, List.append_assoc]
    refine endsName_append ⟨' ', ?_, by decide⟩
    simp only [List.mem_cons, List.not_mem_nil, or_false] at hk
    rcases hk with rfl | rfl | rfl <;> rfl
  rw [clause?_addConstraint t n _ hend]
  simp only [String.toList_append, List.append_assoc]
  exact constraint?_columns hk c cs _

/-- What is read of a constraint of a column; a condition lists no columns. -/
theorem clause?_definition {c : Column} {k : ConstraintKind} {definition : String}
    (h : k.definition? c = some definition) (n : String) :
    clause? (t.alter ("ADD CONSTRAINT " ++ quoteIdent n ++ " " ++ definition))
      = some (.constrain (if k = .check then [] else [c.name])) := by
  have hone : ", ".intercalate ([c.name].map quoteIdent) = quoteIdent c.name := rfl
  -- a definition names its column behind the kind; a check names none
  cases k with
  | unique =>
    unfold ConstraintKind.definition? at h
    dsimp only at h
    split at h
    · cases h
      have hread := clause?_constraint t (k := " UNIQUE (") (by decide) n c.name [] ""
      rw [hone] at hread
      rw [if_neg (by decide), ← hread]
      simp only [String.append_assoc]
      rfl
    · cases h
  | foreignKey =>
    obtain ⟨key, -, rfl⟩ := Option.map_eq_some_iff.1 h
    have hread := clause?_constraint t (k := " FOREIGN KEY (") (by decide) n c.name []
      (" " ++ key.toSql)
    rw [hone] at hread
    rw [if_neg (by decide), ← hread]
    simp only [String.append_assoc]
    rfl
  | check =>
    obtain ⟨e, -, rfl⟩ := Option.map_eq_some_iff.1 h
    have hend : EndsName (" CHECK (" ++ e ++ ")").toList := by
      rw [String.toList_append, String.toList_append, List.append_assoc]
      exact endsName_append ⟨' ', by decide⟩
    have hread := clause?_addConstraint t n (" CHECK (" ++ e ++ ")") hend
    rw [constraint?_check] at hread
    rw [if_pos rfl, ← hread]
    simp only [String.append_assoc]
    rfl

/-- The statements of a modification ask for the column and leave the names as they are. -/
theorem executeAll_modify {names : Names} {a c : Column} (hc : names c.name = true) (d : Bool)
    (changes : List ColumnChange) : executeAll names (t.modify d a c changes) = some names := by
  refine executeAll_of_stays fun sql hsql => ?_
  rcases mem_modify hsql with hkey | ⟨k, -, rfl⟩ | ⟨action, -, rfl⟩ | ⟨k, definition, hk, rfl⟩
  · rw [mem_dropKey hkey, execute_dropConstraint]
  · exact execute_dropConstraint t names _
  · exact execute_of_clause (clause?_alterColumn t c.name action) (by simp [Clause.perform, hc])
  · refine execute_of_clause (clause?_definition t hk _) ?_
    split
    · rfl
    · simp [Clause.perform, hc]

/-- **The statements of a step do to the names what its operation does to the columns.** -/
theorem operation_faithful (new : Table) (d : Bool) (s : Step) :
    Faithful new (t.operation d s) := by
  intro cols cols' hperform
  -- a step that is performed finds its column, or its new name free: the statements find the same
  cases s with
  | rename a b p =>
    simp only [Target.operation, perform] at hperform
    split at hperform
    · next source hsource htarget =>
      cases hperform
      have ha : domain cols a.name = true := by
        unfold domain
        rw [hsource]
        rfl
      have hrun : execute (domain cols)
          (t.alter ("RENAME COLUMN " ++ quoteIdent a.name ++ " TO " ++ quoteIdent b.name))
          = some (Function.update (Function.update (domain cols) a.name false) b.name true) := by
        unfold execute
        rw [clause?_rename]
        simp [Clause.perform, ha]
      simp only [Target.operation]
      rw [executeAll_cons, hrun, domain_update, domain_update]
      rfl
    · cases hperform
  | modify a c renamed =>
    simp only [Target.operation, perform] at hperform
    split at hperform
    · next c' source hc' hsource =>
      cases hperform
      have hc : domain cols c.name = true := by
        unfold domain
        rw [hsource]
        rfl
      have hstay : Function.update (domain cols) c.name true = domain cols := by
        rw [← hc, Function.update_eq_self]
      simp only [Target.operation]
      rw [executeAll_modify t hc, domain_update]
      exact congrArg some hstay.symm
    · cases hperform
  | add c =>
    simp only [Target.operation, perform] at hperform
    split at hperform
    · next c' hc' hnone =>
      cases hperform
      have hrun : ∀ e : Column, e.name = c.name →
          executeAll (domain cols) [t.alter ("ADD COLUMN " ++ e.toSql)]
            = some (Function.update (domain cols) c.name true) := by
        intro e he
        rw [executeAll_cons]
        unfold execute
        rw [clause?_add, he]
        rfl
      simp only [Target.operation]
      rw [domain_update]
      split
      · rw [executeAll_append, execute_dropKey]
        exact hrun c.withoutPrimaryKey rfl
      · exact hrun c rfl
    · cases hperform
  | drop c =>
    simp only [Target.operation, perform] at hperform
    split at hperform
    · next source hsource =>
      cases hperform
      have hc : domain cols c.name = true := by
        unfold domain
        rw [hsource]
        rfl
      have hkey : executeAll (domain cols) (if c.inPrimaryKey then t.dropKey d else [])
          = some (domain cols) := by
        by_cases hk : c.inPrimaryKey = true
        · rw [if_pos hk, execute_dropKey]
        · rw [if_neg hk]
          rfl
      simp only [Target.operation]
      rw [executeAll_append, hkey, domain_update, Option.bind_some, executeAll_cons]
      unfold execute
      rw [clause?_drop]
      simp [Clause.perform, hc, executeAll]
    · cases hperform

/-! ## §2. Statements of a list of operations. -/

/-- The statements of some operations. -/
def statements (ops : List Operation) : List String := ops.flatMap (·.sql)

/-- **Where operations can be replayed, their statements can be run.** -/
theorem executeAll_of_replay {new : Table} {ops : List Operation}
    (h : ∀ o ∈ ops, Faithful new o) {cols cols' : Columns}
    (hrun : replay new cols (ops.map (·.kind)) = some cols') :
    executeAll (domain cols) (statements ops) = some (domain cols') := by
  induction ops generalizing cols with
  | nil =>
    cases hrun
    rfl
  | cons o ops ih =>
    unfold replay at hrun
    rw [List.map_cons, List.foldlM_cons] at hrun
    obtain ⟨mid, hmid, hrest⟩ := Option.bind_eq_some_iff.1 hrun
    unfold statements
    rw [List.flatMap_cons, executeAll_append, h o List.mem_cons_self _ _ hmid]
    exact ih (fun o' ho' => h o' (List.mem_cons_of_mem _ ho')) hrest

/-- What stands among the operations of some steps is the operation of one of them; a key
that is dropped stays dropped. -/
theorem mem_operations {d : Bool} {ss : List Step} {x : Operation × Bool}
    (h : x ∈ t.operations d ss) :
    ∃ d', ∃ s ∈ ss, x = (t.operation d' s, Target.touchesKey s)
      ∧ Target.isOmitted s (t.operation d' s) = false ∧ (d = true → d' = true) := by
  induction ss generalizing d with
  | nil => cases h
  | cons s ss ih =>
    rw [Target.operations_cons] at h
    rcases List.mem_append.1 h with hs | hrest
    · unfold Target.stepOperations at hs
      by_cases homit : Target.isOmitted s (t.operation d s) = true
      · rw [if_pos homit] at hs
        cases hs
      · rw [if_neg homit] at hs
        exact ⟨d, s, List.mem_cons_self, List.mem_singleton.1 hs, by simpa using homit, id⟩
    · obtain ⟨d', s', hs', hx, homit, hd⟩ := ih hrest
      exact ⟨d', s', List.mem_cons_of_mem _ hs', hx, homit, fun h => hd (by rw [h]; rfl)⟩

/-- A step that is never left out has its operation. -/
theorem exists_operation {d : Bool} {ss : List Step} {s : Step} (h : s ∈ ss)
    (hstays : ∀ d', Target.isOmitted s (t.operation d' s) = false) :
    ∃ d', (t.operation d' s, Target.touchesKey s) ∈ t.operations d ss := by
  induction ss generalizing d with
  | nil => cases h
  | cons s' ss ih =>
    rw [Target.operations_cons]
    rcases List.mem_cons.1 h with rfl | h
    · refine ⟨d, List.mem_append_left _ ?_⟩
      unfold Target.stepOperations
      rw [hstays d]
      exact List.mem_cons_self
    · obtain ⟨d', hd'⟩ := ih h
      exact ⟨d', List.mem_append_right _ hd'⟩

/-! ## §3. Where the new key is added. -/

/-- If no operation touches the key, nothing is added. -/
theorem appendToLast_untouched (sql : List String) {ops : List (Operation × Bool)}
    (h : ∀ x ∈ ops, x.2 = false) : appendToLast sql ops = ops.map (·.1) := by
  induction ops with
  | nil => rfl
  | cons x rest ih =>
    obtain ⟨o, touches⟩ := x
    have htouches : touches = false := h _ List.mem_cons_self
    unfold appendToLast
    rw [htouches, ih fun y hy => h y (List.mem_cons_of_mem _ hy)]
    rfl

/-- **The new key is added behind the last operation that touches it.** -/
theorem appendToLast_split (sql : List String) (front back : List (Operation × Bool))
    (o : Operation) (h : ∀ x ∈ back, x.2 = false) :
    appendToLast sql (front ++ (o, true) :: back)
      = front.map (·.1) ++ { o with sql := o.sql ++ sql } :: back.map (·.1) := by
  have hback : back.any (·.2) = false := by
    rw [List.any_eq_false]
    intro x hx
    rw [h x hx]
    decide
  induction front with
  | nil =>
    rw [List.nil_append, appendToLast, hback]
    rfl
  | cons x front ih =>
    obtain ⟨a, touches⟩ := x
    rw [List.cons_append, appendToLast]
    have hany : (front ++ (o, true) :: back).any (·.2) = true := by simp
    rw [hany, ih]
    simp

end SchemaDrift.Alter
