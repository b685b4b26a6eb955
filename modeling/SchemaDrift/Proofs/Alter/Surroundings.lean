/-
  SchemaDrift.Proofs.Alter.Surroundings
  ─────────────────────────────────────
  **WHERE THE STATEMENTS OF A STEP STAND AMONG THOSE OF A DIFFERENCE.**

  A difference is cut at one of its steps: in front of the statements of the step stand
  those of earlier steps, behind them those of later ones (`statements_around`).  The
  statement that adds the new key may stand on either side.
-/

import SchemaDrift.Proofs.Alter.KeyPlacement
import SchemaDrift.Proofs.Alter.Wording

namespace SchemaDrift.Alter

open SchemaDrift.Sql

/-! ## §1. The new key among parts of the operations. -/

theorem statements_append (xs ys : List Operation) :
    statements (xs ++ ys) = statements xs ++ statements ys := List.flatMap_append

/-- **The new key is added in that part of the operations that touches it last.** -/
theorem appendToLast_append (sql : List String) (xs ys : List (Operation × Bool)) :
    appendToLast sql (xs ++ ys)
      = if ys.any (·.2) then xs.map (·.1) ++ appendToLast sql ys
        else appendToLast sql xs ++ ys.map (·.1) := by
  induction xs with
  | nil =>
    rw [List.nil_append]
    split
    · rfl
    · next hnone =>
      refine appendToLast_untouched sql fun x hx => ?_
      by_contra htouches
      exact hnone (List.any_eq_true.2 ⟨x, hx, by simpa using htouches⟩)
  | cons x xs ih =>
    obtain ⟨o, touches⟩ := x
    rw [List.cons_append]
    by_cases hys : ys.any (·.2) = true
    · rw [if_pos hys] at ih ⊢
      rw [appendToLast, List.any_append, hys, Bool.or_true, Bool.not_true, Bool.and_false,
        if_neg Bool.false_ne_true, ih]
      rfl
    · have hnone : ys.any (·.2) = false := by simpa using hys
      rw [if_neg hys] at ih ⊢
      rw [appendToLast, List.any_append, hnone, Bool.or_false, appendToLast]
      split
      · rw [List.map_append]
        rfl
      · rw [ih]
        rfl

/-! ## §2. The statements around a step. -/

variable {old new : Table}

/-- The statement is one of these steps, or adds the new key. -/
def FromSteps (t : Target) (ss : List Step) (sql : String) : Prop :=
  sql ∈ t.addKey ∨ ∃ s ∈ ss, ∃ d, sql ∈ (t.operation d s).sql

theorem fromSteps_operations {t : Target} {d : Bool} {ss : List Step} {sql : String}
    (h : sql ∈ statements ((t.operations d ss).map (·.1))) : FromSteps t ss sql := by
  obtain ⟨o, ho, hsql⟩ := List.mem_flatMap.1 h
  obtain ⟨x, hx, rfl⟩ := List.mem_map.1 ho
  obtain ⟨d', s, hs, rfl, -⟩ := mem_operations t hx
  exact Or.inr ⟨s, hs, d', hsql⟩

theorem fromSteps_appendToLast {t : Target} {d : Bool} {ss : List Step} {sql : String}
    (h : sql ∈ statements (appendToLast t.addKey (t.operations d ss))) : FromSteps t ss sql := by
  obtain ⟨o, ho, hsql⟩ := List.mem_flatMap.1 h
  obtain ⟨x, hx, -, hsub⟩ := mem_appendToLast ho
  rcases hsub sql hsql with hsql | hsql
  · obtain ⟨d', s, hs, rfl, -⟩ := mem_operations t hx
    exact Or.inr ⟨s, hs, d', hsql⟩
  · exact Or.inl hsql

/-- Every statement of a difference is one of its steps, or adds the new key. -/
theorem fromSteps_diff {sql : String} (h : sql ∈ statements (diff old new)) :
    FromSteps (target old new) (steps old new) sql :=
  fromSteps_appendToLast h

/-- **The statements of a step stand together**, with those of the steps in front of it before
them and those of the steps behind it after them. -/
theorem statements_around {s : Step} {front back : List Step}
    (h : steps old new = front ++ s :: back)
    (hstays : ∀ d, Target.isOmitted s ((target old new).operation d s) = false) :
    ∃ d before after, statements (diff old new)
        = before ++ ((target old new).operation d s).sql ++ after
      ∧ (∀ sql ∈ before, FromSteps (target old new) front sql)
      ∧ ∀ sql ∈ after, FromSteps (target old new) back sql := by
  obtain ⟨t, ht⟩ : ∃ t, t = target old new := ⟨_, rfl⟩
  have hdiff : diff old new = appendToLast t.addKey (t.operations false (steps old new)) := by
    rw [ht]
    rfl
  -- whether the old key is dropped in front of the step does not matter, nor whether behind it
  obtain ⟨d, hd⟩ : ∃ d, d = (false || front.any Target.touchesKey) := ⟨_, rfl⟩
  rw [← ht] at hstays ⊢
  rw [hdiff, h, Target.operations_append, Target.operations_cons, ← hd]
  have hstep : t.stepOperations d s = [(t.operation d s, Target.touchesKey s)] := by
    unfold Target.stepOperations
    rw [if_neg (by rw [hstays d]; exact Bool.false_ne_true)]
  rw [hstep, List.singleton_append, appendToLast_append]
  generalize (d || Target.touchesKey s) = d'
  refine ⟨d, ?_⟩
  by_cases hback : (t.operations d' back).any (·.2) = true
  · -- a later operation touches the key
    rw [List.any_cons, hback, Bool.or_true, if_pos rfl, appendToLast, hback, Bool.not_true,
      Bool.and_false, if_neg Bool.false_ne_true, statements_append]
    refine ⟨statements ((t.operations false front).map (·.1)),
      statements (appendToLast t.addKey (t.operations d' back)), ?_, ?_, ?_⟩
    · rw [List.append_assoc]
      rfl
    · exact fun sql hsql => fromSteps_operations hsql
    · exact fun sql hsql => fromSteps_appendToLast hsql
  · have hnone : (t.operations d' back).any (·.2) = false := by simpa using hback
    rw [List.any_cons, hnone, Bool.or_false]
    by_cases htouches : Target.touchesKey s = true
    · -- this one is the last to touch it, and the new key follows
      rw [if_pos htouches, appendToLast, hnone, htouches, Bool.not_false, Bool.and_true, if_pos rfl,
        statements_append]
      refine ⟨statements ((t.operations false front).map (·.1)),
        t.addKey ++ statements ((t.operations d' back).map (·.1)), ?_, ?_, ?_⟩
      · unfold statements
        rw [List.flatMap_cons]
        simp only [List.append_assoc]
      · exact fun sql hsql => fromSteps_operations hsql
      · intro sql hsql
        rcases List.mem_append.1 hsql with hsql | hsql
        · exact Or.inl hsql
        · exact fromSteps_operations hsql
    · rw [if_neg htouches, statements_append]
      refine ⟨statements (appendToLast t.addKey (t.operations false front)),
        statements ((t.operations d' back).map (·.1)), ?_, ?_, ?_⟩
      · rw [List.append_assoc]
        rfl
      · exact fun sql hsql => fromSteps_appendToLast hsql
      · exact fun sql hsql => fromSteps_operations hsql

end SchemaDrift.Alter
