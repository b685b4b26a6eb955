/-
  SchemaDrift.Proofs.Alter.Operations
  ───────────────────────────────────
  **WHICH OPERATIONS COME OF WHICH STEPS.**

  The operations of a list of steps are those of its parts one behind the other
  (`operations_append`); the only thing a part hands on is whether the old key is dropped.
  What the operations do does not depend on where the new key is added
  (`appendToLast_kinds`).
-/

import SchemaDrift.Alter.Operation

namespace SchemaDrift.Alter

namespace Target

/-! ## §1. The operations of steps. -/

/-- The operation of a step, or none if it is left out. -/
def stepOperations (t : Target) (d : Bool) (s : Step) : List (Operation × Bool) :=
  if isOmitted s (t.operation d s) then [] else [(t.operation d s, touchesKey s)]

theorem operations_cons (t : Target) (d : Bool) (s : Step) (rest : List Step) :
    t.operations d (s :: rest)
      = t.stepOperations d s ++ t.operations (d || touchesKey s) rest := by
  rw [operations]
  unfold stepOperations
  by_cases h : isOmitted s (t.operation d s) = true
  · rw [if_pos h, if_pos h, List.nil_append]
  · rw [if_neg h, if_neg h]
    rfl

/-- **The operations of some steps and then of others.** -/
theorem operations_append (t : Target) (d : Bool) (xs ys : List Step) :
    t.operations d (xs ++ ys)
      = t.operations d xs ++ t.operations (d || xs.any touchesKey) ys := by
  induction xs generalizing d with
  | nil => simp [operations]
  | cons s xs ih =>
    rw [List.cons_append, operations_cons, operations_cons, ih, List.any_cons, Bool.or_assoc,
      List.append_assoc]

/-- What the operations of some steps do. -/
def kinds (t : Target) (d : Bool) (ss : List Step) : List OperationKind :=
  (t.operations d ss).map (·.1.kind)

@[simp] theorem kinds_nil (t : Target) (d : Bool) : t.kinds d [] = [] := rfl

theorem kinds_cons (t : Target) (d : Bool) (s : Step) (rest : List Step) :
    t.kinds d (s :: rest)
      = (if isOmitted s (t.operation d s) then [] else [(t.operation d s).kind])
        ++ t.kinds (d || touchesKey s) rest := by
  unfold kinds
  rw [operations_cons, List.map_append]
  unfold stepOperations
  by_cases h : isOmitted s (t.operation d s) = true
  · rw [if_pos h, if_pos h]
    rfl
  · rw [if_neg h, if_neg h]
    rfl

theorem kinds_append (t : Target) (d : Bool) (xs ys : List Step) :
    t.kinds d (xs ++ ys) = t.kinds d xs ++ t.kinds (d || xs.any touchesKey) ys := by
  unfold kinds
  rw [operations_append, List.map_append]

end Target

/-! ## §2. The new key. -/

/-- Adding statements to an operation leaves what it does. -/
theorem appendToLast_kinds (sql : List String) (ops : List (Operation × Bool)) :
    (appendToLast sql ops).map (·.kind) = ops.map (·.1.kind) := by
  induction ops with
  | nil => rfl
  | cons op rest ih =>
    obtain ⟨o, touches⟩ := op
    unfold appendToLast
    split
    · simp [Function.comp_def]
    · rw [List.map_cons, ih, List.map_cons]

end SchemaDrift.Alter
