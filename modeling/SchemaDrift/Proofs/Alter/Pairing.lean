/-
  SchemaDrift.Proofs.Alter.Pairing
  ────────────────────────────────
  **NO COLUMN IS DROPPED WHERE ONE OF ITS TYPE IS ADDED.**

  What is dropped and what is added are the columns that no rename takes (`diff_dropped`,
  `diff_added`).  Two columns of one type reach the threshold whatever they are called, and of a
  pair that reaches it at least one is renamed (`dropped_type_ne`).
-/

import SchemaDrift.Proofs.Alter.Operations
import SchemaDrift.Proofs.Alter.Plan
import SchemaDrift.Proofs.Rename.Score
import SchemaDrift.Proofs.Rename.Stable

namespace SchemaDrift.Alter

open SchemaDrift.Rename

/-! ## §1. What the operations do. -/

/-- The column that is dropped. -/
def OperationKind.dropped? : OperationKind → Option String
  | .drop column => some column
  | _ => none

/-- The column that is added. -/
def OperationKind.added? : OperationKind → Option String
  | .add column => some column
  | _ => none

/-- What the operation of a step does. -/
def Step.kind : Step → OperationKind
  | .rename old new p => .rename old.name new.name p.score p.unsure
  | .modify old new _ => .modify new.name (columnChanges old new)
  | .add c => .add c.name
  | .drop c => .drop c.name

theorem operation_kind (t : Target) (d : Bool) (s : Step) : (t.operation d s).kind = s.kind := by
  cases s <;> rfl

/-- What is told of the operations other than modifications can be told of the steps. -/
theorem filterMap_diff {f : OperationKind → Option String}
    (hf : ∀ column changes, f (.modify column changes) = none) (old new : Table) :
    (diff old new).filterMap (f ·.kind) = (steps old new).filterMap (f ·.kind) := by
  have hsteps : ∀ (t : Target) (ss : List Step) (d : Bool),
      (t.kinds d ss).filterMap f = ss.filterMap (f ·.kind) := by
    intro t ss
    induction ss with
    | nil => intro d; rfl
    | cons s ss ih =>
      intro d
      rw [Target.kinds_cons, List.filterMap_append, ih, operation_kind]
      by_cases homitted : Target.isOmitted s (t.operation d s) = true
      · -- only a modification is left out
        rw [if_pos homitted]
        cases s with
        | modify a b renamed =>
          have hnone : f (Step.modify a b renamed).kind = none := hf _ _
          rw [List.filterMap_cons, hnone]
          rfl
        | rename a b p => cases homitted
        | add c => cases homitted
        | drop c => cases homitted
      · rw [if_neg homitted, List.filterMap_cons, List.filterMap_cons, List.filterMap_nil]
        cases f s.kind <;> rfl
  have hkinds := hsteps ⟨new, keyChanges old new⟩ (steps old new) false
  unfold Target.kinds at hkinds
  rw [← hkinds, ← appendToLast_kinds (Target.addKey ⟨new, keyChanges old new⟩), List.filterMap_map]
  rfl

/-- Neither renames nor modifications of kept columns drop or add one. -/
theorem filterMap_steps {f : OperationKind → Option String}
    (hmodify : ∀ column changes, f (.modify column changes) = none)
    (hrename : ∀ a b s u, f (.rename a b s u) = none) (old new : Table) :
    (steps old new).filterMap (f ·.kind) = (added old new).filterMap (fun c => f (.add c.name))
      ++ (dropped old new).filterMap fun c => f (.drop c.name) := by
  have hmodification : ∀ a b renamed, (modification a b renamed).filterMap (f ·.kind) = [] := by
    intro a b renamed
    rw [List.filterMap_eq_nil_iff]
    intro s hs
    rw [(mem_modification.1 hs).2]
    exact hmodify _ _
  have hrenamed : ((renamings old new).flatMap Renaming.steps).filterMap (f ·.kind) = [] := by
    rw [List.filterMap_eq_nil_iff]
    intro s hs
    obtain ⟨r, -, hs⟩ := List.mem_flatMap.1 hs
    rcases List.mem_cons.1 hs with rfl | hs
    · exact hrename _ _ _ _
    · exact List.filterMap_eq_nil_iff.1 (hmodification _ _ _) s hs
  have hkept : (keptSteps old new).filterMap (f ·.kind) = [] := by
    rw [List.filterMap_eq_nil_iff]
    intro s hs
    obtain ⟨p, -, hs⟩ := List.mem_flatMap.1 hs
    exact List.filterMap_eq_nil_iff.1 (hmodification _ _ _) s hs
  rw [steps_eq, List.filterMap_append, List.filterMap_append, List.filterMap_append, hrenamed, hkept,
    List.nil_append, List.append_nil, List.filterMap_map, List.filterMap_map]
  rfl

/-- **The columns that are dropped**, one operation each. -/
theorem diff_dropped (old new : Table) :
    (diff old new).filterMap (·.kind.dropped?) = (dropped old new).map (·.name) := by
  have hadded : (added old new).filterMap (fun c => (OperationKind.add c.name).dropped?) = [] :=
    List.filterMap_eq_nil_iff.2 fun _ _ => rfl
  rw [filterMap_diff (fun _ _ => rfl), filterMap_steps (fun _ _ => rfl) (fun _ _ _ _ => rfl), hadded,
    List.nil_append]
  exact congrFun List.filterMap_eq_map' _

/-- **The columns that are added**, one operation each. -/
theorem diff_added (old new : Table) :
    (diff old new).filterMap (·.kind.added?) = (added old new).map (·.name) := by
  have hdropped : (dropped old new).filterMap (fun c => (OperationKind.drop c.name).added?) = [] :=
    List.filterMap_eq_nil_iff.2 fun _ _ => rfl
  rw [filterMap_diff (fun _ _ => rfl), filterMap_steps (fun _ _ => rfl) (fun _ _ _ _ => rfl), hdropped,
    List.append_nil]
  exact congrFun List.filterMap_eq_map' _

/-! ## §2. Types. -/

/-- **No column is dropped and another one of its type added.** -/
theorem dropped_type_ne {old new : Table} {c d : Column} (hc : c ∈ dropped old new)
    (hd : d ∈ added old new) : c.dataType ≠ d.dataType := by
  intro htype
  obtain ⟨⟨i, c⟩, hi, rfl⟩ := List.mem_map.1 hc
  obtain ⟨⟨j, d⟩, hj, rfl⟩ := List.mem_map.1 hd
  obtain ⟨hremoved, hfree⟩ := List.mem_filter.1 hi
  obtain ⟨hadded, hfree'⟩ := List.mem_filter.1 hj
  have hnone : ∀ p ∈ renames old new, p.oldIndex ≠ i ∧ p.newIndex ≠ j := by
    simp only [Bool.not_eq_true', List.any_eq_false, decide_eq_true_eq] at hfree hfree'
    exact fun p hp => ⟨hfree p hp, hfree' p hp⟩
  have hcandidate : (⟨i, j, score c d⟩ : Pairing)
      ∈ candidates (columnsBeside old new.columnNames) (columnsBeside new old.columnNames) :=
    mem_candidates.2 ⟨reachesThreshold_of_type_eq htype, c, d, hremoved, hadded, rfl⟩
  rcases matching_stable hcandidate with htaken | ⟨q, hq, -, hshared⟩
  · exact (hnone _ htaken).1 rfl
  · rcases hshared with h | h
    · exact (hnone q hq).1 h
    · exact (hnone q hq).2 h

/-- **The matching of renames is greedy and stable.**  No column is taken twice, and every pairing
taken is one of a removed column and an added one and reaches the threshold.  One that reaches it
and is not taken shares a column with one that is taken and precedes it, so none is left of which
both columns are free.  The order in which the columns are given makes no difference.  So a table
never loses a column and gains another one of the same type. -/
theorem matching_greedy (removed added : List (Nat × Column)) :
    (matching removed added).Pairwise Pairing.Apart
      ∧ (∀ p ∈ matching removed added, reachesThreshold p.score = true
        ∧ ∃ a b, (p.oldIndex, a) ∈ removed ∧ (p.newIndex, b) ∈ added ∧ p.score = score a b)
      ∧ (∀ i a j b, (i, a) ∈ removed → (j, b) ∈ added → reachesThreshold (score a b) = true →
        (⟨i, j, score a b⟩ ∈ matching removed added
          ∨ ∃ q ∈ matching removed added, q.Precedes ⟨i, j, score a b⟩
            ∧ (q.oldIndex = i ∨ q.newIndex = j))
          ∧ ∃ q ∈ matching removed added, q.oldIndex = i ∨ q.newIndex = j)
      ∧ (∀ removed' added', removed.Perm removed' → added.Perm added' →
        matching removed' added' = matching removed added)
      ∧ ∀ old new : Table,
        (diff old new).filterMap (·.kind.dropped?) = (dropped old new).map (·.name)
          ∧ (diff old new).filterMap (·.kind.added?) = (Alter.added old new).map (·.name)
          ∧ ∀ c ∈ dropped old new, ∀ d ∈ Alter.added old new, c.dataType ≠ d.dataType := by
  refine ⟨matching_pairwise removed added, fun p hp => mem_candidates.1 (candidate_of_mem hp), ?_,
    fun _ _ hremoved hadded => (matching_perm hremoved hadded).symm,
    fun old new => ⟨diff_dropped old new, diff_added old new,
      fun c hc d hd => dropped_type_ne hc hd⟩⟩
  intro i a j b ha hb hreaches
  have hstable := matching_stable (p := ⟨i, j, score a b⟩)
    (mem_candidates.2 ⟨hreaches, a, b, ha, hb, rfl⟩)
  refine ⟨hstable, ?_⟩
  rcases hstable with htaken | ⟨q, hq, -, hshared⟩
  · exact ⟨_, htaken, Or.inl rfl⟩
  · exact ⟨q, hq, hshared⟩

/-- Of two columns that are equally like a new one, the first in its table is renamed, whichever is
given first. -/
theorem matching_greedy_tie :
    let a : Column := { name := "aaa", dataType := "INT" }
    let b : Column := { name := "bbb", dataType := "INT" }
    let x : Column := { name := "xxx", dataType := "INT" }
    matching [(1, a), (3, b)] [(0, x)] = matching [(3, b), (1, a)] [(0, x)]
      ∧ (⟨1, 0, score a x⟩ : Pairing) ∈ matching [(3, b), (1, a)] [(0, x)] := by
  intro a b x
  obtain ⟨-, hcandidates, hstable, hperm, -⟩ := matching_greedy [(3, b), (1, a)] [(0, x)]
  refine ⟨hperm _ _ (List.Perm.swap _ _ _) (List.Perm.refl _), ?_⟩
  rcases (hstable 1 a 0 x (by simp) (by simp) (by decide +kernel)).1 with htaken | ⟨q, hq, hbetter, -⟩
  · exact htaken
  · -- nothing precedes it: the other column has the same score
    exfalso
    have htie : score b x = score a x := by decide +kernel
    obtain ⟨-, c, d, hc, hd, hscore⟩ := hcandidates q hq
    obtain ⟨i, j, s⟩ := q
    simp only [List.mem_cons, Prod.mk.injEq, List.not_mem_nil, or_false] at hc hd
    obtain ⟨rfl, rfl⟩ := hd
    unfold Pairing.Precedes at hbetter
    rcases hc with ⟨rfl, rfl⟩ | ⟨rfl, rfl⟩ <;> dsimp only at hscore hbetter <;>
      rw [hscore] at hbetter
    · rw [htie] at hbetter
      simp at hbetter
    · simp at hbetter

end SchemaDrift.Alter
