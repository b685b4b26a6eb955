/-
  SchemaDrift.Rename.Matching
  ───────────────────────────
  **WHICH REMOVED COLUMN BECAME WHICH ADDED ONE.**

  All pairs that reach the threshold stand in line, the best score first, then by the
  index of the old column, then by that of the new one.  Each is taken unless one of its
  columns is taken already.
-/

import SchemaDrift.Rename.Score

namespace SchemaDrift.Rename

/-- An old column and a new one, by their places in their tables, with their score. -/
structure Pairing where
  oldIndex : Nat
  newIndex : Nat
  score : Rat
  deriving Repr, DecidableEq

/-- The pairing is to be confirmed by hand. -/
def Pairing.unsure (p : Pairing) : Bool := needsConfirmation p.score

/-- The order in which pairings are considered. -/
def Pairing.before (p q : Pairing) : Bool :=
  q.score < p.score
    || (p.score = q.score
      && (p.oldIndex < q.oldIndex || (p.oldIndex = q.oldIndex && p.newIndex ≤ q.newIndex)))

/-- The pairings that reach the threshold. -/
def candidates (removed added : List (Nat × Column)) : List Pairing :=
  (removed.flatMap fun (i, old) => added.map fun (j, new) => ⟨i, j, score old new⟩).filter
    fun p => reachesThreshold p.score

/-- Takes each pairing whose columns are not among those taken before. -/
def greedy (takenOld takenNew : List Nat) : List Pairing → List Pairing
  | [] => []
  | p :: rest =>
    if takenOld.contains p.oldIndex || takenNew.contains p.newIndex then
      greedy takenOld takenNew rest
    else p :: greedy (p.oldIndex :: takenOld) (p.newIndex :: takenNew) rest

/-- The renames among removed and added columns. -/
def matching (removed added : List (Nat × Column)) : List Pairing :=
  greedy [] [] ((candidates removed added).mergeSort Pairing.before)

end SchemaDrift.Rename
