/-
  SchemaDrift.Proofs.Rename.Matching
  ──────────────────────────────────
  **A MATCHING PAIRS COLUMNS OFF.**

  Candidates are taken greedily, so whatever the scores are, no column of either side is
  taken twice (`matching_pairwise`), and only columns that were offered are taken
  (`mem_matching`).
-/

import SchemaDrift.Rename.Matching

namespace SchemaDrift.Rename

/-- Two pairings have no column in common. -/
def Pairing.Apart (p q : Pairing) : Prop := p.oldIndex ≠ q.oldIndex ∧ p.newIndex ≠ q.newIndex

/-- What is taken was in line, and neither of its columns was taken before. -/
theorem mem_greedy {takenOld takenNew : List Nat} {l : List Pairing} {p : Pairing}
    (h : p ∈ greedy takenOld takenNew l) :
    p ∈ l ∧ p.oldIndex ∉ takenOld ∧ p.newIndex ∉ takenNew := by
  induction l generalizing takenOld takenNew with
  | nil => simp [greedy] at h
  | cons q rest ih =>
    unfold greedy at h
    split at h
    · -- `q` is passed over
      obtain ⟨hmem, hfresh⟩ := ih h
      exact ⟨List.mem_cons_of_mem _ hmem, hfresh⟩
    · next hq =>
      rcases List.mem_cons.1 h with rfl | h
      · simp only [Bool.or_eq_true, List.contains_iff_mem, not_or] at hq
        exact ⟨List.mem_cons_self, hq⟩
      · obtain ⟨hmem, hold, hnew⟩ := ih h
        refine ⟨List.mem_cons_of_mem _ hmem, ?_, ?_⟩
        · intro hin
          exact hold (List.mem_cons_of_mem _ hin)
        · intro hin
          exact hnew (List.mem_cons_of_mem _ hin)

/-- No column is taken twice. -/
theorem greedy_pairwise (takenOld takenNew : List Nat) (l : List Pairing) :
    (greedy takenOld takenNew l).Pairwise Pairing.Apart := by
  induction l generalizing takenOld takenNew with
  | nil => exact List.Pairwise.nil
  | cons q rest ih =>
    unfold greedy
    split
    · exact ih takenOld takenNew
    · refine List.pairwise_cons.2 ⟨?_, ih _ _⟩
      intro p hp
      obtain ⟨-, hold, hnew⟩ := mem_greedy hp
      constructor
      · intro he
        exact hold (he ▸ List.mem_cons_self)
      · intro he
        exact hnew (he ▸ List.mem_cons_self)

/-- **A matching takes no column twice.** -/
theorem matching_pairwise (removed added : List (Nat × Column)) :
    (matching removed added).Pairwise Pairing.Apart :=
  greedy_pairwise [] [] _

/-- A matching takes only columns that were offered. -/
theorem mem_matching {removed added : List (Nat × Column)} {p : Pairing}
    (h : p ∈ matching removed added) :
    (∃ c, (p.oldIndex, c) ∈ removed) ∧ ∃ c, (p.newIndex, c) ∈ added := by
  obtain ⟨hsorted, -⟩ := mem_greedy h
  have hcand : p ∈ candidates removed added := List.mem_mergeSort.1 hsorted
  unfold candidates at hcand
  obtain ⟨hpair, -⟩ := List.mem_filter.1 hcand
  obtain ⟨⟨i, a⟩, ha, hrow⟩ := List.mem_flatMap.1 hpair
  obtain ⟨⟨j, b⟩, hb, rfl⟩ := List.mem_map.1 hrow
  exact ⟨⟨a, ha⟩, ⟨b, hb⟩⟩

end SchemaDrift.Rename
