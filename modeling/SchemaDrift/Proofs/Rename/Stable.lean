/-
  SchemaDrift.Proofs.Rename.Stable
  ────────────────────────────────
  **A GREEDY MATCHING IS STABLE.**

  Pairings are considered in a linear order (`Pairing.before_iff`).  A pairing that is passed over
  has a column in common with one that was taken before it, so none of those that are left could
  replace one that was taken (`matching_stable`), and the result does not depend on the order in
  which the columns are given (`matching_perm`).
-/

import Mathlib.Algebra.Order.Ring.Rat
import Mathlib.Data.List.Perm.Basic
import SchemaDrift.Proofs.Rename.Matching

namespace SchemaDrift.Rename

/-! ## §1. The order of pairings. -/

/-- The pairing has the better score, or the same and the smaller index of the old column, or the
same of both and the smaller index of the new column. -/
def Pairing.Precedes (p q : Pairing) : Prop :=
  q.score < p.score ∨ p.score = q.score
    ∧ (p.oldIndex < q.oldIndex ∨ p.oldIndex = q.oldIndex ∧ p.newIndex < q.newIndex)

/-- A pairing is considered before another if it precedes it, and also if it is the same. -/
theorem Pairing.before_iff {p q : Pairing} : p.before q = true ↔ p = q ∨ p.Precedes q := by
  obtain ⟨i, j, s⟩ := p
  obtain ⟨i', j', s'⟩ := q
  unfold Pairing.before Pairing.Precedes
  simp only [Bool.or_eq_true, Bool.and_eq_true, decide_eq_true_eq, Pairing.mk.injEq]
  constructor
  · rintro (h | ⟨rfl, h | ⟨rfl, h⟩⟩)
    · exact Or.inr (Or.inl h)
    · exact Or.inr (Or.inr ⟨rfl, Or.inl h⟩)
    · rcases Nat.lt_or_eq_of_le h with h | rfl
      · exact Or.inr (Or.inr ⟨rfl, Or.inr ⟨rfl, h⟩⟩)
      · exact Or.inl ⟨rfl, rfl, rfl⟩
  · rintro (⟨rfl, rfl, rfl⟩ | h | ⟨rfl, h | ⟨rfl, h⟩⟩)
    · exact Or.inr ⟨rfl, Or.inr ⟨rfl, Nat.le_refl _⟩⟩
    · exact Or.inl h
    · exact Or.inr ⟨rfl, Or.inl h⟩
    · exact Or.inr ⟨rfl, Or.inr ⟨rfl, h.le⟩⟩

theorem Pairing.Precedes.trans {p q r : Pairing} (hpq : p.Precedes q) (hqr : q.Precedes r) :
    p.Precedes r := by
  rcases hpq with h | ⟨h, hi⟩
  · rcases hqr with h' | ⟨h', -⟩
    · exact Or.inl (h'.trans h)
    · exact Or.inl (h' ▸ h)
  · rcases hqr with h' | ⟨h', hi'⟩
    · exact Or.inl (h ▸ h')
    · exact Or.inr ⟨h.trans h', by omega⟩

theorem Pairing.Precedes.asymm {p q : Pairing} (hpq : p.Precedes q) : ¬q.Precedes p := by
  rintro (h | ⟨h, hi⟩) <;> rcases hpq with h' | ⟨h', hi'⟩
  · exact lt_asymm h h'
  · exact h.ne h'
  · exact h'.ne h
  · omega

theorem Pairing.precedes_total (p q : Pairing) : p = q ∨ p.Precedes q ∨ q.Precedes p := by
  obtain ⟨i, j, s⟩ := p
  obtain ⟨i', j', s'⟩ := q
  unfold Pairing.Precedes
  dsimp only
  rcases lt_trichotomy s s' with h | rfl | h
  · exact Or.inr (Or.inr (Or.inl h))
  · rcases Nat.lt_trichotomy i i' with h | rfl | h
    · exact Or.inr (Or.inl (Or.inr ⟨rfl, Or.inl h⟩))
    · rcases Nat.lt_trichotomy j j' with h | rfl | h
      · exact Or.inr (Or.inl (Or.inr ⟨rfl, Or.inr ⟨rfl, h⟩⟩))
      · exact Or.inl rfl
      · exact Or.inr (Or.inr (Or.inr ⟨rfl, Or.inr ⟨rfl, h⟩⟩))
    · exact Or.inr (Or.inr (Or.inr ⟨rfl, Or.inl h⟩))
  · exact Or.inr (Or.inl (Or.inl h))

/-- Sorted pairings stand in line. -/
theorem sorted_pairings (l : List Pairing) :
    (l.mergeSort Pairing.before).Pairwise fun p q => p.before q = true := by
  refine List.pairwise_mergeSort (fun p q r hpq hqr => ?_) (fun p q => ?_) l
  · rw [Pairing.before_iff] at hpq hqr ⊢
    rcases hpq with rfl | hpq
    · exact hqr
    · rcases hqr with rfl | hqr
      · exact Or.inr hpq
      · exact Or.inr (hpq.trans hqr)
  · rw [Bool.or_eq_true, Pairing.before_iff, Pairing.before_iff]
    rcases Pairing.precedes_total p q with h | h | h
    · exact Or.inl (Or.inl h)
    · exact Or.inl (Or.inr h)
    · exact Or.inr (Or.inr h)

/-- The same pairings stand in the same line, however they were given. -/
theorem sorted_perm {l l' : List Pairing} (h : l.Perm l') :
    l.mergeSort Pairing.before = l'.mergeSort Pairing.before := by
  refine List.Perm.eq_of_pairwise (fun p q _ _ hpq hqp => ?_) (sorted_pairings l)
    (sorted_pairings l')
    ((List.mergeSort_perm l _).trans (h.trans (List.mergeSort_perm l' _).symm))
  rw [Pairing.before_iff] at hpq hqp
  rcases hpq with hpq | hpq
  · exact hpq
  · rcases hqp with hqp | hqp
    · exact hqp.symm
    · exact absurd hqp hpq.asymm

/-! ## §2. Matchings. -/

/-- **What is not taken shares a column with what was taken before it**, or with what was taken
already. -/
theorem greedy_stable {l : List Pairing} (hl : l.Pairwise fun p q => p.before q = true)
    (takenOld takenNew : List Nat) {p : Pairing} (hp : p ∈ l) :
    p ∈ greedy takenOld takenNew l ∨ p.oldIndex ∈ takenOld ∨ p.newIndex ∈ takenNew
      ∨ ∃ q ∈ greedy takenOld takenNew l, q.before p = true
        ∧ (q.oldIndex = p.oldIndex ∨ q.newIndex = p.newIndex) := by
  induction l generalizing takenOld takenNew with
  | nil => cases hp
  | cons r rest ih =>
    obtain ⟨hr, hrest⟩ := List.pairwise_cons.1 hl
    unfold greedy
    split
    · next htaken =>
      rw [Bool.or_eq_true, List.contains_iff_mem, List.contains_iff_mem] at htaken
      rcases List.mem_cons.1 hp with rfl | hp
      · rcases htaken with h | h
        · exact Or.inr (Or.inl h)
        · exact Or.inr (Or.inr (Or.inl h))
      · exact ih hrest takenOld takenNew hp
    · rcases List.mem_cons.1 hp with rfl | hp
      · exact Or.inl List.mem_cons_self
      -- what was taken already is `r`, or was taken before it
      have hshared : r.oldIndex = p.oldIndex ∨ r.newIndex = p.newIndex →
          ∃ q ∈ r :: greedy (r.oldIndex :: takenOld) (r.newIndex :: takenNew) rest,
            q.before p = true ∧ (q.oldIndex = p.oldIndex ∨ q.newIndex = p.newIndex) :=
        fun h => ⟨r, List.mem_cons_self, hr p hp, h⟩
      rcases ih hrest (r.oldIndex :: takenOld) (r.newIndex :: takenNew) hp with
        h | h | h | ⟨q, hq, h⟩
      · exact Or.inl (List.mem_cons_of_mem r h)
      · rcases List.mem_cons.1 h with h | h
        · exact Or.inr (Or.inr (Or.inr (hshared (Or.inl h.symm))))
        · exact Or.inr (Or.inl h)
      · rcases List.mem_cons.1 h with h | h
        · exact Or.inr (Or.inr (Or.inr (hshared (Or.inr h.symm))))
        · exact Or.inr (Or.inr (Or.inl h))
      · exact Or.inr (Or.inr (Or.inr ⟨q, List.mem_cons_of_mem r hq, h⟩))

theorem mem_candidates {removed added : List (Nat × Column)} {p : Pairing} :
    p ∈ candidates removed added ↔ reachesThreshold p.score = true
      ∧ ∃ a b, (p.oldIndex, a) ∈ removed ∧ (p.newIndex, b) ∈ added ∧ p.score = score a b := by
  unfold candidates
  rw [List.mem_filter, List.mem_flatMap, and_comm]
  refine and_congr_right fun _ => ⟨?_, ?_⟩
  · rintro ⟨⟨i, a⟩, ha, hp⟩
    obtain ⟨⟨j, b⟩, hb, rfl⟩ := List.mem_map.1 hp
    exact ⟨a, b, ha, hb, rfl⟩
  · rintro ⟨a, b, ha, hb, hscore⟩
    refine ⟨(p.oldIndex, a), ha, List.mem_map.2 ⟨(p.newIndex, b), hb, ?_⟩⟩
    show (⟨p.oldIndex, p.newIndex, score a b⟩ : Pairing) = p
    rw [← hscore]

/-- What is taken is a candidate. -/
theorem candidate_of_mem {removed added : List (Nat × Column)} {p : Pairing}
    (h : p ∈ matching removed added) : p ∈ candidates removed added :=
  List.mem_mergeSort.1 (mem_greedy h).1

/-- **A pairing that is left aside shares a column with a better one that is taken.** -/
theorem matching_stable {removed added : List (Nat × Column)} {p : Pairing}
    (h : p ∈ candidates removed added) : p ∈ matching removed added
      ∨ ∃ q ∈ matching removed added, q.Precedes p
        ∧ (q.oldIndex = p.oldIndex ∨ q.newIndex = p.newIndex) := by
  rcases greedy_stable (sorted_pairings (candidates removed added)) [] []
    (List.mem_mergeSort.2 h) with h | h | h | ⟨q, hq, hbefore, hshared⟩
  · exact Or.inl h
  · cases h
  · cases h
  · rcases Pairing.before_iff.1 hbefore with rfl | hprecedes
    · exact Or.inl hq
    · exact Or.inr ⟨q, hq, hprecedes, hshared⟩

/-- **A matching does not depend on the order of the columns.** -/
theorem matching_perm {removed removed' added added' : List (Nat × Column)}
    (hremoved : removed.Perm removed') (hadded : added.Perm added') :
    matching removed added = matching removed' added' := by
  have hcandidates : (candidates removed added).Perm (candidates removed' added') := by
    unfold candidates
    refine List.Perm.filter _ ((hremoved.flatMap_right _).trans ?_)
    exact List.Perm.flatMap_left _ fun _ _ => hadded.map _
  unfold matching
  rw [sorted_perm hcandidates]

end SchemaDrift.Rename
