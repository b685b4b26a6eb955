/-
  SchemaDrift.Proofs.Rename.Symmetric
  ───────────────────────────────────
  **A SCORE DOES NOT DEPEND ON THE DIRECTION OF THE RENAME.**

  Nothing that a score is made of tells the old column from the new one: the edit distance is
  a least number of edits, which can be taken back; the overlap counts the words in both names
  and the words in either; the other parts compare for equality, or look for each name in the
  other.

      names         editRatio_comm, wordOverlap_comm, nested_comm
      attributes    attributeAgreement_comm
      both          score_both_ways
-/

import Mathlib.Data.Finset.Card
import SchemaDrift.Proofs.Text.EditDistance
import SchemaDrift.Rename.Score

namespace SchemaDrift.Rename

open SchemaDrift.Number SchemaDrift.Text

/-! ## §1. Words. -/

/-- Nothing is left twice in a list when its repetitions are erased. -/
theorem nodup_eraseDups {α : Type} [BEq α] [LawfulBEq α] (l : List α) : l.eraseDups.Nodup := by
  induction hn : l.length using Nat.strong_induction_on generalizing l with
  | h n ih =>
    cases l with
    | nil => exact List.nodup_nil
    | cons a l =>
      rw [List.eraseDups_cons]
      have hshorter : (l.filter fun b => !b == a).length < n := by
        rw [← hn, List.length_cons]
        exact Nat.lt_succ_of_le (List.length_filter_le _ l)
      refine List.nodup_cons.2 ⟨?_, ih _ hshorter _ rfl⟩
      rw [List.mem_eraseDups, List.mem_filter]
      rintro ⟨-, hne⟩
      rw [beq_self_eq_true] at hne
      cases hne

theorem words_nodup (s : List Char) : (words s).Nodup := nodup_eraseDups _

/-- The different words of a name, in no order. -/
def wordSet (s : List Char) : Finset (List Char) := (words s).toFinset

/-- The words that two names share. -/
theorem length_shared (a b : List Char) :
    ((words a).filter (words b).contains).length = (wordSet a ∩ wordSet b).card := by
  rw [← List.toFinset_card_of_nodup ((words_nodup a).filter _)]
  congr 1
  ext w
  simp [wordSet]

/-- The words of two names. -/
theorem length_either (a b : List Char) :
    (words a ++ (words b).filter (!(words a).contains ·)).length
      = (wordSet a ∪ wordSet b).card := by
  have hapart : (words a ++ (words b).filter (!(words a).contains ·)).Nodup := by
    refine List.nodup_append.2 ⟨words_nodup a, (words_nodup b).filter _, ?_⟩
    rintro w hw _ hw' rfl
    simp [hw] at hw'
  rw [← List.toFinset_card_of_nodup hapart]
  congr 1
  ext w
  by_cases hw : w ∈ words a <;> simp [wordSet, hw]

/-- **The overlap is the part of the words of either name that are in both.** -/
theorem wordOverlap_eq (a b : List Char) : wordOverlap a b
    = if wordSet a ∪ wordSet b = ∅ then 0
      else ratio (wordSet a ∩ wordSet b).card (wordSet a ∪ wordSet b).card := by
  have hempty : (words a ++ (words b).filter (!(words a).contains ·)).isEmpty = true
      ↔ wordSet a ∪ wordSet b = ∅ := by
    rw [List.isEmpty_iff_length_eq_zero, length_either, Finset.card_eq_zero]
  unfold wordOverlap
  dsimp only
  rw [length_shared, length_either]
  by_cases h : wordSet a ∪ wordSet b = ∅
  · rw [if_pos h, if_pos (hempty.2 h)]
  · rw [if_neg h, if_neg (mt hempty.1 h)]

theorem wordOverlap_comm (a b : List Char) : wordOverlap a b = wordOverlap b a := by
  rw [wordOverlap_eq, wordOverlap_eq, Finset.union_comm, Finset.inter_comm]

/-! ## §2. Names. -/

theorem editRatio_comm (a b : List Char) : editRatio a b = editRatio b a := by
  unfold editRatio
  rw [editDistance_comm, Nat.max_comm]

/-- The four ways in which a name may begin or end with the other are two, each both ways. -/
theorem nested_comm (a b : List Char) : nested a b = nested b a := by
  unfold nested
  rw [Bool.or_comm (b.isPrefixOf a), Bool.or_assoc, Bool.or_comm (b.isSuffixOf a),
    ← Bool.or_assoc]

theorem similarityOfLower_comm (a b : List Char) :
    similarityOfLower a b = similarityOfLower b a := by
  unfold similarityOfLower
  rw [nested_comm, editRatio_comm, wordOverlap_comm]
  simp only [eq_comm (a := a), eq_comm (a := withoutUnderscores a)]

theorem nameSimilarity_comm (a b : String) : nameSimilarity a b = nameSimilarity b a :=
  similarityOfLower_comm _ _

/-! ## §3. Scores. -/

theorem attributeAgreement_comm (old new : Column) :
    attributeAgreement old new = attributeAgreement new old := by
  unfold attributeAgreement
  simp only [eq_comm (a := old.nullable), eq_comm (a := old.inPrimaryKey),
    eq_comm (a := old.isUnique), eq_comm (a := old.defaultExpr)]

theorem score_comm (old new : Column) : score old new = score new old := by
  unfold score
  rw [nameSimilarity_comm, attributeAgreement_comm]
  simp only [eq_comm (a := old.dataType)]

/-- **A score is the same both ways**, and so is each of its parts: the likeness of the names,
made of the least number of edits from one to the other, of the words that they share and of
one being a part of the other, and the agreement of the attributes. -/
theorem score_both_ways :
    (∀ a b : String, nameSimilarity a b = nameSimilarity b a)
      ∧ (∀ old new : Column, score old new = score new old)
      ∧ (∀ s t : List Char, Least s t (editDistance s t) ∧ editDistance s t = editDistance t s)
      ∧ (∀ s t : List Char, wordOverlap s t = wordOverlap t s)
      ∧ (∀ s t : List Char, nested s t = nested t s)
      ∧ ∀ old new : Column, attributeAgreement old new = attributeAgreement new old :=
  ⟨nameSimilarity_comm, score_comm,
    fun s t => ⟨editDistance_least s t, editDistance_comm s t⟩,
    wordOverlap_comm, nested_comm, attributeAgreement_comm⟩

end SchemaDrift.Rename
