/-
  SchemaDrift.Proofs.Project.Path
  ───────────────────────────────
  **THE PARTS OF A PATH THAT IS PUT TOGETHER.**

  Cutting at slashes undoes joining with them: the parts of pieces put together are the
  parts of the pieces, one after the other (`parts_intercalate`).  A name is a part of
  itself, and so the names that lead to a place are the parts of its key (`parts_key`).  What
  parts come down to is told without a tree (`settle`).
-/

import Mathlib.Data.List.Basic
import SchemaDrift.Project.Tree

namespace SchemaDrift

open SchemaDrift.Text

/-! ## §1. Cutting. -/

theorem splitBy_ne_nil {α : Type} (p : α → Bool) (l : List α) : splitBy p l ≠ [] := by
  cases l with
  | nil => exact List.cons_ne_nil _ _
  | cons a l =>
    unfold splitBy
    split
    · exact List.cons_ne_nil _ _
    · split
      · exact List.cons_ne_nil _ _
      · exact List.cons_ne_nil _ _

/-- Two lists are cut each for itself at what stands between them. -/
theorem splitBy_append {α : Type} {p : α → Bool} {x : α} (hx : p x = true) (l r : List α) :
    splitBy p (l ++ x :: r) = splitBy p l ++ splitBy p r := by
  induction l with
  | nil =>
    show (if p x then [] :: splitBy p r else _) = _
    rw [if_pos hx]
    rfl
  | cons a l ih =>
    rw [List.cons_append, splitBy, splitBy, ih]
    by_cases ha : p a = true
    · rw [if_pos ha, if_pos ha]
      rfl
    · rw [if_neg ha, if_neg ha]
      cases hl : splitBy p l with
      | nil => exact absurd hl (splitBy_ne_nil p l)
      | cons piece pieces => rfl

/-- A list without anything to cut at is one piece. -/
theorem splitBy_none {α : Type} {p : α → Bool} {l : List α} (h : ∀ a ∈ l, p a = false) :
    splitBy p l = [l] := by
  induction l with
  | nil => rfl
  | cons a l ih =>
    rw [splitBy, if_neg (by rw [h a List.mem_cons_self]; exact Bool.false_ne_true),
      ih fun b hb => h b (List.mem_cons_of_mem _ hb)]

/-- In no piece is anything to cut at. -/
theorem mem_splitBy {α : Type} {p : α → Bool} {l piece : List α} (h : piece ∈ splitBy p l) :
    ∀ a ∈ piece, p a = false := by
  induction l generalizing piece with
  | nil =>
    rw [List.mem_singleton.1 h]
    exact List.forall_mem_nil _
  | cons b l ih =>
    rw [splitBy] at h
    by_cases hb : p b = true
    · rw [if_pos hb] at h
      rcases List.mem_cons.1 h with rfl | h
      · exact List.forall_mem_nil _
      · exact ih h
    · rw [if_neg hb] at h
      cases hl : splitBy p l with
      | nil => exact absurd hl (splitBy_ne_nil p l)
      | cons first pieces =>
        rw [hl] at h ih
        rcases List.mem_cons.1 h with rfl | h
        · rw [List.forall_mem_cons]
          exact ⟨Bool.eq_false_iff.2 hb, ih List.mem_cons_self⟩
        · exact ih (List.mem_cons_of_mem _ h)

/-- The pieces hold everything but what is cut at. -/
theorem exists_mem_splitBy {α : Type} {p : α → Bool} {a : α} (ha : p a = false) {l : List α} :
    (∃ piece ∈ splitBy p l, a ∈ piece) ↔ a ∈ l := by
  induction l with
  | nil => simp [splitBy]
  | cons b l ih =>
    rw [List.mem_cons, ← ih, splitBy]
    by_cases hb : p b = true
    · have hne : a ≠ b := by
        rintro rfl
        exact Bool.eq_false_iff.1 ha hb
      rw [if_pos hb, List.exists_mem_cons_iff,
        or_congr_left (iff_of_false List.not_mem_nil hne)]
    · rw [if_neg hb]
      cases hl : splitBy p l with
      | nil => exact absurd hl (splitBy_ne_nil p l)
      | cons piece pieces =>
        rw [List.exists_mem_cons_iff, List.exists_mem_cons_iff, List.mem_cons, or_assoc]

/-- What the end of a list has nothing to cut at in ends the last piece. -/
theorem splitBy_suffix {α : Type} {p : α → Bool} (l : List α) {s : List α}
    (hs : ∀ a ∈ s, p a = false) : ∃ front piece, splitBy p (l ++ s) = front ++ [piece ++ s] := by
  induction l with
  | nil => exact ⟨[], [], splitBy_none hs⟩
  | cons a l ih =>
    obtain ⟨front, piece, hsplit⟩ := ih
    rw [List.cons_append, splitBy, hsplit]
    by_cases ha : p a = true
    · rw [if_pos ha]
      exact ⟨[] :: front, piece, rfl⟩
    · rw [if_neg ha]
      cases front with
      | nil => exact ⟨[], a :: piece, rfl⟩
      | cons first front => exact ⟨(a :: first) :: front, piece, rfl⟩

/-! ## §2. Parts. -/

namespace Path

/-- The text names something in a directory. -/
def IsName (n : String) : Prop := n ≠ "" ∧ n ≠ "." ∧ '/' ∉ n.toList

theorem not_slash {s : List Char} (h : '/' ∉ s) : ∀ c ∈ s, (c == '/') = false := by
  intro c hc
  refine beq_false_of_ne ?_
  intro heq
  exact h (heq ▸ hc)

theorem isName_of_mem_parts {path n : String} (h : n ∈ parts path) : IsName n := by
  obtain ⟨hsegment, hsaid⟩ := List.mem_filter.1 h
  rw [Bool.and_eq_true, decide_eq_true_eq, decide_eq_true_eq] at hsaid
  obtain ⟨piece, hpiece, rfl⟩ := List.mem_map.1 hsegment
  refine ⟨hsaid.1, hsaid.2, ?_⟩
  rw [String.toList_ofList]
  intro hslash
  exact absurd (mem_splitBy hpiece '/' hslash) (by decide)

/-- A name is all parts of itself. -/
theorem parts_name {n : String} (h : IsName n) : parts n = [n] := by
  unfold parts segments
  rw [splitBy_none (not_slash h.2.2), List.map_singleton, String.ofList_toList,
    List.filter_singleton, decide_eq_true h.1, decide_eq_true h.2.1]
  rfl

/-- **The parts of pieces put together are the parts of the pieces.** -/
theorem parts_intercalate (pieces : List String) :
    parts ("/".intercalate pieces) = pieces.flatMap parts := by
  induction pieces with
  | nil => decide
  | cons piece pieces ih =>
    cases pieces with
    | nil =>
      rw [List.flatMap_cons, List.flatMap_nil, List.append_nil]
      simp
    | cons next pieces =>
      have htext : ("/".intercalate (piece :: next :: pieces)).toList
          = piece.toList ++ '/' :: ("/".intercalate (next :: pieces)).toList := by
        simp [String.toList_intercalate]
      rw [List.flatMap_cons, ← ih]
      unfold parts segments
      rw [htext, splitBy_append (by decide), List.map_append, List.filter_append]

/-- A path that is not written as that of a directory has a last name. -/
theorem exists_last {path : String} (h : namesDirectory path = false) :
    ∃ front name, parts path = front ++ [name] ∧ name ≠ ".." := by
  unfold namesDirectory at h
  have hne : segments path ≠ [] := fun hnil => splitBy_ne_nil _ _ (List.map_eq_nil_iff.1 hnil)
  obtain ⟨front, name, hsegments⟩ := (segments path).eq_nil_or_concat.resolve_left hne
  rw [List.concat_eq_append] at hsegments
  rw [hsegments, List.getLastD_concat, ← Bool.not_eq_true, List.contains_iff_mem] at h
  simp only [List.mem_cons, List.not_mem_nil, or_false, not_or] at h
  refine ⟨front.filter fun s => s ≠ "" && s ≠ ".", name, ?_, h.2.2⟩
  unfold parts
  rw [hsegments, List.filter_append, List.filter_singleton, decide_eq_true h.1,
    decide_eq_true h.2.1]
  rfl

/-- The last name of a path ends as the path does. -/
theorem parts_suffix (path : String) {s : String} (hslash : '/' ∉ s.toList)
    (hlength : 2 ≤ s.toList.length) : ∃ front lead, parts (path ++ s) = front ++ [lead ++ s] := by
  obtain ⟨front, piece, hsplit⟩ := splitBy_suffix path.toList (not_slash hslash)
  have hlong : ∀ t : String, t.toList.length < 2 → String.ofList piece ++ s ≠ t := by
    intro t ht heq
    rw [← heq, String.toList_append, List.length_append] at ht
    omega
  refine ⟨(front.map String.ofList).filter fun s => s ≠ "" && s ≠ ".", String.ofList piece, ?_⟩
  unfold parts segments
  rw [String.toList_append, hsplit, List.map_append, List.map_singleton, List.filter_append,
    String.ofList_append, String.ofList_toList, List.filter_singleton,
    decide_eq_true (hlong "" (by decide)), decide_eq_true (hlong "." (by decide))]
  rfl

/-! ## §3. Where parts come down to. -/

/-- The names that parts come down to from a directory: a double dot takes one back. -/
def settle (here parts : List String) : List String :=
  parts.foldl (fun names n => if n = ".." then names.dropLast else names ++ [n]) here

section Settle

variable {here : List String} {name : String}

@[simp] theorem settle_nil (here : List String) : settle here [] = here := rfl

theorem settle_up (here rest : List String) :
    settle here (".." :: rest) = settle here.dropLast rest := rfl

theorem settle_name (hup : name ≠ "..") (rest : List String) :
    settle here (name :: rest) = settle (here ++ [name]) rest := by
  unfold settle
  rw [List.foldl_cons, if_neg hup]

theorem settle_concat (hup : name ≠ "..") (front : List String) :
    settle here (front ++ [name]) = settle here front ++ [name] := by
  unfold settle
  rw [List.foldl_append, List.foldl_cons, List.foldl_nil, if_neg hup]

/-- Parts that lead down come down to all of them. -/
theorem settle_down {rest : List String} (hrest : ∀ n ∈ rest, n ≠ "..") (here : List String) :
    settle here rest = here ++ rest := by
  induction rest generalizing here with
  | nil => rw [settle_nil, List.append_nil]
  | cons n rest ih =>
    obtain ⟨hn, hrest⟩ := List.forall_mem_cons.1 hrest
    rw [settle_name hn, ih hrest, List.append_assoc, List.singleton_append]

/-- What is true of all names but double dots stays true of all names. -/
theorem settle_forall {p : String → Prop} {parts : List String} (hparts : ∀ n ∈ parts, n ≠ ".." → p n)
    (hhere : ∀ n ∈ here, p n) : ∀ n ∈ settle here parts, p n := by
  induction parts generalizing here with
  | nil => exact hhere
  | cons n parts ih =>
    obtain ⟨hn, hparts⟩ := List.forall_mem_cons.1 hparts
    by_cases hup : n = ".."
    · rw [hup, settle_up]
      exact ih hparts fun m hm => hhere m ((List.dropLast_sublist here).mem hm)
    · rw [settle_name hup]
      exact ih hparts (List.forall_mem_append.2 ⟨hhere, List.forall_mem_singleton.2 (hn hup)⟩)

end Settle

end Path

open Path

namespace FileTree

/-- **The names that lead to a place are the parts of its key.** -/
theorem parts_key {names : List String} (h : ∀ n ∈ names, IsName n) :
    parts (key names) = names := by
  unfold key
  rw [parts_intercalate]
  induction names with
  | nil => rfl
  | cons n names ih =>
    rw [List.flatMap_cons, parts_name (h n List.mem_cons_self),
      ih fun m hm => h m (List.mem_cons_of_mem _ hm)]
    rfl

/-- Different names lead to different places. -/
theorem key_inj {names names' : List String} (h : ∀ n ∈ names, IsName n)
    (h' : ∀ n ∈ names', IsName n) (hkey : key names = key names') : names = names' := by
  rw [← parts_key h, hkey, parts_key h']

/-- A place whose key goes on from that of another, behind a slash, is below it. -/
theorem prefix_of_key {names names' : List String} (h : ∀ n ∈ names, IsName n)
    (h' : ∀ n ∈ names', IsName n) (hkey : (key names ++ "/").toList <+: (key names').toList) :
    names <+: names' := by
  obtain ⟨rest, hrest⟩ := hkey
  have htext : key names' = "/".intercalate [key names, String.ofList rest] := by
    refine String.toList_inj.1 ?_
    rw [← hrest]
    simp
  have hparts := congrArg parts htext
  rw [parts_key h', parts_intercalate, List.flatMap_cons, parts_key h] at hparts
  exact ⟨_, hparts.symm⟩

end FileTree

end SchemaDrift
