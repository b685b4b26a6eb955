/-
  SchemaDrift.Proofs.Snapshot.Entries
  ───────────────────────────────────
  **A PATH MAP IS DETERMINED BY WHAT IS IN IT.**

  Of entries with different paths a map keeps every one (`ofList_perm`), and it has only
  one order to keep them in (`eq_of_perm`).  A list of entries that is sorted and holds the
  same is therefore what the map lists, and the order in which they were put into it is
  forgotten (`ofList_eq_of_perm`).  What is found in a map follows what is done to it:

      get?_insert    a value put at a path
      get?_filter    entries kept by their paths
-/

import SchemaDrift.Snapshot.PathMap

namespace SchemaDrift

variable {α : Type}

/-- A new path adds its entry to the row. -/
theorem insertEntry_perm {path : String} {value : α} {l : List (String × α)}
    (h : path ∉ l.map (·.1)) : (insertEntry path value l).Perm ((path, value) :: l) := by
  induction l with
  | nil => exact List.Perm.refl _
  | cons e rest ih =>
    rw [List.map_cons, List.mem_cons, not_or] at h
    unfold insertEntry
    split
    · exact List.Perm.refl _
    · rw [if_neg h.1]
      exact ((ih h.2).cons e).trans (List.Perm.swap _ _ _)

/-- Rows of entries that are sorted and hold the same are equal. -/
theorem eq_of_perm {l l' : List (String × α)} (h : l.Perm l') (hl : l.Pairwise EntryBefore)
    (hl' : l'.Pairwise EntryBefore) : l = l' := by
  refine List.Perm.eq_of_pairwise ?_ hl hl' h
  intro d e _ _ hde hed
  exact absurd hde (String.lt_asymm hed)

/-- No path is in a sorted row twice. -/
theorem paths_nodup {l : List (String × α)} (h : l.Pairwise EntryBefore) :
    (l.map (·.1)).Nodup := by
  unfold List.Nodup
  rw [List.pairwise_map]
  refine h.imp ?_
  intro d e hde heq
  unfold EntryBefore at hde
  rw [heq] at hde
  exact String.lt_irrefl _ hde

namespace PathMap

/-- Maps with the same entries are equal. -/
theorem eq_of_entries {m m' : PathMap α} (h : m.entries = m'.entries) : m = m' := by
  obtain ⟨entries, sorted⟩ := m
  obtain ⟨entries', sorted'⟩ := m'
  cases h
  rfl

/-- Entries that are put into a map one by one are all in it. -/
theorem foldl_insert_perm (l : List (String × α)) (m : PathMap α)
    (h : ((m.entries ++ l).map (·.1)).Nodup) :
    (l.foldl (fun m e => m.insert e.1 e.2) m).entries.Perm (m.entries ++ l) := by
  induction l generalizing m with
  | nil =>
    rw [List.append_nil]
    exact List.Perm.refl _
  | cons e l ih =>
    have hfresh : e.1 ∉ m.entries.map (·.1) := by
      rw [List.map_append, List.nodup_append] at h
      intro hmem
      exact h.2.2 e.1 hmem e.1 (List.mem_map_of_mem List.mem_cons_self) rfl
    have hone : (m.insert e.1 e.2).entries.Perm (e :: m.entries) := insertEntry_perm hfresh
    have hall : ((m.insert e.1 e.2).entries ++ l).Perm (m.entries ++ e :: l) :=
      (hone.append_right l).trans List.perm_middle.symm
    rw [List.foldl_cons]
    exact (ih (m.insert e.1 e.2) ((hall.map (·.1)).nodup_iff.2 h)).trans hall

/-- Entries that are put into a map one by one are all that it has more. -/
theorem mem_foldl_insert {e : String × α} (l : List (String × α)) (m : PathMap α)
    (h : e ∈ (l.foldl (fun m e => m.insert e.1 e.2) m).entries) : e ∈ m.entries ∨ e ∈ l := by
  induction l generalizing m with
  | nil => exact Or.inl h
  | cons d l ih =>
    rcases ih (m.insert d.1 d.2) h with h | h
    · rcases mem_insertEntry h with h | h
      · exact Or.inr (h ▸ List.mem_cons_self)
      · exact Or.inl h
    · exact Or.inr (List.mem_cons_of_mem _ h)

/-- A map has no entry but those it is made of. -/
theorem mem_of_mem_ofList {e : String × α} {l : List (String × α)} (h : e ∈ (ofList l).entries) :
    e ∈ l :=
  (mem_foldl_insert l {} h).resolve_left List.not_mem_nil

/-- **Of entries with different paths a map keeps every one.** -/
theorem ofList_perm {l : List (String × α)} (h : (l.map (·.1)).Nodup) :
    (ofList l).entries.Perm l :=
  foldl_insert_perm l {} h

/-- **Of entries with different paths the order does not matter.** -/
theorem ofList_eq_of_perm {l l' : List (String × α)} (h : (l.map (·.1)).Nodup) (hperm : l.Perm l') :
    ofList l = ofList l' := by
  have h' : (l'.map (·.1)).Nodup := (hperm.map _).nodup_iff.1 h
  have hentries : (ofList l).entries = (ofList l').entries :=
    eq_of_perm (((ofList_perm h).trans hperm).trans (ofList_perm h').symm) (ofList l).sorted
      (ofList l').sorted
  exact eq_of_entries hentries

/-- The value that is found at a path is in the map. -/
theorem get?_eq_some {m : PathMap α} {path : String} {value : α} :
    m.get? path = some value ↔ (path, value) ∈ m.entries := by
  obtain ⟨entries, sorted⟩ := m
  unfold get?
  induction entries with
  | nil => simp
  | cons e rest ih =>
    obtain ⟨hbefore, hrest⟩ := List.pairwise_cons.1 sorted
    obtain ⟨p, v⟩ := e
    rw [List.lookup_cons]
    -- the entries are sorted, so that the rest has none at the path of the first
    by_cases hp : path = p
    · subst hp
      rw [beq_self_eq_true]
      constructor
      · intro h
        cases h
        exact List.mem_cons_self
      · intro h
        rcases List.mem_cons.1 h with h | h
        · cases h
          rfl
        · exact absurd (hbefore _ h) (String.lt_irrefl _)
    · have hne : (path == p) = false := by simpa using hp
      rw [hne]
      show rest.lookup path = some value ↔ (path, value) ∈ (p, v) :: rest
      rw [ih hrest, List.mem_cons]
      constructor
      · exact Or.inr
      · rintro (h | h)
        · cases h
          exact absurd rfl hp
        · exact h

/-- A path of the map is one with a value. -/
theorem mem_paths {m : PathMap α} {path : String} :
    path ∈ m.paths ↔ ∃ value, m.get? path = some value := by
  unfold paths
  rw [List.mem_map]
  constructor
  · rintro ⟨⟨p, value⟩, he, rfl⟩
    exact ⟨value, get?_eq_some.2 he⟩
  · rintro ⟨value, hvalue⟩
    exact ⟨(path, value), get?_eq_some.1 hvalue, rfl⟩

/-- A sorted row of entries is what its map lists. -/
theorem entries_ofList {l : List (String × α)} (h : l.Pairwise EntryBefore) :
    (ofList l).entries = l :=
  eq_of_perm (ofList_perm (paths_nodup h)) (ofList l).sorted h

/-- **A map is made again of what it lists.** -/
theorem ofList_entries (m : PathMap α) : ofList m.entries = m :=
  eq_of_entries (entries_ofList m.sorted)

/-- **What is put at a path is found there, and all else where it was.** -/
theorem get?_insert (m : PathMap α) (path : String) (value : α) (place : String) :
    (m.insert path value).get? place = if place = path then some value else m.get? place := by
  obtain ⟨entries, sorted⟩ := m
  show (insertEntry path value entries).lookup place
    = if place = path then some value else entries.lookup place
  clear sorted
  induction entries with
  | nil =>
    show ([(path, value)] : List (String × α)).lookup place = _
    by_cases hplace : place = path
    · rw [if_pos hplace, hplace, List.lookup_cons_self]
    · rw [if_neg hplace, List.lookup_cons, beq_false_of_ne hplace]
  | cons e rest ih =>
    obtain ⟨p, v⟩ := e
    -- by the place asked for, and by where the entry goes
    unfold insertEntry
    by_cases hplace : place = path
    · rw [if_pos hplace] at ih ⊢
      split
      · rw [hplace, List.lookup_cons_self]
      · split
        · rw [hplace, List.lookup_cons_self]
        · next hne =>
          rw [List.lookup_cons, beq_false_of_ne (hplace ▸ hne)]
          exact ih
    · rw [if_neg hplace] at ih ⊢
      split
      · rw [List.lookup_cons, beq_false_of_ne hplace]
      · split
        · next heq =>
          dsimp only at heq
          rw [List.lookup_cons, beq_false_of_ne hplace, List.lookup_cons,
            beq_false_of_ne (heq ▸ hplace)]
        · rw [List.lookup_cons, List.lookup_cons, ih]

/-- **Of the entries that are kept, each is found where it was.** -/
theorem get?_filter (m : PathMap α) (p : String → Bool) (place : String) :
    (ofList (m.entries.filter fun e => p e.1)).get? place
      = if p place then m.get? place else none := by
  have hentries := entries_ofList (m.sorted.filter fun e => p e.1)
  refine Option.ext ?_
  intro value
  rw [get?_eq_some, hentries, List.mem_filter]
  by_cases hplace : p place = true
  · rw [if_pos hplace, get?_eq_some]
    exact and_iff_left hplace
  · rw [if_neg hplace]
    exact iff_of_false (fun h => hplace h.2) (fun h => by cases h)

end PathMap

end SchemaDrift
