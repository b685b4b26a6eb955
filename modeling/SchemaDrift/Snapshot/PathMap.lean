/-
  SchemaDrift.Snapshot.PathMap
  ────────────────────────────
  **A TABLE OF VALUES BY PATH, IN THE ORDER OF THE PATHS.**

  The entries are kept strictly sorted, so that equal maps have equal entries and every
  listing comes in one order.
-/

namespace SchemaDrift

/-- Puts a value at a path into a sorted row of entries, in the place of one that is
there. -/
def insertEntry {α : Type} (path : String) (value : α) : List (String × α) → List (String × α)
  | [] => [(path, value)]
  | e :: rest =>
    if path < e.1 then (path, value) :: e :: rest
    else if path = e.1 then (path, value) :: rest
    else e :: insertEntry path value rest

/-- Every path of the row after insertion is the new one or an old one. -/
theorem mem_insertEntry {α : Type} {path : String} {value : α} {l : List (String × α)}
    {e : String × α} (h : e ∈ insertEntry path value l) : e = (path, value) ∨ e ∈ l := by
  induction l with
  | nil => simpa [insertEntry] using h
  | cons a rest ih =>
    simp only [insertEntry] at h
    split at h
    · simpa using h
    · split at h
      · rcases List.mem_cons.1 h with h | h
        · exact Or.inl h
        · exact Or.inr (List.mem_cons_of_mem _ h)
      · rcases List.mem_cons.1 h with h | h
        · exact Or.inr (h ▸ List.mem_cons_self)
        · rcases ih h with h | h
          · exact Or.inl h
          · exact Or.inr (List.mem_cons_of_mem _ h)

/-- The order of entries. -/
def EntryBefore {α : Type} (d e : String × α) : Prop := d.1 < e.1

/-- Insertion keeps a row of entries strictly sorted. -/
theorem pairwise_insertEntry {α : Type} {path : String} {value : α} {l : List (String × α)}
    (h : l.Pairwise EntryBefore) : (insertEntry path value l).Pairwise EntryBefore := by
  induction l with
  | nil => simp [insertEntry]
  | cons a rest ih =>
    obtain ⟨ha, hrest⟩ := List.pairwise_cons.1 h
    simp only [insertEntry]
    split
    · next hlt =>
      refine List.pairwise_cons.2 ⟨fun e he => ?_, h⟩
      rcases List.mem_cons.1 he with he | he
      · exact he ▸ hlt
      · exact String.lt_trans hlt (ha e he)
    · next hnlt =>
      split
      · next heq =>
        refine List.pairwise_cons.2 ⟨fun e he => ?_, hrest⟩
        have := ha e he
        simp only [EntryBefore] at this ⊢
        exact heq ▸ this
      · next hne =>
        refine List.pairwise_cons.2 ⟨fun e he => ?_, ih hrest⟩
        rcases mem_insertEntry he with he | he
        · subst he
          have hle : a.1 ≤ path := String.not_lt.1 hnlt
          rcases Decidable.em (a.1 < path) with hlt | hnlt'
          · exact hlt
          · exact absurd (String.le_antisymm (String.not_lt.1 hnlt') hle) hne
        · exact ha e he

/-- Values by path, sorted. -/
structure PathMap (α : Type) where
  entries : List (String × α) := []
  sorted : entries.Pairwise EntryBefore := by exact List.Pairwise.nil
  deriving Repr, DecidableEq

namespace PathMap

variable {α β : Type}

instance : Inhabited (PathMap α) := ⟨{}⟩

/-- The value at a path. -/
def get? (m : PathMap α) (path : String) : Option α := m.entries.lookup path

/-- The map with a value at a path. -/
def insert (m : PathMap α) (path : String) (value : α) : PathMap α :=
  ⟨insertEntry path value m.entries, pairwise_insertEntry m.sorted⟩

/-- The map of some entries; of two at one path the later counts. -/
def ofList (l : List (String × α)) : PathMap α :=
  l.foldl (fun m e => m.insert e.1 e.2) {}

/-- The paths, in order. -/
def paths (m : PathMap α) : List String := m.entries.map (·.1)

/-- The values, in the order of their paths. -/
def values (m : PathMap α) : List α := m.entries.map (·.2)

/-- The number of entries. -/
def size (m : PathMap α) : Nat := m.entries.length

/-- There is no entry. -/
def isEmpty (m : PathMap α) : Bool := m.entries.isEmpty

/-- The map of what `f` makes of the values, without those it makes nothing of. -/
def filterMap (f : α → Option β) (m : PathMap α) : PathMap β where
  entries := m.entries.filterMap fun e => (f e.2).map fun b => (e.1, b)
  sorted := by
    refine List.pairwise_filterMap.2 (m.sorted.imp ?_)
    intro d e hde d' hd' e' he'
    obtain ⟨b, -, rfl⟩ := Option.map_eq_some_iff.1 hd'
    obtain ⟨c, -, rfl⟩ := Option.map_eq_some_iff.1 he'
    exact hde

end PathMap

end SchemaDrift
