/-
  SchemaDrift.Proofs.Project.Tree
  ───────────────────────────────
  **WHERE PATHS LEAD WHEN A TREE CHANGES.**

  Names are OPEN in a tree if they and all names on the way to them are those of
  directories; a path leads through open names only.  So a path goes on leading to the same
  place as long as what was open stays open (`follow_placeOf`, `locate_placeOf`), whatever
  else is changed, and what it finds there is what the tree holds at the place.

  Putting a node into a tree, or cutting one off with all below it, is described by what the
  tree holds at every place behind it (`get?_put`, `get?_cut`).
-/

import SchemaDrift.Proofs.Project.Path
import SchemaDrift.Proofs.Snapshot.Entries

namespace SchemaDrift.FileTree

open SchemaDrift.Path

variable {t t' : FileTree}

/-! ## §1. What a tree holds. -/

/-- The file at a place. -/
def file? (t : FileTree) (place : String) : Option FileData :=
  match t.entries.get? place with
  | some (.file data) => some data
  | _ => none

theorem file?_eq_some {place : String} {data : FileData} :
    t.file? place = some data ↔ t.entries.get? place = some (.file data) := by
  unfold file?
  split
  · next data' h => rw [h, Option.some.injEq, Option.some.injEq, Node.file.injEq]
  · next h =>
    constructor
    · intro h'
      cases h'
    · exact fun h' => absurd h' (h data)

theorem node?_cons {names : List String} (h : names ≠ []) :
    t.node? names = t.entries.get? (key names) := by
  unfold node?
  rw [if_neg (by simpa using h)]

theorem get?_put (names : List String) (node : Node) (place : String) :
    (t.put names node).entries.get? place
      = if place = key names then some node else t.entries.get? place :=
  PathMap.get?_insert t.entries (key names) node place

/-- The place is the one that the names lead to, or below it. -/
def IsAt (names : List String) (place : String) : Prop :=
  place = key names ∨ (key names ++ "/").toList <+: place.toList

instance (names : List String) (place : String) : Decidable (IsAt names place) := by
  unfold IsAt
  infer_instance

theorem get?_cut {names : List String} {place : String} (h : ¬IsAt names place) :
    (t.cut names).entries.get? place = t.entries.get? place := by
  unfold cut
  dsimp only
  rw [PathMap.get?_filter t.entries
    (fun place => place ≠ key names && !(key names ++ "/").toList.isPrefixOf place.toList) place]
  refine if_pos ?_
  unfold IsAt at h
  rw [not_or, ← List.isPrefixOf_iff_prefix, Bool.not_eq_true] at h
  simp only [ne_eq, h.1, h.2, not_false_eq_true, decide_true, Bool.not_false, Bool.and_self]

theorem get?_cut_none {names : List String} {place : String} (h : IsAt names place) :
    (t.cut names).entries.get? place = none := by
  unfold cut
  dsimp only
  rw [PathMap.get?_filter t.entries
    (fun place => place ≠ key names && !(key names ++ "/").toList.isPrefixOf place.toList) place]
  refine if_neg ?_
  unfold IsAt at h
  rw [← List.isPrefixOf_iff_prefix] at h
  rcases h with h | h
  · simp only [h, ne_eq, not_true_eq_false, decide_false, Bool.false_and, Bool.false_eq_true,
      not_false_eq_true]
  · simp only [h, Bool.not_true, Bool.and_false, Bool.false_eq_true, not_false_eq_true]

/-! ## §2. Open names. -/

/-- The names are those of a directory that can be come to. -/
structure Open (t : FileTree) (names : List String) : Prop where
  isName : ∀ n ∈ names, IsName n
  directory : ∀ q, q <+: names → t.node? q = some .directory

namespace Open

theorem nil (t : FileTree) : t.Open [] := by
  refine ⟨List.forall_mem_nil _, ?_⟩
  intro q hq
  rw [List.prefix_nil.1 hq]
  rfl

theorem self {names : List String} (h : t.Open names) : t.node? names = some .directory :=
  h.directory names (List.prefix_refl _)

theorem ofPrefix {names q : List String} (h : t.Open names) (hq : q <+: names) : t.Open q :=
  ⟨fun n hn => h.isName n (hq.subset hn), fun r hr => h.directory r (hr.trans hq)⟩

theorem dropLast {names : List String} (h : t.Open names) : t.Open names.dropLast :=
  h.ofPrefix (List.dropLast_prefix _)

theorem concat {names : List String} (h : t.Open names) {n : String} (hn : IsName n)
    (hnode : t.node? (names ++ [n]) = some .directory) : t.Open (names ++ [n]) := by
  refine ⟨?_, ?_⟩
  · intro m hm
    rcases List.mem_append.1 hm with hm | hm
    · exact h.isName m hm
    · rw [List.mem_singleton.1 hm]
      exact hn
  · intro q hq
    rcases List.prefix_concat_iff.1 hq with rfl | hq
    · exact hnode
    · exact h.directory q hq

end Open

/-- The names are those of a place in a directory that can be come to. -/
structure Reached (t : FileTree) (names : List String) : Prop where
  isName : ∀ n ∈ names, IsName n
  isOpen : t.Open names.dropLast

theorem Open.reached {names : List String} (h : t.Open names) : t.Reached names :=
  ⟨h.isName, h.dropLast⟩

theorem Open.reached_concat {names : List String} (h : t.Open names) {n : String} (hn : IsName n) :
    t.Reached (names ++ [n]) := by
  refine ⟨?_, ?_⟩
  · intro m hm
    rcases List.mem_append.1 hm with hm | hm
    · exact h.isName m hm
    · rw [List.mem_singleton.1 hm]
      exact hn
  · rw [List.dropLast_concat]
    exact h

/-- A directory that is reached is open. -/
theorem Reached.isOpen_of_directory {names : List String} (h : t.Reached names)
    (hnode : t.node? names = some .directory) : t.Open names := by
  refine ⟨h.isName, ?_⟩
  intro q hq
  rcases names.eq_nil_or_concat with rfl | ⟨front, name, rfl⟩
  · rw [List.prefix_nil.1 hq]
    exact hnode
  · rw [List.concat_eq_append] at hq hnode h
    rcases List.prefix_concat_iff.1 hq with rfl | hq
    · exact hnode
    · have hopen := h.isOpen
      rw [List.dropLast_concat] at hopen
      exact hopen.directory q hq

/-- What is open in the tree `t` is open in the tree `t'`. -/
def StaysOpen (t t' : FileTree) : Prop := ∀ names, t.Open names → t'.Open names

theorem StaysOpen.refl (t : FileTree) : t.StaysOpen t := fun _ hopen => hopen

theorem StaysOpen.trans {t'' : FileTree} (h : t.StaysOpen t') (h' : t'.StaysOpen t'') :
    t.StaysOpen t'' := fun _ hopen => h' _ (h _ hopen)

theorem StaysOpen.reached (h : t.StaysOpen t') {names : List String} (hnames : t.Reached names) :
    t'.Reached names := ⟨hnames.isName, h _ hnames.isOpen⟩

/-- Directories that stay are open as they were. -/
theorem staysOpen_of_directories (h : ∀ names, t.Open names → t'.node? names = some .directory) :
    t.StaysOpen t' :=
  fun _ hopen => ⟨hopen.isName, fun q hq => h q (hopen.ofPrefix hq)⟩

/-- What is put where no directory is hides nothing. -/
theorem staysOpen_put {names : List String} (hne : names ≠ [])
    (hnode : t.node? names ≠ some .directory) (node : Node) : t.StaysOpen (t.put names node) := by
  refine staysOpen_of_directories ?_
  intro q hopen
  by_cases hq : q = []
  · rw [hq]
    rfl
  · have hself := hopen.self
    rw [node?_cons hq] at hself ⊢
    rw [get?_put, if_neg, hself]
    intro hkey
    rw [node?_cons hne, ← hkey] at hnode
    exact hnode hself

/-- A file that is taken away hides nothing. -/
theorem staysOpen_cut {names : List String} (hnames : ∀ n ∈ names, IsName n)
    (hnode : t.node? names ≠ some .directory) : t.StaysOpen (t.cut names) := by
  refine staysOpen_of_directories ?_
  intro q hopen
  by_cases hq : q = []
  · rw [hq]
    rfl
  · rw [node?_cons hq, get?_cut, ← node?_cons hq]
    · exact hopen.self
    · -- the way to a place below the file would lead through the file
      intro hat
      rcases hat with hkey | hbelow
      · rw [key_inj hopen.isName hnames hkey] at hopen
        exact hnode hopen.self
      · exact hnode (hopen.directory names (prefix_of_key hnames hopen.isName hbelow))

/-! ## §3. Following paths. -/

/-- The place that the names lead to. -/
def placeOf (t : FileTree) (names : List String) : Place :=
  match t.node? names with
  | some node => .taken names node
  | none => .vacant names

theorem placeOf_inj {names names' : List String} (h : t.placeOf names = t'.placeOf names') :
    names = names' ∧ t.node? names = t'.node? names' := by
  unfold placeOf at h
  cases hnode : t.node? names with
  | none =>
    rw [hnode] at h
    cases hnode' : t'.node? names' with
    | none =>
      rw [hnode'] at h
      cases h
      exact ⟨rfl, rfl⟩
    | some node' =>
      rw [hnode'] at h
      cases h
  | some node =>
    rw [hnode] at h
    cases hnode' : t'.node? names' with
    | none =>
      rw [hnode'] at h
      cases h
    | some node' =>
      rw [hnode'] at h
      cases h
      exact ⟨rfl, rfl⟩

theorem placeOf_taken {names : List String} {node : Node} (h : t.node? names = some node) :
    t.placeOf names = .taken names node := by
  unfold placeOf
  rw [h]

theorem placeOf_vacant {names : List String} (h : t.node? names = none) :
    t.placeOf names = .vacant names := by
  unfold placeOf
  rw [h]

theorem placeOf_eq_taken {names names' : List String} {node : Node}
    (h : t.placeOf names' = .taken names node) : names' = names ∧ t.node? names = some node := by
  unfold placeOf at h
  split at h
  · next node' hnode =>
    cases h
    exact ⟨rfl, hnode⟩
  · cases h

theorem placeOf_eq_vacant {names names' : List String} (h : t.placeOf names' = .vacant names) :
    names' = names ∧ t.node? names = none := by
  unfold placeOf at h
  split at h
  · cases h
  · next hnode =>
    cases h
    exact ⟨rfl, hnode⟩

theorem placeOf_ne_unreachable {names : List String} {e : SystemError} :
    t.placeOf names ≠ .unreachable e := by
  unfold placeOf
  split
  · exact Place.noConfusion
  · exact Place.noConfusion

theorem follow_name {here rest : List String} {name : String} (hup : name ≠ "..") :
    t.follow here (name :: rest)
      = if maxNameSize < name.utf8ByteSize then .unreachable .nameTooLong
        else match t.node? (here ++ [name]) with
          | some .directory => t.follow (here ++ [name]) rest
          | some (.file data) =>
            if rest.isEmpty then .taken (here ++ [name]) (.file data)
            else .unreachable .notDirectory
          | none => if rest.isEmpty then .vacant (here ++ [name]) else .unreachable .missing :=
  follow.eq_3 t here name rest hup

/-- **A path that leads somewhere leads to a place of the tree in an open directory.** -/
theorem follow_cases {here parts : List String} (hopen : t.Open here)
    (hparts : ∀ n ∈ parts, IsName n) : (∃ e, t.follow here parts = .unreachable e)
      ∨ ∃ names, t.follow here parts = t.placeOf names ∧ t.Reached names := by
  induction parts generalizing here with
  | nil => exact Or.inr ⟨here, (placeOf_taken hopen.self).symm, hopen.reached⟩
  | cons name rest ih =>
    have hrest : ∀ n ∈ rest, IsName n := fun n hn => hparts n (List.mem_cons_of_mem _ hn)
    have hname := hparts name List.mem_cons_self
    by_cases hup : name = ".."
    · rw [hup, follow]
      split
      · exact Or.inl ⟨_, rfl⟩
      · exact ih hopen.dropLast hrest
    · rw [follow_name hup]
      split
      · exact Or.inl ⟨_, rfl⟩
      · have hreached := hopen.reached_concat hname
        split
        · next hnode => exact ih (hopen.concat hname hnode) hrest
        · next data hnode =>
          split
          · exact Or.inr ⟨_, (placeOf_taken hnode).symm, hreached⟩
          · exact Or.inl ⟨_, rfl⟩
        · next hnode =>
          split
          · exact Or.inr ⟨_, (placeOf_vacant hnode).symm, hreached⟩
          · exact Or.inl ⟨_, rfl⟩

theorem follow_reached {here parts names : List String} (hopen : t.Open here)
    (hparts : ∀ n ∈ parts, IsName n) (h : t.follow here parts = t.placeOf names) :
    t.Reached names := by
  rcases follow_cases hopen hparts with ⟨e, he⟩ | ⟨names', hnames', hreached⟩
  · exact absurd (h.symm.trans he) placeOf_ne_unreachable
  · obtain ⟨rfl, -⟩ := placeOf_inj (h.symm.trans hnames')
    exact hreached

theorem follow_taken {here parts names : List String} {node : Node} (hopen : t.Open here)
    (hparts : ∀ n ∈ parts, IsName n) (h : t.follow here parts = .taken names node) :
    t.node? names = some node ∧ t.follow here parts = t.placeOf names := by
  rcases follow_cases hopen hparts with ⟨e, he⟩ | ⟨names', hnames', -⟩
  · rw [he] at h
    cases h
  · obtain ⟨rfl, hnode⟩ := placeOf_eq_taken (hnames'.symm.trans h)
    exact ⟨hnode, hnames'⟩

/-- A path goes on from the directory that the front of it leads to. -/
theorem follow_append {here front rest directory : List String}
    (h : t.follow here front = .taken directory .directory) :
    t.follow here (front ++ rest) = t.follow directory rest := by
  induction front generalizing here with
  | nil =>
    cases h
    rfl
  | cons name front ih =>
    rw [List.cons_append]
    -- a step up is taken unless it is one from the top
    by_cases hup : name = ".."
    · rw [hup, follow] at h ⊢
      split at h
      · cases h
      · next hempty =>
        rw [if_neg hempty]
        exact ih h
    · rw [follow_name hup] at h ⊢
      split at h
      · cases h
      · next hsize =>
        rw [if_neg hsize]
        split at h
        · exact ih h
        · split at h
          · cases h
          · cases h
        · split at h
          · cases h
          · cases h

/-- **The place that a path leads to is told by its parts.** -/
theorem follow_settle {here parts names : List String} (h : t.follow here parts = t.placeOf names) :
    names = settle here parts := by
  induction parts generalizing here with
  | nil => exact (placeOf_eq_taken h.symm).1
  | cons name rest ih =>
    by_cases hup : name = ".."
    · rw [hup, follow] at h
      rw [hup, settle_up]
      split at h
      · exact absurd h.symm placeOf_ne_unreachable
      · exact ih h
    · rw [follow_name hup] at h
      rw [settle_name hup]
      -- at the last part the path is at its end, whatever is there
      have hend : rest.isEmpty = true → here ++ [name] = settle (here ++ [name]) rest := by
        intro hempty
        rw [List.isEmpty_iff.1 hempty, settle_nil]
      split at h
      · exact absurd h.symm placeOf_ne_unreachable
      · split at h
        · exact ih h
        · split at h
          · next hempty => exact (placeOf_eq_taken h.symm).1.trans (hend hempty)
          · exact absurd h.symm placeOf_ne_unreachable
        · split at h
          · next hempty => exact (placeOf_eq_vacant h.symm).1.trans (hend hempty)
          · exact absurd h.symm placeOf_ne_unreachable

/-- Names lead down from a directory to the place of all of them. -/
theorem follow_down {here rest names : List String} (hrest : ∀ n ∈ rest, n ≠ "..")
    (h : t.follow here rest = t.placeOf names) : names = here ++ rest :=
  (follow_settle h).trans (settle_down hrest here)

/-- No name of a place leads out of a directory. -/
theorem follow_no_up {here parts names : List String} (hhere : ∀ n ∈ here, n ≠ "..")
    (h : t.follow here parts = t.placeOf names) : ∀ n ∈ names, n ≠ ".." := by
  rw [follow_settle h]
  exact settle_forall (fun _ _ hup => hup) hhere

/-- The last name of a path is that of the place that it leads to. -/
theorem follow_last {here front names : List String} {name : String} (hup : name ≠ "..")
    (h : t.follow here (front ++ [name]) = t.placeOf names) : names.getLast? = some name := by
  rw [follow_settle h, settle_concat hup, List.getLast?_concat]

/-- **A path leads to the same place while what is open stays open.** -/
theorem follow_placeOf (hstays : t.StaysOpen t') {here parts names : List String}
    (hopen : t.Open here) (hparts : ∀ n ∈ parts, IsName n)
    (h : t.follow here parts = t.placeOf names) : t'.follow here parts = t'.placeOf names := by
  induction parts generalizing here with
  | nil =>
    obtain ⟨rfl, -⟩ := placeOf_inj ((placeOf_taken hopen.self).trans h)
    exact (placeOf_taken (hstays _ hopen).self).symm
  | cons name rest ih =>
    have hrest : ∀ n ∈ rest, IsName n := fun n hn => hparts n (List.mem_cons_of_mem _ hn)
    have hname := hparts name List.mem_cons_self
    by_cases hup : name = ".."
    · rw [hup, follow] at h ⊢
      split at h
      · exact absurd h.symm placeOf_ne_unreachable
      · next hne =>
        rw [if_neg hne]
        exact ih hopen.dropLast hrest h
    · rw [follow_name hup] at h ⊢
      -- the last name of a path leads to its place whatever is there
      have hlast : t'.placeOf (here ++ [name]) = match t'.node? (here ++ [name]) with
          | some .directory => t'.follow (here ++ [name]) []
          | some (.file data) =>
            if [].isEmpty (α := String) then .taken (here ++ [name]) (.file data)
            else .unreachable .notDirectory
          | none =>
            if [].isEmpty (α := String) then .vacant (here ++ [name]) else .unreachable .missing := by
        unfold placeOf
        split
        · next node hnode =>
          rw [hnode]
          cases node with
          | directory => rfl
          | file data => rfl
        · next hnode =>
          rw [hnode]
          rfl
      split at h
      · exact absurd h.symm placeOf_ne_unreachable
      · next hsize =>
        rw [if_neg hsize]
        split at h
        · next hnode =>
          have hopen' := hopen.concat hname hnode
          rw [(hstays _ hopen').self]
          exact ih hopen' hrest h
        · next data hnode =>
          split at h
          · next hempty =>
            obtain rfl := List.isEmpty_iff.1 hempty
            obtain ⟨rfl, -⟩ := placeOf_inj ((placeOf_taken hnode).trans h)
            exact hlast.symm
          · exact absurd h.symm placeOf_ne_unreachable
        · next hnode =>
          split at h
          · next hempty =>
            obtain rfl := List.isEmpty_iff.1 hempty
            obtain ⟨rfl, -⟩ := placeOf_inj ((placeOf_vacant hnode).trans h)
            exact hlast.symm
          · exact absurd h.symm placeOf_ne_unreachable

end SchemaDrift.FileTree
