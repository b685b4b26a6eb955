/-
  SchemaDrift.Proofs.Project.Writing
  ──────────────────────────────────
  **WHAT THE OPERATIONS ON A TREE LEAVE BEHIND.**

  A path that is located leads to a place (`locate_eq_placeOf`).  Each operation is described
  by what the tree holds at every place behind it:

      makeParts_grows    directories are made, also by a run that fails half-way; no file
                         is touched
      writeFile_ok       one file is written, where no directory is
      moveFile_ok        one file stands in another place

  None of them closes what was open, so that every path goes on leading where it led.
-/

import SchemaDrift.Proofs.Project.Tree

namespace SchemaDrift.FileTree

open SchemaDrift.Path

variable {t t' : FileTree}

/-! ## §1. Locating. -/

/-- **A path is located at the place that its parts lead to**, unless that is a file and the
path is written as that of a directory. -/
theorem locate_eq_placeOf {path : String} {names : List String} :
    t.locate path = t.placeOf names
      ↔ path.toList.contains '\x00' = false ∧ isAbsolute path = false
        ∧ t.follow [] (parts path) = t.placeOf names
        ∧ ∀ data, t.node? names = some (.file data) → namesDirectory path = false := by
  unfold locate
  by_cases hnul : path.toList.contains '\x00' = true
  · rw [if_pos hnul]
    constructor
    · exact fun h => absurd h.symm placeOf_ne_unreachable
    · intro ⟨hnul', _⟩
      rw [hnul] at hnul'
      cases hnul'
  · rw [if_neg hnul]
    by_cases habsolute : isAbsolute path = true
    · rw [if_pos habsolute]
      constructor
      · exact fun h => absurd h.symm placeOf_ne_unreachable
      · intro ⟨_, habsolute', _⟩
        rw [habsolute] at habsolute'
        cases habsolute'
    · rw [if_neg habsolute]
      have hfront : path.toList.contains '\x00' = false ∧ isAbsolute path = false :=
        ⟨Bool.eq_false_iff.2 hnul, Bool.eq_false_iff.2 habsolute⟩
      split
      · next names' data hfollow =>
        -- a file, which a path of a directory does not lead to
        by_cases hdirectory : namesDirectory path = true
        · rw [if_pos hdirectory]
          constructor
          · exact fun h => absurd h.symm placeOf_ne_unreachable
          · intro ⟨_, _, hplace, hfile⟩
            rw [hfollow] at hplace
            unfold placeOf at hplace
            split at hplace
            · next node hnode =>
              cases hplace
              rw [hfile data hnode] at hdirectory
              cases hdirectory
            · cases hplace
        · rw [if_neg hdirectory]
          constructor
          · intro h
            exact ⟨hfront.1, hfront.2, hfollow.trans h,
              fun _ _ => Bool.eq_false_iff.2 hdirectory⟩
          · intro ⟨_, _, hplace, _⟩
            exact hfollow.symm.trans hplace
      · next hplain =>
        constructor
        · intro h
          refine ⟨hfront.1, hfront.2, h, ?_⟩
          intro data hnode
          rw [placeOf_taken hnode] at h
          exact absurd h (hplain names data)
        · intro ⟨_, _, h, _⟩
          exact h

theorem parts_isName (path : String) : ∀ n ∈ parts path, IsName n :=
  fun _ hn => isName_of_mem_parts hn

/-- A path that is located anywhere is located at a place of the tree. -/
theorem locate_cases (t : FileTree) (path : String) : (∃ e, t.locate path = .unreachable e)
    ∨ ∃ names, t.locate path = t.placeOf names ∧ t.Reached names := by
  unfold locate
  split
  · exact Or.inl ⟨_, rfl⟩
  · split
    · exact Or.inl ⟨_, rfl⟩
    · rcases follow_cases (Open.nil t) (parts_isName path) with ⟨e, he⟩ | ⟨names, hnames, hreached⟩
      · rw [he]
        exact Or.inl ⟨e, rfl⟩
      · split
        · next names' data hfollow =>
          split
          · exact Or.inl ⟨_, rfl⟩
          · exact Or.inr ⟨names, hfollow.symm.trans hnames, hreached⟩
        · exact Or.inr ⟨names, hnames, hreached⟩

theorem locate_taken {path : String} {names : List String} {node : Node}
    (h : t.locate path = .taken names node) :
    t.node? names = some node ∧ t.locate path = t.placeOf names := by
  rcases locate_cases t path with ⟨e, he⟩ | ⟨names', hnames', -⟩
  · rw [he] at h
    cases h
  · obtain ⟨rfl, hnode⟩ := placeOf_eq_taken (hnames'.symm.trans h)
    exact ⟨hnode, hnames'⟩

theorem locate_vacant {path : String} {names : List String} (h : t.locate path = .vacant names) :
    t.node? names = none ∧ t.locate path = t.placeOf names := by
  rcases locate_cases t path with ⟨e, he⟩ | ⟨names', hnames', -⟩
  · rw [he] at h
    cases h
  · obtain ⟨rfl, hnode⟩ := placeOf_eq_vacant (hnames'.symm.trans h)
    exact ⟨hnode, hnames'⟩

theorem locate_reached {path : String} {names : List String}
    (h : t.locate path = t.placeOf names) : t.Reached names :=
  follow_reached (Open.nil t) (parts_isName path) (locate_eq_placeOf.1 h).2.2.1

/-- Every file of the tree is at a place that names lead to. -/
def Named (t : FileTree) : Prop :=
  ∀ place data, t.file? place = some data →
    ∃ names, place = key names ∧ ∀ n ∈ names, IsName n ∧ n ≠ ".."

/-- A place that a path leads to is one that names lead to. -/
theorem locate_names {path : String} {names : List String} (h : t.locate path = t.placeOf names) :
    ∀ n ∈ names, IsName n ∧ n ≠ ".." := by
  have hup := follow_no_up (List.forall_mem_nil _) (locate_eq_placeOf.1 h).2.2.1
  exact fun n hn => ⟨(locate_reached h).isName n hn, hup n hn⟩

/-- **A path is located at the same place while what is open stays open**, unless a file
comes to be where the path is written as that of a directory. -/
theorem locate_placeOf (hstays : t.StaysOpen t') {path : String} {names : List String}
    (h : t.locate path = t.placeOf names)
    (hfile : ∀ data, t'.node? names = some (.file data) → namesDirectory path = false) :
    t'.locate path = t'.placeOf names := by
  obtain ⟨hnul, habsolute, hfollow, -⟩ := locate_eq_placeOf.1 h
  exact locate_eq_placeOf.2 ⟨hnul, habsolute,
    follow_placeOf hstays (Open.nil t) (parts_isName path) hfollow, hfile⟩

/-! ## §2. Writing a file. -/

/-- A place without a directory has a name. -/
theorem ne_nil_of_node? {names : List String} (h : t.node? names ≠ some .directory) :
    names ≠ [] := by
  intro hnil
  rw [hnil] at h
  exact h rfl

theorem node?_put {names : List String} (hne : names ≠ []) (node : Node) :
    (t.put names node).node? names = some node := by
  rw [node?_cons hne, get?_put, if_pos rfl]

theorem file?_put {names : List String} (data : FileData) (place : String) :
    (t.put names (.file data)).file? place
      = if place = key names then some data else t.file? place := by
  unfold file?
  rw [get?_put]
  by_cases h : place = key names
  · rw [if_pos h, if_pos h]
  · rw [if_neg h, if_neg h]

/-- **A file is written at the place that its path leads to.** -/
theorem writeFile_ok {path : String} {data : FileData} :
    t.writeFile path data = .ok t' ↔ ∃ names, t.locate path = t.placeOf names
      ∧ t.node? names ≠ some .directory ∧ namesDirectory path = false
      ∧ t' = t.put names (.file data) := by
  unfold writeFile
  rcases locate_cases t path with ⟨e, he⟩ | ⟨names, hnames, -⟩
  · rw [he]
    constructor
    · intro h
      cases h
    · intro ⟨names, hnames, _⟩
      exact absurd hnames.symm placeOf_ne_unreachable
  · -- a place tells its path, so that the names are those that were found
    have hsame : ∀ {names' : List String}, t.locate path = t.placeOf names' → names = names' :=
      fun h' => (placeOf_inj (hnames.symm.trans h')).1
    cases hnode : t.node? names with
    | none =>
      have hplace := hnames.trans (placeOf_vacant hnode)
      rw [hplace]
      dsimp only
      by_cases hdirectory : namesDirectory path = true
      · rw [if_pos hdirectory]
        constructor
        · intro h
          cases h
        · intro ⟨_, _, _, hno, _⟩
          rw [hdirectory] at hno
          cases hno
      · rw [if_neg hdirectory]
        constructor
        · intro h
          refine ⟨names, (placeOf_vacant hnode).symm, ?_, Bool.eq_false_iff.2 hdirectory,
            (Except.ok.inj h).symm⟩
          rw [hnode]
          intro hdirectory'
          cases hdirectory'
        · intro ⟨names', hnames', _, _, ht'⟩
          rw [hsame (hplace.trans hnames'), ht']
    | some node =>
      have hplace := hnames.trans (placeOf_taken hnode)
      rw [hplace]
      cases node with
      | directory =>
        constructor
        · intro h
          cases h
        · intro ⟨names', hnames', hno, _⟩
          rw [← hsame (hplace.trans hnames')] at hno
          exact absurd hnode hno
      | file data' =>
        constructor
        · intro h
          refine ⟨names, (placeOf_taken hnode).symm, ?_, (locate_eq_placeOf.1 hnames).2.2.2 _ hnode,
            (Except.ok.inj h).symm⟩
          rw [hnode]
          intro hdirectory
          cases hdirectory
        · intro ⟨names', hnames', _, _, ht'⟩
          rw [hsame (hplace.trans hnames'), ht']

/-- The file that a path leads to. -/
theorem file?_of_locate {path : String} {names : List String} {data : FileData}
    (h : t.locate path = .taken names (.file data)) : t.file? (key names) = some data := by
  have hnode := (locate_taken h).1
  have hne : names ≠ [] := by
    refine ne_nil_of_node? (t := t) ?_
    rw [hnode]
    intro hdirectory
    cases hdirectory
  rw [node?_cons hne] at hnode
  exact file?_eq_some.2 hnode

/-- A path leads to its file while what is open stays open, and the file as it is. -/
theorem locate_file (hstays : t.StaysOpen t') {path : String} {names : List String}
    {data : FileData} (h : t.locate path = .taken names (.file data))
    (hsame : t'.file? (key names) = t.file? (key names)) :
    t'.locate path = .taken names (.file data) := by
  obtain ⟨hnode, hplace⟩ := locate_taken h
  have hne : names ≠ [] := by
    refine ne_nil_of_node? (t := t) ?_
    rw [hnode]
    intro hdirectory
    cases hdirectory
  rw [file?_of_locate h, file?_eq_some, ← node?_cons hne] at hsame
  rw [locate_placeOf hstays hplace fun _ _ => (locate_eq_placeOf.1 hplace).2.2.2 data hnode,
    placeOf_taken hsame]

/-! ## §3. Making directories. -/

/-- Everything in the tree `t` is in the tree `t'`, which has no more files. -/
structure Grows (t t' : FileTree) : Prop where
  kept : ∀ place node, t.entries.get? place = some node → t'.entries.get? place = some node
  files : ∀ place, t'.file? place = t.file? place

theorem Grows.refl (t : FileTree) : t.Grows t := ⟨fun _ _ h => h, fun _ => rfl⟩

theorem Grows.trans {t'' : FileTree} (h : t.Grows t') (h' : t'.Grows t'') : t.Grows t'' :=
  ⟨fun place node hplace => h'.kept place node (h.kept place node hplace),
    fun place => (h'.files place).trans (h.files place)⟩

theorem Grows.node? (h : t.Grows t') {names : List String} {node : Node}
    (hnode : t.node? names = some node) : t'.node? names = some node := by
  by_cases hnil : names = []
  · rw [hnil] at hnode ⊢
    exact hnode
  · rw [node?_cons hnil] at hnode ⊢
    exact h.kept _ _ hnode

theorem Grows.staysOpen (h : t.Grows t') : t.StaysOpen t' :=
  staysOpen_of_directories fun _ hopen => h.node? hopen.self

/-- A directory is made where nothing is. -/
theorem grows_put {names : List String} (hne : names ≠ []) (hnode : t.node? names = none) :
    t.Grows (t.put names .directory) := by
  rw [node?_cons hne] at hnode
  refine ⟨?_, ?_⟩
  · intro place node hplace
    rw [get?_put, if_neg]
    · exact hplace
    · intro heq
      rw [heq, hnode] at hplace
      cases hplace
  · intro place
    unfold file?
    rw [get?_put]
    by_cases heq : place = key names
    · rw [if_pos heq, heq, hnode]
    · rw [if_neg heq]

theorem makeFrom_name {here rest : List String} {name : String} (hup : name ≠ "..") :
    t.makeFrom here (name :: rest)
      = if maxNameSize < name.utf8ByteSize then (t, some .nameTooLong)
        else match t.node? (here ++ [name]) with
          | some .directory => t.makeFrom (here ++ [name]) rest
          | some (.file _) => (t, some (if rest.isEmpty then .alreadyExists else .notDirectory))
          | none => (t.put (here ++ [name]) .directory).makeFrom (here ++ [name]) rest :=
  makeFrom.eq_3 t here name rest hup

/-- **Making directories touches no file**, and the path then leads to a directory, if all of
them could be made. -/
theorem makeFrom_grows {here parts : List String} (hopen : t.Open here)
    (hparts : ∀ n ∈ parts, IsName n) : t.Grows (t.makeFrom here parts).1
      ∧ ((t.makeFrom here parts).2 = none
        → ∃ names, (t.makeFrom here parts).1.follow here parts = .taken names .directory) := by
  induction parts generalizing t here with
  | nil => exact ⟨Grows.refl t, fun _ => ⟨here, rfl⟩⟩
  | cons name rest ih =>
    have hrest : ∀ n ∈ rest, IsName n := fun n hn => hparts n (List.mem_cons_of_mem _ hn)
    have hname := hparts name List.mem_cons_self
    by_cases hup : name = ".."
    · rw [hup, makeFrom]
      by_cases hempty : here.isEmpty = true
      · rw [if_pos hempty]
        refine ⟨Grows.refl t, ?_⟩
        intro h
        cases h
      · rw [if_neg hempty]
        obtain ⟨hgrows, hleads⟩ := ih hopen.dropLast hrest
        refine ⟨hgrows, ?_⟩
        intro h
        obtain ⟨names, hnames⟩ := hleads h
        refine ⟨names, ?_⟩
        rw [follow, if_neg hempty]
        exact hnames
    · rw [makeFrom_name hup]
      have hne : here ++ [name] ≠ [] := List.append_ne_nil_of_right_ne_nil _ (List.cons_ne_nil _ _)
      by_cases hsize : maxNameSize < name.utf8ByteSize
      · rw [if_pos hsize]
        refine ⟨Grows.refl t, ?_⟩
        intro h
        cases h
      · rw [if_neg hsize]
        -- a directory on the way is there behind the run too
        have hstep : ∀ {t₁ t₂ : FileTree}, t₁.Grows t₂ → t₁.node? (here ++ [name]) = some .directory →
            (∃ names, t₂.follow (here ++ [name]) rest = .taken names .directory) →
            ∃ names, t₂.follow here (name :: rest) = .taken names .directory := by
          rintro t₁ t₂ hgrows hnode ⟨names, hnames⟩
          refine ⟨names, ?_⟩
          rw [follow_name hup, if_neg hsize, hgrows.node? hnode]
          exact hnames
        cases hnode : t.node? (here ++ [name]) with
        | none =>
          have hput := grows_put hne hnode
          have hmade := node?_put (t := t) hne .directory
          obtain ⟨hgrows, hleads⟩ := ih ((hput.staysOpen _ hopen).concat hname hmade) hrest
          exact ⟨hput.trans hgrows, fun h => hstep hgrows hmade (hleads h)⟩
        | some node =>
          cases node with
          | directory =>
            obtain ⟨hgrows, hleads⟩ := ih (hopen.concat hname hnode) hrest
            exact ⟨hgrows, fun h => hstep hgrows hnode (hleads h)⟩
          | file data =>
            refine ⟨Grows.refl t, ?_⟩
            intro h
            cases h

/-- Where all directories are there, none is made. -/
theorem makeFrom_of_follow {here parts names : List String}
    (h : t.follow here parts = .taken names .directory) : t.makeFrom here parts = (t, none) := by
  induction parts generalizing here with
  | nil => rfl
  | cons name rest ih =>
    by_cases hup : name = ".."
    · rw [hup, follow] at h
      rw [hup, makeFrom]
      split at h
      · cases h
      · next hempty =>
        rw [if_neg hempty]
        exact ih h
    · rw [follow_name hup] at h
      split at h
      · cases h
      · next hsize =>
        split at h
        · next hnode =>
          rw [makeFrom_name hup, if_neg hsize, hnode]
          exact ih h
        · split at h
          · cases h
          · cases h
        · split at h
          · cases h
          · cases h

theorem makeParts_grows {parts : List String} (hparts : ∀ n ∈ parts, IsName n) :
    t.Grows (t.makeParts parts).1 ∧ ((t.makeParts parts).2 = none
      → ∃ names, (t.makeParts parts).1.follow [] parts = .taken names .directory) := by
  unfold makeParts
  split
  · refine ⟨Grows.refl t, ?_⟩
    intro h
    cases h
  · exact makeFrom_grows (Open.nil t) hparts

/-- Directories that were made need not be made again. -/
theorem makeParts_again {made : FileTree} {parts : List String} (hparts : ∀ n ∈ parts, IsName n)
    (hmade : t.makeParts parts = (made, none)) (hstays : made.StaysOpen t') :
    t'.makeParts parts = (t', none) := by
  obtain ⟨-, hleads⟩ := makeParts_grows (t := t) hparts
  rw [hmade] at hleads
  obtain ⟨names, hnames⟩ := hleads rfl
  obtain ⟨hnode, hplace⟩ := follow_taken (Open.nil made) hparts hnames
  have hopen := hstays _ ((follow_reached (Open.nil made) hparts hplace).isOpen_of_directory hnode)
  have hfollow := follow_placeOf hstays (Open.nil made) hparts hplace
  rw [placeOf_taken hopen.self] at hfollow
  unfold makeParts at hmade ⊢
  split at hmade
  · cases hmade
  · next hnul =>
    rw [if_neg hnul]
    exact makeFrom_of_follow hfollow

/-! ## §4. Moving a file. -/

/-- **A file is moved to the place that the path leads to.** -/
theorem moveFile_ok {source : List String} {target : String} (hnames : ∀ n ∈ source, IsName n) :
    t.moveFile source target = .ok t' ↔ ∃ names names' data,
      t.follow [] source = .taken names (.file data) ∧ t.locate target = t.placeOf names'
        ∧ t.node? names' ≠ some .directory ∧ namesDirectory target = false
        ∧ t' = if names = names' then t else (t.cut names).put names' (.file data) := by
  have hfile : ∀ {data : FileData}, some (Node.file data) ≠ some .directory := by
    intro data h
    cases h
  have hnone : (none : Option Node) ≠ some .directory := by
    intro h
    cases h
  unfold moveFile
  constructor
  · intro h
    split at h
    · next names data names' data' hsource htarget =>
      obtain ⟨hnode, hplace⟩ := locate_taken htarget
      refine ⟨names, names', data, hsource, hplace, ?_,
        (locate_eq_placeOf.1 hplace).2.2.2 _ hnode, ?_⟩
      · rw [hnode]
        exact hfile
      · split at h
        · next hsame => rw [if_pos hsame, Except.ok.inj h]
        · next hother => rw [if_neg hother, Except.ok.inj h]
    · next names data names' hsource htarget =>
      obtain ⟨hnode, hplace⟩ := locate_vacant htarget
      split at h
      · cases h
      · next hdirectory =>
        refine ⟨names, names', data, hsource, hplace, ?_, Bool.eq_false_iff.2 hdirectory, ?_⟩
        · rw [hnode]
          exact hnone
        · -- the file is not at the place where nothing is
          have hother : names ≠ names' := by
            intro hsame
            obtain ⟨hnode', -⟩ := follow_taken (Open.nil t) hnames hsource
            rw [hsame, hnode] at hnode'
            cases hnode'
          rw [if_neg hother, Except.ok.inj h]
    · cases h
    · cases h
    · cases h
  · intro ⟨names, names', data, hsource, hplace, hnode, hdirectory, ht'⟩
    rw [hsource, hplace]
    cases hnode' : t.node? names' with
    | none =>
      have hother : names ≠ names' := by
        intro hsame
        obtain ⟨hnode'', -⟩ := follow_taken (Open.nil t) hnames hsource
        rw [hsame, hnode'] at hnode''
        cases hnode''
      rw [placeOf_vacant hnode', ht']
      dsimp only
      rw [if_neg (by rw [hdirectory]; exact Bool.false_ne_true), if_neg hother]
    | some node =>
      cases node with
      | directory => exact absurd hnode' hnode
      | file data' =>
        rw [placeOf_taken hnode', ht']
        dsimp only
        split
        · rfl
        · rfl

end SchemaDrift.FileTree
