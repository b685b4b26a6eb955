/-
  SchemaDrift.Proofs.Alter.Sparing
  ────────────────────────────────
  **WHAT THE STATEMENTS OF A DIFFERENCE LEAVE IN FORCE.**

  A statement spares a constraint if what it does leaves the constraint in force, under its
  name and about no other columns (`Spares`).  Of the statements of a difference

      all spare a constraint that does not change               (`Becomes.spares`)
      one drops a changed constraint, all others spare it       (`drop_among_statements`)
      all behind the addition of a constraint spare it          (`add_among_statements`)
      all behind the addition of a column spare its constraints (`column_among_statements`)

  The reason is that no column is modified twice (`modified_alone`), and that a default name
  tells its column.
-/

import Mathlib.Data.List.Flatten
import SchemaDrift.Proofs.Alter.Constraint
import SchemaDrift.Proofs.Alter.Surroundings

namespace SchemaDrift.Alter

open SchemaDrift.Sql

/-! ## §1. What steps do to constraints. -/

/-- What a step may do to the constraints of the table. -/
inductive Step.Does (table : String) : Step → Deed → Prop where
  | rename (a b : Column) (p : Rename.Pairing) :
    Does table (.rename a b p) (.rename a.name b.name)
  | dropKey (s : Step) : Does table s (.unconstrain (defaultKeyName table))
  | unconstrain {a c : Column} (renamed : Bool) {k : ConstraintKind}
    (h : k.change.holds a c = true) :
    Does table (.modify a c renamed) (.unconstrain (defaultName table a.name k))
  | constrain (s : Step) (x : Constraint) : Does table s (.constrain x)
  | add (c : Column) : Does table (.add c) (.add c.name)
  | drop (c : Column) : Does table (.drop c) (.drop c.name)

variable {mentions : String → List String} {t : Target}

theorem does_dropKey {d : Bool} {s : Step} {sql : String} {x : Deed} (h : sql ∈ t.dropKey d)
    (hx : deed? mentions sql = some x) : s.Does t.table.name x := by
  rw [deed?_dropKey t h] at hx
  cases hx
  exact .dropKey s

/-- **What a statement of a step does is what the step may do.** -/
theorem does_of_mem {d : Bool} {s : Step} {sql : String} {x : Deed}
    (h : sql ∈ (t.operation d s).sql) (hx : deed? mentions sql = some x) :
    s.Does t.table.name x := by
  -- by the step: each of its statements is read back to its deed
  cases s with
  | rename a b p =>
    rw [List.mem_singleton.1 h, deed?_rename] at hx
    cases hx
    exact .rename a b p
  | modify a c renamed =>
    rcases mem_modify h with hkey | ⟨k, hchange, rfl⟩ | ⟨action, -, rfl⟩ | ⟨k, definition, hk, rfl⟩
    · exact does_dropKey hkey hx
    · rw [deed?_dropConstraint] at hx
      cases hx
      exact .unconstrain renamed (List.mem_filter.1 hchange).2
    · rw [deed?_alterColumn] at hx
      cases hx
    · rw [deed?_definition t hk] at hx
      cases hx
      exact .constrain _ _
  | add c =>
    have hadd : ∀ b : Column, b.name = c.name →
        sql ∈ [t.alter ("ADD COLUMN " ++ b.toSql)] → (Step.add c).Does t.table.name x := by
      intro b hname hsql
      rw [List.mem_singleton.1 hsql, deed?_add, hname] at hx
      cases hx
      exact .add c
    simp only [Target.operation] at h
    split at h
    · rcases List.mem_append.1 h with h | h
      · exact does_dropKey h hx
      · exact hadd c.withoutPrimaryKey rfl h
    · exact hadd c rfl h
  | drop c =>
    rcases List.mem_append.1 h with h | h
    · split at h
      · exact does_dropKey h hx
      · cases h
    · rw [List.mem_singleton.1 h, deed?_drop] at hx
      cases hx
      exact .drop c

/-! ## §2. What leaves a constraint in force. -/

/-- A constraint of the name is in force, and is about no other columns. -/
def Stands (name : String) (columns : List String) (s : List Constraint) : Prop :=
  ∃ x ∈ s, x.name = name ∧ x.columns ⊆ columns

/-- The deed leaves a constraint of the name in force, and about no other columns. -/
def Deed.Keeps (name : String) (columns : List String) : Deed → Prop
  | rename source target => source ∈ columns → target ∈ columns
  | drop column => column ∉ columns
  | unconstrain n => n ≠ name
  | add _ | constrain _ => True

/-- What the statement does leaves the constraint in force. -/
def Spares (mentions : String → List String) (name : String) (columns : List String)
    (sql : String) : Prop :=
  ∀ x, deed? mentions sql = some x → x.Keeps name columns

section Keeping

variable {name : String} {columns : List String}

theorem Deed.Keeps.stands {new : Table} {s : List Constraint} {d : Deed}
    (hd : d.Keeps name columns) (h : Stands name columns s) :
    Stands name columns (d.perform mentions new s) := by
  obtain ⟨x, hx, hname, hcolumns⟩ := h
  cases d with
  | rename source target =>
    refine ⟨_, List.mem_map_of_mem hx, hname, ?_⟩
    intro c hc
    obtain ⟨b, hb, rfl⟩ := List.mem_map.1 hc
    split
    · next he => exact hd (he ▸ hcolumns hb)
    · exact hcolumns hb
  | add column => exact ⟨x, List.mem_append_left _ hx, hname, hcolumns⟩
  | drop column =>
    refine ⟨x, List.mem_filter.2 ⟨hx, ?_⟩, hname, hcolumns⟩
    simpa using fun hmem => hd (hcolumns hmem)
  | constrain y => exact ⟨x, List.mem_append_left _ hx, hname, hcolumns⟩
  | unconstrain n =>
    refine ⟨x, List.mem_filter.2 ⟨hx, ?_⟩, hname, hcolumns⟩
    rw [hname]
    exact decide_eq_true (Ne.symm hd)

/-- **Statements that spare a constraint leave it in force.** -/
theorem stands_enforceAll {new : Table} {sqls : List String}
    (hsqls : ∀ sql ∈ sqls, Spares mentions name columns sql) {s : List Constraint}
    (h : Stands name columns s) : Stands name columns (enforceAll mentions new s sqls) := by
  induction sqls generalizing s with
  | nil => exact h
  | cons sql sqls ih =>
    refine ih (fun q hq => hsqls q (List.mem_cons_of_mem _ hq)) ?_
    unfold enforce
    cases hx : deed? mentions sql with
    | none => exact h
    | some x => exact (hsqls sql List.mem_cons_self x hx).stands h

/-- The drop of a constraint does not spare it. -/
theorem not_spares_dropConstraint :
    ¬Spares mentions name columns (t.alter ("DROP CONSTRAINT IF EXISTS " ++ quoteIdent name)) :=
  fun h => h _ (deed?_dropConstraint mentions t name) rfl

end Keeping

/-! ## §3. Columns from one version to the next. -/

variable {old new : Table} {a c : Column}

/-- The column becomes another: it is kept, or renamed. -/
def Becomes (old new : Table) (a c : Column) : Prop :=
  (a, c) ∈ kept old new ∨ ∃ r ∈ renamings old new, r.source = a ∧ r.target = c

theorem becomes_of_modify {renamed : Bool} (h : Step.modify a c renamed ∈ steps old new) :
    Becomes old new a c := by
  rcases mem_steps.1 h with ⟨r, hr, hs⟩ | ⟨b, -, he⟩ | ⟨b, -, he⟩ | ⟨p, hp, hs⟩
  · rcases List.mem_cons.1 hs with he | hs
    · cases he
    · obtain ⟨-, he⟩ := mem_modification.1 hs
      cases he
      exact Or.inr ⟨r, hr, rfl, rfl⟩
  · cases he
  · cases he
  · obtain ⟨-, he⟩ := mem_modification.1 hs
    cases he
    exact Or.inl hp

/-- A column that changes is modified. -/
theorem Becomes.modify (h : Becomes old new a c) {change : ColumnChange}
    (hchange : change ∈ columnChanges a c) :
    ∃ renamed, Step.modify a c renamed ∈ steps old new := by
  have hne : columnChanges a c ≠ [] := List.ne_nil_of_mem hchange
  rcases h with hkept | ⟨r, hr, rfl, rfl⟩
  · exact ⟨false, mem_steps.2
      (Or.inr (Or.inr (Or.inr ⟨_, hkept, mem_modification.2 ⟨hne, rfl⟩⟩)))⟩
  · exact ⟨true, mem_steps.2
      (Or.inl ⟨r, hr, List.mem_cons_of_mem _ (mem_modification.2 ⟨hne, rfl⟩)⟩)⟩

theorem Becomes.mem (h : Becomes old new a c) : a ∈ old.columns ∧ c ∈ new.columns := by
  rcases h with hkept | ⟨r, hr, rfl, rfl⟩
  · obtain ⟨hc, ha⟩ := mem_kept.1 hkept
    exact ⟨(column?_eq_some ha).1, hc⟩
  · obtain ⟨ha, -, hc, -⟩ := renaming_mem hr
    exact ⟨ha, hc⟩

/-- The column has its old name, or one that is new. -/
theorem Becomes.name (h : Becomes old new a c) : c.name = a.name ∨ c.name ∉ old.columnNames := by
  rcases h with hkept | ⟨r, hr, rfl, rfl⟩
  · obtain ⟨-, ha⟩ := mem_kept.1 hkept
    exact Or.inl (column?_eq_some ha).2.symm
  · obtain ⟨-, -, -, hfresh⟩ := renaming_mem hr
    exact Or.inr hfresh

/-- A name becomes one column. -/
theorem Becomes.unique (ho : old.columnNames.Nodup) (hn : new.columnNames.Nodup)
    {a' c' : Column} (h : Becomes old new a c) (h' : Becomes old new a' c')
    (hname : a'.name = a.name) : a' = a ∧ c' = c := by
  have hsource : a' = a := column_eq_of_name_eq ho h'.mem.1 h.mem.1 hname
  refine ⟨hsource, ?_⟩
  subst hsource
  have hapart : ∀ {b : Column}, (a', b) ∈ kept old new → a'.name ∈ new.columnNames := by
    intro b hb
    obtain ⟨hmem, ha⟩ := mem_kept.1 hb
    exact (column?_eq_some ha).2 ▸ List.mem_map_of_mem hmem
  rcases h with hkept | ⟨r, hr, hra, rfl⟩
  · rcases h' with hkept' | ⟨q, hq, hqa, rfl⟩
    · obtain ⟨hc, ha⟩ := mem_kept.1 hkept
      obtain ⟨hc', ha'⟩ := mem_kept.1 hkept'
      exact column_eq_of_name_eq hn hc' hc
        ((column?_eq_some ha').2.symm.trans (column?_eq_some ha).2)
    · obtain ⟨-, hgone, -, -⟩ := renaming_mem hq
      exact absurd (hapart hkept) (hqa ▸ hgone)
  · rcases h' with hkept' | ⟨q, hq, hqa, rfl⟩
    · obtain ⟨-, hgone, -, -⟩ := renaming_mem hr
      exact absurd (hapart hkept') (hra ▸ hgone)
    · rw [renaming_unique ho hn hq hr (Or.inl (by rw [hqa, hra]))]

/-- Neither a rename nor a drop takes one of the names apart from the others. -/
structure Together (old new : Table) (columns : List String) : Prop where
  renamed : ∀ r ∈ renamings old new, r.source.name ∈ columns → r.target.name ∈ columns
  dropped : ∀ b ∈ dropped old new, b.name ∉ columns

/-- A column that is there in the end is left alone. -/
theorem together_new (ho : old.columnNames.Nodup) (hc : c ∈ new.columns) :
    Together old new [c.name] where
  renamed := by
    intro r hr hname
    obtain ⟨-, hgone, -, -⟩ := renaming_mem hr
    exact absurd (List.mem_singleton.1 hname ▸ List.mem_map_of_mem hc) hgone
  dropped := by
    intro b hb hname
    obtain ⟨-, hgone, -⟩ := (mem_dropped ho).1 hb
    exact hgone (List.mem_singleton.1 hname ▸ List.mem_map_of_mem hc)

/-- So is one that becomes another, but for the rename. -/
theorem Becomes.together (ho : old.columnNames.Nodup) (hn : new.columnNames.Nodup)
    (h : Becomes old new a c) : Together old new [a.name, c.name] := by
  have hnew := together_new ho h.mem.2
  rcases h with hkept | ⟨r, hr, rfl, rfl⟩
  · obtain ⟨-, ha⟩ := mem_kept.1 hkept
    have hsame : ∀ n, n ∈ [a.name, c.name] ↔ n ∈ [c.name] := by
      intro n
      simp [(column?_eq_some ha).2]
    exact ⟨fun q hq hsource => (hsame _).2 (hnew.renamed q hq ((hsame _).1 hsource)),
      fun b hb hname => hnew.dropped b hb ((hsame _).1 hname)⟩
  · constructor
    · intro q hq hsource
      rcases List.mem_pair.1 hsource with hname | hname
      · rw [renaming_unique ho hn hq hr (Or.inl hname)]
        exact List.mem_cons_of_mem _ List.mem_cons_self
      · exact List.mem_cons_of_mem _ (hnew.renamed q hq (List.mem_singleton.2 hname))
    · intro b hb hname
      rcases List.mem_pair.1 hname with hname | hname
      · obtain ⟨-, -, hfree⟩ := (mem_dropped ho).1 hb
        exact hfree r hr hname.symm
      · exact hnew.dropped b hb (List.mem_singleton.2 hname)

/-- A name that is not there beforehand is taken from nothing. -/
theorem Together.cons {columns : List String} (h : Together old new columns) {name : String}
    (hfresh : name ∉ old.columnNames) (ho : old.columnNames.Nodup) :
    Together old new (name :: columns) where
  renamed := by
    intro r hr hsource
    obtain ⟨hmem, -, -, -⟩ := renaming_mem hr
    rcases List.mem_cons.1 hsource with he | hsource
    · exact absurd (he ▸ List.mem_map_of_mem hmem) hfresh
    · exact List.mem_cons_of_mem _ (h.renamed r hr hsource)
  dropped := by
    intro b hb hname
    obtain ⟨hmem, -, -⟩ := (mem_dropped ho).1 hb
    rcases List.mem_cons.1 hname with he | hname
    · exact hfresh (he ▸ List.mem_map_of_mem hmem)
    · exact h.dropped b hb hname

/-- The name of the column that a step modifies. -/
def Step.modified? : Step → Option String
  | .modify a _ _ => some a.name
  | _ => none

theorem modified?_modification (a c : Column) (renamed : Bool) :
    ((modification a c renamed).filterMap Step.modified?).Sublist [a.name] := by
  unfold modification
  split
  · exact List.nil_sublist _
  · exact List.Sublist.refl _

/-- No column is modified twice. -/
theorem modified_nodup (ho : old.columnNames.Nodup) (hn : new.columnNames.Nodup) :
    ((steps old new).filterMap Step.modified?).Nodup := by
  -- in each group a step modifies a column under a name that the group touches, once
  refine (touchedNames_nodup ho hn).sublist ?_
  have hkept : ((kept old new).flatMap fun p => [p.1.name]).Sublist
      ((kept old new).map (·.2.name)) := by
    rw [← List.map_eq_flatMap]
    have hnames : (kept old new).map (·.1.name) = (kept old new).map (·.2.name) :=
      List.map_congr_left fun p hp => (column?_eq_some (mem_kept.1 hp).2).2
    rw [hnames]
  rw [steps_eq]
  unfold keptSteps touchedNames
  simp only [List.filterMap_append, List.filterMap_flatMap, List.filterMap_map]
  refine List.Sublist.append (List.Sublist.append (List.Sublist.append ?_ ?_) ?_) ?_
  · refine List.Sublist.flatMap_right _ fun r _ => ?_
    exact (modified?_modification _ _ _).trans
      (List.Sublist.cons_cons _ (List.nil_sublist _))
  · simp [Function.comp_def, Step.modified?]
  · simp [Function.comp_def, Step.modified?]
  · exact (List.Sublist.flatMap_right _ fun p _ => modified?_modification _ _ _).trans hkept

/-- **Beside the modification of a column stands none of a column of its old name or of its
new one.** -/
theorem modified_alone (ho : old.columnNames.Nodup) (hn : new.columnNames.Nodup)
    {renamed : Bool} {front back : List Step}
    (h : steps old new = front ++ .modify a c renamed :: back) :
    ∀ a' c' r, Step.modify a' c' r ∈ front ++ back → a'.name ≠ a.name ∧ a'.name ≠ c.name := by
  intro a' c' r hmem
  have hnodup := modified_nodup ho hn
  have hmodified : (Step.modify a c renamed).modified? = some a.name := rfl
  rw [h, List.filterMap_append, List.filterMap_cons_some hmodified, List.nodup_middle,
    ← List.filterMap_append] at hnodup
  have hne : a'.name ≠ a.name := by
    intro he
    refine (List.nodup_cons.1 hnodup).1 ?_
    exact List.mem_filterMap.2 ⟨_, hmem, congrArg some he⟩
  have hstep : ∀ s ∈ .modify a c renamed :: (front ++ back), s ∈ steps old new :=
    fun s hs => h ▸ List.perm_middle.mem_iff.2 hs
  have hbecomes : Becomes old new a c := becomes_of_modify (hstep _ List.mem_cons_self)
  have hbecomes' : Becomes old new a' c' :=
    becomes_of_modify (hstep _ (List.mem_cons_of_mem _ hmem))
  -- an old column of the new name is this column itself, or there is none
  refine ⟨hne, fun he => ?_⟩
  rcases hbecomes.name with hsame | hfresh
  · exact hne (he.trans hsame)
  · exact hfresh (he ▸ List.mem_map_of_mem hbecomes'.mem.1)

/-! ## §4. A constraint through a difference. -/

/-- A step spares a constraint of columns that stay together, if it does not change it. -/
theorem Step.Does.keeps {columns : List String} (htogether : Together old new columns)
    {s : Step} (hs : s ∈ steps old new) {table n : String} {k : ConstraintKind}
    (hunchanged : ∀ a c r, s = .modify a c r → a.name = n → k.change.holds a c = false)
    {x : Deed} (h : s.Does table x) : x.Keeps (defaultName table n k) columns := by
  cases h with
  | rename a b p => exact htogether.renamed _ (rename_mem_steps.1 hs)
  | dropKey => exact Ne.symm (defaultName_ne_key table n k)
  | unconstrain r hchange =>
    intro he
    obtain ⟨hname, rfl⟩ := defaultName_injective he
    rw [hunchanged _ _ r rfl hname] at hchange
    cases hchange
  | constrain => trivial
  | add => trivial
  | drop b => exact htogether.dropped b (drop_mem_steps.1 hs)

/-- So do the statements of some steps. -/
theorem FromSteps.spares {columns : List String} (htogether : Together old new columns)
    {ss : List Step} (hss : ∀ s ∈ ss, s ∈ steps old new) {n : String} {k : ConstraintKind}
    (hunchanged : ∀ a c r, Step.modify a c r ∈ ss → a.name = n → k.change.holds a c = false)
    {sql : String} (h : FromSteps (target old new) ss sql) :
    Spares mentions (defaultName new.name n k) columns sql := by
  intro x hx
  rcases h with hkey | ⟨s, hs, d, hsql⟩
  · obtain ⟨y, hread⟩ := deed?_addKey _ hkey
    rw [hx] at hread
    cases hread
    trivial
  · exact (does_of_mem hsql hx).keeps htogether (hss s hs)
      fun a c r he => hunchanged a c r (he ▸ hs)

/-- **All statements spare a constraint that does not change.** -/
theorem Becomes.spares (ho : old.columnNames.Nodup) (hn : new.columnNames.Nodup)
    (h : Becomes old new a c) {k : ConstraintKind} (hsame : k.change.holds a c = false)
    {sql : String} (hsql : sql ∈ statements (diff old new)) :
    Spares mentions (defaultName new.name a.name k) [a.name, c.name] sql := by
  refine (fromSteps_diff hsql).spares (h.together ho hn) (fun _ hs => hs) ?_
  intro a' c' r hmodify hname
  obtain ⟨rfl, rfl⟩ := h.unique ho hn (becomes_of_modify hmodify) hname
  exact hsame

/-- A drop of what a change replaces spares every constraint of the column that does not
change. -/
theorem spares_dropChanged {d : Bool} {change : ColumnChange} {k : ConstraintKind}
    (hchange : change ≠ k.change) {sql : String} (h : sql ∈ t.dropChanged d a c change)
    (columns : List String) :
    Spares mentions (defaultName t.table.name a.name k) columns sql := by
  intro x hx
  unfold Target.dropChanged at h
  split at h
  · rw [deed?_dropKey t h] at hx
    cases hx
    exact Ne.symm (defaultName_ne_key _ _ k)
  · obtain ⟨j, rfl, rfl⟩ := mem_dropConstraint h
    rw [deed?_dropConstraint] at hx
    cases hx
    intro he
    obtain ⟨-, rfl⟩ := defaultName_injective he
    exact hchange rfl

/-- Changes in place and additions of constraints spare all constraints. -/
theorem spares_place_add {changes : List ColumnChange} {sql : String}
    (h : sql ∈ changes.flatMap (t.inPlace c) ++ changes.flatMap (t.addConstraint c))
    (name : String) (columns : List String) : Spares mentions name columns sql := by
  intro x hx
  rcases List.mem_append.1 h with h | h
  · obtain ⟨change, -, hsql⟩ := List.mem_flatMap.1 h
    obtain ⟨action, -, rfl⟩ := mem_inPlace hsql
    rw [deed?_alterColumn] at hx
    cases hx
  · obtain ⟨change, -, hsql⟩ := List.mem_flatMap.1 h
    obtain ⟨k, definition, hk, rfl⟩ := mem_addConstraint hsql
    rw [deed?_definition t hk] at hx
    cases hx
    trivial

/-- A change of a constraint is among the changes. -/
theorem ConstraintKind.change_mem {k : ConstraintKind} (hk : k.change.holds a c = true) :
    k.change ∈ columnChanges a c :=
  List.mem_filter.2 ⟨by cases k <;> decide, hk⟩

variable (mentions t)

/-- The drop of a constraint among the statements of a modification. -/
theorem exists_drop (d : Bool) {k : ConstraintKind} (hk : k.change.holds a c = true)
    (columns : List String) : ∃ front back,
      t.modify d a c (columnChanges a c) = front ++ t.alter ("DROP CONSTRAINT IF EXISTS "
          ++ quoteIdent (defaultName t.table.name a.name k)) :: back
        ∧ ∀ sql ∈ front ++ back,
          Spares mentions (defaultName t.table.name a.name k) columns sql := by
  -- the changes are cut at this one; it is not listed twice
  obtain ⟨front, back, hchanges⟩ := List.append_of_mem (k.change_mem hk)
  have hnodup := columnChanges_nodup a c
  rw [hchanges, List.nodup_middle] at hnodup
  have hother : ∀ change ∈ front ++ back, change ≠ k.change :=
    fun change hchange he => (List.nodup_cons.1 hnodup).1 (he ▸ hchange)
  have hone : t.dropChanged d a c k.change = [t.alter ("DROP CONSTRAINT IF EXISTS "
      ++ quoteIdent (defaultName t.table.name a.name k))] := by
    unfold Target.dropChanged
    rw [if_neg (by cases k <;> decide), dropConstraint_change]
  refine ⟨front.flatMap (t.dropChanged d a c), back.flatMap (t.dropChanged d a c)
    ++ ((columnChanges a c).flatMap (t.inPlace c)
      ++ (columnChanges a c).flatMap (t.addConstraint c)), ?_, ?_⟩
  · have hdrops : (columnChanges a c).flatMap (t.dropChanged d a c)
        = front.flatMap (t.dropChanged d a c)
          ++ (t.dropChanged d a c k.change ++ back.flatMap (t.dropChanged d a c)) := by
      rw [hchanges, List.flatMap_append, List.flatMap_cons]
    rw [modify_eq, hdrops, hone]
    simp only [List.append_assoc, List.cons_append, List.nil_append]
  · intro sql hsql
    rw [← List.append_assoc, ← List.flatMap_append] at hsql
    rcases List.mem_append.1 hsql with hsql | hsql
    · obtain ⟨change, hchange, hsql⟩ := List.mem_flatMap.1 hsql
      exact spares_dropChanged (hother change hchange) hsql columns
    · exact spares_place_add hsql _ columns

/-- The addition of a constraint among them. -/
theorem exists_add (d : Bool) {k : ConstraintKind} (hk : k.change.holds a c = true)
    (hdeclared : k.isDeclared c = true) (name : String) (columns : List String) :
    ∃ front sql back, t.modify d a c (columnChanges a c) = front ++ sql :: back
      ∧ deed? mentions sql
        = some (.constrain ⟨defaultName t.table.name c.name k, k.columns mentions c⟩)
      ∧ ∀ q ∈ back, Spares mentions name columns q := by
  obtain ⟨definition, hdefinition⟩ :=
    Option.isSome_iff_exists.1 ((k.isSome_definition? c).trans hdeclared)
  obtain ⟨front, back, hadds⟩ := List.append_of_mem (List.mem_flatMap.2 ⟨k.change, k.change_mem hk,
    addConstraint_change (t := t) hdefinition ▸ List.mem_singleton_self _⟩)
  rw [modify_eq, ← List.append_assoc]
  refine ⟨_, _, back, by rw [hadds, ← List.append_assoc], deed?_definition t hdefinition _, ?_⟩
  intro q hq
  have hadd : q ∈ (columnChanges a c).flatMap (t.addConstraint c) :=
    hadds ▸ List.mem_append_right _ (List.mem_cons_of_mem _ hq)
  exact spares_place_add (List.mem_append_right _ hadd) name columns

/-- A modification with a change of a constraint is not left out. -/
theorem not_omitted {k : ConstraintKind} (hk : k.change.holds a c = true) (renamed d : Bool) :
    Target.isOmitted (.modify a c renamed) (t.operation d (.modify a c renamed)) = false := by
  have hmem := k.change_mem hk
  by_contra homitted
  obtain ⟨-, hkey⟩ := columnChanges_of_omitted (List.ne_nil_of_mem hmem) (by simpa using homitted)
  rw [hkey] at hmem
  cases k <;> simp [ConstraintKind.change] at hmem

/-- **The drop of a changed constraint stands once among the statements**: all others spare
the constraint. -/
theorem drop_among_statements (ho : old.columnNames.Nodup) (hn : new.columnNames.Nodup)
    (h : Becomes old new a c) {k : ConstraintKind} (hk : k.change.holds a c = true) :
    ∃ before after, statements (diff old new)
        = before ++ (target old new).alter ("DROP CONSTRAINT IF EXISTS "
          ++ quoteIdent (defaultName new.name a.name k)) :: after
      ∧ ∀ sql ∈ before ++ after,
        Spares mentions (defaultName new.name a.name k) [a.name, c.name] sql := by
  obtain ⟨renamed, hmodify⟩ := h.modify (k.change_mem hk)
  obtain ⟨front, back, hsteps⟩ := List.append_of_mem hmodify
  obtain ⟨d, before, after, hstatements, hbefore, hafter⟩ :=
    statements_around hsteps (not_omitted _ hk renamed)
  obtain ⟨first, last, hdrop, hother⟩ :=
    exists_drop mentions (target old new) d hk [a.name, c.name]
  -- no other step modifies the column, be it in front or behind
  have hspares : ∀ ss, (∀ s ∈ ss, s ∈ front ++ back) → ∀ sql,
      FromSteps (target old new) ss sql →
      Spares mentions (defaultName new.name a.name k) [a.name, c.name] sql := by
    intro ss hss sql hsql
    refine hsql.spares (h.together ho hn) (fun s hs => ?_) (fun a' c' r hs hname => ?_)
    · rw [hsteps]
      exact List.perm_middle.mem_iff.2 (List.mem_cons_of_mem _ (hss s hs))
    · exact absurd hname (modified_alone ho hn hsteps a' c' r (hss _ hs)).1
  have hsql : ((target old new).operation d (.modify a c renamed)).sql
      = (target old new).modify d a c (columnChanges a c) := rfl
  rw [hsql, hdrop] at hstatements
  refine ⟨before ++ first, last ++ after, ?_, ?_⟩
  · rw [hstatements]
    simp only [List.append_assoc, List.cons_append]
    rfl
  · intro sql hsql
    simp only [List.mem_append] at hsql
    rcases hsql with (hsql | hsql) | (hsql | hsql)
    · exact hspares front (fun s hs => List.mem_append_left _ hs) sql (hbefore sql hsql)
    · exact hother sql (List.mem_append_left _ hsql)
    · exact hother sql (List.mem_append_right _ hsql)
    · exact hspares back (fun s hs => List.mem_append_right _ hs) sql (hafter sql hsql)

/-- **Behind the addition of a constraint all statements spare it.** -/
theorem add_among_statements (ho : old.columnNames.Nodup) (hn : new.columnNames.Nodup)
    (h : Becomes old new a c) {k : ConstraintKind} (hk : k.change.holds a c = true)
    (hdeclared : k.isDeclared c = true) :
    ∃ before sql after, statements (diff old new) = before ++ sql :: after
      ∧ deed? mentions sql
        = some (.constrain ⟨defaultName new.name c.name k, k.columns mentions c⟩)
      ∧ ∀ q ∈ after, Spares mentions (defaultName new.name c.name k) [c.name] q := by
  obtain ⟨renamed, hmodify⟩ := h.modify (k.change_mem hk)
  obtain ⟨front, back, hsteps⟩ := List.append_of_mem hmodify
  obtain ⟨d, before, after, hstatements, -, hafter⟩ :=
    statements_around hsteps (not_omitted _ hk renamed)
  obtain ⟨first, sql, last, hadd, hread, hlast⟩ := exists_add mentions
    (target old new) d hk hdeclared (defaultName new.name c.name k) [c.name]
  have hsql : ((target old new).operation d (.modify a c renamed)).sql
      = (target old new).modify d a c (columnChanges a c) := rfl
  rw [hsql, hadd] at hstatements
  refine ⟨before ++ first, sql, last ++ after, ?_, hread, ?_⟩
  · rw [hstatements]
    simp only [List.append_assoc, List.cons_append]
  · intro q hq
    rcases List.mem_append.1 hq with hq | hq
    · exact hlast q hq
    · refine (hafter q hq).spares (together_new ho h.mem.2) (fun s hs => ?_)
        (fun a' c' r hs hname => ?_)
      · rw [hsteps]
        exact List.mem_append_right _ (List.mem_cons_of_mem _ hs)
      · exact absurd hname
          (modified_alone ho hn hsteps a' c' r (List.mem_append_right _ hs)).2

/-- **Behind the addition of a column all statements spare its constraints.** -/
theorem column_among_statements (ho : old.columnNames.Nodup) (hn : new.columnNames.Nodup)
    (hc : c ∈ added old new) (k : ConstraintKind) :
    ∃ before sql after, statements (diff old new) = before ++ sql :: after
      ∧ deed? mentions sql = some (.add c.name)
      ∧ ∀ q ∈ after, Spares mentions (defaultName new.name c.name k) [c.name] q := by
  obtain ⟨hnew, hfresh, -⟩ := (mem_added hn).1 hc
  obtain ⟨front, back, hsteps⟩ := List.append_of_mem (add_mem_steps.2 hc)
  obtain ⟨d, before, after, hstatements, -, hafter⟩ := statements_around hsteps (fun _ => rfl)
  -- the old key may be dropped first, but the column comes last
  obtain ⟨first, sql, hadd, hread⟩ : ∃ first sql,
      ((target old new).operation d (.add c)).sql = first ++ [sql]
        ∧ deed? mentions sql = some (.add c.name) := by
    simp only [Target.operation]
    split
    · exact ⟨_, _, rfl, deed?_add mentions _ c.withoutPrimaryKey⟩
    · exact ⟨[], _, rfl, deed?_add mentions _ c⟩
  rw [hadd] at hstatements
  refine ⟨before ++ first, sql, after, ?_, hread, ?_⟩
  · rw [hstatements]
    simp only [List.append_assoc, List.cons_append, List.nil_append]
  · intro q hq
    have hback : ∀ s ∈ back, s ∈ steps old new :=
      fun s hs => hsteps ▸ List.mem_append_right _ (List.mem_cons_of_mem _ hs)
    refine (hafter q hq).spares (together_new ho hnew) hback (fun a' c' r hs hname => ?_)
    exact absurd (hname ▸ List.mem_map_of_mem (becomes_of_modify (hback _ hs)).mem.1) hfresh

end SchemaDrift.Alter
