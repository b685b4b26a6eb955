/-
  SchemaDrift.Proofs.Alter.KeyPlacement
  ─────────────────────────────────────
  **WHEN THE NEW KEY COMES TOO EARLY.**

  The statements of a difference name only columns that are there, with one exception: the
  statement that adds the new primary key.  It stands behind the last operation that takes
  a column out of the key or puts one into it, and that need not be behind the last
  operation that gives a column of the key its name.  Renames are made one by one, each
  with its modification behind it, so the key may be added between two of them
  (`KeyAddedEarly`).

  This is the only way for the statements to fail (`executeAll_diff_iff`).
-/

import SchemaDrift.Proofs.Alter.Execution

namespace SchemaDrift.Alter

open SchemaDrift.Sql SchemaDrift.Rename

/-! ## §1. The condition. -/

/-- The renaming takes its column out of the primary key or puts it into it. -/
def Renaming.ChangesKey (r : Renaming) : Prop := r.source.inPrimaryKey ≠ r.target.inPrimaryKey

instance (r : Renaming) : Decidable r.ChangesKey := by unfold Renaming.ChangesKey; infer_instance

/-- The new key is added in front of a rename that leads to one of its columns: some
renamings from one place on leave the key as it is, one of them leads to a column of it,
one in front of that place changes it, and nothing behind the renamings takes a statement
because of it. -/
structure KeyAddedEarly (old new : Table) : Prop where
  renamed : ∃ front back, renamings old new = front ++ back ∧ (∃ r ∈ front, r.ChangesKey)
    ∧ (∀ r ∈ back, ¬r.ChangesKey) ∧ ∃ r ∈ back, r.target.inPrimaryKey = true
  added : ∀ c ∈ added old new, c.inPrimaryKey = false
  dropped : ∀ c ∈ dropped old new, c.inPrimaryKey = false
  kept : ∀ p ∈ kept old new, p.1.inPrimaryKey ≠ p.2.inPrimaryKey →
    columnChanges p.1 p.2 = [.primaryKey]

/-! ## §2. Names behind a part of a replay. -/

/-- The operation puts a column under the name. -/
def OperationKind.Creates (name : String) : OperationKind → Prop
  | .add column => column = name
  | .rename _ target _ _ => target = name
  | _ => False

/-- The operation takes the column under the name away. -/
def OperationKind.Removes (name : String) : OperationKind → Prop
  | .drop column => column = name
  | .rename source _ _ _ => source = name
  | _ => False

/-- What one operation does to a name it does not remove. -/
theorem perform_isSome {new : Table} {cols cols' : Columns} {k : OperationKind} {name : String}
    (hperform : perform new cols k = some cols') (hstay : ¬k.Removes name) :
    ((cols' name).isSome ↔ (cols name).isSome ∨ k.Creates name)
      ∧ (k.Creates name → cols name = none) := by
  -- by the operation: the names it writes are compared with `name`, and all others stay
  cases k with
  | rename source target _ _ =>
    have hs : name ≠ source := fun he => hstay he.symm
    simp only [perform] at hperform
    split at hperform
    · next a hsource htarget =>
      cases hperform
      by_cases ht : name = target
      · subst ht
        rw [Function.update_self]
        simp [OperationKind.Creates, htarget]
      · rw [Function.update_of_ne ht, Function.update_of_ne hs]
        simp [OperationKind.Creates, Ne.symm ht]
    · cases hperform
  | add column =>
    simp only [perform] at hperform
    split at hperform
    · next c hc hnone =>
      cases hperform
      by_cases ht : name = column
      · subst ht
        rw [Function.update_self]
        simp [OperationKind.Creates, hnone]
      · rw [Function.update_of_ne ht]
        simp [OperationKind.Creates, Ne.symm ht]
    · cases hperform
  | drop column =>
    have hs : name ≠ column := fun he => hstay he.symm
    simp only [perform] at hperform
    split at hperform
    · cases hperform
      rw [Function.update_of_ne hs]
      simp [OperationKind.Creates]
    · cases hperform
  | modify column changes =>
    simp only [perform] at hperform
    split at hperform
    · next c a hc ha =>
      cases hperform
      by_cases ht : name = column
      · subst ht
        rw [Function.update_self]
        simp [OperationKind.Creates, ha]
      · rw [Function.update_of_ne ht]
        simp [OperationKind.Creates]
    · cases hperform

/-- **Behind some operations that do not remove a name, a column stands there if one stood
there before, or one of them has put it there.** -/
theorem replay_isSome {new : Table} {name : String} {ks : List OperationKind}
    (hstay : ∀ k ∈ ks, ¬k.Removes name) {cols cols' : Columns}
    (hrun : replay new cols ks = some cols') :
    (cols' name).isSome ↔ (cols name).isSome ∨ ∃ k ∈ ks, k.Creates name := by
  induction ks generalizing cols with
  | nil =>
    cases hrun
    simp
  | cons k ks ih =>
    unfold replay at hrun
    rw [List.foldlM_cons] at hrun
    obtain ⟨mid, hmid, hrest⟩ := Option.bind_eq_some_iff.1 hrun
    obtain ⟨hone, -⟩ := perform_isSome hmid (hstay k List.mem_cons_self)
    rw [ih (fun k' hk' => hstay k' (List.mem_cons_of_mem _ hk')) hrest, hone]
    simp [or_assoc]

/-- A name under which a column stands is given to no other. -/
theorem not_creates_of_replay {new : Table} {name : String} {ks : List OperationKind}
    (hstay : ∀ k ∈ ks, ¬k.Removes name) {cols cols' : Columns}
    (hrun : replay new cols ks = some cols') (hthere : (cols name).isSome) :
    ∀ k ∈ ks, ¬k.Creates name := by
  induction ks generalizing cols with
  | nil => simp
  | cons k ks ih =>
    unfold replay at hrun
    rw [List.foldlM_cons] at hrun
    obtain ⟨mid, hmid, hrest⟩ := Option.bind_eq_some_iff.1 hrun
    obtain ⟨hone, hfree⟩ := perform_isSome hmid (hstay k List.mem_cons_self)
    intro k' hk' hcreates
    rcases List.mem_cons.1 hk' with rfl | hk'
    · rw [hfree hcreates] at hthere
      cases hthere
    · exact ih (fun k' hk' => hstay k' (List.mem_cons_of_mem _ hk')) hrest
        (hone.2 (Or.inl hthere)) k' hk' hcreates

/-! ## §3. The key behind one of the operations. -/

/-- What the statement that adds the key asks for. -/
theorem executeAll_addKey (t : Target) (names : Names) :
    executeAll names t.addKey
      = if t.rebuildsKey = false ∨ t.table.keyColumns.all names = true then some names
        else none := by
  cases hbuilt : t.rebuildsKey with
  | false =>
    rw [if_pos (Or.inl rfl)]
    simp [Target.addKey, hbuilt, executeAll]
  | true =>
    -- the statement names the columns of the key; without any there is none
    cases hkey : t.table.keyColumns with
    | nil =>
      rw [if_pos (Or.inr List.all_nil)]
      simp [Target.addKey, hkey, executeAll]
    | cons c cs =>
      have hsql : t.addKey = [t.alter ("ADD CONSTRAINT " ++ t.keyName ++ (" PRIMARY KEY ("
          ++ ", ".intercalate ((c :: cs).map quoteIdent) ++ (")" ++ "")))] := by
        simp [Target.addKey, hbuilt, hkey, String.append_assoc]
      have hread : clause? (t.alter ("ADD CONSTRAINT " ++ t.keyName ++ (" PRIMARY KEY ("
          ++ ", ".intercalate ((c :: cs).map quoteIdent) ++ (")" ++ ""))))
          = some (.constrain (c :: cs)) := clause?_constraint t (by decide) _ c cs ""
      rw [hsql, executeAll_cons]
      unfold execute
      rw [hread, Option.bind_some]
      show (if (c :: cs).all names = true then some names else none).bind _ = _
      by_cases hall : (c :: cs).all names = true
      · rw [if_pos hall, if_pos (Or.inr hall)]
        rfl
      · rw [if_neg hall, if_neg (by simpa using hall)]
        rfl

/-- The table that is altered and whether its key is rebuilt. -/
def target (old new : Table) : Target := ⟨new, keyChanges old new⟩

/-- The operation is a rename that leads to the name. -/
def OperationKind.RenamesTo (name : String) : OperationKind → Prop
  | .rename _ target _ _ => target = name
  | _ => False

variable {old new : Table} {t : Target} {d : Bool} {x : Operation × Bool} {name : String}

/-- No operation removes a name of the new table. -/
theorem not_removes (ho : old.columnNames.Nodup) (hname : name ∈ new.columnNames)
    (hx : x ∈ t.operations d (steps old new)) : ¬x.1.kind.Removes name := by
  obtain ⟨d', s, hs, rfl, -, -⟩ := mem_operations t hx
  rcases mem_steps.1 hs with ⟨r, hr, hs⟩ | ⟨c, -, rfl⟩ | ⟨c, hc, rfl⟩ | ⟨p, -, hs⟩
  · obtain ⟨-, hgone, -, -⟩ := renaming_mem hr
    rcases List.mem_cons.1 hs with rfl | hs
    · intro he
      exact hgone (he ▸ hname)
    · obtain ⟨-, rfl⟩ := mem_modification.1 hs
      exact id
  · exact id
  · obtain ⟨-, hgone, -⟩ := (mem_dropped ho).1 hc
    intro he
    exact hgone (he ▸ hname)
  · obtain ⟨-, rfl⟩ := mem_modification.1 hs
    exact id

/-- The names of the key are names of columns of the key. -/
theorem mem_keyColumns (hn : new.columnNames.Nodup) {c : Column} (hc : c ∈ new.columns) :
    c.name ∈ new.keyColumns ↔ c.inPrimaryKey = true := by
  unfold Table.keyColumns
  rw [List.mem_map]
  constructor
  · rintro ⟨c', hc', hname⟩
    obtain ⟨hmem, hkey⟩ := List.mem_filter.1 hc'
    rw [← column_eq_of_name_eq hn hmem hc hname]
    exact hkey
  · intro hkey
    exact ⟨c, List.mem_filter.2 ⟨hc, hkey⟩, rfl⟩

/-- An operation that does not touch the key gives the name to a column of it only by a
rename. -/
theorem renamesTo_of_creates (hn : new.columnNames.Nodup) (hname : name ∈ new.keyColumns)
    (hx : x ∈ t.operations d (steps old new)) (hflag : x.2 = false)
    (hcreates : x.1.kind.Creates name) : x.1.kind.RenamesTo name := by
  obtain ⟨d', s, hs, rfl, -, -⟩ := mem_operations t hx
  cases s with
  | rename a b p => exact hcreates
  | modify a b renamed => exact hcreates
  | drop c => exact hcreates
  | add c =>
    obtain ⟨hmem, -, -⟩ := (mem_added hn).1 (add_mem_steps.1 hs)
    have hkey : c.inPrimaryKey = true := (mem_keyColumns hn hmem).1 (hcreates ▸ hname)
    have hfree : c.inPrimaryKey = false := hflag
    rw [hkey] at hfree
    cases hfree

theorem creates_of_renamesTo {k : OperationKind} (h : k.RenamesTo name) : k.Creates name := by
  cases k with
  | rename source target _ _ => exact h
  | add column => cases h
  | drop column => cases h
  | modify column changes => cases h

/-- The replay of operations, cut in two. -/
theorem replay_split {cols final : Columns} {xs ys : List OperationKind}
    (h : replay new cols (xs ++ ys) = some final) :
    ∃ mid, replay new cols xs = some mid ∧ replay new mid ys = some final := by
  unfold replay at h ⊢
  rw [List.foldlM_append] at h
  exact Option.bind_eq_some_iff.1 h

/-- **Behind an operation stand all columns of the key exactly if no rename that leads to
one of them is still to come**, provided nothing behind it touches the key. -/
theorem key_there_iff (ho : old.columnNames.Nodup) (hn : new.columnNames.Nodup)
    {front back : List (Operation × Bool)}
    (hops : t.operations d (steps old new) = front ++ back) (hback : ∀ x ∈ back, x.2 = false)
    {mid final : Columns}
    (hrest : replay new mid (back.map (·.1.kind)) = some final)
    (hfinal : ∀ name ∈ new.columnNames, (final name).isSome) :
    new.keyColumns.all (domain mid) = true
      ↔ ∀ x ∈ back, ∀ name ∈ new.keyColumns, ¬x.1.kind.RenamesTo name := by
  have hkeyName : ∀ name ∈ new.keyColumns, name ∈ new.columnNames := by
    intro name hname
    obtain ⟨c, hc, rfl⟩ := List.mem_map.1 hname
    exact List.mem_map_of_mem (List.mem_filter.1 hc).1
  have hstay : ∀ name ∈ new.keyColumns, ∀ k ∈ back.map (·.1.kind), ¬k.Removes name := by
    intro name hname k hk
    obtain ⟨x, hx, rfl⟩ := List.mem_map.1 hk
    exact not_removes ho (hkeyName name hname) (hops ▸ List.mem_append_right _ hx)
  rw [List.all_eq_true]
  constructor
  · intro hthere x hx name hname hrenames
    exact not_creates_of_replay (hstay name hname) hrest (hthere name hname) _
      (List.mem_map_of_mem hx) (creates_of_renamesTo hrenames)
  · intro hnone name hname
    -- it is there in the end: it is there now, or a later step makes it, which is a rename
    rcases (replay_isSome (hstay name hname) hrest).1 (hfinal name (hkeyName name hname)) with
      hmid | ⟨k, hk, hcreates⟩
    · exact hmid
    · obtain ⟨x, hx, rfl⟩ := List.mem_map.1 hk
      have hmem : x ∈ t.operations d (steps old new) := hops ▸ List.mem_append_right _ hx
      exact absurd (renamesTo_of_creates hn hname hmem (hback x hx) hcreates)
        (hnone x hx name hname)

/-- Without an operation that touches the key all statements can be run. -/
theorem executeAll_diff_untouched (ho : old.columnNames.Nodup) (hn : new.columnNames.Nodup)
    (h : ∀ x ∈ (target old new).operations false (steps old new), x.2 = false) :
    (executeAll (namesOf old) (statements (diff old new))).isSome := by
  obtain ⟨final, hrun, -⟩ := exists_replay ho hn (target old new)
  have hdiff : diff old new
      = ((target old new).operations false (steps old new)).map (·.1) :=
    appendToLast_untouched _ h
  have hfaithful : ∀ o ∈ ((target old new).operations false (steps old new)).map (·.1),
      Faithful new o := by
    intro o hmem
    obtain ⟨x, hx, rfl⟩ := List.mem_map.1 hmem
    obtain ⟨d', s, -, rfl, -, -⟩ := mem_operations _ hx
    exact operation_faithful _ new d' s
  have hkinds : replay new (columnsOf old)
      ((((target old new).operations false (steps old new)).map (·.1)).map (·.kind))
      = some final := by
    rw [List.map_map]
    exact hrun
  rw [hdiff, ← domain_columnsOf, executeAll_of_replay hfaithful hkinds]
  rfl

/-- **With the key added behind an operation, all statements can be run exactly if no
rename that leads to a column of the key is still to come.** -/
theorem executeAll_diff_split (ho : old.columnNames.Nodup) (hn : new.columnNames.Nodup)
    {front back : List (Operation × Bool)} {o : Operation}
    (hops : (target old new).operations false (steps old new) = front ++ (o, true) :: back)
    (hback : ∀ x ∈ back, x.2 = false) :
    (executeAll (namesOf old) (statements (diff old new))).isSome
      ↔ keyChanges old new = false
        ∨ ∀ x ∈ back, ∀ name ∈ new.keyColumns, ¬x.1.kind.RenamesTo name := by
  obtain ⟨final, hrun, hreached⟩ := exists_replay ho hn (target old new)
  have hfaithful : ∀ x ∈ (target old new).operations false (steps old new), Faithful new x.1 := by
    intro x hx
    obtain ⟨d', s, -, rfl, -, -⟩ := mem_operations _ hx
    exact operation_faithful _ new d' s
  have hops' : (target old new).operations false (steps old new)
      = (front ++ [(o, true)]) ++ back := by
    rw [hops, List.append_assoc]
    rfl
  unfold Target.kinds at hrun
  rw [hops', List.map_append] at hrun
  obtain ⟨mid, hmid, hrest⟩ := replay_split hrun
  have hkey := key_there_iff ho hn hops' hback hrest
    (fun name hname => (hreached name).isSome_iff.2 hname)
  -- in front of the key, the key, and what is left
  have hdiff : statements (diff old new) = statements ((front ++ [(o, true)]).map (·.1))
      ++ ((target old new).addKey ++ statements (back.map (·.1))) := by
    have hlast : diff old new = _ :=
      (congrArg (appendToLast (target old new).addKey) hops).trans
        (appendToLast_split _ front back o hback)
    rw [hlast]
    simp [statements]
  have hfront : executeAll (namesOf old) (statements ((front ++ [(o, true)]).map (·.1)))
      = some (domain mid) := by
    rw [← domain_columnsOf]
    refine executeAll_of_replay ?_ (by rw [List.map_map]; exact hmid)
    intro o' ho'
    obtain ⟨x, hx, rfl⟩ := List.mem_map.1 ho'
    exact hfaithful x (hops' ▸ List.mem_append_left _ hx)
  have hlast : executeAll (domain mid) (statements (back.map (·.1))) = some (domain final) := by
    refine executeAll_of_replay ?_ (by rw [List.map_map]; exact hrest)
    intro o' ho'
    obtain ⟨x, hx, rfl⟩ := List.mem_map.1 ho'
    exact hfaithful x (hops' ▸ List.mem_append_right _ hx)
  rw [hdiff, executeAll_append, hfront, Option.bind_some, executeAll_append, executeAll_addKey,
    ← hkey]
  show (Option.bind (if keyChanges old new = false ∨ new.keyColumns.all (domain mid) = true
    then some (domain mid) else none) _).isSome ↔ _
  by_cases h : keyChanges old new = false ∨ new.keyColumns.all (domain mid) = true
  · rw [if_pos h, Option.bind_some, hlast]
    exact iff_of_true rfl h
  · rw [if_neg h]
    exact iff_of_false (by simp) h

/-! ## §4. A renaming that changes the key changes it for the table. -/

/-- The new name of an old column: that of the column it is renamed to, or its own. -/
def newName (old new : Table) (name : String) : String :=
  match (renamings old new).find? (·.source.name = name) with
  | some r => r.target.name
  | none => name

theorem newName_source (ho : old.columnNames.Nodup) (hn : new.columnNames.Nodup) {r : Renaming}
    (hr : r ∈ renamings old new) : newName old new r.source.name = r.target.name := by
  unfold newName
  cases hfind : (renamings old new).find? (·.source.name = r.source.name) with
  | none =>
    have := List.find?_eq_none.1 hfind r hr
    simp at this
  | some q =>
    have hname : q.source.name = r.source.name := by simpa using List.find?_some hfind
    rw [renaming_unique ho hn (List.mem_of_find?_eq_some hfind) hr (Or.inl hname)]

theorem newName_of_no_rename {name : String}
    (h : ∀ r ∈ renamings old new, r.source.name ≠ name) : newName old new name = name := by
  unfold newName
  rw [List.find?_eq_none.2 fun r hr => by simpa using h r hr]

/-- A name either is the source of a renaming, or stays. -/
theorem newName_cases (old new : Table) (name : String) :
    (∃ r ∈ renamings old new, r.source.name = name)
      ∨ ∀ r ∈ renamings old new, r.source.name ≠ name := by
  by_cases h : ∃ r ∈ renamings old new, r.source.name = name
  · exact Or.inl h
  · exact Or.inr fun r hr hname => h ⟨r, hr, hname⟩

/-- **The old key under its new names, name by name.** -/
theorem renamedKey_eq (ho : old.columnNames.Nodup) (hn : new.columnNames.Nodup) :
    renamedKey old new = old.keyColumns.map (newName old new) := by
  unfold renamedKey
  refine List.map_congr_left fun name _ => ?_
  cases hfind : (renames old new).reverse.find? fun p =>
      decide ((old.columns[p.oldIndex]?).map (·.name) = some name) with
  | none =>
    refine (newName_of_no_rename fun r hr hname => ?_).symm
    obtain ⟨hp, hold, -⟩ := mem_renamings.1 hr
    have := List.find?_eq_none.1 hfind r.pairing (List.mem_reverse.2 hp)
    rw [hold] at this
    exact absurd hname (by simpa using this)
  | some p =>
    -- the pairing that is found is one of a renaming from the name
    have hp : p ∈ renames old new := List.mem_reverse.1 (List.mem_of_find?_eq_some hfind)
    obtain ⟨a, b, ha, -, hb, -⟩ := mem_renames hp
    have hname : a.name = name := by
      have := List.find?_some hfind
      rw [ha] at this
      simpa using this
    have hr : (⟨a, b, p⟩ : Renaming) ∈ renamings old new := mem_renamings.2 ⟨hp, ha, hb⟩
    rw [← hname, newName_source ho hn hr]
    show ((new.columns[p.newIndex]?).map (·.name)).getD a.name = b.name
    rw [hb]
    rfl

/-- The old key under its new names: where a column of it is renamed, the name it gets. -/
theorem mem_renamedKey (ho : old.columnNames.Nodup) (hn : new.columnNames.Nodup)
    {r : Renaming} (hr : r ∈ renamings old new) :
    r.target.name ∈ renamedKey old new ↔ r.source.inPrimaryKey = true := by
  obtain ⟨hsource, -, -, hfresh⟩ := renaming_mem hr
  rw [renamedKey_eq ho hn, List.mem_map]
  constructor
  · -- a name of the old key that becomes the target is the name of the source
    rintro ⟨name, hname, hbecomes⟩
    rcases newName_cases old new name with ⟨q, hq, rfl⟩ | hstays
    · rw [newName_source ho hn hq] at hbecomes
      rw [renaming_unique ho hn hq hr (Or.inr hbecomes)] at hname
      exact (mem_keyColumns ho hsource).1 hname
    · rw [newName_of_no_rename hstays] at hbecomes
      obtain ⟨c, hc, rfl⟩ := List.mem_map.1 hname
      exact absurd (hbecomes ▸ List.mem_map_of_mem (List.mem_filter.1 hc).1) hfresh
  · intro hkey
    exact ⟨r.source.name, (mem_keyColumns ho hsource).2 hkey, newName_source ho hn hr⟩

/-- **If a renaming changes the key, the key of the table changes.** -/
theorem keyChanges_of_renaming (ho : old.columnNames.Nodup) (hn : new.columnNames.Nodup)
    {r : Renaming} (hr : r ∈ renamings old new) (hkey : r.ChangesKey) :
    keyChanges old new = true := by
  unfold keyChanges
  rw [decide_eq_true_eq]
  intro hsame
  apply hkey
  obtain ⟨-, -, htarget, -⟩ := renaming_mem hr
  rw [Bool.eq_iff_iff, ← mem_renamedKey ho hn hr, hsame, mem_keyColumns hn htarget]

/-! ## §5. The condition is exact. -/

/-- The last element of which `p` holds. -/
theorem exists_last {α : Type} {p : α → Prop} [DecidablePred p] {l : List α} (h : ∃ x ∈ l, p x) :
    ∃ front x back, l = front ++ x :: back ∧ p x ∧ ∀ y ∈ back, ¬p y := by
  induction l with
  | nil => simp at h
  | cons a l ih =>
    by_cases hl : ∃ x ∈ l, p x
    · obtain ⟨front, x, back, rfl, hx, hback⟩ := ih hl
      exact ⟨a :: front, x, back, rfl, hx, hback⟩
    · obtain ⟨x, hx, hp⟩ := h
      rcases List.mem_cons.1 hx with rfl | hx
      · exact ⟨[], x, l, rfl, hp, fun y hy hpy => hl ⟨y, hy, hpy⟩⟩
      · exact absurd ⟨x, hx, hp⟩ hl

/-- The steps behind the renamings. -/
def laterSteps (old new : Table) : List Step :=
  (added old new).map .add ++ (dropped old new).map .drop ++ keptSteps old new

theorem steps_eq_later (old new : Table) :
    steps old new = (renamings old new).flatMap Renaming.steps ++ laterSteps old new := by
  rw [steps_eq]
  unfold laterSteps
  simp only [List.append_assoc]

theorem mem_laterSteps {s : Step} :
    s ∈ laterSteps old new
      ↔ (∃ c ∈ added old new, s = .add c) ∨ (∃ c ∈ dropped old new, s = .drop c)
      ∨ ∃ p ∈ kept old new, s ∈ modification p.1 p.2 false := by
  unfold laterSteps keptSteps
  simp only [List.mem_append, List.mem_flatMap, List.mem_map, or_assoc, eq_comm]

/-- Once the old key is dropped, a change of the key alone takes no statement. -/
theorem isOmitted_of_key (t : Target) {a c : Column} (h : columnChanges a c = [.primaryKey]) :
    Target.isOmitted (.modify a c false) (t.operation true (.modify a c false)) = true := by
  unfold Target.isOmitted Target.operation
  simp [h, Target.modify, Target.dropKey, Target.inPlace, Target.addConstraint,
    Target.constraint?]

/-- Where a column changes its part in the key, this change is listed. -/
theorem columnChanges_ne_nil {a c : Column} (h : a.inPrimaryKey ≠ c.inPrimaryKey) :
    columnChanges a c ≠ [] := by
  have hmem : ColumnChange.primaryKey ∈ columnChanges a c := by
    unfold columnChanges
    exact List.mem_filter.2 ⟨by decide, by simpa [ColumnChange.holds] using h⟩
  exact List.ne_nil_of_mem hmem

/-- **Where the old key is dropped, the later steps leave the key alone exactly if they are
as `KeyAddedEarly` asks.** -/
theorem later_untouched_iff (t : Target) :
    (∀ x ∈ t.operations true (laterSteps old new), x.2 = false)
      ↔ (∀ c ∈ added old new, c.inPrimaryKey = false)
        ∧ (∀ c ∈ dropped old new, c.inPrimaryKey = false)
        ∧ ∀ p ∈ kept old new, p.1.inPrimaryKey ≠ p.2.inPrimaryKey →
            columnChanges p.1 p.2 = [.primaryKey] := by
  constructor
  · intro huntouched
    refine ⟨?_, ?_, ?_⟩
    · intro c hc
      obtain ⟨d', hd'⟩ := exists_operation t (d := true)
        (mem_laterSteps.2 (Or.inl ⟨c, hc, rfl⟩)) (fun _ => rfl)
      exact huntouched _ hd'
    · intro c hc
      obtain ⟨d', hd'⟩ := exists_operation t (d := true)
        (mem_laterSteps.2 (Or.inr (Or.inl ⟨c, hc, rfl⟩))) (fun _ => rfl)
      exact huntouched _ hd'
    · intro p hp hkey
      have hchanges := columnChanges_ne_nil hkey
      by_contra hmore
      -- with a change beside that of the key, the modification is not left out
      have hstays : ∀ d', Target.isOmitted (.modify p.1 p.2 false)
          (t.operation d' (.modify p.1 p.2 false)) = false := by
        intro d'
        rw [← Bool.not_eq_true]
        intro homit
        exact hmore (columnChanges_of_omitted hchanges homit).2
      obtain ⟨d', hd'⟩ := exists_operation t (d := true) (mem_laterSteps.2
        (Or.inr (Or.inr ⟨p, hp, mem_modification.2 ⟨hchanges, rfl⟩⟩))) hstays
      have hflag : Target.touchesKey (.modify p.1 p.2 false) = false := huntouched _ hd'
      simp [Target.touchesKey] at hflag
      exact hkey hflag
  · rintro ⟨hadded, hdropped, hkept⟩ x hx
    obtain ⟨d', s, hs, rfl, hstays, hd'⟩ := mem_operations t hx
    rcases mem_laterSteps.1 hs with ⟨c, hc, rfl⟩ | ⟨c, hc, rfl⟩ | ⟨p, hp, hs⟩
    · exact hadded c hc
    · exact hdropped c hc
    · obtain ⟨-, rfl⟩ := mem_modification.1 hs
      rw [hd' rfl] at hstays
      by_contra hflag
      have hkey : p.1.inPrimaryKey ≠ p.2.inPrimaryKey := by
        simpa [Target.touchesKey] using hflag
      rw [isOmitted_of_key t (hkept p hp hkey)] at hstays
      cases hstays

/-- No later step is a rename. -/
theorem later_not_renamesTo {t : Target} {d : Bool} {x : Operation × Bool}
    (hx : x ∈ t.operations d (laterSteps old new)) (name : String) : ¬x.1.kind.RenamesTo name := by
  obtain ⟨d', s, hs, rfl, -, -⟩ := mem_operations t hx
  rcases mem_laterSteps.1 hs with ⟨c, -, rfl⟩ | ⟨c, -, rfl⟩ | ⟨p, -, hs⟩
  · exact id
  · exact id
  · obtain ⟨-, rfl⟩ := mem_modification.1 hs
    exact id

/-- A renaming touches the key with its modification. -/
theorem renaming_touches (r : Renaming) :
    r.steps.any Target.touchesKey = true ↔ r.ChangesKey := by
  unfold Renaming.steps Renaming.ChangesKey
  by_cases hnil : columnChanges r.source r.target = []
  · have hsame : r.source.inPrimaryKey = r.target.inPrimaryKey := by
      by_contra h
      exact columnChanges_ne_nil h hnil
    simp [modification, hnil, Target.touchesKey, hsame]
  · simp [modification, hnil, Target.touchesKey]

/-- A renaming that changes the key ends in an operation that touches it. -/
theorem renaming_operations (t : Target) (d : Bool) {r : Renaming} (h : r.ChangesKey) :
    ∃ o o', t.operations d r.steps = [(o, false), (o', true)] := by
  have hchanges : (columnChanges r.source r.target).isEmpty = false := by
    simpa using columnChanges_ne_nil h
  have htouches : Target.touchesKey (.modify r.source r.target true) = true := decide_eq_true h
  refine ⟨t.operation d (.rename r.source r.target r.pairing),
    t.operation d (.modify r.source r.target true), ?_⟩
  unfold Renaming.steps modification
  rw [hchanges]
  simp [Target.operations, Target.isOmitted, htouches]
  simp [Target.touchesKey]

/-- Cut at the last renaming that changes the key. -/
theorem operations_at (t : Target) {xs ys : List Renaming} {r : Renaming}
    (hsplit : renamings old new = xs ++ r :: ys) (hr : r.ChangesKey) :
    ∃ front o, t.operations false (steps old new)
      = front ++ (o, true)
        :: t.operations true (ys.flatMap Renaming.steps ++ laterSteps old new) := by
  obtain ⟨o, o', hops⟩ := renaming_operations t (false || (xs.flatMap Renaming.steps).any
    Target.touchesKey) hr
  refine ⟨t.operations false (xs.flatMap Renaming.steps) ++ [(o, false)], o', ?_⟩
  have htouches := (renaming_touches r).2 hr
  rw [steps_eq_later, hsplit, List.flatMap_append, List.flatMap_cons, List.append_assoc,
    List.append_assoc, Target.operations_append, Target.operations_append, hops, htouches,
    Bool.or_true]
  simp

/-- If the last operation that touches the key is the modification behind a rename, the
statements can be run exactly if no later renaming leads to a column of the key. -/
theorem executeAll_diff_renamed (ho : old.columnNames.Nodup) (hn : new.columnNames.Nodup)
    {xs ys : List Renaming} {r : Renaming} (hsplit : renamings old new = xs ++ r :: ys)
    (hr : r.ChangesKey) (hys : ∀ q ∈ ys, ¬q.ChangesKey)
    (hlater : ∀ x ∈ (target old new).operations true (laterSteps old new), x.2 = false) :
    (executeAll (namesOf old) (statements (diff old new))).isSome ↔ ¬KeyAddedEarly old new := by
  have hmem : ∀ q ∈ r :: ys, q ∈ renamings old new :=
    fun q hq => hsplit ▸ List.mem_append_right _ hq
  obtain ⟨front, o, hops⟩ := operations_at (target old new) hsplit hr
  have huntouched : ∀ x ∈ (target old new).operations true
      (ys.flatMap Renaming.steps ++ laterSteps old new), x.2 = false := by
    intro x hx
    rw [Target.operations_append] at hx
    rcases List.mem_append.1 hx with hx | hx
    · obtain ⟨d', s, hs, rfl, -, -⟩ := mem_operations _ hx
      obtain ⟨q, hq, hs⟩ := List.mem_flatMap.1 hs
      by_contra h
      exact hys q hq ((renaming_touches q).1 (List.any_eq_true.2 ⟨s, hs, by simpa using h⟩))
    · exact hlater x hx
  rw [executeAll_diff_split ho hn hops huntouched,
    keyChanges_of_renaming ho hn (hmem r List.mem_cons_self) hr]
  constructor
  · rintro (h | hrun) hearly
    · cases h
    · obtain ⟨fs, bs, hrs, ⟨r', hr', hkey'⟩, hbs, q, hq, hqkey⟩ := hearly.renamed
      -- what stands behind the place of `hearly` stands behind `r`
      have hqys : q ∈ ys := by
        rw [hsplit] at hrs
        rcases List.append_eq_append_iff.1 hrs with ⟨as, rfl, has⟩ | ⟨as, rfl, has⟩
        · cases as with
          | nil =>
            rw [List.nil_append] at has
            exact absurd hr (hbs r (has ▸ List.mem_cons_self))
          | cons a as =>
            obtain ⟨-, rfl⟩ := List.cons.inj has
            exact List.mem_append_right _ hq
        · have hrb : r ∈ bs := has ▸ List.mem_append_right _ List.mem_cons_self
          exact absurd hr (hbs r hrb)
      obtain ⟨-, -, htarget, -⟩ := renaming_mem (hmem q (List.mem_cons_of_mem _ hqys))
      have hrename : Step.rename q.source q.target q.pairing ∈ q.steps := List.mem_cons_self
      obtain ⟨d', hd'⟩ := exists_operation (target old new) (d := true)
        (List.mem_append_left (laterSteps old new) (List.mem_flatMap.2 ⟨q, hqys, hrename⟩))
        (fun _ => rfl)
      exact hrun _ hd' q.target.name ((mem_keyColumns hn htarget).2 hqkey) rfl
  · intro hfree
    refine Or.inr ?_
    intro x hx name hname hrenames
    rw [Target.operations_append] at hx
    rcases List.mem_append.1 hx with hx | hx
    · obtain ⟨d', s, hs, rfl, -, -⟩ := mem_operations _ hx
      obtain ⟨q, hq, hs⟩ := List.mem_flatMap.1 hs
      obtain ⟨-, -, htarget, -⟩ := renaming_mem (hmem q (List.mem_cons_of_mem _ hq))
      obtain ⟨hadded, hdropped, hkept⟩ := (later_untouched_iff (target old new)).1 hlater
      rcases List.mem_cons.1 hs with rfl | hs
      · have hqname : q.target.name = name := hrenames
        have hqkey := (mem_keyColumns hn htarget).1 (hqname ▸ hname)
        refine hfree ⟨⟨xs ++ [r], ys, ?_, ⟨r, ?_, hr⟩, hys, q, hq, hqkey⟩, hadded, hdropped, hkept⟩
        · rw [hsplit, List.append_assoc]
          rfl
        · exact List.mem_append_right _ List.mem_cons_self
      · obtain ⟨-, rfl⟩ := mem_modification.1 hs
        exact hrenames
    · exact later_not_renamesTo hx name hrenames

/-- **The statements of a difference can be run one behind the other, on the names of the
old columns, exactly if the new key is not added too early.** -/
theorem executeAll_diff_iff (ho : old.columnNames.Nodup) (hn : new.columnNames.Nodup) :
    (executeAll (namesOf old) (statements (diff old new))).isSome ↔ ¬KeyAddedEarly old new := by
  have htouched : ∀ r ∈ renamings old new, r.ChangesKey →
      ((renamings old new).flatMap Renaming.steps).any Target.touchesKey = true := by
    intro r hr hkey
    obtain ⟨s, hs, htouches⟩ := List.any_eq_true.1 ((renaming_touches r).2 hkey)
    exact List.any_eq_true.2 ⟨s, List.mem_flatMap.2 ⟨r, hr, hs⟩, htouches⟩
  have hcut : (target old new).operations false (steps old new)
      = (target old new).operations false ((renamings old new).flatMap Renaming.steps)
        ++ (target old new).operations
          (((renamings old new).flatMap Renaming.steps).any Target.touchesKey)
          (laterSteps old new) := by
    rw [steps_eq_later, Target.operations_append, Bool.false_or]
  by_cases hlater : ∃ x ∈ (target old new).operations
      (((renamings old new).flatMap Renaming.steps).any Target.touchesKey) (laterSteps old new),
      x.2 = true
  · -- the key is added behind a later step, where every rename is made
    obtain ⟨front, x, back, hsplit, hx, hback⟩ := exists_last hlater
    obtain ⟨o, flag⟩ := x
    cases hx
    have huntouched : ∀ y ∈ back, y.2 = false := fun y hy => by simpa using hback y hy
    rw [hsplit, ← List.append_assoc] at hcut
    rw [executeAll_diff_split ho hn hcut huntouched]
    refine iff_of_true (Or.inr ?_) ?_
    · intro y hy name _
      exact later_not_renamesTo
        (hsplit ▸ List.mem_append_right _ (List.mem_cons_of_mem _ hy)) name
    · intro hearly
      obtain ⟨xs, ys, hrs, ⟨r, hr, hkey⟩, -, -⟩ := hearly.renamed
      rw [htouched r (hrs ▸ List.mem_append_left _ hr) hkey] at hsplit
      have hnone := (later_untouched_iff (target old new)).2
        ⟨hearly.added, hearly.dropped, hearly.kept⟩ (o, true)
        (hsplit ▸ List.mem_append_right _ List.mem_cons_self)
      cases hnone
  · have hnone : ∀ x ∈ (target old new).operations
        (((renamings old new).flatMap Renaming.steps).any Target.touchesKey)
        (laterSteps old new), x.2 = false := by
      intro x hx
      by_contra h
      exact hlater ⟨x, hx, by simpa using h⟩
    by_cases hrenamed : ∃ r ∈ renamings old new, r.ChangesKey
    · obtain ⟨xs, r, ys, hsplit, hr, hys⟩ := exists_last hrenamed
      have hmem : r ∈ renamings old new := hsplit ▸ List.mem_append_right _ List.mem_cons_self
      rw [htouched r hmem hr] at hnone
      exact executeAll_diff_renamed ho hn hsplit hr hys hnone
    · -- nothing touches the key
      refine iff_of_true (executeAll_diff_untouched ho hn ?_) ?_
      · intro x hx
        rw [hcut] at hx
        rcases List.mem_append.1 hx with hx | hx
        · obtain ⟨d', s, hs, rfl, -, -⟩ := mem_operations _ hx
          obtain ⟨r, hr, hs⟩ := List.mem_flatMap.1 hs
          by_contra h
          exact hrenamed ⟨r, hr, (renaming_touches r).1
            (List.any_eq_true.2 ⟨s, hs, by simpa using h⟩)⟩
        · exact hnone x hx
      · intro hearly
        obtain ⟨xs, ys, hrs, ⟨r, hr, hkey⟩, -, -⟩ := hearly.renamed
        exact hrenamed ⟨r, hrs ▸ List.mem_append_left _ hr, hkey⟩

/-- A table with a key that two renamings lead to: the first puts its column into the key,
so the key is added behind it, and the second, which gives the key its other column, comes
too late. -/
theorem key_added_between_renames :
    let old : Table := ⟨"public", "t", [⟨"user_name", "INT", true, none, false, false, none, none⟩,
      ⟨"lot", "TEXT", false, some "'x'", true, true, none, none⟩]⟩
    let new : Table := ⟨"public", "t", [⟨"username", "INT", false, none, true, true, none, none⟩,
      ⟨"batch", "TEXT", false, some "'x'", true, true, none, none⟩]⟩
    (old.columnNames.Nodup ∧ ∀ c ∈ old.columns, c.ObeysKeyRule)
      ∧ (new.columnNames.Nodup ∧ ∀ c ∈ new.columns, c.ObeysKeyRule)
      ∧ (executeAll (namesOf old) (statements (diff old new))).isSome = false := by
  intro old new
  -- the candidates stand in order as they are found
  have hsorted : renames old new
      = greedy [] [] (candidates (columnsBeside old new.columnNames)
          (columnsBeside new old.columnNames)) := by
    unfold renames matching
    rw [List.mergeSort_of_pairwise (by decide +kernel)]
  refine ⟨by decide, by decide, ?_⟩
  unfold diff steps keyChanges renamedKey
  rw [hsorted]
  decide +kernel

/-- A table whose key moves from one kept column to another. -/
theorem executeAll_diff_iff_members :
    let old : Table := ⟨"club", "members", [⟨"number", "INT", false, none, true, true, none, none⟩,
      ⟨"mail", "TEXT", true, none, false, true, none, none⟩]⟩
    let new : Table := ⟨"club", "members", [⟨"mail", "TEXT", false, none, true, true, none, none⟩,
      ⟨"number", "INT", true, none, false, false, none, none⟩]⟩
    (executeAll (namesOf old) (statements (diff old new))).isSome ↔ ¬KeyAddedEarly old new :=
  executeAll_diff_iff (by decide) (by decide)

end SchemaDrift.Alter
