/-
  SchemaDrift.Proofs.Alter.History
  ────────────────────────────────
  **WHICH CONSTRAINTS ARE IN FORCE BEHIND A HISTORY OF VERSIONS.**

  A table is created as its first version, and every version after that is reached by the
  statements of a difference.  Histories are listed with the newest version first.

  A difference drops the constraint of a column under the name that the database gives to
  a constraint of a column of that name.  This is the constraint in force
  (`dropped_in_force`), unless an earlier rename has carried it along from another column,
  under the name made of that column (`Carried`): then there may be nothing for the
  statement to drop (`carried_stays`).
-/

import SchemaDrift.Proofs.Alter.Sparing

namespace SchemaDrift.Alter

open SchemaDrift.Sql

/-! ## §1. Histories. -/

/-- The constraints in force behind a history. -/
def inForce (mentions : String → List String) : List Table → List Constraint
  | [] => []
  | [v] => created mentions v
  | w :: v :: earlier =>
    enforceAll mentions w (inForce mentions (v :: earlier)) (statements (diff v w))

/-- A version of the table: no column twice, and no condition about another column than the
one that it is declared of. -/
structure Version (mentions : String → List String) (table : String) (v : Table) : Prop where
  name : v.name = table
  names : v.columnNames.Nodup
  conditions : ∀ c ∈ v.columns, ∀ e ∈ c.checkExpr, mentions e ⊆ [c.name]

/-- The constraint of the column has come there by a rename, from another column that it was
declared of, and has stayed as it was. -/
def Carried : List Table → String → ConstraintKind → Prop
  | w :: v :: earlier, column, k =>
    (∃ r ∈ renamings v w, r.target.name = column ∧ k.isDeclared r.source = true
      ∧ k.change.holds r.source r.target = false)
    ∨ ∃ p ∈ kept v w, p.2.name = column ∧ k.change.holds p.1 p.2 = false
      ∧ Carried (v :: earlier) p.1.name k
  | _, _, _ => False

instance decidableCarried : (history : List Table) → (column : String) → (k : ConstraintKind) →
    Decidable (Carried history column k)
  | w :: v :: earlier, column, k =>
    have : ∀ name, Decidable (Carried (v :: earlier) name k) :=
      fun name => decidableCarried (v :: earlier) name k
    inferInstanceAs (Decidable ((∃ r ∈ renamings v w, r.target.name = column
        ∧ k.isDeclared r.source = true ∧ k.change.holds r.source r.target = false)
      ∨ ∃ p ∈ kept v w, p.2.name = column ∧ k.change.holds p.1 p.2 = false
        ∧ Carried (v :: earlier) p.1.name k))
  | [_], _, _ => isFalse id
  | [], _, _ => isFalse id

variable {mentions : String → List String} {table : String} {a c : Column} {new v w : Table}
  {earlier : List Table}

theorem Version.columns (h : Version mentions table v) (hc : c ∈ v.columns)
    (k : ConstraintKind) : k.columns mentions c ⊆ [c.name] := by
  cases k with
  | unique => exact List.Subset.refl _
  | foreignKey => exact List.Subset.refl _
  | check =>
    unfold ConstraintKind.columns
    cases he : c.checkExpr with
    | none => exact List.nil_subset _
    | some e => exact h.conditions c hc e he

/-- What is declared of a column stands under its default name. -/
theorem Version.stands_declared (h : Version mentions table v) (hc : c ∈ v.columns)
    {k : ConstraintKind} (hdeclared : k.isDeclared c = true) :
    Stands (defaultName table c.name k) [c.name] (declared mentions table c) :=
  ⟨_, List.mem_map_of_mem (List.mem_filter.2 ⟨by cases k <;> decide, hdeclared⟩), rfl,
    h.columns hc k⟩

theorem Stands.mono {name : String} {cs ds : List String} {s : List Constraint}
    (h : Stands name cs s) (hsub : cs ⊆ ds) : Stands name ds s := by
  obtain ⟨x, hx, hname, hcolumns⟩ := h
  exact ⟨x, hx, hname, List.Subset.trans hcolumns hsub⟩

theorem stands_append_right {name : String} {columns : List String} {s : List Constraint}
    (h : Stands name columns s) (front : List Constraint) : Stands name columns (front ++ s) := by
  obtain ⟨x, hx, hrest⟩ := h
  exact ⟨x, List.mem_append_right _ hx, hrest⟩

/-- A constraint that a statement puts in force, and no later one takes away. -/
theorem stands_behind {name : String} {columns : List String} {s : List Constraint}
    {before after : List String} {sql : String} {d : Deed} (hread : deed? mentions sql = some d)
    (hstands : ∀ s, Stands name columns (d.perform mentions new s))
    (hafter : ∀ q ∈ after, Spares mentions name columns q) :
    Stands name columns (enforceAll mentions new s (before ++ sql :: after)) := by
  rw [enforceAll_append]
  refine stands_enforceAll hafter ?_
  unfold enforce
  rw [hread]
  exact hstands _

/-- **The step.**  Behind a difference a declared constraint stands under its default name, if
it is not carried along by a rename, and stood before under its default name if it is kept. -/
theorem stands_diff (hv : Version mentions table v) (hw : Version mentions table w)
    {s : List Constraint} (hc : c ∈ w.columns) {k : ConstraintKind}
    (hdeclared : k.isDeclared c = true)
    (hrenamed : ∀ r ∈ renamings v w, r.target = c → k.change.holds r.source c = true)
    (hkept : ∀ a, (a, c) ∈ kept v w → k.change.holds a c = false →
      Stands (defaultName table a.name k) [a.name] s) :
    Stands (defaultName table c.name k) [c.name]
      (enforceAll mentions w s (statements (diff v w))) := by
  -- a constraint that changes is made anew, under the new name of the column
  have hchanged : ∀ a, Becomes v w a c → k.change.holds a c = true →
      Stands (defaultName table c.name k) [c.name]
        (enforceAll mentions w s (statements (diff v w))) := by
    intro a hbecomes hchange
    obtain ⟨before, sql, after, hstatements, hread, hafter⟩ :=
      add_among_statements mentions hv.names hw.names hbecomes hchange hdeclared
    rw [hw.name] at hread hafter
    rw [hstatements]
    exact stands_behind hread
      (fun s => stands_append_right ⟨_, List.mem_singleton_self _, rfl, hw.columns hc k⟩ s) hafter
  cases hold : v.column? c.name with
  | some a =>
    have hmem : (a, c) ∈ kept v w := mem_kept.2 ⟨hc, hold⟩
    cases hchange : k.change.holds a c with
    | true => exact hchanged a (Or.inl hmem) hchange
    | false =>
      -- nothing is done to it
      have hname : a.name = c.name := (column?_eq_some hold).2
      have hstands : Stands (defaultName table a.name k) [a.name, c.name]
          (enforceAll mentions w s (statements (diff v w))) := by
        refine stands_enforceAll (fun sql hsql => ?_) ((hkept a hmem hchange).mono ?_)
        · exact hw.name ▸ Becomes.spares hv.names hw.names (Or.inl hmem) hchange hsql
        · simp
      rw [hname] at hstands
      exact hstands.mono (by simp)
  | none =>
    -- the column is renamed, and its constraint changes, or it is added
    have hfresh : c.name ∉ v.columnNames := column?_eq_none.1 hold
    by_cases hsource : ∃ r ∈ renamings v w, r.target = c
    · obtain ⟨r, hr, rfl⟩ := hsource
      exact hchanged r.source (Or.inr ⟨r, hr, rfl, rfl⟩) (hrenamed r hr rfl)
    · have hadded : c ∈ added v w := by
        refine (mem_added hw.names).2 ⟨hc, hfresh, fun r hr hname => hsource ⟨r, hr, ?_⟩⟩
        obtain ⟨-, -, htarget, -⟩ := renaming_mem hr
        exact column_eq_of_name_eq hw.names htarget hc hname
      obtain ⟨before, sql, after, hstatements, hread, hafter⟩ :=
        column_among_statements mentions hv.names hw.names hadded k
      rw [hw.name] at hafter
      rw [hstatements]
      refine stands_behind hread (fun s => stands_append_right ?_ s) hafter
      rw [column?_name hw.names hc, hw.name]
      exact hw.stands_declared hc hdeclared

/-! ## §2. The run. -/

/-- **Behind a history a declared constraint that no rename has carried along stands under
its default name.** -/
theorem stands_inForce (hversions : ∀ u ∈ v :: earlier, Version mentions table u)
    (hc : c ∈ v.columns) {k : ConstraintKind} (hdeclared : k.isDeclared c = true)
    (hcarried : ¬Carried (v :: earlier) c.name k) :
    Stands (defaultName table c.name k) [c.name] (inForce mentions (v :: earlier)) := by
  induction earlier generalizing v c with
  | nil =>
    have hv := hversions v List.mem_cons_self
    obtain ⟨x, hx, hstands⟩ := hv.stands_declared hc hdeclared
    refine ⟨x, List.mem_append_left _ (List.mem_flatMap.2 ⟨c, hc, ?_⟩), hstands⟩
    rw [hv.name]
    exact hx
  | cons u earlier ih =>
    have hold : ∀ x ∈ u :: earlier, Version mentions table x :=
      fun x hx => hversions x (List.mem_cons_of_mem _ hx)
    -- what is not carried now was not carried before, as far as it stays the same
    refine stands_diff (hold u List.mem_cons_self) (hversions v List.mem_cons_self) hc hdeclared
      ?_ ?_
    · rintro r hr rfl
      by_contra hchange
      have hsame : k.change.holds r.source r.target = false := by simpa using hchange
      refine hcarried (Or.inl ⟨r, hr, rfl, ?_, hsame⟩)
      rw [k.isDeclared_of_unchanged hsame, hdeclared]
    · intro a ha hsame
      obtain ⟨-, hfound⟩ := mem_kept.1 ha
      refine ih hold (column?_eq_some hfound).1 ?_ fun h => ?_
      · rw [k.isDeclared_of_unchanged hsame, hdeclared]
      · exact hcarried (Or.inr ⟨(a, c), ha, rfl, hsame, h⟩)

/-- **A dropped constraint is in force, if no rename has carried it along.**  The statement
that drops it stands once among those of the difference, and behind the history and the
statements in front of it a constraint of this name is in force that is about the column. -/
theorem dropped_in_force (hversions : ∀ u ∈ w :: v :: earlier, Version mentions table u)
    (hbecomes : Becomes v w a c) {k : ConstraintKind} (hdeclared : k.isDeclared a = true)
    (hchange : k.change.holds a c = true) (hcarried : ¬Carried (v :: earlier) a.name k) :
    ∃ drop before after, drop = (target v w).alter ("DROP CONSTRAINT IF EXISTS "
        ++ quoteIdent (defaultName table a.name k))
      ∧ statements (diff v w) = before ++ drop :: after ∧ drop ∉ before ++ after
      ∧ Stands (defaultName table a.name k) [a.name, c.name]
        (enforceAll mentions w (inForce mentions (v :: earlier)) before) := by
  have hw := hversions w List.mem_cons_self
  have hold : ∀ u ∈ v :: earlier, Version mentions table u :=
    fun u hu => hversions u (List.mem_cons_of_mem _ hu)
  have hv := hold v List.mem_cons_self
  obtain ⟨before, after, hstatements, hspares⟩ :=
    drop_among_statements mentions hv.names hw.names hbecomes hchange
  rw [hw.name] at hstatements hspares
  refine ⟨_, before, after, rfl, hstatements, ?_, ?_⟩
  · exact fun hdrop => not_spares_dropConstraint (hspares _ hdrop)
  · refine stands_enforceAll (fun sql hsql => hspares sql (List.mem_append_left _ hsql)) ?_
    exact (stands_inForce hold hbecomes.mem.1 hdeclared hcarried).mono (by simp)

/-- A column that is added to a table as unique, and later is not unique any more. -/
theorem dropped_in_force_code :
    let mentions : String → List String := fun e => if e = "number > 0" then ["number"] else []
    let number : Column := ⟨"number", "INT", true, none, false, false, none, some "number > 0"⟩
    let code : Bool → Column :=
      fun isUnique => ⟨"code", "TEXT", true, none, false, isUnique, none, none⟩
    let v₀ : Table := ⟨"public", "items", [number]⟩
    let v₁ : Table := ⟨"public", "items", [number, code true]⟩
    let v₂ : Table := ⟨"public", "items", [number, code false]⟩
    ∃ drop before after, drop = (target v₁ v₂).alter ("DROP CONSTRAINT IF EXISTS "
        ++ quoteIdent (defaultName "items" "code" .unique))
      ∧ statements (diff v₁ v₂) = before ++ drop :: after ∧ drop ∉ before ++ after
      ∧ Stands (defaultName "items" "code" .unique) ["code", "code"]
        (enforceAll mentions v₂ (inForce mentions [v₁, v₀]) before) := by
  intro mentions number code v₀ v₁ v₂
  have hversions : ∀ u ∈ [v₂, v₁, v₀], Version mentions "items" u := by
    simp only [List.forall_mem_cons]
    exact ⟨⟨rfl, by decide, by decide⟩, ⟨rfl, by decide, by decide⟩,
      ⟨rfl, by decide, by decide⟩, fun _ h => absurd h List.not_mem_nil⟩
  exact dropped_in_force (a := code true) (c := code false) hversions (Or.inl (by decide)) rfl rfl
    (by decide +kernel)

/-- **A constraint that a rename has carried along stays in force**, whatever the next version
declares of its column. -/
theorem carried_stays {x : Table}
    (hversions : ∀ u ∈ x :: w :: v :: earlier, Version mentions table u) {r : Renaming}
    (hr : r ∈ renamings v w) {k : ConstraintKind} (hdeclared : k.isDeclared r.source = true)
    (hsame : k.change.holds r.source r.target = false)
    (hcarried : ¬Carried (v :: earlier) r.source.name k) (hbecomes : Becomes w x r.target c) :
    Stands (defaultName table r.source.name k) [r.source.name, r.target.name, c.name]
      (inForce mentions (x :: w :: v :: earlier)) := by
  have hx := hversions x List.mem_cons_self
  have hold : ∀ u ∈ w :: v :: earlier, Version mentions table u :=
    fun u hu => hversions u (List.mem_cons_of_mem _ hu)
  have hw := hold w List.mem_cons_self
  have hv := hold v (List.mem_cons_of_mem _ List.mem_cons_self)
  obtain ⟨hsource, hgone, -, -⟩ := renaming_mem hr
  have hcarries : Becomes v w r.source r.target := Or.inr ⟨r, hr, rfl, rfl⟩
  have hfirst : Stands (defaultName table r.source.name k) [r.source.name, r.target.name]
      (inForce mentions (w :: v :: earlier)) := by
    refine stands_enforceAll (fun sql hsql => ?_)
      ((stands_inForce (fun u hu => hold u (List.mem_cons_of_mem _ hu)) hsource hdeclared
        hcarried).mono (by simp))
    exact hw.name ▸ hcarries.spares hv.names hw.names hsame hsql
  -- no column of the name that is gone is modified
  refine stands_enforceAll (fun sql hsql => ?_) (hfirst.mono (by simp))
  refine hx.name ▸ (fromSteps_diff hsql).spares
    ((hbecomes.together hw.names hx.names).cons hgone hw.names) (fun _ hs => hs) ?_
  intro a' c' q hmodify hname
  exact absurd (hname ▸ List.mem_map_of_mem (becomes_of_modify hmodify).mem.1) hgone

/-- A constraint of a column that is renamed, and later not unique any more. -/
theorem carried_not_dropped :
    let mentions : String → List String := fun _ => []
    let column : String → Bool → Column :=
      fun name isUnique => ⟨name, "TEXT", true, none, false, isUnique, none, none⟩
    let v₀ : Table := ⟨"public", "users", [column "user_name" true]⟩
    let v₁ : Table := ⟨"public", "users", [column "username" true]⟩
    let v₂ : Table := ⟨"public", "users", [column "username" false]⟩
    (∀ u ∈ [v₂, v₁, v₀], Version mentions "users" u)
      ∧ Becomes v₁ v₂ (column "username" true) (column "username" false)
      ∧ statements (diff v₁ v₂) = [(target v₁ v₂).alter ("DROP CONSTRAINT IF EXISTS "
        ++ quoteIdent (defaultName "users" "username" .unique))]
      ∧ inForce mentions [v₁, v₀] = [⟨defaultName "users" "user_name" .unique, ["username"]⟩]
      ∧ inForce mentions [v₂, v₁, v₀]
        = [⟨defaultName "users" "user_name" .unique, ["username"]⟩] := by
  intro mentions column v₀ v₁ v₂
  refine ⟨?_, ?_, ?_, ?_, ?_⟩
  · simp only [List.forall_mem_cons]
    exact ⟨⟨rfl, by decide, by decide⟩, ⟨rfl, by decide, by decide⟩,
      ⟨rfl, by decide, by decide⟩, fun _ h => absurd h List.not_mem_nil⟩
  · exact Or.inl (by decide)
  · decide +kernel
  · decide +kernel
  · decide +kernel

end SchemaDrift.Alter
