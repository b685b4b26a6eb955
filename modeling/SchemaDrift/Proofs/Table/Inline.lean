/-
  SchemaDrift.Proofs.Table.Inline
  ───────────────────────────────
  **A CLAUSE OF A COLUMN, OR AN ENTRY OF ITS OWN.**

  A key of one column can be declared behind the column or as a constraint of the table.  Both
  give the same table (`inline_eq_apart`), wherever the constraint stands and whether or not it
  has a name: what the clause says of the column while it is read, the constraint says of it
  afterwards, and of no other column.

      SameClause        the clause of a column and the constraint that say the same
      distinctColumns   the columns before the constraints say anything of them
      inline_eq_apart   one table

  The target of a reference has to be written without gaps in its name.  With a gap the name ends
  there, and the rest of it, with the options behind, is read as more clauses of the column
  (`inline_ne_apart_gap`); behind a constraint it is passed over.
-/

import SchemaDrift.Proofs.Table.Complete
import SchemaDrift.Proofs.Table.Entries

namespace SchemaDrift.Table

open SchemaDrift.Sql SchemaDrift.Text

/-! ## §1. An entry with more behind it. -/

/-- The tokens of an entry are those between the gaps around its text without comments. -/
theorem tokens_entryOf {e : List Char} (he : Complete e) :
    (entryOf e).tokens = (Reading.between.row (core (classify (stripComments e)))).tokens := by
  obtain ⟨-, hbare⟩ := respaced_uncommented (closed_of_complete he)
  show (Reading.between.row (classify (trim (stripComments e)))).tokens = _
  rw [(uncommented_trim hbare).2.1]

theorem entire_join {c a : List Char} (hc : Entire c) (ha : Entire a) : Entire (c ++ ' ' :: a) := by
  refine ⟨complete_join hc.complete isFirm_space ha.complete, ?_⟩
  rw [classify_join hc.complete isFirm_space, level_append, hc.level]
  exact ha.level

/-- **The tokens of a text behind an entry follow its own**, with a gap between them. -/
theorem tokens_join {c a : List Char} (hc : Entire c) (ha : Complete a)
    (hcne : (entryOf c).tokens ≠ []) (hane : (entryOf a).tokens ≠ []) :
    ∃ gap ≠ [], (entryOf (c ++ ' ' :: a)).tokens = addGap gap (entryOf c).tokens ++ (entryOf a).tokens := by
  have hclassify : classify (stripComments (c ++ ' ' :: a))
      = classify (stripComments c) ++ ⟨' ', .code⟩ :: classify (stripComments a) := by
    rw [stripComments_join hc.complete isFirm_space,
      classify_join hc.stripComments.complete isFirm_space]
  have hlevel := hc.stripComments.level
  rw [tokens_entryOf hc.complete] at hcne ⊢
  rw [tokens_entryOf ha] at hane ⊢
  rw [tokens_entryOf (complete_join hc.complete isFirm_space ha), hclassify]
  obtain ⟨x, y, hleft, hx, hy⟩ := exists_core (classify (stripComments c))
  obtain ⟨x', y', hright, hx', hy'⟩ := exists_core (classify (stripComments a))
  obtain ⟨hbegins, -⟩ := begins_core (classify (stripComments c))
  obtain ⟨hbegins', hends'⟩ := begins_core (classify (stripComments a))
  generalize core (classify (stripComments c)) = left at *
  generalize core (classify (stripComments a)) = right at *
  have hgap : ∀ g ∈ y ++ ⟨' ', .code⟩ :: x', g.isGap = true := by
    rw [List.forall_mem_append, List.forall_mem_cons]
    exact ⟨hy, rfl, hx'⟩
  have hrun : IsRun (y ++ ⟨' ', .code⟩ :: x') := ⟨by simp, hgap⟩
  have hsome : ∀ {gs : List Glyph}, (Reading.between.row gs).tokens ≠ [] → gs ≠ [] := by
    rintro _ h rfl
    exact h rfl
  have hcore : core ((x ++ (left ++ y)) ++ ⟨' ', .code⟩ :: (x' ++ (right ++ y')))
      = left ++ ((y ++ ⟨' ', .code⟩ :: x') ++ right) := by
    have hwhole : (x ++ (left ++ y)) ++ ⟨' ', .code⟩ :: (x' ++ (right ++ y'))
        = x ++ ((left ++ ((y ++ ⟨' ', .code⟩ :: x') ++ right)) ++ y') := by simp
    rw [hwhole, core_eq hx hy']
    · obtain ⟨g, left', rfl⟩ := List.exists_cons_of_ne_nil (hsome hcne)
      exact hbegins
    · rw [← List.append_assoc, List.reverse_append]
      obtain ⟨g, right', hlast⟩ := List.exists_cons_of_ne_nil
        (mt List.reverse_eq_nil_iff.1 (hsome hane))
      rw [hlast] at hends' ⊢
      exact hends'
  -- the reader is outside of groups where the gap begins
  have houtside : ¬(Reading.between.through left).InGroup := by
    rw [hleft, level_append, level_gaps hx, Option.bind_some, level_append] at hlevel
    obtain ⟨⟨parens, brackets⟩, hopen, hrest⟩ := Option.bind_eq_some_iff.1 hlevel
    rw [level_gaps hy] at hrest
    obtain ⟨rfl, rfl⟩ := Prod.mk.inj (Option.some.inj hrest)
    exact outside_of_level (below_outside between_outside 0 0) hopen
  have hbehind := row_gaps_outside between_outside hrun hbegins'
  obtain ⟨g, hs, hcons⟩ := List.exists_cons_of_ne_nil hrun.ne_nil
  refine ⟨(y ++ ⟨' ', .code⟩ :: x').map Glyph.char, mt List.map_eq_nil_iff.1 hrun.ne_nil, ?_⟩
  rw [hleft, hright, hcore]
  rw [hcons, List.cons_append] at hbehind ⊢
  rw [row_gap houtside (hgap g (by rw [hcons]; exact List.mem_cons_self)), hbehind]

/-! ## §2. Columns before the constraints say anything of them. -/

/-- Reads columns of distinct names, none of which is among `names`. -/
def distinctColumns (names : List String) : List Entry → Except TableError (List Column)
  | [] => .ok []
  | e :: rest => do
    let c ← e.column
    if names.contains c.name then .error (.duplicateColumn c.name)
    else
      let cs ← distinctColumns (names ++ [c.name]) rest
      return c :: cs

theorem distinctColumns_cons {e : Entry} {c : Column} (he : e.column = .ok c) (names : List String)
    (es : List Entry) : distinctColumns names (e :: es)
      = if names.contains c.name then .error (.duplicateColumn c.name)
        else (distinctColumns (names ++ [c.name]) es).map (c :: ·) := by
  rw [distinctColumns, he]
  show (if names.contains c.name then _ else _) = _
  split
  · rfl
  · cases distinctColumns (names ++ [c.name]) es with
    | error f => rfl
    | ok cs => rfl

theorem distinctColumns_error {e : Entry} {f : TableError} (he : e.column = .error f)
    (names : List String) (es : List Entry) : distinctColumns names (e :: es) = .error f := by
  rw [distinctColumns, he]
  rfl

/-- **Constraints say something of the columns that are read without them.** -/
theorem readColumns_eq (k : KeyClauses) (before : List Column) (es : List Entry) :
    readColumns k before es = (distinctColumns (before.map (·.name)) es).map
      fun cs => before ++ cs.map k.apply := by
  induction es generalizing before with
  | nil => exact congrArg Except.ok (List.append_nil before).symm
  | cons e es ih =>
    rw [readColumns]
    cases he : e.column with
    | error f =>
      rw [distinctColumns_error he]
      rfl
    | ok c =>
      have hany : before.any (·.name = c.name) = (before.map (·.name)).contains c.name := by
        rw [Bool.eq_iff_iff, List.any_eq_true, List.contains_iff_mem, List.mem_map]
        simp only [decide_eq_true_eq]
      rw [distinctColumns_cons he]
      show (if before.any (·.name = c.name) then _ else _) = _
      rw [hany]
      split
      · rfl
      · rw [ih, List.map_append, List.map_singleton, name_apply]
        cases distinctColumns (before.map (·.name) ++ [c.name]) es with
        | error f => rfl
        | ok cs => exact congrArg Except.ok (List.append_assoc before [k.apply c] (cs.map k.apply))

/-- The columns that are read have no name of those before. -/
theorem distinctColumns_new {names : List String} {es : List Entry} {cs : List Column}
    (h : distinctColumns names es = .ok cs) : ∀ c ∈ cs, c.name ∉ names := by
  induction es generalizing names cs with
  | nil =>
    obtain rfl := Except.ok.inj h
    exact List.forall_mem_nil _
  | cons e es ih =>
    obtain ⟨c, -, h⟩ := bind_eq_ok.1 h
    split at h
    · cases h
    · next hnew =>
      obtain ⟨ds, hds, h⟩ := bind_eq_ok.1 h
      obtain rfl := Except.ok.inj h
      refine List.forall_mem_cons.2 ⟨by simpa using hnew, fun d hd hmem => ?_⟩
      exact ih hds d hd (List.mem_append_left _ hmem)

/-- **One column of the same name in place of another** leaves the columns around it, none of
which has the name. -/
theorem distinctColumns_exchange {e e' : Entry} {c c' : Column} (he : e.column = .ok c)
    (he' : e'.column = .ok c') (hname : c.name = c'.name) (before after : List Entry)
    (names : List String) :
    (∃ f, distinctColumns names (before ++ e :: after) = .error f
      ∧ distinctColumns names (before ++ e' :: after) = .error f)
    ∨ ∃ cs ds, distinctColumns names (before ++ e :: after) = .ok (cs ++ c :: ds)
      ∧ distinctColumns names (before ++ e' :: after) = .ok (cs ++ c' :: ds)
      ∧ ∀ d ∈ cs ++ ds, d.name ≠ c.name := by
  -- up to the entries the runs are one, and behind them they have seen the same names
  induction before generalizing names with
  | nil =>
    rw [List.nil_append, List.nil_append, distinctColumns_cons he, distinctColumns_cons he', ← hname]
    by_cases hold : names.contains c.name = true
    · rw [if_pos hold, if_pos hold]
      exact Or.inl ⟨_, rfl, rfl⟩
    · rw [if_neg hold, if_neg hold]
      cases hrest : distinctColumns (names ++ [c.name]) after with
      | error f => exact Or.inl ⟨f, rfl, rfl⟩
      | ok ds =>
        refine Or.inr ⟨[], ds, rfl, rfl, fun d hd heq => ?_⟩
        exact distinctColumns_new hrest d hd (List.mem_append_right _ (by simp [heq]))
  | cons b before ih =>
    rw [List.cons_append, List.cons_append]
    cases hb : b.column with
    | error f => exact Or.inl ⟨f, distinctColumns_error hb _ _, distinctColumns_error hb _ _⟩
    | ok d =>
      rw [distinctColumns_cons hb, distinctColumns_cons hb]
      by_cases hold : names.contains d.name = true
      · rw [if_pos hold, if_pos hold]
        exact Or.inl ⟨_, rfl, rfl⟩
      · rw [if_neg hold, if_neg hold]
        rcases ih (names ++ [d.name]) with ⟨f, herror, herror'⟩ | ⟨cs, ds, hok, hok', hnames⟩
        · rw [herror, herror']
          exact Or.inl ⟨f, rfl, rfl⟩
        · rw [hok, hok']
          refine Or.inr ⟨d :: cs, ds, rfl, rfl, List.forall_mem_cons.2 ⟨fun heq => ?_, hnames⟩⟩
          exact distinctColumns_new hok c (by simp) (List.mem_append_right _ (by simp [heq]))

/-! ## §3. The clause and the constraint. -/

/-- The group lists the column, spelled in any way, and no other. -/
structure Lists (name : String) (g : Token) (inside : List Char) : Prop where
  isGroup : g.kind = .group
  text : g.inside = .ok inside
  entire : Entire inside
  nonempty : trim inside ≠ []
  spells : unquoteIdent (trim inside) = name

theorem columnList_single {inside : List Char} (h : Entire inside) (hne : trim inside ≠ []) :
    columnList inside = [unquoteIdent (trim inside)] := by
  have hparts := commaParts_level h.level []
  rw [List.append_nil, classify_map_char] at hparts
  unfold columnList splitTopLevel
  rw [hparts]
  show (([inside ++ []].map trim).filter (!·.isEmpty)).map unquoteIdent = _
  rw [List.append_nil, List.map_singleton, List.filter_cons_of_pos (by simpa using hne)]
  rfl

theorem Lists.columnList_eq {name : String} {g : Token} {inside : List Char}
    (h : Lists name g inside) : columnList inside = [name] := by
  rw [columnList_single h.entire h.nonempty, h.spells]

/-- A clause behind a column, and the constraint of the table that says the same of it. -/
inductive SameClause (name : String) : List Token → List Token → Prop where
  | primaryKey {t k t' k' g : Token} {inside : List Char} (ht : t.isKeyword "PRIMARY" = true)
      (hk : k.isKeyword "KEY" = true) (ht' : t'.isKeyword "PRIMARY" = true)
      (hk' : k'.isKeyword "KEY" = true) (hg : Lists name g inside) : SameClause name [t, k] [t', k', g]
  | unique {t t' g : Token} {inside : List Char} (ht : t.isKeyword "UNIQUE" = true) (ht' : t'.isKeyword "UNIQUE" = true)
      (hg : Lists name g inside) : SameClause name [t] [t', g]
  | references {r t k g r' : Token} {inside : List Char} {target : List Token} (hr : r.isKeyword "REFERENCES" = true)
      (ht : t.isKeyword "FOREIGN" = true) (hk : k.isKeyword "KEY" = true) (hg : Lists name g inside)
      (hr' : r'.isKeyword "REFERENCES" = true) (htarget : Target target) :
      SameClause name (r :: target) (t :: k :: g :: r' :: target)

/-- The clause `as` makes `f` of a column while it is read; the constraint `bs` adds `keys`, which
make the same of it afterwards. -/
structure Means (name : String) (as bs : List Token) (f : Column → Column) (keys : KeyClauses) :
    Prop where
  next : Next as
  ne_nil : as ≠ []
  read : ∀ e c, readClauses e 0 c as = .ok (f c)
  name_eq : ∀ c, (f c).name = c.name
  word : ∃ k, leads k bs = true ∧ k ∈ ["PRIMARY", "FOREIGN", "UNIQUE", "CHECK"]
  add : ∀ x : Entry, x.constraint = bs → KeyClauses.add {} x = .ok keys
  same : ∀ c, c.name = name → (leads "REFERENCES" as = true → c.foreignKey = none) →
    keys.apply c.enforceKey = KeyClauses.apply {} (f c).enforceKey
  other : ∀ c, c.name ≠ name → keys.apply c = KeyClauses.apply {} c

/-- A clause that begins with a word of these goes on with none in front of it. -/
theorem next_word {t : Token} {k : String} (ht : t.isKeyword k = true)
    (hk : k ∈ ["PRIMARY", "UNIQUE", "REFERENCES"]) (ts : List Token) : Next (t :: ts) := by
  have hkeyword := keyword?_of_isKeyword ht
  have hleads : ∀ w, leads w (t :: ts) = decide (k = w) := by
    intro w
    show t.isKeyword w = _
    unfold Token.isKeyword
    rw [hkeyword]
    simp
  have hclause : ∀ k ∈ ["PRIMARY", "UNIQUE", "REFERENCES"], columnClauses.contains k = true
      ∧ (∀ w ∈ ["ON", "MATCH", "INITIALLY", "DEFERRABLE", "NOT", "DEFAULT"], k ≠ w) := by decide
  obtain ⟨hbegins, hother⟩ := hclause k hk
  refine ⟨fun u hu => ?_, ⟨?_, fun w hw => ?_, fun hnot => ?_⟩, ?_⟩
  · rw [← Option.some.inj hu]
    unfold Token.beginsClause
    rw [hkeyword]
    exact hbegins
  · show decide (t.kind = .group) = false
    rw [decide_eq_false_iff_not]
    intro hgroup
    unfold Token.keyword? at hkeyword
    rw [hgroup] at hkeyword
    cases hkeyword
  · rw [hleads]
    exact decide_eq_false (hother w (by simp only [List.mem_cons] at hw ⊢; tauto))
  · rw [hleads] at hnot
    exact absurd (of_decide_eq_true hnot) (hother "NOT" (by decide))
  · rw [hleads]
    exact decide_eq_false (hother "DEFAULT" (by decide))

/-- **The clause and the constraint say the same** of the column, and nothing of any other. -/
theorem SameClause.means {name : String} {as bs : List Token} (h : SameClause name as bs) :
    ∃ f keys, Means name as bs f keys := by
  -- for each clause: what it says of its column, what the constraint adds to the keys, and that
  -- these say the same of the column and nothing of another
  cases h with
  | @primaryKey t k t' k' g inside ht hk ht' hk' hg =>
    refine ⟨fun c => { c with inPrimaryKey := true }, { primaryKey := [name] },
      next_word ht (by decide) _, List.cons_ne_nil _ _, fun e c => ?_, fun _ => rfl,
      ⟨"PRIMARY", ht', by decide⟩, fun x hx => ?_, fun c hc _ => ?_,
      fun c hc => ?_⟩
    · have hkey : leads "KEY" [k] = true := hk
      rw [readClauses, readClause_eq (.primaryKey (keyword?_of_isKeyword ht) hkey)]
      rfl
    · rw [add_primaryKey hx ht' hk' hg.isGroup hg.text, hg.columnList_eq]
      rfl
    · unfold KeyClauses.apply Column.enforceKey
      cases hkey : c.inPrimaryKey <;> simp [hc, hkey]
    · unfold KeyClauses.apply
      simp [hc]
  | @unique t t' g inside ht ht' hg =>
    refine ⟨fun c => { c with isUnique := true }, { unique := [name] },
      next_word ht (by decide) _, List.cons_ne_nil _ _, fun e c => ?_, fun _ => rfl,
      ⟨"UNIQUE", ht', by decide⟩, fun x hx => ?_, fun c hc _ => ?_,
      fun c hc => ?_⟩
    · rw [readClauses, readClause_eq (.unique (keyword?_of_isKeyword ht))]
      rfl
    · rw [@add_unique _ _ _ _ _ _ [] hx ht' (List.forall_mem_nil _) hg.isGroup hg.text,
        hg.columnList_eq]
      rfl
    · unfold KeyClauses.apply Column.enforceKey
      cases hkey : c.inPrimaryKey <;> simp [hc, hkey]
    · unfold KeyClauses.apply
      simp [hc]
  | @references r t k g r' inside target hr ht hk hg hr' htarget =>
    obtain ⟨key, hread⟩ := reads_target htarget
    have hreference : ∀ e, reference e target = .ok (key, target.length) := by
      intro e
      have hrow := hread [] e [] ⟨rfl, fun _ _ => rfl⟩ (Or.inl rfl)
      rwa [addGap_nil, List.append_nil] at hrow
    refine ⟨fun c => { c with foreignKey := some key }, { foreignKeys := [(name, key)] },
      next_word hr (by decide) _, List.cons_ne_nil _ _, fun e c => ?_, fun _ => rfl,
      ⟨"FOREIGN", ht, by decide⟩, fun x hx => ?_, fun c hc hfree => ?_,
      fun c hc => ?_⟩
    · have hskip := readClauses_skip (e := e) (c := { c with foreignKey := some key }) target []
      rw [List.append_nil] at hskip
      have hclause : readClause e c r target
          = .ok ({ c with foreignKey := some key }, target.length) :=
        readClause_eq (.references (keyword?_of_isKeyword hr) (hreference e))
      rw [readClauses, hclause]
      exact hskip
    · rw [add_foreign hx ht hk hg.isGroup hg.text hr' (hreference x), hg.columnList_eq]
      rfl
    · unfold KeyClauses.apply Column.enforceKey
      have hnone := hfree hr
      cases hkey : c.inPrimaryKey <;> simp [hc, hkey, hnone]
    · unfold KeyClauses.apply
      have hlookup : List.lookup c.name [(name, key)] = none := by
        rw [List.lookup_cons, show (c.name == name) = false by simp [hc]]
        rfl
      simp [hlookup]

/-! ## §4. One table. -/

/-- **A column with the clause behind it** is the column with what the clause says. -/
theorem column_inline {name : String} {as bs : List Token} {f : Column → Column} {keys : KeyClauses}
    (hmeans : Means name as bs f keys) {c a : List Char} (hc : Entire c) (ha : Entire a)
    (hcolumn : IsColumn name (entryOf c).tokens) (has : (entryOf a).tokens = as) :
    ∃ d : Column, d.name = name ∧ (entryOf c).column = .ok d.enforceKey
      ∧ (entryOf (c ++ ' ' :: a)).column = .ok (f d).enforceKey := by
  obtain ⟨d, hname, hread⟩ := column_append hcolumn
  obtain ⟨gap, hgap, hrow⟩ := tokens_join hc ha.complete hcolumn.ne_nil (has ▸ hmeans.ne_nil)
  rw [has] at hrow
  have halone := hread [] (entryOf c).text [] next_nil (Or.inl rfl)
  rw [addGap_nil, List.append_nil] at halone
  have hjoined := hread gap (entryOf (c ++ ' ' :: a)).text as hmeans.next (Or.inr hgap)
  rw [hmeans.read, ← hrow] at hjoined
  exact ⟨d, hname, halone, hjoined⟩

/-- **The columns are the same**, whether the clause is read with its column or the constraint adds
to what is said of it. -/
theorem readColumns_inline {name : String} {as bs : List Token} {f : Column → Column}
    {keys : KeyClauses} (hmeans : Means name as bs f keys) {d : Column} (hname : d.name = name)
    (hfree : leads "REFERENCES" as = true → d.foreignKey = none) {e e' : Entry}
    (he : e.column = .ok d.enforceKey) (he' : e'.column = .ok (f d).enforceKey)
    (before after : List Entry) : readColumns {} [] (before ++ e' :: after)
      = readColumns keys [] (before ++ e :: after) := by
  have hsame : d.enforceKey.name = (f d).enforceKey.name := by
    rw [name_enforceKey, name_enforceKey, hmeans.name_eq]
  rw [readColumns_eq, readColumns_eq]
  rcases distinctColumns_exchange he he' hsame before after [] with ⟨x, herror, herror'⟩
    | ⟨cs, ds, hok, hok', hnames⟩
  · rw [List.map_nil, herror, herror']
    rfl
  · have hother : ∀ us : List Column, (∀ u ∈ us, u ∈ cs ++ ds) →
        us.map (KeyClauses.apply {}) = us.map keys.apply := fun us hus =>
      List.map_congr_left fun u hu => by
        refine (hmeans.other u ?_).symm
        rw [← hname, ← name_enforceKey d]
        exact hnames u (hus u hu)
    rw [List.map_nil, hok, hok']
    show Except.ok _ = Except.ok _
    simp only [List.nil_append, List.map_append, List.map_cons]
    rw [hother cs fun u hu => List.mem_append_left ds hu,
      hother ds fun u hu => List.mem_append_right cs hu, hmeans.same d hname hfree]

/-- A clause that is put behind one of the entries leaves all of them whole. -/
theorem entries_join {before after : List (List Char)} {c a : List Char}
    (hentire : ∀ e ∈ before ++ c :: after, Entire e) (ha : Entire a) :
    Entries (before ++ (c ++ ' ' :: a) :: after) := by
  refine entries_of_entire (List.append_ne_nil_of_right_ne_nil _ (List.cons_ne_nil _ _)) ?_
  rw [List.forall_mem_append, List.forall_mem_cons] at hentire ⊢
  exact ⟨hentire.1, entire_join hentire.2.1 ha, hentire.2.2⟩

/-- **A key declared behind its column, or in an entry of its own, gives one table.** -/
theorem inline_eq_apart {p : List Char} {before after front back : List (List Char)}
    {c a x : List Char} {name : String} {as bs : List Token}
    (hp : Defines p (before ++ c :: after))
    (hcolumns : ∀ e ∈ before ++ c :: after, Entire e ∧ (entryOf e).isTableConstraint = false)
    (hc : IsColumn name (entryOf c).tokens) (hsame : SameClause name as bs)
    (hfree : leads "REFERENCES" as = true → ∀ d, (entryOf c).column = .ok d → d.foreignKey = none)
    (ha : Entire a) (has : (entryOf a).tokens = as) (hx : Entire x)
    (hbs : Named bs (entryOf x).tokens) (hplace : before ++ c :: after = front ++ back)
    (q : List Char) : parse (laid p (before ++ (c ++ ' ' :: a) :: after) q)
      = parse (laid p (front ++ x :: back) q) := by
  obtain ⟨f, keys, hmeans⟩ := hsame.means
  obtain ⟨⟨schema, table, hhead⟩, hcomplete, hentries⟩ := hp
  obtain ⟨hentire, hno⟩ := hcolumns c (by simp)
  obtain ⟨d, hname, hcolumn, hcolumn'⟩ := column_inline hmeans hentire ha hc has
  obtain ⟨gap, -, hrow⟩ := tokens_join hentire ha.complete hc.ne_nil (has ▸ hmeans.ne_nil)
  obtain ⟨k, hword, hk⟩ := hmeans.word
  -- the entry with the clause is a column, that of the constraint is none
  have hjoined : (entryOf (c ++ ' ' :: a)).isTableConstraint = false := by
    have happended := @isTableConstraint_append _ _ hc (entryOf c).text hno gap
      (entryOf (c ++ ' ' :: a)).text (entryOf a).tokens
    rwa [← hrow] at happended
  have hjoinedne : (entryOf (c ++ ' ' :: a)).tokens ≠ [] := by
    rw [hrow]
    exact List.append_ne_nil_of_left_ne_nil (addGap_ne_nil hc.ne_nil) _
  have hconstraint := hbs.isTableConstraint hword hk
  have hxne : (entryOf x).tokens ≠ [] := by
    refine hbs.ne_nil ?_
    rintro rfl
    cases hword
  -- the texts of both bodies
  have hinline := entries_join (fun e he => (hcolumns e he).1) ha
  have hapart : Entries (front ++ x :: back) := by
    refine entries_insert (hplace ▸ hentries) hx fun _ e he => (hcolumns e ?_).1
    rw [hplace]
    exact List.mem_append_left _ (List.mem_of_getLast? he)
  -- all other entries are columns
  obtain ⟨hbefore, hbefore'⟩ :=
    @entriesIn_columns before fun e he => (hcolumns e (by simp [he])).2
  obtain ⟨hafter, hafter'⟩ := @entriesIn_columns after fun e he => (hcolumns e (by simp [he])).2
  obtain ⟨hfront, hfront'⟩ :=
    @entriesIn_columns front fun e he => (hcolumns e (by simp [hplace, he])).2
  obtain ⟨hback, hback'⟩ :=
    @entriesIn_columns back fun e he => (hcolumns e (by simp [hplace, he])).2
  rw [parse_laid hhead hcomplete hinline, parse_laid hhead hcomplete hapart,
    entriesIn_middle hjoinedne, entriesIn_middle hxne]
  refine @tableOf_congr _ _ _ _ {} keys ?_ ?_ ?_
  · rw [List.filter_append, List.filter_cons_of_neg (by simp [hjoined]), hbefore, hafter]
    rfl
  · rw [List.filter_append, List.filter_cons_of_pos hconstraint, hfront, hback]
    show (KeyClauses.add {} (entryOf x) >>= fun keys => List.foldlM KeyClauses.add keys []) = _
    rw [hmeans.add _ hbs.constraint]
    rfl
  · rw [List.filter_append, List.filter_cons_of_pos (by simp [hjoined]), hbefore', hafter',
      List.filter_append, List.filter_cons_of_neg (by simp [hconstraint]), hfront', hback',
      ← entriesIn_append, ← hplace, entriesIn_middle hc.ne_nil]
    refine readColumns_inline hmeans hname (fun hreferences => ?_) hcolumn hcolumn' _ _
    have hnone := hfree hreferences _ hcolumn
    unfold Column.enforceKey at hnone
    split at hnone
    · exact hnone
    · exact hnone

/-- A named foreign key in front of the columns, which writes the column in another way. -/
theorem inline_eq_apart_reference :
    parse (laid "CREATE TABLE t ".toList ("B int".toList :: ("A text DEFAULT 1".toList
        ++ ' ' :: "REFERENCES s.u (id)".toList) :: []) [])
      = parse (laid "CREATE TABLE t ".toList ("CONSTRAINT k FOREIGN KEY (\"a\") REFERENCES s.u (id)".toList
        :: ["B int".toList, "A text DEFAULT 1".toList]) []) := by
  have hcolumns : ∀ e ∈ ["B int".toList, "A text DEFAULT 1".toList],
      Entire e ∧ (entryOf e).isTableConstraint = false := by
    refine List.forall_mem_cons.2 ⟨?_, List.forall_mem_singleton.2 ?_⟩
    · exact ⟨⟨complete_of_mode (by decide +kernel), by decide +kernel⟩, by decide +kernel⟩
    · exact ⟨⟨complete_of_mode (by decide +kernel), by decide +kernel⟩, by decide +kernel⟩
  have hdefines : Defines "CREATE TABLE t ".toList ["B int".toList, "A text DEFAULT 1".toList] :=
    ⟨⟨none, "t".toList, by decide +kernel⟩, complete_of_mode (by decide +kernel),
      entries_of_entire (List.cons_ne_nil _ _) fun e he => (hcolumns e he).1⟩
  have hcolumn : IsColumn "a" (entryOf "A text DEFAULT 1".toList).tokens := by
    rw [show (entryOf "A text DEFAULT 1".toList).tokens = ⟨.word, ['A'], [' ']⟩
      :: ([⟨.word, "text".toList, [' ']⟩] ++ ⟨.word, "DEFAULT".toList, [' ']⟩
      :: ([⟨.word, ['1'], []⟩] ++ [])) from by decide +kernel]
    refine .mk (Or.inl rfl) (by decide +kernel) (List.cons_ne_nil _ _) (by decide +kernel)
      (.default (by decide +kernel) (List.cons_ne_nil _ _) (by decide +kernel)
        (fun front u behind hsplit hfront _ => ?_) .nil nofun) fun t ht => ?_
    · -- the expression is one token
      rcases List.append_eq_singleton_iff.1 hsplit.symm with ⟨rfl, -⟩ | ⟨-, hnil⟩
      · exact absurd rfl hfront
      · cases hnil
    · rw [← Option.some.inj ht]
      decide +kernel
  have htarget : Target [⟨.word, "s.u".toList, [' ']⟩, ⟨.group, "(id)".toList, []⟩] :=
    @Target.mk _ [] [_] [] nofun rfl (Or.inr ⟨_, "id".toList, rfl, rfl, by decide +kernel⟩) .nil
      nofun
  have hlists : Lists "a" ⟨.group, "(\"a\")".toList, [' ']⟩ "\"a\"".toList :=
    ⟨rfl, by decide +kernel, ⟨complete_of_mode (by decide +kernel), by decide +kernel⟩,
      by decide +kernel, by decide +kernel⟩
  have hsame : SameClause "a"
      (⟨.word, "REFERENCES".toList, [' ']⟩ ::
        [⟨.word, "s.u".toList, [' ']⟩, ⟨.group, "(id)".toList, []⟩])
      (⟨.word, "FOREIGN".toList, [' ']⟩ :: ⟨.word, "KEY".toList, [' ']⟩
        :: ⟨.group, "(\"a\")".toList, [' ']⟩ :: ⟨.word, "REFERENCES".toList, [' ']⟩
        :: [⟨.word, "s.u".toList, [' ']⟩, ⟨.group, "(id)".toList, []⟩]) :=
    .references (by decide +kernel) (by decide +kernel) (by decide +kernel) hlists
      (by decide +kernel) htarget
  refine @inline_eq_apart _ ["B int".toList] [] [] _ _ _ _ _ _ _ hdefines hcolumns hcolumn hsame
    (fun _ d hd => ?_) ⟨complete_of_mode (by decide +kernel), by decide +kernel⟩
    (by decide +kernel) ⟨complete_of_mode (by decide +kernel), by decide +kernel⟩ ?_ rfl []
  · have hread : (entryOf "A text DEFAULT 1".toList).column
        = .ok ⟨"a", "TEXT", true, some "1", false, false, none, none⟩ := by decide +kernel
    rw [hread] at hd
    rw [← Except.ok.inj hd]
  · have hrow : (entryOf "CONSTRAINT k FOREIGN KEY (\"a\") REFERENCES s.u (id)".toList).tokens
        = ⟨.word, "CONSTRAINT".toList, [' ']⟩ :: ⟨.word, ['k'], [' ']⟩
          :: ⟨.word, "FOREIGN".toList, [' ']⟩ :: ⟨.word, "KEY".toList, [' ']⟩
          :: ⟨.group, "(\"a\")".toList, [' ']⟩ :: ⟨.word, "REFERENCES".toList, [' ']⟩
          :: [⟨.word, "s.u".toList, [' ']⟩, ⟨.group, "(id)".toList, []⟩] := by decide +kernel
    rw [hrow]
    exact .named (by decide +kernel)

/-- The name of the target ends at the gap.  What is behind it is passed over behind a constraint,
and read with the column otherwise, so that the column takes nulls. -/
theorem inline_ne_apart_gap :
    parse "CREATE TABLE t (a int NOT NULL REFERENCES s . t ON DELETE SET NULL)".toList
        = .ok ⟨"public", "t", [⟨"a", "INT", true, none, false, false, some { table := "s" }, none⟩]⟩
      ∧ parse "CREATE TABLE t (a int NOT NULL, FOREIGN KEY (a) REFERENCES s . t ON DELETE SET NULL)".toList
        = .ok ⟨"public", "t", [⟨"a", "INT", false, none, false, false, some { table := "s" }, none⟩]⟩ := by
  decide +kernel

end SchemaDrift.Table
