/-
  SchemaDrift.Proofs.Table.KeyColumns
  ───────────────────────────────────
  **WHICH COLUMNS MAKE UP THE PRIMARY KEY.**

  A column obeys the key rule whatever it was made by (`Column.Made.obeys`), and a table that
  was read from a definition has the columns of its entries, in their order:

      Entry.name        the name an entry declares
      Entry.clauses     what stands behind its type, cut into clauses
      Entry.keyNames    the names a constraint lists behind PRIMARY KEY

  A column is in the primary key exactly if one of the clauses of its entry is `PRIMARY KEY`, or
  a constraint of the table lists its name there.  No other clause takes the key back, `NULL`
  behind it included, and no order of clauses or entries plays a part (`keyRule_and_shape`).
-/

import SchemaDrift.Proofs.Snapshot.KeyRule
import SchemaDrift.Proofs.Table.Inline

namespace SchemaDrift

open SchemaDrift.Sql SchemaDrift.Table

/-! ## §1. Columns by what they are made of. -/

/-- The columns that can be had: a new one, one that a definition declares or a JSON value stands
for, and what the builders make of any of them. -/
inductive Column.Made : Column → Prop where
  | new (name dataType : String) : Made (Column.new name dataType)
  | withNullable {c : Column} (nullable : Bool) (h : Made c) : Made (c.withNullable nullable)
  | notNull {c : Column} (h : Made c) : Made c.notNull
  | withDefault {c : Column} (expression : String) (h : Made c) : Made (c.withDefault expression)
  | primaryKey {c : Column} (h : Made c) : Made c.primaryKey
  | unique {c : Column} (h : Made c) : Made c.unique
  | references {c : Column} (key : ForeignKey) (h : Made c) : Made (c.references key)
  | withCheck {c : Column} (expression : String) (h : Made c) : Made (c.withCheck expression)
  | withoutPrimaryKey {c : Column} (h : Made c) : Made c.withoutPrimaryKey
  | declared {sql : List Char} {t : Table} {c : Column} (h : Table.parse sql = .ok t)
      (hc : c ∈ t.columns) : Made c
  | decoded {j : Json} {c : Column} (h : Column.ofJson? j = some c) : Made c
  | decodedIn {j : Json} {t : Table} {c : Column} (h : Table.ofJson? j = some t)
      (hc : c ∈ t.columns) : Made c

/-- **Every column obeys the key rule**, by whatever calls it was made. -/
theorem Column.Made.obeys {c : Column} (h : c.Made) : c.ObeysKeyRule := by
  induction h with
  | new name dataType => exact fun hkey => nomatch hkey
  | withNullable => exact enforceKey_obeys _
  | notNull => exact enforceKey_obeys _
  | withDefault _ _ ih => exact ih
  | primaryKey => exact enforceKey_obeys _
  | unique _ ih => exact fun hkey => ⟨(ih hkey).1, rfl⟩
  | references _ _ ih => exact ih
  | withCheck _ _ ih => exact ih
  | withoutPrimaryKey => exact fun hkey => nomatch hkey
  | declared h hc => exact Table.parse_obeys h _ hc
  | decoded h => exact Column.ofJson?_obeys h
  | decodedIn h hc => exact Table.ofJson?_obeys h _ hc

namespace Table

/-! ## §2. The clauses of an entry. -/

/-- The number of tokens, behind its first, of the clause that begins with the token `t`. -/
def clauseSpan (e : Entry) (t : Token) (rest : List Token) : Nat :=
  match t.keyword? with
  | some "CONSTRAINT" => 1
  | some "NOT" => if leads "NULL" rest then 1 else 0
  | some "DEFAULT" => expressionLength true 0 rest
  | some "PRIMARY" => if leads "KEY" rest then 1 else 0
  | some "REFERENCES" => (reference e rest).toOption.elim 0 (·.2)
  | some "CHECK" => if leadsGroup rest then 1 else 0
  | some "COLLATE" => 1
  | some "GENERATED" => upToClause ["DEFAULT"] rest
  | _ => 0

/-- Cuts a row of tokens into clauses, the first `skip` tokens being of none. -/
def cutClauses (e : Entry) (skip : Nat) : List Token → List (List Token)
  | [] => []
  | t :: rest =>
    match skip with
    | n + 1 => cutClauses e n rest
    | 0 => (t :: rest.take (clauseSpan e t rest)) :: cutClauses e (clauseSpan e t rest) rest

/-- The clauses behind the type of the column that an entry declares. -/
def Entry.clauses (e : Entry) : List (List Token) :=
  cutClauses e 0 (e.tokens.tail.drop (upToClause [] e.tokens.tail))

/-- The clause is `PRIMARY KEY`. -/
def isKeyClause (clause : List Token) : Bool := leads "PRIMARY" clause && leads "KEY" clause.tail

/-- One of the clauses of the entry is `PRIMARY KEY`. -/
def Entry.carriesKey (e : Entry) : Bool := e.clauses.any isKeyClause

/-- The name of the column that an entry declares. -/
def Entry.name (e : Entry) : String := (e.tokens.head?.map fun t => unquoteIdent t.text).getD ""

/-- **The clauses are the whole row**, cut into parts. -/
theorem flatten_cutClauses (e : Entry) (skip : Nat) (ts : List Token) :
    (cutClauses e skip ts).flatten = ts.drop skip := by
  induction ts generalizing skip with
  | nil => rw [cutClauses, List.drop_nil, List.flatten_nil]
  | cons t rest ih =>
    cases skip with
    | succ n =>
      rw [cutClauses, List.drop_succ_cons]
      exact ih n
    | zero =>
      rw [cutClauses, List.flatten_cons, ih, List.cons_append, List.take_append_drop,
        List.drop_zero]

theorem leads_cons (k : String) (t : Token) (rest : List Token) :
    leads k (t :: rest) = t.isKeyword k := rfl

/-- Making a column obey the key rule neither puts it into the key nor takes it out. -/
theorem inPrimaryKey_enforceKey (c : Column) : c.enforceKey.inPrimaryKey = c.inPrimaryKey := by
  unfold Column.enforceKey
  split
  · rfl
  · rfl

/-- A clause whose first word is another is not `PRIMARY KEY`. -/
theorem isKeyClause_of_ne {t : Token} (h : t.keyword? ≠ some "PRIMARY") (rest : List Token) :
    isKeyClause (t :: rest) = false := by
  unfold isKeyClause
  rw [leads_cons, Token.isKeyword, decide_eq_false h, Bool.false_and]

/-- **One clause**: reading it takes its tokens, leaves the name, and puts the column into the key
exactly if it is `PRIMARY KEY`. -/
theorem readClause_key {e : Entry} {c c' : Column} {t : Token} {rest : List Token} {n : Nat}
    (h : readClause e c t rest = .ok (c', n)) : n = clauseSpan e t rest ∧ c'.name = c.name
      ∧ c'.inPrimaryKey = (c.inPrimaryKey || isKeyClause (t :: rest.take n)) := by
  -- a clause that begins with another word says nothing of the key
  have hother : ∀ {d : Column} {w : String}, t.keyword? = some w → w ≠ "PRIMARY" →
      d.inPrimaryKey = c.inPrimaryKey →
      d.inPrimaryKey = (c.inPrimaryKey || isKeyClause (t :: rest.take n)) := by
    intro d w ht hne hkept
    rw [isKeyClause_of_ne (by rw [ht]; exact fun h => hne (Option.some.inj h)), Bool.or_false, hkept]
  have hkind := clauseKind e c t rest
  rw [h] at hkind
  unfold clauseSpan
  cases hkind with
  | constraint ht | null ht | unique ht | collate ht =>
    rw [ht]
    exact ⟨rfl, rfl, hother ht (by decide) rfl⟩
  | notNull ht hnull =>
    rw [ht]
    exact ⟨(if_pos hnull).symm, rfl, hother ht (by decide) rfl⟩
  | not ht hnull =>
    rw [ht]
    exact ⟨(if_neg (Bool.eq_false_iff.1 hnull)).symm, rfl, hother ht (by decide) rfl⟩
  | default ht _ hn | generated ht hn =>
    rw [ht]
    exact ⟨hn.symm, rfl, hother ht (by decide) rfl⟩
  | references ht hkey =>
    rw [ht, hkey]
    exact ⟨rfl, rfl, hother ht (by decide) rfl⟩
  | check ht hrest hgroup =>
    have hleads : leadsGroup rest = true := by
      rw [hrest]
      exact decide_eq_true hgroup
    rw [ht]
    exact ⟨(if_pos hleads).symm, rfl, hother ht (by decide) rfl⟩
  | checkWord ht hgroup =>
    rw [ht]
    exact ⟨(if_neg (Bool.eq_false_iff.1 hgroup)).symm, rfl, hother ht (by decide) rfl⟩
  | primaryKey ht hkey =>
    have htake : leads "KEY" (rest.take 1) = true := by
      cases rest with
      | nil => exact hkey
      | cons k rest => exact hkey
    rw [ht]
    refine ⟨(if_pos hkey).symm, rfl, ?_⟩
    unfold isKeyClause
    rw [leads_cons, List.tail_cons, htake, Token.isKeyword, ht]
    simp
  | primary ht hkey =>
    rw [ht]
    refine ⟨(if_neg (Bool.eq_false_iff.1 hkey)).symm, rfl, ?_⟩
    unfold isKeyClause
    rw [List.tail_cons, List.take_zero]
    simp [leads]
  | other ht =>
    refine ⟨?_, rfl, ?_⟩
    · split <;> first | rfl | exact absurd ‹_› (ht _ (by decide))
    · rw [isKeyClause_of_ne (ht _ (by decide)), Bool.or_false]

/-- **All clauses**: reading them leaves the name, and puts the column into the key exactly if one
of them is `PRIMARY KEY`. -/
theorem readClauses_key {e : Entry} {skip : Nat} {c c' : Column} {ts : List Token}
    (h : readClauses e skip c ts = .ok c') : c'.name = c.name
      ∧ c'.inPrimaryKey = (c.inPrimaryKey || (cutClauses e skip ts).any isKeyClause) := by
  induction ts generalizing skip c with
  | nil =>
    rw [← Except.ok.inj h]
    exact ⟨rfl, (Bool.or_false _).symm⟩
  | cons t rest ih =>
    cases skip with
    | succ n => exact ih h
    | zero =>
      obtain ⟨⟨d, n⟩, hclause, h⟩ := bind_eq_ok.1 h
      obtain ⟨rfl, hname, hkey⟩ := readClause_key hclause
      obtain ⟨hname', hkey'⟩ := ih h
      refine ⟨hname'.trans hname, ?_⟩
      rw [hkey', hkey, Bool.or_assoc]
      rfl

/-- **The column that an entry declares** has its name, and is in the key exactly if the entry
carries it. -/
theorem column_key {e : Entry} {c : Column} (h : e.column = .ok c) :
    c.name = e.name ∧ c.inPrimaryKey = e.carriesKey := by
  unfold Entry.column at h
  unfold Entry.name Entry.carriesKey Entry.clauses
  cases hts : e.tokens with
  | nil =>
    rw [hts] at h
    cases h
  | cons t rest =>
    rw [hts] at h
    dsimp only at h
    split at h
    · split at h
      · cases h
      · cases hread : readClauses e 0 (Column.new (unquoteIdent t.text)
            (String.ofList (spanText (rest.take (upToClause [] rest)))))
            (rest.drop (upToClause [] rest)) with
        | error f =>
          rw [hread] at h
          cases h
        | ok d =>
          rw [hread] at h
          obtain rfl := Except.ok.inj h
          rw [name_enforceKey, inPrimaryKey_enforceKey]
          exact readClauses_key hread
    · cases h

/-! ## §3. The constraints of a table. -/

/-- The names that an entry lists behind `PRIMARY KEY`, being a constraint of the table. -/
def Entry.keyNames (e : Entry) : List String :=
  if leads "PRIMARY" e.constraint then
    (keyGroup? e.constraint).elim [] fun g => (g.inside.map columnList).toOption.getD []
  else []

/-- A constraint that begins with another word lists no names for the key. -/
theorem keyNames_other {e : Entry} (h : leadingKeyword? e.constraint ≠ some "PRIMARY") :
    e.keyNames = [] :=
  if_neg fun hleads => h (leadingKeyword?_of_leads hleads)

/-- A primary key lists the names in its list. -/
theorem keyNames_primary {e : Entry} (h : leadingKeyword? e.constraint = some "PRIMARY") :
    e.keyNames
      = (listGroup? e.constraint).elim [] fun g => (g.inside.map columnList).toOption.getD [] := by
  rw [listGroup?_key h (by decide)]
  exact if_pos (leads_of_leadingKeyword? h)

/-- A constraint adds the names it lists to those of the key. -/
theorem add_keyNames {k k' : KeyClauses} {e : Entry} (h : k.add e = .ok k') :
    k'.primaryKey = k.primaryKey ++ e.keyNames := by
  have hkind := constraintKind k e
  rw [h] at hkind
  -- a constraint that lists no names for the key leaves it as it is
  have hkept : ∀ {d : KeyClauses}, .ok k' = (.ok d : Except TableError KeyClauses) →
      d.primaryKey = k.primaryKey → e.keyNames = [] →
      k'.primaryKey = k.primaryKey ++ e.keyNames := by
    intro d hd hkey hnames
    rw [Except.ok.inj hd, hkey, hnames, List.append_nil]
  have hsingle : ∀ {f : String → KeyClauses} {cs : List String}, .ok k' = ofSingle k f cs →
      (∀ c, (f c).primaryKey = k.primaryKey) → leadingKeyword? e.constraint ≠ some "PRIMARY" →
      k'.primaryKey = k.primaryKey ++ e.keyNames := by
    intro f cs hadd hf hw
    obtain ⟨d, hd, hcases⟩ := ofSingle_cases k f cs
    refine hkept (hadd.trans hd) ?_ (keyNames_other hw)
    rcases hcases with rfl | ⟨c, rfl⟩
    · rfl
    · exact hf c
  generalize hadd : (.ok k' : Except TableError KeyClauses) = r at hkind
  cases hkind with
  | other hw => exact hkept hadd rfl (keyNames_other (hw _ (by decide)))
  | noList hw hkey hlist =>
    refine hkept hadd rfl ?_
    by_cases hprimary : leadingKeyword? e.constraint = some "PRIMARY"
    · rw [keyNames_primary hprimary, hlist]
      rfl
    · exact keyNames_other hprimary
  | broken | noReference | noTarget => cases hadd
  | primaryKey hw hlist hinside =>
    rw [Except.ok.inj hadd, keyNames_primary hw, hlist, Option.elim_some, hinside]
    rfl
  | unique hw => exact hsingle hadd (fun c => rfl) (by rw [hw]; decide)
  | foreignKey hw => exact hsingle hadd (fun c => rfl) (by rw [hw]; decide)

/-- **The constraints of a table** put the names into the key that any of them lists. -/
theorem addAll_keyNames {k k' : KeyClauses} {es : List Entry}
    (h : es.foldlM KeyClauses.add k = .ok k') :
    k'.primaryKey = k.primaryKey ++ es.flatMap Entry.keyNames := by
  induction es generalizing k with
  | nil =>
    rw [← Except.ok.inj h, List.flatMap_nil, List.append_nil]
  | cons e es ih =>
    rw [List.foldlM_cons] at h
    obtain ⟨k₁, hadd, h⟩ := bind_eq_ok.1 h
    rw [ih h, add_keyNames hadd, List.flatMap_cons, List.append_assoc]

/-! ## §4. The columns of a definition. -/

/-- The entries of a definition that declare columns. -/
def declaring (sql : List Char) : List Entry := (entriesOf sql).filter (!·.isTableConstraint)

/-- The names that the constraints of a definition list behind `PRIMARY KEY`. -/
def listedKeys (sql : List Char) : List String :=
  ((entriesOf sql).filter (·.isTableConstraint)).flatMap Entry.keyNames

/-- The entry puts its column into the primary key, or a constraint lists the column, the
constraints listing the names in `listed`. -/
def Entry.inKey (listed : List String) (e : Entry) : Bool := e.carriesKey || listed.contains e.name

/-- The column that an entry declares, with what the constraints say of it, is in the key exactly
if the entry puts it there or the constraints do. -/
theorem apply_key {e : Entry} {c : Column} (h : e.column = .ok c) (k : KeyClauses) :
    (k.apply c).name = e.name ∧ (k.apply c).inPrimaryKey = e.inKey k.primaryKey := by
  obtain ⟨hname, hkey⟩ := column_key h
  refine ⟨(name_apply k c).trans hname, ?_⟩
  unfold KeyClauses.apply Entry.inKey
  rw [inPrimaryKey_enforceKey, ← hkey, ← hname]

/-- Columns that are read are those of the entries, one for each. -/
theorem forall₂_distinctColumns {names : List String} {es : List Entry} {cs : List Column}
    (h : distinctColumns names es = .ok cs) : List.Forall₂ (fun e c => e.column = .ok c) es cs := by
  induction es generalizing names cs with
  | nil =>
    rw [← Except.ok.inj h]
    exact .nil
  | cons e es ih =>
    obtain ⟨c, hc, h⟩ := bind_eq_ok.1 h
    split at h
    · cases h
    · obtain ⟨ds, hds, h⟩ := bind_eq_ok.1 h
      rw [← Except.ok.inj h]
      exact .cons hc (ih hds)

/-- Names and key of columns that match their entries one by one. -/
theorem keys_of_forall₂ {inKey : Entry → Bool} {es : List Entry} {cs : List Column}
    (h : List.Forall₂ (fun e c => c.name = e.name ∧ c.inPrimaryKey = inKey e) es cs) :
    cs.map (·.name) = es.map Entry.name
      ∧ (cs.filter (·.inPrimaryKey)).map (·.name) = (es.filter inKey).map Entry.name := by
  induction h with
  | nil => exact ⟨rfl, rfl⟩
  | cons hcons _ ih =>
    obtain ⟨hname, hkey⟩ := hcons
    refine ⟨by rw [List.map_cons, List.map_cons, hname, ih.1], ?_⟩
    rw [List.filter_cons, List.filter_cons, hkey]
    split
    · rw [List.map_cons, List.map_cons, hname, ih.2]
    · exact ih.2

/-- **A definition that is read**: its constraints, then at least one column for its other
entries. -/
theorem parse_entries {sql : List Char} {t : Table} (h : parse sql = .ok t) :
    ∃ keys, ((entriesOf sql).filter (·.isTableConstraint)).foldlM KeyClauses.add {} = .ok keys
      ∧ readColumns keys [] (declaring sql) = .ok t.columns ∧ t.columns ≠ [] := by
  rw [parse_shell] at h
  unfold declaring entriesOf
  cases hshell : shell? (stripComments sql) with
  | none =>
    rw [hshell] at h
    cases h
  | some shell =>
    rw [hshell] at h
    replace h : shell.table = .ok t := h
    unfold Shell.table at h
    rw [Option.bind_some]
    cases hbody : shell.body? with
    | none =>
      rw [hbody] at h
      cases h
    | some body =>
      rw [hbody] at h
      obtain ⟨keys, hkeys, h⟩ := bind_eq_ok.1 h
      obtain ⟨columns, hcolumns, h⟩ := bind_eq_ok.1 h
      split at h
      · cases h
      · next hsome =>
        rw [← Except.ok.inj h]
        exact ⟨keys, hkeys, hcolumns, by simpa using hsome⟩

/-- **The columns of a definition are those of its entries**, and its key is made up of those that
carry it or are listed. -/
theorem parse_keys {sql : List Char} {t : Table} (h : parse sql = .ok t) :
    t.columnNames = (declaring sql).map Entry.name
      ∧ t.keyColumns = ((declaring sql).filter (Entry.inKey (listedKeys sql))).map Entry.name := by
  obtain ⟨keys, hkeys, hcolumns, -⟩ := parse_entries h
  rw [readColumns_eq] at hcolumns
  obtain ⟨cs, hread, hcs⟩ := map_eq_ok.1 hcolumns
  have hlisted : keys.primaryKey = listedKeys sql := addAll_keyNames hkeys
  have hmatch : List.Forall₂
      (fun e c => c.name = e.name ∧ c.inPrimaryKey = e.inKey (listedKeys sql))
      (declaring sql) t.columns := by
    rw [← hcs, ← hlisted, List.nil_append, List.forall₂_map_right_iff]
    exact (forall₂_distinctColumns hread).imp fun e c hc => apply_key hc keys
  exact keys_of_forall₂ hmatch

/-- **Key rule and shape of tables.**  Every column obeys the key rule, by whatever calls it was
made.  A table that was read has a column; no name comes twice; there is one column for each entry
that is no constraint; and its primary key is made up of those with `PRIMARY KEY` among their
clauses and those that a constraint lists. -/
theorem keyRule_and_shape :
    (∀ c : Column, c.Made → c.ObeysKeyRule)
      ∧ ∀ (sql : List Char) (t : Table), parse sql = .ok t →
        t.columns ≠ [] ∧ t.columnNames.Nodup
          ∧ t.columnNames = (declaring sql).map Entry.name
          ∧ t.keyColumns = ((declaring sql).filter fun e =>
              e.carriesKey || (listedKeys sql).contains e.name).map Entry.name := by
  refine ⟨fun c hc => hc.obeys, fun sql t h => ?_⟩
  obtain ⟨-, -, -, hne⟩ := parse_entries h
  obtain ⟨hnames, hkeys⟩ := parse_keys h
  exact ⟨hne, parse_names_nodup h, hnames, hkeys⟩

/-- A definition with `NULL` behind a key, and behind a column that a constraint lists. -/
def nullableKeys : List Char :=
  "CREATE TABLE t (a int PRIMARY KEY NULL, PRIMARY KEY (\"B\"), \"B\" int NULL, b int)".toList

/-- Neither column takes nulls, and both are in the key. -/
theorem keyRule_and_shape_null :
    ((Column.new "a" "int").primaryKey.withNullable true).ObeysKeyRule
      ∧ parse nullableKeys = .ok ⟨"public", "t", [⟨"a", "INT", false, none, true, true, none, none⟩,
          ⟨"B", "INT", false, none, true, true, none, none⟩,
          ⟨"b", "INT", true, none, false, false, none, none⟩]⟩
      ∧ ((declaring nullableKeys).filter fun e =>
          e.carriesKey || (listedKeys nullableKeys).contains e.name).map Entry.name = ["a", "B"] := by
  have hparse : parse nullableKeys
      = .ok ⟨"public", "t", [⟨"a", "INT", false, none, true, true, none, none⟩,
          ⟨"B", "INT", false, none, true, true, none, none⟩,
          ⟨"b", "INT", true, none, false, false, none, none⟩]⟩ := by
    decide +kernel
  obtain ⟨-, -, -, hkeys⟩ := keyRule_and_shape.2 _ _ hparse
  exact ⟨keyRule_and_shape.1 _ (.withNullable true (.primaryKey (.new "a" "int"))), hparse,
    hkeys.symm⟩

end Table

end SchemaDrift
