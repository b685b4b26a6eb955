/-
  SchemaDrift.Proofs.Table.ClauseKinds
  ────────────────────────────────────
  **THE KINDS OF CLAUSES OF A COLUMN, AND OF CONSTRAINTS OF A TABLE.**

  The first word of a clause tells its kind, and the kind what it says of the column, how many
  tokens it takes, and what may be wrong with it.  So does the first word of a constraint, with
  the group in which the constraint lists its columns.

      ClauseKind         the kinds of clauses, with what comes of reading each
      clauseKind         whatever is read is read as one of them
      readClause_eq      … and each is read as its kind tells
      add_listed         what a constraint that names columns adds, by the group of its list
      ConstraintKind     the kinds of constraints, with what each adds
      constraintKind     whatever is added is added as one of them
      add_eq             … and each adds what its kind tells

  Constraints and columns are read one behind the other: what every step keeps, the whole run
  keeps (`foldlM_keeps`, `readColumns_keeps`), and it fails at its first step that does
  (`foldlM_eq_error`).
-/

import SchemaDrift.Table.Parse
import SchemaDrift.Proofs.Except

namespace SchemaDrift.Table

open SchemaDrift.Sql SchemaDrift.Text

/-! ## §1. The kinds of clauses. -/

/-- The value of a default, by its text in normal form. -/
def defaultValue (expression : List Char) : Option String :=
  if isNullWord expression then none else some (String.ofList expression)

/-- The kinds of clauses that begin with the token `t`, with `rest` behind it: the column `c` with
what each says of it and the number of tokens of `rest` that it takes, or its fault. -/
inductive ClauseKind (e : Entry) (c : Column) (t : Token) (rest : List Token) :
    Except TableError (Column × Nat) → Prop
  | constraint (ht : t.keyword? = some "CONSTRAINT") : ClauseKind e c t rest (.ok (c, 1))
  | notNull (ht : t.keyword? = some "NOT") (hnull : leads "NULL" rest = true) :
      ClauseKind e c t rest (.ok ({ c with nullable := false }, 1))
  | not (ht : t.keyword? = some "NOT") (hnull : leads "NULL" rest = false) :
      ClauseKind e c t rest (.ok (c, 0))
  | null (ht : t.keyword? = some "NULL") :
      ClauseKind e c t rest (.ok ({ c with nullable := true }, 0))
  | default {n : Nat} {expression : List Char} (ht : t.keyword? = some "DEFAULT") (hrest : rest ≠ [])
      (hn : expressionLength true 0 rest = n)
      (hexpression : normalize (spanText (rest.take n)) = expression) :
      ClauseKind e c t rest (.ok ({ c with defaultExpr := defaultValue expression }, n))
  | noDefault (ht : t.keyword? = some "DEFAULT") (hrest : rest = []) :
      ClauseKind e c t rest (.error e.malformed)
  | primaryKey (ht : t.keyword? = some "PRIMARY") (hkey : leads "KEY" rest = true) :
      ClauseKind e c t rest (.ok ({ c with inPrimaryKey := true }, 1))
  | primary (ht : t.keyword? = some "PRIMARY") (hkey : leads "KEY" rest = false) :
      ClauseKind e c t rest (.ok (c, 0))
  | unique (ht : t.keyword? = some "UNIQUE") :
      ClauseKind e c t rest (.ok ({ c with isUnique := true }, 0))
  | references {key : ForeignKey} {n : Nat} (ht : t.keyword? = some "REFERENCES")
      (hkey : reference e rest = .ok (key, n)) :
      ClauseKind e c t rest (.ok ({ c with foreignKey := some key }, n))
  | noReference {x : TableError} (ht : t.keyword? = some "REFERENCES")
      (hkey : reference e rest = .error x) : ClauseKind e c t rest (.error x)
  | check {g : Token} {behind : List Token} {inside : List Char} (ht : t.keyword? = some "CHECK")
      (hrest : rest = g :: behind) (hgroup : g.kind = .group) (hinside : g.inside = .ok inside) :
      ClauseKind e c t rest
        (.ok ({ c with checkExpr := some (String.ofList (normalize inside)) }, 1))
  | noCheck {g : Token} {behind : List Token} {x : TableError} (ht : t.keyword? = some "CHECK")
      (hrest : rest = g :: behind) (hgroup : g.kind = .group) (hinside : g.inside = .error x) :
      ClauseKind e c t rest (.error x)
  | checkWord (ht : t.keyword? = some "CHECK") (hgroup : leadsGroup rest = false) :
      ClauseKind e c t rest (.ok (c, 0))
  | collate (ht : t.keyword? = some "COLLATE") : ClauseKind e c t rest (.ok (c, 1))
  | generated {n : Nat} (ht : t.keyword? = some "GENERATED") (hn : upToClause ["DEFAULT"] rest = n) :
      ClauseKind e c t rest (.ok (c, n))
  | other (ht : ∀ k ∈ columnClauses, t.keyword? ≠ some k) : ClauseKind e c t rest (.ok (c, 0))

/-- **Whatever is read of a clause is read as one of these kinds.** -/
theorem clauseKind (e : Entry) (c : Column) (t : Token) (rest : List Token) :
    ClauseKind e c t rest (readClause e c t rest) := by
  unfold readClause
  split
  · next ht => exact .constraint ht
  · next ht =>
    split
    · next hnull => exact .notNull ht hnull
    · next hnull => exact .not ht (Bool.eq_false_iff.2 hnull)
  · next ht => exact .null ht
  · next ht =>
    split
    · next hrest => exact .noDefault ht (List.isEmpty_iff.1 hrest)
    · next hrest => exact .default ht (mt List.isEmpty_iff.2 hrest) rfl rfl
  · next ht =>
    split
    · next hkey => exact .primaryKey ht hkey
    · next hkey => exact .primary ht (Bool.eq_false_iff.2 hkey)
  · next ht => exact .unique ht
  · next ht =>
    cases hkey : reference e rest with
    | error x => exact .noReference ht hkey
    | ok r => exact .references ht hkey
  · next ht =>
    split
    · exact .checkWord ht rfl
    · next g behind =>
      split
      · next hgroup =>
        cases hinside : g.inside with
        | error x => exact .noCheck ht rfl hgroup hinside
        | ok inside => exact .check ht rfl hgroup hinside
      · next hgroup => exact .checkWord ht (decide_eq_false hgroup)
  · next ht => exact .collate ht
  · next ht => exact .generated ht rfl
  · refine .other fun k hk hword => ?_
    unfold columnClauses at hk
    simp_all

variable {e : Entry} {c : Column} {t : Token} {rest : List Token}

/-- **A clause is read as its kind tells.** -/
theorem readClause_eq {r : Except TableError (Column × Nat)} (h : ClauseKind e c t rest r) :
    readClause e c t rest = r := by
  unfold readClause
  cases h with
  | constraint ht | null ht | unique ht | collate ht =>
    rw [ht]
    rfl
  | notNull ht h | primaryKey ht h =>
    rw [ht]
    exact if_pos h
  | not ht h | primary ht h =>
    rw [ht]
    exact if_neg (Bool.eq_false_iff.1 h)
  | default ht hrest hn hexpression =>
    rw [ht]
    dsimp only
    rw [if_neg (mt List.isEmpty_iff.1 hrest), hn, hexpression]
    rfl
  | noDefault ht hrest =>
    rw [ht]
    exact if_pos (List.isEmpty_iff.2 hrest)
  | references ht hkey | noReference ht hkey =>
    rw [ht]
    dsimp only
    rw [hkey]
    rfl
  | check ht hrest hgroup hinside | noCheck ht hrest hgroup hinside =>
    rw [ht, hrest]
    dsimp only
    rw [if_pos hgroup, hinside]
    rfl
  | checkWord ht hgroup =>
    rw [ht]
    cases rest with
    | nil => rfl
    | cons g behind => exact if_neg (of_decide_eq_false hgroup)
  | generated ht hn =>
    rw [ht, ← hn]
    rfl
  | other ht => split <;> first | rfl | exact absurd ‹_› (ht _ (by decide))

/-! ## §2. The list of a constraint. -/

/-- The group in front of a row of tokens. -/
def frontGroup? (ts : List Token) : Option Token := ts.head?.filter (·.kind = .group)

theorem frontGroup?_eq_some {ts : List Token} {g : Token} :
    frontGroup? ts = some g ↔ ts.head? = some g ∧ g.kind = .group := by
  unfold frontGroup?
  rw [Option.filter_eq_some_iff, decide_eq_true_eq]

theorem frontGroup?_cons (g : Token) (rest : List Token) :
    frontGroup? (g :: rest) = if g.kind = .group then some g else none := by
  unfold frontGroup?
  rw [List.head?_cons, Option.filter_some]
  by_cases hkind : g.kind = .group
  · rw [if_pos hkind, if_pos (decide_eq_true hkind)]
  · rw [if_neg hkind, if_neg (by simpa using hkind)]

/-- The group behind the word `KEY` that follows the first of a row of tokens. -/
def keyGroup? (ts : List Token) : Option Token :=
  if leads "KEY" ts.tail then frontGroup? (ts.drop 2) else none

theorem keyGroup?_cons {t k g : Token} {ts : List Token} (hk : k.isKeyword "KEY" = true)
    (hg : g.kind = .group) : keyGroup? (t :: k :: g :: ts) = some g :=
  (if_pos hk).trans (frontGroup?_eq_some.2 ⟨rfl, hg⟩)

/-- The row of a constraint of the table, without its name. -/
def Entry.constraint (e : Entry) : List Token :=
  if leads "CONSTRAINT" e.tokens then e.tokens.drop 2 else e.tokens

theorem Entry.constraint_subset (e : Entry) : e.constraint ⊆ e.tokens := by
  unfold Entry.constraint
  split
  · exact List.drop_subset _ _
  · exact List.Subset.refl _

/-- The first words of the constraints that name columns. -/
def keyWords : List String := ["PRIMARY", "UNIQUE", "FOREIGN"]

/-- The group in which a constraint that names columns lists them, the constraint being the row
`ts`. -/
def listGroup? (ts : List Token) : Option Token :=
  if leads "UNIQUE" ts then frontGroup? (ts.tail.dropWhile (·.kind ≠ .group)) else keyGroup? ts

theorem leads_of_leadingKeyword? {k : String} {ts : List Token} (h : leadingKeyword? ts = some k) :
    leads k ts = true := by
  cases ts with
  | nil => cases h
  | cons t ts => exact decide_eq_true h

theorem leadingKeyword?_of_leads {k : String} {ts : List Token} (h : leads k ts = true) :
    leadingKeyword? ts = some k := by
  cases ts with
  | nil => cases h
  | cons t ts => exact of_decide_eq_true h

theorem listGroup?_unique {ts : List Token} (h : leadingKeyword? ts = some "UNIQUE") :
    listGroup? ts = frontGroup? (ts.tail.dropWhile (·.kind ≠ .group)) :=
  if_pos (leads_of_leadingKeyword? h)

theorem listGroup?_key {ts : List Token} {k : String} (h : leadingKeyword? ts = some k)
    (hk : k ≠ "UNIQUE") : listGroup? ts = keyGroup? ts :=
  if_neg fun hleads => hk (Option.some.inj (h.symm.trans (leadingKeyword?_of_leads hleads)))

theorem listGroup?_kind {ts : List Token} {g : Token} (h : listGroup? ts = some g) :
    g.kind = .group := by
  unfold listGroup? keyGroup? at h
  split at h
  · exact (frontGroup?_eq_some.1 h).2
  · split at h
    · exact (frontGroup?_eq_some.1 h).2
    · cases h

theorem groupColumns?_eq (ts : List Token) :
    groupColumns? ts = (frontGroup? ts).map fun g => g.inside.map columnList := by
  cases ts with
  | nil => rfl
  | cons g rest =>
    rw [frontGroup?_cons]
    unfold groupColumns?
    dsimp only
    split
    · rfl
    · rfl

/-- The columns that the group behind `KEY` lists. -/
theorem keyColumns?_eq (ts : List Token) :
    (if leads "KEY" ts.tail then groupColumns? (ts.drop 2) else none)
      = (keyGroup? ts).map fun g => g.inside.map columnList := by
  unfold keyGroup?
  split
  · exact groupColumns?_eq _
  · rfl

/-! ## §3. The kinds of constraints. -/

/-- What a constraint makes of a single name; several names, or none, change nothing. -/
def ofSingle {α : Type} (a : α) (f : String → α) : List String → Except TableError α
  | [c] => pure (f c)
  | _ => pure a

/-- What comes of a list of names is there in any case: what was, or what a single name makes. -/
theorem ofSingle_cases {α : Type} (a : α) (f : String → α) (cs : List String) :
    ∃ d, ofSingle a f cs = .ok d ∧ (d = a ∨ ∃ c, d = f c) := by
  unfold ofSingle
  split
  · exact ⟨_, rfl, Or.inr ⟨_, rfl⟩⟩
  · exact ⟨_, rfl, Or.inl rfl⟩

/-- What a constraint that begins with the word `w` adds to `k`, its list being of the columns
`cs`. -/
def KeyClauses.listed (k : KeyClauses) (e : Entry) (cs : List String) (w : String) :
    Except TableError KeyClauses :=
  if w = "PRIMARY" then .ok { k with primaryKey := k.primaryKey ++ cs }
  else if w = "UNIQUE" then ofSingle k (fun c => { k with unique := k.unique ++ [c] }) cs
  else if leads "REFERENCES" (e.constraint.drop 3) then
    reference e (e.constraint.drop 4) >>= fun r =>
      ofSingle k (fun c => { k with foreignKeys := (c, r.1) :: k.foreignKeys }) cs
  else .error e.malformed

theorem listed_foreign (k : KeyClauses) (e : Entry) (cs : List String) :
    k.listed e cs "FOREIGN" = if leads "REFERENCES" (e.constraint.drop 3) then
        reference e (e.constraint.drop 4) >>= fun r =>
          ofSingle k (fun c => { k with foreignKeys := (c, r.1) :: k.foreignKeys }) cs
      else .error e.malformed := rfl

/-- A constraint that begins with another word adds nothing. -/
theorem add_other {k : KeyClauses} {e : Entry}
    (hw : ∀ w ∈ keyWords, leadingKeyword? e.constraint ≠ some w) : k.add e = .ok k := by
  unfold KeyClauses.add
  rw [show (if leads "CONSTRAINT" e.tokens then e.tokens.drop 2 else e.tokens) = e.constraint from rfl]
  dsimp only
  split <;> first | rfl | exact absurd ‹_› (hw _ (by decide))

/-- **A constraint that names columns adds what it says of those in its list**, if it has one. -/
theorem add_listed {k : KeyClauses} {e : Entry} {w : String}
    (hw : leadingKeyword? e.constraint = some w) (hkey : w ∈ keyWords) :
    k.add e = match listGroup? e.constraint with
      | some g => g.inside >>= fun inside => k.listed e (columnList inside) w
      | none => .ok k := by
  unfold KeyClauses.add
  rw [show (if leads "CONSTRAINT" e.tokens then e.tokens.drop 2 else e.tokens) = e.constraint from rfl]
  dsimp only
  rw [keyColumns?_eq, groupColumns?_eq, hw]
  rcases List.mem_cons.1 hkey with rfl | hkey
  · rw [listGroup?_key hw (by decide)]
    cases keyGroup? e.constraint with
    | none => rfl
    | some g => cases hinside : g.inside <;> simp only [Option.map_some, hinside] <;> rfl
  rcases List.mem_cons.1 hkey with rfl | hkey
  · rw [listGroup?_unique hw]
    cases frontGroup? (e.constraint.tail.dropWhile (·.kind ≠ .group)) with
    | none => rfl
    | some g => cases hinside : g.inside <;> simp only [Option.map_some, hinside] <;> rfl
  · obtain rfl := List.mem_singleton.1 hkey
    rw [listGroup?_key hw (by decide)]
    cases keyGroup? e.constraint with
    | none => rfl
    | some g => cases hinside : g.inside <;> simp only [Option.map_some, hinside] <;> rfl

/-- The kinds of constraints of the table: what is said of single columns, being `k` so far, with
what each says, or its fault. -/
inductive ConstraintKind (k : KeyClauses) (e : Entry) : Except TableError KeyClauses → Prop
  | other (hw : ∀ w ∈ keyWords, leadingKeyword? e.constraint ≠ some w) : ConstraintKind k e (.ok k)
  | noList {w : String} (hw : leadingKeyword? e.constraint = some w) (hkey : w ∈ keyWords)
      (hlist : listGroup? e.constraint = none) : ConstraintKind k e (.ok k)
  | broken {w : String} {g : Token} {x : TableError} (hw : leadingKeyword? e.constraint = some w)
      (hkey : w ∈ keyWords) (hlist : listGroup? e.constraint = some g)
      (hinside : g.inside = .error x) : ConstraintKind k e (.error x)
  | primaryKey {g : Token} {inside : List Char}
      (hw : leadingKeyword? e.constraint = some "PRIMARY")
      (hlist : listGroup? e.constraint = some g) (hinside : g.inside = .ok inside) :
      ConstraintKind k e (.ok { k with primaryKey := k.primaryKey ++ columnList inside })
  | unique {g : Token} {inside : List Char} (hw : leadingKeyword? e.constraint = some "UNIQUE")
      (hlist : listGroup? e.constraint = some g) (hinside : g.inside = .ok inside) :
      ConstraintKind k e
        (ofSingle k (fun c => { k with unique := k.unique ++ [c] }) (columnList inside))
  | foreignKey {g : Token} {inside : List Char} {key : ForeignKey} {n : Nat}
      (hw : leadingKeyword? e.constraint = some "FOREIGN")
      (hlist : listGroup? e.constraint = some g) (hinside : g.inside = .ok inside)
      (htarget : leads "REFERENCES" (e.constraint.drop 3) = true)
      (href : reference e (e.constraint.drop 4) = .ok (key, n)) :
      ConstraintKind k e (ofSingle k (fun c => { k with foreignKeys := (c, key) :: k.foreignKeys })
        (columnList inside))
  | noReference {g : Token} {inside : List Char} {x : TableError}
      (hw : leadingKeyword? e.constraint = some "FOREIGN")
      (hlist : listGroup? e.constraint = some g) (hinside : g.inside = .ok inside)
      (htarget : leads "REFERENCES" (e.constraint.drop 3) = true)
      (href : reference e (e.constraint.drop 4) = .error x) : ConstraintKind k e (.error x)
  | noTarget {g : Token} {inside : List Char} (hw : leadingKeyword? e.constraint = some "FOREIGN")
      (hlist : listGroup? e.constraint = some g) (hinside : g.inside = .ok inside)
      (htarget : leads "REFERENCES" (e.constraint.drop 3) = false) :
      ConstraintKind k e (.error e.malformed)

/-- **Whatever a constraint says, it says as one of these kinds.** -/
theorem constraintKind (k : KeyClauses) (e : Entry) : ConstraintKind k e (k.add e) := by
  by_cases hword : ∃ w ∈ keyWords, leadingKeyword? e.constraint = some w
  · obtain ⟨w, hkey, hw⟩ := hword
    rw [add_listed hw hkey]
    cases hlist : listGroup? e.constraint with
    | none => exact .noList hw hkey hlist
    | some g =>
      dsimp only
      cases hinside : g.inside with
      | error x => exact .broken hw hkey hlist hinside
      | ok inside =>
        -- the list is read, and the first word tells what it is for
        show ConstraintKind k e (k.listed e (columnList inside) w)
        rcases List.mem_cons.1 hkey with rfl | hkey
        · exact .primaryKey hw hlist hinside
        rcases List.mem_cons.1 hkey with rfl | hkey
        · exact .unique hw hlist hinside
        obtain rfl := List.mem_singleton.1 hkey
        rw [listed_foreign]
        cases htarget : leads "REFERENCES" (e.constraint.drop 3) with
        | false => exact .noTarget hw hlist hinside htarget
        | true =>
          rw [if_pos rfl]
          cases href : reference e (e.constraint.drop 4) with
          | error x => exact .noReference hw hlist hinside htarget href
          | ok r => exact .foreignKey hw hlist hinside htarget href
  · have hnone : ∀ w ∈ keyWords, leadingKeyword? e.constraint ≠ some w :=
      fun w hkey hw => hword ⟨w, hkey, hw⟩
    rw [add_other hnone]
    exact .other hnone

variable {k : KeyClauses}

/-- **A constraint says what its kind tells.** -/
theorem add_eq {r : Except TableError KeyClauses} (h : ConstraintKind k e r) : k.add e = r := by
  have hread : ∀ {w : String} {g : Token} {inside : List Char},
      leadingKeyword? e.constraint = some w → w ∈ keyWords → listGroup? e.constraint = some g →
      g.inside = .ok inside → k.add e = k.listed e (columnList inside) w := by
    intro w g inside hw hkey hlist hinside
    rw [add_listed hw hkey, hlist]
    dsimp only
    rw [hinside]
    rfl
  cases h with
  | other hw => exact add_other hw
  | noList hw hkey hlist => rw [add_listed hw hkey, hlist]
  | broken hw hkey hlist hinside =>
    rw [add_listed hw hkey, hlist]
    dsimp only
    rw [hinside]
    rfl
  | primaryKey hw hlist hinside | unique hw hlist hinside =>
    exact hread hw (by decide) hlist hinside
  | foreignKey hw hlist hinside htarget href | noReference hw hlist hinside htarget href =>
    rw [hread hw (by decide) hlist hinside, listed_foreign, if_pos htarget, href]
    rfl
  | noTarget hw hlist hinside htarget =>
    rw [hread hw (by decide) hlist hinside, listed_foreign, htarget]
    rfl

/-! ## §4. The columns of a table. -/

/-- Reads an entry as a column behind others. -/
def addColumn (k : KeyClauses) (before : List Column) (e : Entry) :
    Except TableError (List Column) := do
  let c ← e.column
  if before.any (·.name = c.name) then .error (.duplicateColumn c.name)
  else .ok (before ++ [k.apply c])

/-- **The columns are read one behind the other.** -/
theorem readColumns_foldlM (k : KeyClauses) (before : List Column) (es : List Entry) :
    readColumns k before es = es.foldlM (addColumn k) before := by
  induction es generalizing before with
  | nil => rfl
  | cons e es ih =>
    rw [readColumns, List.foldlM_cons, addColumn]
    cases e.column with
    | error x => rfl
    | ok c =>
      show (if _ then _ else _) = (if before.any (·.name = c.name) then _ else _) >>= _
      split
      · rfl
      · exact ih _

/-- A column is read behind columns of other names. -/
theorem addColumn_ok {before cs : List Column} (h : addColumn k before e = .ok cs) :
    ∃ c, e.column = .ok c ∧ c.name ∉ before.map (·.name) ∧ cs = before ++ [k.apply c] := by
  obtain ⟨c, hcolumn, h⟩ := bind_eq_ok.1 h
  split at h
  · cases h
  · next hnew =>
    refine ⟨c, hcolumn, fun hmem => hnew ?_, (Except.ok.inj h).symm⟩
    obtain ⟨d, hd, hname⟩ := List.mem_map.1 hmem
    exact List.any_eq_true.2 ⟨d, hd, decide_eq_true hname⟩

/-- **What every column keeps that is read behind columns of other names**, the columns of a table
have. -/
theorem readColumns_keeps {P : List Column → Prop} {es : List Entry}
    (hstep : ∀ e ∈ es, ∀ {before : List Column} {c : Column}, P before → e.column = .ok c →
      c.name ∉ before.map (·.name) → P (before ++ [k.apply c]))
    {before cs : List Column} (hbefore : P before) (h : readColumns k before es = .ok cs) : P cs := by
  rw [readColumns_foldlM] at h
  refine foldlM_keeps (fun e he {b b'} hb hadd => ?_) hbefore h
  obtain ⟨c, hcolumn, hnew, rfl⟩ := addColumn_ok hadd
  exact hstep e he hb hcolumn hnew

end SchemaDrift.Table
