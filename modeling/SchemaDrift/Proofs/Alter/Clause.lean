/-
  SchemaDrift.Proofs.Alter.Clause
  ───────────────────────────────
  **WHAT AN ALTERING STATEMENT ASKS OF THE COLUMNS OF ITS TABLE.**

  A database knows nothing of operations, only of texts.  `clause?` reads such a text,

      ALTER TABLE schema.table RENAME COLUMN a TO b ...        rename a b
                               ADD COLUMN a ...                add a
                               DROP COLUMN a ...               drop a
                               ALTER COLUMN a ...              alter a
                               ADD CONSTRAINT n ... (a, b)     constrain [a, b]
                               DROP CONSTRAINT ...             unconstrain

  and `execute` runs one after the other on the names of the columns.  A statement that
  names a column that is not there cannot be run.

  Each statement that is generated is read as it was meant (`clause?_…`), whatever
  characters its names are made of.
-/

import Mathlib.Logic.Function.Basic
import SchemaDrift.Alter.Operation
import SchemaDrift.Text.Keyword

namespace SchemaDrift.Alter

open SchemaDrift.Sql SchemaDrift.Text

/-! ## §1. Names. -/

/-- A character of a name written without quotes. -/
def isNameChar (c : Char) : Bool := c.isLower || c.isDigit || c == '_' || c == '$'

/-- Takes the rest of a name in double quotes off the front, up to a quote that stands
alone. -/
def quotedName? : List Char → Option (List Char × List Char)
  | [] => none
  | '"' :: '"' :: rest => (quotedName? rest).map fun (n, behind) => ('"' :: n, behind)
  | '"' :: rest => some ([], rest)
  | c :: rest => (quotedName? rest).map fun (n, behind) => (c :: n, behind)

/-- Takes a written name off the front. -/
def name? : List Char → Option (List Char × List Char)
  | '"' :: rest => quotedName? rest
  | s => if (s.takeWhile isNameChar).isEmpty then none
    else some (s.takeWhile isNameChar, s.dropWhile isNameChar)

/-- No name can go on with this text. -/
def EndsName (rest : List Char) : Prop := ∀ c ∈ rest.head?, isNameChar c = false ∧ c ≠ '"'

theorem endsName_cons {c : Char} {rest : List Char}
    (h : isNameChar c = false ∧ c ≠ '"') : EndsName (c :: rest) := by
  intro d hd
  cases hd
  exact h

theorem quotedName?_doubleQuotes (n rest : List Char) (h : EndsName rest) :
    quotedName? (doubleQuotes n ++ '"' :: rest) = some (n, rest) := by
  induction n with
  | nil =>
    cases rest with
    | nil => rfl
    | cons c rest =>
      obtain ⟨-, hc⟩ := h c rfl
      rw [doubleQuotes, List.nil_append, quotedName?]
      intro rest' he
      exact hc (List.cons.inj he).1
  | cons c n ih =>
    unfold doubleQuotes
    by_cases hc : c = '"'
    · subst hc
      rw [if_pos rfl, List.cons_append, List.cons_append, quotedName?, ih]
      rfl
    · rw [if_neg hc, List.cons_append, quotedName?, ih]
      · rfl
      · intro rest' he _
        exact hc he
      · exact hc

/-- **A written name is read back, whatever characters it is made of.** -/
theorem name?_quoteChars (n rest : List Char) (h : EndsName rest) :
    name? (quoteChars n ++ rest) = some (n, rest) := by
  unfold quoteChars
  by_cases hplain : isPlainIdent n = true
  · rw [if_pos hplain]
    cases n with
    | nil => simp [isPlainIdent] at hplain
    | cons c n =>
      -- a plain name is all name characters, so that it ends where the row of them does
      have hall : ∀ d ∈ c :: n, isNameChar d = true := by
        unfold isPlainIdent at hplain
        obtain ⟨hletters, -⟩ := Bool.and_eq_true_iff.1 hplain
        obtain ⟨hc, hrest⟩ := Bool.and_eq_true_iff.1 hletters
        intro d hd
        rcases List.mem_cons.1 hd with rfl | hd
        · unfold isNameChar
          rcases Bool.or_eq_true_iff.1 hc with h | h <;> simp [h]
        · exact List.all_eq_true.1 hrest d hd
      have hrest : rest.takeWhile isNameChar = [] ∧ rest.dropWhile isNameChar = rest := by
        cases rest with
        | nil => exact ⟨rfl, rfl⟩
        | cons d rest =>
          obtain ⟨hd, -⟩ := h d rfl
          simp [hd]
      have htake : ((c :: n) ++ rest).takeWhile isNameChar = c :: n := by
        rw [List.takeWhile_append_of_pos hall, hrest.1, List.append_nil]
      have hdrop : ((c :: n) ++ rest).dropWhile isNameChar = rest := by
        rw [List.dropWhile_append_of_pos hall, hrest.2]
      -- it begins with no quote, and so is not read as a quoted name
      have hquote : c ≠ '"' := by
        rintro rfl
        exact absurd (hall '"' List.mem_cons_self) (by decide)
      rw [List.cons_append] at htake hdrop ⊢
      unfold name?
      split
      · next he => exact absurd (List.cons.inj he).1 hquote
      · rw [htake, hdrop]
        rfl
  · rw [if_neg hplain]
    show quotedName? ((doubleQuotes n ++ ['"']) ++ rest) = _
    rw [List.append_assoc]
    exact quotedName?_doubleQuotes n rest h

/-- Takes names with commas between them off the front, up to the closing bracket; there
are at most `fuel` of them. -/
def names? : Nat → List Char → Option (List (List Char))
  | 0, _ => none
  | fuel + 1, s =>
    match name? s with
    | some (n, ')' :: _) => some [n]
    | some (n, ',' :: ' ' :: rest) => (names? fuel rest).map (n :: ·)
    | _ => none

theorem names?_intercalate (n : List Char) (ns : List (List Char)) (fuel : Nat)
    (rest : List Char) (h : ns.length ≤ fuel) :
    names? (fuel + 1) ([',', ' '].intercalate ((n :: ns).map quoteChars) ++ ')' :: rest)
      = some (n :: ns) := by
  induction ns generalizing n fuel with
  | nil =>
    rw [List.map_singleton, List.intercalate_singleton, names?,
      name?_quoteChars n _ (endsName_cons (by decide))]
    rfl
  | cons m ns ih =>
    obtain ⟨fuel, rfl⟩ := Nat.exists_eq_succ_of_ne_zero (Nat.ne_of_gt (Nat.lt_of_lt_of_le
      (Nat.succ_pos ns.length) h))
    have hnext := ih m fuel (Nat.le_of_succ_le_succ h)
    rw [List.map_cons, List.map_cons, List.intercalate_cons_cons, ← List.map_cons,
      List.append_assoc, List.append_assoc, List.cons_append, names?,
      name?_quoteChars n _ (endsName_cons (by decide))]
    show (names? _ (([',', ' '].intercalate _) ++ _)).map (n :: ·) = _
    rw [hnext]
    rfl

/-! ## §2. Clauses. -/

/-- What an altering statement asks of the columns of its table. -/
inductive Clause where
  | rename (source target : String)
  | add (column : String)
  | drop (column : String)
  | alter (column : String)
  /-- A constraint over columns that are listed; a condition lists none. -/
  | constrain (columns : List String)
  | unconstrain
  deriving Repr, DecidableEq

/-- Reads a constraint behind its name. -/
def constraint? (s : List Char) : Option Clause :=
  match literally? " CHECK (".toList s with
  | some _ => some (.constrain [])
  | none =>
    ([" PRIMARY KEY (", " UNIQUE (", " FOREIGN KEY ("].findSome? (literally? ·.toList s)).bind
      fun s => (names? (s.length + 1) s).map fun ns => .constrain (ns.map String.ofList)

/-- Reads what is done to a table. -/
def action? (s : List Char) : Option Clause :=
  if let some s := literally? "RENAME COLUMN ".toList s then
    (name? s).bind fun (source, s) =>
      (literally? " TO ".toList s).bind fun s =>
        (name? s).map fun (target, _) => .rename (String.ofList source) (String.ofList target)
  else if let some s := literally? "ADD COLUMN ".toList s then
    (name? s).map fun (column, _) => .add (String.ofList column)
  else if let some s := literally? "DROP COLUMN ".toList s then
    (name? s).map fun (column, _) => .drop (String.ofList column)
  else if let some s := literally? "ALTER COLUMN ".toList s then
    (name? s).map fun (column, _) => .alter (String.ofList column)
  else if let some s := literally? "ADD CONSTRAINT ".toList s then
    (name? s).bind fun (_, s) => constraint? s
  else (literally? "DROP CONSTRAINT ".toList s).map fun _ => .unconstrain

/-- Reads a statement that alters a table. -/
def clause? (sql : String) : Option Clause :=
  (literally? "ALTER TABLE ".toList sql.toList).bind fun s =>
    (name? s).bind fun (_, s) =>
      (literally? ".".toList s).bind fun s =>
        (name? s).bind fun (_, s) =>
          (literally? " ".toList s).bind action?

/-- Reads what a statement says behind the name of the table that it alters. -/
def altered? (sql : String) : Option (List Char) :=
  (literally? "ALTER TABLE ".toList sql.toList).bind fun s =>
    (name? s).bind fun (_, s) =>
      (literally? ".".toList s).bind fun s =>
        (name? s).bind fun (_, s) => literally? " ".toList s

/-- What is done to a table is read behind its name. -/
theorem clause?_eq (sql : String) : clause? sql = (altered? sql).bind action? := by
  unfold clause? altered?
  simp only [Option.bind_assoc]

/-! ## §3. Statements are read as they are meant. -/

theorem literally?_append (k rest : List Char) : literally? k (k ++ rest) = some rest := by
  induction k with
  | nil => rfl
  | cons c k ih => rw [List.cons_append, literally?, if_pos rfl, ih]

/-- A text in front of which a letter stands that is of no name. -/
theorem endsName_append {k : String} {rest : List Char}
    (h : ∃ c ∈ k.toList.head?, isNameChar c = false ∧ c ≠ '"') :
    EndsName (k.toList ++ rest) := by
  obtain ⟨c, hc, hend⟩ := h
  intro d hd
  rw [List.head?_append, hc] at hd
  cases hd
  exact hend

/-- Of a statement that alters a table, what is done to the table is read. -/
theorem altered?_alter (t : Target) (what : String) :
    altered? (t.alter what) = some (what.toList ++ ";".toList) := by
  have hdot : ∀ rest, EndsName (".".toList ++ rest) := fun _ => endsName_append ⟨'.', by decide⟩
  have hblank : ∀ rest, EndsName (" ".toList ++ rest) := fun _ => endsName_append ⟨' ', by decide⟩
  unfold altered? Target.alter Table.sqlName quoteIdent
  simp only [String.toList_append, String.toList_ofList, List.append_assoc, literally?_append,
    Option.bind_some, name?_quoteChars _ _ (hdot _), name?_quoteChars _ _ (hblank _)]

theorem clause?_alter (t : Target) (what : String) :
    clause? (t.alter what) = action? (what.toList ++ ";".toList) := by
  rw [clause?_eq, altered?_alter, Option.bind_some]

/-- A name that is written and read is the name. -/
theorem name?_quoteIdent (n : String) (rest : List Char) (h : EndsName rest) :
    name? ((quoteIdent n).toList ++ rest) = some (n.toList, rest) := by
  unfold quoteIdent
  rw [String.toList_ofList]
  exact name?_quoteChars _ _ h

theorem clause?_rename (t : Target) (a b : String) :
    clause? (t.alter ("RENAME COLUMN " ++ quoteIdent a ++ " TO " ++ quoteIdent b))
      = some (.rename a b) := by
  have hto : ∀ rest, EndsName (" TO ".toList ++ rest) := fun _ => endsName_append ⟨' ', by decide⟩
  have hend : EndsName ";".toList := endsName_cons (by decide)
  rw [clause?_alter]
  unfold action?
  simp only [String.toList_append, List.append_assoc, literally?_append, Option.bind_some,
    name?_quoteIdent _ _ (hto _), name?_quoteIdent _ _ hend, Option.map_some,
    String.ofList_toList]

theorem clause?_add (t : Target) (c : Column) :
    clause? (t.alter ("ADD COLUMN " ++ c.toSql)) = some (.add c.name) := by
  have hblank : ∀ rest, EndsName (" ".toList ++ rest) := fun _ => endsName_append ⟨' ', by decide⟩
  have hread : ∀ s, action? ("ADD COLUMN ".toList ++ s)
      = (name? s).map fun (n, _) => .add (String.ofList n) := fun _ => rfl
  rw [clause?_alter]
  unfold Column.toSql
  simp only [String.toList_append, List.append_assoc, hread, name?_quoteIdent _ _ (hblank _),
    Option.map_some, String.ofList_toList]

theorem clause?_drop (t : Target) (a : String) :
    clause? (t.alter ("DROP COLUMN " ++ quoteIdent a)) = some (.drop a) := by
  have hend : EndsName ";".toList := endsName_cons (by decide)
  have hread : ∀ s, action? ("DROP COLUMN ".toList ++ s)
      = (name? s).map fun (n, _) => .drop (String.ofList n) := fun _ => rfl
  rw [clause?_alter]
  simp only [String.toList_append, List.append_assoc, hread, name?_quoteIdent _ _ hend,
    Option.map_some, String.ofList_toList]

theorem clause?_alterColumn (t : Target) (a what : String) :
    clause? (t.alter ("ALTER COLUMN " ++ quoteIdent a ++ " " ++ what)) = some (.alter a) := by
  have hblank : ∀ rest, EndsName (" ".toList ++ rest) := fun _ => endsName_append ⟨' ', by decide⟩
  have hread : ∀ s, action? ("ALTER COLUMN ".toList ++ s)
      = (name? s).map fun (n, _) => .alter (String.ofList n) := fun _ => rfl
  rw [clause?_alter]
  simp only [String.toList_append, List.append_assoc, hread, name?_quoteIdent _ _ (hblank _),
    Option.map_some, String.ofList_toList]

theorem clause?_dropConstraint (t : Target) (n : String) :
    clause? (t.alter ("DROP CONSTRAINT IF EXISTS " ++ n)) = some .unconstrain := by
  rw [clause?_alter, String.toList_append, List.append_assoc]
  rfl

/-- Behind the name of a constraint its definition is read. -/
theorem clause?_addConstraint (t : Target) (n : String) (definition : String)
    (h : EndsName definition.toList) :
    clause? (t.alter ("ADD CONSTRAINT " ++ quoteIdent n ++ definition))
      = constraint? (definition.toList ++ ";".toList) := by
  have hread : ∀ s, action? ("ADD CONSTRAINT ".toList ++ s)
      = (name? s).bind fun (_, s) => constraint? s := fun _ => rfl
  have hend : EndsName (definition.toList ++ ";".toList) := by
    intro c hc
    rw [List.head?_append] at hc
    cases hd : definition.toList.head? with
    | none =>
      rw [hd] at hc
      cases hc
      decide
    | some d =>
      rw [hd] at hc
      cases hc
      exact h c hd
  rw [clause?_alter]
  simp only [String.toList_append, List.append_assoc, hread, name?_quoteIdent _ _ hend,
    Option.bind_some]

/-- Between the texts of a list stand at least as many characters as there are gaps. -/
theorem length_le_intercalate (sep : List Char) (c : Char) (x : List Char)
    (xs : List (List Char)) : xs.length ≤ ((sep ++ [c]).intercalate (x :: xs)).length := by
  induction xs generalizing x with
  | nil => exact Nat.zero_le _
  | cons y ys ih =>
    have hrest := ih y
    rw [List.intercalate_cons_cons]
    simp only [List.length_append, List.length_cons]
    omega

/-- The columns of a constraint that lists some. -/
theorem constraint?_columns {k : String}
    (hk : k ∈ [" PRIMARY KEY (", " UNIQUE (", " FOREIGN KEY ("]) (n : String) (ns : List String)
    (rest : List Char) :
    constraint? (k.toList
        ++ ((", ".intercalate ((n :: ns).map quoteIdent)).toList ++ ')' :: rest))
      = some (.constrain (n :: ns)) := by
  have hskip : ∀ s, constraint? (k.toList ++ s)
      = (names? (s.length + 1) s).map fun ns => .constrain (ns.map String.ofList) := by
    intro s
    simp only [List.mem_cons, List.not_mem_nil, or_false] at hk
    rcases hk with rfl | rfl | rfl <;> rfl
  have hlist : (", ".intercalate ((n :: ns).map quoteIdent)).toList
      = [',', ' '].intercalate ((n.toList :: ns.map String.toList).map quoteChars) := by
    rw [String.toList_intercalate, List.map_map, ← List.map_cons, List.map_map]
    congr 1
    refine List.map_congr_left fun a _ => ?_
    exact String.toList_ofList
  have hlength : (ns.map String.toList).length
      ≤ ((", ".intercalate ((n :: ns).map quoteIdent)).toList ++ ')' :: rest).length := by
    rw [hlist, List.length_append, List.map_cons]
    have hsep := length_le_intercalate [','] ' ' (quoteChars n.toList)
      ((ns.map String.toList).map quoteChars)
    rw [List.length_map] at hsep
    exact Nat.le_add_right_of_le hsep
  rw [hlist] at hlength ⊢
  rw [hskip, names?_intercalate _ _ _ _ hlength]
  simp [Function.comp_def]

theorem constraint?_check (e : String) (rest : List Char) :
    constraint? ((" CHECK (" ++ e ++ ")").toList ++ rest) = some (.constrain []) := by
  rw [String.toList_append, String.toList_append, List.append_assoc, List.append_assoc]
  rfl

/-! ## §4. Statements are run. -/

/-- The names of the columns of a table while it is altered. -/
abbrev Names := String → Bool

/-- The names of the columns of a table. -/
def namesOf (t : Table) : Names := fun name => t.columnNames.contains name

/-- What a clause does to the names; it asks for every column that it names. -/
def Clause.perform (names : Names) : Clause → Option Names
  | rename source target =>
    if names source then some (Function.update (Function.update names source false) target true)
    else none
  | add column => some (Function.update names column true)
  | drop column => if names column then some (Function.update names column false) else none
  | alter column => if names column then some names else none
  | constrain columns => if columns.all names then some names else none
  | unconstrain => some names

/-- Runs a statement. -/
def execute (names : Names) (sql : String) : Option Names :=
  (clause? sql).bind (Clause.perform names)

/-- Runs statements one behind the other. -/
def executeAll (names : Names) (sqls : List String) : Option Names := sqls.foldlM execute names

theorem executeAll_cons {names : Names} (sql : String) (sqls : List String) :
    executeAll names (sql :: sqls) = (execute names sql).bind fun mid => executeAll mid sqls := by
  unfold executeAll
  rw [List.foldlM_cons]
  rfl

theorem executeAll_append {names : Names} (xs ys : List String) :
    executeAll names (xs ++ ys) = (executeAll names xs).bind fun mid => executeAll mid ys := by
  unfold executeAll
  rw [List.foldlM_append]
  rfl

/-- Statements that leave the names as they are. -/
theorem executeAll_of_stays {names : Names} {sqls : List String}
    (h : ∀ sql ∈ sqls, execute names sql = some names) : executeAll names sqls = some names := by
  induction sqls with
  | nil => rfl
  | cons sql sqls ih =>
    rw [executeAll_cons, h sql List.mem_cons_self]
    exact ih fun s hs => h s (List.mem_cons_of_mem _ hs)

end SchemaDrift.Alter
