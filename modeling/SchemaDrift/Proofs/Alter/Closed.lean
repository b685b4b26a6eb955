/-
  SchemaDrift.Proofs.Alter.Closed
  ───────────────────────────────
  **EVERY STATEMENT OF A DIFFERENCE IS ONE CLOSED STATEMENT.**

  A statement of a difference is put together of words of the language, of names in their written
  form, and of types, expressions and actions as they are.  Each of these is a `Fragment`, in which
  nothing is left open, commented out or ended, and between two of them stands a character that ends
  any token, so that they are read in the statement as by themselves:

      Fragment.append      a fragment goes on with a text that begins with such a character
      fragment_quoteIdent  the written form of any name
      fragment_wording     what a statement says
      closed_worded        the statement
-/

import SchemaDrift.Proofs.Alter.Wording
import SchemaDrift.Proofs.Table.Names

namespace SchemaDrift

open SchemaDrift.Sql SchemaDrift.Text SchemaDrift.Table

/-! ## §1. Fragments. -/

/-- Nothing is open at the end of the text, and there is neither a comment nor the end of a
statement in it. -/
structure Fragment (s : String) : Prop where
  closed : unclosed? s.toList = none
  uncommented : ∀ g ∈ classify s.toList, g.cls ≠ .comment
  unended : ∀ g ∈ classify s.toList, g.isCode ';' = false

instance (s : String) : Decidable (Fragment s) :=
  decidable_of_iff (unclosed? s.toList = none ∧ (∀ g ∈ classify s.toList, g.cls ≠ .comment)
      ∧ ∀ g ∈ classify s.toList, g.isCode ';' = false)
    ⟨fun h => ⟨h.1, h.2.1, h.2.2⟩, fun h => ⟨h.closed, h.uncommented, h.unended⟩⟩

theorem Fragment.complete {s : String} (h : Fragment s) : Complete s.toList :=
  complete_of_closed h.closed h.uncommented

/-- The character ends any token and no statement. -/
def Parts (c : Char) : Prop := IsFirm c ∧ c ≠ ';'

instance (c : Char) : Decidable (Parts c) := inferInstanceAs (Decidable (IsFirm c ∧ c ≠ ';'))

/-- A fragment, and a character that ends its last token. -/
def Introduces (s : String) : Prop := ∃ p c, s = p ++ String.singleton c ∧ Fragment p ∧ Parts c

/-- A character that ends the token in front of it, and either no more or what introduces. -/
def Joins (s : String) : Prop :=
  ∃ c rest, s = String.singleton c ++ rest ∧ Parts c ∧ (rest = "" ∨ Introduces rest)

/-- A character that ends the token in front of it, and a fragment; or nothing. -/
def Continues (s : String) : Prop :=
  s = "" ∨ ∃ c rest, s = String.singleton c ++ rest ∧ Parts c ∧ Fragment rest

/-- **What is put together of fragments is one.** -/
theorem Fragment.append {a b : String} (ha : Fragment a) (hb : Continues b) :
    Fragment (a ++ b) := by
  rcases hb with rfl | ⟨c, rest, rfl, ⟨hfirm, hsemicolon⟩, hrest⟩
  · rwa [String.append_empty]
  have hsplit : (a ++ (String.singleton c ++ rest)).toList = a.toList ++ c :: rest.toList := by
    rw [String.toList_append, String.toList_append, String.toList_singleton, List.singleton_append]
  have hclassify := classify_join ha.complete hfirm rest.toList
  refine ⟨?_, ?_, ?_⟩
  · rw [hsplit]
    exact closed_of_complete (complete_join ha.complete hfirm hrest.complete)
  · rw [hsplit, hclassify, List.forall_mem_append, List.forall_mem_cons]
    exact ⟨ha.uncommented, nofun, hrest.uncommented⟩
  · rw [hsplit, hclassify, List.forall_mem_append, List.forall_mem_cons]
    refine ⟨ha.unended, ?_, hrest.unended⟩
    unfold Glyph.isCode
    simp [hsemicolon]

theorem Introduces.fragment {a b : String} (ha : Introduces a) (hb : Fragment b) :
    Fragment (a ++ b) := by
  obtain ⟨p, c, rfl, hp, hc⟩ := ha
  rw [String.append_assoc]
  exact hp.append (Or.inr ⟨c, b, rfl, hc, hb⟩)

theorem Joins.continues {a b : String} (ha : Joins a) (hb : Fragment b) : Continues (a ++ b) := by
  obtain ⟨c, rest, rfl, hc, rfl | hrest⟩ := ha
  · rw [String.append_empty]
    exact Or.inr ⟨c, b, rfl, hc, hb⟩
  · rw [String.append_assoc]
    exact Or.inr ⟨c, rest ++ b, rfl, hc, hrest.fragment hb⟩

theorem Continues.append {a b : String} (ha : Continues a) (hb : Continues b) :
    Continues (a ++ b) := by
  rcases ha with rfl | ⟨c, rest, rfl, hc, hrest⟩
  · rwa [String.empty_append]
  · rw [String.append_assoc]
    exact Or.inr ⟨c, rest ++ b, rfl, hc, hrest.append hb⟩

theorem continues_empty : Continues "" := Or.inl rfl

/-- The words of the language that statements are put together of. -/
def sqlWords : List String :=
  ["", "ADD COLUMN", "ADD CONSTRAINT", "ALTER COLUMN", "ALTER TABLE", "CHECK ", "DEFAULT", "DELETE",
    "DROP COLUMN", "DROP CONSTRAINT IF EXISTS", "DROP DEFAULT", "DROP NOT NULL", "FOREIGN KEY ",
    "NOT NULL", "ON", "PRIMARY KEY", "PRIMARY KEY ", "REFERENCES", "RENAME COLUMN", "SET DEFAULT",
    "SET NOT NULL", "TO", "TYPE", "UNIQUE", "UNIQUE ", "UPDATE", "USING"]

theorem fragment_words : ∀ w ∈ sqlWords, Fragment w := by decide +kernel

theorem fragment_empty : Fragment "" := fragment_words "" List.mem_cons_self

/-- The characters that stand between names, words and texts. -/
theorem parts_between : ∀ c ∈ [' ', '(', ')', ',', '.', ':'], Parts c := by
  have hall : [' ', '(', ')', ',', '.', ':'].all (decide <| Parts ·) = true := by decide +kernel
  exact fun c hc => of_decide_eq_true (List.all_eq_true.1 hall c hc)

/-- A word with a space behind it. -/
theorem introduces_word {s : String} (w : String) (h : s = w ++ " ")
    (hw : w ∈ sqlWords := by simp [sqlWords]) : Introduces s :=
  ⟨w, ' ', h, fragment_words w hw, parts_between ' ' (by decide)⟩

/-- A word with a parenthesis behind it. -/
theorem introduces_group {s : String} (w : String) (h : s = w ++ "(")
    (hw : w ∈ sqlWords := by simp [sqlWords]) : Introduces s :=
  ⟨w, '(', h, fragment_words w hw, parts_between '(' (by decide)⟩

/-- What introduces, behind a space. -/
theorem joins_words {s rest : String} (h : s = " " ++ rest) (hrest : Introduces rest) : Joins s :=
  ⟨' ', rest, h, parts_between ' ' (by decide), Or.inr hrest⟩

theorem joins_space : Joins " " := ⟨' ', "", rfl, parts_between ' ' (by decide), Or.inl rfl⟩

/-- A word behind a space. -/
theorem continues_word {s : String} (w : String) (h : s = " " ++ w)
    (hw : w ∈ sqlWords := by simp [sqlWords]) : Continues s :=
  Or.inr ⟨' ', w, h, parts_between ' ' (by decide), fragment_words w hw⟩

theorem continues_close : Continues ")" :=
  Or.inr ⟨')', "", rfl, parts_between ')' (by decide), fragment_empty⟩

/-! ## §2. Names, references and columns. -/

/-- **The written form of any name is a fragment.** -/
theorem fragment_quoteIdent (n : String) : Fragment (quoteIdent n) := by
  obtain ⟨hcomplete, hsolid⟩ := solid_quoteChars n.toList
  unfold quoteIdent
  refine ⟨?_, ?_, ?_⟩ <;> rw [String.toList_ofList]
  · exact closed_of_complete hcomplete
  · intro g hg
    rcases hsolid g hg with h | ⟨h, -⟩ <;> rw [h] <;> decide
  · exact fun g hg => (hsolid g hg).not_isCode (by decide +kernel)

theorem fragment_qualified (s n : String) :
    Fragment (quoteIdent s ++ "." ++ quoteIdent n) := by
  rw [String.append_assoc]
  have hdot : Joins "." := ⟨'.', "", rfl, parts_between '.' (by decide), Or.inl rfl⟩
  exact (fragment_quoteIdent s).append (hdot.continues (fragment_quoteIdent n))

/-- A name in parentheses. -/
theorem continues_group {s : String} (h : Joins s) (n : String) :
    Continues (s ++ quoteIdent n ++ ")") := by
  rw [String.append_assoc]
  exact h.continues ((fragment_quoteIdent n).append continues_close)

/-- The texts of the column are fragments. -/
structure Column.TextsClosed (c : Column) : Prop where
  type : Fragment c.dataType
  default : ∀ e, c.defaultExpr = some e → Fragment e
  check : ∀ e, c.checkExpr = some e → Fragment e
  actions : ∀ k, c.foreignKey = some k →
    ∀ a, k.onDelete = some a ∨ k.onUpdate = some a → Fragment a

/-- An action of a reference. -/
theorem continues_action {event a : String} (hevent : event ∈ sqlWords) (ha : Fragment a) :
    Continues (" ON " ++ (event ++ (" " ++ a))) := by
  have hon : Joins " ON " := joins_words rfl (introduces_word "ON" rfl)
  exact hon.continues ((fragment_words event hevent).append (joins_space.continues ha))

theorem fragment_reference {k : ForeignKey}
    (h : ∀ a, k.onDelete = some a ∨ k.onUpdate = some a → Fragment a) : Fragment k.toSql := by
  have hreferences : Introduces "REFERENCES " := introduces_word "REFERENCES" rfl
  unfold ForeignKey.toSql
  simp only [String.append_assoc]
  refine hreferences.fragment (Fragment.append ?_ (Continues.append ?_ (Continues.append ?_ ?_)))
  · split
    · rw [← String.append_assoc]
      exact fragment_qualified _ _
    · exact fragment_quoteIdent _
  · split
    · rw [← String.append_assoc]
      exact continues_group (joins_words rfl (introduces_group "" rfl)) _
    · exact continues_empty
  · split
    · next a ha => exact continues_action (by simp [sqlWords]) (h a (Or.inl ha))
    · exact continues_empty
  · split
    · next a ha => exact continues_action (by simp [sqlWords]) (h a (Or.inr ha))
    · exact continues_empty

/-- The definition of a column. -/
theorem fragment_column {c : Column} (h : c.TextsClosed) : Fragment c.toSql := by
  unfold Column.toSql
  simp only [String.append_assoc]
  refine (fragment_quoteIdent c.name).append (joins_space.continues (h.type.append
    (Continues.append ?_ (Continues.append ?_ (Continues.append ?_ (Continues.append ?_ ?_))))))
  · split
    · exact continues_empty
    · exact continues_word "NOT NULL" rfl
  · split
    · next e he =>
      have hdefault : Joins " DEFAULT " :=
        joins_words rfl (introduces_word "DEFAULT" rfl)
      exact hdefault.continues (h.default e he)
    · exact continues_empty
  · split
    · exact continues_word "PRIMARY KEY" rfl
    · split
      · exact continues_word "UNIQUE" rfl
      · exact continues_empty
  · split
    · next k hk => exact joins_space.continues (fragment_reference (h.actions k hk))
    · exact continues_empty
  · split
    · next e he =>
      have hcheck : Joins " CHECK (" :=
        joins_words rfl (introduces_group "CHECK " rfl)
      exact hcheck.continues ((h.check e he).append continues_close)
    · exact continues_empty

/-! ## §3. Statements. -/

namespace Alter

/-- Names with commas between them. -/
theorem fragment_names (l : List String) : Fragment (", ".intercalate (l.map quoteIdent)) := by
  have hcomma : Joins ", " :=
    ⟨',', " ", rfl, parts_between ',' (by decide), Or.inr (introduces_word "" rfl)⟩
  induction l with
  | nil => exact fragment_empty
  | cons n l ih =>
    cases l with
    | nil =>
      rw [List.map_singleton, String.intercalate_singleton]
      exact fragment_quoteIdent n
    | cons m l =>
      rw [List.map_cons, List.map_cons, String.intercalate_cons_cons, String.append_assoc]
      exact (fragment_quoteIdent n).append (hcomma.continues ih)

theorem fragment_definition {c : Column} (h : c.TextsClosed) {definition : String}
    (hd : Definition c definition) : Fragment definition := by
  cases hd with
  | unique =>
    have hunique : Introduces "UNIQUE (" := introduces_group "UNIQUE " rfl
    rw [String.append_assoc]
    exact hunique.fragment ((fragment_quoteIdent c.name).append continues_close)
  | foreignKey k hk =>
    have hforeign : Introduces "FOREIGN KEY (" :=
      introduces_group "FOREIGN KEY " rfl
    have hclose : Joins ") " :=
      ⟨')', " ", rfl, parts_between ')' (by decide), Or.inr (introduces_word "" rfl)⟩
    rw [String.append_assoc, String.append_assoc]
    exact hforeign.fragment ((fragment_quoteIdent c.name).append
      (hclose.continues (fragment_reference (h.actions k hk))))
  | check e he =>
    have hcheck : Introduces "CHECK (" := introduces_group "CHECK " rfl
    rw [String.append_assoc]
    exact hcheck.fragment ((h.check e he).append continues_close)

theorem fragment_inPlace {c : Column} (h : c.TextsClosed) {action : String}
    (ha : InPlace c action) : Fragment action := by
  cases ha with
  | type =>
    have htype : Introduces "TYPE " := introduces_word "TYPE" rfl
    have husing : Joins " USING " :=
      joins_words rfl (introduces_word "USING" rfl)
    have hcast : Joins "::" :=
      ⟨':', ":", rfl, parts_between ':' (by decide),
        Or.inr ⟨"", ':', rfl, fragment_empty, parts_between ':' (by decide)⟩⟩
    simp only [String.append_assoc]
    exact htype.fragment (h.type.append (husing.continues
      ((fragment_quoteIdent c.name).append (hcast.continues h.type))))
  | nullability action haction =>
    refine fragment_words action ?_
    rcases List.mem_pair.1 haction with rfl | rfl <;> simp [sqlWords]
  | setDefault e he =>
    have hdefault : Introduces "SET DEFAULT " := introduces_word "SET DEFAULT" rfl
    exact hdefault.fragment (h.default e he)
  | dropDefault => exact fragment_words _ (by simp [sqlWords])

variable {old new : Table}

/-- **What a statement of a difference says is a fragment.** -/
theorem fragment_wording (htexts : ∀ c ∈ new.columns, c.TextsClosed) {t : Target} {what : String}
    (h : Wording old new t what) : Fragment what := by
  have hadd : Introduces "ADD CONSTRAINT " := introduces_word "ADD CONSTRAINT" rfl
  have hdrop : Introduces "DROP CONSTRAINT IF EXISTS " :=
    introduces_word "DROP CONSTRAINT IF EXISTS" rfl
  have hcolumn : Introduces "ADD COLUMN " := introduces_word "ADD COLUMN" rfl
  -- fixed words bring in fragments, and every name or text of a column is one
  cases h with
  | @rename a b ha hb =>
    have hrename : Introduces "RENAME COLUMN " := introduces_word "RENAME COLUMN" rfl
    have hto : Joins " TO " := joins_words rfl (introduces_word "TO" rfl)
    simp only [String.append_assoc]
    exact hrename.fragment ((fragment_quoteIdent a.name).append
      (hto.continues (fragment_quoteIdent b.name)))
  | dropKey => exact hdrop.fragment (fragment_quoteIdent _)
  | dropConstraint ha suffix hsuffix => exact hdrop.fragment (fragment_quoteIdent _)
  | @inPlace c hc action haction =>
    have halter : Introduces "ALTER COLUMN " := introduces_word "ALTER COLUMN" rfl
    simp only [String.append_assoc]
    exact halter.fragment ((fragment_quoteIdent c.name).append
      (joins_space.continues (fragment_inPlace (htexts c hc) haction)))
  | @addConstraint c hc suffix hsuffix definition hd =>
    simp only [String.append_assoc]
    exact hadd.fragment ((fragment_quoteIdent _).append
      (joins_space.continues (fragment_definition (htexts c hc) hd)))
  | @add c hc => exact hcolumn.fragment (fragment_column (htexts c hc))
  | @addWithoutKey c hc =>
    have h := htexts c hc
    exact hcolumn.fragment (fragment_column (c := c.withoutPrimaryKey)
      ⟨h.type, h.default, h.check, h.actions⟩)
  | @drop c hc =>
    have hdropped : Introduces "DROP COLUMN " := introduces_word "DROP COLUMN" rfl
    exact hdropped.fragment (fragment_quoteIdent c.name)
  | addKey =>
    have hkey : Joins " PRIMARY KEY (" :=
      joins_words rfl (introduces_group "PRIMARY KEY " rfl)
    simp only [String.append_assoc]
    exact hadd.fragment ((fragment_quoteIdent _).append
      (hkey.continues ((fragment_names _).append continues_close)))

/-- The statement is closed, without a comment, and ends with the only semicolon in it. -/
structure ClosedStatement (sql : String) : Prop where
  closed : unclosed? sql.toList = none
  uncommented : ∀ g ∈ classify sql.toList, g.cls ≠ .comment
  ended : ∃ front, classify sql.toList = front ++ [⟨';', .code⟩] ∧ ∀ g ∈ front, g.isCode ';' = false

/-- A fragment with a semicolon behind it. -/
theorem closedStatement_of_fragment {s : String} (h : Fragment s) : ClosedStatement (s ++ ";") := by
  have hsplit : (s ++ ";").toList = s.toList ++ [';'] := String.toList_append
  obtain ⟨hclassify, -⟩ := settled_semicolon h.complete
  refine ⟨?_, ?_, classify s.toList, ?_, h.unended⟩ <;> rw [hsplit]
  · exact closed_of_complete (complete_join h.complete (by decide +kernel) fragment_empty.complete)
  · rw [hclassify, List.forall_mem_append]
    exact ⟨h.uncommented, by decide⟩
  · exact hclassify

/-- A closed statement is one piece. -/
theorem ClosedStatement.pieces {sql : String} (h : ClosedStatement sql) :
    Sql.pieces sql.toList = [sql.toList] := by
  obtain ⟨front, hfront, hnone⟩ := h.ended
  unfold Sql.pieces
  rw [hfront, splitAfter_first hnone rfl]
  show [List.map Glyph.char (front ++ [⟨';', .code⟩])] = [sql.toList]
  rw [← hfront, classify_map_char]

/-- The statements that alter a table. -/
theorem closed_worded (htexts : ∀ c ∈ new.columns, c.TextsClosed) {t : Target} {sql : String}
    (h : Worded old new t sql) : ClosedStatement sql := by
  obtain ⟨what, hwhat, rfl⟩ := h
  have halter : Introduces "ALTER TABLE " := introduces_word "ALTER TABLE" rfl
  have hbody : Fragment ("ALTER TABLE " ++ t.table.sqlName ++ " " ++ what) := by
    rw [String.append_assoc, String.append_assoc]
    exact halter.fragment ((fragment_qualified t.table.schema t.table.name).append
      (joins_space.continues (fragment_wording htexts hwhat)))
  exact closedStatement_of_fragment hbody

/-- **Every statement of a difference is one closed statement**, whatever the names of the tables,
their columns and what these refer to. -/
theorem diff_closed (htexts : ∀ c ∈ new.columns, c.TextsClosed) :
    ∀ o ∈ diff old new, ∀ sql ∈ o.sql, ClosedStatement sql ∧ Sql.pieces sql.toList = [sql.toList] := by
  intro o ho sql hsql
  have hclosed := closed_worded htexts (worded_diff ho hsql)
  exact ⟨hclosed, hclosed.pieces⟩

/-- Names that look like the end of a statement, a comment and a quote stay names. -/
theorem diff_closed_names :
    let sql := "ALTER TABLE public.\"x\"\"; DROP TABLE y; --\" ADD COLUMN \"a'/*\n$$\" TEXT DEFAULT ';';"
    let name := "x\"; DROP TABLE y; --"
    let c : Column := { name := "a'/*\n$$", dataType := "TEXT", defaultExpr := some "';'" }
    sql ∈ (diff ⟨"public", name, []⟩ ⟨"public", name, [c]⟩).flatMap (·.sql)
      ∧ ClosedStatement sql := by
  intro sql name c
  have htexts : ∀ d ∈ (Table.mk "public" name [c]).columns, d.TextsClosed := by
    intro d hd
    rw [List.mem_singleton.1 hd]
    refine ⟨by decide +kernel, fun e he => ?_, nofun, nofun⟩
    rw [← Option.some.inj he]
    decide +kernel
  have hmem : sql ∈ (diff ⟨"public", name, []⟩ ⟨"public", name, [c]⟩).flatMap (·.sql) := by
    have hnone : renames ⟨"public", name, []⟩ ⟨"public", name, [c]⟩ = [] := by
      unfold renames Rename.matching
      rw [List.mergeSort_of_pairwise (by decide +kernel)]
      rfl
    unfold diff steps keyChanges renamedKey
    rw [hnone]
    decide +kernel
  obtain ⟨o, ho, hsql⟩ := List.mem_flatMap.1 hmem
  exact ⟨hmem, (diff_closed htexts o ho sql hsql).1⟩

end Alter

end SchemaDrift
