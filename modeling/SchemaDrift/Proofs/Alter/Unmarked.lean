/-
  SchemaDrift.Proofs.Alter.Unmarked
  ─────────────────────────────────
  **THE STATEMENTS OF A DIFFERENCE MAKE NO MARKER LINE.**

  A statement of a difference is put together of names, which are of one line, of texts of
  columns, in which no marker begins, and of words that break whatever line they are put
  behind.  So no marker begins in the statement (`markerFree_worded`).
-/

import SchemaDrift.Proofs.Alter.Wording
import SchemaDrift.Proofs.Table.Columns

namespace SchemaDrift

open SchemaDrift.Sql SchemaDrift.Text

/-! ## §1. Names of one line. -/

/-- The names that the reference mentions are of one line each. -/
structure ForeignKey.NamesInline (k : ForeignKey) : Prop where
  schema : ∀ s, k.schema = some s → Inline s
  table : Inline k.table
  column : ∀ c, k.column = some c → Inline c

/-- The names of the table and its columns, and those they refer to, are of one line each. -/
structure Table.NamesInline (t : Table) : Prop where
  schema : Inline t.schema
  name : Inline t.name
  columns : ∀ c ∈ t.columns, Inline c.name
  references : ∀ c ∈ t.columns, ∀ k, c.foreignKey = some k → k.NamesInline

/-- The written form of a name of one line is of one line. -/
theorem inline_quoteIdent {n : String} (h : Inline n) : Inline (quoteIdent n) := by
  have hdouble : ∀ s : List Char, '\n' ∉ s → '\n' ∉ doubleQuotes s := by
    intro s
    induction s with
    | nil => exact fun h => h
    | cons c s ih =>
      intro h
      rw [List.mem_cons, not_or] at h
      have ih := ih h.2
      unfold doubleQuotes
      split
      · simp [ih]
      · simp [ih, h.1]
  unfold quoteIdent Inline quoteChars
  rw [String.toList_ofList]
  split
  · exact h
  · simp [hdouble n.toList h]

theorem inline_sqlName {t : Table} (hs : Inline t.schema) (hn : Inline t.name) :
    Inline t.sqlName := by
  unfold Table.sqlName
  exact inline_append.2 ⟨inline_append.2 ⟨inline_quoteIdent hs, by decide⟩, inline_quoteIdent hn⟩

/-- A reference is of one line if its names and actions are. -/
theorem inline_reference {k : ForeignKey} (hn : k.NamesInline) (ha : k.ActionsInline) :
    Inline k.toSql := by
  unfold ForeignKey.toSql
  simp only [inline_append]
  refine ⟨⟨⟨⟨by decide, ?_⟩, ?_⟩, ?_⟩, ?_⟩
  · split
    · next schema h =>
      simp only [inline_append]
      exact ⟨⟨inline_quoteIdent (hn.schema schema h), by decide⟩, inline_quoteIdent hn.table⟩
    · exact inline_quoteIdent hn.table
  · split
    · next c h =>
      simp only [inline_append]
      exact ⟨⟨by decide, inline_quoteIdent (hn.column c h)⟩, by decide⟩
    · decide
  · split
    · next a h =>
      simp only [inline_append]
      exact ⟨by decide, ha a (Or.inl h)⟩
    · decide
  · split
    · next a h =>
      simp only [inline_append]
      exact ⟨by decide, ha a (Or.inr h)⟩
    · decide

/-- The names that an operation mentions are of one line each. -/
def Alter.Operation.NamesInline (o : Alter.Operation) : Prop :=
  match o.kind with
  | .add column | .drop column | .modify column _ => Inline column
  | .rename source target _ _ => Inline source ∧ Inline target

/-- The operations of a difference mention names of columns. -/
theorem namesInline_diff {old new : Table} (hold : old.NamesInline) (hnew : new.NamesInline)
    {o : Alter.Operation} (ho : o ∈ Alter.diff old new) : o.NamesInline := by
  obtain ⟨d, s, hsteps, hkind, -⟩ := Alter.mem_diff ho
  have hs := Alter.step_within hsteps
  unfold Alter.Operation.NamesInline
  rw [hkind]
  cases s with
  | rename a b p => exact ⟨hold.columns a hs.1, hnew.columns b hs.2⟩
  | modify a b renamed => exact hnew.columns b hs.2
  | add c => exact hnew.columns c hs
  | drop c => exact hold.columns c hs

/-! ## §2. Columns. -/

/-- The definition of a column makes no marker. -/
theorem markerFree_toSql {c : Column} (hname : Inline c.name)
    (hrefs : ∀ k, c.foreignKey = some k → k.NamesInline) (hc : c.TextsUnmarked) :
    MarkerFree c.toSql := by
  have htype : MarkerFree (quoteIdent c.name ++ " " ++ c.dataType) :=
    markerFree_behind (inline_append.2 ⟨inline_quoteIdent hname, by decide⟩) hc.type
  have hclosing : Part ")" :=
    part_of_inline (breaks_cons (by decide) (by decide) (by decide) (by decide) []) (by decide)
  unfold Column.toSql
  -- each clause is a part of its own: empty, a word, or a word with a text behind it
  refine markerFree_append (markerFree_append (markerFree_append (markerFree_append
    (markerFree_append htype ?_) ?_) ?_) ?_) ?_
  · split
    · exact part_empty
    · exact part_word ⟨'N', _, rfl, by decide⟩ (by decide)
  · split
    · next e he => exact part_spaced ⟨'D', _, rfl, by decide⟩ (by decide) (hc.default e he)
    · exact part_empty
  · split
    · exact part_word ⟨'P', _, rfl, by decide⟩ (by decide)
    · split
      · exact part_word ⟨'U', _, rfl, by decide⟩ (by decide)
      · exact part_empty
  · split
    · next k hk =>
      have hinline := inline_reference (hrefs k hk) (hc.reference k hk)
      refine part_of_inline ?_ (inline_append.2 ⟨by decide, hinline⟩)
      unfold ForeignKey.toSql
      simp only [String.toList_append, List.append_assoc]
      exact breaks_space (c := 'R') (by decide) (by decide) _
    · exact part_empty
  · split
    · next e he =>
      rw [String.append_assoc]
      exact part_spaced ⟨'C', _, rfl, by decide⟩ (by decide)
        (markerFree_append (hc.check e he) hclosing)
    · exact part_empty

/-! ## §3. Statements. -/

variable {old new : Table}

/-- What a statement of a difference says makes no marker. -/
theorem markerFree_wording (hold : old.NamesInline) (hnew : new.NamesInline)
    (htexts : ∀ c ∈ new.columns, c.TextsUnmarked) {rebuilds : Bool} {what : String}
    (h : Alter.Wording old new ⟨new, rebuilds⟩ what) : MarkerFree what := by
  have hquote : ∀ {t : Table} {c : Column}, t.NamesInline → c ∈ t.columns →
      Inline (quoteIdent c.name) := fun ht hc => inline_quoteIdent (ht.columns _ hc)
  have hconstraint : ∀ {column suffix : String}, Inline column → suffix ∈ ["key", "fkey", "check"] →
      Inline (Alter.Target.constraintName ⟨new, rebuilds⟩ column suffix) := by
    intro column suffix hcolumn hsuffix
    have hinline : ∀ s ∈ ["key", "fkey", "check"], Inline s := by decide
    unfold Alter.Target.constraintName
    refine inline_quoteIdent ?_
    simp only [inline_append]
    exact ⟨⟨⟨⟨hnew.name, by decide⟩, hcolumn⟩, by decide⟩, hinline suffix hsuffix⟩
  have hkey : Inline (Alter.Target.keyName ⟨new, rebuilds⟩) :=
    inline_quoteIdent (inline_append.2 ⟨hnew.name, by decide⟩)
  have hclosing : Part ")" :=
    part_of_inline (breaks_cons (by decide) (by decide) (by decide) (by decide) []) (by decide)
  -- names stand on one line each, so that only the texts of a column can break a line
  cases h with
  | rename ha hb =>
    refine markerFree_of_inline ?_
    simp only [inline_append]
    exact ⟨⟨⟨by decide, hquote hold ha⟩, by decide⟩, hquote hnew hb⟩
  | dropKey => exact markerFree_of_inline (inline_append.2 ⟨by decide, hkey⟩)
  | dropConstraint ha suffix hsuffix =>
    have hname := hconstraint (hold.columns _ ha) hsuffix
    exact markerFree_of_inline (inline_append.2 ⟨by decide, hname⟩)
  | @inPlace c hc action h =>
    have hfront : Inline ("ALTER COLUMN " ++ quoteIdent c.name ++ " ") := by
      simp only [inline_append]
      exact ⟨⟨by decide, hquote hnew hc⟩, by decide⟩
    refine markerFree_behind hfront ?_
    cases h with
    | type =>
      have husing : IsSpaced " USING " := ⟨'U', _, rfl, by decide⟩
      have hspaced : IsSpaced (" USING " ++ quoteIdent c.name ++ "::") :=
        (husing.append _).append _
      have hinline : Inline (" USING " ++ quoteIdent c.name ++ "::") := by
        simp only [inline_append]
        exact ⟨⟨by decide, hquote hnew hc⟩, by decide⟩
      have htype : MarkerFree c.dataType := (htexts c hc).type
      have h := markerFree_append (markerFree_behind (a := "TYPE ") (by decide) htype)
        (part_spaced hspaced hinline htype)
      simp only [String.append_assoc] at h ⊢
      exact h
    | nullability action haction =>
      have hinline : ∀ s ∈ ["DROP NOT NULL", "SET NOT NULL"], Inline s := by decide
      exact markerFree_of_inline (hinline _ haction)
    | setDefault e he => exact markerFree_behind (by decide) ((htexts c hc).default e he)
    | dropDefault => exact markerFree_of_inline (by decide)
  | @addConstraint c hc suffix hsuffix definition hd =>
    have hfront : Inline ("ADD CONSTRAINT "
        ++ Alter.Target.constraintName ⟨new, rebuilds⟩ c.name suffix ++ " ") := by
      simp only [inline_append]
      exact ⟨⟨by decide, hconstraint (hnew.columns _ hc) hsuffix⟩, by decide⟩
    refine markerFree_behind hfront ?_
    cases hd with
    | unique =>
      refine markerFree_of_inline ?_
      simp only [inline_append]
      exact ⟨⟨by decide, hquote hnew hc⟩, by decide⟩
    | foreignKey k hk =>
      refine markerFree_of_inline ?_
      simp only [inline_append]
      exact ⟨⟨⟨by decide, hquote hnew hc⟩, by decide⟩,
        inline_reference (hnew.references c hc k hk) ((htexts c hc).reference k hk)⟩
    | check e he =>
      rw [String.append_assoc]
      exact markerFree_behind (by decide) (markerFree_append ((htexts c hc).check e he) hclosing)
  | @add c hc =>
    exact markerFree_behind (by decide)
      (markerFree_toSql (hnew.columns c hc) (hnew.references c hc) (htexts c hc))
  | @addWithoutKey c hc =>
    have ht := htexts c hc
    exact markerFree_behind (by decide) (markerFree_toSql (c := c.withoutPrimaryKey)
      (hnew.columns c hc) (hnew.references c hc) ⟨ht.type, ht.default, ht.check, ht.reference⟩)
  | drop hc => exact markerFree_of_inline (inline_append.2 ⟨by decide, hquote hold hc⟩)
  | addKey =>
    refine markerFree_of_inline ?_
    simp only [inline_append]
    refine ⟨⟨⟨⟨by decide, hkey⟩, by decide⟩, inline_intercalate (by decide) ?_⟩, by decide⟩
    intro s hs
    obtain ⟨n, hn, rfl⟩ := List.mem_map.1 hs
    obtain ⟨c, hc, rfl⟩ := List.mem_map.1 hn
    exact hquote hnew (List.mem_filter.1 hc).1

/-- **The statements of a difference make no marker**, and neither are they one. -/
theorem markerFree_worded (hold : old.NamesInline) (hnew : new.NamesInline)
    (htexts : ∀ c ∈ new.columns, c.TextsUnmarked) {rebuilds : Bool} {sql : String}
    (h : Alter.Worded old new ⟨new, rebuilds⟩ sql) :
    MarkerFree sql ∧ ∃ rest, sql.toList = 'A' :: rest := by
  obtain ⟨what, hwhat, rfl⟩ := h
  have hsemicolon : Part ";" :=
    part_of_inline (breaks_cons (by decide) (by decide) (by decide) (by decide) []) (by decide)
  have hfront : Inline ("ALTER TABLE " ++ new.sqlName ++ " ") := by
    simp only [inline_append]
    exact ⟨⟨by decide, inline_sqlName hnew.schema hnew.name⟩, by decide⟩
  refine ⟨?_, ?_⟩
  · exact markerFree_append
      (markerFree_behind hfront (markerFree_wording hold hnew htexts hwhat)) hsemicolon
  · unfold Alter.Target.alter
    simp only [String.toList_append, List.append_assoc]
    exact ⟨_, rfl⟩

end SchemaDrift
