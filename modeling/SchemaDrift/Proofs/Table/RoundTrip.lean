/-
  SchemaDrift.Proofs.Table.RoundTrip
  ──────────────────────────────────
  **A COLUMN IS READ BACK FROM ITS DEFINITION.**

  The definition of a column is a row of parts: the name, the type, and those of the
  clauses (`toSql_eq`).  As the body of a table it is a single entry, which is a column and
  no constraint, and what is read of it is the column again (`parse_toSql`), whatever
  characters its names are made of.
-/

import SchemaDrift.Proofs.Table.Clauses

namespace SchemaDrift

open SchemaDrift.Sql SchemaDrift.Text SchemaDrift.Table

/-- The column can be written: it obeys the key rule, its actions are actions, and its texts
are a type, a default and a condition. -/
structure Column.Writable (c : Column) : Prop where
  key : c.ObeysKeyRule
  dataType : IsType c.name c.dataType.toList
  default : ∀ d ∈ c.defaultExpr, IsDefault d.toList
  actions : ∀ k ∈ c.foreignKey, ∀ a, k.onDelete = some a ∨ k.onUpdate = some a →
    a ∈ referentialActions
  check : ∀ k ∈ c.checkExpr, IsCondition k.toList

namespace Column

variable {c : Column}

/-- What the key rule adds to a column of the primary key is there. -/
theorem enforceKey_key (h : c.ObeysKeyRule) :
    enforceKey { c with isUnique := !c.inPrimaryKey && c.isUnique } = c := by
  obtain ⟨name, dataType, nullable, defaultExpr, inPrimaryKey, isUnique, foreignKey, checkExpr⟩ := c
  cases inPrimaryKey with
  | false => rfl
  | true =>
    obtain ⟨hnullable, hunique⟩ := h rfl
    dsimp only at hnullable hunique
    rw [hnullable, hunique]
    rfl

/-- A default that can be written is a text that is not empty. -/
theorem Writable.defaults (h : c.Writable) (hdefault : c.defaultExpr ≠ some "") :
    ∀ d ∈ c.defaultExpr, IsDefault d.toList ∧ d.toList ≠ [] := by
  intro d hd
  refine ⟨h.default d hd, fun hnil => hdefault ?_⟩
  rw [show d = "" from String.toList_eq_nil_iff.1 hnil] at hd
  exact hd

/-- **The clauses of a column are read one behind the other**, up to the key rule. -/
theorem read_clauses (h : c.Writable) (hdefault : c.defaultExpr ≠ some "") (e : Entry) :
    (readClauses e 0 (Column.new c.name c.dataType) (rowOf (clauseParts c))).map enforceKey
      = .ok c := by
  have hnew : Column.new c.name c.dataType = { name := c.name, dataType := c.dataType } := by
    unfold Column.new
    rw [h.dataType.canonical, String.ofList_toList]
  unfold clauseParts
  rw [hnew, read_null rfl, read_default (h.defaults hdefault) rfl (clausesFollow_default c),
    read_key ⟨rfl, rfl⟩,
    read_foreign h.actions rfl (optionsEnd_check c.checkExpr)]
  rw [← List.append_nil (checkParts c.checkExpr), read_check h.check rfl]
  show Except.ok (enforceKey _) = _
  exact congrArg Except.ok (enforceKey_key h.key)

/-- The parts of an action are its words. -/
theorem flatMap_action {event a : String} (ha : a ∈ referentialActions) :
    (actionParts event (some a)).flatMap (' ' :: ·) = (" ON " ++ event ++ " " ++ a).toList := by
  have hall : ∀ a ∈ referentialActions,
      (splitBy (· == ' ') a.toList).flatMap (' ' :: ·) = ' ' :: a.toList := by decide
  unfold actionParts
  rw [List.flatMap_cons, List.flatMap_cons, hall a ha]
  simp

/-- A foreign key is written as its parts. -/
theorem toSql_foreign {k : ForeignKey} (hk : ∀ a, k.onDelete = some a ∨ k.onUpdate = some a →
    a ∈ referentialActions) :
    (" " ++ k.toSql).toList = (foreignParts (some k)).flatMap (' ' :: ·) := by
  unfold ForeignKey.toSql foreignParts referenceParts
  simp only [String.toList_append, List.flatMap_append, List.flatMap_cons, List.append_assoc,
    List.cons_append]
  rw [← List.append_assoc, show " ".toList ++ "REFERENCES ".toList
    = ' ' :: ("REFERENCES".toList ++ [' ']) by decide, List.cons_append, List.append_assoc]
  refine congrArg (fun w => ' ' :: ("REFERENCES".toList ++ ' ' :: w)) ?_
  refine congrArg₂ (· ++ ·) ?target (congrArg₂ (· ++ ·) ?column
    (congrArg₂ (· ++ ·) ?delete ?update))
  case target =>
    cases k.schema with
    | none => exact String.toList_ofList
    | some s => simp [qualified, quoteIdent]
  case column =>
    cases k.column with
    | none => rfl
    | some c => simp [columnParts, grouped, quoteIdent]
  case delete =>
    cases ha : k.onDelete with
    | none => rfl
    | some a => exact (flatMap_action (hk a (Or.inl ha))).symm
  case update =>
    cases ha : k.onUpdate with
    | none => rfl
    | some a => exact (flatMap_action (hk a (Or.inr ha))).symm

/-- **The definition of a column is a row of parts.** -/
theorem toSql_eq (h : c.Writable) :
    c.toSql.toList = joined (quoteChars c.name.toList :: c.dataType.toList :: clauseParts c) := by
  have hname : (quoteIdent c.name).toList = quoteChars c.name.toList := String.toList_ofList
  unfold toSql joined clauseParts
  simp only [String.toList_append, List.flatMap_append, List.flatMap_cons, List.append_assoc,
    List.cons_append]
  refine congrArg₂ (· ++ ·) hname ?_
  refine congrArg (fun w => ' ' :: (c.dataType.toList ++ w)) ?_
  refine congrArg₂ (· ++ ·) ?null (congrArg₂ (· ++ ·) ?default (congrArg₂ (· ++ ·) ?key
    (congrArg₂ (· ++ ·) ?foreign ?check)))
  case null =>
    cases c.nullable <;> rfl
  case default =>
    cases c.defaultExpr with
    | none => rfl
    | some d => simp [defaultParts]
  case key =>
    unfold keyParts
    cases c.inPrimaryKey <;> cases c.isUnique <;> rfl
  case foreign =>
    cases hk : c.foreignKey with
    | none => rfl
    | some k => exact toSql_foreign (h.actions k hk)
  case check =>
    cases c.checkExpr with
    | none => rfl
    | some k => simp [checkParts, grouped]

/-- **All of them are parts.** -/
theorem part_definition (h : c.Writable) (hdefault : c.defaultExpr ≠ some "") :
    ∀ p ∈ quoteChars c.name.toList :: c.dataType.toList :: clauseParts c, Part p := by
  have hdefaults := h.defaults hdefault
  have hnull : ∀ p ∈ nullParts c.nullable, Part p := by
    cases c.nullable with
    | true => exact List.forall_mem_nil _
    | false =>
      exact List.forall_mem_cons.2 ⟨part_word (w := "NOT") (by decide),
        List.forall_mem_singleton.2 (part_word (w := "NULL") (by decide))⟩
  have hvalue : ∀ p ∈ defaultParts c.defaultExpr, Part p := by
    cases hd : c.defaultExpr with
    | none => exact List.forall_mem_nil _
    | some d =>
      obtain ⟨hd, hne⟩ := hdefaults d hd
      exact List.forall_mem_cons.2 ⟨part_word (w := "DEFAULT") (by decide),
        List.forall_mem_singleton.2 (hd.part hne)⟩
  have hkey : ∀ p ∈ keyParts c, Part p := by
    unfold keyParts
    split
    · exact List.forall_mem_cons.2 ⟨part_word (w := "PRIMARY") (by decide),
        List.forall_mem_singleton.2 (part_word (w := "KEY") (by decide))⟩
    · split
      · exact List.forall_mem_singleton.2 (part_word (w := "UNIQUE") (by decide))
      · exact List.forall_mem_nil _
  have hcheck : ∀ p ∈ checkParts c.checkExpr, Part p := by
    cases hk : c.checkExpr with
    | none => exact List.forall_mem_nil _
    | some k =>
      have htidy := (h.check k hk).tidy
      exact List.forall_mem_cons.2 ⟨part_word (w := "CHECK") (by decide),
        List.forall_mem_singleton.2 (part_grouped htidy.complete htidy.uncommented htidy.nested)⟩
  -- the name, the type, and the parts of each clause
  refine List.forall_mem_cons.2 ⟨part_quoteChars _, List.forall_mem_cons.2 ⟨h.dataType.part, ?_⟩⟩
  exact List.forall_mem_append.2 ⟨hnull, List.forall_mem_append.2 ⟨hvalue,
    List.forall_mem_append.2 ⟨hkey, List.forall_mem_append.2 ⟨part_foreign h.actions, hcheck⟩⟩⟩⟩

/-- The tokens of the definition. -/
theorem tokens_definition (h : c.Writable) (hdefault : c.defaultExpr ≠ some "") :
    (Entry.of c.toSql.toList).tokens
      = ⟨nameKind c.name.toList, quoteChars c.name.toList, [' ']⟩
        :: (addGap (gapBefore (clauseParts c)) (tokenize c.dataType.toList)
          ++ rowOf (clauseParts c)) := by
  rw [Entry.of, toSql_eq h, tokenize_joined (part_definition h hdefault),
    rowOf_one (tokenize_quoteChars _), rowOf_cons]
  rfl

/-- **The definition is read as the column.** -/
theorem read_definition (h : c.Writable) (hdefault : c.defaultExpr ≠ some "") :
    (Entry.of c.toSql.toList).column = .ok c := by
  have htype := h.dataType.part
  have hts : ∀ t ∈ addGap (gapBefore (clauseParts c)) (tokenize c.dataType.toList),
      t.beginsClause = false := by
    intro t ht
    obtain ⟨front, behind, hsplit⟩ := List.append_of_mem ht
    obtain ⟨t', behind', hts, hkeyword⟩ := addGap_split hsplit
    unfold Token.beginsClause
    rw [hkeyword]
    exact h.dataType.clauses t' (by rw [hts]; simp)
  have hn := upToClause_type hts (clausesFollow_type c)
  have hne : (addGap (gapBefore (clauseParts c)) (tokenize c.dataType.toList)).length ≠ 0 := by
    rw [Ne, List.length_eq_zero_iff]
    exact addGap_ne_nil (tokenize_part_ne_nil htype)
  have hkind : nameKind c.name.toList = .word ∨ nameKind c.name.toList = .quotedIdent := by
    unfold nameKind
    split
    · exact Or.inl rfl
    · exact Or.inr rfl
  unfold Entry.column
  rw [tokens_definition h hdefault]
  dsimp only
  rw [if_pos (by simpa using hkind), hn, if_neg hne, List.take_left, List.drop_left,
    spanText_addGap, spanText_part htype, unquoteIdent_quoteChars, String.ofList_toList,
    String.ofList_toList]
  exact read_clauses h hdefault _

/-- The capitals of a name without quotes are no reserved word. -/
theorem upper_name {n : List Char} (h : isPlainIdent n = true) {k : String}
    (hk : String.ofList (asciiUpper n) = k) : n = k.toList.map Char.toLower
      ∧ String.ofList (k.toList.map Char.toLower) ∉ reservedWords := by
  obtain ⟨-, -, -, -, hall, hreserved⟩ := plain_cases h
  have hlower : k.toList.map Char.toLower = n := by
    rw [← hk, String.toList_ofList]
    unfold asciiUpper
    rw [List.map_map]
    refine (List.map_congr_left fun d hd => ?_).trans (List.map_id n)
    exact (nameLetter (hall d hd)).capital
  rw [hlower]
  exact ⟨rfl, hreserved⟩

/-- **The definition is no constraint of the table.** -/
theorem definition_not_constraint (h : c.Writable) (hdefault : c.defaultExpr ≠ some "") :
    (Entry.of c.toSql.toList).isTableConstraint = false := by
  have htokens := tokens_definition h hdefault
  have hname : ∀ k, leadingKeyword? (Entry.of c.toSql.toList).tokens = some k →
      c.name.toList = k.toList.map Char.toLower
        ∧ String.ofList (k.toList.map Char.toLower) ∉ reservedWords := by
    intro k hk
    rw [htokens] at hk
    change Token.keyword? _ = some k at hk
    unfold Token.keyword? nameKind quoteChars at hk
    by_cases hplain : isPlainIdent c.name.toList = true
    · rw [if_pos hplain, if_pos hplain, if_pos rfl] at hk
      exact upper_name hplain (Option.some.inj hk)
    · rw [if_neg hplain, if_neg nofun] at hk
      cases hk
  unfold Entry.isTableConstraint
  split
  · next hk =>
    -- the type decides
    have hexclude : c.name = "exclude" := by
      rw [← String.ofList_toList (s := c.name), (hname _ hk).1]
      decide
    obtain ⟨husing, hgroup⟩ := h.dataType.exclude hexclude
    obtain ⟨hleads, hleadsGroup⟩ := leads_addGap (tokenize_part_ne_nil h.dataType.part)
      (gapBefore (clauseParts c)) (rowOf (clauseParts c))
    rw [htokens, List.tail_cons, hleads, hleadsGroup, husing, hgroup]
    rfl
  · next hk => exact absurd (by decide) (hname _ hk).2
  · next k hexclude hlike hk =>
    by_contra hmem
    rw [Bool.not_eq_false, List.contains_iff_mem] at hmem
    have hall : ∀ k ∈ ["CONSTRAINT", "PRIMARY", "FOREIGN", "UNIQUE", "CHECK"],
        String.ofList (k.toList.map Char.toLower) ∈ reservedWords := by decide
    exact (hname k hk).2 (hall k hmem)
  · rfl

/-- A text without comments is left as it is. -/
theorem stripComments_uncommented {s : List Char} (h : ∀ g ∈ classify s, g.cls ≠ .comment) :
    stripComments s = s := by
  have hall : ∀ gs : List Glyph, (∀ g ∈ gs, g.cls ≠ .comment) →
      blankComments false gs = gs.map Glyph.char := by
    intro gs hgs
    induction gs with
    | nil => rfl
    | cons g gs ih =>
      rw [blankComments, if_neg (hgs g List.mem_cons_self),
        ih fun x hx => hgs x (List.mem_cons_of_mem g hx)]
      rfl
  unfold stripComments
  rw [hall _ h, classify_map_char]

/-- What stands in front of the body of a table in a definition. -/
def definitionHead : List Char := "CREATE TABLE t ".toList ++ ['(']

theorem definitionHead_code : unclosed? "CREATE TABLE t ".toList = none
    ∧ (∀ g ∈ classify "CREATE TABLE t ".toList, g.cls ≠ .comment)
    ∧ ∀ g ∈ classify definitionHead, g.cls ≠ .comment := by
  decide +kernel

/-- The characters of a definition with a part as the body. -/
theorem classify_definition {w : List Char} (hw : Complete w) :
    classify (definitionHead ++ (w ++ [')']))
      = classify definitionHead ++ (classify w ++ [⟨')', .code⟩]) := by
  have hopen : IsFirm '(' := isFirm_between (by decide)
  have hclose : IsFirm ')' := isFirm_between (by decide)
  have hcomplete := complete_of_closed definitionHead_code.1 definitionHead_code.2.1
  have hfront := classify_join hcomplete hopen (w ++ [')'])
  have hwhole := classify_join hcomplete hopen []
  have hbody := classify_join hw hclose []
  rw [hbody] at hfront
  unfold definitionHead
  rw [List.append_assoc, List.singleton_append, hfront, hwhole]
  simp [classify, Lexer.glyphs]

theorem head?_definition (w : List Char) :
    head? (definitionHead ++ w) = some ⟨none, ['t'], w⟩ := by
  rfl

/-- **A part is the body of its definition.** -/
theorem body_definition {w : List Char} (hw : Part w) :
    enclosed? 0 ((classify (definitionHead ++ (w ++ [')']))).drop
      ((definitionHead ++ (w ++ [')'])).length - (w ++ [')']).length)) = some w := by
  have hlength : (definitionHead ++ (w ++ [')'])).length - (w ++ [')']).length
      = (classify definitionHead).length := by
    rw [List.length_append, Nat.add_sub_cancel, length_classify]
  rw [hlength, classify_definition hw.complete, List.drop_left, enclosed?_nested hw.nested,
    classify_map_char]
  show some (w ++ []) = _
  rw [List.append_nil]

/-- No constraints of the table leave a column as it is. -/
theorem apply_none (h : c.ObeysKeyRule) : KeyClauses.apply {} c = c := by
  have hforeign : (c.foreignKey <|> none) = c.foreignKey := by
    cases c.foreignKey with
    | none => rfl
    | some k => rfl
  unfold KeyClauses.apply
  rw [show (([] : List String).contains c.name) = false from rfl, Bool.or_false, Bool.or_false,
    show ([] : List (String × ForeignKey)).lookup c.name = none from rfl, hforeign]
  exact enforceKey_of_obeys h

/-- **A table is read from the definition of its only column.** -/
theorem parse_definition {w : List Char} (hw : Part w)
    (hconstraint : (Entry.of w).isTableConstraint = false)
    (hcolumns : readColumns {} [] [Entry.of w] = .ok [c]) :
    parse (definitionHead ++ (w ++ [')'])) = .ok ⟨defaultSchema, "t", [c]⟩ := by
  have huncommented : ∀ g ∈ classify (definitionHead ++ (w ++ [')'])), g.cls ≠ .comment := by
    rw [classify_definition hw.complete]
    exact List.forall_mem_append.2 ⟨definitionHead_code.2.2, List.forall_mem_append.2
      ⟨hw.uncommented, List.forall_mem_singleton.2 nofun⟩⟩
  have hname : unquoteIdent ['t'] = "t" := unquoteIdent_quoteChars ['t']
  unfold parse
  rw [stripComments_uncommented huncommented]
  dsimp only
  rw [head?_definition]
  dsimp only
  rw [body_definition hw]
  dsimp only
  rw [splitTopLevel_part hw, List.map_singleton, List.filter_singleton, List.filter_singleton,
    hconstraint, hname]
  show (readColumns {} [] [Entry.of w] >>= _) = _
  rw [hcolumns]
  rfl

/-- **A column is read back from its definition**, whatever it is, if its default is not the
empty text. -/
theorem parse_toSql (h : c.Writable) (hdefault : c.defaultExpr ≠ some "") :
    parse ("CREATE TABLE t (" ++ c.toSql ++ ")").toList = .ok ⟨defaultSchema, "t", [c]⟩ := by
  have hpart : Part c.toSql.toList := by
    rw [toSql_eq h]
    exact part_joined (part_definition h hdefault) (List.cons_ne_nil _ _)
  have hsql : ("CREATE TABLE t (" ++ c.toSql ++ ")").toList
      = definitionHead ++ (c.toSql.toList ++ [')']) := by
    have hhead : "CREATE TABLE t (".toList = definitionHead := by decide
    rw [String.toList_append, String.toList_append, List.append_assoc, hhead]
    rfl
  have hcolumns : readColumns {} [] [Entry.of c.toSql.toList] = .ok [c] := by
    rw [readColumns, read_definition h hdefault]
    show Except.ok [KeyClauses.apply {} c] = _
    rw [apply_none h.key]
  rw [hsql]
  exact parse_definition hpart (definition_not_constraint h hdefault) hcolumns

/-- A price with a reference, whose name has to be quoted. -/
def unitPrice : Column where
  name := "unit price"
  dataType := "NUMERIC(10,2)"
  nullable := false
  defaultExpr := some "0"
  isUnique := true
  foreignKey := some
    { schema := some "Shop", table := "order", column := some "a.b", onDelete := some "SET NULL" }
  checkExpr := some "price >= 0"

theorem unitPrice_writable : unitPrice.Writable where
  key := by decide
  dataType := by
    have hnested : Nested (classify "NUMERIC(10,2)".toList) := by
      have hsplit : classify "NUMERIC(10,2)".toList = "NUMERIC".toList.map (⟨·, .code⟩)
          ++ ⟨'(', .code⟩ :: ("10,2".toList.map (⟨·, .code⟩) ++ ⟨closing '(', .code⟩ :: []) := by
        decide +kernel
      rw [hsplit]
      exact (nested_of_none (by decide)).append
        (.group (Or.inl rfl) (nested_of_none (by decide)) .nil)
    refine ⟨⟨by decide +kernel, by decide +kernel, hnested⟩, ?_, by decide, by decide +kernel,
      by decide +kernel, nofun⟩
    intro pre post hsplit hpre
    -- the only comma stands behind a parenthesis that is open
    have hat : (classify "NUMERIC(10,2)".toList)[pre.length]? = some ⟨',', .code⟩ := by
      rw [show classify "NUMERIC(10,2)".toList = _ from hsplit, List.getElem?_append_right le_rfl,
        Nat.sub_self]
      rfl
    have hindex : ∀ n < 13, (classify "NUMERIC(10,2)".toList)[n]? = some ⟨',', .code⟩ → n = 10 := by
      decide +kernel
    have hlength : pre.length = 10 :=
      hindex _ (List.getElem?_eq_some_iff.1 hat).1 hat
    have htake : pre = (classify "NUMERIC(10,2)".toList).take 10 := by
      rw [← hlength, show classify "NUMERIC(10,2)".toList = _ from hsplit, List.take_left]
    have henclosed := enclosed?_nested hpre 0 [⟨')', .code⟩]
    rw [htake] at henclosed
    exact absurd henclosed (by decide +kernel)
  default := by
    rintro d hd
    obtain rfl := Option.some.inj hd
    refine ⟨⟨by decide +kernel, by decide +kernel, nested_of_none (by decide +kernel)⟩,
      uncut_of_none (by decide +kernel), by decide +kernel, by decide, by decide +kernel, ?_⟩
    intro front t behind hsplit hfront
    rcases List.append_eq_singleton_iff.1 (show front ++ t :: behind = [_] from hsplit.symm)
      with ⟨hnil, -⟩ | ⟨-, hnil⟩
    · exact absurd hnil hfront
    · cases hnil
  actions := by
    rintro k hk a (ha | ha)
    · obtain rfl := Option.some.inj hk
      obtain rfl := Option.some.inj ha
      decide
    · obtain rfl := Option.some.inj hk
      cases ha
  check := by
    rintro k hk
    obtain rfl := Option.some.inj hk
    exact ⟨⟨by decide +kernel, by decide +kernel, nested_of_none (by decide +kernel)⟩, by decide,
      by decide +kernel⟩

theorem parse_toSql_unitPrice : unitPrice.Writable ∧ unitPrice.defaultExpr ≠ some ""
    ∧ parse ("CREATE TABLE t (" ++ unitPrice.toSql ++ ")").toList
      = .ok ⟨defaultSchema, "t", [unitPrice]⟩ :=
  ⟨unitPrice_writable, by decide, parse_toSql unitPrice_writable (by decide)⟩

/-- An empty default is no expression: the clause stops at its word. -/
theorem empty_default_unread : ∃ c : Column, c.Writable ∧ c.defaultExpr = some ""
    ∧ parse ("CREATE TABLE t (" ++ c.toSql ++ ")").toList
      = .error (.malformedColumn "x INT DEFAULT") := by
  refine ⟨{ name := "x", dataType := "INT", defaultExpr := some "" }, ⟨by decide, ?_, ?_, ?_, ?_⟩,
    rfl, by decide +kernel⟩
  · exact ⟨⟨by decide +kernel, by decide +kernel, nested_of_none (by decide +kernel)⟩,
      uncut_of_none (by decide +kernel), by decide, by decide +kernel, by decide +kernel, nofun⟩
  · rintro d hd
    obtain rfl := Option.some.inj hd
    refine ⟨⟨by decide +kernel, by decide +kernel, nested_of_none (by decide +kernel)⟩,
      uncut_of_none (by decide +kernel), by decide +kernel, by decide +kernel,
      by decide +kernel, ?_⟩
    intro front t behind hsplit
    cases front with
    | nil => cases hsplit
    | cons u front => cases hsplit
  · nofun
  · nofun

end Column

end SchemaDrift
