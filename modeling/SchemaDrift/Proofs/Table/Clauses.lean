/-
  SchemaDrift.Proofs.Table.Clauses
  ────────────────────────────────
  **EACH CLAUSE OF A DEFINITION IS READ BACK.**

  A clause of a column is a row of parts.  Reading takes them off the front, and leaves the
  parts behind them to the next clause, whatever these are; only a default has to be told
  where it ends (`expressionLength_upTo`), and a reference where its options do
  (`OptionsEnd`).

      rowOf_cons         the tokens of parts, one part at a time
      read_default       an expression goes on up to the next clause
      read_reference     the target of a reference, its column, its actions
-/

import SchemaDrift.Proofs.Table.Texts

namespace SchemaDrift.Table

open SchemaDrift.Sql SchemaDrift.Text

/-! ## §1. Rows of parts. -/

/-- The gap behind a part in front of others. -/
def gapBefore (ps : List (List Char)) : List Char := if ps = [] then [] else [' ']

theorem rowOf_cons (p : List Char) (ps : List (List Char)) :
    rowOf (p :: ps) = addGap (gapBefore ps) (tokenize p) ++ rowOf ps := by
  cases ps with
  | nil => rw [show gapBefore [] = [] from rfl, addGap_nil, show rowOf [] = [] from rfl,
      List.append_nil]; rfl
  | cons q ps => rfl

/-- A part that is one token. -/
theorem rowOf_one {p : List Char} {kind : TokenKind} (h : tokenize p = [⟨kind, p, []⟩])
    (ps : List (List Char)) : rowOf (p :: ps) = ⟨kind, p, gapBefore ps⟩ :: rowOf ps := by
  rw [rowOf_cons, h]
  rfl

/-- The words that a definition is written with, the names and texts of the column apart. -/
def clauseWords : List String :=
  ["NOT", "NULL", "DEFAULT", "PRIMARY", "KEY", "UNIQUE", "REFERENCES", "ON", "DELETE", "UPDATE",
    "CASCADE", "RESTRICT", "NO", "ACTION", "SET", "CHECK"]

/-- Such a word is one token, the keyword that it spells, and a part. -/
theorem word_clause {w : String} (hw : w ∈ clauseWords) :
    tokenize w.toList = [⟨.word, w.toList, []⟩] ∧ String.ofList (asciiUpper w.toList) = w
      ∧ w.toList ≠ [] ∧ unclosed? w.toList = none
      ∧ ∀ g ∈ classify w.toList, g.cls = .code ∧ isTokenChar g.char = true := by
  have hall : ∀ w ∈ clauseWords, tokenize w.toList = [⟨.word, w.toList, []⟩]
      ∧ String.ofList (asciiUpper w.toList) = w ∧ w.toList ≠ [] ∧ unclosed? w.toList = none
      ∧ ∀ g ∈ classify w.toList, g.cls = .code ∧ isTokenChar g.char = true := by decide +kernel
  exact hall w hw

theorem tokenize_word {w : String} (hw : w ∈ clauseWords) :
    tokenize w.toList = [⟨.word, w.toList, []⟩] := (word_clause hw).1

theorem keyword?_word {w : String} (hw : w ∈ clauseWords) (gap : List Char) :
    (⟨.word, w.toList, gap⟩ : Token).keyword? = some w := by
  unfold Token.keyword?
  rw [if_pos rfl, (word_clause hw).2.1]

theorem isKeyword_word {w : String} (hw : w ∈ clauseWords) (gap : List Char) (k : String) :
    (⟨.word, w.toList, gap⟩ : Token).isKeyword k = decide (w = k) := by
  unfold Token.isKeyword
  rw [keyword?_word hw]
  simp

theorem leads_word {w : String} (hw : w ∈ clauseWords) (ps : List (List Char)) (k : String) :
    leads k (rowOf (w.toList :: ps)) = decide (w = k) := by
  rw [rowOf_one (tokenize_word hw)]
  exact isKeyword_word hw _ k

theorem part_word {w : String} (hw : w ∈ clauseWords) : Part w.toList := by
  obtain ⟨-, -, hne, hclosed, hword⟩ := word_clause hw
  refine part_of_solid hne (complete_of_closed hclosed fun g hg hcomment => ?_) fun g hg =>
    Or.inr (hword g hg)
  rw [(hword g hg).1] at hcomment
  cases hcomment

variable {e : Entry} {c : Column}

/-- Tokens that are read already are passed over. -/
theorem readClauses_skip (ts us : List Token) :
    readClauses e ts.length c (ts ++ us) = readClauses e 0 c us := by
  induction ts with
  | nil => rfl
  | cons t ts ih => exact ih

/-- A clause that begins with a word takes some tokens. -/
theorem readClauses_word {w : String} (hw : w ∈ clauseWords) {ps : List (List Char)}
    {c' : Column} {ts us : List Token} (hrow : rowOf ps = ts ++ us)
    (hread : readClause e c ⟨.word, w.toList, gapBefore ps⟩ (rowOf ps) = .ok (c', ts.length)) :
    readClauses e 0 c (rowOf (w.toList :: ps)) = readClauses e 0 c' us := by
  rw [rowOf_one (tokenize_word hw), readClauses, hread]
  show readClauses e ts.length c' (rowOf ps) = _
  rw [hrow, readClauses_skip]

/-! ## §2. Clauses. -/

/-- The parts that say that a column takes no nulls. -/
def nullParts (nullable : Bool) : List (List Char) :=
  if nullable then [] else ["NOT".toList, "NULL".toList]

/-- The parts of a default. -/
def defaultParts : Option String → List (List Char)
  | some d => ["DEFAULT".toList, d.toList]
  | none => []

/-- The parts of a key. -/
def keyParts (c : Column) : List (List Char) :=
  if c.inPrimaryKey then ["PRIMARY".toList, "KEY".toList]
  else if c.isUnique then ["UNIQUE".toList] else []

/-- The parts of an action of a reference. -/
def actionParts (event : String) : Option String → List (List Char)
  | some a => "ON".toList :: event.toList :: splitBy (· == ' ') a.toList
  | none => []

/-- The parts of the column that a reference names. -/
def columnParts : Option String → List (List Char)
  | some c => [grouped (quoteChars c.toList)]
  | none => []

/-- The parts of a reference behind its first word. -/
def referenceParts (k : ForeignKey) : List (List Char) :=
  qualified (k.schema.map String.toList) k.table.toList :: (columnParts k.column
    ++ (actionParts "DELETE" k.onDelete ++ actionParts "UPDATE" k.onUpdate))

/-- The parts of a foreign key. -/
def foreignParts : Option ForeignKey → List (List Char)
  | some k => "REFERENCES".toList :: referenceParts k
  | none => []

/-- The parts of a check. -/
def checkParts : Option String → List (List Char)
  | some k => ["CHECK".toList, grouped k.toList]
  | none => []

/-- The parts of a column behind its type. -/
def clauseParts (c : Column) : List (List Char) :=
  nullParts c.nullable ++ (defaultParts c.defaultExpr ++ (keyParts c
    ++ (foreignParts c.foreignKey ++ checkParts c.checkExpr)))

theorem read_null {nullable : Bool} (hc : c.nullable = true) (ps : List (List Char)) :
    readClauses e 0 c (rowOf (nullParts nullable ++ ps))
      = readClauses e 0 { c with nullable } (rowOf ps) := by
  cases nullable with
  | true =>
    have hsame : { c with nullable := true } = c := by
      rw [← hc]
    rw [hsame]
    rfl
  | false =>
    have hnot : "NOT" ∈ clauseWords := by decide
    have hnull : "NULL" ∈ clauseWords := by decide
    show readClauses e 0 c (rowOf ("NOT".toList :: "NULL".toList :: ps)) = _
    refine readClauses_word hnot (show _ = [_] ++ _ from rowOf_one (tokenize_word hnull) ps) ?_
    exact readClause_eq (.notNull (keyword?_word hnot _) (leads_word hnull ps "NULL"))

/-- Clauses follow, or nothing. -/
def ClausesFollow (us : List Token) : Prop := ∀ t ∈ us.head?, t.beginsClause = true

/-- **An expression goes on up to the next clause.** -/
theorem expressionLength_upTo {ts us : List Token} {first : Bool} {depth : Nat}
    (hfirst : first = true → ts ≠ []) (hcases : caseDepth? depth ts = some 0)
    (hclauses : ∀ front t behind, ts = front ++ t :: behind → (first = false ∨ front ≠ []) →
      caseDepth? depth front = some 0 → t.beginsClause = false)
    (hus : ClausesFollow us) : expressionLength first depth (ts ++ us) = ts.length := by
  induction ts generalizing first depth with
  | nil =>
    have hfirst : first = false := by
      by_contra h
      exact hfirst (Bool.not_eq_false _ ▸ h) rfl
    obtain rfl : depth = 0 := Option.some.inj hcases
    cases us with
    | nil => rfl
    | cons u us =>
      rw [List.nil_append, expressionLength, hfirst, hus u rfl]
      rfl
  | cons t ts ih =>
    have hgo : ¬(!first && decide (depth = 0) && t.beginsClause) = true := by
      intro hstop
      simp only [Bool.and_eq_true, Bool.not_eq_true', decide_eq_true_eq] at hstop
      obtain ⟨⟨rfl, rfl⟩, hbegins⟩ := hstop
      rw [hclauses [] t ts rfl (Or.inl rfl) rfl] at hbegins
      cases hbegins
    rw [List.cons_append, expressionLength, if_neg hgo, List.length_cons]
    refine congrArg (· + 1) ?_
    -- the depth behind the token, as both count it
    rw [caseDepth?_cons] at hcases
    obtain ⟨behind, hstep, hrest⟩ := Option.bind_eq_some_iff.1 hcases
    have hdepth : (if t.isKeyword "CASE" then depth + 1
        else if t.isKeyword "END" then depth - 1 else depth) = behind := by
      unfold caseStep? at hstep
      split at hstep
      · next hcase =>
        rw [if_pos hcase]
        exact Option.some.inj hstep
      · next hcase =>
        rw [if_neg hcase]
        split at hstep
        · next hend =>
          rw [if_pos hend]
          cases depth with
          | zero => cases hstep
          | succ n => exact Option.some.inj hstep
        · next hend =>
          rw [if_neg hend]
          exact Option.some.inj hstep
    rw [hdepth]
    refine ih (fun h => absurd h (by decide)) hrest fun front u more hts _ hfront => ?_
    refine hclauses (t :: front) u more (by rw [hts]; rfl) (Or.inr (List.cons_ne_nil t front)) ?_
    rw [caseDepth?_cons, hstep]
    exact hfront

/-- A longer gap behind the last token changes no word. -/
theorem addGap_split {gap : List Char} {ts front behind : List Token} {t : Token}
    (h : addGap gap ts = front ++ t :: behind) :
    ∃ t' behind', ts = front ++ t' :: behind' ∧ t.keyword? = t'.keyword? := by
  induction ts generalizing front with
  | nil => exact absurd h (by simp [addGap])
  | cons u ts ih =>
    cases ts with
    | nil =>
      rcases List.append_eq_singleton_iff.1 (show front ++ t :: behind = _ from h.symm)
        with ⟨rfl, ht⟩ | ⟨-, hnil⟩
      · obtain ⟨rfl, rfl⟩ := List.cons.inj ht
        exact ⟨u, [], rfl, rfl⟩
      · cases hnil
    | cons v ts =>
      rw [addGap_cons _ _ (List.cons_ne_nil v ts)] at h
      cases front with
      | nil =>
        obtain ⟨rfl, -⟩ := List.cons.inj h
        exact ⟨u, v :: ts, rfl, rfl⟩
      | cons x front =>
        obtain ⟨rfl, htail⟩ := List.cons.inj h
        obtain ⟨t', behind', hts, hkeyword⟩ := ih htail
        exact ⟨t', behind', by rw [hts]; rfl, hkeyword⟩

theorem caseDepth?_addGap (gap : List Char) (ts : List Token) (depth : Nat) :
    caseDepth? depth (addGap gap ts) = caseDepth? depth ts := by
  induction ts generalizing depth with
  | nil => rfl
  | cons t ts ih =>
    cases ts with
    | nil => rfl
    | cons t' ts =>
      rw [addGap_cons _ _ (List.cons_ne_nil t' ts), caseDepth?_cons, caseDepth?_cons]
      simp only [ih]

theorem addGap_ne_nil {gap : List Char} {ts : List Token} (h : ts ≠ []) : addGap gap ts ≠ [] := by
  cases ts with
  | nil => exact absurd rfl h
  | cons t ts =>
    cases ts with
    | nil => exact List.cons_ne_nil _ _
    | cons t' ts => exact List.cons_ne_nil _ _

/-- **A default is read as its text.** -/
theorem read_default {d : Option String} (hd : ∀ x ∈ d, IsDefault x.toList ∧ x.toList ≠ [])
    (hc : c.defaultExpr = none) {ps : List (List Char)} (hps : ClausesFollow (rowOf ps)) :
    readClauses e 0 c (rowOf (defaultParts d ++ ps))
      = readClauses e 0 { c with defaultExpr := d } (rowOf ps) := by
  cases d with
  | none =>
    have hsame : { c with defaultExpr := none } = c := by
      rw [← hc]
    rw [hsame]
    rfl
  | some d =>
    obtain ⟨hdefault, hne⟩ := hd d rfl
    have hpart := hdefault.part hne
    have hword : "DEFAULT" ∈ clauseWords := by decide
    have hrow := rowOf_cons d.toList ps
    have htokens : addGap (gapBefore ps) (tokenize d.toList) ≠ [] :=
      addGap_ne_nil (tokenize_part_ne_nil hpart)
    -- the expression takes the tokens of its part, and what follows begins a clause
    have hlength : expressionLength true 0 (addGap (gapBefore ps) (tokenize d.toList) ++ rowOf ps)
        = (addGap (gapBefore ps) (tokenize d.toList)).length := by
      refine expressionLength_upTo (fun _ => htokens) ?_ ?_ hps
      · rw [caseDepth?_addGap]
        exact hdefault.cases
      · rintro front t behind hsplit (hfirst | hfront) hdepth
        · cases hfirst
        · obtain ⟨t', behind', hts, hkeyword⟩ := addGap_split hsplit
          unfold Token.beginsClause
          rw [hkeyword]
          exact hdefault.clauses front t' behind' hts hfront hdepth
    show readClauses e 0 c (rowOf ("DEFAULT".toList :: d.toList :: ps)) = _
    refine readClauses_word hword hrow ?_
    have hread := readClause_eq (e := e) (c := c)
      (.default (keyword?_word hword (gapBefore (d.toList :: ps))) (List.append_ne_nil_of_left_ne_nil htokens _) hlength rfl)
    rw [List.take_left, spanText_addGap, spanText_part hpart, hdefault.normal, defaultValue,
      hdefault.value, String.ofList_toList] at hread
    rw [hrow]
    exact hread

/-- **The key of a column is read**; one that is of the primary key is not read to be unique. -/
theorem read_key {c' : Column} (hc : c.inPrimaryKey = false ∧ c.isUnique = false)
    (ps : List (List Char)) : readClauses e 0 c (rowOf (keyParts c' ++ ps))
      = readClauses e 0 { c with
          inPrimaryKey := c'.inPrimaryKey
          isUnique := !c'.inPrimaryKey && c'.isUnique } (rowOf ps) := by
  obtain ⟨name, dataType, nullable, defaultExpr, inPrimaryKey, isUnique, foreignKey, checkExpr⟩ := c
  obtain ⟨rfl, rfl⟩ := hc
  unfold keyParts
  cases hkey : c'.inPrimaryKey with
  | true =>
    have hprimary : "PRIMARY" ∈ clauseWords := by decide
    have hword : "KEY" ∈ clauseWords := by decide
    show readClauses e 0 _ (rowOf ("PRIMARY".toList :: "KEY".toList :: ps)) = _
    refine readClauses_word hprimary (show _ = [_] ++ _ from rowOf_one (tokenize_word hword) ps) ?_
    exact readClause_eq (.primaryKey (keyword?_word hprimary _) (leads_word hword ps "KEY"))
  | false =>
    cases hunique : c'.isUnique with
    | false => rfl
    | true =>
      have hword : "UNIQUE" ∈ clauseWords := by decide
      show readClauses e 0 _ (rowOf ("UNIQUE".toList :: ps)) = _
      refine readClauses_word hword (show rowOf ps = [] ++ rowOf ps from rfl) ?_
      exact readClause_eq (.unique (keyword?_word hword _))

/-- **A check is read as its condition.** -/
theorem read_check {k : Option String} (hk : ∀ x ∈ k, IsCondition x.toList)
    (hc : c.checkExpr = none) (ps : List (List Char)) :
    readClauses e 0 c (rowOf (checkParts k ++ ps))
      = readClauses e 0 { c with checkExpr := k } (rowOf ps) := by
  cases k with
  | none =>
    have hsame : { c with checkExpr := none } = c := by
      rw [← hc]
    rw [hsame]
    rfl
  | some k =>
    have hcondition := hk k rfl
    have hword : "CHECK" ∈ clauseWords := by decide
    have hrow : rowOf (grouped k.toList :: ps)
        = [⟨.group, grouped k.toList, gapBefore ps⟩] ++ rowOf ps :=
      rowOf_one (tokenize_grouped hcondition.tidy.complete hcondition.tidy.nested) ps
    show readClauses e 0 c (rowOf ("CHECK".toList :: grouped k.toList :: ps)) = _
    refine readClauses_word hword hrow ?_
    rw [readClause_eq (.check (keyword?_word hword _) hrow rfl (inside_grouped _ _)), hcondition.normal,
      String.ofList_toList]
    rfl

/-! ## §3. References. -/

/-- The actions of a reference. -/
def referentialActions : List String :=
  ["CASCADE", "RESTRICT", "NO ACTION", "SET NULL", "SET DEFAULT"]

/-- The tokens behind the options of a reference: none is an option, or a group. -/
def OptionsEnd (us : List Token) : Prop :=
  leadsGroup us = false ∧ ∀ e key, referenceOptions e 0 key us = .ok (key, 0)

/-- Tokens that are read already are passed over. -/
theorem referenceOptions_skip (key : ForeignKey) (ts us : List Token) :
    referenceOptions e ts.length key (ts ++ us)
      = (referenceOptions e 0 key us).map fun (key, n) => (key, n + ts.length) := by
  induction ts with
  | nil =>
    rw [List.nil_append]
    cases referenceOptions e 0 key us with
    | error f => rfl
    | ok r => rfl
  | cons t ts ih =>
    rw [List.length_cons, List.cons_append, referenceOptions]
    dsimp only
    rw [ih]
    cases referenceOptions e 0 key us with
    | error f => rfl
    | ok r => rfl

theorem leadsGroup_word {w : String} (hw : w ∈ clauseWords) (ps : List (List Char)) :
    leadsGroup (rowOf (w.toList :: ps)) = false := by
  rw [rowOf_one (tokenize_word hw)]
  rfl

/-- **An action is read as its words.** -/
theorem read_actionWords {a : String} (ha : a ∈ referentialActions) {ps : List (List Char)}
    (hps : leadsGroup (rowOf ps) = false) :
    ∃ ts, rowOf (splitBy (· == ' ') a.toList ++ ps) = ts ++ rowOf ps
      ∧ referentialAction (ts ++ rowOf ps) = (some a, ts.length) := by
  have hno : "NO" ∈ clauseWords := by decide
  have haction : "ACTION" ∈ clauseWords := by decide
  have hset : "SET" ∈ clauseWords := by decide
  have hnull : "NULL" ∈ clauseWords := by decide
  have hdefault : "DEFAULT" ∈ clauseWords := by decide
  -- an action is of one word or of two
  have hone : ∀ {w}, w ∈ clauseWords → ∃ t : Token, rowOf (w.toList :: ps) = [t] ++ rowOf ps
      ∧ t.keyword? = some w :=
    fun {w} hw => ⟨_, rowOf_one (tokenize_word hw) ps, keyword?_word hw _⟩
  have htwo : ∀ {v w}, v ∈ clauseWords → w ∈ clauseWords → ∃ t u : Token,
      rowOf (v.toList :: w.toList :: ps) = [t, u] ++ rowOf ps ∧ t.keyword? = some v
        ∧ u.keyword? = some w := by
    intro v w hv hw
    refine ⟨_, _, ?_, keyword?_word hv (gapBefore (w.toList :: ps)),
      keyword?_word hw (gapBefore ps)⟩
    rw [rowOf_one (tokenize_word hv), rowOf_one (tokenize_word hw)]
    rfl
  unfold referentialActions at ha
  simp only [List.mem_cons, List.not_mem_nil, or_false] at ha
  rcases ha with rfl | rfl | rfl | rfl | rfl
  · obtain ⟨t, hrow, hkeyword⟩ := hone (w := "CASCADE") (by decide)
    refine ⟨[t], hrow, ?_⟩
    unfold referentialAction leadingKeyword?
    simp [hkeyword]
  · obtain ⟨t, hrow, hkeyword⟩ := hone (w := "RESTRICT") (by decide)
    refine ⟨[t], hrow, ?_⟩
    unfold referentialAction leadingKeyword?
    simp [hkeyword]
  · obtain ⟨t, u, hrow, hkeyword, -⟩ := htwo hno haction
    refine ⟨[t, u], hrow, ?_⟩
    unfold referentialAction leadingKeyword?
    simp [hkeyword]
  · obtain ⟨t, u, hrow, hkeyword, hwhat⟩ := htwo hset hnull
    refine ⟨[t, u], hrow, ?_⟩
    unfold referentialAction leadingKeyword?
    simp [hkeyword, hwhat, hps]
  · obtain ⟨t, u, hrow, hkeyword, hwhat⟩ := htwo hset hdefault
    refine ⟨[t, u], hrow, ?_⟩
    unfold referentialAction leadingKeyword?
    simp [hkeyword, hwhat, hps]

/-- The key with an action for an event. -/
def onEvent (key : ForeignKey) (event : String) (a : Option String) : ForeignKey :=
  if event = "DELETE" then { key with onDelete := a } else { key with onUpdate := a }

/-- **The action for an event is read**, and what follows it after that. -/
theorem read_action {event : String} (hevent : event = "DELETE" ∨ event = "UPDATE") {a : String}
    (ha : a ∈ referentialActions) {ps : List (List Char)} (hps : leadsGroup (rowOf ps) = false)
    (key : ForeignKey) : ∃ ts, rowOf (actionParts event (some a) ++ ps) = ts ++ rowOf ps
      ∧ referenceOptions e 0 key (ts ++ rowOf ps)
        = (referenceOptions e 0 (onEvent key event (some a)) (rowOf ps)).map
            fun (key, n) => (key, n + ts.length) := by
  obtain ⟨ts, hrow, haction⟩ := read_actionWords ha hps
  have hon : "ON" ∈ clauseWords := by decide
  have hword : event ∈ clauseWords := by
    rcases hevent with rfl | rfl
    · decide
    · decide
  generalize hafter : splitBy (· == ' ') a.toList ++ ps = after at hrow
  generalize hfirst : (⟨.word, "ON".toList, gapBefore (event.toList :: after)⟩ : Token) = first
  generalize hsecond : (⟨.word, event.toList, gapBefore after⟩ : Token) = second
  have hkeyword : first.isKeyword "ON" = true := by
    rw [← hfirst, isKeyword_word hon]
    rfl
  have hevents : ∀ k, leads k (second :: (ts ++ rowOf ps)) = decide (event = k) := by
    intro k
    rw [← hsecond]
    exact isKeyword_word hword _ k
  refine ⟨first :: second :: ts, ?_, ?_⟩
  · show rowOf ("ON".toList :: event.toList :: (splitBy (· == ' ') a.toList ++ ps)) = _
    rw [hafter, rowOf_one (tokenize_word hon), rowOf_one (tokenize_word hword), hrow, hfirst,
      hsecond]
    rfl
  · have hskip := fun key => referenceOptions_skip (e := e) key (second :: ts) (rowOf ps)
    simp only [List.length_cons, List.cons_append] at hskip
    rw [List.cons_append, List.cons_append, referenceOptions, if_pos hkeyword, List.tail_cons,
      haction, hevents, hevents]
    -- behind the event, the words of the action are passed over
    have hgoOn : (referenceOptions e (ts.length + 1) (onEvent key event (some a))
          (second :: (ts ++ rowOf ps))).map (fun (key, n) => (key, n + 1))
        = (referenceOptions e 0 (onEvent key event (some a)) (rowOf ps)).map
            fun (key, n) => (key, n + (first :: second :: ts).length) := by
      rw [hskip]
      cases referenceOptions e 0 (onEvent key event (some a)) (rowOf ps) with
      | error f => rfl
      | ok r => rfl
    rcases hevent with rfl | rfl
    · exact hgoOn
    · exact hgoOn

/-- Behind the target of a reference its actions are read. -/
theorem read_options (key : ForeignKey) (hkey : key.onDelete = none ∧ key.onUpdate = none)
    {deleted updated : Option String} (hdeleted : ∀ a ∈ deleted, a ∈ referentialActions)
    (hupdated : ∀ a ∈ updated, a ∈ referentialActions) {ps : List (List Char)}
    (hps : OptionsEnd (rowOf ps)) :
    ∃ ts, rowOf ((actionParts "DELETE" deleted ++ actionParts "UPDATE" updated) ++ ps)
        = ts ++ rowOf ps
      ∧ leadsGroup (ts ++ rowOf ps) = false
      ∧ referenceOptions e 0 key (ts ++ rowOf ps)
        = .ok ({ key with onDelete := deleted, onUpdate := updated }, ts.length) := by
  obtain ⟨schema, table, column, onDelete, onUpdate⟩ := key
  obtain ⟨rfl, rfl⟩ := hkey
  obtain ⟨hgroup, hend⟩ := hps
  -- the second action first, since the first one is read in front of it
  have hupdate : ∀ key : ForeignKey, key.onUpdate = none → ∃ ts,
      rowOf (actionParts "UPDATE" updated ++ ps) = ts ++ rowOf ps
        ∧ leadsGroup (ts ++ rowOf ps) = false
        ∧ referenceOptions e 0 key (ts ++ rowOf ps)
          = .ok ({ key with onUpdate := updated }, ts.length) := by
    intro key hkey
    cases updated with
    | none =>
      have hsame : { key with onUpdate := none } = key := by
        rw [← hkey]
      rw [hsame]
      exact ⟨[], rfl, hgroup, hend e key⟩
    | some a =>
      obtain ⟨ts, hrow, hread⟩ := read_action (e := e) (Or.inr rfl) (hupdated a rfl) hgroup key
      refine ⟨ts, hrow, ?_, ?_⟩
      · rw [← hrow]
        exact leadsGroup_word (w := "ON") (by decide) _
      · rw [hread, hend]
        show Except.ok (onEvent key "UPDATE" (some a), 0 + ts.length) = _
        rw [Nat.zero_add]
        rfl
  rw [List.append_assoc]
  cases deleted with
  | none =>
    exact hupdate ⟨schema, table, column, none, none⟩ rfl
  | some a =>
    obtain ⟨ts, hrow, hgroup', hread⟩ := hupdate ⟨schema, table, column, some a, none⟩ rfl
    rw [← hrow] at hgroup'
    obtain ⟨ts', hrow', hread'⟩ := read_action (e := e) (Or.inl rfl) (hdeleted a rfl) hgroup'
      ⟨schema, table, column, none, none⟩
    refine ⟨ts' ++ ts, ?_, ?_, ?_⟩
    · rw [hrow', hrow, List.append_assoc]
    · rw [List.append_assoc, ← hrow, ← hrow']
      exact leadsGroup_word (w := "ON") (by decide) _
    · rw [List.append_assoc, ← hrow, hread', hrow]
      show Except.map _ (referenceOptions e 0 ⟨schema, table, column, some a, none⟩ _) = _
      rw [hread, List.length_append]
      show Except.ok (_, ts.length + ts'.length) = _
      rw [Nat.add_comm]

/-- The tokens of a target touch, and what follows it does not. -/
theorem touching_target (gap : List Char) {ts : List Token} (us : List Token)
    (hts : ∀ t ∈ ts, t.gap = [] ∧ t.kind ≠ .group) (hne : ts ≠ []) (hus : us ≠ [] → gap ≠ []) :
    ∃ t rest, addGap gap ts = t :: rest ∧ t.kind ≠ .group
      ∧ touching t (rest ++ us) = rest.length := by
  induction ts with
  | nil => exact absurd rfl hne
  | cons t ts ih =>
    obtain ⟨hgap, hkind⟩ := hts t List.mem_cons_self
    cases ts with
    | nil =>
      refine ⟨_, [], rfl, hkind, ?_⟩
      cases us with
      | nil => rfl
      | cons u us =>
        rw [hgap, List.nil_append, List.nil_append, touching, if_neg]
        · rfl
        · simp [hus (List.cons_ne_nil u us)]
    | cons t' ts =>
      obtain ⟨t'', rest, hadd, hkind', htouching⟩ :=
        ih (fun x hx => hts x (List.mem_cons_of_mem t hx)) (List.cons_ne_nil t' ts)
      refine ⟨t, t'' :: rest, ?_, hkind, ?_⟩
      · rw [addGap_cons _ _ (List.cons_ne_nil t' ts), hadd]
      · rw [List.cons_append, touching, if_pos (by simp [hgap, hkind']), htouching,
          List.length_cons]

/-- The column behind the target of a reference, and the number of tokens it takes. -/
def targetColumn (us : List Token) : Except TableError (Option String × Nat) :=
  match us with
  | [] => pure (none, 0)
  | g :: _ =>
    if g.kind = .group then do
      let inside ← g.inside
      pure ((columnList inside).head?, 1)
    else pure (none, 0)

/-- What a reference is read to, step by step. -/
theorem reference_of {t : Token} {rest : List Token} {n m k : Nat} {table : String}
    {before : List String} {column : Option String} {key : ForeignKey}
    (htouching : touching t rest = n)
    (hparts : (splitQualified (spanText (t :: rest.take n))).reverse = table :: before)
    (hcolumn : targetColumn (rest.drop n) = .ok (column, m))
    (hoptions : referenceOptions e 0 ⟨before.head?, table, column, none, none⟩
      ((rest.drop n).drop m) = .ok (key, k)) :
    reference e (t :: rest) = .ok (key, 1 + n + m + k) := by
  subst htouching
  rw [reference, hparts]
  dsimp only
  generalize rest.drop (touching t rest) = behind at hcolumn hoptions ⊢
  unfold targetColumn at hcolumn
  -- a group behind the name lists the column; else none is named
  cases behind with
  | nil =>
    obtain ⟨rfl, rfl⟩ := Prod.mk.inj (Except.ok.inj hcolumn)
    rw [pure_bind, hoptions]
    rfl
  | cons g us =>
    dsimp only at hcolumn ⊢
    by_cases hkind : g.kind = .group
    · rw [if_pos hkind] at hcolumn ⊢
      cases hinside : g.inside with
      | error f =>
        rw [hinside] at hcolumn
        cases hcolumn
      | ok inside =>
        rw [hinside] at hcolumn
        obtain ⟨rfl, rfl⟩ := Prod.mk.inj (Except.ok.inj hcolumn)
        rw [show (Except.ok inside : Except TableError (List Char)) = pure inside from rfl,
          pure_bind, pure_bind, hoptions]
        rfl
    · rw [if_neg hkind] at hcolumn ⊢
      obtain ⟨rfl, rfl⟩ := Prod.mk.inj (Except.ok.inj hcolumn)
      rw [pure_bind, hoptions]
      rfl

/-- The column of a reference is read behind its target. -/
theorem read_column (column : Option String) {ps : List (List Char)} {us : List Token}
    (hrow : rowOf ps = us) (hgroup : leadsGroup us = false) :
    ∃ ts, rowOf (columnParts column ++ ps) = ts ++ us
      ∧ targetColumn (ts ++ us) = .ok (column, ts.length) := by
  cases column with
  | none =>
    refine ⟨[], hrow, ?_⟩
    cases us with
    | nil => rfl
    | cons g us =>
      have hkind : g.kind ≠ .group := by simpa [leadsGroup] using hgroup
      exact if_neg hkind
  | some c =>
    have hname := part_quoteChars c.toList
    refine ⟨[⟨.group, grouped (quoteChars c.toList), gapBefore ps⟩], ?_, ?_⟩
    · show rowOf (grouped (quoteChars c.toList) :: ps) = _
      rw [rowOf_one (tokenize_grouped hname.complete hname.nested), hrow]
      rfl
    · unfold targetColumn
      rw [List.singleton_append]
      dsimp only
      rw [if_pos rfl, inside_grouped]
      show Except.ok ((columnList (quoteChars c.toList)).head?, 1) = _
      rw [columnList_quoteChars, String.ofList_toList]
      rfl

/-- **A reference is read**: its target, its column and its actions. -/
theorem read_reference {k : ForeignKey} (hk : ∀ a, k.onDelete = some a ∨ k.onUpdate = some a →
      a ∈ referentialActions) {ps : List (List Char)} (hps : OptionsEnd (rowOf ps)) :
    ∃ ts, rowOf (referenceParts k ++ ps) = ts ++ rowOf ps
      ∧ reference e (ts ++ rowOf ps) = .ok (k, ts.length) := by
  obtain ⟨schema, table, column, onDelete, onUpdate⟩ := k
  obtain ⟨actions, hactions, hgroup, hoptions⟩ :=
    read_options (e := e) ⟨schema, table, column, none, none⟩ ⟨rfl, rfl⟩
      (fun a ha => hk a (Or.inl ha)) (fun a ha => hk a (Or.inr ha)) hps
  obtain ⟨columns, hcolumns, hcolumn⟩ := read_column column hactions hgroup
  generalize hmore : columnParts column ++ ((actionParts "DELETE" onDelete
    ++ actionParts "UPDATE" onUpdate) ++ ps) = more at hcolumns
  obtain ⟨hpart, htarget⟩ := qualified_solid (schema.map String.toList) table.toList
  obtain ⟨t, rest, hadd, -, htouching⟩ := touching_target (gapBefore more)
    (rowOf more) htarget (tokenize_part_ne_nil hpart) (by
      intro hne
      cases more with
      | nil => exact absurd rfl hne
      | cons p ps => exact List.cons_ne_nil _ _)
  have hspan : spanText (t :: rest) = qualified (schema.map String.toList) table.toList := by
    rw [← hadd, spanText_addGap, spanText_part hpart]
  have hparts : (splitQualified (qualified (schema.map String.toList) table.toList)).reverse
      = table :: schema.toList := by
    rw [splitQualified_qualified, List.reverse_append, String.ofList_toList]
    cases schema with
    | none => rfl
    | some s => simp
  have hschema : schema.toList.head? = schema := by
    cases schema with
    | none => rfl
    | some s => rfl
  -- the row: the name, then the column, then the actions
  have hrow : rowOf (referenceParts ⟨schema, table, column, onDelete, onUpdate⟩ ++ ps)
      = (t :: (rest ++ (columns ++ actions))) ++ rowOf ps := by
    unfold referenceParts
    rw [List.cons_append, List.append_assoc, hmore, rowOf_cons, hadd, hcolumns]
    simp
  have hname : (splitQualified (spanText (t :: (rest ++ (columns ++ (actions ++ rowOf ps))).take
      rest.length))).reverse = table :: schema.toList := by
    rw [List.take_left, hspan, hparts]
  rw [hcolumns] at htouching
  refine ⟨_, hrow, ?_⟩
  have hread := reference_of (e := e) htouching hname (by rw [List.drop_left]; exact hcolumn)
    (by rw [List.drop_left, List.drop_left, hschema]; exact hoptions)
  rw [List.cons_append, List.append_assoc, List.append_assoc, hread]
  simp only [List.length_cons, List.length_append]
  exact congrArg (fun n => Except.ok (_, n)) (by omega)

theorem read_foreign {k : Option ForeignKey} (hk : ∀ key ∈ k, ∀ a,
      key.onDelete = some a ∨ key.onUpdate = some a → a ∈ referentialActions)
    (hc : c.foreignKey = none) {ps : List (List Char)} (hps : OptionsEnd (rowOf ps)) :
    readClauses e 0 c (rowOf (foreignParts k ++ ps))
      = readClauses e 0 { c with foreignKey := k } (rowOf ps) := by
  cases k with
  | none =>
    have hsame : { c with foreignKey := none } = c := by
      rw [← hc]
    rw [hsame]
    rfl
  | some key =>
    have hword : "REFERENCES" ∈ clauseWords := by decide
    obtain ⟨ts, hrow, hread⟩ := read_reference (e := e) (hk key rfl) hps
    show readClauses e 0 c (rowOf ("REFERENCES".toList :: (referenceParts key ++ ps))) = _
    refine readClauses_word hword hrow ?_
    exact readClause_eq (.references (keyword?_word hword _) (hrow ▸ hread))

/-! ## §4. All clauses. -/

/-- No option of a reference begins a check. -/
theorem optionsEnd_check (k : Option String) : OptionsEnd (rowOf (checkParts k)) := by
  cases k with
  | none => exact ⟨rfl, fun _ _ => rfl⟩
  | some k =>
    have hword : "CHECK" ∈ clauseWords := by decide
    refine ⟨leadsGroup_word hword _, fun e key => ?_⟩
    show referenceOptions e 0 key (rowOf ("CHECK".toList :: [grouped k.toList])) = _
    rw [rowOf_one (tokenize_word hword), referenceOptions]
    simp only [isKeyword_word hword]
    rfl

theorem clausesFollow_word {w : String} (hw : w ∈ clauseWords) (hclause : w ∈ columnClauses)
    (ps : List (List Char)) : ClausesFollow (rowOf (w.toList :: ps)) := by
  rw [rowOf_one (tokenize_word hw)]
  intro t ht
  rw [← Option.some.inj ht]
  unfold Token.beginsClause
  rw [keyword?_word hw]
  exact List.contains_iff_mem.2 hclause

/-- Behind a default there are clauses, or nothing. -/
theorem clausesFollow_default (c : Column) :
    ClausesFollow (rowOf (keyParts c
      ++ (foreignParts c.foreignKey ++ checkParts c.checkExpr))) := by
  unfold keyParts
  cases c.inPrimaryKey with
  | true => exact clausesFollow_word (w := "PRIMARY") (by decide) (by decide) _
  | false =>
    cases c.isUnique with
    | true => exact clausesFollow_word (w := "UNIQUE") (by decide) (by decide) _
    | false =>
      cases c.foreignKey with
      | some k => exact clausesFollow_word (w := "REFERENCES") (by decide) (by decide) _
      | none =>
        cases c.checkExpr with
        | some k => exact clausesFollow_word (w := "CHECK") (by decide) (by decide) _
        | none => exact fun t ht => absurd ht (Option.not_mem_none t)

/-- Behind a type there are clauses, or nothing. -/
theorem clausesFollow_type (c : Column) : ClausesFollow (rowOf (clauseParts c)) := by
  unfold clauseParts
  cases c.nullable with
  | false => exact clausesFollow_word (w := "NOT") (by decide) (by decide) _
  | true =>
    cases c.defaultExpr with
    | some d => exact clausesFollow_word (w := "DEFAULT") (by decide) (by decide) _
    | none => exact clausesFollow_default c

/-- What leads some tokens does not depend on the gaps, nor on what follows. -/
theorem leads_addGap {ts : List Token} (h : ts ≠ []) (gap : List Char) (us : List Token) :
    (∀ k, leads k (addGap gap ts ++ us) = leads k ts)
      ∧ leadsGroup (addGap gap ts ++ us) = leadsGroup ts := by
  cases ts with
  | nil => exact absurd rfl h
  | cons t ts =>
    cases ts with
    | nil => exact ⟨fun _ => rfl, rfl⟩
    | cons t' ts => exact ⟨fun _ => rfl, rfl⟩

/-- **A type goes on up to the first clause.** -/
theorem upToClause_type {ts us : List Token} (hts : ∀ t ∈ ts, t.beginsClause = false)
    (hus : ClausesFollow us) : upToClause [] (ts ++ us) = ts.length := by
  have hall : ∀ t ∈ ts, (!(t.beginsClause && !t.keyword?.any [].contains)) = true := by
    intro t ht
    rw [hts t ht]
    rfl
  unfold upToClause
  rw [List.takeWhile_append_of_pos hall, List.length_append]
  cases us with
  | nil => rfl
  | cons u us =>
    have hnone : u.keyword?.any [].contains = false := by cases u.keyword? <;> rfl
    rw [List.takeWhile_cons_of_neg (by rw [hus u rfl, hnone]; decide)]
    rfl

/-- The parts of an action of a reference are its words. -/
theorem part_action {event : String} (hevent : event ∈ clauseWords) {a : Option String}
    (ha : ∀ x ∈ a, x ∈ referentialActions) : ∀ p ∈ actionParts event a, Part p := by
  have hwords : ∀ a ∈ referentialActions, ∀ p ∈ splitBy (· == ' ') a.toList,
      p ∈ clauseWords.map String.toList := by decide
  cases a with
  | none => exact List.forall_mem_nil _
  | some a =>
    refine List.forall_mem_cons.2 ⟨part_word (w := "ON") (by decide), ?_⟩
    refine List.forall_mem_cons.2 ⟨part_word hevent, fun p hp => ?_⟩
    obtain ⟨w, hw, rfl⟩ := List.mem_map.1 (hwords a (ha a rfl) p hp)
    exact part_word hw

/-- The parts of a foreign key. -/
theorem part_foreign {k : Option ForeignKey} (hk : ∀ key ∈ k, ∀ a,
    key.onDelete = some a ∨ key.onUpdate = some a → a ∈ referentialActions) :
    ∀ p ∈ foreignParts k, Part p := by
  cases k with
  | none => exact List.forall_mem_nil _
  | some k =>
    have hcolumn : ∀ p ∈ columnParts k.column, Part p := by
      cases k.column with
      | none => exact List.forall_mem_nil _
      | some c =>
        have hname := part_quoteChars c.toList
        exact List.forall_mem_singleton.2
          (part_grouped hname.complete hname.uncommented hname.nested)
    refine List.forall_mem_cons.2 ⟨part_word (w := "REFERENCES") (by decide), ?_⟩
    refine List.forall_mem_cons.2 ⟨(qualified_solid _ _).1, ?_⟩
    refine List.forall_mem_append.2 ⟨hcolumn, List.forall_mem_append.2 ⟨?_, ?_⟩⟩
    · exact part_action (by decide) fun a ha => hk k rfl a (Or.inl ha)
    · exact part_action (by decide) fun a ha => hk k rfl a (Or.inr ha)

end SchemaDrift.Table
