/-
  SchemaDrift.Proofs.Table.Columns
  ────────────────────────────────
  **THE TEXTS OF THE COLUMNS OF A TABLE MAKE NO MARKER LINE.**

  A column carries texts of the definition it was read from: its type, its default, the
  condition it is checked by and the actions of its reference.  If no marker begins in the
  definition, none begins in any of these (`parse_unmarked`).
-/

import SchemaDrift.Proofs.Table.ClauseKinds
import SchemaDrift.Proofs.Table.Span

namespace SchemaDrift

open SchemaDrift.Sql SchemaDrift.Text SchemaDrift.Table

/-! ## §1. Columns without markers. -/

/-- The actions of a reference are of one line each. -/
def ForeignKey.ActionsInline (k : ForeignKey) : Prop :=
  ∀ a, k.onDelete = some a ∨ k.onUpdate = some a → Inline a

/-- No marker begins in a text of the column. -/
structure Column.TextsUnmarked (c : Column) : Prop where
  type : MarkerFree c.dataType
  default : ∀ x, c.defaultExpr = some x → MarkerFree x
  check : ∀ x, c.checkExpr = some x → MarkerFree x
  reference : ∀ k, c.foreignKey = some k → k.ActionsInline

theorem Column.TextsUnmarked.enforceKey {c : Column} (h : c.TextsUnmarked) :
    c.enforceKey.TextsUnmarked := by
  unfold Column.enforceKey
  split
  · exact ⟨h.type, h.default, h.check, h.reference⟩
  · exact h

namespace Table

/-! ## §2. References. -/

/-- The words of the row are of one line each. -/
def WordsInline (ts : List Token) : Prop := ∀ t ∈ ts, t.kind = .word → '\n' ∉ t.text

theorem wordsInline_tokenize (e : List Char) : WordsInline (tokenize e) := by
  intro t ht hword
  obtain ⟨a, b, hab⟩ := List.append_of_mem ht
  exact feed_not_mem_word hab hword

theorem WordsInline.subset {ts ts' : List Token} (h : WordsInline ts) (hsub : ts' ⊆ ts) :
    WordsInline ts' := fun t ht => h t (hsub ht)

/-- A keyword is of one line. -/
theorem keyword_inline {ts : List Token} (h : WordsInline ts) {k : String}
    (hk : leadingKeyword? ts = some k) : Inline k := by
  cases ts with
  | nil => cases hk
  | cons t ts =>
    change t.keyword? = some k at hk
    unfold Token.keyword? at hk
    split at hk
    · next hword =>
      unfold Inline
      rw [← Option.some.inj hk, String.toList_ofList]
      intro hmem
      unfold asciiUpper at hmem
      obtain ⟨c, hc, hfeed⟩ := List.mem_map.1 hmem
      rw [eq_feed_of_toUpper hfeed] at hc
      exact h t List.mem_cons_self hword hc
    · cases hk

theorem referentialAction_inline {ts : List Token} (h : WordsInline ts) {a : String}
    (ha : (referentialAction ts).1 = some a) : Inline a := by
  unfold referentialAction at ha
  split at ha
  · cases ha
  · rw [← Option.some.inj ha]
    decide
  · rw [← Option.some.inj ha, inline_append]
    refine ⟨by decide, ?_⟩
    cases hk : leadingKeyword? ts.tail with
    | none => decide
    | some k => exact keyword_inline (h.subset fun _ ht => List.mem_of_mem_tail ht) hk
  · next action _ _ hk =>
    rw [← Option.some.inj ha]
    exact keyword_inline h hk

theorem referenceOptions_inline {e : Entry} {ts : List Token} (h : WordsInline ts) {skip n : Nat}
    {key key' : ForeignKey} (hkey : key.ActionsInline)
    (hread : referenceOptions e skip key ts = .ok (key', n)) : key'.ActionsInline := by
  induction ts generalizing skip key n with
  | nil =>
    obtain ⟨rfl, -⟩ := Prod.mk.inj (Except.ok.inj hread)
    exact hkey
  | cons t ts ih =>
    have hrest : WordsInline ts := h.subset (List.subset_cons_self t ts)
    -- reading on with a key of one line
    have hgo : ∀ {skip : Nat} {key : ForeignKey}, key.ActionsInline →
        (referenceOptions e skip key ts).map (fun r => (r.1, r.2 + 1)) = .ok (key', n) →
        key'.ActionsInline := by
      intro skip key hkey hread
      obtain ⟨⟨key'', n'⟩, hr, hpair⟩ := map_eq_ok.1 hread
      obtain ⟨rfl, -⟩ := Prod.mk.inj hpair
      exact ih hrest hkey hr
    unfold referenceOptions at hread
    dsimp only at hread
    split at hread
    · exact hgo hkey hread
    · split at hread
      · have haction : ∀ a, (referentialAction ts.tail).1 = some a → Inline a :=
          fun a ha => referentialAction_inline (hrest.subset fun _ ht => List.mem_of_mem_tail ht) ha
        split at hread
        · refine hgo ?_ hread
          rintro a (ha | ha)
          · exact haction a ha
          · exact hkey a (Or.inr ha)
        · split at hread
          · refine hgo ?_ hread
            rintro a (ha | ha)
            · exact hkey a (Or.inl ha)
            · exact haction a ha
          · cases hread
      · split at hread
        · exact hgo hkey hread
        · split at hread
          · exact hgo hkey hread
          · split at hread
            · exact hgo hkey hread
            · obtain ⟨rfl, -⟩ := Prod.mk.inj (Except.ok.inj hread)
              exact hkey

theorem reference_inline {e : Entry} {ts : List Token} (h : WordsInline ts) {key : ForeignKey}
    {n : Nat} (hread : reference e ts = .ok (key, n)) : key.ActionsInline := by
  cases ts with
  | nil => cases hread
  | cons t ts =>
    -- what is left once the column of the reference is read
    have hoptions : ∀ {start : ForeignKey} {m l i : Nat},
        start.onDelete = none → start.onUpdate = none →
        (referenceOptions e 0 start ((ts.drop l).drop m) >>= fun r => pure (r.1, i + r.2))
          = Except.ok (key, n) → key.ActionsInline := by
      intro start m l i hdelete hupdate hread
      obtain ⟨⟨key', k⟩, hoptions, hlast⟩ := bind_eq_ok.1 hread
      obtain ⟨rfl, -⟩ := Prod.mk.inj (Except.ok.inj hlast)
      refine referenceOptions_inline (h.subset ?_) ?_ hoptions
      · exact fun x hx => List.mem_cons_of_mem t (List.mem_of_mem_drop (List.mem_of_mem_drop hx))
      · rintro a (ha | ha)
        · rw [hdelete] at ha
          cases ha
        · rw [hupdate] at ha
          cases ha
    unfold reference at hread
    dsimp only at hread
    split at hread
    · cases hread
    · split at hread
      · exact hoptions (m := 0) rfl rfl hread
      · split at hread
        · obtain ⟨inside, -, hread⟩ := bind_eq_ok.1 hread
          exact hoptions (m := 1) rfl rfl hread
        · exact hoptions (m := 0) rfl rfl hread

/-! ## §3. Clauses. -/

variable {e : Entry}

/-- A clause adds no text with a marker to a column. -/
theorem readClause_unmarked (he : Clean e.text) {a rest : List Token} {t : Token}
    (htokens : tokenize e.text = a ++ t :: rest) {c c' : Column} {n : Nat} (hc : c.TextsUnmarked)
    (hread : readClause e c t rest = .ok (c', n)) : c'.TextsUnmarked := by
  have hwords : WordsInline rest := by
    refine (wordsInline_tokenize e.text).subset fun x hx => ?_
    rw [htokens]
    exact List.mem_append_right a (List.mem_cons_of_mem t hx)
  have hkind := clauseKind e c t rest
  rw [hread] at hkind
  -- only a default, a reference and a check take a text of the entry
  cases hkind with
  | constraint | not | primary | checkWord | collate | generated | other => exact hc
  | notNull | null | primaryKey | unique =>
    exact ⟨hc.type, hc.default, hc.check, hc.reference⟩
  | default _ _ _ hexpression =>
    refine ⟨hc.type, fun x hx => ?_, hc.check, hc.reference⟩
    have hsplit : tokenize e.text = (a ++ [t]) ++ (rest.take n ++ rest.drop n) := by
      rw [htokens, List.take_append_drop]
      simp
    have hspan := unmarked_span he.unmarked hsplit
    unfold defaultValue at hx
    split at hx
    · cases hx
    · unfold MarkerFree
      rw [← Option.some.inj hx, String.toList_ofList, ← hexpression]
      exact unmarked_normalize hspan.quoted
  | references _ hkey =>
    refine ⟨hc.type, hc.default, hc.check, fun k hk => ?_⟩
    cases hk
    exact reference_inline hwords hkey
  | @check g behind inside _ hrest hgroup hinside =>
    refine ⟨hc.type, hc.default, fun x hx => ?_, hc.reference⟩
    unfold MarkerFree
    rw [← Option.some.inj hx, String.toList_ofList]
    refine unmarked_normalize (unmarked_inside he (a := a ++ [t]) (b := behind) ?_ hgroup hinside)
    rw [htokens, hrest]
    simp

theorem readClauses_unmarked (he : Clean e.text) {ts : List Token} :
    ∀ {a : List Token}, tokenize e.text = a ++ ts → ∀ {skip : Nat} {c c' : Column},
      c.TextsUnmarked → readClauses e skip c ts = .ok c' → c'.TextsUnmarked := by
  induction ts with
  | nil =>
    intro a _ skip c c' hc hread
    rw [← Except.ok.inj hread]
    exact hc
  | cons t ts ih =>
    intro a htokens skip c c' hc hread
    have hbehind : tokenize e.text = (a ++ [t]) ++ ts := by
      rw [htokens]
      simp
    unfold readClauses at hread
    split at hread
    · exact ih hbehind hc hread
    · obtain ⟨⟨c'', n⟩, hclause, hrest⟩ := bind_eq_ok.1 hread
      exact ih hbehind (readClause_unmarked he htokens hc hclause) hrest

/-! ## §4. Entries. -/

/-- **A column that is read from a clean entry has no text with a marker.** -/
theorem column_unmarked {text : List Char} (he : Clean text) {c : Column}
    (hread : (Entry.of text).column = .ok c) : c.TextsUnmarked := by
  unfold Entry.column at hread
  split at hread
  · cases hread
  · next t rest htokens =>
    have htokens : tokenize text = t :: rest := htokens
    split at hread
    · dsimp only at hread
      split at hread
      · cases hread
      · generalize hn : upToClause [] rest = n at hread
        -- the type is the text of a span of the entry
        have hnew : (Column.new (unquoteIdent t.text)
            (String.ofList (spanText (rest.take n)))).TextsUnmarked := by
          have hsplit : tokenize text = [t] ++ (rest.take n ++ rest.drop n) := by
            rw [htokens, List.take_append_drop]
            simp
          have hspan := unmarked_span he.unmarked hsplit
          refine ⟨?_, fun x hx => ?_, fun x hx => ?_, fun k hk => ?_⟩
          · unfold Column.new MarkerFree
            rw [String.toList_ofList, String.toList_ofList]
            exact unmarked_canonicalType hspan.quoted
          · cases hx
          · cases hx
          · cases hk
        obtain ⟨c', hclauses, rfl⟩ := map_eq_ok.1 hread
        refine (readClauses_unmarked (e := Entry.of text) he (a := t :: rest.take n) ?_ hnew
          hclauses).enforceKey
        show tokenize text = _
        rw [htokens, List.cons_append, List.take_append_drop]
    · cases hread

/-- The references that constraints of the table make are of one line each. -/
def KeyClauses.ActionsInline (k : KeyClauses) : Prop :=
  ∀ x ∈ k.foreignKeys, x.2.ActionsInline

theorem add_inline {k k' : KeyClauses} (hk : k.ActionsInline) {text : List Char}
    (hread : k.add (Entry.of text) = .ok k') : k'.ActionsInline := by
  have hkind := constraintKind k (Entry.of text)
  rw [hread] at hkind
  generalize hadd : (.ok k' : Except TableError KeyClauses) = r at hkind
  cases hkind with
  | other | noList | primaryKey =>
    rw [Except.ok.inj hadd]
    exact hk
  | broken | noReference | noTarget => cases hadd
  | unique =>
    obtain ⟨d, hd, hcases⟩ := ofSingle_cases k _ _
    rw [Except.ok.inj (hadd.trans hd)]
    rcases hcases with rfl | ⟨c, rfl⟩
    · exact hk
    · exact hk
  | foreignKey hw hlist hinside htarget href =>
    have hwords : WordsInline ((Entry.of text).constraint.drop 4) :=
      (wordsInline_tokenize text).subset fun x hx =>
        (Entry.of text).constraint_subset (List.mem_of_mem_drop hx)
    obtain ⟨d, hd, hcases⟩ := ofSingle_cases k _ _
    rw [Except.ok.inj (hadd.trans hd)]
    rcases hcases with rfl | ⟨c, rfl⟩
    · exact hk
    · intro x hx
      rcases List.mem_cons.1 hx with rfl | hx
      · exact reference_inline hwords href
      · exact hk x hx

theorem foldlM_add_inline {entries : List Entry}
    (hentries : ∀ e ∈ entries, ∃ text, e = Entry.of text)
    {k k' : KeyClauses} (hk : k.ActionsInline) (hread : entries.foldlM KeyClauses.add k = .ok k') :
    k'.ActionsInline := by
  refine foldlM_keeps (fun e he {b b'} hb hadd => ?_) hk hread
  obtain ⟨text, rfl⟩ := hentries e he
  exact add_inline hb hadd

/-- What the constraints of the table say adds no text with a marker to a column. -/
theorem apply_unmarked {k : KeyClauses} (hk : k.ActionsInline) {c : Column}
    (hc : c.TextsUnmarked) : (k.apply c).TextsUnmarked := by
  unfold KeyClauses.apply
  refine Column.TextsUnmarked.enforceKey ⟨hc.type, hc.default, hc.check, fun key hkey => ?_⟩
  cases hown : c.foreignKey with
  | some own =>
    rw [hown] at hkey
    exact hc.reference key (hown.trans hkey)
  | none =>
    rw [hown] at hkey
    obtain ⟨l, l', hl, -⟩ := List.lookup_eq_some_iff.1 hkey
    exact hk (c.name, key) (by rw [hl]; simp)

/-! ## §5. Tables. -/

theorem readColumns_unmarked {k : KeyClauses} (hk : k.ActionsInline) {entries : List Entry}
    (hentries : ∀ e ∈ entries, ∃ text, e = Entry.of text ∧ Clean text)
    {before columns : List Column}
    (hbefore : ∀ c ∈ before, c.TextsUnmarked)
    (hread : readColumns k before entries = .ok columns) : ∀ c ∈ columns, c.TextsUnmarked := by
  refine readColumns_keeps (P := fun cs => ∀ c ∈ cs, c.TextsUnmarked)
    (fun e he {cs c} hcs hcolumn _ => ?_) hbefore hread
  obtain ⟨text, rfl, hclean⟩ := hentries e he
  rw [List.forall_mem_append, List.forall_mem_singleton]
  exact ⟨hcs, apply_unmarked hk (column_unmarked hclean hcolumn)⟩

/-- **The columns of a table have no text with a marker if its definition has none.** -/
theorem parse_unmarked {sql : List Char} (hsql : Unmarked [] sql) {t : Table}
    (hread : parse sql = .ok t) : ∀ c ∈ t.columns, c.TextsUnmarked := by
  unfold parse at hread
  dsimp only at hread
  split at hread
  · cases hread
  · next head hhead =>
    split at hread
    · cases hread
    · next body hbody =>
      have hclean : Clean body := clean_body (unmarked_stripComments hsql) hhead hbody
      have hentries : ∀ e ∈ (splitTopLevel body).map Entry.of,
          ∃ text, e = Entry.of text ∧ Clean text := by
        intro e he
        obtain ⟨text, htext, rfl⟩ := List.mem_map.1 he
        exact ⟨text, rfl, clean_entry hclean htext⟩
      obtain ⟨keys, hkeys, hread⟩ := bind_eq_ok.1 hread
      obtain ⟨columns, hcolumns, hread⟩ := bind_eq_ok.1 hread
      have hinline : keys.ActionsInline := by
        refine foldlM_add_inline (fun e he => ?_) (fun x hx => by cases hx) hkeys
        obtain ⟨text, heq, -⟩ := hentries e (List.mem_filter.1 he).1
        exact ⟨text, heq⟩
      split at hread
      · cases hread
      · rw [← Except.ok.inj hread]
        exact readColumns_unmarked hinline (fun e he => hentries e (List.mem_filter.1 he).1)
          (fun c hc => by cases hc) hcolumns

end Table

end SchemaDrift
