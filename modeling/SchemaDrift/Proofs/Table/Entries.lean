/-
  SchemaDrift.Proofs.Table.Entries
  ────────────────────────────────
  **A DEFINITION AS IT WAS WRITTEN, ENTRY BY ENTRY.**

  A definition is a head, a parenthesis, the texts of its entries with commas between them, and
  the parenthesis that closes the body (`laid`).  Every text that can be read is of this form,
  comments included (`exists_laid`), and the table in it depends on the texts of the entries one
  by one (`parse_laid`): so an entry can be put in, or exchanged, without a look at the others.

      level           the brackets that are open behind a row in which no entry ends
      Entire          a text that is one entry, wherever it stands between two commas
      entries_insert  an entry put in between two others
-/

import SchemaDrift.Proofs.Table.Redeclared

namespace SchemaDrift.Table

open SchemaDrift.Sql SchemaDrift.Text

/-! ## §1. Rows in which no entry ends. -/

/-- The parentheses and brackets that are open behind a row, as the cutting at commas counts them,
so many being open in front of it; none if an entry ends in it, at a comma or with the body. -/
def level (parens brackets : Nat) : List Glyph → Option (Nat × Nat)
  | [] => some (parens, brackets)
  | g :: rest =>
    if parens = 0 ∧ (g.isCode ')' = true ∨ g.isCode ',' = true ∧ brackets = 0) then none
    else
      level (countBrackets '(' ')' g parens) (countBrackets '[' ']' g brackets) rest

theorem level_append (gs hs : List Glyph) (parens brackets : Nat) :
    level parens brackets (gs ++ hs)
      = (level parens brackets gs).bind fun open' => level open'.1 open'.2 hs := by
  induction gs generalizing parens brackets with
  | nil => rfl
  | cons g gs ih =>
    rw [List.cons_append, level, level]
    split
    · rfl
    · exact ih _ _

/-- A row in which no entry ends belongs to the first part of what follows. -/
theorem commaParts_level {gs : List Glyph} {parens brackets parens' brackets' : Nat}
    (h : level parens brackets gs = some (parens', brackets')) (hs : List Glyph) :
    commaParts parens brackets (gs ++ hs)
      = prepend (gs.map Glyph.char) (commaParts parens' brackets' hs) := by
  induction gs generalizing parens brackets with
  | nil =>
    obtain ⟨rfl, rfl⟩ := Prod.mk.inj (Option.some.inj h)
    obtain ⟨part, parts, hparts⟩ := commaParts_ne_nil parens brackets hs
    rw [List.nil_append, hparts]
    rfl
  | cons g gs ih =>
    rw [level] at h
    split at h
    · cases h
    · next hgo =>
      have hcomma : parens + brackets = 0 → g.isCode ',' = false := by
        intro hzero
        by_contra hcomma
        exact hgo ⟨by omega, Or.inr ⟨by simpa using hcomma, by omega⟩⟩
      have hrest := ih h
      unfold countBrackets at hrest
      rw [List.cons_append, commaParts_cons hcomma, hrest, prepend_prepend]
      rfl

/-- A row in which no entry ends is inside of the body. -/
theorem enclosed?_level {gs : List Glyph} {parens brackets parens' brackets' : Nat}
    (h : level parens brackets gs = some (parens', brackets')) (hs : List Glyph) :
    enclosed? parens (gs ++ hs) = (enclosed? parens' hs).map (gs.map Glyph.char ++ ·) := by
  induction gs generalizing parens brackets with
  | nil =>
    obtain ⟨rfl, -⟩ := Prod.mk.inj (Option.some.inj h)
    simp
  | cons g gs ih =>
    rw [level] at h
    split at h
    · cases h
    · next hgo =>
      have hrest := ih h
      unfold countBrackets at hrest
      rw [List.cons_append, enclosed?.eq_def]
      dsimp only
      by_cases hopen : g.isCode '(' = true
      · rw [if_pos hopen] at hrest ⊢
        rw [hrest, Option.map_map]
        rfl
      · rw [if_neg hopen] at hrest ⊢
        by_cases hclose : g.isCode ')' = true
        · rw [if_pos hclose] at hrest ⊢
          cases parens with
          | zero => exact absurd ⟨rfl, Or.inl hclose⟩ hgo
          | succ n =>
            rw [Nat.add_sub_cancel] at hrest
            dsimp only
            rw [hrest, Option.map_map]
            rfl
        · rw [if_neg hclose] at hrest ⊢
          rw [hrest, Option.map_map]
          rfl

theorem level_gaps {a : List Glyph} (ha : ∀ g ∈ a, g.isGap = true) (parens brackets : Nat) :
    level parens brackets a = some (parens, brackets) := by
  induction a with
  | nil => rfl
  | cons g a ih =>
    obtain ⟨hg, ha⟩ := List.forall_mem_cons.1 ha
    have hno : ∀ c, isBlank c = false → g.isCode c = false := fun c hc => isCode_of_gap hg hc
    unfold level countBrackets
    rw [hno ',' (by decide), hno '(' (by decide), hno ')' (by decide), hno '[' (by decide),
      hno ']' (by decide)]
    simpa using ih ha

/-- Respaced rows leave the same brackets open. -/
theorem level_respaced {gs hs : List Glyph} (h : Respaced gs hs) (parens brackets : Nat) :
    level parens brackets gs = level parens brackets hs := by
  induction h generalizing parens brackets with
  | nil => rfl
  | same _ _ ih =>
    rw [level, level]
    split
    · rfl
    · exact ih _ _
  | gap ha hb _ _ ih =>
    rw [level_append, level_append, level_gaps ha.gaps, level_gaps hb.gaps]
    exact ih parens brackets

/-- **Where no bracket is open behind a row, the reader of tokens is outside of groups.** -/
theorem outside_of_level {gs : List Glyph} {parens brackets : Nat} {r : Reading}
    (hr : r.Below parens brackets) (h : level parens brackets gs = some (0, 0)) :
    ¬(r.through gs).InGroup := by
  induction gs generalizing parens brackets r with
  | nil =>
    obtain ⟨rfl, rfl⟩ := Prod.mk.inj (Option.some.inj h)
    exact hr.outside
  | cons g gs ih =>
    rw [level] at h
    split at h
    · cases h
    · exact ih (below_next hr g) h

/-- **The first entry of a body ends at a comma, or with the body.** -/
theorem level_enclosed {gs : List Glyph} {parens : Nat} {body : List Char}
    (h : enclosed? parens gs = some body) (brackets : Nat) :
    (∃ entry behind brackets', gs = entry ++ ⟨')', .code⟩ :: behind
        ∧ level parens brackets entry = some (0, brackets'))
      ∨ ∃ entry behind, gs = entry ++ ⟨',', .code⟩ :: behind
        ∧ level parens brackets entry = some (0, 0) ∧ enclosed? 0 behind ≠ none := by
  induction gs generalizing parens brackets body with
  | nil => cases h
  | cons g gs ih =>
    by_cases hend : parens = 0 ∧ (g.isCode ')' = true ∨ g.isCode ',' = true ∧ brackets = 0)
    · obtain ⟨rfl, hclose | ⟨hcomma, rfl⟩⟩ := hend
      · exact Or.inl ⟨[], gs, brackets, by rw [Glyph.isCode_iff.1 hclose]; rfl, rfl⟩
      · refine Or.inr ⟨[], gs, by rw [Glyph.isCode_iff.1 hcomma]; rfl, rfl, fun hnone => ?_⟩
        rw [Glyph.isCode_iff.1 hcomma, enclosed?_other rfl rfl, hnone] at h
        cases h
    · have hgo : ∀ entry, level parens brackets (g :: entry)
          = level (countBrackets '(' ')' g parens) (countBrackets '[' ']' g brackets) entry :=
        fun entry => by rw [level, if_neg hend]
      obtain ⟨body', hbody⟩ : ∃ body', enclosed? (countBrackets '(' ')' g parens) gs = some body' := by
        have hmore := @enclosed?_level [g] _ _ _ _ ((hgo []).trans rfl) gs
        rw [List.singleton_append, h] at hmore
        obtain ⟨body', hbody, -⟩ := Option.map_eq_some_iff.1 hmore.symm
        exact ⟨body', hbody⟩
      rcases ih hbody (countBrackets '[' ']' g brackets) with ⟨entry, behind, brackets', rfl, hlevel⟩
        | ⟨entry, behind, rfl, hlevel, hmore⟩
      · exact Or.inl ⟨g :: entry, behind, brackets', rfl, by rw [hgo, hlevel]⟩
      · exact Or.inr ⟨g :: entry, behind, rfl, by rw [hgo, hlevel], hmore⟩

/-! ## §2. Texts of entries. -/

/-- The text is one entry wherever it stands between commas: it ends in code, and no comma or
parenthesis in it ends an entry. -/
structure Entire (e : List Char) : Prop where
  complete : Complete e
  level : level 0 0 (classify e) = some (0, 0)

/-- The texts are the entries of a body, one by one.  In the last of them brackets may be left
open, which are closed with the body. -/
inductive Entries : List (List Char) → Prop where
  | last {e : List Char} {brackets : Nat} (he : Complete e)
      (hlevel : level 0 0 (classify e) = some (0, brackets)) : Entries [e]
  | more {e : List Char} {es : List (List Char)} (he : Entire e) (hes : Entries es) :
      Entries (e :: es)

theorem Entries.complete {es : List (List Char)} (h : Entries es) : ∀ e ∈ es, Complete e := by
  induction h with
  | last he _ => exact List.forall_mem_singleton.2 he
  | more he _ ih => exact List.forall_mem_cons.2 ⟨he.complete, ih⟩

theorem Entries.ne_nil {es : List (List Char)} (h : Entries es) : es ≠ [] := by
  cases h with
  | last _ _ => exact List.cons_ne_nil _ _
  | more _ _ => exact List.cons_ne_nil _ _

/-- Texts that are whole entries are the entries of a body. -/
theorem entries_of_entire {es : List (List Char)} (hne : es ≠ []) (h : ∀ e ∈ es, Entire e) :
    Entries es := by
  induction es with
  | nil => exact absurd rfl hne
  | cons e es ih =>
    obtain ⟨he, hes⟩ := List.forall_mem_cons.1 h
    cases es with
    | nil => exact .last he.complete he.level
    | cons e' es => exact .more he (ih (List.cons_ne_nil e' es) hes)

/-- The texts with commas between them, and the parenthesis behind. -/
def bodyOf (es : List (List Char)) (q : List Char) : List Char := [','].intercalate es ++ ')' :: q

theorem bodyOf_singleton (e q : List Char) : bodyOf [e] q = e ++ ')' :: q := by
  unfold bodyOf
  rw [List.intercalate_singleton]

theorem bodyOf_cons (e : List Char) {es : List (List Char)} (h : es ≠ []) (q : List Char) :
    bodyOf (e :: es) q = e ++ ',' :: bodyOf es q := by
  obtain ⟨x, es, rfl⟩ := List.exists_cons_of_ne_nil h
  unfold bodyOf
  rw [List.intercalate_cons_cons, List.append_assoc, List.append_assoc]
  rfl

theorem intercalate_cons (e : List Char) {es : List (List Char)} (h : es ≠ []) :
    [','].intercalate (e :: es) = e ++ ',' :: [','].intercalate es := by
  obtain ⟨x, es, rfl⟩ := List.exists_cons_of_ne_nil h
  rw [List.intercalate_cons_cons, List.append_assoc]
  rfl

/-- **A body is the texts of its entries**, up to the parenthesis that closes it. -/
theorem enclosed?_entries {es : List (List Char)} (h : Entries es) (q : List Char) :
    enclosed? 0 (classify (bodyOf es q)) = some ([','].intercalate es) := by
  have hparen : IsFirm ')' := isFirm_between (by decide)
  induction h with
  | @last e _ he hlevel =>
    rw [bodyOf_singleton, classify_join he hparen, enclosed?_level hlevel, classify_map_char,
      List.intercalate_singleton]
    show some (e ++ []) = some e
    rw [List.append_nil]
  | @more e es he hes ih =>
    rw [bodyOf_cons e hes.ne_nil, classify_join he.complete isFirm_comma, enclosed?_level he.level,
      enclosed?_other rfl rfl, ih, classify_map_char, intercalate_cons e hes.ne_nil]
    rfl

/-- **A body is cut into the texts of its entries.** -/
theorem commaParts_entries {es : List (List Char)} (h : Entries es) :
    commaParts 0 0 (classify ([','].intercalate es)) = es := by
  induction h with
  | @last e brackets he hlevel =>
    have hparts := commaParts_level hlevel []
    rw [List.append_nil, classify_map_char] at hparts
    rw [List.intercalate_singleton, hparts]
    show [e ++ []] = [e]
    rw [List.append_nil]
  | @more e es he hes ih =>
    rw [intercalate_cons e hes.ne_nil, classify_join he.complete isFirm_comma,
      commaParts_level he.level, classify_map_char]
    show prepend e ([] :: commaParts 0 0 (classify ([','].intercalate es))) = e :: es
    rw [ih]
    show (e ++ []) :: es = e :: es
    rw [List.append_nil]

/-- **Every body that is closed is the texts of some entries.** -/
theorem exists_entries {r : List Char} (h : enclosed? 0 (classify r) ≠ none) :
    ∃ es q, Entries es ∧ r = bodyOf es q := by
  have hparen : IsFirm ')' := isFirm_between (by decide)
  generalize hn : r.length = n
  induction n using Nat.strongRecOn generalizing r with
  | _ n ih =>
    obtain ⟨body, hbody⟩ := Option.ne_none_iff_exists'.1 h
    rcases level_enclosed hbody 0 with ⟨entry, behind, brackets, hsplit, hlevel⟩
      | ⟨entry, behind, hsplit, hlevel, hmore⟩
    · obtain ⟨hclassify, hcomplete, -⟩ := classify_cut hparen hsplit
      refine ⟨[entry.map Glyph.char], behind.map Glyph.char, .last hcomplete (hclassify.symm ▸ hlevel), ?_⟩
      rw [bodyOf_singleton]
      exact (Lexer.glyphs_split hsplit).1
    · obtain ⟨hclassify, hcomplete, hbehind, -⟩ := classify_cut isFirm_comma hsplit
      have htext : r = entry.map Glyph.char ++ ',' :: behind.map Glyph.char :=
        (Lexer.glyphs_split hsplit).1
      rw [← hbehind] at hmore
      obtain ⟨es, q, hes, hrest⟩ := ih _ (by
        rw [← hn, htext, List.length_append, List.length_cons]
        omega) hmore rfl
      refine ⟨entry.map Glyph.char :: es, q, .more ⟨hcomplete, hclassify.symm ▸ hlevel⟩ hes, ?_⟩
      rw [bodyOf_cons _ hes.ne_nil, ← hrest, htext]

/-! ## §3. Without the comments. -/

/-- Comments are blanked on the two sides of a glyph that is of none. -/
theorem blankRow_append {g : Glyph} (hg : g.cls ≠ .comment) (gs hs : List Glyph) (inComment : Bool) :
    blankRow inComment (gs ++ g :: hs) = blankRow inComment gs ++ g :: blankRow false hs := by
  induction gs generalizing inComment with
  | nil =>
    exact if_neg hg
  | cons x gs ih =>
    rw [List.cons_append, blankRow, blankRow]
    split
    · split
      · exact ih true
      · rw [ih true]
        rfl
    · rw [ih false]
      rfl

/-- A glyph of a row with blanked comments that is no gap is one of the row. -/
theorem blankRow_split {g : Glyph} (hg : g.isGap = false) {gs xs ys : List Glyph} {inComment : Bool}
    (h : blankRow inComment gs = xs ++ g :: ys) : ∃ front behind, gs = front ++ g :: behind
      ∧ blankRow inComment front = xs ∧ blankRow false behind = ys := by
  induction gs generalizing xs inComment with
  | nil => exact absurd h.symm (List.append_ne_nil_of_right_ne_nil _ (List.cons_ne_nil _ _))
  | cons x gs ih =>
    have hback : ∀ {c : Bool} {pre xs' : List Glyph}, (∀ hs, blankRow inComment (x :: hs) = pre ++ blankRow c hs) →
        blankRow c gs = xs' ++ g :: ys → pre ++ xs' = xs →
        ∃ front behind, x :: gs = front ++ g :: behind ∧ blankRow inComment front = xs
          ∧ blankRow false behind = ys := by
      intro c pre xs' hstep hrest hxs
      obtain ⟨front, behind, rfl, hfront, hbehind⟩ := ih hrest
      exact ⟨x :: front, behind, rfl, by rw [hstep, hfront, hxs], hbehind⟩
    -- a comment leaves a space or nothing, and `g`, being no gap, is neither
    by_cases hcls : x.cls = .comment
    · cases inComment with
      | true =>
        have hstep : ∀ hs, blankRow true (x :: hs) = [] ++ blankRow true hs := fun hs => by
          rw [blankRow, if_pos hcls]
          rfl
        rw [hstep] at h
        exact hback hstep h rfl
      | false =>
        have hstep : ∀ hs, blankRow false (x :: hs) = [⟨' ', .code⟩] ++ blankRow true hs :=
          fun hs => by
            rw [blankRow, if_pos hcls]
            rfl
        rw [hstep] at h
        cases xs with
        | nil =>
          rw [← (List.cons.inj h).1] at hg
          cases hg
        | cons y xs =>
          obtain ⟨rfl, hrest⟩ := List.cons.inj h
          exact hback hstep hrest rfl
    · have hstep : ∀ hs, blankRow inComment (x :: hs) = [x] ++ blankRow false hs := fun hs => by
        rw [blankRow, if_neg hcls]
        rfl
      rw [hstep] at h
      cases xs with
      | nil =>
        obtain ⟨rfl, hrest⟩ := List.cons.inj h
        exact ⟨[], gs, rfl, rfl, hrest⟩
      | cons y xs =>
        obtain ⟨rfl, hrest⟩ := List.cons.inj h
        exact hback hstep hrest rfl

/-- **Comments are taken out on the two sides of a firm character.** -/
theorem stripComments_join {p : List Char} (hp : Complete p) {c : Char} (hc : IsFirm c)
    (w : List Char) : stripComments (p ++ c :: w) = stripComments p ++ c :: stripComments w := by
  unfold stripComments
  rw [classify_join hp hc, ← blankRow_chars, blankRow_append CharClass.noConfusion, List.map_append,
    blankRow_chars, List.map_cons, blankRow_chars]

theorem Entire.stripComments {e : List Char} (h : Entire e) : Entire (stripComments e) := by
  obtain ⟨hrespaced, hbare⟩ := respaced_uncommented (closed_of_complete h.complete)
  exact ⟨hbare.complete, (level_respaced hrespaced 0 0).symm.trans h.level⟩

/-- The texts of entries without their comments. -/
theorem Entries.stripComments {es : List (List Char)} (h : Entries es) :
    Entries (es.map stripComments) := by
  induction h with
  | last he hlevel =>
    obtain ⟨hrespaced, hbare⟩ := respaced_uncommented (closed_of_complete he)
    exact .last hbare.complete ((level_respaced hrespaced 0 0).symm.trans hlevel)
  | more he _ ih => exact .more he.stripComments ih

theorem stripComments_body {es : List (List Char)} (h : Entries es) (q : List Char) :
    stripComments (bodyOf es q) = bodyOf (es.map stripComments) (stripComments q) := by
  induction h with
  | last he _ =>
    rw [bodyOf_singleton, stripComments_join he (isFirm_between (by decide)), List.map_singleton,
      bodyOf_singleton]
  | @more e es he hes ih =>
    rw [bodyOf_cons e hes.ne_nil, stripComments_join he.complete isFirm_comma, ih, List.map_cons,
      bodyOf_cons _ (mt List.map_eq_nil_iff.1 hes.ne_nil)]

/-! ## §4. Definitions. -/

/-- A definition, as it was written: what is in front of the parenthesis that opens the body, the
texts of the entries, and what is behind the parenthesis that closes it. -/
def laid (p : List Char) (es : List (List Char)) (q : List Char) : List Char :=
  p ++ '(' :: bodyOf es q

/-- The text `p` is the head of a definition up to its parenthesis, and `es` are the texts of its
entries. -/
structure Defines (p : List Char) (es : List (List Char)) : Prop where
  head : ∃ schema name, head? (stripComments p ++ ['(']) = some ⟨schema, name, []⟩
  complete : Complete p
  entries : Entries es

/-- The entry in a text. -/
def entryOf (e : List Char) : Entry := Entry.of (trim (stripComments e))

/-- The entries in some texts; one that holds none is left out. -/
def entriesIn (es : List (List Char)) : List Entry :=
  (es.map entryOf).filter fun x => !x.text.isEmpty

theorem entriesIn_append (es fs : List (List Char)) :
    entriesIn (es ++ fs) = entriesIn es ++ entriesIn fs := by
  unfold entriesIn
  rw [List.map_append, List.filter_append]

/-- The table with some entries. -/
def tableOf (schema : Option (List Char)) (name : List Char) (entries : List Entry) :
    Except TableError Table := do
  let schema := (schema.map unquoteIdent).getD defaultSchema
  let name := unquoteIdent name
  let keys ← (entries.filter (·.isTableConstraint)).foldlM KeyClauses.add {}
  let columns ← readColumns keys [] (entries.filter (!·.isTableConstraint))
  if columns.isEmpty then .error (.noColumns (schema ++ "." ++ name))
  else return { schema, name, columns }

/-- Entries declare one table if the same columns are read, whatever the constraints are. -/
theorem tableOf_congr {schema : Option (List Char)} {name : List Char} {xs xs' : List Entry}
    {k k' : KeyClauses} (hk : (xs.filter (·.isTableConstraint)).foldlM KeyClauses.add {} = .ok k)
    (hk' : (xs'.filter (·.isTableConstraint)).foldlM KeyClauses.add {} = .ok k')
    (h : readColumns k [] (xs.filter (!·.isTableConstraint))
      = readColumns k' [] (xs'.filter (!·.isTableConstraint))) :
    tableOf schema name xs = tableOf schema name xs' := by
  unfold tableOf
  rw [hk, hk']
  show (readColumns k [] _ >>= _) = (readColumns k' [] _ >>= _)
  rw [h]

/-- The entries of a body are those in the texts between its commas. -/
theorem entries_of_texts {es : List (List Char)} (h : Entries es) :
    (splitTopLevel ([','].intercalate (es.map stripComments))).map Entry.of = entriesIn es := by
  unfold splitTopLevel entriesIn
  rw [commaParts_entries h.stripComments, List.map_map,
    show es.map entryOf = (es.map (trim ∘ stripComments)).map Entry.of from (List.map_map ..).symm]
  exact (List.filter_map (f := Entry.of) (p := fun x => !x.text.isEmpty)).symm

/-- **The table of a definition depends on its head and its entries.** -/
theorem parse_laid {p : List Char} {schema : Option (List Char)} {name : List Char}
    (hhead : head? (stripComments p ++ ['(']) = some ⟨schema, name, []⟩) (hp : Complete p)
    {es : List (List Char)} (hes : Entries es) (q : List Char) :
    parse (laid p es q) = tableOf schema name (entriesIn es) := by
  have hstrip : stripComments (laid p es q)
      = stripComments p ++ '(' :: bodyOf (es.map stripComments) (stripComments q) := by
    unfold laid
    rw [stripComments_join hp (isFirm_between (by decide)), stripComments_body hes]
  obtain ⟨p', hp', hany⟩ := head?_upTo hhead
  rw [← List.append_cancel_right hp'] at hany
  rw [parse_shell, hstrip, shell?_of_head (hany _)]
  show Shell.table ⟨schema, name, enclosed? 0 (classify _)⟩ = _
  rw [enclosed?_entries hes.stripComments]
  unfold Shell.table tableOf
  dsimp only
  rw [entries_of_texts hes]

/-- **Every definition that can be read is laid out so.** -/
theorem exists_laid {sql : List Char} {t : Table} (h : parse sql = .ok t) :
    ∃ p es q, sql = laid p es q ∧ Defines p es := by
  rw [parse_shell] at h
  unfold shell? at h
  cases hhead : head? (stripComments sql) with
  | none =>
    rw [hhead] at h
    cases h
  | some head =>
    -- the parenthesis in the text without comments is one of the text
    obtain ⟨x, hx, hany⟩ := head?_upTo hhead
    obtain ⟨x', hx', harrives⟩ := head?_arrives hhead
    have hrow : classify (stripComments sql)
        = ({} : Lexer).reads x ('(' :: head.body) ++ ⟨'(', .code⟩ :: classify head.body := by
      rw [List.append_cancel_right (hx'.symm.trans hx)] at harrives
      conv_lhs => rw [hx]
      unfold classify
      rw [Lexer.glyphs_append, (glyphs_opened (harrives _ Lexer.fresh_start.toIdle) head.body).1]
      rfl
    rw [classify_stripComments] at hrow
    obtain ⟨front, behind, hsplit, hfront, hbehind⟩ := blankRow_split (by decide) hrow
    obtain ⟨hclassify, hcomplete, hrest, -⟩ := classify_cut (isFirm_between (by decide)) hsplit
    have htext : sql = front.map Glyph.char ++ '(' :: behind.map Glyph.char :=
      (Lexer.glyphs_split hsplit).1
    have hstrip : stripComments (front.map Glyph.char) = x := by
      unfold stripComments
      rw [hclassify, ← blankRow_chars, hfront, Lexer.reads_map_char]
    -- its body is closed, since that of the text without comments is
    have hclosed : enclosed? 0 (classify (behind.map Glyph.char)) ≠ none := by
      intro hnone
      rcases enclosed?_respaced (respaced_blankRow behind) 0 with ⟨-, hopen⟩ | hboth
      · rw [hhead, Option.map_some, (classify_opened hhead).1, ← hbehind, hopen] at h
        cases h
      · obtain ⟨inside, rest, inside', rest', -, -, -, hsome, -⟩ := hboth
        rw [hrest, hsome] at hnone
        cases hnone
    obtain ⟨es, q, hes, hbody⟩ := exists_entries hclosed
    refine ⟨front.map Glyph.char, es, q, ?_, ⟨⟨head.schema, head.name, ?_⟩, hcomplete, hes⟩⟩
    · unfold laid
      rw [← hbody, htext]
    · rw [hstrip]
      exact hany []

/-! ## §5. Entries put in. -/

theorem Entries.head {e : List Char} {es : List (List Char)} (h : Entries (e :: es)) (hes : es ≠ []) :
    Entire e ∧ Entries es := by
  cases h with
  | last _ _ => exact absurd rfl hes
  | more he hes => exact ⟨he, hes⟩

/-- **An entry can be put in at any place**, behind the last one as long as that leaves no bracket
open. -/
theorem entries_insert {front back : List (List Char)} (h : Entries (front ++ back))
    {x : List Char} (hx : Entire x) (hlast : back = [] → ∀ e ∈ front.getLast?, Entire e) :
    Entries (front ++ x :: back) := by
  induction front with
  | nil => exact .more hx h
  | cons e front ih =>
    cases hrest : front ++ back with
    | nil =>
      obtain ⟨rfl, rfl⟩ := List.append_eq_nil_iff.1 hrest
      exact .more (hlast rfl e rfl) (.last hx.complete hx.level)
    | cons y rest =>
      have hne : front ++ back ≠ [] := by
        rw [hrest]
        exact List.cons_ne_nil y rest
      obtain ⟨he, hes⟩ := h.head hne
      refine .more he (ih hes fun hback l hl => hlast hback l ?_)
      rwa [List.getLast?_cons_of_ne_nil]
      rintro rfl
      cases hl

theorem entriesIn_cons {x : List Char} (hx : (entryOf x).text ≠ []) (es : List (List Char)) :
    entriesIn (x :: es) = entryOf x :: entriesIn es := by
  unfold entriesIn
  rw [List.map_cons, List.filter_cons_of_pos (by simpa using hx)]

theorem text_ne_nil {e : List Char} (h : (entryOf e).tokens ≠ []) : (entryOf e).text ≠ [] := by
  intro hnil
  refine h ?_
  show tokenize (entryOf e).text = []
  rw [hnil]
  rfl

theorem entriesIn_middle {e : List Char} (he : (entryOf e).tokens ≠ []) (es fs : List (List Char)) :
    entriesIn (es ++ e :: fs) = entriesIn es ++ entryOf e :: entriesIn fs := by
  rw [entriesIn_append, entriesIn_cons (text_ne_nil he)]

/-- Columns are no constraints. -/
theorem entriesIn_columns {es : List (List Char)}
    (hes : ∀ e ∈ es, (entryOf e).isTableConstraint = false) :
    (entriesIn es).filter (·.isTableConstraint) = []
      ∧ (entriesIn es).filter (!·.isTableConstraint) = entriesIn es := by
  have hnone : ∀ e ∈ entriesIn es, e.isTableConstraint = false := by
    intro e he
    obtain ⟨text, htext, rfl⟩ := List.mem_map.1 (List.mem_filter.1 he).1
    exact hes text htext
  exact ⟨List.filter_eq_nil_iff.2 fun e he => by simp [hnone e he],
    List.filter_eq_self.2 fun e he => by simp [hnone e he]⟩

/-! ## §6. Constraints of the table. -/

/-- The row of a constraint is `ts`, behind the name of it if it has one. -/
inductive Named (ts : List Token) : List Token → Prop where
  | nameless (h : leads "CONSTRAINT" ts = false) : Named ts ts
  | named {t n : Token} (ht : t.isKeyword "CONSTRAINT" = true) : Named ts (t :: n :: ts)

variable {x : Entry} {ts : List Token}

theorem Named.constraint (h : Named ts x.tokens) : x.constraint = ts := by
  unfold Entry.constraint
  cases htokens : x.tokens with
  | nil =>
    rw [htokens] at h
    cases h with
    | nameless h => rfl
  | cons t rest =>
    rw [htokens] at h
    cases h with
    | nameless h => rw [h, if_neg Bool.false_ne_true]
    | named ht => exact if_pos ht

/-- A constraint with no name is its own row; any other begins with its name. -/
theorem Named.leads_cases {row : List Token} (h : Named ts row) :
    row = ts ∨ leads "CONSTRAINT" row = true := by
  cases h with
  | nameless => exact Or.inl rfl
  | named ht => exact Or.inr ht

theorem Named.ne_nil {row : List Token} (h : Named ts row) (hts : ts ≠ []) : row ≠ [] := by
  cases h with
  | nameless => exact hts
  | named => exact List.cons_ne_nil _ _

/-- The words that a constraint of the table begins with. -/
theorem isTableConstraint_of_leads {k : String} (h : leads k x.tokens = true)
    (hk : k ∈ ["CONSTRAINT", "PRIMARY", "FOREIGN", "UNIQUE", "CHECK"]) :
    x.isTableConstraint = true := by
  unfold Entry.isTableConstraint
  rw [leadingKeyword?_of_leads h]
  simp only [List.mem_cons, List.not_mem_nil, or_false] at hk
  rcases hk with rfl | rfl | rfl | rfl | rfl <;> rfl

theorem Named.isTableConstraint {k : String} (h : Named ts x.tokens) (hk : leads k ts = true)
    (hword : k ∈ ["PRIMARY", "FOREIGN", "UNIQUE", "CHECK"]) : x.isTableConstraint = true := by
  rcases h.leads_cases with heq | hnamed
  · exact isTableConstraint_of_leads (heq ▸ hk) (List.mem_cons_of_mem _ hword)
  · exact isTableConstraint_of_leads hnamed List.mem_cons_self

variable {keys : KeyClauses} {t k g r : Token} {inside : List Char}

/-- What a primary key adds. -/
theorem add_primaryKey (hx : x.constraint = t :: k :: g :: ts) (ht : t.isKeyword "PRIMARY" = true)
    (hk : k.isKeyword "KEY" = true) (hg : g.kind = .group) (hinside : g.inside = .ok inside) :
    keys.add x = .ok { keys with primaryKey := keys.primaryKey ++ columnList inside } := by
  have hw : leadingKeyword? x.constraint = some "PRIMARY" := by
    rw [hx]
    exact of_decide_eq_true ht
  have hlist : listGroup? x.constraint = some g := by
    rw [listGroup?_key hw (by decide), hx]
    exact keyGroup?_cons hk hg
  exact add_eq (.primaryKey hw hlist hinside)

/-- What a constraint to be unique adds. -/
theorem add_unique {between : List Token} (hx : x.constraint = t :: (between ++ g :: ts))
    (ht : t.isKeyword "UNIQUE" = true) (hbetween : ∀ u ∈ between, u.kind ≠ .group)
    (hg : g.kind = .group) (hinside : g.inside = .ok inside) :
    keys.add x = ofSingle keys (fun c => { keys with unique := keys.unique ++ [c] })
      (columnList inside) := by
  have hw : leadingKeyword? x.constraint = some "UNIQUE" := by
    rw [hx]
    exact of_decide_eq_true ht
  have hdrop : (between ++ g :: ts).dropWhile (·.kind ≠ .group) = g :: ts := by
    rw [List.dropWhile_append_of_pos fun u hu => decide_eq_true (hbetween u hu)]
    exact List.dropWhile_cons_of_neg (by simp [hg])
  have hlist : listGroup? x.constraint = some g := by
    rw [listGroup?_unique hw, hx, List.tail_cons, hdrop]
    exact frontGroup?_eq_some.2 ⟨rfl, hg⟩
  exact add_eq (.unique hw hlist hinside)

/-- What a foreign key adds. -/
theorem add_foreign {key : ForeignKey} {n : Nat} (hx : x.constraint = t :: k :: g :: r :: ts)
    (ht : t.isKeyword "FOREIGN" = true) (hk : k.isKeyword "KEY" = true) (hg : g.kind = .group)
    (hinside : g.inside = .ok inside) (hr : r.isKeyword "REFERENCES" = true)
    (href : reference x ts = .ok (key, n)) :
    keys.add x = ofSingle keys (fun c => { keys with foreignKeys := (c, key) :: keys.foreignKeys })
      (columnList inside) := by
  have hw : leadingKeyword? x.constraint = some "FOREIGN" := by
    rw [hx]
    exact of_decide_eq_true ht
  have hlist : listGroup? x.constraint = some g := by
    rw [listGroup?_key hw (by decide), hx]
    exact keyGroup?_cons hk hg
  have htarget : leads "REFERENCES" (x.constraint.drop 3) = true := by
    rw [hx]
    exact hr
  exact add_eq (.foreignKey hw hlist hinside htarget (by rw [hx]; exact href))

end SchemaDrift.Table
