/-
  SchemaDrift.Proofs.Table.Shell
  ──────────────────────────────
  **WHAT IS READ OF A DEFINITION BEFORE ITS ENTRIES.**

  The shell of a definition are the names in its head and the text between its parentheses.
  Nothing behind the opening parenthesis decides how the head is read (`head?_upTo`), so white
  space around a definition is no part of its shell (`shell?_trim`); and definitions that
  differ in white space only have the same names and restated bodies (`shell?_restated`).
-/

import SchemaDrift.Proofs.Table.Heading

namespace SchemaDrift.Table

open SchemaDrift.Sql SchemaDrift.Text

/-! ## §1. The body. -/

/-- Code behind an opening parenthesis is read by itself. -/
theorem glyphs_opened {s : Lexer} (hs : s.Idle) (r : List Char) :
    s.glyphs ('(' :: r) = ⟨'(', .code⟩ :: classify r
      ∧ ((s.advance '(' r).2.after r).mode = (({} : Lexer).after r).mode := by
  obtain ⟨hcode, hidle⟩ := Lexer.advance_plain hs (c := '(') (by decide) (by decide) (by decide) r
  have hfresh : (s.advance '(' r).2.Fresh := by
    refine ⟨hidle, ?_⟩
    rw [Lexer.advance_last]
    decide +kernel
  obtain ⟨hglyphs, hmode⟩ := Lexer.glyphs_fresh hfresh r
  rw [Lexer.glyphs, hcode, hglyphs]
  exact ⟨rfl, hmode⟩

theorem Facing.opened {r r' : List Char} (h : Facing ('(' :: r) ('(' :: r')) :
    Respaced (classify r) (classify r') := by
  obtain ⟨s, s', hs, hs', hrespaced, -, -⟩ := h
  rw [(glyphs_opened hs r).1, (glyphs_opened hs' r').1] at hrespaced
  obtain ⟨gs, hgs, hbehind⟩ := hrespaced.of_cons (by decide)
  rw [(List.cons.inj hgs).2]
  exact hbehind

/-- What is behind the parenthesis that opens the body is read by itself. -/
theorem classify_opened {t : List Char} {head : Head} (h : head? t = some head) :
    (classify t).drop (t.length - head.body.length) = classify head.body
      ∧ ∀ g ∈ classify head.body, g ∈ classify t := by
  obtain ⟨p, rfl, hp⟩ := head?_arrives h
  have hsplit : classify (p ++ '(' :: head.body)
      = (({} : Lexer).reads p ('(' :: head.body) ++ [⟨'(', .code⟩]) ++ classify head.body := by
    unfold classify
    rw [Lexer.glyphs_append, (glyphs_opened (hp _ Lexer.fresh_start.toIdle) head.body).1]
    simp [classify]
  have hlen : (p ++ '(' :: head.body).length - head.body.length
      = (({} : Lexer).reads p ('(' :: head.body) ++ [(⟨'(', .code⟩ : Glyph)]).length := by
    rw [List.length_append, List.length_append, Lexer.reads_length, List.length_cons,
      List.length_singleton]
    omega
  rw [hsplit, hlen, List.drop_left]
  exact ⟨rfl, fun g hg => List.mem_append_right _ hg⟩

/-- A text up to its parenthesis, behind characters that are none. -/
theorem enclosed?_gaps {a : List Glyph} (ha : ∀ g ∈ a, g.isGap = true) (depth : Nat)
    (gs : List Glyph) :
    enclosed? depth (a ++ gs) = (enclosed? depth gs).map (a.map Glyph.char ++ ·) := by
  induction a with
  | nil => simp
  | cons g a ih =>
    obtain ⟨hg, ha⟩ := List.forall_mem_cons.1 ha
    rw [List.cons_append, enclosed?.eq_def]
    dsimp only
    rw [isCode_of_gap hg (c := '(') (by decide),
      isCode_of_gap hg (c := ')') (by decide), if_neg Bool.false_ne_true, if_neg Bool.false_ne_true,
      ih ha, Option.map_map]
    rfl

/-- **Respaced rows are closed at the same parenthesis.** -/
theorem enclosed?_respaced {gs hs : List Glyph} (h : Respaced gs hs) (depth : Nat) :
    enclosed? depth gs = none ∧ enclosed? depth hs = none
      ∨ ∃ inside rest inside' rest', gs = inside ++ ⟨')', .code⟩ :: rest
        ∧ hs = inside' ++ ⟨')', .code⟩ :: rest' ∧ Respaced inside inside'
        ∧ enclosed? depth gs = some (inside.map Glyph.char)
        ∧ enclosed? depth hs = some (inside'.map Glyph.char) := by
  induction h generalizing depth with
  | nil => exact Or.inl ⟨rfl, rfl⟩
  | @same g gs hs hg h ih =>
    -- a character that does not close the group goes to the inside of both
    have hmore : ∀ d, (enclosed? d gs).map (g.char :: ·) = none
          ∧ (enclosed? d hs).map (g.char :: ·) = none
        ∨ ∃ inside rest inside' rest', g :: gs = inside ++ ⟨')', .code⟩ :: rest
          ∧ g :: hs = inside' ++ ⟨')', .code⟩ :: rest' ∧ Respaced inside inside'
          ∧ (enclosed? d gs).map (g.char :: ·) = some (inside.map Glyph.char)
          ∧ (enclosed? d hs).map (g.char :: ·) = some (inside'.map Glyph.char) := by
      intro d
      rcases ih d with ⟨hnone, hnone'⟩ | ⟨inside, rest, inside', rest', rfl, rfl, hinside, hsome, hsome'⟩
      · rw [hnone, hnone']
        exact Or.inl ⟨rfl, rfl⟩
      · rw [hsome, hsome']
        exact Or.inr ⟨g :: inside, rest, g :: inside', rest', rfl, rfl, .same hg hinside, rfl, rfl⟩
    rw [enclosed?.eq_def, enclosed?.eq_def depth (g :: hs)]
    dsimp only
    split
    · exact hmore (depth + 1)
    · split
      · next hclose =>
        cases depth with
        | zero =>
          have hg' : g = ⟨')', .code⟩ := Glyph.isCode_iff.1 hclose
          exact Or.inr ⟨[], gs, [], hs, by rw [hg']; rfl, by rw [hg']; rfl, .nil, rfl, rfl⟩
        | succ n => exact hmore n
      · exact hmore depth
  | @gap a b gs hs ha hb hgs h ih =>
    rw [enclosed?_gaps ha.gaps, enclosed?_gaps hb.gaps]
    rcases ih depth with ⟨hnone, hnone'⟩ | ⟨inside, rest, inside', rest', rfl, rfl, hinside, hsome, hsome'⟩
    · rw [hnone, hnone']
      exact Or.inl ⟨rfl, rfl⟩
    · rw [hsome, hsome', ← List.append_assoc, ← List.append_assoc]
      refine Or.inr ⟨a ++ inside, rest, b ++ inside', rest', rfl, rfl, .run ha hb hinside, ?_, ?_⟩
      · rw [Option.map_some, List.map_append]
      · rw [Option.map_some, List.map_append]

/-- What is inside the parentheses of a body is read by itself, and ends in code. -/
theorem uncommented_inside {t : List Char} (hbare : ∀ g ∈ classify t, g.cls ≠ .comment)
    {inside rest : List Glyph} (h : classify t = inside ++ ⟨')', .code⟩ :: rest) :
    classify (inside.map Glyph.char) = inside ∧ Uncommented (inside.map Glyph.char) := by
  obtain ⟨hclassify, hidle, -⟩ := Lexer.cut_firm Lexer.fresh_start (Lexer.sound_start t)
    (by decide +kernel) h
  refine ⟨hclassify, fun g hg => ?_, hidle⟩
  rw [hclassify] at hg
  refine hbare g ?_
  rw [h]
  exact List.mem_append_left _ hg

/-! ## §2. Any other body. -/

/-- The texts agree up to a parenthesis, and go on with `b` and `b'` behind it. -/
def UpTo (b b' r r' : List Char) : Prop := ∃ p, r = p ++ '(' :: b ∧ r' = p ++ '(' :: b'

theorem trimStart_upTo (p b : List Char) :
    Text.trimStart (p ++ '(' :: b) = Text.trimStart p ++ '(' :: b := by
  induction p with
  | nil => exact List.dropWhile_cons_of_neg (by decide)
  | cons c p ih =>
    unfold Text.trimStart at ih ⊢
    rw [List.cons_append, List.dropWhile_cons, List.dropWhile_cons]
    split
    · exact ih
    · rfl

theorem tracking_upTo (b b' : List Char) : Tracking (UpTo b b') := by
  have hforth : ∀ b b', Tracks (UpTo b b') := by
    intro b b'
    refine ⟨?_, ?_, ?_⟩
    · rintro _ _ ⟨p, rfl, rfl⟩
      exact ⟨Text.trimStart p, trimStart_upTo p b, trimStart_upTo p b'⟩
    · rintro c r x hc ⟨p, hp, rfl⟩
      cases p with
      | nil =>
        rw [(List.cons.inj hp).1] at hc
        exact absurd hc (by decide)
      | cons d p =>
        obtain ⟨rfl, rfl⟩ := List.cons.inj hp
        exact ⟨_, rfl, p, rfl, rfl⟩
    · rintro c r x hc ⟨p, hp, rfl⟩
      cases p with
      | nil =>
        rw [(List.cons.inj hp).1] at hc
        exact absurd hc (by decide)
      | cons d p =>
        obtain ⟨rfl, rfl⟩ := List.cons.inj hp
        exact ⟨_, _, rfl, hc⟩
  refine ⟨hforth b b', ?_⟩
  rw [show flip (UpTo b b') = UpTo b' b from funext fun r => funext fun r' =>
    propext ⟨fun ⟨p, h, h'⟩ => ⟨p, h', h⟩, fun ⟨p, h, h'⟩ => ⟨p, h', h⟩⟩]
  exact hforth b' b

/-- A name that ends in front of the parenthesis is read in both texts. -/
theorem UpTo.ident {b b' t t' name q : List Char} (h : UpTo b b' t t')
    (hname : ident? t = some (name, q ++ '(' :: b)) : ident? t' = some (name, q ++ '(' :: b') := by
  obtain ⟨htext, -⟩ := ident?_reads hname
  obtain ⟨p, rfl, rfl⟩ := h
  rw [← List.append_assoc] at htext
  rw [List.append_cancel_right htext, List.append_assoc]
  refine ident?_swap hname fun c _ hc => ?_
  cases q with
  | nil => exact hc
  | cons d q => exact hc

/-- White space in front of a mark, and in front of a parenthesis in its place. -/
theorem trimStart_mark {r u : List Char} {c : Char} (hr : Text.trimStart r = c :: u) :
    ∃ q, r = q ++ c :: u ∧ ∀ v, Text.trimStart (q ++ '(' :: v) = '(' :: v := by
  refine ⟨r.takeWhile isBlank, ?_, fun v => ?_⟩
  · rw [← hr]
    exact (List.takeWhile_append_dropWhile (p := isBlank) (l := r)).symm
  · unfold Text.trimStart
    rw [List.dropWhile_append_of_pos (isBlank_takeWhile r)]
    exact List.dropWhile_cons_of_neg (by decide)

/-- **The head of a definition depends on nothing behind its parenthesis.** -/
theorem head?_upTo {t : List Char} {head : Head} (h : head? t = some head) :
    ∃ p, t = p ++ '(' :: head.body
      ∧ ∀ b, head? (p ++ '(' :: b) = some { head with body := b } := by
  obtain ⟨p, hp, -⟩ := head?_arrives h
  refine ⟨p, hp, fun b => ?_⟩
  have hupTo : UpTo head.body b t (p ++ '(' :: b) := ⟨p, hp, rfl⟩
  generalize p ++ '(' :: b = t' at hupTo
  unfold head? at h
  obtain ⟨x, htable, h⟩ := Option.bind_eq_some_iff.1 h
  obtain ⟨y, hblanks, h⟩ := Option.bind_eq_some_iff.1 h
  obtain ⟨⟨first, behind⟩, hfirst, h⟩ := Option.bind_eq_some_iff.1 h
  have hR := tracking_upTo head.body b
  obtain ⟨x', htable', hx⟩ := (createTable?_steady hR (hR.forth.trimStart hupTo)).of_some htable
  obtain ⟨y', hblanks', hy⟩ := (blanks?_steady hR hx).of_some hblanks
  have hrest := ifNotExists_steady hR hy
  unfold ifNotExists at hrest
  unfold head?
  dsimp only at h
  split at h
  · next body hbody =>
    obtain rfl := Option.some.inj h
    obtain ⟨q, rfl, hq⟩ := trimStart_mark hbody
    have hfirst' := hrest.ident hfirst
    simp only [htable', hblanks', hfirst', Option.bind_eq_bind, Option.bind_some]
    rw [hq]
    rfl
  · next rest hdot =>
    obtain ⟨⟨name, last⟩, hname, h⟩ := Option.bind_eq_some_iff.1 h
    dsimp only at h
    split at h
    · next body hbody =>
      obtain rfl := Option.some.inj h
      obtain ⟨q, rfl, hq⟩ := trimStart_mark hbody
      -- the parenthesis is behind the dot, and the dot behind the first name
      have hsuffix : '(' :: body <:+ behind := by
        have hlast : '(' :: body <:+ Text.trimStart rest := by
          rw [(ident?_reads hname).1, ← List.append_assoc]
          exact List.suffix_append _ _
        have hrest : '(' :: body <:+ '.' :: rest :=
          (hlast.trans (trimStart_suffix rest)).trans (List.suffix_cons '.' rest)
        rw [← hdot] at hrest
        exact hrest.trans (trimStart_suffix behind)
      obtain ⟨w, rfl⟩ := hsuffix
      have hfirst' := hrest.ident hfirst
      obtain ⟨u, hu, hu'⟩ := hR.forth.trimStart
        (show UpTo body b (w ++ '(' :: body) (w ++ '(' :: b) from ⟨w, rfl, rfl⟩)
      rw [hdot] at hu
      cases u with
      | nil =>
        have hparen : '.' = '(' := (List.cons.inj hu).1
        exact absurd hparen (by decide)
      | cons d u =>
        obtain ⟨rfl, hrest'⟩ := List.cons.inj hu
        have hname' := (hR.forth.trimStart (show UpTo body b rest (u ++ '(' :: b) from
          ⟨u, hrest', rfl⟩)).ident hname
        simp only [htable', hblanks', hfirst', Option.bind_eq_bind, Option.bind_some]
        rw [hu', List.cons_append]
        show (ident? (Text.trimStart (u ++ '(' :: b))).bind _ = _
        rw [hname', Option.bind_some]
        dsimp only
        rw [hq]
        rfl
    · cases h
  · cases h

/-! ## §3. Shells. -/

/-- What is read of a definition before its entries are. -/
structure Shell where
  schema : Option (List Char)
  name : List Char
  /-- What is inside the parentheses, if they are closed. -/
  body? : Option (List Char)

/-- The shell of a definition without comments. -/
def shell? (t : List Char) : Option Shell :=
  (head? t).map fun head =>
    ⟨head.schema, head.name, enclosed? 0 ((classify t).drop (t.length - head.body.length))⟩

theorem shell?_of_head {t : List Char} {head : Head} (h : head? t = some head) :
    shell? t = some ⟨head.schema, head.name, enclosed? 0 (classify head.body)⟩ := by
  unfold shell?
  rw [h, Option.map_some, (classify_opened h).1]

/-- Glyphs that are no parentheses close nothing. -/
theorem enclosed?_append {hs : List Glyph}
    (hhs : ∀ g ∈ hs, g.isCode '(' = false ∧ g.isCode ')' = false) (depth : Nat) (gs : List Glyph) :
    enclosed? depth (gs ++ hs) = enclosed? depth gs := by
  induction gs generalizing depth with
  | nil =>
    rw [List.nil_append]
    induction hs generalizing depth with
    | nil => rfl
    | cons g hs ih =>
      obtain ⟨⟨hopen, hclose⟩, hrest⟩ := List.forall_mem_cons.1 hhs
      rw [enclosed?.eq_def]
      dsimp only
      rw [hopen, hclose, if_neg Bool.false_ne_true, if_neg Bool.false_ne_true, ih hrest]
      rfl
  | cons g gs ih =>
    rw [List.cons_append, enclosed?.eq_def, enclosed?.eq_def depth (g :: gs)]
    dsimp only
    rw [ih, ih]
    split
    · rfl
    · split
      · cases depth with
        | zero => rfl
        | succ n => exact congrArg (Option.map _) (ih n)
      · rfl

/-- White space behind a body belongs to no entry. -/
theorem enclosed?_blanks {b : List Char} (hb : ∀ c ∈ b, isBlank c = true) (body : List Char) :
    enclosed? 0 (classify (body ++ b)) = enclosed? 0 (classify body) := by
  cases b with
  | nil => rw [List.append_nil]
  | cons c b =>
    have hc : isBlank c = true := hb c List.mem_cons_self
    have hreads := (Lexer.reads_firm Lexer.delimited_start (isStop_of_isBlank hc)
      (ne_of_isBlank hc (by decide)) (ne_of_isBlank hc (by decide)) body b).1
    unfold classify
    rw [Lexer.glyphs_append, hreads]
    refine enclosed?_append (fun g hg => ?_) 0 _
    have hblank : isBlank g.char = true := by
      refine hb _ ?_
      rw [← glyphs_map_char (({} : Lexer).past body (c :: b)) (c :: b)]
      exact List.mem_map_of_mem hg
    have hno : ∀ x, isBlank x = false → g.isCode x = false := by
      intro x hx
      by_contra hcode
      rw [Bool.not_eq_false] at hcode
      rw [Glyph.isCode_iff.1 hcode] at hblank
      rw [show isBlank x = true from hblank] at hx
      cases hx
    exact ⟨hno '(' (by decide), hno ')' (by decide)⟩

/-- **White space around a definition is no part of its shell.** -/
theorem shell?_trim (t : List Char) : shell? (trim t) = shell? t := by
  obtain ⟨a, b, hsplit, ha, hb⟩ := exists_trim t
  generalize trim t = y at hsplit
  have hstart : ∀ u, head? (a ++ u) = head? u := by
    intro u
    unfold head?
    rw [show Text.trimStart (a ++ u) = Text.trimStart u from List.dropWhile_append_of_pos ha]
  rw [hsplit]
  cases hhead : head? y with
  | some head =>
    obtain ⟨p, rfl, hany⟩ := head?_upTo hhead
    have hlong : head? (a ++ ((p ++ '(' :: head.body) ++ b))
        = some { head with body := head.body ++ b } := by
      rw [hstart, List.append_assoc, List.cons_append]
      exact hany _
    rw [shell?_of_head hhead, shell?_of_head hlong, enclosed?_blanks hb]
  | none =>
    have hlong : head? (a ++ (y ++ b)) = none := by
      rw [hstart]
      -- the parenthesis of a head is not among the blanks behind
      by_contra hsome
      obtain ⟨head, hsome⟩ := Option.ne_none_iff_exists'.1 hsome
      obtain ⟨p, hp, hany⟩ := head?_upTo hsome
      have hparen : '(' ∉ b := fun hmem => absurd (hb _ hmem) (by decide)
      rcases List.append_eq_append_iff.1 hp with ⟨c, -, rfl⟩ | ⟨c, rfl, hc⟩
      · exact hparen (by simp)
      · cases c with
        | nil =>
          rw [List.nil_append] at hc
          exact hparen (by rw [← hc]; exact List.mem_cons_self)
        | cons d c =>
          rw [List.cons_append] at hc
          rw [← (List.cons.inj hc).1, hany c] at hhead
          cases hhead
    unfold shell?
    rw [hhead, hlong]
    rfl

/-- The shells have the same names, and restated bodies if they have any. -/
structure Shell.Restated (f f' : Shell) : Prop where
  schema : f.schema = f'.schema
  name : f.name = f'.name
  body : f.body? = none ∧ f'.body? = none
    ∨ ∃ body body', f.body? = some body ∧ f'.body? = some body' ∧ Table.Restated body body'

/-- **Restated definitions have restated shells**, or none. -/
theorem shell?_restated {t t' : List Char} (h : Restated t t') :
    shell? t = none ∧ shell? t' = none
      ∨ ∃ f f', shell? t = some f ∧ shell? t' = some f' ∧ f.Restated f' := by
  cases hhead : head? t with
  | none =>
    cases hhead' : head? t' with
    | none =>
      left
      unfold shell?
      rw [hhead, hhead']
      exact ⟨rfl, rfl⟩
    | some head' =>
      obtain ⟨head, hsome, -⟩ := head?_facing h.facing.symm hhead'
      rw [hhead] at hsome
      cases hsome
  | some head =>
    right
    obtain ⟨head', hhead', hschema, hname, hfacing⟩ := head?_facing h.facing hhead
    refine ⟨_, _, shell?_of_head hhead, shell?_of_head hhead', hschema.symm, hname.symm, ?_⟩
    obtain ⟨-, hmem⟩ := classify_opened hhead
    obtain ⟨-, hmem'⟩ := classify_opened hhead'
    -- the parenthesis is closed in both texts or in neither
    rcases enclosed?_respaced hfacing.opened 0 with hnone | ⟨inside, rest, inside', rest', hsplit, hsplit',
      hinside, hsome, hsome'⟩
    · exact Or.inl hnone
    · obtain ⟨hclassify, hleft⟩ := uncommented_inside (fun g hg => h.left.bare g (hmem g hg)) hsplit
      obtain ⟨hclassify', hright⟩ :=
        uncommented_inside (fun g hg => h.right.bare g (hmem' g hg)) hsplit'
      refine Or.inr ⟨_, _, hsome, hsome', ?_, hleft, hright⟩
      rw [hclassify, hclassify']
      exact hinside

end SchemaDrift.Table
