/-
  SchemaDrift.Proofs.Table.Heading
  ────────────────────────────────
  **THE HEAD OF A DEFINITION DOES NOT SEE LAYOUT.**

  The readers of the head skip white space, and stop where they do whatever comes next.  In
  two texts that are read from code on and differ in white space only (`Facing`) each of them
  takes the same off the front (`Steady`), and so does the reader of the whole head
  (`head?_facing`).
-/

import SchemaDrift.Proofs.Table.Names
import SchemaDrift.Proofs.Table.Restated

namespace SchemaDrift.Table

open SchemaDrift.Sql SchemaDrift.Text

/-! ## §1. Two texts from code on. -/

/-- The texts follow code, have no comments, and differ in their gaps only. -/
def Facing (r r' : List Char) : Prop :=
  ∃ s s' : Lexer, s.Idle ∧ s'.Idle ∧ Respaced (s.glyphs r) (s'.glyphs r')
    ∧ (∀ g ∈ s.glyphs r, g.cls ≠ .comment) ∧ ∀ g ∈ s'.glyphs r', g.cls ≠ .comment

theorem Facing.symm {r r' : List Char} (h : Facing r r') : Facing r' r := by
  obtain ⟨s, s', hs, hs', hrespaced, hbare, hbare'⟩ := h
  exact ⟨s', s, hs', hs, hrespaced.symm, hbare', hbare⟩

/-- Restated texts face one another. -/
theorem Restated.facing {t t' : List Char} (h : Restated t t') : Facing t t' :=
  ⟨{}, {}, Lexer.fresh_start.toIdle, Lexer.fresh_start.toIdle, h.respaced, h.left.bare, h.right.bare⟩

/-! ## §2. White space and marks. -/

/-- A text from code on, and the white space in front of it. -/
theorem glyphs_trimStart {s : Lexer} (hs : s.Idle) {r : List Char}
    (hbare : ∀ g ∈ s.glyphs r, g.cls ≠ .comment) :
    ∃ u : Lexer, u.Idle ∧ u.glyphs (trimStart r) = (s.glyphs r).dropWhile Glyph.isGap := by
  have hsplit : r.takeWhile isBlank ++ trimStart r = r := List.takeWhile_append_dropWhile
  have hblank := isBlank_takeWhile r
  have hidle := past_plain (fun c hc => isPlain_of_isBlank (hblank c hc)) (trimStart r) hs
  refine ⟨_, hidle, ?_⟩
  have hrow : s.glyphs r = (r.takeWhile isBlank).map (fun c => (⟨c, .code⟩ : Glyph))
      ++ (s.past (r.takeWhile isBlank) (trimStart r)).glyphs (trimStart r) := by
    conv_lhs => rw [← hsplit]
    rw [Lexer.glyphs_append, Lexer.reads_blanks hs hblank]
  rw [hrow, dropWhile_run]
  · intro g hg
    obtain ⟨c, hc, rfl⟩ := List.mem_map.1 hg
    exact hblank c hc
  · intro g hg
    -- what is not white, and of no comment, is no gap
    have hchar : (trimStart r).head? = some g.char := by
      rw [← glyphs_map_char (s.past (r.takeWhile isBlank) (trimStart r)) (trimStart r),
        List.head?_map, Option.mem_def.1 hg]
      rfl
    have hnot := List.head?_dropWhile_not isBlank r
    rw [show r.dropWhile isBlank = trimStart r from rfl, hchar] at hnot
    by_contra hgap
    have hcls : g.cls ≠ .comment := by
      refine hbare g ?_
      rw [hrow]
      exact List.mem_append_right _ (List.mem_of_mem_head? hg)
    have hwhite := (isBlank_of_isGap (Bool.not_eq_false _ ▸ hgap) hcls).1
    simp [hwhite] at hnot

theorem Facing.trimStart {r r' : List Char} (h : Facing r r') :
    Facing (trimStart r) (trimStart r') := by
  obtain ⟨s, s', hs, hs', hrespaced, hbare, hbare'⟩ := h
  obtain ⟨u, hu, hglyphs⟩ := glyphs_trimStart hs hbare
  obtain ⟨u', hu', hglyphs'⟩ := glyphs_trimStart hs' hbare'
  refine ⟨u, u', hu, hu', ?_, ?_, ?_⟩
  · rw [hglyphs, hglyphs']
    exact hrespaced.dropGaps
  · intro g hg
    rw [hglyphs] at hg
    exact hbare g ((List.dropWhile_sublist _).mem hg)
  · intro g hg
    rw [hglyphs'] at hg
    exact hbare' g ((List.dropWhile_sublist _).mem hg)

/-- A plain character that is not white is taken off the front of both texts. -/
theorem Facing.of_cons {c : Char} {r x : List Char} (hc : IsPlain c) (hblank : isBlank c = false)
    (h : Facing (c :: r) x) : ∃ r', x = c :: r' ∧ Facing r r' := by
  obtain ⟨s, s', hs, hs', hrespaced, hbare, hbare'⟩ := h
  obtain ⟨hcls, hidle⟩ := Lexer.advance_plain hs hc.1 hc.2.1 hc.2.2 r
  have hrow : s.glyphs (c :: r) = ⟨c, .code⟩ :: (s.advance c r).2.glyphs r := by
    rw [Lexer.glyphs, hcls]
  rw [hrow] at hrespaced hbare
  obtain ⟨gs, hgs, hbehind⟩ := hrespaced.of_cons (show (⟨c, .code⟩ : Glyph).isGap = false from hblank)
  cases x with
  | nil => cases hgs
  | cons d r' =>
    rw [Lexer.glyphs] at hgs hbare'
    obtain ⟨hd, rfl⟩ := List.cons.inj hgs
    obtain ⟨rfl, -⟩ := Glyph.mk.inj hd
    obtain ⟨-, hidle'⟩ := Lexer.advance_plain hs' hc.1 hc.2.1 hc.2.2 r'
    exact ⟨r', rfl, _, _, hidle, hidle', hbehind, (List.forall_mem_cons.1 hbare).2,
      (List.forall_mem_cons.1 hbare').2⟩

/-- White space is in front of both texts or of neither. -/
theorem Facing.blank {c : Char} {r x : List Char} (hc : isBlank c = true) (h : Facing (c :: r) x) :
    ∃ d r', x = d :: r' ∧ isBlank d = true := by
  obtain ⟨s, s', hs, hs', hrespaced, hbare, hbare'⟩ := h
  obtain ⟨hcls, -⟩ := Lexer.advance_plain hs (isPlain_of_isBlank hc).1 (isPlain_of_isBlank hc).2.1
    (isPlain_of_isBlank hc).2.2 r
  have hrow : s.glyphs (c :: r) = ⟨c, .code⟩ :: (s.advance c r).2.glyphs r := by
    rw [Lexer.glyphs, hcls]
  cases x with
  | nil =>
    rw [hrow] at hrespaced
    have hnil := hrespaced.eq_nil_iff.2 rfl
    cases hnil
  | cons d r' =>
    refine ⟨d, r', rfl, ?_⟩
    by_contra hd
    rw [Bool.not_eq_true] at hd
    have hgap : (⟨d, (s'.advance d r').1⟩ : Glyph).isGap = false := by
      by_contra hgap
      have hcls' := hbare' ⟨d, (s'.advance d r').1⟩ (by rw [Lexer.glyphs]; exact List.mem_cons_self)
      rw [(isBlank_of_isGap (Bool.not_eq_false _ ▸ hgap) hcls').1] at hd
      cases hd
    rw [hrow, Lexer.glyphs] at hrespaced
    obtain ⟨gs, hgs, -⟩ := hrespaced.symm.of_cons hgap
    rw [← (List.cons.inj hgs).1] at hgap
    rw [show (⟨c, .code⟩ : Glyph).isGap = isBlank c from rfl, hc] at hgap
    cases hgap

theorem blanks?_eq (r : List Char) :
    blanks? r = if r.head?.any isBlank then some (trimStart r) else none := by
  cases r with
  | nil => rfl
  | cons c r =>
    rw [blanks?, List.head?_cons, Option.any_some]
    by_cases hc : isBlank c = true
    · rw [if_pos hc, if_pos hc]
      unfold trimStart
      rw [List.dropWhile_cons_of_pos hc]
    · rw [if_neg hc, if_neg hc]

/-! ## §3. Readers. -/

/-- What is taken off the front of one text can be taken off the other. -/
structure Tracks (R : List Char → List Char → Prop) : Prop where
  trimStart : ∀ {r r' : List Char}, R r r' → R (Text.trimStart r) (Text.trimStart r')
  letter : ∀ {c : Char} {r x : List Char}, (foldLetter c).isAlpha = true → R (c :: r) x →
    ∃ r', x = c :: r' ∧ R r r'
  blank : ∀ {c : Char} {r x : List Char}, isBlank c = true → R (c :: r) x →
    ∃ d r', x = d :: r' ∧ isBlank d = true

/-- So it is in both directions. -/
structure Tracking (R : List Char → List Char → Prop) : Prop where
  forth : Tracks R
  back : Tracks (flip R)

/-- Both readings fail, or what they leave is related. -/
def Steady (R : List Char → List Char → Prop) (x x' : Option (List Char)) : Prop :=
  match x, x' with
  | some r, some r' => R r r'
  | none, none => True
  | _, _ => False

theorem isBlank_of_foldLetter {c : Char} (hc : (foldLetter c).isAlpha = true) : isBlank c = false := by
  by_contra hb
  rw [Bool.not_eq_false] at hb
  have hnone := forall_blank (f := fun c => !(foldLetter c).isAlpha) (by decide) hb
  simp [hc] at hnone

theorem tracking_facing : Tracking Facing := by
  have hforth : Tracks Facing :=
    ⟨Facing.trimStart, fun hc h => h.of_cons (isPlain_of_foldLetter hc) (isBlank_of_foldLetter hc),
      Facing.blank⟩
  refine ⟨hforth, ?_⟩
  rwa [show flip Facing = Facing from funext fun r => funext fun r' =>
    propext ⟨Facing.symm, Facing.symm⟩]

section Readers

variable {R : List Char → List Char → Prop}

/-- What reads one text and the other in both directions is steady. -/
theorem steady_of_tracks (hR : Tracking R) {f : List Char → Option (List Char)}
    (hf : ∀ {R : List Char → List Char → Prop}, Tracks R → ∀ {r r' : List Char}, R r r' →
      ∀ x, f r = some x → ∃ x', f r' = some x' ∧ R x x')
    {r r' : List Char} (h : R r r') : Steady R (f r) (f r') := by
  cases hx : f r with
  | some x =>
    obtain ⟨x', hx', hrel⟩ := hf hR.forth h x hx
    rw [hx']
    exact hrel
  | none =>
    cases hx' : f r' with
    | none => trivial
    | some x' =>
      obtain ⟨x, hsome, -⟩ := hf hR.back (show flip R r' r from h) x' hx'
      rw [hx] at hsome
      cases hsome

theorem Steady.bind {x x' : Option (List Char)} (h : Steady R x x')
    {f : List Char → Option (List Char)} (hf : ∀ r r', R r r' → Steady R (f r) (f r')) :
    Steady R (x.bind f) (x'.bind f) := by
  cases x with
  | some r =>
    cases x' with
    | some r' => exact hf r r' h
    | none => exact h.elim
  | none =>
    cases x' with
    | some r' => exact h.elim
    | none => trivial

theorem Steady.getD {x x' : Option (List Char)} (h : Steady R x x') {r r' : List Char}
    (hr : R r r') : R (x.getD r) (x'.getD r') := by
  cases x with
  | some u =>
    cases x' with
    | some u' => exact h
    | none => exact h.elim
  | none =>
    cases x' with
    | some u' => exact h.elim
    | none => exact hr

theorem Steady.orElse {x x' y y' : Option (List Char)} (h : Steady R x x') (hy : Steady R y y') :
    Steady R (x.or y) (x'.or y') := by
  cases x with
  | some u =>
    cases x' with
    | some u' => exact h
    | none => exact h.elim
  | none =>
    cases x' with
    | some u' => exact h.elim
    | none => exact hy

theorem Steady.of_some {x x' : Option (List Char)} (h : Steady R x x') {r : List Char}
    (hx : x = some r) : ∃ r', x' = some r' ∧ R r r' := by
  subst hx
  cases x' with
  | some r' => exact ⟨r', rfl, h⟩
  | none => exact h.elim

theorem blanks?_steady (hR : Tracking R) {r r' : List Char} (h : R r r') :
    Steady R (blanks? r) (blanks? r') := by
  refine steady_of_tracks hR ?_ h
  intro R hR r r' h x hx
  rw [blanks?_eq] at hx
  cases r with
  | nil => cases hx
  | cons c r =>
    rw [List.head?_cons, Option.any_some] at hx
    by_cases hc : isBlank c = true
    · rw [if_pos hc] at hx
      obtain ⟨d, u, rfl, hd⟩ := hR.blank hc h
      refine ⟨_, ?_, Option.some.inj hx ▸ hR.trimStart h⟩
      rw [blanks?_eq, List.head?_cons, Option.any_some, if_pos hd]
    · rw [if_neg hc] at hx
      cases hx

theorem keyword?_steady (hR : Tracking R) {k : List Char} (hk : ∀ c ∈ k, c.isAlpha = true)
    {r r' : List Char} (h : R r r') : Steady R (keyword? k r) (keyword? k r') := by
  refine steady_of_tracks hR ?_ h
  clear h
  intro R hR
  induction k with
  | nil =>
    intro r r' h x hx
    exact ⟨r', rfl, Option.some.inj hx ▸ h⟩
  | cons y k ih =>
    intro r r' h x hx
    cases r with
    | nil => cases hx
    | cons c r =>
      rw [keyword?] at hx
      by_cases hc : foldLetter c = y
      · rw [if_pos hc] at hx
        have halpha : (foldLetter c).isAlpha = true := by
          rw [hc]
          exact hk y List.mem_cons_self
        obtain ⟨u, rfl, hu⟩ := hR.letter halpha h
        obtain ⟨x', hx', hrel⟩ := ih (fun d hd => hk d (List.mem_cons_of_mem _ hd)) hu x hx
        exact ⟨x', by rw [keyword?, if_pos hc]; exact hx', hrel⟩
      · rw [if_neg hc] at hx
        cases hx

theorem keywordBlanks?_steady (hR : Tracking R) {k : String} (hk : ∀ c ∈ k.toList, c.isAlpha = true)
    {r r' : List Char} (h : R r r') : Steady R (keywordBlanks? k r) (keywordBlanks? k r') :=
  (keyword?_steady hR hk h).bind fun _ _ h => blanks?_steady hR h

theorem skipOneOf_steady (hR : Tracking R) {ks : List String}
    (hks : ∀ k ∈ ks, k.toList.all Char.isAlpha = true) {r r' : List Char} (h : R r r') :
    R (skipOneOf ks r) (skipOneOf ks r') := by
  refine Steady.getD ?_ h
  induction ks with
  | nil => trivial
  | cons k ks ih =>
    obtain ⟨hk, hks⟩ := List.forall_mem_cons.1 hks
    have hor := (keywordBlanks?_steady hR (List.all_eq_true.1 hk) h).orElse (ih hks)
    rw [List.findSome?_cons, List.findSome?_cons]
    generalize keywordBlanks? k r = x at hor ⊢
    generalize keywordBlanks? k r' = x' at hor ⊢
    cases x with
    | some u =>
      cases x' with
      | some u' => exact hor
      | none => exact hor
    | none =>
      cases x' with
      | some u' => exact hor
      | none => exact hor

theorem createTable?_steady (hR : Tracking R) {r r' : List Char} (h : R r r') :
    Steady R (createTable? r) (createTable? r') :=
  (keywordBlanks?_steady hR (forall_chars (by decide)) h).bind fun _ _ h =>
    keyword?_steady hR (forall_chars (by decide)) (skipOneOf_steady hR (by decide)
      (skipOneOf_steady hR (by decide) h))

/-- What is read behind the white space in front of a name. -/
def ifNotExists (r : List Char) : List Char :=
  (((keywordBlanks? "IF" r).bind (keywordBlanks? "NOT")).bind (keywordBlanks? "EXISTS")).getD r

theorem ifNotExists_steady (hR : Tracking R) {r r' : List Char} (h : R r r') :
    R (ifNotExists r) (ifNotExists r') :=
  Steady.getD (((keywordBlanks?_steady hR (forall_chars (by decide)) h).bind
    fun _ _ h => keywordBlanks?_steady hR (forall_chars (by decide)) h).bind
    fun _ _ h => keywordBlanks?_steady hR (forall_chars (by decide)) h) h

end Readers

/-! ## §4. Identifiers. -/

/-- A quoted identifier ends where it does whatever comes next but a quote. -/
theorem quotedIdentEnd?_swap {t inside behind : List Char}
    (h : quotedIdentEnd? t = some (inside, behind)) {behind' : List Char}
    (hnext : behind'.head? = some '"' → behind.head? = some '"') :
    quotedIdentEnd? (inside ++ '"' :: behind') = some (inside, behind') := by
  induction t using quotedIdentEnd?.induct generalizing inside with
  | case1 rest ih =>
    rw [quotedIdentEnd?] at h
    obtain ⟨⟨inside', b⟩, hrest, heq⟩ := Option.map_eq_some_iff.1 h
    obtain ⟨rfl, rfl⟩ := Prod.mk.inj heq
    rw [List.cons_append, List.cons_append, quotedIdentEnd?, ih hrest]
    rfl
  | case2 rest hne =>
    rw [quotedIdentEnd?.eq_2 rest hne] at h
    obtain ⟨rfl, rfl⟩ := Prod.mk.inj (Option.some.inj h)
    refine quotedIdentEnd?.eq_2 behind' fun v hv => ?_
    rw [hv] at hnext
    cases rest with
    | nil => cases hnext rfl
    | cons c rest => exact hne rest (by rw [Option.some.inj (hnext rfl)])
  | case3 c rest hne hc ih =>
    rw [quotedIdentEnd?.eq_3 c rest hne hc] at h
    obtain ⟨⟨inside', b⟩, hrest, heq⟩ := Option.map_eq_some_iff.1 h
    obtain ⟨rfl, rfl⟩ := Prod.mk.inj heq
    rw [List.cons_append, quotedIdentEnd?.eq_3 c _ (fun _ h => absurd h hc) hc, ih hrest]
    rfl
  | case4 => cases h

/-- A name ends where it does whatever white space comes next. -/
theorem ident?_swap {t name behind : List Char} (h : ident? t = some (name, behind))
    {behind' : List Char}
    (hnext : ∀ c, isBlank c = false → behind'.head? = some c → behind.head? = some c) :
    ident? (name ++ behind') = some (name, behind') := by
  rcases ident?_cases h with ⟨inside, rest, rfl, hne, hend, rfl⟩ | ⟨c, rest, rfl, hc, hbegins, rfl,
    rfl⟩
  · cases inside with
    | nil => exact absurd rfl hne
    | cons x inside =>
      have hswap := quotedIdentEnd?_swap hend (hnext '"' (by decide))
      rw [show ('"' :: (x :: inside) ++ ['"']) ++ behind' = '"' :: (x :: inside ++ '"' :: behind')
        by simp, ident?, if_pos rfl, hswap]
  · have hstops : behind'.takeWhile isOfName = [] := by
      cases behind' with
      | nil => rfl
      | cons d behind' =>
        refine List.takeWhile_cons_of_neg fun hd => ?_
        have hhead := hnext d (isBlank_of_name (isOfName_cases hd)) rfl
        have hnot := List.head?_dropWhile_not isOfName rest
        rw [hhead] at hnot
        simp [hd] at hnot
    have hdrops : behind'.dropWhile isOfName = behind' := by
      conv_rhs => rw [← List.takeWhile_append_dropWhile (p := isOfName) (l := behind'), hstops,
        List.nil_append]
    have htake : ∀ d ∈ rest.takeWhile isOfName, isOfName d = true :=
      List.all_eq_true.1 List.all_takeWhile
    show (if c = '"' then _ else if beginsName c then some (c :: (rest.takeWhile isOfName
      ++ behind').takeWhile isOfName, (rest.takeWhile isOfName ++ behind').dropWhile isOfName)
      else none) = _
    rw [if_neg hc, if_pos hbegins, List.takeWhile_append_of_pos htake, hstops, List.append_nil,
      List.dropWhile_append_of_pos htake, hdrops]

/-- What is in front of one text, and not white, is in front of a respaced one. -/
theorem head?_respaced {s s' : Lexer} {r r' : List Char} (h : Respaced (s.glyphs r) (s'.glyphs r'))
    (hbare : ∀ g ∈ s.glyphs r, g.cls ≠ .comment) {c : Char} (hc : isBlank c = false)
    (hr : r.head? = some c) : r'.head? = some c := by
  have hbegins : Begins (s.glyphs r) := by
    intro g hg
    have hchar : g.char = c := by
      have hhead := hr
      rw [← glyphs_map_char s r, List.head?_map, Option.mem_def.1 hg] at hhead
      exact Option.some.inj hhead
    by_contra hgap
    have hblank := (isBlank_of_isGap (Bool.not_eq_false _ ▸ hgap)
      (hbare g (List.mem_of_mem_head? hg))).1
    rw [hchar, hc] at hblank
    cases hblank
  rw [← glyphs_map_char s' r', List.head?_map, ← h.head_eq hbegins, ← List.head?_map,
    glyphs_map_char, hr]

/-- **Of both texts the same name is read.** -/
theorem Facing.ident {t t' name behind : List Char} (h : Facing t t')
    (hname : ident? t = some (name, behind)) :
    ∃ behind', ident? t' = some (name, behind') ∧ Facing behind behind' := by
  obtain ⟨rfl, hreads⟩ := ident?_reads hname
  obtain ⟨s, s', hs, hs', hrespaced, hbare, hbare'⟩ := h
  obtain ⟨hgapless, hidle⟩ := hreads s hs
  rw [Lexer.glyphs_append] at hrespaced hbare
  obtain ⟨gs, hgs, hbehind⟩ := hrespaced.of_gapless hgapless
  obtain ⟨htext, -, hrest⟩ := Lexer.glyphs_split hgs
  rw [Lexer.reads_map_char] at htext hrest
  rw [hgs] at hbare'
  generalize gs.map Glyph.char = behind' at htext hrest
  subst htext hrest
  replace hbare' := fun g hg => hbare' g (List.mem_append_right _ hg)
  have hname' := ident?_swap hname fun c hc hhead => head?_respaced hbehind.symm hbare' hc hhead
  obtain ⟨-, hreads'⟩ := ident?_reads hname'
  exact ⟨behind', hname', _, _, hidle, (hreads' s' hs').2, hbehind,
    fun g hg => hbare g (List.mem_append_right _ hg), hbare'⟩

/-! ## §5. The head. -/

/-- A mark that is found behind white space in one text is found there in the other. -/
theorem Facing.mark {c : Char} (hc : IsPlain c) (hblank : isBlank c = false) {r r' x : List Char}
    (h : Facing r r') (hmark : Text.trimStart r = c :: x) :
    ∃ x', Text.trimStart r' = c :: x' ∧ Facing x x' ∧ Facing (c :: x) (c :: x') := by
  have htrim := h.trimStart
  rw [hmark] at htrim
  obtain ⟨x', hx', hfacing⟩ := htrim.of_cons hc hblank
  exact ⟨x', hx', hfacing, hx' ▸ htrim⟩

/-- **The head of a definition is read in the other, too**, with the same names. -/
theorem head?_facing {t t' : List Char} (h : Facing t t') {head : Head} (hhead : head? t = some head) :
    ∃ head', head? t' = some head' ∧ head'.schema = head.schema ∧ head'.name = head.name
      ∧ Facing ('(' :: head.body) ('(' :: head'.body) := by
  unfold head? at hhead
  obtain ⟨a, htable, hhead⟩ := Option.bind_eq_some_iff.1 hhead
  obtain ⟨b, hblanks, hhead⟩ := Option.bind_eq_some_iff.1 hhead
  obtain ⟨⟨first, behind⟩, hfirst, hhead⟩ := Option.bind_eq_some_iff.1 hhead
  -- each step in front of the body is made in the other text, too
  obtain ⟨a', htable', ha⟩ := (createTable?_steady tracking_facing h.trimStart).of_some htable
  obtain ⟨b', hblanks', hb⟩ := (blanks?_steady tracking_facing ha).of_some hblanks
  obtain ⟨behind', hfirst', hbehind⟩ := (ifNotExists_steady tracking_facing hb).ident hfirst
  unfold ifNotExists at hfirst'
  unfold head?
  simp only [htable', hblanks', hfirst', Option.bind_eq_bind, Option.bind_some]
  dsimp only at hhead
  split at hhead
  · next body hbody =>
    obtain ⟨body', hbody', -, hfacing⟩ := hbehind.mark (by decide) (by decide) hbody
    obtain rfl := Option.some.inj hhead
    rw [hbody']
    exact ⟨_, rfl, rfl, rfl, hfacing⟩
  · next rest hdot =>
    obtain ⟨rest', hdot', hrest, -⟩ := hbehind.mark (by decide) (by decide) hdot
    obtain ⟨⟨name, last⟩, hname, hhead⟩ := Option.bind_eq_some_iff.1 hhead
    obtain ⟨last', hname', hlast⟩ := hrest.trimStart.ident hname
    dsimp only at hhead
    split at hhead
    · next body hbody =>
      obtain ⟨body', hbody', -, hfacing⟩ := hlast.mark (by decide) (by decide) hbody
      obtain rfl := Option.some.inj hhead
      refine ⟨⟨some first, name, body'⟩, ?_, rfl, rfl, hfacing⟩
      rw [hdot']
      show (ident? (Text.trimStart rest')).bind _ = _
      rw [hname', Option.bind_some]
      dsimp only
      rw [hbody']
      rfl
    · cases hhead
  · cases hhead

end SchemaDrift.Table
