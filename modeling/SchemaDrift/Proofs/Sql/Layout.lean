/-
  SchemaDrift.Proofs.Sql.Layout
  ─────────────────────────────
  **THE NORMAL FORM DOES NOT SEE LAYOUT.**

  White space at the ends of a statement and the semicolon that `terminate` puts behind it
  leave the normal form as it is.  Neither is read as anything but a gap or a closing
  character, unless the text ends inside of something quoted; there the normal form cuts
  it off as well.

      normalize_trim        white space at the ends
      normalize_terminate   the semicolon
      normalize_ne_nil      a text with something to say has a normal form that says it
-/

import SchemaDrift.Proofs.Sql.Cutting
import SchemaDrift.Proofs.Text.Blank
import SchemaDrift.Sql.Normal

namespace SchemaDrift.Sql

open SchemaDrift.Text

/-! ## §1. White space. -/

theorem isQuote_of_isBlank {c : Char} (hc : isBlank c = true) : isQuote c = false := by
  have h := forall_blank (f := fun c => !isQuote c) (by decide) hc
  exact Bool.not_eq_true' _ ▸ h

theorem isStop_of_isBlank {c : Char} (hc : isBlank c = true) : isStop c = true :=
  forall_blank (by decide +kernel) hc

theorem ne_of_isBlank {c x : Char} (hc : isBlank c = true) (hx : isBlank x = false) : c ≠ x := by
  rintro rfl
  rw [hc] at hx
  cases hx

section Gap

variable {g : Glyph}

theorem isGap_comment (h : g.cls = .comment) : g.isGap = true := by
  unfold Glyph.isGap
  rw [h]

theorem isGap_quoted (h : g.cls = .quoted) : g.isGap = false := by
  unfold Glyph.isGap
  rw [h]

theorem isGap_code (h : g.cls = .code) : g.isGap = isBlank g.char := by
  unfold Glyph.isGap
  rw [h]

end Gap

namespace Lexer

/-- White space in fresh code is code, and the code behind it is fresh. -/
theorem fresh_blanks {s : Lexer} (hs : s.Fresh) {b q : List Char} (hb : ∀ c ∈ b, isBlank c = true) :
    (∀ g ∈ s.reads b q, g.isGap = true) ∧ (s.past b q).Fresh := by
  induction b generalizing s with
  | nil => exact ⟨by simp, hs⟩
  | cons c b ih =>
    have hc : isBlank c = true := hb c List.mem_cons_self
    obtain ⟨hcls, hidle⟩ := advance_plain hs.toIdle (isQuote_of_isBlank hc)
      (ne_of_isBlank hc (by decide)) (ne_of_isBlank hc (by decide)) (b ++ q)
    have hfresh : (s.advance c (b ++ q)).2.Fresh := by
      refine ⟨hidle, ?_⟩
      rw [advance_last]
      simp [isIdentChar_of_isBlank hc, ne_of_isBlank hc (x := '$') (by decide)]
    obtain ⟨hgaps, hpast⟩ := ih hfresh fun c hc => hb c (List.mem_cons_of_mem _ hc)
    refine ⟨?_, hpast⟩
    rw [reads_cons]
    intro g hg
    rcases List.mem_cons.1 hg with rfl | hg
    · exact (isGap_code hcls).trans hc
    · exact hgaps g hg

end Lexer

/-! ## §2. Squeezing. -/

/-- Gaps in front vanish. -/
theorem squeeze_gaps_append {gs : List Glyph} (h : ∀ g ∈ gs, g.isGap = true) (pending : Bool)
    (hs : List Glyph) : squeeze false pending (gs ++ hs) = squeeze false false hs := by
  have hpending : ∀ hs, squeeze false true hs = squeeze false false hs := by
    intro hs
    cases hs with
    | nil => rfl
    | cons g hs => simp [squeeze]
  induction gs generalizing pending with
  | nil =>
    cases pending
    · rfl
    · exact hpending hs
  | cons g gs ih =>
    rw [List.cons_append, squeeze, if_pos (h g List.mem_cons_self)]
    exact ih (fun g hg => h g (List.mem_cons_of_mem _ hg)) true

/-- Gaps and closing characters behind a text are squeezed to closing characters. -/
theorem squeeze_append {hs : List Glyph}
    (h : ∀ g ∈ hs, g.isGap = true ∨ isClosing g.char = true) (gs : List Glyph)
    (started pending : Bool) : ∃ r, squeeze started pending (gs ++ hs)
      = squeeze started pending gs ++ r ∧ ∀ c ∈ r, isClosing c = true := by
  -- gaps and closing characters leave closing characters only
  have hclosing : ∀ hs : List Glyph, (∀ g ∈ hs, g.isGap = true ∨ isClosing g.char = true) →
      ∀ started pending, ∀ c ∈ squeeze started pending hs, isClosing c = true := by
    intro hs h
    induction hs with
    | nil => simp [squeeze]
    | cons g hs ih =>
      have ih := ih fun g hg => h g (List.mem_cons_of_mem _ hg)
      intro started pending c hc
      unfold squeeze at hc
      split at hc
      · exact ih _ _ c hc
      · next hgap =>
        have hg : isClosing g.char = true := (h g List.mem_cons_self).resolve_left hgap
        split at hc
        · rcases List.mem_cons.1 hc with rfl | hc
          · decide
          · rcases List.mem_cons.1 hc with rfl | hc
            · exact hg
            · exact ih _ _ c hc
        · rcases List.mem_cons.1 hc with rfl | hc
          · exact hg
          · exact ih _ _ c hc
  induction gs generalizing started pending with
  | nil => exact ⟨_, rfl, hclosing hs h started pending⟩
  | cons g gs ih =>
    rw [List.cons_append, squeeze, squeeze]
    split
    · exact ih started true
    · obtain ⟨r, hr, hall⟩ := ih true false
      rw [hr]
      split
      · exact ⟨r, rfl, hall⟩
      · exact ⟨r, rfl, hall⟩

/-- The normal form of glyphs. -/
theorem normal_append {gs hs : List Glyph}
    (h : ∀ g ∈ hs, g.isGap = true ∨ isClosing g.char = true) :
    trimEndWhile isClosing (squeeze false false (gs ++ hs))
      = trimEndWhile isClosing (squeeze false false gs) := by
  obtain ⟨r, hr, hall⟩ := squeeze_append h gs false false
  rw [hr, trimEndWhile_append_of_all hall]

/-! ## §3. White space at the ends. -/

theorem isClosing_of_isBlank {c : Char} (hc : isBlank c = true) : isClosing c = true := by
  unfold isClosing
  rw [hc, Bool.or_true]

/-- White space in front makes no difference. -/
theorem normalize_append_left {b : List Char} (hb : ∀ c ∈ b, isBlank c = true) (s : List Char) :
    normalize (b ++ s) = normalize s := by
  obtain ⟨hgaps, hfresh⟩ := Lexer.fresh_blanks (q := s) Lexer.fresh_start hb
  unfold normalize classify
  rw [Lexer.glyphs_append, squeeze_gaps_append hgaps]
  have halike := (Lexer.alike_reads (Lexer.alike_start hfresh) s []).1
  rw [Lexer.reads_whole, Lexer.reads_whole] at halike
  rw [halike]

/-- White space behind makes no difference. -/
theorem normalize_append_right {b : List Char} (hb : ∀ c ∈ b, isBlank c = true) (s : List Char) :
    normalize (s ++ b) = normalize s := by
  cases b with
  | nil => rw [List.append_nil]
  | cons c b =>
    have hc : isBlank c = true := hb c List.mem_cons_self
    have hreads := (Lexer.reads_firm Lexer.delimited_start (isStop_of_isBlank hc)
      (ne_of_isBlank hc (by decide)) (ne_of_isBlank hc (by decide)) s b).1
    unfold normalize classify
    rw [Lexer.glyphs_append, hreads]
    refine normal_append fun g hg => Or.inr (isClosing_of_isBlank (hb _ ?_))
    rw [← glyphs_map_char ((({} : Lexer)).past s (c :: b)) (c :: b)]
    exact List.mem_map_of_mem hg

/-- **White space at the ends makes no difference to the normal form.** -/
theorem normalize_trim (s : List Char) : normalize (trim s) = normalize s := by
  obtain ⟨a, b, hs, ha, hb⟩ := exists_trim s
  have h := normalize_append_left ha (trim s ++ b)
  rw [← hs, normalize_append_right hb] at h
  exact h.symm

theorem normalize_trimEnd (s : List Char) : normalize (trimEnd s) = normalize s := by
  obtain ⟨r, hr, hblank⟩ := exists_trimmed isBlank s
  have h := normalize_append_right hblank (trimEnd s)
  rw [show trimEnd s ++ r = s from hr.symm] at h
  exact h.symm

/-! ## §4. The closing semicolon. -/

/-- The glyph may stand behind the semicolon of a statement. -/
def Glyph.isTrailing (g : Glyph) : Bool := g.cls = .comment || isBlank g.char

theorem not_comment_of_isTrailing {g : Glyph} (hg : g.isTrailing = false) : g.cls ≠ .comment := by
  intro hc
  unfold Glyph.isTrailing at hg
  rw [hc] at hg
  cases hg

/-- The glyphs are cut in front of the trailing ones. -/
theorem terminate_eq (s : List Char) : terminate s
    = match (classify (trimEnd s)).reverse.dropWhile Glyph.isTrailing with
      | [] => trimEnd s
      | g :: _ => if g.isCode ';' then trimEnd s else
        ((classify (trimEnd s)).reverse.dropWhile Glyph.isTrailing).reverse.map Glyph.char
          ++ ';' :: ((classify (trimEnd s)).reverse.takeWhile Glyph.isTrailing).reverse.map
            Glyph.char := rfl

/-- A row of glyphs is all trailing, or has a last glyph that is not. -/
theorem trailing_or_last (row : List Glyph) : (∀ g ∈ row, g.isTrailing = true)
    ∨ ∃ gs g hs, row = gs ++ g :: hs ∧ g.isTrailing = false ∧ ∀ h ∈ hs, h.isTrailing = true := by
  have hsplit := List.rdropWhile_append_rtakeWhile (p := Glyph.isTrailing) (l := row)
  have htrailing : ∀ h ∈ row.rtakeWhile Glyph.isTrailing, h.isTrailing = true :=
    fun h hh => List.mem_rtakeWhile_imp hh
  by_cases hne : row.rdropWhile Glyph.isTrailing = []
  · rw [hne, List.nil_append] at hsplit
    rw [hsplit] at htrailing
    exact Or.inl htrailing
  · have hlast := List.rdropWhile_last_not Glyph.isTrailing row hne
    rw [← List.dropLast_append_getLast hne, List.append_assoc] at hsplit
    exact Or.inr ⟨_, _, _, hsplit.symm, by simpa using hlast, htrailing⟩

/-- Where all is trailing no semicolon is put in. -/
theorem terminate_trailing {s : List Char} (hall : ∀ g ∈ classify (trimEnd s), g.isTrailing = true) :
    terminate s = trimEnd s := by
  have hnone : (classify (trimEnd s)).reverse.dropWhile Glyph.isTrailing = [] :=
    List.dropWhile_eq_nil_iff.2 fun g hg => hall g (List.mem_reverse.1 hg)
  rw [terminate_eq, hnone]

/-- The semicolon is put behind the last glyph that is no trailing one, unless that is one. -/
theorem terminate_last {s : List Char} {gs : List Glyph} {g : Glyph} {hs : List Glyph}
    (hsplit : classify (trimEnd s) = gs ++ g :: hs) (hg : g.isTrailing = false)
    (hall : ∀ h ∈ hs, h.isTrailing = true) : terminate s
      = if g.isCode ';' then trimEnd s
        else (gs ++ [g]).map Glyph.char ++ ';' :: hs.map Glyph.char := by
  have hrev : (gs ++ g :: hs).reverse = hs.reverse ++ g :: gs.reverse := by simp
  have hall' : ∀ h ∈ hs.reverse, h.isTrailing = true := fun h hh => hall h (List.mem_reverse.1 hh)
  have hdrop : (gs ++ g :: hs).reverse.dropWhile Glyph.isTrailing = g :: gs.reverse := by
    rw [hrev, List.dropWhile_append_of_pos hall', List.dropWhile_cons_of_neg (by simp [hg])]
  have htake : (gs ++ g :: hs).reverse.takeWhile Glyph.isTrailing = hs.reverse := by
    rw [hrev, List.takeWhile_append_of_pos hall', List.takeWhile_cons_of_neg (by simp [hg]),
      List.append_nil]
  rw [terminate_eq, hsplit, hdrop, htake]
  simp

/-- What `terminate` does: nothing but a trim, or a semicolon behind the last glyph that
is neither blank nor of a comment. -/
theorem terminate_cases (s : List Char) : terminate s = trimEnd s
    ∨ ∃ gs g hs, classify (trimEnd s) = gs ++ g :: hs ∧ g.isTrailing = false
      ∧ (∀ h ∈ hs, h.isTrailing = true)
      ∧ terminate s = (gs ++ [g]).map Glyph.char ++ ';' :: hs.map Glyph.char := by
  rcases trailing_or_last (classify (trimEnd s)) with hall | ⟨gs, g, hs, hsplit, hg, hall⟩
  · exact Or.inl (terminate_trailing hall)
  · have hlast := terminate_last hsplit hg hall
    by_cases hcode : g.isCode ';' = true
    · rw [if_pos hcode] at hlast
      exact Or.inl hlast
    · rw [if_neg hcode] at hlast
      exact Or.inr ⟨gs, g, hs, hsplit, hg, hall, hlast⟩

/-- What is quoted at the end of a text does not turn into a comment over white space. -/
theorem quoted_last {h : Glyph} {hs : List Glyph} (hchain : (h :: hs).IsChain Neighbours)
    (htrailing : ∀ g ∈ h :: hs, g.isTrailing = true) (hquoted : h.cls = .quoted) :
    ∃ c, ((h :: hs).map Glyph.char).getLast? = some c ∧ isBlank c = true := by
  have hblank : isBlank h.char = true := by
    have ht := htrailing h List.mem_cons_self
    unfold Glyph.isTrailing at ht
    simpa [hquoted] using ht
  induction hs generalizing h with
  | nil => exact ⟨h.char, rfl, hblank⟩
  | cons h' hs ih =>
    obtain ⟨hfirst, hrest⟩ := List.isChain_cons_cons.1 hchain
    have hquoted' : h'.cls = .quoted := hfirst.quoted hquoted (isQuote_of_isBlank hblank)
    have htrailing' : ∀ g ∈ h' :: hs, g.isTrailing = true :=
      fun g hg => htrailing g (List.mem_cons_of_mem _ hg)
    have hblank' : isBlank h'.char = true := by
      have ht := htrailing' h' List.mem_cons_self
      unfold Glyph.isTrailing at ht
      simpa [hquoted'] using ht
    exact ih hrest htrailing' hquoted' hblank'

/-- Trailing glyphs behind another one begin with white space or a comment. -/
theorem trailing_head {s : List Char} {gs : List Glyph} {g h : Glyph} {hs : List Glyph}
    (hsplit : classify s = gs ++ g :: h :: hs) (hg : g.isTrailing = false)
    (hh : h.isTrailing = true) : isBlank h.char = true ∨ h.char = '-' ∨ h.char = '/' := by
  have hchain := classify_neighbours s
  rw [hsplit] at hchain
  have hneighbours : Neighbours g h :=
    (List.isChain_cons_cons.1 (List.isChain_append.1 hchain).2.1).1
  unfold Glyph.isTrailing at hh
  by_cases hblank : isBlank h.char = true
  · exact Or.inl hblank
  · have hcls : h.cls = .comment := by simpa [hblank] using hh
    exact Or.inr (hneighbours.opens_comment (not_comment_of_isTrailing hg) hcls)

/-- Behind the last glyph of a text that is no trailing one there is code, if trailing ones
follow, and all of them are gaps. -/
theorem trailing_gaps {s : List Char} {gs : List Glyph} {g h : Glyph} {hs : List Glyph}
    (hsplit : classify (trimEnd s) = gs ++ g :: h :: hs) (hg : g.isTrailing = false)
    (hall : ∀ x ∈ h :: hs, x.isTrailing = true) :
    (∀ x ∈ h :: hs, x.isGap = true)
      ∧ (({} : Lexer).past ((gs ++ [g]).map Glyph.char) ((h :: hs).map Glyph.char)).inside
        = .code := by
  rw [show gs ++ g :: h :: hs = (gs ++ [g]) ++ (h :: hs) by simp] at hsplit
  obtain ⟨htext, hreads, hglyphs⟩ := Lexer.glyphs_split hsplit
  have hchain := classify_neighbours (trimEnd s)
  rw [hsplit] at hchain
  -- a quoted glyph among the trailing ones would reach the end, which is not white
  have hnone : ∀ x ∈ h :: hs, x.cls ≠ .quoted := by
    intro x hx hquoted
    obtain ⟨xs, ys, hxs⟩ := List.append_of_mem hx
    rw [hxs, ← List.append_assoc] at hchain
    have htail : (x :: ys).IsChain Neighbours := (List.isChain_append.1 hchain).2.1
    obtain ⟨c, hc, hblank⟩ := quoted_last htail (fun y hy => hall y (by rw [hxs]; simp_all)) hquoted
    have hmap : (xs ++ x :: ys).map Glyph.char = xs.map Glyph.char ++ (x :: ys).map Glyph.char :=
      List.map_append
    have hlast : (trimEnd s).getLast? = some c := by
      rw [htext, hxs, hmap, ← List.append_assoc, List.getLast?_append, hc]
      rfl
    rw [trimEndWhile_last hlast] at hblank
    cases hblank
  refine ⟨?_, ?_⟩
  · intro x hx
    have ht := hall x hx
    unfold Glyph.isTrailing at ht
    cases hcls : x.cls with
    | comment => exact isGap_comment hcls
    | quoted => exact absurd hcls (hnone x hx)
    | code =>
      rw [isGap_code hcls]
      simpa [hcls] using ht
  · have hsound : ({} : Lexer).Sound ((gs ++ [g]).map Glyph.char ++ (h :: hs).map Glyph.char) :=
      Lexer.sound_start _
    have hleaves := Lexer.past_leaves hsound (g := g) (by rw [hreads, List.getLast?_concat])
    have henters := Lexer.advance_enters (Lexer.sound_past hsound)
    rw [List.map_cons, Lexer.glyphs] at hglyphs
    rw [(List.cons.inj hglyphs).1] at henters
    rcases hleaves with hl | ⟨hl, -⟩
    · have hcomment : g.cls ≠ .comment := not_comment_of_isTrailing hg
      rcases henters with he | ⟨he, -⟩ | ⟨he, -⟩
      · cases hcls : g.cls with
        | code => exact hl.trans hcls
        | quoted => exact absurd (he.trans (hl.trans hcls)) (hnone h List.mem_cons_self)
        | comment => exact absurd hcls hcomment
      · exact he
      · exact absurd (hl.symm.trans he) hcomment
    · exact hl

/-- What follows in code is read alike behind whatever code. -/
theorem alike_glyphs_behind {s s' : Lexer} (h : s.Idle) (h' : s'.Idle) {c : Char}
    (hc : isIdentChar c = false) (hc' : isQuote c = false) (rest : List Char) :
    s.glyphs (c :: rest) = s'.glyphs (c :: rest) := by
  obtain ⟨hcls, halike⟩ := Lexer.alike_behind h h' hc hc' rest
  have hreads := (Lexer.alike_reads halike rest []).1
  rw [Lexer.reads_whole, Lexer.reads_whole] at hreads
  rw [Lexer.glyphs, Lexer.glyphs, hcls, hreads]

/-- A semicolon behind the last glyph that is no trailing one changes no other glyph. -/
theorem classify_semicolon {s : List Char} {gs : List Glyph} {g : Glyph} {hs : List Glyph}
    (hsplit : classify (trimEnd s) = gs ++ g :: hs) (hg : g.isTrailing = false)
    (hall : ∀ h ∈ hs, h.isTrailing = true) :
    (∀ h ∈ hs, h.isGap = true)
      ∧ ∃ cls, classify ((gs ++ [g]).map Glyph.char ++ ';' :: hs.map Glyph.char)
          = (gs ++ [g]) ++ ⟨';', cls⟩ :: hs := by
  have hstart : ({} : Lexer).Delimited := Lexer.delimited_start
  have hsemicolon : ∀ w, ({} : Lexer).reads ((gs ++ [g]).map Glyph.char) (';' :: w)
      = classify ((gs ++ [g]).map Glyph.char) :=
    fun w => (Lexer.reads_firm hstart (by decide +kernel) (by decide) (by decide) _ w).1
  cases hs with
  | nil =>
    have hglyphs : classify ((gs ++ [g]).map Glyph.char) = gs ++ [g] := by
      have hwhole : classify (trimEnd s) = (gs ++ [g]) ++ [] :=
        hsplit.trans (List.append_nil _).symm
      obtain ⟨-, hreads, -⟩ := Lexer.glyphs_split hwhole
      rw [List.map_nil, Lexer.reads_whole] at hreads
      exact hreads
    refine ⟨by simp, ((({} : Lexer).past ((gs ++ [g]).map Glyph.char) [';']).advance ';' []).1, ?_⟩
    unfold classify
    rw [List.map_nil, Lexer.glyphs_append, hsemicolon, hglyphs]
    rfl
  | cons h hs =>
    obtain ⟨hgaps, hinside⟩ := trailing_gaps hsplit hg hall
    have hhead := trailing_head hsplit hg (hall h List.mem_cons_self)
    have hcomment : g.cls ≠ .comment := not_comment_of_isTrailing hg
    rw [show gs ++ g :: h :: hs = (gs ++ [g]) ++ (h :: hs) by simp] at hsplit
    obtain ⟨-, hreads, hbehind⟩ := Lexer.glyphs_split hsplit
    have hsoft : isIdentChar h.char = false ∧ isQuote h.char = false ∧ isStop h.char = true := by
      rcases hhead with hblank | hc | hc
      · exact ⟨isIdentChar_of_isBlank hblank, isQuote_of_isBlank hblank, isStop_of_isBlank hblank⟩
      · rw [hc]
        decide +kernel
      · rw [hc]
        decide +kernel
    obtain ⟨hident, hquote, hstop⟩ := hsoft
    have hlast : ∀ x ∈ (({} : Lexer).reads ((gs ++ [g]).map Glyph.char)
        (h.char :: hs.map Glyph.char)).getLast?, x.cls ≠ .comment := by
      intro x hx
      rw [← List.map_cons, hreads, List.getLast?_concat] at hx
      cases hx
      exact hcomment
    obtain ⟨hfront, hmode, hpast⟩ :=
      Lexer.reads_stop hstart hstop _ (hs.map Glyph.char) fun _ => hlast
    rw [← List.map_cons] at hfront hmode hpast
    -- both the semicolon and what was behind are read from the state behind the front
    have hidle := Lexer.idle_of_inside (Lexer.sound_past (Lexer.sound_start _)) hinside
    have hunquoted : (({} : Lexer).after ((gs ++ [g]).map Glyph.char)).mode.cls ≠ .quoted := by
      rw [← hmode, hidle.mode]
      decide
    rw [hpast hunquoted] at hidle hbehind
    have hpast' := (Lexer.reads_firm hstart (c := ';') (by decide +kernel) (by decide) (by decide)
      ((gs ++ [g]).map Glyph.char) ((h :: hs).map Glyph.char)).2.2 hunquoted
    obtain ⟨hcode, hidle'⟩ := Lexer.advance_plain (c := ';') hidle (by decide) (by decide)
      (by decide) ((h :: hs).map Glyph.char)
    refine ⟨hgaps, .code, ?_⟩
    have hglyphs : classify ((gs ++ [g]).map Glyph.char) = gs ++ [g] := hfront.symm.trans hreads
    have halike := alike_glyphs_behind hidle' hidle hident hquote (hs.map Glyph.char)
    unfold classify
    rw [Lexer.glyphs_append, hsemicolon, hglyphs, hpast', Lexer.glyphs, hcode]
    rw [← List.map_cons, hbehind] at halike
    rw [halike]

/-- **The closing semicolon makes no difference to the normal form.** -/
theorem normalize_terminate (s : List Char) : normalize (terminate s) = normalize s := by
  rcases terminate_cases s with h | ⟨gs, g, hs, hsplit, hg, hall, h⟩
  · rw [h, normalize_trimEnd]
  · obtain ⟨hgaps, cls, hclassify⟩ := classify_semicolon hsplit hg hall
    rw [h, ← normalize_trimEnd s]
    unfold normalize
    rw [hclassify, hsplit, show gs ++ g :: hs = (gs ++ [g]) ++ hs by simp]
    rw [normal_append fun x hx => Or.inl (hgaps x hx), normal_append]
    intro x hx
    rcases List.mem_cons.1 hx with rfl | hx
    · exact Or.inr rfl
    · exact Or.inl (hgaps x hx)

/-! ## §5. Texts with something to say. -/

/-- The glyph says something: it is no gap and no closing character. -/
def Glyph.isSaying (g : Glyph) : Bool := !g.isGap && !isClosing g.char

/-- **A text has a normal form that is not empty exactly if a glyph of it says something.** -/
theorem normalize_ne_nil {s : List Char} :
    normalize s ≠ [] ↔ ∃ g ∈ classify s, g.isSaying = true := by
  -- squeezing keeps what is no gap, and adds spaces only
  have hmem : ∀ (gs : List Glyph) (started pending : Bool),
      (∀ c ∈ squeeze started pending gs, isClosing c = true)
        ↔ ∀ g ∈ gs, g.isGap = true ∨ isClosing g.char = true := by
    intro gs
    induction gs with
    | nil => simp [squeeze]
    | cons g gs ih =>
      intro started pending
      unfold squeeze
      by_cases hgap : g.isGap = true
      · rw [if_pos hgap, ih]
        simp [hgap]
      · rw [if_neg hgap]
        split
        · have hspace : isClosing ' ' = true := by decide
          simp [hspace, hgap, ih true false]
        · simp [hgap, ih true false]
  unfold normalize
  rw [ne_eq, trimEndWhile_eq_nil_iff, hmem]
  unfold Glyph.isSaying
  constructor
  · intro h
    by_contra hnone
    refine h fun g hg => ?_
    by_contra hg'
    exact hnone ⟨g, hg, by simpa using hg'⟩
  · rintro ⟨g, hg, hsaid⟩ h
    rcases h g hg with h | h
    · simp [h] at hsaid
    · simp [h] at hsaid

theorem not_trailing_of_saying {g : Glyph} (h : g.isSaying = true) : g.isTrailing = false := by
  unfold Glyph.isSaying isClosing at h
  unfold Glyph.isTrailing
  cases hcls : g.cls with
  | comment => simp [isGap_comment hcls] at h
  | quoted => simp_all
  | code => simp_all

/-- A text that says something has a last glyph that is no trailing one. -/
theorem exists_last {s : List Char} (h : normalize s ≠ []) : ∃ gs g hs,
    classify s = gs ++ g :: hs ∧ g.isTrailing = false ∧ ∀ x ∈ hs, x.isTrailing = true := by
  obtain ⟨g, hg, hsaid⟩ := normalize_ne_nil.1 h
  refine (trailing_or_last (classify s)).resolve_left fun hall => ?_
  have htrailing := hall g hg
  rw [not_trailing_of_saying hsaid] at htrailing
  cases htrailing

/-- **A text that says something is closed by a semicolon.** -/
theorem semicolon_mem_terminate {s : List Char} (h : normalize s ≠ []) : ';' ∈ terminate s := by
  rw [← normalize_trimEnd] at h
  obtain ⟨gs, g, hs, hsplit, hg, hall⟩ := exists_last h
  rw [terminate_last hsplit hg hall]
  split
  · next hcode =>
    have hmem := List.mem_map_of_mem (f := Glyph.char) (List.mem_append_right gs
      (List.mem_cons_self (a := g) (l := hs)))
    rw [← hsplit, classify_map_char] at hmem
    rwa [Glyph.isCode_iff.1 hcode] at hmem
  · exact List.mem_append_right _ List.mem_cons_self

end SchemaDrift.Sql
