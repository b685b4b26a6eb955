/-
  SchemaDrift.Proofs.Sql.Gaps
  ───────────────────────────
  **A TEXT COMES APART AT ITS GAPS.**

  Between two glyphs that are no gaps, white space and comments say only that the two do not
  touch: what is in front of them and what is behind is read by itself (`parting`).  So they
  can be exchanged for other white space and other comments (`classify_fill`), and comments
  for a space (`respaced_stripComments`).
-/

import SchemaDrift.Proofs.Sql.Enclosing
import SchemaDrift.Proofs.Sql.Parting
import SchemaDrift.Proofs.Sql.Respaced

namespace SchemaDrift.Sql

open SchemaDrift.Text

/-! ## §1. In front of a gap, and behind it. -/

theorem isGap_not_quoted {g : Glyph} (hg : g.isGap = true) : g.cls ≠ .quoted := by
  intro hcls
  rw [isGap_quoted hcls] at hg
  cases hg

theorem not_comment_of_not_gap {g : Glyph} (hg : g.isGap = false) : g.cls ≠ .comment := by
  intro hcls
  rw [isGap_comment hcls] at hg
  cases hg

theorem isBlank_of_isGap {g : Glyph} (hg : g.isGap = true) (hcls : g.cls ≠ .comment) :
    isBlank g.char = true ∧ g.cls = .code := by
  cases h : g.cls with
  | comment => exact absurd h hcls
  | quoted => exact absurd h (isGap_not_quoted hg)
  | code => exact ⟨(isGap_code h).symm.trans hg, rfl⟩

/-- A gap is no mark in code. -/
theorem isCode_of_gap {g : Glyph} (hg : g.isGap = true) {c : Char} (hc : isBlank c = false) :
    g.isCode c = false := by
  by_contra hcode
  rw [Bool.not_eq_false] at hcode
  rw [Glyph.isCode_iff.1 hcode] at hg
  exact absurd hg (by rw [show (⟨c, .code⟩ : Glyph).isGap = isBlank c from rfl, hc]; decide)

/-- A line feed in code is a gap. -/
theorem isGap_feed : (⟨'\n', .code⟩ : Glyph).isGap = true := by decide

namespace Lexer

variable {s : Lexer} {c : Char} {rest : List Char}

/-- Between a glyph that is no gap and a gap there is code. -/
theorem idle_before_gap {p q : List Char} (hs : s.Sound (p ++ c :: q)) (hcode : s.Idle)
    (hlast : ∀ g ∈ (s.reads p (c :: q)).getLast?, g.isGap = false)
    (hgap : (⟨c, ((s.past p (c :: q)).advance c q).1⟩ : Glyph).isGap = true) :
    (s.past p (c :: q)).Idle := by
  cases hl : (s.reads p (c :: q)).getLast? with
  | none =>
    have hlen := congrArg List.length (List.getLast?_eq_none_iff.1 hl)
    rw [reads_length] at hlen
    rw [List.length_eq_zero_iff.1 hlen]
    exact hcode
  | some g =>
    have hg := hlast g hl
    have henters := advance_enters (sound_past hs)
    refine idle_of_inside (sound_past hs) ?_
    rcases past_leaves hs hl with hk | ⟨hk, -⟩
    · rcases henters with he | ⟨he, -⟩ | ⟨he, -⟩
      · cases hcls : g.cls with
        | code => exact hk.trans hcls
        | comment => exact absurd hcls (not_comment_of_not_gap hg)
        | quoted => exact absurd (he.trans (hk.trans hcls)) (isGap_not_quoted hgap)
      · exact he
      · exact absurd (hk.symm.trans he) (not_comment_of_not_gap hg)
    · exact hk

/-- Code behind a gap is fresh. -/
theorem fresh_of_gap {p q : List Char} (hs : s.Sound (p ++ q)) {g : Glyph}
    (hl : (s.reads p q).getLast? = some g) (hg : g.isGap = true) (hidle : (s.past p q).Idle) :
    (s.past p q).Fresh := by
  refine ⟨hidle, ?_⟩
  have hp : p.getLast? = some g.char := by
    rw [← reads_map_char s p q, List.getLast?_map, hl]
    rfl
  rw [past_last hp]
  by_cases hcls : g.cls = .comment
  · rcases past_leaves hs hl with hk | ⟨-, hk⟩
    · rw [inside_idle hidle, hcls] at hk
      cases hk
    · rw [hcls] at hk
      have hslash : g.char = '/' := by simpa [CharClass.closes] using hk
      rw [hslash]
      decide +kernel
  · have hblank := (isBlank_of_isGap hg hcls).1
    simp [isIdentChar_of_isBlank hblank, ne_of_isBlank hblank (x := '$') (by decide)]

/-- Between a gap and a glyph that is no gap there is fresh code. -/
theorem fresh_behind_gap {p : List Char} (hs : s.Sound (p ++ c :: rest)) {g : Glyph}
    (hl : (s.reads p (c :: rest)).getLast? = some g) (hg : g.isGap = true)
    (hnext : (⟨c, ((s.past p (c :: rest)).advance c rest).1⟩ : Glyph).isGap = false) :
    (s.past p (c :: rest)).Fresh := by
  refine fresh_of_gap hs hl hg (idle_of_inside (sound_past hs) ?_)
  have henters := advance_enters (sound_past hs)
  rcases past_leaves hs hl with hk | ⟨hk, -⟩
  · cases hcls : g.cls with
    | code => exact hk.trans hcls
    | quoted => exact absurd hcls (isGap_not_quoted hg)
    | comment =>
      -- the comment does not go on here
      rw [hk, hcls] at henters
      rcases henters with he | ⟨he, -⟩ | ⟨-, he⟩
      · exact absurd he (not_comment_of_not_gap hnext)
      · cases he
      · rw [he, isGap_feed] at hnext
        cases hnext
  · exact hk

/-- What is quoted goes on with something quoted. -/
theorem decision_quoted {s : Lexer} (h : s.mode.cls = .quoted) (c : Char) (rest : List Char) :
    (s.decision c rest).cls = .quoted := by
  have hdecides := s.decides c rest
  generalize s.mode = m, s.decision c rest = d at hdecides h ⊢
  cases hdecides with
  | escape | doubledSingle | closeLiteral | literal => rfl
  | doubledDouble | closeIdentifier | identifier => rfl
  | closeBlock | block => rfl
  | _ => cases h

/-- A gap is decided on without what follows the gaps, if there is code where they end. -/
theorem decision_of_gap {s : Lexer} {c : Char} {r : List Char}
    (hgap : (⟨c, (s.decision c r).cls⟩ : Glyph).isGap = true)
    (hend : r = [] → (s.decision c r).mode = .code) (q : List Char) :
    s.decision c (r ++ q) = s.decision c r := by
  cases r with
  | cons x r =>
    refine decision_congr rfl rfl (fun _ _ => rfl) (fun hm hc => ?_) fun d hm => ?_
    · -- a dollar sign is no gap, with a name behind it or without
      exfalso
      cases hd : s.delimiter? (x :: r) with
      | some d =>
        rw [decision_eq (.openBlock hc hd) hm] at hgap
        cases hgap
      | none =>
        rw [decision_eq (.code (by simp [hc]) (by simp [hc]) (by simp [hc]) (by simp [hc])
          fun _ => hd) hm, hc] at hgap
        exact absurd hgap (by decide)
    · exact absurd (decision_quoted (by rw [hm]; rfl) c (x :: r)) (isGap_not_quoted hgap)
  | nil =>
    have hmode := hend rfl
    have hdecides := s.decides c []
    rw [List.nil_append]
    generalize hm : s.mode = m, s.decision c [] = d at hdecides hgap hmode ⊢
    cases hdecides with
    | code hhyphen hslash hsingle hdouble hdollar =>
      have hne : ∀ {x : Char}, isBlank x = false → c ≠ x := fun hx => ne_of_isBlank hgap hx
      exact decision_eq (.code (fun h => hne (by decide) h.1) (fun h => hne (by decide) h.1)
        hsingle hdouble fun h => absurd h (hne (by decide))) hm
    | lineEnd hc => exact decision_eq (.lineEnd hc) hm
    | closeComment _ hnext => cases hnext
    | closeLiteral | closeIdentifier | closeBlock => cases hgap
    | _ => cases hmode

/-- **What is all gaps and ends in code is read the same, whatever is behind it.** -/
theorem reads_gaps (hs : s.Delimited) {r : List Char} (hgaps : ∀ g ∈ s.glyphs r, g.isGap = true)
    (hend : (s.after r).Idle) (q : List Char) :
    s.reads r q = s.glyphs r ∧ s.past r q = s.after r := by
  induction r generalizing s with
  | nil => exact ⟨rfl, rfl⟩
  | cons c r ih =>
    rw [glyphs, List.forall_mem_cons] at hgaps
    rw [after] at hend
    have hadvance : s.advance c (r ++ q) = s.advance c r := by
      refine advance_congr fun hn => ?_
      rw [advance_decided hn] at hgaps hend
      refine decision_of_gap hgaps.1 ?_ q
      rintro rfl
      exact hend.mode
    rw [reads_cons, past_cons, glyphs, after, hadvance]
    obtain ⟨hreads, hpast⟩ := ih (delimited_advance hs c r) hgaps.2 hend
    rw [hreads, hpast]
    exact ⟨rfl, rfl⟩

end Lexer

/-- **A text comes apart at a run of gaps**: what is in front of it is read by itself, and ends
in code; what is behind it is read by itself. -/
theorem parting {t : List Char} {gs a hs : List Glyph} (h : classify t = gs ++ (a ++ hs))
    (ha : IsRun a) (hgs : ∀ g ∈ gs.getLast?, g.isGap = false) (hhs : Begins hs) :
    classify (gs.map Glyph.char) = gs ∧ (({} : Lexer).after (gs.map Glyph.char)).Idle
      ∧ classify (hs.map Glyph.char) = hs
      ∧ (hs ≠ [] → (({} : Lexer).after (hs.map Glyph.char)).mode = (({} : Lexer).after t).mode) := by
  obtain ⟨x, a, rfl⟩ := List.exists_cons_of_ne_nil ha.ne_nil
  obtain ⟨htext, hreads, hglyphs⟩ := Lexer.glyphs_split h
  rw [List.cons_append, List.map_cons] at htext hreads hglyphs
  -- nothing is open in front of the gap, and behind it the text is read as on its own
  have hidle := Lexer.idle_before_gap (htext ▸ Lexer.sound_start t) Lexer.fresh_start.toIdle
    (by rw [hreads]; exact hgs) (by
      rw [Lexer.glyphs] at hglyphs
      rw [(List.cons.inj hglyphs).1]
      exact ha.gaps x List.mem_cons_self)
  obtain ⟨hpart, hpast⟩ := Lexer.reads_part Lexer.delimited_start hidle
  refine ⟨hpart.symm.trans hreads, hpast ▸ hidle, ?_⟩
  cases hs with
  | nil => exact ⟨rfl, fun h => absurd rfl h⟩
  | cons y hs =>
    rw [← List.append_assoc] at h
    obtain ⟨htext, hreads, hglyphs⟩ := Lexer.glyphs_split h
    rw [List.map_cons] at htext hreads hglyphs ⊢
    obtain ⟨z, hz⟩ : ∃ z, (gs ++ x :: a).getLast? = some z ∧ z ∈ x :: a := by
      refine ⟨(x :: a).getLast (List.cons_ne_nil x a), ?_, List.getLast_mem _⟩
      rw [List.getLast?_append, List.getLast?_eq_some_getLast (List.cons_ne_nil x a)]
      rfl
    have hfresh := Lexer.fresh_behind_gap (htext ▸ Lexer.sound_start t)
      (by rw [hreads]; exact hz.1) (ha.gaps z hz.2) (by
        rw [Lexer.glyphs] at hglyphs
        rw [(List.cons.inj hglyphs).1]
        exact hhs y rfl)
    obtain ⟨hclassify, hmode⟩ := Lexer.glyphs_fresh hfresh (y.char :: hs.map Glyph.char)
    refine ⟨hclassify.symm.trans hglyphs, fun _ => ?_⟩
    rw [htext, Lexer.after_append, hmode]

/-! ## §2. Other gaps. -/

/-- The text is white space, and then white space and comments. -/
structure Filler (r : List Char) : Prop where
  begins : ∃ c r', r = c :: r' ∧ isBlank c = true
  gaps : ∀ g ∈ classify r, g.isGap = true

theorem filler_blanks {b : List Char} (hne : b ≠ []) (hb : ∀ c ∈ b, isBlank c = true) :
    Filler b := by
  obtain ⟨c, r, rfl⟩ := List.exists_cons_of_ne_nil hne
  refine ⟨⟨c, r, rfl, hb c List.mem_cons_self⟩, ?_⟩
  intro g hg
  rw [classify_blanks hb] at hg
  obtain ⟨d, hd, rfl⟩ := List.mem_map.1 hg
  exact hb d hd

theorem Filler.isRun {r : List Char} (hr : Filler r) : IsRun (classify r) := by
  refine ⟨fun h => ?_, hr.gaps⟩
  obtain ⟨c, r', rfl, -⟩ := hr.begins
  cases h

/-- Behind whatever code, a text that begins with white space is read alike. -/
theorem Lexer.alike_filler {s : Lexer} (hs : s.Idle) {r : List Char} (hr : Filler r) (q : List Char) :
    s.reads r q = ({} : Lexer).reads r q ∧ (s.past r q).Alike (({} : Lexer).past r q) := by
  obtain ⟨c, r, rfl, hc⟩ := hr.begins
  obtain ⟨hcls, hnext⟩ := Lexer.alike_behind hs Lexer.fresh_start.toIdle (isIdentChar_of_isBlank hc)
    (isQuote_of_isBlank hc) (r ++ q)
  obtain ⟨hreads, hpast⟩ := Lexer.alike_reads hnext r q
  rw [Lexer.reads_cons, Lexer.reads_cons, hcls, hreads]
  exact ⟨rfl, hpast⟩

/-- Code behind gaps is fresh. -/
theorem Filler.fresh {r : List Char} (hr : Filler r) (hend : (({} : Lexer).after r).Idle) :
    (({} : Lexer).after r).Fresh := by
  obtain ⟨g, hg⟩ : ∃ g, (classify r).getLast? = some g :=
    ⟨_, List.getLast?_eq_some_getLast hr.isRun.ne_nil⟩
  rw [← Lexer.past_whole] at hend ⊢
  refine Lexer.fresh_of_gap (Lexer.sound_start (r ++ [])) ?_ (hr.gaps g (List.mem_of_getLast? hg))
    hend
  rw [Lexer.reads_whole]
  exact hg

/-- **Gaps that are put in behind code change the class of nothing around them.** -/
theorem classify_fill {p r q : List Char} (hp : (({} : Lexer).after p).Idle) (hr : Filler r)
    (hend : q ≠ [] → (({} : Lexer).after r).Idle) :
    classify (p ++ (r ++ q)) = classify p ++ (classify r ++ classify q)
      ∧ (({} : Lexer).after (p ++ (r ++ q))).mode
        = (({} : Lexer).after (if q = [] then r else q)).mode := by
  -- the white space in front of the gaps sets off what is in front of it
  have hfront : ({} : Lexer).reads p (r ++ q) = classify p
      ∧ ({} : Lexer).past p (r ++ q) = ({} : Lexer).after p := by
    obtain ⟨c, r, rfl, hc⟩ := hr.begins
    obtain ⟨hreads, -, hpast⟩ := Lexer.reads_firm Lexer.delimited_start (isStop_of_isBlank hc)
      (ne_of_isBlank hc (by decide)) (ne_of_isBlank hc (by decide)) p (r ++ q)
    exact ⟨hreads, hpast (by rw [hp.mode]; decide)⟩
  obtain ⟨hreads, hpast⟩ := Lexer.alike_filler hp hr q
  have hwhole : ∀ s : Lexer, s.glyphs (p ++ (r ++ q))
      = s.reads p (r ++ q) ++ ((s.past p (r ++ q)).reads r q
        ++ ((s.past p (r ++ q)).past r q).glyphs q) := by
    intro s
    rw [Lexer.glyphs_append, Lexer.glyphs_append]
  cases q with
  | nil =>
    rw [Lexer.reads_whole] at hreads
    rw [Lexer.past_whole, Lexer.past_whole] at hpast
    refine ⟨?_, ?_⟩
    · show ({} : Lexer).glyphs _ = _
      rw [hwhole, hfront.1, hfront.2, Lexer.reads_whole, hreads, Lexer.reads_whole]
      rfl
    · rw [Lexer.after_append, hfront.2, List.append_nil, hpast.mode, if_pos rfl]
  | cons c q =>
    have hidle := hend (List.cons_ne_nil c q)
    obtain ⟨hgaps, hstate⟩ := Lexer.reads_gaps Lexer.delimited_start hr.gaps hidle (c :: q)
    rw [hstate] at hpast
    obtain ⟨hbehind, hafter⟩ := Lexer.alike_reads hpast (c :: q) []
    obtain ⟨hfresh, hmode⟩ := Lexer.glyphs_fresh (hr.fresh hidle) (c :: q)
    rw [Lexer.reads_whole, Lexer.reads_whole, hfresh] at hbehind
    rw [Lexer.past_whole, Lexer.past_whole] at hafter
    refine ⟨?_, ?_⟩
    · show ({} : Lexer).glyphs _ = _
      rw [hwhole, hfront.1, hfront.2, hreads, hgaps, hbehind]
      rfl
    · rw [Lexer.after_append, hfront.2, Lexer.after_append, hafter.mode, hmode,
        if_neg (List.cons_ne_nil c q)]

end SchemaDrift.Sql
