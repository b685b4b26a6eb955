/-
  SchemaDrift.Proofs.Migration.Persisted
  ──────────────────────────────────────
  **A MIGRATION WITH A STATEMENT OF A FILE IS NOT EMPTY.**

  Whether a migration executes anything is found out by splitting its text, and the text of
  a statement may hold marker lines of its own, or leave something open, so that the text
  splits elsewhere or not at all.  What carries over is how a statement of a file begins
  (`Opens`): its first lines say something, and only the very first of them can be a marker.

      opens_read           the statements of a file open so
      isInert_opened       what is silent up to such a statement is executed there
      isEmpty_of_opened    a migration with one is not empty
-/

import SchemaDrift.Proofs.Migration.Outline
import SchemaDrift.Proofs.Source.Markers

namespace SchemaDrift

open SchemaDrift.Sql SchemaDrift.Text SchemaDrift.Digest

namespace Sql

/-! ## §1. Texts that open with something to say. -/

/-- The first lines of the text say something, and none of them but the first is a marker. -/
def Opens (t : List Char) : Prop :=
  ∃ p r, t = p ++ r ∧ (∀ c ∈ r.head?, c = '\n') ∧ normalize p ≠ [] ∧ Unmarked [] p

theorem opens_of_unmarked {t : List Char} (hsaid : normalize t ≠ []) (h : Unmarked [] t) :
    Opens t := ⟨t, [], (List.append_nil t).symm, by simp, hsaid, h⟩

/-- More lines make no difference. -/
theorem Opens.append_feed {t : List Char} (h : Opens t) (w : List Char) :
    Opens (t ++ '\n' :: w) := by
  obtain ⟨p, r, rfl, hr, hsaid, hp⟩ := h
  refine ⟨p, r ++ '\n' :: w, List.append_assoc .., ?_, hsaid, hp⟩
  intro c hc
  cases r with
  | nil => exact (Option.some.inj hc).symm
  | cons d r => exact hr c hc

/-- White space at the end makes no difference. -/
theorem Opens.trimEnd {t : List Char} (h : Opens t) : Opens (Text.trimEnd t) := by
  obtain ⟨p, r, hpr, hr, hsaid, hp⟩ := h
  obtain ⟨b, hb, hblank⟩ := exists_trimmed isBlank t
  rw [hpr] at hb
  rcases List.append_eq_append_iff.1 hb with ⟨c, hc, hrc⟩ | ⟨c, hc, hbc⟩
  · -- the trim ends behind the first lines
    refine ⟨p, c, by rw [← hpr] at hc; exact hc, ?_, hsaid, hp⟩
    intro d hd
    refine hr d ?_
    rw [hrc, List.head?_append, hd]
    rfl
  · -- the trim ends within them
    have hwhite : ∀ d ∈ c, isBlank d = true :=
      fun d hd => hblank d (hbc ▸ List.mem_append_left _ hd)
    rw [hc] at hsaid hp
    rw [normalize_append_right hwhite] at hsaid
    rw [← hpr] at hsaid hp
    exact opens_of_unmarked hsaid (hp.left (atWordEnd_of_blanks hwhite))

/-- The glyphs of some lines do not depend on the lines behind. -/
theorem classify_lines {p r : List Char} (hr : ∀ c ∈ r.head?, c = '\n') {gs hs : List Glyph}
    (h : classify (p ++ r) = gs ++ hs) (hgs : gs.map Glyph.char = p) : classify p = gs := by
  have hfront : ∃ rest, classify (p ++ r) = classify p ++ rest := by
    cases r with
    | nil => exact ⟨[], by simp⟩
    | cons c w =>
      rw [hr c rfl]
      unfold classify
      rw [Lexer.glyphs_append, (Lexer.reads_firm Lexer.delimited_start
        (isStop_of_isBlank (by decide)) (by decide) (by decide) p w).1]
      exact ⟨_, rfl⟩
  obtain ⟨rest, hrest⟩ := hfront
  refine (List.append_inj (hrest.symm.trans h) ?_).1
  rw [← List.length_map (f := Glyph.char), classify_map_char, ← hgs, List.length_map]

/-- The semicolon that is put into some lines leaves them what they say. -/
theorem saying_semicolon {t : List Char} {gs as bs : List Glyph} {g : Glyph}
    (hsplit : classify (Text.trimEnd t) = gs ++ g :: (as ++ bs)) (hg : g.isTrailing = false)
    (hall : ∀ h ∈ as ++ bs, h.isTrailing = true)
    (hr : ∀ c ∈ (bs.map Glyph.char).head?, c = '\n')
    (hsaid : normalize ((gs ++ [g]).map Glyph.char ++ as.map Glyph.char) ≠ []) :
    normalize ((gs ++ [g]).map Glyph.char ++ ';' :: as.map Glyph.char) ≠ [] := by
  obtain ⟨-, cls, hclassify⟩ := classify_semicolon hsplit hg hall
  have hbefore : classify ((gs ++ [g]).map Glyph.char ++ as.map Glyph.char) = (gs ++ [g]) ++ as := by
    have hwhole : classify ((gs ++ [g]).map Glyph.char ++ as.map Glyph.char ++ bs.map Glyph.char)
        = ((gs ++ [g]) ++ as) ++ bs := by
      have htext : (gs ++ [g]).map Glyph.char ++ as.map Glyph.char ++ bs.map Glyph.char
          = Text.trimEnd t := by
        rw [← classify_map_char (Text.trimEnd t), hsplit]
        simp
      rw [htext, hsplit]
      simp
    exact classify_lines hr hwhole (by simp)
  have hafter : classify ((gs ++ [g]).map Glyph.char ++ ';' :: as.map Glyph.char)
      = (gs ++ [g]) ++ ⟨';', cls⟩ :: as := by
    have hwhole : classify ((gs ++ [g]).map Glyph.char ++ ';' :: as.map Glyph.char
        ++ bs.map Glyph.char) = ((gs ++ [g]) ++ ⟨';', cls⟩ :: as) ++ bs := by
      rw [List.append_assoc, List.cons_append, ← List.map_append, hclassify]
      simp
    exact classify_lines hr hwhole (by simp)
  obtain ⟨x, hx, hxsaid⟩ := normalize_ne_nil.1 hsaid
  rw [hbefore] at hx
  refine normalize_ne_nil.2 ⟨x, ?_, hxsaid⟩
  rw [hafter]
  rcases List.mem_append.1 hx with hx | hx
  · exact List.mem_append_left _ hx
  · exact List.mem_append_right _ (List.mem_cons_of_mem _ hx)

/-- A semicolon of its own makes no difference. -/
theorem Opens.terminate {t : List Char} (h : Opens t) : Opens (terminate t) := by
  rcases terminate_cases t with heq | ⟨gs, g, hs, hsplit, hg, hall, heq⟩
  · rw [heq]
    exact h.trimEnd
  · obtain ⟨p, r, hpr, hr, hsaid, hp⟩ := h.trimEnd
    have htext : Text.trimEnd t = (gs ++ [g]).map Glyph.char ++ hs.map Glyph.char := by
      rw [← classify_map_char (Text.trimEnd t), hsplit]
      simp
    have hcases : (∃ d c, (gs ++ [g]).map Glyph.char = p ++ d :: c ∧ r = d :: c ++ hs.map Glyph.char)
        ∨ ∃ c, p = (gs ++ [g]).map Glyph.char ++ c ∧ hs.map Glyph.char = c ++ r := by
      rcases List.append_eq_append_iff.1 (hpr.symm.trans htext) with ⟨c, hc, hrc⟩ | ⟨c, hc, hhc⟩
      · cases c with
        | nil => exact Or.inr ⟨[], by simpa using hc.symm, hrc.symm⟩
        | cons d c => exact Or.inl ⟨d, c, hc, hrc⟩
      · exact Or.inr ⟨c, hc, hhc⟩
    rw [heq]
    rcases hcases with ⟨d, c, hc, hrc⟩ | ⟨c, rfl, hhc⟩
    · -- the semicolon comes behind the first lines
      rw [hc]
      refine ⟨p, d :: c ++ ';' :: hs.map Glyph.char, by simp, ?_, hsaid, hp⟩
      intro x hx
      refine hr x ?_
      rw [hrc]
      exact hx
    · -- it is put into them
      obtain ⟨as, bs, rfl, rfl, rfl⟩ := List.map_eq_append_iff.1 hhc
      have hends : atWordEnd (as.map Glyph.char) = true := by
        have hbehind := atWordEnd_trailing hsplit hg hall
        cases as with
        | nil => rfl
        | cons a as => exact hbehind
      exact ⟨(gs ++ [g]).map Glyph.char ++ ';' :: as.map Glyph.char, bs.map Glyph.char, by simp, hr,
        saying_semicolon hsplit hg hall hr hsaid, hp.semicolon hends⟩

/-! ## §2. Statements of files. -/

theorem opens_statement {t : List Char} {ss : List Statement} (h : split t = .ok ss) {s : Statement}
    (hs : s ∈ ss) : Opens s.raw.toList := by
  obtain ⟨inside, pre, post, -, hfit⟩ := split_fits h hs
  obtain ⟨-, hline⟩ := unmarked_feed.1 hfit.unmarked
  exact opens_of_unmarked (split_saying h s hs) hline.right

/-- Statements made one open like the first of them. -/
theorem opens_joined {s : Statement} (hs : Opens s.raw.toList) (ss : List Statement) :
    Opens (joined (s :: ss)).toList := by
  rw [toList_joined, List.map_cons]
  cases ss with
  | nil =>
    rw [List.map_nil, List.intercalate_singleton]
    exact hs.terminate
  | cons s' ss =>
    rw [List.map_cons, List.intercalate_cons_cons, List.append_assoc]
    exact hs.terminate.append_feed _

/-- **The statements of a file open with something to say.** -/
theorem opens_read {path text : String} {f : SourceFile} (h : SourceFile.read path text = .ok f) :
    ∀ st ∈ f.statements, Opens st.raw.toList := by
  rcases SourceFile.read_cases h with ⟨-, hnone, -⟩ | ⟨c, hc⟩
  · rw [hnone]
    exact List.forall_mem_nil _
  · obtain ⟨ss, hss, hsts⟩ := contentOf_statements hc.content
    rw [hc.statements]
    rcases hsts with heq | ⟨hne, line, heq⟩
    · rw [heq]
      exact fun st hst => opens_statement hss hst
    · rw [heq]
      cases ss with
      | nil => exact absurd rfl hne
      | cons s ss =>
        exact List.forall_mem_singleton.2 (opens_joined (opens_statement hss List.mem_cons_self) ss)

/-! ## §3. Regions with something to say. -/

theorem statementsOf_eq_nil {line : Nat} {ps : List (List Char)} (h : statementsOf line ps = []) :
    ∀ p ∈ ps, normalize p = [] := by
  induction ps generalizing line with
  | nil => exact List.forall_mem_nil _
  | cons p ps ih =>
    obtain ⟨hfirst, hrest⟩ := List.append_eq_nil_iff.1 h
    refine List.forall_mem_cons.2 ⟨?_, ih hrest⟩
    rcases statementOf?_cases line p with ⟨hsilent, -⟩ | ⟨-, hsome⟩
    · exact hsilent
    · rw [hsome] at hfirst
      cases hfirst

/-- Pieces that say nothing say nothing together. -/
theorem normalize_flatten {ps : List (List Char)} (hsettled : ∀ p ∈ ps.dropLast, Settled p)
    (h : ∀ p ∈ ps, normalize p = []) : normalize ps.flatten = [] := by
  induction ps with
  | nil => rfl
  | cons p ps ih =>
    obtain ⟨hp, hps⟩ := List.forall_mem_cons.1 h
    cases ps with
    | nil =>
      rw [List.flatten_singleton]
      exact hp
    | cons p' ps =>
      rw [List.dropLast_cons_cons] at hsettled
      obtain ⟨hfirst, hrest⟩ := List.forall_mem_cons.1 hsettled
      rw [List.flatten_cons]
      exact normalize_append_eq_nil hfirst hp (ih hrest hps)

/-- A region that says something has a statement. -/
theorem region_saying {r : Region} {ss : List Statement} (h : r.statements = .ok ss)
    (hsaid : normalize r.text ≠ []) : ss ≠ [] := by
  intro hnil
  rw [(statements_eq_ok h).1] at hnil
  have hall := statementsOf_eq_nil hnil
  cases hm : r.manual with
  | true =>
    rw [hm] at hall
    exact hsaid (hall r.text (List.mem_singleton_self _))
  | false =>
    rw [hm] at hall
    have hflat := normalize_flatten (fun p hp => (pieces_settled r.text p hp).1) hall
    rw [flatten_pieces] at hflat
    exact hsaid hflat

/-- So has a text with such a region. -/
theorem splitRegions_saying_ne_nil {rs : List Region} {ss : List Statement}
    (h : splitRegions rs = .ok ss) {r : Region} (hr : r ∈ rs) (hsaid : normalize r.text ≠ []) :
    ss ≠ [] := by
  induction rs generalizing ss with
  | nil => cases hr
  | cons r' rs ih =>
    obtain ⟨here, behind, hhere, hbehind, rfl⟩ := splitRegions_cons_ok.1 h
    rcases List.mem_cons.1 hr with rfl | hr
    · exact List.append_ne_nil_of_left_ne_nil (region_saying hhere hsaid) _
    · exact List.append_ne_nil_of_right_ne_nil _ (ih hbehind hr)

/-- The region that an outline begins with is in it. -/
theorem outlineFrom_head_ok {r : Region} {marks : List Mark} {regions : List Region}
    (h : outlineFrom r marks = ⟨regions, none⟩) : r ∈ regions := by
  cases marks with
  | nil =>
    rw [(outlineFrom_nil_ok h).2]
    exact List.mem_singleton_self r
  | cons m marks =>
    obtain ⟨-, rest, rfl, -⟩ := outlineFrom_cons_ok h
    exact List.mem_cons_self

/-! ## §4. Statements in front of anything. -/

/-- A marker line says nothing, whatever follows it. -/
theorem normalize_marker {l : List Char} (hl : '\n' ∉ l) (hmarker : marker? l ≠ none)
    (w : List Char) : normalize (l ++ '\n' :: w) = normalize w := by
  obtain ⟨i, x, r, rfl, hi, -⟩ := marker?_shape hmarker
  have hblank : ∀ c ∈ i, isBlank c = true := fun c hc => isBlank_of_isIndent (hi c hc)
  rw [List.mem_append, not_or] at hl
  have hbare : Rows Bare (('-' :: '-' :: (x ++ r)) ++ '\n' :: []) :=
    Rows.line ⟨hl.2, Or.inr ⟨_, rfl⟩⟩ Rows.nil
  have hrest := normalize_bare_append hbare w
  rw [List.append_assoc] at hrest
  rw [List.append_assoc, normalize_append_left hblank]
  exact hrest

/-- Lines without a marker that say something, behind a marker line, are in a region that
does. -/
theorem region_of_unmarked {manual : Bool} {line number : Nat} {p w : List Char}
    {regions : List Region} (hsaid : normalize p ≠ []) (hp : Unmarked [] ('\n' :: p))
    (h : outlineFrom ⟨manual, line, '\n' :: (marksFrom number (lines (p ++ '\n' :: w))).1⟩
      (marksFrom number (lines (p ++ '\n' :: w))).2 = ⟨regions, none⟩) :
    ∃ r ∈ regions, normalize r.text ≠ [] := by
  have hfeed : Unmarked [] ['\n'] := unmarked_feed.2 ⟨rfl, unmarked_of_not_mem (by simp)⟩
  have hlines : ∀ l ∈ lines (p ++ ['\n']), marker? l = none :=
    (unmarked_iff_lines rfl).1 (hp.append (breaks_feed []) hfeed)
  obtain ⟨number', hmarks⟩ :=
    marksFrom_unmarked (Or.inr (List.getLast?_concat ..)) hlines number w
  refine ⟨_, outlineFrom_head_ok h, ?_⟩
  rw [show p ++ '\n' :: w = (p ++ ['\n']) ++ w by simp, hmarks]
  dsimp only
  rw [← List.singleton_append, normalize_append_left (forall_chars (by decide)), List.append_assoc]
  exact normalize_feed_ne_nil hsaid _

/-- Lines that say something behind a start marker, the first of which may be a marker, make
a region that does. -/
theorem region_of_opened {line number : Nat} {p w : List Char} {regions : List Region}
    (hsaid : normalize p ≠ []) (hp : Unmarked [] p)
    (h : outlineFrom ⟨true, line, '\n' :: (marksFrom number (lines (p ++ '\n' :: w))).1⟩
      (marksFrom number (lines (p ++ '\n' :: w))).2 = ⟨regions, none⟩) :
    ∃ r ∈ regions, normalize r.text ≠ [] := by
  cases hm : marker? p with
  | none => exact region_of_unmarked hsaid (unmarked_feed.2 ⟨hm, hp⟩) h
  | some m =>
    have hfeed : '\n' ∈ p := by
      by_contra hfeed
      refine hsaid ?_
      rw [← normalize_append_right (b := ['\n']) (forall_chars (by decide)),
        normalize_marker hfeed (by rw [hm]; exact Option.some_ne_none m)]
      rfl
    obtain ⟨l, p', rfl, hl⟩ := List.eq_append_cons_of_mem hfeed
    rw [marker?_append (breaks_feed p')] at hm
    rw [normalize_marker hl (by rw [hm]; exact Option.some_ne_none m)] at hsaid
    rw [List.append_assoc, List.cons_append, marksFrom_marker hl hm] at h
    -- the statement ends here, and what it says is in the region behind
    obtain ⟨-, rest, rfl, hrest⟩ := outlineFrom_cons_ok h
    obtain ⟨r, hr, hr'⟩ := region_of_unmarked hsaid hp.right hrest
    exact ⟨r, List.mem_cons_of_mem _ hr, hr'⟩

/-- **A text is not inert that is silent up to a start marker and says something behind it**,
in lines of which only the first may be a marker. -/
theorem isInert_opened {q l p : List Char} (hq : Silent q) (hl : '\n' ∉ l)
    (hstart : marker? l = some .start) (hsaid : normalize p ≠ []) (hp : Unmarked [] p)
    (w : List Char) : isInert (q ++ (l ++ '\n' :: (p ++ '\n' :: w))) = false := by
  unfold isInert
  cases hsplit : split (q ++ (l ++ '\n' :: (p ++ '\n' :: w))) with
  | error e =>
    dsimp only
    rw [List.isEmpty_eq_false_iff, normalize_bare_append (hq.imp fun l hl => hl.toBare),
      normalize_marker hl (by rw [hstart]; exact Option.some_ne_none _)]
    exact normalize_feed_ne_nil hsaid w
  | ok ss =>
    obtain ⟨regions, houtline, hregions⟩ := split_eq_ok hsplit
    obtain ⟨number, hmarks⟩ := marksFrom_unmarked hq.last hq.unmarked 1
      (l ++ '\n' :: (p ++ '\n' :: w))
    unfold outline at houtline
    rw [hmarks, marksFrom_marker hl hstart] at houtline
    obtain ⟨-, rest, rfl, hrest⟩ := outlineFrom_cons_ok houtline
    obtain ⟨r, hr, hr'⟩ := region_of_opened hsaid hp hrest
    dsimp only
    rw [List.isEmpty_eq_false_iff]
    exact splitRegions_saying_ne_nil hregions (List.mem_cons_of_mem _ hr) hr'

end Sql

/-! ## §5. Migrations. -/

/-- **A migration is not empty whose lines are silent up to a statement** that opens with
something to say. -/
theorem isEmpty_of_opened {m : Migration} {front behind : List MigrationLine}
    {path hash sql : String} (hlines : m.lines = front ++ .statement path hash sql :: behind)
    (hfront : ∀ l ∈ front, Silent l.render.toList) (hhash : Inline hash) (hsql : Opens sql.toList) :
    m.isEmpty = false := by
  have hsilent : Silent (textOf front) := by
    clear hlines
    induction front with
    | nil => exact Rows.nil
    | cons l front ih =>
      obtain ⟨hl, hfront⟩ := List.forall_mem_cons.1 hfront
      exact hl.append (ih hfront)
  obtain ⟨p, r, hpr, hr, hsaid, hp⟩ := hsql.trimEnd
  have hstart : '\n' ∉ "-- sqlsync: startStatement:".toList ++ hash.toList := by
    rw [List.mem_append, not_or]
    exact ⟨by decide, hhash⟩
  -- the first lines end where the text does, or with a line feed
  obtain ⟨w, hw⟩ : ∃ w, trimEnd sql.toList ++ '\n' :: ("-- sqlsync: endStatement:".toList
      ++ (hash.toList ++ '\n' :: textOf behind)) = p ++ '\n' :: w := by
    rw [hpr]
    cases r with
    | nil => exact ⟨_, by rw [List.append_nil]⟩
    | cons c r =>
      rw [hr c rfl]
      exact ⟨_, by rw [List.append_assoc, List.cons_append]⟩
  have htext : m.text.toList = textOf front
      ++ (("-- sqlsync: startStatement:".toList ++ hash.toList) ++ '\n' :: (p ++ '\n' :: w)) := by
    rw [Migration.toList_text, hlines, ← hw]
    unfold textOf MigrationLine.render
    simp
  unfold Migration.isEmpty
  rw [htext]
  exact isInert_opened hsilent hstart (marker?_around _).1 hsaid hp w

end SchemaDrift
