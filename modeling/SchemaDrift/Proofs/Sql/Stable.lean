/-
  SchemaDrift.Proofs.Sql.Stable
  ─────────────────────────────
  **WHAT IS WRITTEN FOR A TEXT HAS ITS NORMAL FORM.**

  The normal form of a text, the text without its comments and the text with its closing
  semicolon are texts again, and are read again from their first character.  In the first two the
  gaps have given way to white space, which leaves everything between them as it was, closed or
  not (`classify_spaced`): no quote, escape, tag or comment comes or goes.

      normalize_normalize         a normal form is its own
      normalize_stripComments     blanked comments
      rewritten_stable            all three, for the identity of a statement too
-/

import SchemaDrift.Proofs.Sql.Closing
import SchemaDrift.Sql.Statement

namespace SchemaDrift.Sql

open SchemaDrift.Text

/-! ## §1. White space for every run of gaps. -/

/-- In a text without comments a gap is white space in code. -/
theorem isBlank_of_bare {gs : List Glyph} (hbare : ∀ g ∈ gs, g.cls ≠ .comment)
    (hgaps : ∀ g ∈ gs, g.isGap = true) : ∀ c ∈ gs.map Glyph.char, isBlank c = true := by
  intro c hc
  obtain ⟨g, hg, rfl⟩ := List.mem_map.1 hc
  exact (isBlank_of_isGap (hgaps g hg) (hbare g hg)).1

/-- The first gaps of a row, what is in front of them and what is behind. -/
theorem exists_first_run (gs : List Glyph) : (∀ g ∈ gs, g.isGap = false)
    ∨ ∃ front a behind, gs = front ++ (a ++ behind) ∧ (∀ g ∈ front, g.isGap = false) ∧ IsRun a
      ∧ Begins behind := by
  have hsplit := List.takeWhile_append_dropWhile (p := fun g : Glyph => !g.isGap) (l := gs)
  have hfront : ∀ g ∈ gs.takeWhile (fun g => !g.isGap), g.isGap = false := by
    intro g hg
    simpa using List.all_eq_true.1 List.all_takeWhile g hg
  cases hd : gs.dropWhile (fun g => !g.isGap) with
  | nil =>
    left
    rw [hd, List.append_nil] at hsplit
    rwa [hsplit] at hfront
  | cons x rest =>
    right
    have hx : x.isGap = true := by
      have hhead := List.head?_dropWhile_not (fun g : Glyph => !g.isGap) gs
      rw [hd] at hhead
      simpa using hhead
    have hrest := List.takeWhile_append_dropWhile (p := Glyph.isGap) (l := rest)
    refine ⟨_, x :: rest.takeWhile Glyph.isGap, rest.dropWhile Glyph.isGap, ?_, hfront, ⟨?_, ?_⟩, ?_⟩
    · rw [List.cons_append, hrest, ← hd, hsplit]
    · exact List.cons_ne_nil _ _
    · exact List.forall_mem_cons.2 ⟨hx, fun g hg => List.all_eq_true.1 List.all_takeWhile g hg⟩
    · intro g hg
      have hhead := List.head?_dropWhile_not Glyph.isGap rest
      rw [Option.mem_def.1 hg] at hhead
      simpa using hhead

/-- **A row read off a text reads as that row again with white space for its gaps.** -/
theorem classify_spaced {t : List Char} {ks : List Glyph} (h : Respaced (classify t) ks)
    (hbare : ∀ g ∈ ks, g.cls ≠ .comment) : classify (ks.map Glyph.char) = ks
      ∧ (unclosed? t = none → unclosed? (ks.map Glyph.char) = none) := by
  generalize hn : t.length = n
  induction n using Nat.strongRecOn generalizing t ks with
  | _ n ih =>
    rcases exists_first_run (classify t) with hnone | ⟨gs, a, hs, hsplit, hgs, ha, hhs⟩
    · rw [← h.eq_of_gapless hnone, classify_map_char]
      exact ⟨rfl, id⟩
    · obtain ⟨hfront, hidle, hbehind, hmode⟩ := parting hsplit ha
        (fun g hg => hgs g (List.mem_of_getLast? hg)) hhs
      rw [hsplit] at h
      obtain ⟨ls, rfl, hls⟩ := h.of_gapless hgs
      obtain ⟨b, ks, rfl, hb, hks⟩ := hls.of_run ha hhs
      have hbare' : ∀ g ∈ b ++ ks, g.cls ≠ .comment :=
        fun g hg => hbare g (List.mem_append_right gs hg)
      have hblank := isBlank_of_bare (fun g hg => hbare' g (List.mem_append_left ks hg)) hb.gaps
      have hfresh := (Lexer.fresh_blanks (q := []) Lexer.fresh_start hblank).2
      rw [Lexer.past_whole] at hfresh
      obtain ⟨hclassify, hafter⟩ := classify_fill (q := ks.map Glyph.char) hidle
        (filler_blanks (fun hnil => hb.ne_nil (List.map_eq_nil_iff.1 hnil)) hblank)
        fun _ => hfresh.toIdle
      -- what is behind the gaps is shorter
      have hlen : (hs.map Glyph.char).length < n := by
        have htext := (Lexer.glyphs_split hsplit).1
        have hpos := List.length_pos_of_ne_nil ha.ne_nil
        rw [← hn, htext, List.map_append, List.length_append, List.length_append, List.length_map,
          List.length_map, List.length_map]
        omega
      rw [← hbehind] at hks
      obtain ⟨hread, hclosed⟩ := ih _ hlen hks (fun g hg => hbare' g (List.mem_append_right b hg)) rfl
      have hrun : classify (b.map Glyph.char) = b := by
        rw [classify_blanks hblank, List.map_map]
        refine (List.map_congr_left fun g hg => ?_).trans (List.map_id b)
        obtain ⟨-, hcls⟩ := isBlank_of_isGap (hb.gaps g hg) (hbare' g (List.mem_append_left ks hg))
        rw [Function.comp_apply, ← hcls, id]
      rw [List.map_append, List.map_append]
      refine ⟨by rw [hclassify, hfront, hrun, hread], fun ht => ?_⟩
      rw [unclosed?_eq_none] at ht ⊢
      rw [hafter]
      split
      · rw [hfresh.mode]
        rfl
      · next hne =>
        have hhs : hs ≠ [] := by
          rintro rfl
          exact hne (by rw [hks.eq_nil_iff.1 rfl]; rfl)
        rw [← unclosed?_eq_none]
        refine hclosed ?_
        rw [unclosed?_eq_none, hmode hhs]
        exact ht

/-! ## §2. Blanked comments. -/

/-- The glyphs of a text with its comments blanked: a space for every run of them. -/
def blankRow (inComment : Bool) : List Glyph → List Glyph
  | [] => []
  | g :: rest =>
    if g.cls = .comment then
      if inComment then blankRow true rest else ⟨' ', .code⟩ :: blankRow true rest
    else g :: blankRow false rest

theorem blankRow_chars (gs : List Glyph) (inComment : Bool) :
    (blankRow inComment gs).map Glyph.char = blankComments inComment gs := by
  induction gs generalizing inComment with
  | nil => rfl
  | cons g gs ih =>
    rw [blankRow, blankComments]
    by_cases hcls : g.cls = .comment
    · rw [if_pos hcls, if_pos hcls]
      cases inComment with
      | true => exact ih true
      | false => exact congrArg (' ' :: ·) (ih true)
    · rw [if_neg hcls, if_neg hcls]
      exact congrArg (g.char :: ·) (ih false)

theorem blankRow_bare (gs : List Glyph) (inComment : Bool) :
    ∀ g ∈ blankRow inComment gs, g.cls ≠ .comment := by
  induction gs generalizing inComment with
  | nil => exact List.forall_mem_nil _
  | cons g gs ih =>
    rw [blankRow]
    by_cases hcls : g.cls = .comment
    · rw [if_pos hcls]
      cases inComment with
      | true => exact ih true
      | false => exact List.forall_mem_cons.2 ⟨CharClass.noConfusion, ih true⟩
    · rw [if_neg hcls]
      exact List.forall_mem_cons.2 ⟨hcls, ih false⟩

/-- Gaps are blanked to gaps, and what follows them by itself. -/
theorem blankRow_gaps {a hs : List Glyph} (ha : ∀ g ∈ a, g.isGap = true) (hhs : Begins hs)
    (inComment : Bool) : ∃ b, blankRow inComment (a ++ hs) = b ++ blankRow false hs
      ∧ (∀ g ∈ b, g.isGap = true) ∧ (inComment = false → a ≠ [] → b ≠ []) := by
  induction a generalizing inComment with
  | nil =>
    refine ⟨[], ?_, List.forall_mem_nil _, fun _ h => absurd rfl h⟩
    cases hs with
    | nil => rfl
    | cons g hs =>
      have hg := not_comment_of_not_gap (hhs g rfl)
      rw [List.nil_append, List.nil_append, blankRow, blankRow, if_neg hg, if_neg hg]
  | cons g a ih =>
    obtain ⟨hg, ha⟩ := List.forall_mem_cons.1 ha
    rw [List.cons_append, blankRow]
    by_cases hcls : g.cls = .comment
    · rw [if_pos hcls]
      obtain ⟨b, hb, hgaps, -⟩ := ih ha true
      cases inComment with
      | true => exact ⟨b, hb, hgaps, fun h => nomatch h⟩
      | false =>
        rw [if_neg Bool.false_ne_true, hb]
        refine ⟨⟨' ', .code⟩ :: b, rfl, List.forall_mem_cons.2 ⟨by decide, hgaps⟩, ?_⟩
        exact fun _ _ => List.cons_ne_nil _ b
    · rw [if_neg hcls]
      obtain ⟨b, hb, hgaps, -⟩ := ih ha false
      rw [hb]
      refine ⟨g :: b, rfl, List.forall_mem_cons.2 ⟨hg, hgaps⟩, ?_⟩
      exact fun _ _ => List.cons_ne_nil g b

/-- Blanked comments leave the row as it is, but for its gaps. -/
theorem respaced_blankRow (gs : List Glyph) : Respaced gs (blankRow false gs) := by
  obtain ⟨hs, h⟩ : ∃ hs, Respaced gs hs := ⟨gs, .refl gs⟩
  induction h with
  | nil => exact .nil
  | @same g gs hs hg h ih =>
    rw [blankRow, if_neg (not_comment_of_not_gap hg)]
    exact .same hg ih
  | @gap a b gs hs ha hb hgs h ih =>
    obtain ⟨w, hw, hgaps, hne⟩ := blankRow_gaps ha.gaps hgs false
    rw [hw]
    exact .gap ha ⟨hne rfl ha.ne_nil, hgaps⟩ hgs ih

/-- **The text without its comments is read as the text, its comments blanked.** -/
theorem classify_stripComments (t : List Char) :
    classify (stripComments t) = blankRow false (classify t) := by
  unfold stripComments
  rw [← blankRow_chars]
  exact (classify_spaced (respaced_blankRow _) (blankRow_bare _ false)).1

/-- **A text reads the same without its comments**, and has other gaps. -/
theorem respaced_stripComments (t : List Char) : Respaced (classify t) (classify (stripComments t))
    ∧ (∀ g ∈ classify (stripComments t), g.cls ≠ .comment)
    ∧ (unclosed? t = none → unclosed? (stripComments t) = none) := by
  rw [classify_stripComments]
  refine ⟨respaced_blankRow _, blankRow_bare _ false, ?_⟩
  unfold stripComments
  rw [← blankRow_chars]
  exact (classify_spaced (respaced_blankRow _) (blankRow_bare _ false)).2

theorem normalize_stripComments (t : List Char) : normalize (stripComments t) = normalize t :=
  (normalize_respaced (respaced_stripComments t).1).symm

/-! ## §3. Normal forms. -/

/-- Squeezed gaps between others, as a row: one space for every run of gaps. -/
theorem exists_squeezed {gs : List Glyph} (hends : ∀ g ∈ gs.getLast?, g.isGap = false) :
    ∃ ks, Respaced gs ks ∧ (∀ g ∈ ks, g.cls ≠ .comment)
      ∧ ks.map Glyph.char = squeeze true false gs := by
  obtain ⟨hs, h⟩ : ∃ hs, Respaced gs hs := ⟨gs, .refl gs⟩
  induction h with
  | nil => exact ⟨[], .nil, List.forall_mem_nil _, rfl⟩
  | @same g gs hs hg h ih =>
    obtain ⟨ks, hrespaced, hbare, hks⟩ := ih fun x hx => hends x (by
      rw [List.getLast?_cons, Option.mem_def.1 hx]
      rfl)
    refine ⟨g :: ks, .same hg hrespaced,
      List.forall_mem_cons.2 ⟨not_comment_of_not_gap hg, hbare⟩, ?_⟩
    rw [List.map_cons, hks]
    simp [squeeze, hg]
  | @gap a b gs hs ha hb hgs h ih =>
    obtain ⟨ks, hrespaced, hbare, hks⟩ := ih fun x hx => hends x (by
      rw [List.getLast?_append, Option.mem_def.1 hx]
      rfl)
    refine ⟨⟨' ', .code⟩ :: ks, .run ha (isRun_singleton (by decide)) hrespaced,
      List.forall_mem_cons.2 ⟨CharClass.noConfusion, hbare⟩, ?_⟩
    rw [List.map_cons, hks, Respaced.squeeze_run ha]
    -- the last gaps of the row have something behind them
    cases gs with
    | nil =>
      obtain ⟨g, hg⟩ := Option.ne_none_iff_exists'.1 (mt List.getLast?_eq_none_iff.1 ha.ne_nil)
      have hgap := ha.gaps g (List.mem_of_getLast? hg)
      rw [hends g (by rw [List.append_nil]; exact hg)] at hgap
      cases hgap
    | cons g gs => simp [squeeze, hgs g rfl]

/-- The core of a row that was read off a text is read off its own text. -/
theorem classify_core (t : List Char) :
    classify ((core (classify t)).map Glyph.char) = core (classify t) := by
  obtain ⟨a, b, hsplit, ha, hb⟩ := exists_core (classify t)
  obtain ⟨hbegins, hends⟩ := begins_core (classify t)
  generalize core (classify t) = m at hsplit hbegins hends ⊢
  cases m with
  | nil => rfl
  | cons x m =>
    have hbehind : classify (((x :: m) ++ b).map Glyph.char) = (x :: m) ++ b := by
      by_cases hnil : a = []
      · rw [hnil, List.nil_append] at hsplit
        rw [← hsplit, classify_map_char]
      · have hfront : classify t = [] ++ (a ++ ((x :: m) ++ b)) := hsplit
        exact (parting hfront ⟨hnil, ha⟩ (fun _ h => nomatch h)
          (begins_cons (hbegins x rfl))).2.2.1
    by_cases hnil : b = []
    · rwa [hnil, List.append_nil] at hbehind
    · have hback : classify (((x :: m) ++ b).map Glyph.char) = (x :: m) ++ (b ++ []) := by
        rw [List.append_nil, hbehind]
      exact (parting hback ⟨hnil, hb⟩
        (fun g hg => hends g (by rw [List.head?_reverse]; exact hg)) begins_nil).1

/-- What is cut off the end of a normal form separates it from what is in front. -/
theorem isStop_of_isClosing {c : Char} (hc : isClosing c = true) :
    isStop c = true ∧ c ≠ '-' ∧ c ≠ '/' := by
  unfold isClosing at hc
  rcases Bool.or_eq_true_iff.1 hc with hc | hc
  · rw [beq_iff_eq.1 hc]
    decide +kernel
  · exact ⟨isStop_of_isBlank hc, ne_of_isBlank hc (by decide), ne_of_isBlank hc (by decide)⟩

/-- **A normal form is its own normal form.** -/
theorem normalize_normalize (t : List Char) : normalize (normalize t) = normalize t := by
  obtain ⟨hbegins, hends⟩ := begins_core (classify t)
  have hlast : ∀ g ∈ (core (classify t)).getLast?, g.isGap = false := fun g hg =>
    hends g (by rw [List.head?_reverse]; exact hg)
  obtain ⟨ks, hrespaced, hbare, hks⟩ := exists_squeezed hlast
  -- the squeezed text reads as the row that it was made from
  have hread : classify (ks.map Glyph.char) = ks := by
    rw [← classify_core] at hrespaced
    exact (classify_spaced hrespaced hbare).1
  have hsqueezed : squeeze false false (core (classify t)) = ks.map Glyph.char := by
    rw [hks]
    generalize core (classify t) = m at hbegins
    cases m with
    | nil => rfl
    | cons g m => simp [squeeze, hbegins g rfl]
  have hnormal : normalize t = trimEndWhile isClosing (ks.map Glyph.char) := by
    rw [← hsqueezed]
    exact (normal_core (classify t)).symm
  -- what is cut off its end was no part of anything in front of it
  obtain ⟨r, hr, hclosing⟩ := exists_trimmed isClosing (ks.map Glyph.char)
  rw [← hnormal] at hr
  obtain ⟨rest, hsplit, hrest⟩ : ∃ rest, ks = classify (normalize t) ++ rest
      ∧ rest.map Glyph.char = r := by
    refine ⟨(({} : Lexer).past (normalize t) r).glyphs r, ?_, glyphs_map_char _ _⟩
    have hfront : ({} : Lexer).reads (normalize t) r = classify (normalize t) := by
      cases r with
      | nil => exact Lexer.reads_whole _ _
      | cons c r =>
        have hc : isStop c = true ∧ c ≠ '-' ∧ c ≠ '/' := isStop_of_isClosing (hclosing c List.mem_cons_self)
        exact (Lexer.reads_firm Lexer.delimited_start hc.1 hc.2.1 hc.2.2 (normalize t) r).1
    rw [← hread, hr, ← hfront]
    exact Lexer.glyphs_append _ _ _
  have hbehind : ∀ g ∈ rest, g.isGap = true ∨ isClosing g.char = true := by
    intro g hg
    refine Or.inr (hclosing _ ?_)
    rw [← hrest]
    exact List.mem_map_of_mem hg
  calc normalize (normalize t)
      = trimEndWhile isClosing (squeeze false false ks) := by
        rw [hsplit, normal_append hbehind]
        rfl
    _ = trimEndWhile isClosing (squeeze false false (core (classify t))) := by
        rw [hrespaced.squeeze_eq]
    _ = normalize t := normal_core _

/-! ## §4. The rewrites together. -/

/-- **What the library writes for a text has its normal form**: the normal form, the text with its
comments blanked and the text with its closing semicolon say the same as the text, closed or not,
and so are the same statement.  A closed text gets its semicolon once. -/
theorem rewritten_stable (t : List Char) :
    (∀ u ∈ [normalize t, stripComments t, terminate t], normalize u = normalize t
      ∧ ∀ line line', (Statement.mk (String.ofList u) line).hash
        = (Statement.mk (String.ofList t) line').hash)
      ∧ (unclosed? t = none → terminate (terminate t) = terminate t) := by
  refine ⟨fun u hu => ?_, terminate_terminate⟩
  have hnormal : normalize u = normalize t := by
    rcases List.mem_cons.1 hu with rfl | hu
    · exact normalize_normalize t
    rcases List.mem_cons.1 hu with rfl | hu
    · exact normalize_stripComments t
    rw [List.mem_singleton.1 hu]
    exact normalize_terminate t
  refine ⟨hnormal, fun line line' => ?_⟩
  unfold Statement.hash Statement.normalized
  rw [String.toList_ofList, String.toList_ofList, hnormal]

/-- Comments next to what could be taken for the beginning of a string or of another comment, and
a closing semicolon in front of a comment. -/
theorem rewritten_stable_operators :
    let t := "SELECT E/**/'a\\' -/**/- $a/**/$ ; 1 -- last".toList
    terminate (terminate t) = terminate t ∧ normalize (stripComments t) = normalize t := by
  have hclosed : unclosed? "SELECT E/**/'a\\' -/**/- $a/**/$ ; 1 -- last".toList = none := by
    decide +kernel
  obtain ⟨hrewritten, htwice⟩ :=
    rewritten_stable "SELECT E/**/'a\\' -/**/- $a/**/$ ; 1 -- last".toList
  exact ⟨htwice hclosed, (hrewritten _ (by simp)).1⟩

/-- Where a literal is open, what closes the text is part of it. -/
example : terminate "SELECT 'a".toList = "SELECT 'a;".toList
    ∧ terminate (terminate "SELECT 'a".toList) = "SELECT 'a;;".toList := by
  decide +kernel

end SchemaDrift.Sql
