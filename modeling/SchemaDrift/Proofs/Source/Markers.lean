/-
  SchemaDrift.Proofs.Source.Markers
  ─────────────────────────────────
  **WHICH MARKERS REACH THE STATEMENTS OF A FILE.**

  A marker is recognized by where it stands in its line.  A statement takes its text out of
  the file without the white space in front, and what was behind something else on a line is
  then at the beginning of one.  That is the only way for a marker line into a statement:

      unmarked_statement_iff   of a statement that was cut out only the beginning may be one
      unmarked_terminate_iff   the semicolon behind a statement does not hide it
      marker_line_iff          a file has a marker line in a statement exactly if a marker
                               was moved to the beginning of one
-/

import SchemaDrift.Proofs.Source.Statements
import SchemaDrift.Proofs.Sql.Coverage
import SchemaDrift.Proofs.Sql.Verbatim

namespace SchemaDrift

open SchemaDrift.Sql SchemaDrift.Text

namespace Sql

/-! ## §1. Statements that are cut out. -/

/-- The text `raw` stands in `t` behind something on its line that is no indent. -/
def Moved (t raw : List Char) : Prop :=
  ∃ whole lead rest, t = whole ++ (lead ++ (raw ++ rest)) ∧ EndsLine whole ∧ '\n' ∉ lead
    ∧ ∃ c ∈ lead, isIndent c = false

/-- A text has a marker line exactly if a marker begins in front of it or behind a line feed. -/
theorem marker_line_iff_unmarked {t : List Char} :
    (∃ line ∈ lines t, marker? line ≠ none) ↔ ¬Unmarked [] ('\n' :: t) := by
  rw [unmarked_iff_lines rfl]
  simp

/-- **Of a statement that was cut out of a text only the beginning may be a marker.** -/
theorem unmarked_statement_iff {t : List Char} {ss : List Statement} (h : split t = .ok ss)
    {s : Statement} (hs : s ∈ ss) :
    Unmarked [] ('\n' :: s.raw.toList) ↔ marker? s.raw.toList = none := by
  obtain ⟨inside, pre, post, -, hfit⟩ := split_fits h hs
  obtain ⟨-, hline⟩ := unmarked_feed.1 hfit.unmarked
  rw [unmarked_feed, List.nil_append]
  exact and_iff_left hline.right

/-- **A marker that a statement begins with was behind something else on its line.** -/
theorem moved_of_marker {t : List Char} {ss : List Statement} (h : split t = .ok ss)
    {s : Statement} (hs : s ∈ ss) (hmarker : marker? s.raw.toList ≠ none) :
    Moved t s.raw.toList := by
  obtain ⟨inside, pre, post, rfl, hfit⟩ := split_fits h hs
  obtain ⟨hline, -⟩ := unmarked_feed.1 hfit.unmarked
  obtain ⟨u, hu, hends⟩ := exists_lastLine pre
  refine ⟨u, lastLine pre, post, ?_, hends, ?_, ?_⟩
  · conv_lhs => rw [hu]
    rw [List.append_assoc]
  · intro hfeed
    have hne := List.mem_rtakeWhile_imp hfeed
    exact absurd hne (by decide)
  · -- behind an indent only, the line would have been a marker in the text
    by_contra hindent
    have hall : ∀ c ∈ lastLine pre, isIndent c = true := by
      intro c hc
      by_contra hno
      exact hindent ⟨c, hc, Bool.eq_false_iff.2 hno⟩
    rw [List.nil_append, marker?_indent hall] at hline
    exact hmarker hline

/-! ## §2. Statements with their semicolons. -/

/-- A text that begins with a marker begins with white space and a comment, up to its first
line feed. -/
theorem classify_marker {s : List Char} (hs : marker? s ≠ none) :
    ∃ front behind, classify s = front ++ behind ∧ (∀ g ∈ front, g.isTrailing = true)
      ∧ ∀ g ∈ behind.head?, g.char = '\n' := by
  obtain ⟨i, w, r, rfl, hi, -⟩ := marker?_shape hs
  have hblank : ∀ c ∈ i, isBlank c = true := fun c hc => isBlank_of_isIndent (hi c hc)
  obtain ⟨l, q, hlq, hl, hq⟩ : ∃ l q, w ++ r = l ++ q ∧ '\n' ∉ l ∧ ∀ c ∈ q.head?, c = '\n' := by
    by_cases hfeed : '\n' ∈ w ++ r
    · obtain ⟨l, q, hlq, hl⟩ := List.eq_append_cons_of_mem hfeed
      exact ⟨l, '\n' :: q, hlq, hl, by simp⟩
    · exact ⟨w ++ r, [], by simp, hfeed, by simp⟩
  obtain ⟨-, hfresh⟩ := Lexer.fresh_blanks (q := '-' :: '-' :: l ++ q) Lexer.fresh_start hblank
  generalize hstate : ({} : Lexer).past i ('-' :: '-' :: l ++ q) = state at hfresh
  obtain ⟨hcomment, -⟩ := Lexer.reads_hyphens hfresh.toIdle hl q
  refine ⟨i.map (fun c => ⟨c, .code⟩) ++ state.reads ('-' :: '-' :: l) q,
    (state.past ('-' :: '-' :: l) q).glyphs q, ?_, ?_, ?_⟩
  · unfold classify
    rw [hlq, show i ++ '-' :: '-' :: (l ++ q) = i ++ ('-' :: '-' :: l ++ q) from rfl,
      Lexer.glyphs_append, hstate, Lexer.glyphs_append, List.append_assoc,
      Lexer.reads_blanks Lexer.fresh_start.toIdle hblank]
  · intro g hg
    unfold Glyph.isTrailing
    rcases List.mem_append.1 hg with hg | hg
    · obtain ⟨c, hc, rfl⟩ := List.mem_map.1 hg
      simp [hblank c hc]
    · simp [hcomment g hg]
  · intro g hg
    refine hq g.char ?_
    rw [← glyphs_map_char (state.past ('-' :: '-' :: l) q) q, List.head?_map, hg]
    rfl

/-- What follows in the text, and is neither white space nor of a comment, is behind that line
feed. -/
theorem feed_mem_of_marker {s : List Char} (hs : marker? s ≠ none) {gs rest : List Glyph} {g : Glyph}
    (hsplit : classify s = gs ++ g :: rest) (hg : g.isTrailing = false) :
    '\n' ∈ gs.map Glyph.char := by
  obtain ⟨front, behind, hclassify, hfront, hbehind⟩ := classify_marker hs
  have hfeed : g.char ≠ '\n' := by
    intro hc
    unfold Glyph.isTrailing at hg
    rw [hc] at hg
    simp at hg
    exact absurd hg.2 (by decide)
  rw [hclassify] at hsplit
  rcases List.append_eq_append_iff.1 hsplit with ⟨c, rfl, hc⟩ | ⟨c, rfl, hc⟩
  · cases c with
    | nil =>
      rw [List.nil_append] at hc
      exact absurd (hbehind g (by rw [hc]; rfl)) hfeed
    | cons x c =>
      rw [← hbehind x (by rw [hc]; rfl)]
      simp
  · cases c with
    | nil =>
      rw [List.nil_append] at hc
      exact absurd (hbehind g (by rw [← hc]; rfl)) hfeed
    | cons x c =>
      rw [(List.cons.inj hc).1] at hg
      rw [hfront x (by simp)] at hg
      cases hg

/-- **The semicolon behind a statement does not hide a marker at its beginning.** -/
theorem marker?_terminate {s : List Char} (hs : marker? s ≠ none) :
    marker? (terminate s) ≠ none := by
  rw [← marker?_trimEnd] at hs
  rcases terminate_cases s with h | ⟨gs, g, hs', hsplit, hg, -, h⟩
  · rw [h]
    exact hs
  · -- the marker ends with its line, and the semicolon comes behind that
    obtain ⟨a, b, hab⟩ := List.append_of_mem (feed_mem_of_marker hs hsplit hg)
    have htext : trimEnd s = a ++ '\n' :: (b ++ g.char :: hs'.map Glyph.char) := by
      rw [← classify_map_char (trimEnd s), hsplit, List.map_append, hab, List.append_assoc]
      rfl
    have hterm : terminate s = a ++ '\n' :: (b ++ g.char :: ';' :: hs'.map Glyph.char) := by
      rw [h, List.map_append, hab]
      simp
    rw [htext, marker?_append (breaks_feed _)] at hs
    rw [hterm, marker?_append (breaks_feed _)]
    exact hs

/-- **A statement with its semicolon has a marker line exactly if it begins with one.** -/
theorem unmarked_terminate_iff {t : List Char} {ss : List Statement} (h : split t = .ok ss)
    {s : Statement} (hs : s ∈ ss) :
    Unmarked [] ('\n' :: terminate s.raw.toList) ↔ marker? s.raw.toList = none := by
  constructor
  · intro hunmarked
    obtain ⟨hfirst, -⟩ := unmarked_feed.1 hunmarked
    by_contra hmarker
    exact marker?_terminate hmarker hfirst
  · intro hmarker
    exact unmarked_terminate ((unmarked_statement_iff h hs).2 hmarker)

/-- Texts one below the other are without markers if each of them is. -/
theorem unmarked_intercalate {lead : List Char} {ls : List (List Char)} (hne : ls ≠ []) :
    Unmarked lead ('\n' :: ['\n'].intercalate ls) ↔ ∀ l ∈ ls, Unmarked lead ('\n' :: l) := by
  induction ls with
  | nil => exact absurd rfl hne
  | cons l ls ih =>
    cases ls with
    | nil => simp
    | cons l' ls =>
      have ih := ih (List.cons_ne_nil l' ls)
      have hsplit : '\n' :: ['\n'].intercalate (l :: l' :: ls)
          = ('\n' :: l) ++ '\n' :: ['\n'].intercalate (l' :: ls) := by
        rw [List.intercalate_cons_cons, List.append_assoc]
        rfl
      rw [hsplit, List.forall_mem_cons, ← ih]
      constructor
      · intro h
        exact ⟨h.left rfl, h.right⟩
      · rintro ⟨hfirst, hrest⟩
        exact hfirst.append (breaks_feed _) hrest

end Sql

/-! ## §3. Files. -/

/-- What a file holds is the statements of its text, or one that is made of them. -/
theorem contentOf_statements {text : List Char} {d : Directives} {c : FileContent}
    (h : contentOf text d = .ok (.ok c)) : ∃ ss, split text = .ok ss
      ∧ (c.statements = ss ∨ ss ≠ [] ∧ ∃ line, c.statements = [⟨joined ss, line⟩]) := by
  obtain ⟨-, ss, hss, hcontents⟩ := contentOf_ok_iff.1 h
  refine ⟨ss, hss, ?_⟩
  cases hcontents with
  | declared | separate => exact Or.inl rfl
  | plain =>
    cases ss with
    | nil => exact Or.inl rfl
    | cons s rest => exact Or.inr ⟨List.cons_ne_nil s rest, _, rfl⟩

/-- A file has no marker in its statements exactly if none of those that its text splits into
begins with one. -/
theorem unmarked_statements_iff {text : List Char} {ss : List Statement} (h : split text = .ok ss)
    {sts : List Statement} (hsts : sts = ss ∨ ss ≠ [] ∧ ∃ line, sts = [⟨joined ss, line⟩]) :
    (∀ st ∈ sts, Unmarked [] ('\n' :: st.raw.toList)) ↔ ∀ s ∈ ss, marker? s.raw.toList = none := by
  rcases hsts with rfl | ⟨hne, line, rfl⟩
  · exact forall₂_congr fun s hs => unmarked_statement_iff h hs
  · have hparts : ss.map (fun s => terminate s.raw.toList) ≠ [] := by simpa using hne
    rw [List.forall_mem_singleton, toList_joined, unmarked_intercalate hparts, List.forall_mem_map]
    exact forall₂_congr fun s hs => unmarked_terminate_iff h hs

/-- **A file has a marker line in one of its statements exactly if a marker stands in its text
behind something else on its line, where a statement begins.** -/
theorem marker_line_iff {path text : String} {f : SourceFile}
    (hread : SourceFile.read path text = .ok f) {c : FileContent} (hc : f.content = .ok c) :
    (∃ st ∈ c.statements, ∃ line ∈ lines st.raw.toList, marker? line ≠ none)
      ↔ ∃ ss, split text.toList = .ok ss ∧ ∃ s ∈ ss, marker? s.raw.toList ≠ none
        ∧ Moved text.toList s.raw.toList := by
  have hcontent := SourceFile.read_content hread hc
  obtain ⟨ss, hss, hsts⟩ := contentOf_statements hcontent
  have hiff := unmarked_statements_iff hss hsts
  constructor
  · rintro ⟨st, hst, hline⟩
    by_contra hnone
    refine marker_line_iff_unmarked.1 hline (hiff.2 ?_ st hst)
    intro s hs
    by_contra hmarker
    exact hnone ⟨ss, hss, s, hs, hmarker, moved_of_marker hss hs hmarker⟩
  · rintro ⟨ss', hss', s, hs, hmarker, -⟩
    have heq : ss' = ss := Except.ok.inj (hss'.symm.trans hss)
    rw [heq] at hs
    by_contra hnone
    refine hmarker (hiff.1 ?_ s hs)
    intro st hst
    by_contra hmarked
    exact hnone ⟨st, hst, marker_line_iff_unmarked.2 hmarked⟩

/-- A comment behind a semicolon is no marker line, but it becomes one in the statement that
is made of the two around it. -/
theorem marker_line_behind_semicolon :
    ∃ f c, SourceFile.read "a.sql" "SELECT 1; -- sqlsync: startStatement\nSELECT 2;" = .ok f
      ∧ f.content = .ok c
      ∧ ∃ st ∈ c.statements, ∃ line ∈ lines st.raw.toList, marker? line ≠ none := by
  have hdirectives : directives "SELECT 1; -- sqlsync: startStatement\nSELECT 2;".toList
      = .ok ⟨false, false⟩ := by decide +kernel
  have hcontent : contentOf "SELECT 1; -- sqlsync: startStatement\nSELECT 2;".toList ⟨false, false⟩
      = .ok (.ok ⟨[⟨"SELECT 1;\n-- sqlsync: startStatement\nSELECT 2;", some 1⟩], none⟩) := by
    decide +kernel
  have hread := SourceFile.read_ok "a.sql" hdirectives hcontent
  refine ⟨_, _, hread, rfl, _, List.mem_cons_self, "-- sqlsync: startStatement\n".toList, ?_, ?_⟩
  · decide +kernel
  · decide +kernel

/-- A declared table behind a semicolon of its own and a moved marker. -/
theorem marker_line_iff_declared :
    let text := "; -- sqlsync: endStatement\n-- sqlsync: declarativeTable=true\n"
      ++ "CREATE TABLE t (id int);"
    let sql := "-- sqlsync: endStatement\n-- sqlsync: declarativeTable=true\n"
      ++ "CREATE TABLE t (id int);"
    let id : Column := ⟨"id", "INT", true, none, false, false, none, none⟩
    let c : FileContent := ⟨[⟨sql, some 1⟩], some ⟨"public", "t", [id]⟩⟩
    let f : SourceFile := ⟨"t.sql", Digest.hashOf text, ⟨true, false⟩, .ok c⟩
    SourceFile.read "t.sql" text = .ok f ∧ f.content = .ok c
      ∧ ((∃ st ∈ c.statements, ∃ line ∈ lines st.raw.toList, marker? line ≠ none)
        ↔ ∃ ss, split text.toList = .ok ss ∧ ∃ s ∈ ss, marker? s.raw.toList ≠ none
          ∧ Moved text.toList s.raw.toList) := by
  intro text sql id c f
  have hread : SourceFile.read "t.sql" text = .ok f :=
    SourceFile.read_ok _ (by decide +kernel) (by decide +kernel)
  exact ⟨hread, rfl, marker_line_iff hread rfl⟩

end SchemaDrift
