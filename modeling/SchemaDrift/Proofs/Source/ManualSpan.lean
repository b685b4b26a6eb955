/-
  SchemaDrift.Proofs.Source.ManualSpan
  ────────────────────────────────────
  **WHAT A MANUAL SPAN HOLDS IS NO MATTER OF THE REST OF ITS FILE.**

  A file with a manual span is the text in front of it, the span, and the text behind it, and its
  statements are those of the three (`ManualSpan.split_span`).  So the body of the span can be
  exchanged for any other, and the statements around it stay:

      in front     as they are
      the span     one statement, whatever it holds, or none if it says nothing
      behind       as they are, but for the numbers of their lines

  The directives are another matter, for the file is read as a whole for them.  What the lines
  around the body ask for stays if the old body and the new one leave that reading at the same
  point (`ManualSpan.body_exchanged`), and only then can it be relied on: a literal that the body
  leaves open turns what is quoted behind it into code (`ManualSpan.flags_behind_literal`).
-/

import SchemaDrift.Proofs.Source.Redirected

namespace SchemaDrift.Sql

open SchemaDrift.Text

/-! ## §1. Statements and marks further down. -/

/-- The statement `n` lines further down. -/
def Statement.moved (n : Nat) (s : Statement) : Statement :=
  { s with startLine := s.startLine.map (n + ·) }

/-- The mark `n` lines further down. -/
def Mark.moved (n : Nat) (m : Mark) : Mark := { m with line := n + m.line }

/-- The region `n` lines further down. -/
def Region.moved (n : Nat) (r : Region) : Region := { r with line := n + r.line }

theorem statementOf?_moved (n line : Nat) (p : List Char) :
    statementOf? (n + line) p = (statementOf? line p).map (Statement.moved n) := by
  rcases statementOf?_cases (n + line) p with ⟨hinert, hnone⟩ | ⟨hsaid, hsome⟩
  · rcases statementOf?_cases line p with ⟨-, hnone'⟩ | ⟨hsaid, -⟩
    · rw [hnone, hnone']
      rfl
    · exact absurd hinert hsaid
  · rcases statementOf?_cases line p with ⟨hinert, -⟩ | ⟨-, hsome'⟩
    · exact absurd hinert hsaid
    · rw [hsome, hsome', Option.map_some, Statement.moved, Option.map_some, Nat.add_assoc]

theorem statementsOf_moved (n line : Nat) (ps : List (List Char)) :
    statementsOf (n + line) ps = (statementsOf line ps).map (Statement.moved n) := by
  induction ps generalizing line with
  | nil => rfl
  | cons p ps ih =>
    rw [statementsOf, statementsOf, List.map_append, statementOf?_moved, Nat.add_assoc, ih,
      Option.toList_map]

theorem marksFrom_moved (n number : Nat) (ls : List (List Char)) :
    marksFrom (n + number) ls
      = ((marksFrom number ls).1, (marksFrom number ls).2.map (Mark.moved n)) := by
  induction ls generalizing number with
  | nil => rfl
  | cons l ls ih =>
    rw [marksFrom, marksFrom, Nat.add_assoc, ih]
    cases marker? l with
    | none => rfl
    | some m => rfl

/-- Marks with no text in front of the first of them are added to those of the lines in front. -/
theorem marksFrom_append {ls rs : List (List Char)} {number : Nat}
    (hrs : (marksFrom (number + ls.length) rs).1 = []) : marksFrom number (ls ++ rs)
      = ((marksFrom number ls).1,
          (marksFrom number ls).2 ++ (marksFrom (number + ls.length) rs).2) := by
  induction ls generalizing number with
  | nil => exact Prod.ext hrs rfl
  | cons l ls ih =>
    rw [List.length_cons, Nat.add_comm ls.length, ← Nat.add_assoc] at hrs ⊢
    rw [List.cons_append, marksFrom, marksFrom, ih hrs]
    cases marker? l with
    | none => rfl
    | some m => rfl

/-! ## §2. What an outline yields. -/

/-- The outline is without a fault, and its regions have the statements `ss`. -/
def Outline.Yields (o : Outline) (ss : List Statement) : Prop :=
  o.fault = none ∧ splitRegions o.regions = .ok ss

section Yields

variable {r : Region} {m : Mark} {marks rest : List Mark} {ss : List Statement}

theorem yields_nil :
    (outlineFrom r []).Yields ss ↔ r.manual = false ∧ r.statements = .ok ss := by
  have hsplit : ∀ us, splitRegions [r] = .ok us ↔ r.statements = .ok us := by
    intro us
    rw [splitRegions_cons_ok]
    constructor
    · rintro ⟨here, behind, hhere, hbehind, rfl⟩
      rw [← Except.ok.inj hbehind, List.append_nil]
      exact hhere
    · intro h
      exact ⟨us, [], h, rfl, (List.append_nil us).symm⟩
  unfold outlineFrom Outline.Yields
  cases r.manual with
  | true => simp
  | false => simp [hsplit]

/-- Behind a marker in turn come the statements of the marks that follow. -/
theorem yields_cons : (outlineFrom r (m :: marks)).Yields ss ↔
    (m.marker = if r.manual then .finish else .start) ∧ ∃ here behind, r.statements = .ok here
      ∧ (outlineFrom ⟨!r.manual, m.line, m.text⟩ marks).Yields behind ∧ ss = here ++ behind := by
  by_cases hturn : m.marker = if r.manual then .finish else .start
  · rw [outlineFrom_turn marks hturn]
    unfold Outline.Yields
    rw [splitRegions_cons_ok]
    constructor
    · rintro ⟨hfault, here, behind, hhere, hbehind, rfl⟩
      exact ⟨hturn, here, behind, hhere, ⟨hfault, hbehind⟩, rfl⟩
    · rintro ⟨-, here, behind, hhere, ⟨hfault, hbehind⟩, rfl⟩
      exact ⟨hfault, here, behind, hhere, hbehind, rfl⟩
  · obtain ⟨fault, hstops, -⟩ := outlineFrom_misplaced marks hturn
    rw [hstops]
    exact iff_of_false (fun h => Option.some_ne_none _ h.1) fun h => hturn h.1

/-- Further down there are the same statements, further down. -/
theorem yields_moved (n : Nat) :
    (outlineFrom (r.moved n) (marks.map (Mark.moved n))).Yields ss
      ↔ ∃ ss', (outlineFrom r marks).Yields ss' ∧ ss = ss'.map (Statement.moved n) := by
  have hstatements : ∀ (r : Region) us, (r.moved n).statements = .ok us
      ↔ ∃ us', r.statements = .ok us' ∧ us = us'.map (Statement.moved n) := by
    intro r us
    simp only [statements_ok_iff]
    unfold Region.moved
    rw [statementsOf_moved]
    constructor
    · rintro ⟨hclosed, rfl⟩
      exact ⟨_, ⟨hclosed, rfl⟩, rfl⟩
    · rintro ⟨_, ⟨hclosed, rfl⟩, rfl⟩
      exact ⟨hclosed, rfl⟩
  induction marks generalizing r ss with
  | nil =>
    simp only [List.map_nil, yields_nil, hstatements]
    constructor
    · rintro ⟨hmanual, ss', hss', rfl⟩
      exact ⟨ss', ⟨hmanual, hss'⟩, rfl⟩
    · rintro ⟨ss', ⟨hmanual, hss'⟩, rfl⟩
      exact ⟨hmanual, ss', hss', rfl⟩
  | cons m marks ih =>
    have hrest := @ih ⟨!r.manual, m.line, m.text⟩
    rw [List.map_cons]
    simp only [yields_cons, hstatements]
    constructor
    · rintro ⟨hturn, here, behind, ⟨here', hhere, rfl⟩, hbehind, rfl⟩
      obtain ⟨behind', hbehind', rfl⟩ := hrest.1 hbehind
      exact ⟨_, ⟨hturn, here', behind', hhere, hbehind', rfl⟩, (List.map_append ..).symm⟩
    · rintro ⟨_, ⟨hturn, here', behind', hhere, hbehind', rfl⟩, rfl⟩
      exact ⟨hturn, _, _, ⟨here', hhere, rfl⟩, hrest.2 ⟨behind', hbehind', rfl⟩,
        List.map_append ..⟩

/-- **A start marker parts the statements**: those in front of it are the ones that the marks in
front have by themselves. -/
theorem yields_start (hm : m.marker = .start) : (outlineFrom r (marks ++ m :: rest)).Yields ss ↔
    ∃ pre post, (outlineFrom r marks).Yields pre
      ∧ (outlineFrom ⟨true, m.line, m.text⟩ rest).Yields post ∧ ss = pre ++ post := by
  induction marks generalizing r ss with
  | nil =>
    rw [List.nil_append, yields_cons, hm]
    simp only [yields_nil]
    cases hmanual : r.manual with
    | true =>
      refine iff_of_false (fun h => nomatch h.1) ?_
      rintro ⟨-, -, ⟨hnot, -⟩, -⟩
      cases hnot
    | false =>
      constructor
      · rintro ⟨-, here, behind, hhere, hbehind, rfl⟩
        exact ⟨here, behind, ⟨rfl, hhere⟩, hbehind, rfl⟩
      · rintro ⟨here, behind, ⟨-, hhere⟩, hbehind, rfl⟩
        exact ⟨rfl, here, behind, hhere, hbehind, rfl⟩
  | cons k marks ih =>
    rw [List.cons_append, yields_cons]
    simp only [yields_cons, ih]
    constructor
    · rintro ⟨hturn, here, behind, hhere, ⟨pre, post, hpre, hpost, rfl⟩, rfl⟩
      exact ⟨here ++ pre, post, ⟨hturn, here, pre, hhere, hpre, rfl⟩, hpost,
        (List.append_assoc ..).symm⟩
    · rintro ⟨_, post, ⟨hturn, here, pre, hhere, hpre, rfl⟩, hpost, rfl⟩
      exact ⟨hturn, here, pre ++ post, hhere, ⟨pre, post, hpre, hpost, rfl⟩, List.append_assoc ..⟩

end Yields

/-! ## §3. Spans. -/

/-- A manual span without its body: its two marker lines, and what is around them. -/
structure ManualSpan where
  front : List Char
  /-- The line of the start marker, without its line feed. -/
  start : List Char
  /-- The line of the end marker, without its line feed. -/
  finish : List Char
  /-- What follows the line of the end marker, with the line feed if there is one. -/
  behind : List Char
  front_ends : EndsLine front
  start_inline : '\n' ∉ start
  start_marker : marker? start = some .start
  finish_inline : '\n' ∉ finish
  finish_marker : marker? finish = some .finish
  behind_begins : behind = [] ∨ behind.head? = some '\n'

namespace ManualSpan

variable (s : ManualSpan)

/-- The lines up to the body. -/
def head : List Char := s.front ++ (s.start ++ ['\n'])

/-- What follows the body. -/
def tail : List Char := s.finish ++ s.behind

/-- The file in which the span has the body `x`. -/
def fill (x : List Char) : List Char := s.head ++ (x ++ s.tail)

/-- The text is one of whole lines, none of which is a marker line. -/
structure IsBody (x : List Char) : Prop where
  ends : EndsLine x
  unmarked : ∀ l ∈ lines x, marker? l = none

/-- The number of the line of the start marker. -/
def line : Nat := (lines s.front).length + 1

/-- How many lines there are in front of the line of the end marker. -/
def depth (x : List Char) : Nat := s.line + (lines x).length

/-- The statement of the body, if it says something. -/
def own (x : List Char) : List Statement := (statementOf? (s.line + 1) x).toList

variable {s} {x : List Char} {ss : List Statement}

theorem head_ends : EndsLine s.head :=
  Or.inr (by unfold head; rw [← List.append_assoc, List.getLast?_concat])

/-- From the line of the end marker on there are its mark and those of what follows it. -/
theorem marks_tail (number : Nat) : marksFrom (number + 1) (lines s.tail)
    = ([], ⟨.finish, number + 1, (marksFrom 1 (lines s.behind)).1⟩
        :: (marksFrom 1 (lines s.behind)).2.map (Mark.moved number)) := by
  have hbegins := s.behind_begins
  unfold tail
  rcases hbehind : s.behind with _ | ⟨c, t⟩
  · have hne : s.finish ≠ [] := by
      intro hnil
      have hmarker := s.finish_marker
      rw [hnil] at hmarker
      cases hmarker
    have hlast : s.finish.getLast? ≠ some '\n' :=
      fun h => s.finish_inline (List.mem_of_getLast? h)
    rw [List.append_nil, lines_last s.finish_inline hne, marksFrom, s.finish_marker]
    dsimp only
    rw [if_neg hlast]
    rfl
  · rw [hbehind] at hbegins
    obtain rfl : c = '\n' :=
      Option.some.inj (hbegins.resolve_left (List.cons_ne_nil c t))
    have hline : lines ('\n' :: t) = ['\n'] :: lines t :=
      lines_line (a := []) (List.not_mem_nil) t
    have hmoved := marksFrom_moved number 2 (lines t)
    rw [marksFrom_marker s.finish_inline s.finish_marker, hline, marksFrom]
    rw [Nat.add_assoc, hmoved]
    rfl

/-- The marks of a file with the span are those in front, its own and those behind. -/
theorem marks_fill (hx : IsBody x) : marksFrom 1 (lines (s.fill x))
    = ((marksFrom 1 (lines s.front)).1, (marksFrom 1 (lines s.front)).2
        ++ ⟨.start, s.line, '\n' :: x⟩
        :: ⟨.finish, s.depth x + 1, (marksFrom 1 (lines s.behind)).1⟩
        :: (marksFrom 1 (lines s.behind)).2.map (Mark.moved (s.depth x))) := by
  have htail := s.marks_tail (s.depth x)
  have hdepth : s.line + 1 + (lines x).length = s.depth x + 1 := Nat.add_right_comm ..
  have hbody : marksFrom (s.line + 1) (lines (x ++ s.tail)) = (x, (marksFrom (s.depth x + 1)
      (lines s.tail)).2) := by
    rw [lines_append hx.ends, marksFrom_lines hx.unmarked, hdepth, htail, List.append_nil]
    exact Prod.ext (flatten_splitAfter _ x) rfl
  have hspan := marksFrom_marker s.start_inline s.start_marker s.line (x ++ s.tail)
  rw [hbody, htail] at hspan
  have hlines : lines (s.fill x) = lines s.front ++ lines (s.start ++ '\n' :: (x ++ s.tail)) := by
    unfold fill head
    rw [List.append_assoc, lines_append s.front_ends, List.append_assoc]
    rfl
  have hline : 1 + (lines s.front).length = s.line := Nat.add_comm ..
  rw [hlines, marksFrom_append (by rw [hline, hspan]), hline, hspan]

/-- **The statements of a file with a manual span** are those of the text in front of it, that of
its body, and those of the text behind it. -/
theorem split_span (hx : IsBody x) : split (s.fill x) = .ok ss ↔
    ∃ pre post, split s.front = .ok pre ∧ split s.behind = .ok post
      ∧ ss = pre ++ (s.own x ++ post.map (Statement.moved (s.depth x))) := by
  have hyields : ∀ {t us}, split t = .ok us ↔ (outlineFrom ⟨false, 1, (marksFrom 1 (lines t)).1⟩
      (marksFrom 1 (lines t)).2).Yields us := split_ok
  have hmoved := fun us => @yields_moved ⟨false, 1, (marksFrom 1 (lines s.behind)).1⟩
    (marksFrom 1 (lines s.behind)).2 us (s.depth x)
  rw [hyields, marks_fill hx, yields_start rfl]
  have hspan : ∀ us, (outlineFrom ⟨true, s.line, '\n' :: x⟩
      (⟨.finish, s.depth x + 1, (marksFrom 1 (lines s.behind)).1⟩
        :: (marksFrom 1 (lines s.behind)).2.map (Mark.moved (s.depth x)))).Yields us
      ↔ ∃ post, split s.behind = .ok post
        ∧ us = s.own x ++ post.map (Statement.moved (s.depth x)) := by
    intro us
    have hown : statementsOf s.line ['\n' :: x] = s.own x := by
      rw [statementsOf_feed]
      exact List.append_nil _
    rw [yields_cons, statements_manual rfl, hown]
    constructor
    · rintro ⟨-, here, behind, hhere, hbehind, rfl⟩
      obtain ⟨post, hpost, rfl⟩ := (hmoved behind).1 hbehind
      exact ⟨post, hyields.2 hpost, by rw [Except.ok.inj hhere]⟩
    · rintro ⟨post, hpost, hus⟩
      exact ⟨rfl, _, _, rfl, (hmoved _).2 ⟨post, hyields.1 hpost, rfl⟩, hus⟩
  constructor
  · rintro ⟨pre, us, hpre, hus, rfl⟩
    obtain ⟨post, hpost, hspanned⟩ := (hspan us).1 hus
    exact ⟨pre, post, hyields.2 hpre, hpost, by rw [hspanned]⟩
  · rintro ⟨pre, post, hpre, hpost, rfl⟩
    exact ⟨pre, _, hyields.1 hpre, (hspan _).2 ⟨post, hpost, rfl⟩, rfl⟩

end ManualSpan

/-! ## §4. Settings in whole lines. -/

/-- A line that the text is begun with behind whole lines is one of the lines of both. -/
theorem exists_line {u v : List Char} (hu : EndsLine u) (hv : v ≠ []) :
    ∃ r, headLine v ++ r ∈ lines (u ++ v) := by
  have hmem : ∀ {l : List Char}, l ∈ lines v → l ∈ lines (u ++ v) := by
    intro l hl
    rw [lines_append hu]
    exact List.mem_append_right _ hl
  by_cases hfeed : '\n' ∈ v
  · obtain ⟨a, b, rfl, ha⟩ := List.eq_append_cons_of_mem hfeed
    refine ⟨['\n'], hmem ?_⟩
    have hline : headLine (a ++ '\n' :: b) = a := by
      rw [headLine_append ha]
      exact List.append_nil a
    rw [hline, lines_line ha]
    exact List.mem_cons_self
  · refine ⟨[], hmem ?_⟩
    have hline := headLine_append hfeed []
    rw [List.append_nil] at hline
    rw [hline, lines_last hfeed hv, List.mem_singleton, List.append_nil]
    exact List.append_nil v

/-- No line of the text is addressed. -/
def Unaddressed (x : List Char) : Prop := ∀ l ∈ lines x, isAddressed l = false

instance (x : List Char) : Decidable (Unaddressed x) :=
  inferInstanceAs (Decidable (∀ l ∈ lines x, isAddressed l = false))

namespace Unaddressed

variable {x : List Char}

/-- No line that begins in the text is addressed. -/
theorem quiet (h : Unaddressed x) : Quiet [] x := by
  intro u v hx hu
  by_contra haddressed
  rw [Bool.not_eq_false] at haddressed
  have hv : v ≠ [] := by
    rintro rfl
    cases haddressed
  obtain ⟨r, hr⟩ := exists_line hu hv
  have hline := h _ (hx ▸ hr)
  rw [isAddressed_append haddressed] at hline
  cases hline

/-- Marker lines are addressed. -/
theorem unmarked (h : Unaddressed x) : ∀ l ∈ lines x, marker? l = none := by
  intro l hl
  by_contra hmarker
  have haddressed := isAddressed_append (isAddressed_of_marker hmarker) (l.dropWhile (· != '\n'))
  unfold headLine at haddressed
  rw [List.takeWhile_append_dropWhile, h l hl] at haddressed
  cases haddressed

/-- No line of the text has settings. -/
theorem settings_eq (h : Unaddressed x) {row : List Glyph} (hrow : row.map Glyph.char = x)
    (starts : Bool) : settings starts row = [] := by
  rw [← List.append_nil row]
  refine atStarts_quiet fun u v huv hstarts => ?_
  by_contra hset
  have hends : EndsLine (u.map Glyph.char) := by
    cases u with
    | nil => exact Or.inl rfl
    | cons g u =>
      rw [startsBehind_cons, ← startsBehind_cons true] at hstarts
      exact endsLine_of_starts hstarts
  have haddressed := isAddressed_of_setting hset
  rw [List.append_nil, h.quiet _ _ (by rw [← hrow, huv, List.map_append]) hends] at haddressed
  cases haddressed

end Unaddressed

/-- Whole lines have settings of their own. -/
theorem settings_append {gs : List Glyph} (hgs : EndsLine (gs.map Glyph.char)) (starts : Bool)
    (hs : List Glyph) :
    settings starts (gs ++ hs) = settings starts gs ++ settings (startsBehind starts gs) hs := by
  refine (atStarts_append _ starts gs hs).trans (congrArg (· ++ _) ?_)
  refine atStarts_congr fun u v huv hv => ?_
  have hends : EndsLine (v.map Glyph.char) := by
    rw [huv, List.map_append] at hgs
    exact EndsLine.right hgs
  have hfeed : '\n' ∈ v.map Glyph.char :=
    List.mem_of_getLast? (hends.resolve_left fun hnil => hv (List.map_eq_nil_iff.1 hnil))
  rw [List.map_append, settingAt, headLine_of_mem hfeed]
  rfl

/-- A line begins in code behind whole lines that end in code. -/
theorem startsBehind_lines {t : List Char} (ht : EndsLine t) :
    startsBehind true (classify t) = decide ((({} : Lexer).after t).mode.cls = .code) := by
  rcases ht with rfl | ht
  · rfl
  have hlast : (classify t).getLast?.map Glyph.char = some '\n' := by
    rw [← List.getLast?_map, classify_map_char, ht]
  obtain ⟨g, hg, hchar⟩ := Option.map_eq_some_iff.1 hlast
  have hcls : g.cls = (({} : Lexer).after t).mode.cls := by
    have hsound : ({} : Lexer).Sound (t ++ []) := Lexer.sound_start _
    have hreads : (({} : Lexer).reads t []).getLast? = some g := by
      rw [Lexer.reads_whole]
      exact hg
    rw [← Lexer.inside_after (Lexer.sound_start t), ← Lexer.past_whole]
    -- no line feed ends what is quoted, and none a block comment
    rcases Lexer.past_leaves hsound hreads with hinside | ⟨hinside, hcloses⟩
    · exact hinside.symm
    · rw [hinside]
      rw [hchar] at hcloses
      cases hk : g.cls with
      | code => rfl
      | quoted =>
        rw [hk] at hcloses
        exact absurd hcloses (by decide)
      | comment =>
        rw [hk] at hcloses
        exact absurd hcloses (by decide)
  unfold startsBehind
  rw [hg, ← hcls]
  show g.isCode '\n' = _
  unfold Glyph.isCode
  rw [hchar]
  simp

/-- What follows whole lines is read from the state behind them. -/
theorem classify_behind_lines {t : List Char} (ht : EndsLine t) (w : List Char) :
    classify (t ++ w) = classify t ++ (({} : Lexer).after t).glyphs w := by
  show ({} : Lexer).glyphs _ = _
  rw [Lexer.glyphs_append, Lexer.reads_lines ht, Lexer.past_lines ht]

/-- The states behind whole lines that end in the same mode are alike. -/
theorem Lexer.alike_of_mode {t t' : List Char} (ht : t.getLast? = some '\n')
    (ht' : t'.getLast? = some '\n')
    (h : (({} : Lexer).after t).mode = (({} : Lexer).after t').mode) :
    (({} : Lexer).after t).Alike (({} : Lexer).after t') := by
  have hlast : ∀ {t : List Char}, t.getLast? = some '\n' → (({} : Lexer).after t).last = some '\n' := by
    intro t ht
    rw [← past_whole]
    exact past_last ht _ _
  have hheld : ∀ t : List Char, (({} : Lexer).after t).held = 0 :=
    fun t => held_after (sound_start t)
  refine ⟨h, by rw [hheld, hheld], fun hn => absurd (hheld t) hn, ?_, ?_, ?_⟩
  · unfold escapes
    rw [hlast ht, hlast ht']
    rfl
  · rw [hlast ht, hlast ht']
  · rw [hlast ht, hlast ht']

/-! ## §5. The body exchanged. -/

namespace ManualSpan

variable (s : ManualSpan)

/-- The settings in the lines of the file that are no lines of the body. -/
def outsideSettings (x : List Char) : List (List Char) :=
  let row := classify (s.fill x)
  settings true (row.take s.head.length)
    ++ settings (startsBehind true (row.take (s.head ++ x).length)) (row.drop (s.head ++ x).length)

/-- What the lines of the file that are no lines of the body ask for. -/
def outsideFlags (x : List Char) : Option Directives :=
  (s.outsideSettings x).foldlM Directives.applyLine {}

/-- What stays of a file when the body `x` of the span is exchanged for `x'`. -/
structure Kept (x x' : List Char) (ss : List Statement) : Prop where
  /-- The statements around the body, but for the numbers of the lines behind it. -/
  statements : ∃ pre post, split s.front = .ok pre ∧ split s.behind = .ok post
    ∧ ss = pre ++ (s.own x ++ post.map (Statement.moved (s.depth x)))
    ∧ split (s.fill x') = .ok (pre ++ (s.own x' ++ post.map (Statement.moved (s.depth x'))))
  /-- The new body asks for nothing. -/
  flags : (directives (s.fill x')).toOption = s.outsideFlags x'
  /-- Where both bodies leave the reading of the whole file at the same point, all other lines ask
  for the same. -/
  outside : (({} : Lexer).after (s.head ++ x')).mode = (({} : Lexer).after (s.head ++ x)).mode →
    s.outsideSettings x' = s.outsideSettings x

variable {s} {x x' : List Char} {ss : List Statement}

theorem body_ends (hx : EndsLine x) : EndsLine (s.head ++ x) :=
  EndsLine.append_lines (a := []) s.head_ends hx

theorem classify_fill (hx : EndsLine x) : classify (s.fill x)
    = classify (s.head ++ x) ++ (({} : Lexer).after (s.head ++ x)).glyphs s.tail := by
  unfold fill
  rw [← List.append_assoc, classify_behind_lines (body_ends hx)]

/-- The settings outside are those in front and those behind, where code goes on if the reading of
all in front of that is in code. -/
theorem outsideSettings_eq (hx : EndsLine x) : s.outsideSettings x
    = settings true (classify s.head)
      ++ settings (startsBehind true (classify (s.head ++ x)))
        ((({} : Lexer).after (s.head ++ x)).glyphs s.tail) := by
  have hlength : ∀ t : List Char, (classify t).length = t.length := by
    intro t
    rw [← List.length_map (f := Glyph.char), classify_map_char]
  unfold outsideSettings
  dsimp only
  rw [classify_fill hx, ← hlength (s.head ++ x), List.take_left, List.drop_left,
    classify_behind_lines s.head_ends, ← hlength s.head, List.append_assoc, List.take_left]

/-- The settings of a file with the span are those outside, where the body has none. -/
theorem settings_fill (hx : EndsLine x) (hquiet : Unaddressed x) :
    settings true (classify (s.fill x)) = s.outsideSettings x := by
  have hhead : EndsLine ((classify s.head).map Glyph.char) := by
    rw [classify_map_char]
    exact s.head_ends
  have hbody : EndsLine ((classify (s.head ++ x)).map Glyph.char) := by
    rw [classify_map_char]
    exact body_ends hx
  have hnone : settings true (classify (s.head ++ x)) = settings true (classify s.head) := by
    rw [classify_behind_lines s.head_ends, settings_append hhead,
      hquiet.settings_eq (glyphs_map_char _ x), List.append_nil]
  rw [outsideSettings_eq hx, classify_fill hx, settings_append hbody, hnone]

/-- **The body of a manual span is of no account around it.** -/
theorem body_exchanged (hx : IsBody x) (hx' : EndsLine x') (hquiet : Unaddressed x')
    (hss : split (s.fill x) = .ok ss) : s.Kept x x' ss := by
  refine ⟨?_, ?_, fun hmode => ?_⟩
  · obtain ⟨pre, post, hpre, hpost, rfl⟩ := (split_span hx).1 hss
    refine ⟨pre, post, hpre, hpost, rfl, ?_⟩
    exact (split_span ⟨hx', hquiet.unmarked⟩).2 ⟨pre, post, hpre, hpost, rfl⟩
  · rw [toOption_directives, settings_fill hx' hquiet]
    rfl
  · have hlast : ∀ {y}, EndsLine y → (s.head ++ y).getLast? = some '\n' := by
      intro y hy
      refine (body_ends hy).resolve_left fun hnil => ?_
      have hhead := (List.append_eq_nil_iff.1 hnil).1
      unfold head at hhead
      simp at hhead
    have halike := Lexer.alike_of_mode (hlast hx') (hlast hx.ends) hmode
    have hreads := (Lexer.alike_reads halike s.tail []).1
    rw [Lexer.reads_whole, Lexer.reads_whole] at hreads
    rw [outsideSettings_eq hx', outsideSettings_eq hx.ends, hreads,
      startsBehind_lines (Or.inr (hlast hx')), startsBehind_lines (Or.inr (hlast hx.ends)), hmode]

/-- A manual statement, with a line of settings and another statement behind it. -/
def beforeSettings : ManualSpan where
  front := []
  start := "-- sqlsync: startStatement".toList
  finish := "-- sqlsync: endStatement".toList
  behind := "\n-- sqlsync: splitStatements=true\nSELECT 2;".toList
  front_ends := by decide
  start_inline := by decide
  start_marker := by decide
  finish_inline := by decide
  finish_marker := by decide
  behind_begins := by decide

/-- A body with an apostrophe in a comment takes the place of another, and the line of settings is
still read. -/
theorem body_exchanged_comment :
    beforeSettings.Kept "SELECT 1;\n".toList "SELECT 3; -- it's\nSELECT 4;\n".toList
        [⟨"SELECT 1;", some 2⟩, ⟨"-- sqlsync: splitStatements=true\nSELECT 2;", some 4⟩]
      ∧ beforeSettings.outsideFlags "SELECT 3; -- it's\nSELECT 4;\n".toList
        = some { splitStatements := true } := by
  have hkept := @body_exchanged beforeSettings "SELECT 1;\n".toList
    "SELECT 3; -- it's\nSELECT 4;\n".toList
    [⟨"SELECT 1;", some 2⟩, ⟨"-- sqlsync: splitStatements=true\nSELECT 2;", some 4⟩]
    ⟨by decide, by decide +kernel⟩ (by decide) (by decide +kernel) (by decide +kernel)
  refine ⟨hkept, ?_⟩
  unfold outsideFlags
  rw [hkept.outside (by decide +kernel)]
  decide +kernel

/-- A manual statement, with a line of settings in a literal behind it. -/
def beforeLiteral : ManualSpan :=
  { beforeSettings with
    behind := "\nSELECT '\n-- sqlsync: splitStatements=true\n';".toList
    behind_begins := by decide }

/-- **A literal that the body leaves open is closed behind it for the settings**, but not for the
statements: a line in a literal is read as one of settings. -/
theorem flags_behind_literal :
    split (beforeLiteral.fill "SELECT 1\n".toList)
        = .ok [⟨"SELECT 1", some 2⟩, ⟨"SELECT '\n-- sqlsync: splitStatements=true\n';", some 4⟩]
      ∧ split (beforeLiteral.fill "SELECT '\n".toList)
        = .ok [⟨"SELECT '", some 2⟩, ⟨"SELECT '\n-- sqlsync: splitStatements=true\n';", some 4⟩]
      ∧ Unaddressed "SELECT '\n".toList
      ∧ beforeLiteral.outsideFlags "SELECT 1\n".toList = some {}
      ∧ beforeLiteral.outsideFlags "SELECT '\n".toList = some { splitStatements := true }
      ∧ directives (beforeLiteral.fill "SELECT '\n".toList) = .ok { splitStatements := true } := by
  decide +kernel

end ManualSpan

end SchemaDrift.Sql
