/-
  SchemaDrift.Proofs.Sql.Closing
  ──────────────────────────────
  **THE END OF A CLOSED TEXT.**

  Behind the last glyph of a closed text that is no gap there is code, whatever white space and
  comments follow (`closing`).  So white space can be cut off there (`core_trim`), and a semicolon
  put in: it becomes one more glyph of code, and changes the class of nothing.

      terminate_closed        the glyphs of a text with its closing semicolon
      terminate_terminate     no second semicolon
      classify_line           what follows in the next line
-/

import SchemaDrift.Proofs.Sql.Gaps

namespace SchemaDrift.Sql

open SchemaDrift.Text

/-! ## §1. White space at the end. -/

/-- White space behind a text changes nothing in front of it. -/
theorem classify_blanks_behind {b : List Char} (hb : ∀ c ∈ b, isBlank c = true) (s : List Char) :
    ∃ y, classify (s ++ b) = classify s ++ y ∧ y.map Glyph.char = b := by
  have hreads : ({} : Lexer).reads s b = classify s := by
    cases b with
    | nil => exact Lexer.reads_whole _ _
    | cons c b =>
      have hc : isBlank c = true := hb c List.mem_cons_self
      exact (Lexer.reads_firm Lexer.delimited_start (isStop_of_isBlank hc)
        (ne_of_isBlank hc (by decide)) (ne_of_isBlank hc (by decide)) s b).1
  refine ⟨(({} : Lexer).past s b).glyphs b, ?_, glyphs_map_char _ _⟩
  rw [← hreads]
  exact Lexer.glyphs_append _ _ _

/-- A text whose last glyph is no comment ends in code, if nothing quoted is open there. -/
theorem idle_of_last {t : List Char} (hinside : (({} : Lexer).after t).inside ≠ .quoted)
    (hlast : ∀ g ∈ (classify t).getLast?, g.cls ≠ .comment) : (({} : Lexer).after t).Idle := by
  have hsound : (({} : Lexer).after t).Sound [] := by
    rw [← Lexer.past_whole]
    exact Lexer.sound_past (Lexer.sound_start (t ++ []))
  refine Lexer.idle_of_inside hsound ?_
  cases hl : (classify t).getLast? with
  | none =>
    have hnil := congrArg (List.map Glyph.char) (List.getLast?_eq_none_iff.1 hl)
    rw [classify_map_char] at hnil
    rw [hnil]
    rfl
  | some g =>
    have hreads : (({} : Lexer).reads t []).getLast? = some g := by
      rw [Lexer.reads_whole]
      exact hl
    have hleaves := Lexer.past_leaves (Lexer.sound_start (t ++ [])) hreads
    rw [Lexer.past_whole] at hleaves
    rcases hleaves with hin | ⟨hin, -⟩
    · cases hcls : g.cls with
      | code => exact hin.trans hcls
      | quoted => exact absurd (hin.trans hcls) hinside
      | comment => exact absurd hcls (hlast g hl)
    · exact hin

/-- A text whose last glyph is no comment ends in code, if it is closed. -/
theorem idle_at_end {t : List Char} (ht : unclosed? t = none)
    (hlast : ∀ g ∈ (classify t).getLast?, g.cls ≠ .comment) : (({} : Lexer).after t).Idle := by
  refine idle_of_last ?_ hlast
  rw [unclosed?_eq_none] at ht
  rw [Lexer.inside_after (Lexer.sound_start t)]
  revert ht
  cases (({} : Lexer).after t).mode <;> simp [Mode.enclosure?, Mode.cls]

/-- White space at the end of a text is a gap, unless something quoted is open there. -/
theorem gaps_at_end {t : List Char} (hclosed : unclosed? t = none) {x y : List Glyph}
    (h : classify t = x ++ y) (hy : ∀ g ∈ y, isBlank g.char = true) : ∀ g ∈ y, g.isGap = true := by
  have hchain := classify_neighbours t
  rw [h] at hchain
  -- what is quoted goes on to the end
  have hquoted : ∀ y : List Glyph, y.IsChain Neighbours → (∀ g ∈ y, isBlank g.char = true) →
      ∀ g ∈ y, g.cls = .quoted → ∃ l, y.getLast? = some l ∧ l.cls = .quoted := by
    intro y
    induction y with
    | nil => exact fun _ _ g hg => nomatch hg
    | cons k y ih =>
      intro hchain hblank g hg hcls
      obtain ⟨hk, hbehind⟩ := List.forall_mem_cons.1 hblank
      cases y with
      | nil =>
        rw [List.mem_singleton.1 hg] at hcls
        exact ⟨k, rfl, hcls⟩
      | cons k' y =>
        obtain ⟨hnext, hrest⟩ := List.isChain_cons_cons.1 hchain
        rw [List.getLast?_cons_cons]
        rcases List.mem_cons.1 hg with rfl | hg
        · exact ih hrest hbehind k' List.mem_cons_self (hnext.quoted hcls (isQuote_of_isBlank hk))
        · exact ih hrest hbehind g hg hcls
  intro g hg
  cases hcls : g.cls with
  | comment => exact isGap_comment hcls
  | code => exact (isGap_code hcls).trans (hy g hg)
  | quoted =>
    obtain ⟨l, hlast, hl⟩ := hquoted y (List.isChain_append.1 hchain).2.1 hy g hg hcls
    have hlast' : (({} : Lexer).reads t []).getLast? = some l := by
      rw [Lexer.reads_whole, show ({} : Lexer).glyphs t = x ++ y from h, List.getLast?_append, hlast]
      rfl
    have hleaves := Lexer.past_leaves (Lexer.sound_start (t ++ [])) hlast'
    rw [Lexer.past_whole, Lexer.inside_after (Lexer.sound_start t)] at hleaves
    have hmem : l ∈ y := List.mem_of_getLast? hlast
    rw [unclosed?_eq_none] at hclosed
    rcases hleaves with hmode | ⟨-, hcloses⟩
    · rw [hl] at hmode
      revert hclosed hmode
      cases (({} : Lexer).after t).mode <;> simp [Mode.enclosure?, Mode.cls]
    · rw [hl] at hcloses
      have hstop := isQuote_of_isBlank (hy l hmem)
      rw [show CharClass.quoted.closes l.char = isQuote l.char from rfl, hstop] at hcloses
      cases hcloses

/-- A closed text is closed without the white space at its end, which is gaps. -/
theorem closed_of_blanks {s b : List Char} (hb : ∀ c ∈ b, isBlank c = true)
    (h : unclosed? (s ++ b) = none) : unclosed? s = none
      ∧ ∃ y, classify (s ++ b) = classify s ++ y ∧ y.map Glyph.char = b
        ∧ ∀ g ∈ y, g.isGap = true := by
  obtain ⟨y, hwhole, hy⟩ := classify_blanks_behind hb s
  have hgaps : ∀ g ∈ y, g.isGap = true := by
    refine gaps_at_end h hwhole fun g hg => hb _ ?_
    rw [← hy]
    exact List.mem_map_of_mem hg
  refine ⟨?_, y, hwhole, hy, hgaps⟩
  cases b with
  | nil => rwa [List.append_nil] at h
  | cons c b =>
    have hc : isBlank c = true := hb c List.mem_cons_self
    obtain ⟨-, hmode, -⟩ := Lexer.reads_firm Lexer.delimited_start (isStop_of_isBlank hc)
      (ne_of_isBlank hc (by decide)) (ne_of_isBlank hc (by decide)) s b
    rw [unclosed?_eq_none, ← hmode]
    by_contra hopen
    have hpast := Lexer.past_enclosed (Lexer.delimited_past Lexer.delimited_start s (c :: b)) hb
      hopen []
    rw [unclosed?_eq_none, Lexer.after_append, ← Lexer.past_whole, hpast] at h
    exact hopen h

/-- A closed text without the white space at its end. -/
theorem classify_trimEnd {t : List Char} (ht : unclosed? t = none) :
    unclosed? (trimEnd t) = none
      ∧ ∃ y, classify t = classify (trimEnd t) ++ y ∧ ∀ g ∈ y, g.isGap = true := by
  obtain ⟨b, hsplit, hb⟩ := exists_trimmed isBlank t
  have ht' := ht
  rw [hsplit] at ht'
  obtain ⟨hclosed, y, hwhole, -, hy⟩ := closed_of_blanks hb ht'
  refine ⟨hclosed, y, ?_, hy⟩
  conv_lhs => rw [hsplit]
  exact hwhole

/-- What is cut off around a closed text are gaps. -/
theorem classify_trim {t : List Char} (ht : unclosed? t = none) :
    ∃ x y, classify t = x ++ (classify (trim t) ++ y) ∧ (∀ g ∈ x, g.isGap = true)
      ∧ ∀ g ∈ y, g.isGap = true := by
  obtain ⟨a, b, hsplit, ha, hb⟩ := exists_trim t
  have hsettled := settled_blanks ha (trim t ++ b)
  rw [← hsplit] at hsettled
  have hfront : ∀ g ∈ classify a, g.isGap = true := by
    intro g hg
    rw [classify_blanks ha] at hg
    obtain ⟨c, hc, rfl⟩ := List.mem_map.1 hg
    exact ha c hc
  have hclosed : unclosed? (trim t ++ b) = none := by
    obtain ⟨-, hfresh⟩ := Lexer.fresh_blanks (q := trim t ++ b) Lexer.fresh_start ha
    have hpast := (Lexer.alike_reads (Lexer.alike_start hfresh) (trim t ++ b) []).2
    rw [Lexer.past_whole, Lexer.past_whole] at hpast
    rw [unclosed?_eq_none, ← hpast.mode, ← Lexer.after_append, ← hsplit]
    exact unclosed?_eq_none.1 ht
  obtain ⟨-, y, hwhole, -, hy⟩ := closed_of_blanks hb hclosed
  exact ⟨classify a, y, by rw [hsettled, hwhole], hfront, hy⟩

/-- A closed text has the same core without the white space around it. -/
theorem core_trim {t : List Char} (ht : unclosed? t = none) :
    core (classify (trim t)) = core (classify t) := by
  obtain ⟨x, y, hsplit, hx, hy⟩ := classify_trim ht
  rw [hsplit, core_between hx hy]

/-! ## §2. Gaps at the end. -/

/-- What begins a gap in code. -/
theorem Lexer.gap_begins {s : Lexer} {c : Char} {rest : List Char} (hs : s.Sound (c :: rest))
    (hidle : s.Idle) (hgap : (⟨c, (s.advance c rest).1⟩ : Glyph).isGap = true) :
    isIdentChar c = false ∧ isQuote c = false := by
  rcases Lexer.advance_enters hs with hcls | ⟨-, hopens⟩ | ⟨hcomment, -⟩
  · rw [Lexer.inside_idle hidle] at hcls
    have hc := (isBlank_of_isGap hgap (by rw [hcls]; exact fun h => nomatch h)).1
    exact ⟨isIdentChar_of_isBlank hc, isQuote_of_isBlank hc⟩
  · have hcases : isBlank c = true ∨ c = '-' ∨ c = '/' := by
      cases hcls : (s.advance c rest).1 with
      | code => exact Or.inl (isBlank_of_isGap hgap (by rw [hcls]; exact fun h => nomatch h)).1
      | quoted => exact absurd hcls (isGap_not_quoted hgap)
      | comment =>
        rw [hcls] at hopens
        simpa [CharClass.opens] using Or.inr (a := isBlank c = true) hopens
    rcases hcases with hc | rfl | rfl
    · exact ⟨isIdentChar_of_isBlank hc, isQuote_of_isBlank hc⟩
    · decide +kernel
    · decide +kernel
  · rw [Lexer.inside_idle hidle] at hcomment
    cases hcomment

/-- **A closed text comes apart in front of the gaps at its end**, and is in code there. -/
theorem closing {t : List Char} {front back : List Glyph} (ht : unclosed? t = none)
    (h : classify t = front ++ back) (hfront : ∀ g ∈ front.getLast?, g.isGap = false)
    (hback : ∀ g ∈ back, g.isGap = true) :
    classify (front.map Glyph.char) = front ∧ (({} : Lexer).after (front.map Glyph.char)).Idle
      ∧ classify (back.map Glyph.char) = back ∧ unclosed? (back.map Glyph.char) = none := by
  obtain ⟨htext, hreads, hglyphs⟩ := Lexer.glyphs_split h
  cases back with
  | nil =>
    rw [List.map_nil, List.append_nil] at htext
    rw [List.append_nil] at h
    rw [← htext]
    refine ⟨h, idle_at_end ht fun g hg => ?_, rfl, rfl⟩
    rw [h] at hg
    exact not_comment_of_not_gap (hfront g hg)
  | cons x a =>
    have hwhole : classify t = front ++ ((x :: a) ++ []) := by rw [h, List.append_nil]
    obtain ⟨hclassify, hidle, -, -⟩ := parting hwhole ⟨List.cons_ne_nil x a, hback⟩ hfront begins_nil
    -- the front is read in the text as it is alone, and what follows as at the start
    have hpart : ({} : Lexer).past (front.map Glyph.char) ((x :: a).map Glyph.char)
        = ({} : Lexer).after (front.map Glyph.char) := by
      have hbefore : (({} : Lexer).past (front.map Glyph.char) ((x :: a).map Glyph.char)).Idle := by
        refine Lexer.idle_before_gap (htext ▸ Lexer.sound_start t) Lexer.fresh_start.toIdle ?_ ?_
        · rw [← List.map_cons, hreads]
          exact hfront
        · rw [List.map_cons, Lexer.glyphs] at hglyphs
          rw [(List.cons.inj hglyphs).1]
          exact hback x List.mem_cons_self
      exact (Lexer.reads_part Lexer.delimited_start hbefore).2
    have hsound := Lexer.sound_past (htext ▸ Lexer.sound_start t : ({} : Lexer).Sound
      (front.map Glyph.char ++ (x :: a).map Glyph.char))
    rw [hpart] at hglyphs hsound
    rw [List.map_cons] at hglyphs hsound ⊢
    obtain ⟨hident, hquote⟩ := Lexer.gap_begins hsound hidle (by
      rw [Lexer.glyphs] at hglyphs
      rw [(List.cons.inj hglyphs).1]
      exact hback x List.mem_cons_self)
    obtain ⟨hcls, halike⟩ := Lexer.alike_behind hidle Lexer.fresh_start.toIdle hident hquote
      (a.map Glyph.char)
    obtain ⟨hsame, hafter⟩ := Lexer.alike_reads halike (a.map Glyph.char) []
    rw [Lexer.reads_whole, Lexer.reads_whole] at hsame
    rw [Lexer.past_whole, Lexer.past_whole] at hafter
    refine ⟨hclassify, hidle, ?_, ?_⟩
    · rw [Lexer.glyphs, hcls, hsame] at hglyphs
      exact hglyphs
    · rw [unclosed?_eq_none] at ht ⊢
      rw [htext, Lexer.after_append, hpart, List.map_cons, Lexer.after, hafter.mode] at ht
      exact ht

/-! ## §3. The closing semicolon. -/

/-- The glyphs with a semicolon behind them, unless they end in one. -/
def closeRow (gs : List Glyph) : List Glyph :=
  if gs.getLast? = some ⟨';', .code⟩ then gs else gs ++ [⟨';', .code⟩]

theorem closeRow_append (a : List Glyph) {gs : List Glyph} (hgs : gs ≠ []) :
    closeRow (a ++ gs) = a ++ closeRow gs := by
  unfold closeRow
  rw [List.getLast?_append_of_ne_nil a hgs]
  split
  · rfl
  · rw [List.append_assoc]

theorem closeRow_last (gs : List Glyph) : ∃ front, closeRow gs = front ++ [⟨';', .code⟩] := by
  unfold closeRow
  split
  · next h => exact ⟨gs.dropLast, (List.dropLast_append_getLast? _ h).symm⟩
  · exact ⟨gs, rfl⟩

/-- Respaced rows end in a semicolon both or neither. -/
theorem closeRow_respaced {gs hs : List Glyph} (h : Respaced gs hs) (hends : Begins gs.reverse) :
    Respaced (closeRow gs) (closeRow hs) := by
  have hlast : gs.getLast? = hs.getLast? := by
    rw [← List.head?_reverse, ← List.head?_reverse]
    exact h.reverse.head_eq hends
  unfold closeRow
  rw [hlast]
  split
  · exact h
  · exact h.append (.refl _)

/-- A semicolon closes a text in front of the gaps at its end. -/
theorem classify_closed {t : List Char} {front back : List Glyph} (ht : unclosed? t = none)
    (h : classify t = front ++ back) (hfront : ∀ g ∈ front.getLast?, g.isGap = false)
    (hback : ∀ g ∈ back, g.isGap = true) :
    classify (front.map Glyph.char ++ ';' :: back.map Glyph.char)
        = (front ++ [⟨';', .code⟩]) ++ back
      ∧ unclosed? (front.map Glyph.char ++ ';' :: back.map Glyph.char) = none := by
  obtain ⟨hclassify, hidle, hbehind, hclosed⟩ := closing ht h hfront hback
  obtain ⟨hsemicolon, hsettled⟩ := settled_semicolon hidle
  rw [show front.map Glyph.char ++ ';' :: back.map Glyph.char
    = (front.map Glyph.char ++ [';']) ++ back.map Glyph.char by simp]
  refine ⟨by rw [hsettled, hsemicolon, hclassify, hbehind], ?_⟩
  have hfresh := (Lexer.reads_semicolon hidle (back.map Glyph.char)).2
  rw [unclosed?_eq_none, Lexer.after_append, (Lexer.glyphs_fresh hfresh _).2]
  exact unclosed?_eq_none.1 hclosed

theorem not_gap_of_isTrailing {g : Glyph} (hg : g.isTrailing = false) : g.isGap = false := by
  unfold Glyph.isTrailing at hg
  cases hcls : g.cls with
  | comment => simp [hcls] at hg
  | quoted => exact isGap_quoted hcls
  | code =>
    rw [isGap_code hcls]
    simpa [hcls] using hg

/-- **The closing semicolon of a closed text** is code, and stands in front of the gaps at its end;
a text that holds nothing but comments gets none. -/
theorem terminate_closed {t : List Char} (ht : unclosed? t = none) :
    (∀ g ∈ classify (trimEnd t), g.isTrailing = true) ∧ terminate t = trimEnd t
      ∨ ∃ front g back, classify (trimEnd t) = (front ++ [g]) ++ back ∧ g.isTrailing = false
        ∧ (∀ h ∈ back, h.isGap = true)
        ∧ classify (terminate t) = closeRow (front ++ [g]) ++ back
        ∧ unclosed? (terminate t) = none := by
  have hclosed := (classify_trimEnd ht).1
  rcases trailing_or_last (classify (trimEnd t)) with hall | ⟨front, g, back, hwhole, hg, hall⟩
  · exact Or.inl ⟨hall, terminate_trailing hall⟩
  · right
    have hdef := terminate_last hwhole hg hall
    have hgaps : ∀ h ∈ back, h.isGap = true := (classify_semicolon hwhole hg hall).1
    have hlast : ∀ h ∈ (front ++ [g]).getLast?, h.isGap = false := by
      intro h hh
      rw [List.getLast?_concat] at hh
      cases hh
      exact not_gap_of_isTrailing hg
    rw [List.append_cons] at hwhole
    obtain ⟨hclassify, hafter⟩ := classify_closed hclosed hwhole hlast hgaps
    refine ⟨front, g, back, hwhole, hg, hgaps, ?_⟩
    unfold closeRow
    rw [List.getLast?_concat]
    -- the last character that counts is a semicolon, or gets one behind it
    by_cases hcode : g.isCode ';' = true
    · rw [if_pos hcode] at hdef
      rw [if_pos (congrArg some (Glyph.isCode_iff.1 hcode)), hdef]
      exact ⟨hwhole, hclosed⟩
    · rw [if_neg hcode] at hdef
      rw [if_neg fun heq => hcode (Glyph.isCode_iff.2 (Option.some.inj heq)), hdef]
      exact ⟨hclassify, hafter⟩

/-- The closing semicolon of a closed text that says something. -/
theorem terminate_saying {t : List Char} (ht : unclosed? t = none) (hsaid : normalize t ≠ []) :
    ∃ front g back, classify (trimEnd t) = (front ++ [g]) ++ back ∧ g.isTrailing = false
      ∧ (∀ h ∈ back, h.isGap = true)
      ∧ classify (terminate t) = closeRow (front ++ [g]) ++ back := by
  rcases terminate_closed ht with ⟨hall, -⟩ | ⟨front, g, back, hsplit, hg, hback, hterminate, -⟩
  · exfalso
    rw [← normalize_trimEnd] at hsaid
    obtain ⟨g, hg, hsaid⟩ := normalize_ne_nil.1 hsaid
    have htrailing := hall g hg
    rw [not_trailing_of_saying hsaid] at htrailing
    cases htrailing
  · exact ⟨front, g, back, hsplit, hg, hback, hterminate⟩

/-- The core of a closed text that says something, with its closing semicolon. -/
theorem core_terminate {t : List Char} (ht : unclosed? t = none) (hsaid : normalize t ≠ []) :
    core (classify (terminate t)) = closeRow (core (classify t)) := by
  obtain ⟨y, hwhole, hy⟩ := (classify_trimEnd ht).2
  obtain ⟨front, g, back, hsplit, hg, hback, hterminate⟩ := terminate_saying ht hsaid
  -- the gaps in front, which the core leaves out
  obtain ⟨a, m, hfront, ha, hm⟩ : ∃ a m, front = a ++ m ∧ (∀ h ∈ a, h.isGap = true)
      ∧ Begins (m ++ [g]) := by
    refine ⟨front.takeWhile Glyph.isGap, front.dropWhile Glyph.isGap,
      List.takeWhile_append_dropWhile.symm, List.all_eq_true.1 List.all_takeWhile, ?_⟩
    intro h hh
    rw [List.head?_append] at hh
    cases hd : (front.dropWhile Glyph.isGap).head? with
    | none =>
      rw [hd] at hh
      cases hh
      exact not_gap_of_isTrailing hg
    | some x =>
      rw [hd] at hh
      cases hh
      have hhead := List.head?_dropWhile_not Glyph.isGap front
      rw [hd] at hhead
      simpa using hhead
  have hends : ∀ x : Glyph, x.isGap = false → ∀ l : List Glyph, Begins (l ++ [x]).reverse := by
    intro x hx l
    rw [List.reverse_concat]
    exact begins_cons hx
  obtain ⟨l, hl⟩ := closeRow_last (m ++ [g])
  have hne : m ++ [g] ≠ [] := List.append_ne_nil_of_right_ne_nil m (List.cons_ne_nil g [])
  have hbegins : Begins (closeRow (m ++ [g])) := by
    unfold closeRow
    split
    · exact hm
    · intro h hh
      rw [List.head?_append_of_ne_nil _ hne] at hh
      exact hm h hh
  rw [hterminate, hwhole, hsplit, hfront, List.append_assoc a m, closeRow_append a hne,
    List.append_assoc a, List.append_assoc, List.append_assoc a,
    core_eq ha hback hbegins (by rw [hl]; exact hends _ (by decide) l),
    core_eq ha (fun h hh => (List.mem_append.1 hh).elim (hback h) (hy h)) hm
      (hends g (not_gap_of_isTrailing hg) m)]

theorem isTrailing_of_isGap {g : Glyph} (hg : g.isGap = true) : g.isTrailing = true := by
  by_contra h
  rw [not_gap_of_isTrailing (by simpa using h)] at hg
  cases hg

/-- A closed text is closed with its closing semicolon. -/
theorem closed_terminate {t : List Char} (ht : unclosed? t = none) :
    unclosed? (terminate t) = none := by
  rcases terminate_closed ht with ⟨-, h⟩ | ⟨front, g, back, -, -, -, -, h⟩
  · rw [h]
    exact (classify_trimEnd ht).1
  · exact h

/-- White space at the end makes no difference to the closing semicolon. -/
theorem terminate_trimEnd (t : List Char) : terminate (trimEnd t) = terminate t := by
  have hagain : trimEnd (trimEnd t) = trimEnd t := List.rdropWhile_idempotent _ _
  rw [terminate_eq, terminate_eq t, hagain]

/-- **The closing semicolon is put in once.** -/
theorem terminate_terminate {t : List Char} (ht : unclosed? t = none) :
    terminate (terminate t) = terminate t := by
  rcases terminate_closed ht with ⟨-, h⟩ | ⟨front, g, back, hsplit, -, hback, hterminate, -⟩
  · rw [h, terminate_trimEnd, h]
  · obtain ⟨l, hl⟩ := closeRow_last (front ++ [g])
    rw [hl] at hterminate
    generalize terminate t = u at hterminate ⊢
    have htext : u = List.map Glyph.char ((l ++ [⟨';', .code⟩]) ++ back) := by
      rw [← hterminate, classify_map_char]
    -- the text ends with its semicolon or with what was behind it, and never in a blank
    have hlast : ∀ c ∈ u.getLast?, isBlank c = false := by
      intro c hc
      rw [htext, List.map_append, List.getLast?_append] at hc
      cases hb : (List.map Glyph.char back).getLast? with
      | none =>
        rw [hb, List.map_append, List.map_singleton, List.getLast?_concat] at hc
        cases hc
        decide
      | some d =>
        have hold : (trimEnd t).getLast? = some d := by
          rw [← classify_map_char (trimEnd t), hsplit, List.map_append, List.getLast?_append, hb]
          rfl
        rw [hb] at hc
        cases hc
        exact trimEndWhile_last hold
    have hself : trimEnd u = u := by
      refine List.rdropWhile_eq_self_iff.2 fun hne => ?_
      rw [hlast _ (List.getLast?_eq_some_getLast hne)]
      exact Bool.false_ne_true
    rw [List.append_assoc] at hterminate
    rw [terminate_last (hself.symm ▸ hterminate) (by decide)
      fun h hh => isTrailing_of_isGap (hback h hh), if_pos (by decide), hself]

/-! ## §4. The next line. -/

/-- **A line feed behind a closed text is code**, and what follows it is read by itself. -/
theorem classify_line {t : List Char} (ht : unclosed? t = none) (w : List Char) :
    classify (t ++ '\n' :: w) = classify t ++ ⟨'\n', .code⟩ :: classify w
      ∧ (unclosed? (t ++ '\n' :: w) = none ↔ unclosed? w = none) := by
  have hmode : (({} : Lexer).after t).mode = .code ∨ (({} : Lexer).after t).mode = .lineComment := by
    rw [unclosed?_eq_none] at ht
    revert ht
    cases (({} : Lexer).after t).mode <;> simp [Mode.enclosure?]
  have hheld := Lexer.held_after (Lexer.sound_start t)
  obtain ⟨hreads, -, hpast⟩ := Lexer.reads_firm Lexer.delimited_start (c := '\n')
    (isStop_of_isBlank (by decide)) (by decide) (by decide) t w
  have hstate : ({} : Lexer).past t ('\n' :: w) = ({} : Lexer).after t :=
    hpast (by rcases hmode with h | h <;> rw [h] <;> exact fun hcls => nomatch hcls)
  have hsound := Lexer.sound_past (Lexer.sound_start (t ++ '\n' :: w))
  rw [hstate] at hsound
  have hcode : ((({} : Lexer).after t).advance '\n' w).1 = .code := by
    rw [Lexer.advance_decided hheld]
    rcases hmode with h | h
    · rw [Lexer.decision_eq (.code (by simp) (by simp) (by decide) (by decide) (by simp)) h]
    · rw [Lexer.decision_eq (.lineEnd rfl) h]
  obtain ⟨hglyphs, hafter⟩ := Lexer.glyphs_fresh
    (Lexer.fresh_advance hsound (by decide +kernel) (by decide) hcode) w
  constructor
  · show ({} : Lexer).glyphs _ = _
    rw [Lexer.glyphs_append, hreads, hstate, Lexer.glyphs, hcode, hglyphs]
    rfl
  · rw [unclosed?_eq_none, unclosed?_eq_none, Lexer.after_append, hstate, Lexer.after, hafter]

/-- What is between the gaps of lines that follow each other. -/
theorem core_lines {t w : List Char} (ht : unclosed? t = none) (hfirst : core (classify t) ≠ [])
    (hbehind : core (classify w) ≠ []) : ∃ r, IsRun r ∧ core (classify (t ++ '\n' :: w))
      = core (classify t) ++ (r ++ core (classify w)) := by
  obtain ⟨a, b, hsplit, ha, hb⟩ := exists_core (classify t)
  obtain ⟨a', b', hsplit', ha', hb'⟩ := exists_core (classify w)
  obtain ⟨hbegins, -⟩ := begins_core (classify t)
  obtain ⟨-, hends⟩ := begins_core (classify w)
  generalize core (classify t) = m at hsplit hbegins hfirst ⊢
  generalize core (classify w) = m' at hsplit' hends hbehind ⊢
  -- the line feed stands among the gaps behind the one and in front of the other
  refine ⟨b ++ ⟨'\n', .code⟩ :: a', ⟨by simp, fun g hg => ?_⟩, ?_⟩
  · rcases List.mem_append.1 hg with hg | hg
    · exact hb g hg
    · rcases List.mem_cons.1 hg with rfl | hg
      · exact isGap_feed
      · exact ha' g hg
  · rw [(classify_line ht w).1, hsplit, hsplit', show (a ++ (m ++ b)) ++ ⟨'\n', .code⟩ ::
      (a' ++ (m' ++ b')) = a ++ ((m ++ ((b ++ ⟨'\n', .code⟩ :: a') ++ m')) ++ b') by simp]
    refine core_eq ha hb' ?_ ?_
    · intro g hg
      rw [List.head?_append_of_ne_nil _ hfirst] at hg
      exact hbegins g hg
    · rw [List.reverse_append, List.reverse_append, List.append_assoc]
      intro g hg
      rw [List.head?_append_of_ne_nil _ (mt List.reverse_eq_nil_iff.1 hbehind)] at hg
      exact hends g hg

end SchemaDrift.Sql
