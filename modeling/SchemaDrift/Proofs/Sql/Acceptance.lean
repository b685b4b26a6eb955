/-
  SchemaDrift.Proofs.Sql.Acceptance
  ─────────────────────────────────
  **WHICH FILES CAN BE CUT INTO STATEMENTS, AND WHERE THE OTHERS GO WRONG.**

  The marker lines of a file divide it into stretches outside of manual statements
  (`Stretch`) and what stands between a start and an end.  A file splits exactly if its
  markers come in pairs and nothing is open at the end of a stretch (`split_accepts`).

      StillOpen             an enclosure that is entered and never left
      exists_stillOpen      what is open at the end of a text was entered somewhere
      takesTurns_iff        markers in turn are pairs
      outline_stretches     the regions that are not manual are the stretches

  The line of the fault is that of the character that entered what is still open.
-/

import SchemaDrift.Proofs.Sql.Coverage

namespace SchemaDrift.Sql

open SchemaDrift.Text

/-! ## §1. What is entered and never left. -/

/-- The character that an enclosure begins with. -/
def Enclosure.opener : Enclosure → Char
  | .literal => '\''
  | .identifier => '"'
  | .dollarBlock => '$'
  | .blockComment => '/'

/-- In the text `front ++ c :: behind`, `c` stands in code and begins an enclosure, which is
not left at any place up to the end. -/
structure StillOpen (what : Enclosure) (front : List Char) (c : Char) (behind : List Char) :
    Prop where
  opener : c = what.opener
  code : (({} : Lexer).past front (c :: behind)).Idle
  inside : ∀ p q, behind = p ++ q →
    (({} : Lexer).past (front ++ c :: p) q).mode.enclosure? = some what

/-- An enclosure is entered by its opener. -/
theorem Lexer.opener_of_enters {s : Lexer} {c : Char} {rest : List Char} (hs : s.Idle)
    {what : Enclosure} (h : (s.advance c rest).2.mode.enclosure? = some what) :
    c = what.opener := by
  rw [advance_decided hs.held] at h
  have hdecides := s.decides c rest
  rw [hs.mode] at hdecides
  generalize s.decision c rest = d at hdecides h
  cases hdecides with
  | slashStar hc | openLiteral hc | openIdentifier hc | openBlock hc =>
    cases h
    exact hc
  | hyphens | code => cases h

/-- Outside of code a character leads into no other enclosure. -/
theorem Lexer.enclosure_before {s : Lexer} {c : Char} {rest : List Char} {what : Enclosure}
    (hs : ¬s.Idle) (h : (s.advance c rest).2.mode.enclosure? = some what) :
    s.mode.enclosure? = some what := by
  cases hn : s.held with
  | succ n =>
    rw [advance_held hn] at h
    exact h
  | zero =>
    rw [advance_decided hn] at h
    have hcode : s.mode ≠ .code := fun hm => hs ⟨hm, hn⟩
    have hdecides := s.decides c rest
    generalize s.mode = m, s.decision c rest = d at hdecides hcode h ⊢
    cases hdecides with
    | hyphens | slashStar | openLiteral | openIdentifier | openBlock | code =>
      exact absurd rfl hcode
    | lineEnd | lineComment | closeComment | closeLiteral | closeIdentifier | closeBlock => cases h
    | closeInner | openInner | blockComment | escape | doubledSingle | literal | doubledDouble
    | identifier | block => exact h

/-- What is open at the end of a text is open all along and was entered before it, or it is
entered in the text at the place that `openingLine` tells. -/
theorem Lexer.opened_or_entered {what : Enclosure} (t : List Char) (s : Lexer)
    (line opened : Nat) (h : (s.after t).mode.enclosure? = some what) :
    (∀ p q, t = p ++ q → (s.past p q).mode.enclosure? = some what)
        ∧ s.openingLine line opened t = opened
      ∨ ∃ front c behind, t = front ++ c :: behind ∧ c = what.opener
        ∧ (s.past front (c :: behind)).Idle
        ∧ (∀ p q, behind = p ++ q → (s.past (front ++ c :: p) q).mode.enclosure? = some what)
        ∧ s.openingLine line opened t = line + lineFeeds front := by
  induction t generalizing s line opened with
  | nil =>
    refine Or.inl ⟨fun p q hpq => ?_, rfl⟩
    obtain ⟨rfl, rfl⟩ := List.append_eq_nil_iff.1 hpq.symm
    exact h
  | cons c rest ih =>
    rw [openingLine]
    generalize hline : (if c = '\n' then line + 1 else line) = line'
    generalize hopened : (if (decide (s.held = 0) && decide (s.mode = .code)
        && decide ((s.advance c rest).2.mode ≠ .code)) = true then line else opened) = opened'
    rcases ih (s.advance c rest).2 line' opened' h
      with ⟨hall, hsame⟩ | ⟨front, d, behind, rfl, hopener, hidle, hinside, hat⟩
    · have hnext : (s.advance c rest).2.mode.enclosure? = some what := hall [] rest rfl
      have hleft : (s.advance c rest).2.mode ≠ .code := by
        intro hcode
        rw [hcode] at hnext
        cases hnext
      rw [hsame, ← hopened]
      by_cases hs : s.Idle
      · -- the enclosure is entered right here
        refine Or.inr ⟨[], c, rest, rfl, opener_of_enters hs hnext, hs, ?_, ?_⟩
        · rintro p q rfl
          exact hall p q rfl
        · rw [if_pos (by simp [hs.held, hs.mode, hleft])]
          rfl
      · refine Or.inl ⟨fun p q hpq => ?_, ?_⟩
        · cases p with
          | nil => exact enclosure_before hs hnext
          | cons x p =>
            obtain ⟨rfl, rfl⟩ := List.cons.inj hpq
            exact hall p q rfl
        · refine if_neg fun hleaves => hs ?_
          simp only [Bool.and_eq_true, decide_eq_true_eq] at hleaves
          exact ⟨hleaves.1.2, hleaves.1.1⟩
    · refine Or.inr ⟨c :: front, d, behind, rfl, hopener, hidle, ?_, ?_⟩
      · rintro p q rfl
        rw [List.cons_append, past_cons, List.append_assoc, List.cons_append]
        exact hinside p q rfl
      · rw [hat, ← hline]
        unfold lineFeeds
        rw [List.count_cons]
        by_cases hc : c = '\n'
        · rw [if_pos hc, if_pos (by simpa using hc)]
          omega
        · rw [if_neg hc, if_neg (by simpa using hc)]
          omega

/-- **What is open at the end of a text was entered at a place of it**, in the line that is
told of it. -/
theorem exists_stillOpen {t : List Char} {what : Enclosure} {line : Nat}
    (h : unclosed? t = some (what, line)) : ∃ front c behind, t = front ++ c :: behind
      ∧ StillOpen what front c behind ∧ line = 1 + lineFeeds front := by
  unfold unclosed? at h
  obtain ⟨e, he, heq⟩ := Option.map_eq_some_iff.1 h
  obtain ⟨rfl, rfl⟩ := Prod.mk.inj heq
  rcases Lexer.opened_or_entered t {} 1 1 he
    with ⟨hall, -⟩ | ⟨front, c, behind, rfl, hopener, hidle, hinside, hline⟩
  · cases hall [] t rfl
  · exact ⟨front, c, behind, rfl, ⟨hopener, hidle, hinside⟩, hline⟩

/-- A line feed in front of a text opens nothing and closes nothing. -/
theorem past_feed (p q : List Char) :
    (({} : Lexer).past ('\n' :: p) q).Alike (({} : Lexer).past p q) := by
  have hblank : ∀ c ∈ ['\n'], isBlank c = true := List.forall_mem_singleton.2 (by decide)
  obtain ⟨-, hfresh⟩ := Lexer.fresh_blanks (q := p ++ q) Lexer.fresh_start hblank
  exact (Lexer.alike_reads (Lexer.alike_start hfresh) p q).2

/-- What is open behind a line feed is open without it. -/
theorem StillOpen.of_feed {what : Enclosure} {front behind : List Char} {c : Char}
    (h : StillOpen what ('\n' :: front) c behind) : StillOpen what front c behind := by
  have hcode := past_feed front (c :: behind)
  refine ⟨h.opener, ⟨?_, ?_⟩, ?_⟩
  · exact hcode.mode.symm.trans h.code.mode
  · exact hcode.held.symm.trans h.code.held
  · intro p q hpq
    rw [← (past_feed (front ++ c :: p) q).mode]
    exact h.inside p q hpq

/-- The line feed of the marker line in front of a text, if there is one. -/
def IsLead (lead : List Char) : Prop := lead = [] ∨ lead = ['\n']

/-- What is open at the end of a text behind a marker line was entered in that text. -/
theorem exists_stillOpen_lead {lead s : List Char} (hlead : IsLead lead) {what : Enclosure}
    {line : Nat} (h : unclosed? (lead ++ s) = some (what, line)) :
    ∃ front c behind, s = front ++ c :: behind ∧ StillOpen what front c behind
      ∧ line = 1 + lineFeeds (lead ++ front) := by
  obtain ⟨front, c, behind, htext, hopen, hline⟩ := exists_stillOpen h
  rcases hlead with rfl | rfl
  · exact ⟨front, c, behind, htext, hopen, hline⟩
  · cases front with
    | nil =>
      -- a line feed enters nothing
      have hc : '\n' = what.opener := (List.cons.inj htext).1.trans hopen.opener
      cases what with
      | literal => cases hc
      | identifier => cases hc
      | dollarBlock => cases hc
      | blockComment => cases hc
    | cons x front =>
      obtain ⟨rfl, rfl⟩ := List.cons.inj htext
      exact ⟨front, c, behind, rfl, hopen.of_feed, hline⟩

/-- The text ends outside of every enclosure. -/
def EndsOutside (s : List Char) : Prop := (({} : Lexer).after s).mode.enclosure? = none

/-- A text behind a marker line is closed if the text is. -/
theorem unclosed?_lead {lead s : List Char} (hlead : IsLead lead) :
    unclosed? (lead ++ s) = none ↔ EndsOutside s := by
  rw [unclosed?_eq_none]
  unfold EndsOutside
  rcases hlead with rfl | rfl
  · rfl
  · have hmode := (past_feed s []).mode
    rw [Lexer.past_whole, Lexer.past_whole] at hmode
    rw [List.singleton_append, hmode]

/-! ## §2. Markers in turn. -/

/-- The markers start and finish manual statements in turn, and none is open at the end;
`manual` tells whether one is open before the first of them. -/
def TakesTurns (manual : Bool) : List Marker → Prop
  | [] => manual = false
  | m :: ms => m = (if manual then .finish else .start) ∧ TakesTurns (!manual) ms

/-- **Markers that take turns are pairs of a start and an end.** -/
theorem takesTurns_iff (ms : List Marker) :
    TakesTurns false ms ↔ ∃ n, ms = (List.replicate n [Marker.start, .finish]).flatten := by
  constructor
  · -- the markers go two by two
    suffices hpairs : ∀ k, ∀ ms : List Marker, ms.length ≤ k → TakesTurns false ms →
        ∃ n, ms = (List.replicate n [Marker.start, .finish]).flatten from
      hpairs ms.length ms le_rfl
    intro k
    induction k with
    | zero =>
      intro ms hlength _
      exact ⟨0, List.length_eq_zero_iff.1 (by omega)⟩
    | succ k ih =>
      intro ms hlength hturns
      match ms, hturns with
      | [], _ => exact ⟨0, rfl⟩
      | [_], ⟨_, hopen⟩ => cases hopen
      | first :: second :: ms, ⟨hfirst, hsecond, hturns⟩ =>
        simp only [List.length_cons] at hlength
        obtain ⟨n, rfl⟩ := ih ms (by omega) hturns
        rw [hfirst, hsecond]
        exact ⟨n + 1, rfl⟩
  · rintro ⟨n, rfl⟩
    induction n with
    | zero => rfl
    | succ n ih => exact ⟨rfl, rfl, ih⟩

/-! ## §3. Stretches outside of manual statements. -/

/-- The lines `ms` between `ls` and `rs` are all the lines between an end marker, or the
beginning, and a start marker, or the end. -/
structure Outside (ls ms rs : List (List Char)) : Prop where
  begins : ∀ l ∈ ls.getLast?, marker? l = some .finish
  unmarked : ∀ l ∈ ms, marker? l = none
  ends : ∀ l ∈ rs.head?, marker? l = some .start

/-- The text `s` is a stretch of `t` outside of manual statements, with `before` in front. -/
def Stretch (t before s : List Char) : Prop :=
  ∃ ls ms rs, lines t = ls ++ (ms ++ rs) ∧ before = ls.flatten ∧ s = ms.flatten
    ∧ Outside ls ms rs

/-- Lines without a marker are one stretch. -/
theorem Outside.whole {us ls ms rs : List (List Char)} (h : Outside ls ms rs)
    (hlines : us = ls ++ (ms ++ rs)) (hus : ∀ l ∈ us, marker? l = none) :
    ls = [] ∧ ms = us ∧ rs = [] := by
  have hls : ls = [] := by
    rcases List.eq_nil_or_concat ls with hnil | ⟨ls', l, rfl⟩
    · exact hnil
    · rw [List.concat_eq_append] at h hlines
      have hmarker := h.begins l (List.getLast?_concat ..)
      rw [hus l (by rw [hlines]; simp)] at hmarker
      cases hmarker
  have hrs : rs = [] := by
    cases rs with
    | nil => rfl
    | cons l rs =>
      have hmarker := h.ends l rfl
      rw [hus l (by rw [hlines]; simp)] at hmarker
      cases hmarker
  subst hls hrs
  rw [List.nil_append, List.append_nil] at hlines
  exact ⟨rfl, hlines.symm, rfl⟩

/-- Of lines with a marker line among them, a stretch is the lines up to the first marker,
or it stands behind that. -/
theorem Outside.first_or_behind {us rest ls ms rs : List (List Char)} {l : List Char} {m : Marker}
    (h : Outside ls ms rs) (hlines : us ++ l :: rest = ls ++ (ms ++ rs))
    (hus : ∀ l ∈ us, marker? l = none) (hl : marker? l = some m) :
    ls = [] ∧ ms = us ∧ rs = l :: rest
      ∨ ∃ ls', ls = us ++ l :: ls' ∧ rest = ls' ++ (ms ++ rs) := by
  -- the first marker is `l`: a stretch ends there, or is behind it altogether
  induction us generalizing ls ms with
  | nil =>
    cases ls with
    | nil =>
      cases ms with
      | nil => exact Or.inl ⟨rfl, rfl, hlines.symm⟩
      | cons x ms =>
        obtain ⟨rfl, -⟩ := List.cons.inj hlines
        rw [h.unmarked l List.mem_cons_self] at hl
        cases hl
    | cons x ls =>
      obtain ⟨rfl, hrest⟩ := List.cons.inj hlines
      exact Or.inr ⟨ls, rfl, hrest⟩
  | cons u us ih =>
    have hu : marker? u = none := hus u List.mem_cons_self
    cases ls with
    | nil =>
      cases ms with
      | nil =>
        obtain rfl : rs = u :: (us ++ l :: rest) := hlines.symm
        have hstart := h.ends u rfl
        rw [hu] at hstart
        cases hstart
      | cons x ms =>
        obtain ⟨rfl, htail⟩ := List.cons.inj hlines
        have hnext : Outside [] ms rs :=
          ⟨h.begins, fun l hl => h.unmarked l (List.mem_cons_of_mem _ hl), h.ends⟩
        rcases ih hnext htail fun l hl => hus l (List.mem_cons_of_mem _ hl)
          with ⟨-, rfl, rfl⟩ | ⟨ls', hnil, -⟩
        · exact Or.inl ⟨rfl, rfl, rfl⟩
        · simp at hnil
    | cons x ls =>
      obtain ⟨rfl, htail⟩ := List.cons.inj hlines
      have hnext : Outside ls ms rs := by
        refine ⟨fun l hl => ?_, h.unmarked, h.ends⟩
        cases ls with
        | nil => cases hl
        | cons y ls => exact h.begins l hl
      rcases ih hnext htail fun l hl => hus l (List.mem_cons_of_mem _ hl)
        with ⟨rfl, -, -⟩ | ⟨ls', rfl, hrest⟩
      · have hfinish := h.begins u rfl
        rw [hu] at hfinish
        cases hfinish
      · exact Or.inr ⟨ls', rfl, hrest⟩

/-- A stretch behind a marker line, with the lines up to that in front. -/
theorem Outside.behind {us ls ms rs : List (List Char)} {l : List Char} (h : Outside ls ms rs)
    (hl : ls = [] → marker? l = some .finish) : Outside (us ++ l :: ls) ms rs := by
  refine ⟨fun x hx => ?_, h.unmarked, h.ends⟩
  rw [List.getLast?_append, List.getLast?_cons] at hx
  cases ls with
  | nil =>
    obtain rfl : l = x := by simpa using hx
    exact hl rfl
  | cons y ls =>
    refine h.begins x ?_
    simpa [List.getLast?_cons] using hx

/-- Such a stretch is one of the lines behind the marker line too. -/
theorem Outside.of_behind {us ls ms rs : List (List Char)} {l : List Char}
    (h : Outside (us ++ l :: ls) ms rs) :
    Outside ls ms rs ∧ (ls = [] → marker? l = some .finish) := by
  have hlast := h.begins
  rw [List.getLast?_append, List.getLast?_cons] at hlast
  refine ⟨⟨fun x hx => hlast x ?_, h.unmarked, h.ends⟩, ?_⟩
  · rw [hx]
    rfl
  · rintro rfl
    exact hlast l rfl

/-! ## §4. Regions are stretches. -/

/-- The region `r` is the stretch `s`, which `before` stands in front of, with the line feed
of a marker line in front at most. -/
def IsRegion (r : Region) (before s : List Char) : Prop :=
  r.manual = false ∧ ∃ lead, IsLead lead ∧ r.text = lead ++ s
    ∧ r.line + lineFeeds lead = 1 + lineFeeds before

/-- What the outline behind the lines `ls` owes to the lines `rest`: the markers are in turn
if there is no fault, a region that is not manual is a stretch, and if there is no fault
every stretch is a region. -/
structure OutlineFits (o : Outline) (manual : Bool) (ls rest : List (List Char)) : Prop where
  turns : o.fault = none ↔ TakesTurns manual (rest.filterMap marker?)
  stretches : ∀ r ∈ o.regions, r.manual = false → ∃ xs ms rs, rest = xs ++ (ms ++ rs)
    ∧ (xs = [] → manual = false) ∧ Outside xs ms rs ∧ IsRegion r (ls ++ xs).flatten ms.flatten
  regions : o.fault = none → ∀ xs ms rs, rest = xs ++ (ms ++ rs) → (xs = [] → manual = false) →
    Outside xs ms rs → ∃ r ∈ o.regions, IsRegion r (ls ++ xs).flatten ms.flatten
  closed : ∀ what line, o.fault ≠ some (.unterminated what line)

/-- Behind the last marker. -/
theorem outlineFits_last {r : Region} {ls us : List (List Char)}
    (hus : ∀ l ∈ us, marker? l = none)
    (hr : r.manual = false → IsRegion r ls.flatten us.flatten) :
    OutlineFits (outlineFrom r []) r.manual ls us := by
  have hmarks : us.filterMap marker? = [] := List.filterMap_eq_nil_iff.2 hus
  -- a manual region is left open, which is the fault; any other takes the lines that are left
  cases hm : r.manual with
  | true =>
    have hfault : outlineFrom r [] = ⟨[], some (.unclosedStartMarker r.line)⟩ := by
      unfold outlineFrom
      rw [hm]
      rfl
    rw [hfault]
    refine ⟨?_, fun r hr => absurd hr List.not_mem_nil, fun h => ?_, fun _ _ h => ?_⟩
    · rw [hmarks]
      exact ⟨fun h => absurd h (Option.some_ne_none _), fun h => Bool.noConfusion h⟩
    · cases h
    · cases h
  | false =>
    have hdone : outlineFrom r [] = ⟨[r], none⟩ := by
      unfold outlineFrom
      rw [hm]
      rfl
    rw [hdone]
    refine ⟨?_, ?_, ?_, fun _ _ h => ?_⟩
    · rw [hmarks]
      exact ⟨fun _ => rfl, fun _ => rfl⟩
    · intro r' hr' _
      obtain rfl := List.mem_singleton.1 hr'
      refine ⟨[], us, [], by rw [List.append_nil, List.nil_append], fun _ => rfl,
        ⟨fun l hl => absurd hl (Option.not_mem_none l), hus,
          fun l hl => absurd hl (Option.not_mem_none l)⟩, ?_⟩
      rw [List.append_nil]
      exact hr hm
    · intro _ xs ms rs hlines _ houtside
      obtain ⟨rfl, rfl, rfl⟩ := houtside.whole hlines hus
      refine ⟨r, List.mem_singleton.2 rfl, ?_⟩
      rw [List.append_nil]
      exact hr hm
    · cases h

/-- A marker in turn ends a region and begins the next. -/
theorem outlineFrom_turn {r : Region} {mark : Mark} (marks : List Mark)
    (h : mark.marker = if r.manual then .finish else .start) : outlineFrom r (mark :: marks)
      = ⟨r :: (outlineFrom ⟨!r.manual, mark.line, mark.text⟩ marks).regions,
          (outlineFrom ⟨!r.manual, mark.line, mark.text⟩ marks).fault⟩ := by
  rw [outlineFrom, h]
  cases r.manual with
  | true => rfl
  | false => rfl

/-- At a misplaced marker the outline ends. -/
theorem outlineFrom_misplaced {r : Region} {mark : Mark} (marks : List Mark)
    (h : mark.marker ≠ if r.manual then .finish else .start) :
    ∃ fault, outlineFrom r (mark :: marks) = ⟨[], some fault⟩
      ∧ ∀ what line, fault ≠ .unterminated what line := by
  unfold outlineFrom
  cases hm : mark.marker with
  | start =>
    cases hmanual : r.manual with
    | true => exact ⟨_, rfl, fun _ _ h => by cases h⟩
    | false =>
      rw [hm, hmanual] at h
      exact absurd rfl h
  | finish =>
    cases hmanual : r.manual with
    | true =>
      rw [hm, hmanual] at h
      exact absurd rfl h
    | false => exact ⟨_, rfl, fun _ _ h => by cases h⟩

/-- In front of a marker line. -/
theorem outlineFits_cons {r : Region} {mark : Mark} {marks : List Mark} {l : List Char}
    {ls us rest : List (List Char)} (hus : ∀ l ∈ us, marker? l = none)
    (hl : marker? l = some mark.marker)
    (hr : r.manual = false → IsRegion r ls.flatten us.flatten)
    (h : OutlineFits (outlineFrom ⟨!r.manual, mark.line, mark.text⟩ marks) (!r.manual)
      (ls ++ (us ++ [l])) rest) :
    OutlineFits (outlineFrom r (mark :: marks)) r.manual ls (us ++ l :: rest) := by
  have hmarks : (us ++ l :: rest).filterMap marker? = mark.marker :: rest.filterMap marker? := by
    rw [List.filterMap_append, List.filterMap_eq_nil_iff.2 hus, List.filterMap_cons_some hl]
    rfl
  have hbefore : ∀ xs, (ls ++ (us ++ [l])) ++ xs = ls ++ (us ++ l :: xs) := by simp
  by_cases hturn : mark.marker = if r.manual then .finish else .start
  · have hnext := outlineFrom_turn marks hturn
    have hopens : r.manual = true → marker? l = some .finish := by
      intro hm
      rw [hl, hturn, hm]
      rfl
    rw [hnext]
    refine ⟨?_, ?_, ?_, h.closed⟩
    · rw [hmarks]
      exact h.turns.trans ⟨fun hrest => ⟨hturn, hrest⟩, fun hboth => hboth.2⟩
    · intro r' hr' hm
      rcases List.mem_cons.1 hr' with rfl | hr'
      · refine ⟨[], us, l :: rest, rfl, fun _ => hm,
          ⟨fun l hl => absurd hl (Option.not_mem_none l), hus, ?_⟩, ?_⟩
        · intro x hx
          obtain rfl := Option.some.inj hx
          rw [hl, hturn, hm]
          rfl
        · rw [List.append_nil]
          exact hr hm
      · obtain ⟨xs, ms, rs, rfl, hmanual, houtside, hregion⟩ := h.stretches r' hr' hm
        refine ⟨us ++ l :: xs, ms, rs, by simp, fun hnil => absurd hnil (by simp),
          houtside.behind fun hnil => hopens (by simpa using hmanual hnil), ?_⟩
        rw [← hbefore]
        exact hregion
    · intro hfault xs ms rs hlines hmanual houtside
      rcases houtside.first_or_behind hlines hus hl with ⟨rfl, rfl, rfl⟩ | ⟨xs, rfl, rfl⟩
      · refine ⟨r, List.mem_cons_self, ?_⟩
        rw [List.append_nil]
        exact hr (hmanual rfl)
      · obtain ⟨houtside, hfinish⟩ := houtside.of_behind
        have hmanual' : xs = [] → (!r.manual) = false := by
          intro hnil
          have hmarker := hfinish hnil
          rw [hl, hturn] at hmarker
          cases hm : r.manual with
          | true => rfl
          | false =>
            rw [hm] at hmarker
            cases hmarker
        obtain ⟨r', hr', hregion⟩ := h.regions hfault xs ms rs rfl hmanual' houtside
        rw [hbefore] at hregion
        exact ⟨r', List.mem_cons_of_mem _ hr', hregion⟩
  · -- the marker is misplaced, and the outline ends here
    obtain ⟨fault, hstops, hfault⟩ := outlineFrom_misplaced marks hturn
    rw [hstops]
    refine ⟨?_, fun r hr => absurd hr List.not_mem_nil, fun h => ?_, fun what line h => ?_⟩
    · rw [hmarks]
      exact ⟨fun h => absurd h (Option.some_ne_none _), fun h => absurd h.1 hturn⟩
    · cases h
    · exact hfault what line (Option.some.inj h)

/-- **The regions of a text that are not manual are its stretches outside of manual
statements**, line by line: `lead` is the line feed of the marker line in front. -/
theorem outline_stretches {number line : Nat} {text t : List Char} {marks : List Mark}
    (h : Marks number text marks t) {manual : Bool} {lead : List Char} {ls : List (List Char)}
    (hlead : IsLead lead) (hline : line + lineFeeds lead = number)
    (hnumber : number = 1 + lineFeeds ls.flatten) :
    OutlineFits (outlineFrom ⟨manual, line, lead ++ text⟩ marks) manual ls (lines t) := by
  have hwhole : ∀ u, (lines u).flatten = u := flatten_splitAfter _
  have hbehind : ∀ (ls : List (List Char)) text line,
      lineFeeds (ls ++ (lines text ++ [line])).flatten
        = lineFeeds ls.flatten + lineFeeds text + line.count '\n' := by
    intro ls text line
    rw [List.flatten_append, List.flatten_append, hwhole, lineFeeds_append, lineFeeds_append,
      Nat.add_assoc]
    simp [lineFeeds]
  -- from marker to marker, with the line feeds counted along
  induction h generalizing line manual lead ls with
  | @none number text hlines =>
    exact outlineFits_last (r := ⟨manual, line, lead ++ text⟩) hlines
      fun hm => ⟨hm, lead, hlead, by rw [hwhole], hline.trans hnumber⟩
  | @last number text markerLine m hlines hends hmark hfeed =>
    have hne : markerLine ≠ [] := by
      rintro rfl
      cases hmark
    rw [lines_append hends, lines_last hfeed hne]
    refine outlineFits_cons (r := ⟨manual, line, lead ++ text⟩) hlines hmark
      (fun hm => ⟨hm, lead, hlead, by rw [hwhole], hline.trans hnumber⟩) ?_
    have hfeeds : number + lineFeeds text
        = 1 + lineFeeds (ls ++ (lines text ++ [markerLine])).flatten := by
      rw [hbehind, hnumber, List.count_eq_zero.2 hfeed]
      omega
    refine outlineFits_last (r := ⟨!manual, number + lineFeeds text, []⟩) (List.forall_mem_nil _)
      fun hm => ⟨hm, [], Or.inl rfl, rfl, hfeeds⟩
  | @line number text markerLine text' t m marks hlines hends hmark hfeed hmore ih =>
    rw [lines_append hends, lines_line hfeed]
    refine outlineFits_cons (r := ⟨manual, line, lead ++ text⟩) hlines ?_
      (fun hm => ⟨hm, lead, hlead, by rw [hwhole], hline.trans hnumber⟩) ?_
    · rw [marker?_append (breaks_feed [])]
      exact hmark
    · have hone : ['\n'].count '\n' = 1 := rfl
      refine ih (Or.inr rfl) rfl ?_
      rw [hbehind, List.count_append, List.count_eq_zero.2 hfeed, hnumber]
      omega

/-! ## §5. Files. -/

/-- A region that is a stretch has statements if that ends outside of every enclosure. -/
theorem IsRegion.statements_iff {r : Region} {before s : List Char} (h : IsRegion r before s) :
    (∃ ss, r.statements = .ok ss) ↔ EndsOutside s := by
  obtain ⟨hmanual, lead, hlead, htext, -⟩ := h
  rw [← unclosed?_lead hlead, ← htext]
  unfold Region.statements
  rw [hmanual]
  cases hopen : unclosed? r.text with
  | none => exact ⟨fun _ => rfl, fun _ => ⟨_, rfl⟩⟩
  | some found => exact ⟨fun ⟨ss, hss⟩ => (by cases hss), fun hnone => (by cases hnone)⟩

/-- **A fault of a region is in the line in which that was entered that is left open.** -/
theorem IsRegion.unterminated {r : Region} {before s : List Char} (h : IsRegion r before s)
    {what : Enclosure} {line : Nat} (herror : r.statements = .error (.unterminated what line)) :
    ∃ front c behind, s = front ++ c :: behind ∧ StillOpen what front c behind
      ∧ line = 1 + lineFeeds (before ++ front) := by
  obtain ⟨hmanual, lead, hlead, htext, hline⟩ := h
  unfold Region.statements at herror
  rw [hmanual] at herror
  cases hopen : unclosed? r.text with
  | none =>
    rw [hopen] at herror
    cases herror
  | some found =>
    obtain ⟨what', inner⟩ := found
    rw [hopen] at herror
    obtain ⟨rfl, rfl⟩ := SplitError.unterminated.inj (Except.error.inj herror)
    rw [htext] at hopen
    obtain ⟨front, c, behind, hs, hstill, rfl⟩ := exists_stillOpen_lead hlead hopen
    refine ⟨front, c, behind, hs, hstill, ?_⟩
    rw [lineFeeds_append, lineFeeds_append]
    omega

/-- A manual region is one statement at most, and always has it. -/
theorem statements_manual {r : Region} (h : r.manual = true) :
    r.statements = .ok (statementsOf r.line [r.text]) := by
  unfold Region.statements
  rw [h]
  rfl

/-- Regions have statements together if each one has. -/
theorem splitRegions_ok_iff (rs : List Region) :
    (∃ ss, splitRegions rs = .ok ss) ↔ ∀ r ∈ rs, ∃ ss, r.statements = .ok ss := by
  induction rs with
  | nil => exact ⟨fun _ => List.forall_mem_nil _, fun _ => ⟨[], rfl⟩⟩
  | cons r rs ih =>
    rw [List.forall_mem_cons, ← ih]
    constructor
    · rintro ⟨ss, hss⟩
      obtain ⟨here, behind, hhere, hbehind, -⟩ := splitRegions_cons_ok.1 hss
      exact ⟨⟨here, hhere⟩, behind, hbehind⟩
    · rintro ⟨⟨here, hhere⟩, behind, hbehind⟩
      exact ⟨here ++ behind, splitRegions_cons_ok.2 ⟨here, behind, hhere, hbehind, rfl⟩⟩

/-- A fault of regions is one of theirs. -/
theorem splitRegions_error {rs : List Region} {e : SplitError}
    (h : splitRegions rs = .error e) : ∃ r ∈ rs, r.statements = .error e := by
  induction rs with
  | nil => cases h
  | cons r rs ih =>
    rw [splitRegions] at h
    rcases bind_eq_error.1 h with hhere | ⟨here, -, h⟩
    · exact ⟨r, List.mem_cons_self, hhere⟩
    · rcases bind_eq_error.1 h with hbehind | ⟨behind, -, h⟩
      · obtain ⟨r', hr', herror⟩ := ih hbehind
        exact ⟨r', List.mem_cons_of_mem _ hr', herror⟩
      · cases h

/-- The outline of a text. -/
theorem outline_fits_lines (t : List Char) : OutlineFits (outline t) false [] (lines t) := by
  unfold outline
  exact outline_stretches (marks_marksFrom t 1) (Or.inl rfl) rfl rfl

/-- A text splits if no marker is misplaced and all of its regions have statements. -/
theorem split_ok_iff (t : List Char) : (∃ ss, split t = .ok ss) ↔
    (outline t).fault = none ∧ ∀ r ∈ (outline t).regions, ∃ ss, r.statements = .ok ss := by
  rw [← splitRegions_ok_iff]
  simp only [split_ok, exists_and_left]

/-- Something left open is told of a region. -/
theorem split_unterminated {t : List Char} {what : Enclosure} {line : Nat}
    (h : split t = .error (.unterminated what line)) :
    ∃ r ∈ (outline t).regions, r.statements = .error (.unterminated what line) := by
  unfold split at h
  rcases bind_eq_error.1 h with hregions | ⟨statements, -, h⟩
  · exact splitRegions_error hregions
  · split at h
    · next fault hfault =>
      rw [Except.error.inj h] at hfault
      exact absurd hfault ((outline_fits_lines t).closed what line)
    · cases h

/-- **A file is cut into statements exactly if its marker lines are pairs of a start and an
end and nothing is left open in a stretch outside of these**; and what is reported as left
open is entered in the line that is reported. -/
theorem split_accepts (t : List Char) :
    ((∃ ss, split t = .ok ss) ↔
      (∃ n, (lines t).filterMap marker? = (List.replicate n [Marker.start, .finish]).flatten)
        ∧ ∀ before s, Stretch t before s → EndsOutside s)
    ∧ ∀ what line, split t = .error (.unterminated what line) →
      ∃ before front c behind, Stretch t before (front ++ c :: behind)
        ∧ StillOpen what front c behind ∧ line = 1 + lineFeeds (before ++ front) := by
  have hfits := outline_fits_lines t
  refine ⟨?_, ?_⟩
  · rw [split_ok_iff, hfits.turns, takesTurns_iff]
    refine and_congr_right fun hmarkers => ?_
    have hfault : (outline t).fault = none := hfits.turns.2 ((takesTurns_iff _).2 hmarkers)
    constructor
    · rintro hregions before s ⟨ls, ms, rs, hlines, rfl, rfl, houtside⟩
      obtain ⟨r, hr, hregion⟩ := hfits.regions hfault ls ms rs hlines (fun _ => rfl) houtside
      exact hregion.statements_iff.1 (hregions r hr)
    · intro hclosed r hr
      cases hm : r.manual with
      | true => exact ⟨_, statements_manual hm⟩
      | false =>
        obtain ⟨ls, ms, rs, hlines, -, houtside, hregion⟩ := hfits.stretches r hr hm
        exact hregion.statements_iff.2
          (hclosed _ _ ⟨ls, ms, rs, hlines, rfl, rfl, houtside⟩)
  · -- a manual region is one piece, and never unterminated
    intro what line herror
    obtain ⟨r, hr, hunterminated⟩ := split_unterminated herror
    have hm : r.manual = false := by
      cases hm : r.manual with
      | false => rfl
      | true =>
        rw [statements_manual hm] at hunterminated
        cases hunterminated
    obtain ⟨ls, ms, rs, hlines, -, houtside, hregion⟩ := hfits.stretches r hr hm
    obtain ⟨front, c, behind, htext, hopen, hline⟩ := hregion.unterminated hunterminated
    exact ⟨ls.flatten, front, c, behind, ⟨ls, ms, rs, hlines, rfl, htext.symm, houtside⟩, hopen,
      hline⟩

/-- A comment that is closed once too rarely, behind a manual statement with open quotes. -/
theorem split_accepts_open_comment :
    let text := ("SELECT 1;\n-- sqlsync: startStatement\n'\n-- sqlsync: endStatement\n"
      ++ "SELECT 'a\n' /*\n/* b */").toList
    split text = .error (.unterminated .blockComment 6)
      ∧ ∃ before front c behind, Stretch text before (front ++ c :: behind)
        ∧ StillOpen .blockComment front c behind ∧ 6 = 1 + lineFeeds (before ++ front) := by
  intro text
  have herror : split text = .error (.unterminated .blockComment 6) := by
    have hcases : (split text).map (fun _ => ()) = .error (.unterminated .blockComment 6) := by
      decide +kernel
    exact map_eq_error.1 hcases
  exact ⟨herror, (split_accepts text).2 .blockComment 6 herror⟩

end SchemaDrift.Sql
