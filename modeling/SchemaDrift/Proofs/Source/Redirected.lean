/-
  SchemaDrift.Proofs.Source.Redirected
  ────────────────────────────────────
  **DIRECTIVES COME AND GO, AND THE STATEMENTS STAY.**

  A file is redirected when lines with directives are put into it or taken out of it, or one
  takes the place of another, and nothing else is touched (`Redirected`).  Each such line has to
  begin in code in its own section: the sections between the marker lines are read one by one.

      SameSaid            what two forms of a section have in common
      sameSaid_delete     gaps taken out where they are set apart
      agree_line          a line with a directive taken out
      Redirected.agree    the statements of a redirected file, up to their normal forms
      ModesAgree          a file of one statement has one identity, however it is treated
-/

import SchemaDrift.Proofs.Migration.Outline
import SchemaDrift.Proofs.Source.Deletion
import SchemaDrift.Proofs.Sql.Inert

namespace SchemaDrift.Sql

open SchemaDrift.Text

/-! ## §1. Whole lines. -/

/-- What follows a text behind which code begins afresh is read as it is by itself. -/
theorem classify_behind {q w : List Char} (hreads : ({} : Lexer).reads q w = classify q)
    (hfresh : (({} : Lexer).past q w).Fresh) : classify (q ++ w) = classify q ++ classify w
      ∧ (({} : Lexer).after (q ++ w)).mode = (({} : Lexer).after w).mode := by
  obtain ⟨hglyphs, hmode⟩ := Lexer.glyphs_fresh hfresh w
  refine ⟨?_, by rw [Lexer.after_append, hmode]⟩
  show ({} : Lexer).glyphs _ = _
  rw [Lexer.glyphs_append, hreads, hglyphs]

/-- Whole lines are read without a look at what is behind them. -/
theorem Lexer.reads_lines {t : List Char} (ht : EndsLine t) (w : List Char) :
    ({} : Lexer).reads t w = classify t := by
  show _ = ({} : Lexer).glyphs t
  rw [← reads_whole]
  rcases ht with rfl | ht
  · rfl
  · obtain ⟨p, rfl⟩ := List.getLast?_eq_some_iff.1 ht
    have hident : isIdentChar '\n' = false := by decide
    obtain ⟨hreads, hpast⟩ := reads_same delimited_start hident p [] w []
    rw [List.nil_append, List.nil_append] at hreads hpast
    rw [reads_concat, reads_concat, hreads, hpast,
      advance_blank (delimited_past delimited_start p _) (by decide) w []]

/-- **What follows whole lines that end in code is read as it is by itself.** -/
theorem classify_lines_append {t : List Char} (ht : EndsLine t) (hcode : (({} : Lexer).after t).Idle)
    (w : List Char) : classify (t ++ w) = classify t ++ classify w
      ∧ (({} : Lexer).after (t ++ w)).mode = (({} : Lexer).after w).mode := by
  refine classify_behind (Lexer.reads_lines ht w) ⟨?_, ?_⟩
  · rw [Lexer.past_lines ht]
    exact hcode
  · rcases ht with rfl | ht
    · rfl
    · rw [Lexer.past_last ht]
      decide

/-- A whole line that is addressed is all gaps, and code goes on behind it. -/
theorem gaps_of_addressed_line {l : List Char} (hl : '\n' ∉ l) (h : isAddressed l = true) :
    (∀ g ∈ classify (l ++ ['\n']), g.isGap = true) ∧ (({} : Lexer).after (l ++ ['\n'])).Idle := by
  obtain ⟨b, b', x, rfl, hb, -⟩ := isAddressed_iff.1 h
  rw [List.mem_append, not_or] at hl
  have hbare : Bare ('-' :: '-' :: (b' ++ ("sqlsync:".toList ++ x))) := ⟨hl.2, Or.inr ⟨_, rfl⟩⟩
  generalize '-' :: '-' :: (b' ++ ("sqlsync:".toList ++ x)) = r at hbare
  obtain ⟨hblank, hfresh⟩ :=
    @Lexer.fresh_blanks _ Lexer.fresh_start b (r ++ ['\n']) hb
  obtain ⟨hgaps, hend⟩ := Lexer.reads_bare hfresh hbare []
  rw [Lexer.reads_whole] at hgaps
  rw [Lexer.past_whole, ← Lexer.after_append] at hend
  rw [List.append_assoc]
  refine ⟨?_, hend.toIdle⟩
  show ∀ g ∈ ({} : Lexer).glyphs _, _
  rw [Lexer.glyphs_append, List.forall_mem_append]
  exact ⟨hblank, hgaps⟩

/-! ## §2. Lines with a directive. -/

/-- A line with a directive is addressed. -/
theorem isAddressed_of_directive {l : List Char} (h : (directiveBody? l).isSome = true) :
    isAddressed l = true := by
  obtain ⟨body, hbody⟩ := Option.isSome_iff_exists.1 h
  obtain ⟨rest, hrest, hbody⟩ := Option.bind_eq_some_iff.1 hbody
  obtain ⟨rest', hrest', -⟩ := Option.bind_eq_some_iff.1 hbody
  unfold isAddressed
  rw [hrest, Option.bind_some, hrest']
  rfl

/-- **A line with a directive is no marker line.** -/
theorem marker?_directive {l : List Char} (h : (directiveBody? l).isSome = true) :
    marker? l = none := by
  by_contra hmarker
  obtain ⟨first, rest, m, r, hfirst, hrest, hword, -⟩ := marker?_ne_none.1 hmarker
  have hpart : ∀ {c : Char} {k s r : List Char}, isBlank c = false →
      indented? (c :: k) s = some r → trimStart s = c :: (k ++ r) := by
    intro c k s r hc hs
    have hblank : ∀ x ∈ s.takeWhile isIndent, isBlank x = true :=
      fun x hx => isBlank_of_isIndent (List.all_eq_true.1 List.all_takeWhile x hx)
    have hwhole := @List.takeWhile_append_dropWhile _ isIndent s
    rw [literally?_eq_some.1 hs, List.cons_append] at hwhole
    rw [← hwhole, trimStart_blanks hblank hc]
  have hhyphens : literally? "--".toList (trimStart l) = some first := by
    rw [literally?_eq_some, hpart (by decide) hfirst]
    rfl
  have hname : literally? "sqlsync:".toList (trimStart first) = some rest := by
    rw [literally?_eq_some, hpart (by decide) hrest]
    rfl
  -- the word of the marker is in front, and is not trimmed
  have hbody : m.word.toList.isPrefixOf (trim rest) = true := by
    rw [List.isPrefixOf_iff_prefix]
    have hstart : trimStart rest = m.word.toList ++ r := by
      cases m with
      | start => exact hpart (by decide) hword
      | finish => exact hpart (by decide) hword
    obtain ⟨u, c, hu, hc⟩ : ∃ u c, m.word.toList = u ++ [c] ∧ isBlank c = false := by
      cases m with
      | start => exact ⟨"startStatemen".toList, 't', by decide, by decide⟩
      | finish => exact ⟨"endStatemen".toList, 't', by decide, by decide⟩
    have hend : trimEnd (u ++ c :: r) = u ++ c :: trimEnd r := by
      unfold trimEnd trimEndWhile
      rw [List.reverse_append, List.reverse_cons, List.append_assoc, List.singleton_append,
        dropWhile_append_cons hc]
      simp
    refine ⟨trimEnd r, ?_⟩
    rw [trim, hstart, hu, List.append_assoc, List.append_assoc, List.singleton_append,
      List.singleton_append, hend]
  unfold directiveBody? at h
  rw [hhyphens] at h
  simp only [Option.bind_some, bind] at h
  rw [hname] at h
  simp only [Option.bind_some] at h
  cases m with
  | start =>
    rw [show "startStatement".toList = Marker.start.word.toList from rfl, hbody] at h
    cases h
  | finish =>
    rw [show "endStatement".toList = Marker.finish.word.toList from rfl, hbody, Bool.or_true] at h
    cases h

/-! ## §3. Sections that say the same. -/

/-- The texts have the same normal forms. -/
def SameForms (us us' : List String) : Prop :=
  us.map (fun u => normalize u.toList) = us'.map fun u => normalize u.toList

theorem SameForms.refl (us : List String) : SameForms us us := rfl

/-- What two forms of a section have in common: both are closed or neither is, and they say the
same, taken for one statement or cut into several. -/
structure SameSaid (x x' : List Char) : Prop where
  closed : unclosed? x = none ↔ unclosed? x' = none
  whole : normalize x = normalize x'
  cut : unclosed? x = none → SameForms (rawTexts (pieces x)) (rawTexts (pieces x'))

theorem SameSaid.refl (x : List Char) : SameSaid x x := ⟨Iff.rfl, rfl, fun _ => rfl⟩

/-- **Gaps can be taken out of a section where they are set apart.** -/
theorem sameSaid_delete {x x' : List Char} {ps ks qs : List Glyph} (hks : IsRun ks)
    (hapart : SetApart ps qs) (hx : classify x = ps ++ (ks ++ qs)) (hx' : classify x' = ps ++ qs)
    (hclosed : unclosed? x = none ↔ unclosed? x' = none) : SameSaid x x' := by
  refine ⟨hclosed, ?_, fun hopen => ?_⟩
  · unfold normalize
    rw [hx, hx']
    have hbeside : ((∃ g ∈ ps.getLast?, g.isGap = true) ∨ ∃ h ∈ qs.head?, h.isGap = true) →
        squeeze false false (ps ++ (ks ++ qs)) = squeeze false false (ps ++ qs) :=
      fun hgap => ((respaced_beside hks hgap).squeeze_eq false false).symm
    rcases hapart with rfl | hgap | hgap | hcloses
    · rw [List.nil_append, List.nil_append, squeeze_gaps_append hks.gaps]
    · rw [hbeside (Or.inl hgap)]
    · rw [hbeside (Or.inr hgap)]
    · rw [normal_append hcloses, normal_append fun g hg => ?_]
      exact (List.mem_append.1 hg).elim (fun hk => Or.inl (hks.gaps g hk)) (hcloses g)
  · -- the rows of what the pieces say are the same, so the pieces are alike one by one
    have hrows := (sayingRows_delete hks (Or.inl hapart)).symm
    rw [← hx, ← hx'] at hrows
    have heach := (agree_of_rows hopen (hclosed.1 hopen) hrows 1).each
    unfold SameForms
    rw [← statementsOf_raws 1, ← statementsOf_raws 1, List.map_map, List.map_map]
    exact heach

/-- The pieces of a section say the same, however it is cut. -/
theorem SameSaid.cutPieces {x x' : List Char} (h : SameSaid x x') {manual : Bool}
    (hclosed : manual = false → unclosed? x = none) :
    SameForms (rawTexts (cutPieces manual x)) (rawTexts (cutPieces manual x')) := by
  cases manual with
  | false => exact h.cut (hclosed rfl)
  | true =>
    unfold SameForms Sql.cutPieces
    rw [if_pos rfl, if_pos rfl, rawTexts_cons, rawTexts_cons, h.whole]
    split
    · rfl
    · rw [List.map_cons, List.map_cons, String.toList_ofList, String.toList_ofList, normalize_trim,
        normalize_trim, h.whole]

/-- The regions are alike, the numbers of their lines apart. -/
def Region.Alike (r r' : Region) : Prop := r.manual = r'.manual ∧ SameSaid r.text r'.text

/-- The marks are alike, the numbers of their lines apart. -/
def Mark.Alike (m m' : Mark) : Prop := m.marker = m'.marker ∧ SameSaid m.text m'.text

theorem Region.Alike.agree {r r' : Region} (h : r.Alike r') :
    Agree SameForms r.statements r'.statements := by
  obtain ⟨hmanual, htext⟩ := h
  have hclosed : (r.manual = false → unclosed? r.text = none)
      ↔ (r'.manual = false → unclosed? r'.text = none) := by
    rw [hmanual, htext.closed]
  refine agree_statements hclosed fun hopen => ?_
  rw [statementsOf_raws, statementsOf_raws, ← hmanual]
  exact htext.cutPieces hopen

/-- Regions that are alike have statements that say the same. -/
theorem agree_alike {rs rs' : List Region} (h : List.Forall₂ Region.Alike rs rs') :
    Agree SameForms (splitRegions rs) (splitRegions rs') := by
  induction h with
  | nil => exact .refl SameForms.refl _
  | cons hr _ ih =>
    refine hr.agree.cons ih fun us us' vs vs' hus hvs => ?_
    unfold SameForms at hus hvs ⊢
    rw [List.map_append, List.map_append, hus, hvs]

/-- **Texts whose marks are alike have statements that say the same.** -/
theorem agree_of_marks {t t' : List Char}
    (htext : SameSaid (marksFrom 1 (lines t)).1 (marksFrom 1 (lines t')).1)
    (hmarks : List.Forall₂ Mark.Alike (marksFrom 1 (lines t)).2 (marksFrom 1 (lines t')).2) :
    Agree SameForms (split t) (split t') := by
  have hmatch : (outline t).Match (List.Forall₂ Region.Alike) (outline t') :=
    outlineFrom_forall₂ ⟨rfl, htext⟩ hmarks
  exact hmatch.agree fun rs rs' hrs => agree_alike hrs

/-- The section of some lines is exchanged for another that says the same. -/
theorem marks_alike {ls ms ms' rs : List (List Char)}
    (hls : ∀ l ∈ ls.getLast?, marker? l ≠ none) (hms : ∀ l ∈ ms, marker? l = none)
    (hms' : ∀ l ∈ ms', marker? l = none) (hrs : ∀ l ∈ rs.head?, marker? l ≠ none)
    (hsaid : ∀ lead, IsLead lead → SameSaid (lead ++ ms.flatten) (lead ++ ms'.flatten)) :
    SameSaid (marksFrom 1 (ls ++ (ms ++ rs))).1 (marksFrom 1 (ls ++ (ms' ++ rs))).1
      ∧ List.Forall₂ Mark.Alike (marksFrom 1 (ls ++ (ms ++ rs))).2
        (marksFrom 1 (ls ++ (ms' ++ rs))).2 := by
  have hsame : ∀ {m m' : Mark}, m.Same m' → m.Alike m' := by
    rintro m m' ⟨hmarker, htext⟩
    exact ⟨hmarker, htext ▸ .refl _⟩
  -- the section is the one in front of all marks, or that of one of them
  rcases marksFrom_exchange hls hms hms' hrs 1 with ⟨htext, htext', hmarks⟩ | ⟨htext, hone⟩
  · rw [htext, htext']
    exact ⟨hsaid [] (Or.inl rfl), hmarks.imp fun _ _ => hsame⟩
  · rw [htext]
    refine ⟨.refl _, ?_⟩
    generalize (marksFrom 1 (ls ++ (ms ++ rs))).2 = marks at hone ⊢
    generalize (marksFrom 1 (ls ++ (ms' ++ rs))).2 = marks' at hone ⊢
    clear htext
    induction hone with
    | here hm hrest =>
      obtain ⟨hmarker, lead, hlead, hs, hs'⟩ := hm
      refine .cons ⟨hmarker, ?_⟩ (hrest.imp fun _ _ => hsame)
      rw [hs, hs']
      exact hsaid lead hlead
    | behind hm _ ih => exact .cons (hsame hm) ih

/-! ## §4. One line. -/

/-- The section that goes on at the end of the text: its lines behind the last marker line. -/
def openSection (t : List Char) : List Char :=
  ((lines t).rtakeWhile fun l => (marker? l).isNone).flatten

/-- What is put behind the text begins in code, read in its section alone. -/
def BeginsInCode (t : List Char) : Prop := (({} : Lexer).after (openSection t)).Idle

/-- `t'` is `t` without one of its lines, which holds a directive and begins in code in its
section; or without the line feed at its very end. -/
inductive Drops : List Char → List Char → Prop where
  | line {p l q : List Char} (hp : EndsLine p) (hl : '\n' ∉ l)
    (hset : (directiveBody? l).isSome = true) (hcode : BeginsInCode p) :
    Drops (p ++ (l ++ '\n' :: q)) (p ++ q)
  | feed {p : List Char} (hp : ¬EndsLine p) (hcode : BeginsInCode (p ++ ['\n'])) :
    Drops (p ++ ['\n']) p

/-- The lines of a text up to its last marker line, and those of its open section. -/
theorem exists_openSection (t : List Char) : ∃ ls ms, lines t = ls ++ ms ∧ openSection t = ms.flatten
    ∧ (∀ l ∈ ls.getLast?, marker? l ≠ none) ∧ ∀ l ∈ ms, marker? l = none := by
  refine ⟨_, _, (List.rdropWhile_append_rtakeWhile (p := fun l => (marker? l).isNone)).symm, rfl,
    fun l hl => ?_, fun l hl => by simpa using List.mem_rtakeWhile_imp hl⟩
  obtain ⟨hne, rfl⟩ := List.mem_getLast?_eq_getLast hl
  have hlast := List.rdropWhile_last_not (fun l => (marker? l).isNone) (lines t) hne
  rwa [Option.isNone_iff_eq_none] at hlast

/-- The lines of a text up to its first marker line, and those from there on. -/
theorem exists_firstSection (t : List Char) : ∃ ms rs, lines t = ms ++ rs
    ∧ (∀ l ∈ ms, marker? l = none) ∧ ∀ l ∈ rs.head?, marker? l ≠ none := by
  refine ⟨_, _, (@List.takeWhile_append_dropWhile _ (fun l => (marker? l).isNone) _).symm,
    fun l hl => by simpa using List.all_eq_true.1 List.all_takeWhile l hl, fun l hl => ?_⟩
  have hnot := List.head?_dropWhile_not (fun l => (marker? l).isNone) (lines t)
  rw [Option.mem_def.1 hl] at hnot
  exact Option.ne_none_iff_isSome.2 (by simpa using hnot)

theorem idle_lead {lead s : List Char} (hlead : IsLead lead) (hs : (({} : Lexer).after s).Idle) :
    (({} : Lexer).after (lead ++ s)).Idle := by
  rcases hlead with rfl | rfl
  · exact hs
  · have halike := past_feed s []
    rw [Lexer.past_whole, Lexer.past_whole] at halike
    exact ⟨halike.mode.trans hs.mode, halike.held.trans hs.held⟩

theorem unclosed?_of_idle {s : List Char} (hs : (({} : Lexer).after s).Idle) :
    unclosed? s = none := by
  rw [unclosed?_eq_none, hs.mode]
  rfl

/-- Behind whole lines what comes is set apart. -/
theorem setApart_lines {t : List Char} (ht : EndsLine t) (hclosed : unclosed? t = none)
    (qs : List Glyph) : SetApart (classify t) qs := by
  rcases ht with rfl | ht
  · exact Or.inl rfl
  · obtain ⟨p, rfl⟩ := List.getLast?_eq_some_iff.1 ht
    obtain ⟨-, y, hwhole, hy, hgaps⟩ :=
      closed_of_blanks (b := ['\n']) (List.forall_mem_singleton.2 (by decide)) hclosed
    obtain ⟨g, rfl, -⟩ := List.map_eq_singleton_iff.1 hy
    rw [hwhole]
    exact Or.inr (Or.inl ⟨g, List.getLast?_concat .., hgaps g List.mem_cons_self⟩)

/-- **A line with a directive says nothing in its section**, where it begins in code. -/
theorem sameSaid_line {lead a l b : List Char} (hlead : IsLead lead) (ha : EndsLine a)
    (hcode : (({} : Lexer).after a).Idle) (hl : '\n' ∉ l)
    (hset : (directiveBody? l).isSome = true) :
    SameSaid (lead ++ (a ++ (l ++ '\n' :: b))) (lead ++ (a ++ b)) := by
  have hends : EndsLine (lead ++ a) := by
    have hlines : EndsLine lead := hlead.imp_right fun h => by rw [h]; rfl
    exact EndsLine.append_lines (a := []) hlines ha
  have hidle := idle_lead hlead hcode
  have hfeed : EndsLine (l ++ ['\n']) := Or.inr (List.getLast?_concat ..)
  obtain ⟨hgaps, hline⟩ := gaps_of_addressed_line hl (isAddressed_of_directive hset)
  obtain ⟨hfront, hmode⟩ := classify_lines_append hends hidle ((l ++ ['\n']) ++ b)
  obtain ⟨hfront', hmode'⟩ := classify_lines_append hends hidle b
  obtain ⟨hbehind, hmode''⟩ := classify_lines_append hfeed hline b
  rw [List.append_cons l, ← List.append_assoc lead, ← List.append_assoc lead]
  -- the line is a run of gaps, between whole lines and what follows
  have hrun : IsRun (classify (l ++ ['\n'])) := by
    refine ⟨fun hnil => ?_, hgaps⟩
    have hchars := classify_map_char (l ++ ['\n'])
    rw [hnil] at hchars
    exact List.append_ne_nil_of_right_ne_nil l (List.cons_ne_nil _ _) hchars.symm
  refine sameSaid_delete hrun (setApart_lines hends (unclosed?_of_idle hidle) (classify b))
    (by rw [hfront, hbehind]) hfront' ?_
  rw [unclosed?_eq_none, unclosed?_eq_none, hmode, hmode', hmode'']

/-- Neither does the line feed at the end of a section, where code goes on behind it. -/
theorem sameSaid_feed {lead s : List Char} (hlead : IsLead lead)
    (hcode : (({} : Lexer).after (s ++ ['\n'])).Idle) :
    SameSaid (lead ++ (s ++ ['\n'])) (lead ++ s) := by
  have hclosed := unclosed?_of_idle (idle_lead hlead hcode)
  rw [← List.append_assoc] at hclosed ⊢
  obtain ⟨hopen, y, hwhole, hy, hgaps⟩ :=
    closed_of_blanks (b := ['\n']) (List.forall_mem_singleton.2 (by decide)) hclosed
  have hrun : IsRun y := by
    refine ⟨?_, hgaps⟩
    rintro rfl
    cases hy
  have hcloses : Closes [] := List.forall_mem_nil _
  have hapart : SetApart (classify (lead ++ s)) [] := Or.inr (Or.inr (Or.inr hcloses))
  exact sameSaid_delete hrun hapart (by rw [hwhole, List.append_nil]) (List.append_nil _).symm
    (iff_of_true hclosed hopen)

/-! ## §5. Files. -/

/-- A marker line at the very end, with and without its line feed. -/
theorem marks_feed {l : List Char} (hl : '\n' ∉ l) (hmarker : marker? l ≠ none)
    (ls : List (List Char)) (number : Nat) :
    (marksFrom number (ls ++ [l ++ ['\n']])).1 = (marksFrom number (ls ++ [l])).1
      ∧ List.Forall₂ Mark.Alike (marksFrom number (ls ++ [l ++ ['\n']])).2
        (marksFrom number (ls ++ [l])).2 := by
  induction ls generalizing number with
  | nil =>
    obtain ⟨m, hm⟩ := Option.ne_none_iff_exists'.1 hmarker
    have hlast : l.getLast? ≠ some '\n' := fun h => hl (List.mem_of_getLast? h)
    have hfeed : SameSaid ['\n'] [] :=
      @sameSaid_feed [] [] (Or.inl rfl) ⟨by decide, by decide⟩
    rw [List.nil_append, List.nil_append, marksFrom, marksFrom, marksFrom, marksFrom,
      marker?_append (breaks_feed []), hm]
    dsimp only
    rw [List.getLast?_concat, if_pos rfl, if_neg hlast]
    exact ⟨rfl, .cons ⟨rfl, hfeed⟩ .nil⟩
  | cons k ls ih =>
    obtain ⟨htext, hmarks⟩ := ih (number + 1)
    rw [List.cons_append, List.cons_append, marksFrom, marksFrom]
    cases marker? k with
    | none =>
      dsimp only
      rw [htext]
      exact ⟨rfl, hmarks⟩
    | some m =>
      dsimp only
      rw [htext]
      exact ⟨rfl, .cons ⟨rfl, .refl _⟩ hmarks⟩

theorem EndsLine.right {a b : List Char} (h : EndsLine (a ++ b)) : EndsLine b := by
  rcases List.eq_nil_or_concat b with rfl | ⟨u, c, rfl⟩
  · exact Or.inl rfl
  · right
    rw [List.concat_eq_append, ← List.append_assoc] at h
    rcases h with h | h
    · exact absurd h (List.append_ne_nil_of_right_ne_nil _ (List.cons_ne_nil _ _))
    · rw [List.getLast?_concat] at h
      rw [List.concat_eq_append, List.getLast?_concat, h]

/-- **Without a line with a directive the statements say the same**, where it begins in code. -/
theorem agree_line {p l q : List Char} (hp : EndsLine p) (hl : '\n' ∉ l)
    (hset : (directiveBody? l).isSome = true) (hcode : BeginsInCode p) :
    Agree SameForms (split (p ++ (l ++ '\n' :: q))) (split (p ++ q)) := by
  -- the section of the line: what it has of `p`, and what it has of `q`
  obtain ⟨ls, ms, hlines, hopen, hls, hms⟩ := exists_openSection p
  obtain ⟨mq, rs, hq, hmq, hrs⟩ := exists_firstSection q
  have hflatten : (lines p).flatten = p := flatten_splitAfter _ p
  have hends : EndsLine ms.flatten := by
    rw [← hflatten, hlines, List.flatten_append] at hp
    exact EndsLine.right hp
  have hline : marker? (l ++ ['\n']) = none := by
    rw [marker?_append (breaks_feed []), marker?_directive hset]
  have ht : lines (p ++ (l ++ '\n' :: q)) = ls ++ ((ms ++ ((l ++ ['\n']) :: mq)) ++ rs) := by
    rw [lines_append hp, lines_line hl, hlines, hq]
    simp
  have ht' : lines (p ++ q) = ls ++ ((ms ++ mq) ++ rs) := by
    rw [lines_append hp, hlines, hq]
    simp
  unfold BeginsInCode at hcode
  rw [hopen] at hcode
  have hmarks := @marks_alike ls (ms ++ ((l ++ ['\n']) :: mq)) (ms ++ mq) rs hls
    (List.forall_mem_append.2 ⟨hms, List.forall_mem_cons.2 ⟨hline, hmq⟩⟩)
    (List.forall_mem_append.2 ⟨hms, hmq⟩) hrs fun lead hlead => by
      have hsaid := sameSaid_line (b := mq.flatten) hlead hends hcode hl hset
      rw [List.append_cons] at hsaid
      rwa [List.flatten_append, List.flatten_append, List.flatten_cons]
  rw [← ht, ← ht'] at hmarks
  exact agree_of_marks hmarks.1 hmarks.2

/-- So they do without the line feed at the very end, be it that of a marker line. -/
theorem agree_feed {p : List Char} (hp : ¬EndsLine p) (hcode : BeginsInCode (p ++ ['\n'])) :
    Agree SameForms (split (p ++ ['\n'])) (split p) := by
  obtain ⟨u, hu, hends⟩ := exists_lastLine p
  have hl : '\n' ∉ lastLine p := fun hmem => by simpa using List.mem_rtakeWhile_imp hmem
  have hne : lastLine p ≠ [] := by
    intro hnil
    rw [hu, hnil, List.append_nil] at hp
    exact hp hends
  generalize lastLine p = l at hu hl hne
  subst hu
  have ht' : lines (u ++ l) = lines u ++ [l] := by rw [lines_append hends, lines_last hl hne]
  have ht : lines (u ++ l ++ ['\n']) = lines u ++ [l ++ ['\n']] := by
    rw [List.append_assoc, lines_append hends, lines_line hl, lines_nil]
  -- the last line belongs to the open section, unless it is a marker line itself
  by_cases hmarker : marker? l = none
  · obtain ⟨ls, ms, hlines, hopen, hls, hms⟩ := exists_openSection u
    have hline : marker? (l ++ ['\n']) = none := by
      rw [marker?_append (breaks_feed []), hmarker]
    have hsection : openSection (u ++ l ++ ['\n']) = (ms.flatten ++ l) ++ ['\n'] := by
      rw [openSection, ht, List.append_assoc, ← hopen,
        List.rtakeWhile_concat_pos _ _ _ (by rw [hline]; rfl), List.flatten_append,
        List.flatten_singleton]
      rfl
    unfold BeginsInCode at hcode
    rw [hsection] at hcode
    have hnone : ∀ k ∈ ([] : List (List Char)).head?, marker? k ≠ none := fun _ hk => nomatch hk
    have hmarks := @marks_alike ls (ms ++ [l ++ ['\n']]) (ms ++ [l]) [] hls
      (List.forall_mem_append.2 ⟨hms, List.forall_mem_singleton.2 hline⟩)
      (List.forall_mem_append.2 ⟨hms, List.forall_mem_singleton.2 hmarker⟩) hnone
      fun lead hlead => by
        have hsaid := sameSaid_feed hlead hcode
        rwa [List.flatten_append, List.flatten_append, List.flatten_singleton,
          List.flatten_singleton, ← List.append_assoc ms.flatten]
    rw [List.append_nil, List.append_nil, ← List.append_assoc, ← List.append_assoc, ← hlines, ← ht,
      ← ht'] at hmarks
    exact agree_of_marks hmarks.1 hmarks.2
  · obtain ⟨htext, hmarks⟩ := marks_feed hl hmarker (lines u) 1
    rw [← ht, ← ht'] at htext hmarks
    exact agree_of_marks (htext ▸ .refl _) hmarks

theorem Drops.agree {t t' : List Char} (h : Drops t t') : Agree SameForms (split t) (split t') := by
  cases h with
  | line hp hl hset hcode => exact agree_line hp hl hset hcode
  | feed hp hcode => exact agree_feed hp hcode

/-- `t'` is `t` with lines of directives put in, taken out or exchanged. -/
def Redirected : List Char → List Char → Prop := Relation.EqvGen Drops

/-- **The statements of a redirected text say the same**, or neither text has any. -/
theorem Redirected.agree {t t' : List Char} (h : Redirected t t') :
    Agree SameForms (split t) (split t') := by
  -- edit by edit: what agrees is carried along a chain of them, in either direction
  induction h with
  | rel t t' h => exact h.agree
  | refl t => exact .refl SameForms.refl _
  | symm t t' _ ih => exact ⟨ih.1.symm, fun ss ss' hss hss' => (ih.2 ss' ss hss' hss).symm⟩
  | trans t u t' _ _ ih ih' =>
    refine ⟨ih.1.trans ih'.1, fun ss ss' hss hss' => ?_⟩
    obtain ⟨us, hus⟩ := ih.1.1 ⟨ss, hss⟩
    exact (ih.2 ss us hss hus).trans (ih'.2 us ss' hus hss')

/-- A redirected text of one statement has one statement, with the identity of the old one. -/
theorem Redirected.alone {t t' : List Char} (h : Redirected t t') {s : Statement}
    (hs : split t = .ok [s]) : ∃ s', split t' = .ok [s'] ∧ s'.hash = s.hash := by
  obtain ⟨hiff, hforms⟩ := h.agree
  obtain ⟨ss', hss'⟩ := hiff.1 ⟨[s], hs⟩
  have hsame := hforms _ _ hs hss'
  unfold SameForms at hsame
  rw [List.map_map, List.map_map, List.map_singleton] at hsame
  obtain ⟨s', rfl, hs'⟩ := List.map_eq_singleton_iff.1 hsame.symm
  refine ⟨s', hss', ?_⟩
  unfold Statement.hash Statement.normalized
  exact congrArg (fun u => Digest.hashOf (String.ofList u)) hs'

end SchemaDrift.Sql

namespace SchemaDrift

open SchemaDrift.Sql

/-! ## §6. One statement, in every mode. -/

/-- The one statement of a plain file is that of its text, with its semicolon. -/
theorem hash_plainContent (s : Statement) :
    (plainContent [s]).statements.map (·.hash) = [s.hash] := by
  unfold plainContent joined Statement.hash Statement.normalized
  rw [List.map_singleton, List.map_singleton, String.intercalate_singleton, String.toList_ofList,
    normalize_terminate]

/-- However a text of one statement is treated, its content has the identity of that. -/
theorem hash_contentOf {t : List Char} {s : Statement} (hs : split t = .ok [s]) {d : Directives}
    {c : FileContent} (hc : contentOf t d = .ok (.ok c)) : c.statements.map (·.hash) = [s.hash] := by
  obtain ⟨-, ss, hss, hcontents⟩ := contentOf_ok_iff.1 hc
  obtain rfl : [s] = ss := Except.ok.inj (hs.symm.trans hss)
  cases hcontents with
  | declared | separate => rfl
  | plain => exact hash_plainContent s

/-- So does a file of such a text that is read without an error. -/
theorem SourceFile.hash_read {path text : String} {s : Statement} (hs : split text.toList = .ok [s])
    {f : SourceFile} (hf : SourceFile.read path text = .ok f) (hok : f.error? = none) :
    f.statements.map (·.hash) = [s.hash] := by
  obtain ⟨d, c, hd, hc⟩ := readsWell_iff.1 ⟨f, hf, hok⟩
  rw [SourceFile.read_ok path hd hc] at hf
  cases hf
  exact hash_contentOf hs hc

/-- A text has one identity, that of the statement `s`, however it is treated: as a plain file, as
one whose statements are followed one by one and, where `s` defines a table, as a declared one. -/
structure ModesAgree (t : List Char) (s : Statement) : Prop where
  plain : ∃ c, contentOf t {} = .ok (.ok c) ∧ c.statements.map (·.hash) = [s.hash]
  split : ∃ c, contentOf t { splitStatements := true } = .ok (.ok c)
    ∧ c.statements.map (·.hash) = [s.hash]
  declarative : s.isCreateTable = true → ∀ table, Table.parse s.raw.toList = .ok table →
    ∃ c, contentOf t { declarativeTable := true } = .ok (.ok c)
      ∧ c.statements.map (·.hash) = [s.hash] ∧ c.table = some table

/-- **The modes agree on a single statement.** -/
theorem modesAgree {t : List Char} {s : Statement} (hs : split t = .ok [s]) : ModesAgree t s := by
  have halone : Alone [s] := fun s' hs' _ => by rw [List.mem_singleton.1 hs']
  have hread : ∀ {d : Directives} {c : FileContent}, d.conflicting = false → Contents d [s] c →
      contentOf t d = .ok (.ok c) := fun hd hc => contentOf_ok_iff.2 ⟨hd, [s], hs, hc⟩
  constructor
  · exact ⟨_, hread rfl (.plain rfl rfl halone), hash_plainContent s⟩
  · exact ⟨_, hread rfl (.separate rfl rfl halone), rfl⟩
  · exact fun hcreate table hparse => ⟨_, hread rfl (.declared rfl hcreate hparse), rfl, rfl⟩

end SchemaDrift
