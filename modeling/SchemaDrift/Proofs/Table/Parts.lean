/-
  SchemaDrift.Proofs.Table.Parts
  ──────────────────────────────
  **A TEXT PUT TOGETHER FROM PARTS IS READ PART BY PART.**

  A part ends in code, outside of brackets, and has no comments and no white space at its
  ends (`Part`).  Parts with one space between them keep their characters' classes, and the
  tokens of the whole are those of the parts, one part behind the other
  (`tokenize_joined`).  What is inside of brackets that are properly nested is a single
  token, and no comma there cuts the text in two.

      Complete           the text ends in code, and no token goes on
      Nested             brackets in code are closed in the order in which they are opened
      row_gap            what is read in front of a gap, and what is read behind it
      spanText_part      the tokens of a part are all of it
-/

import SchemaDrift.Proofs.Sql.Closing
import SchemaDrift.Proofs.Table.Pairs

namespace SchemaDrift.Table

open SchemaDrift.Sql SchemaDrift.Text

/-! ## §1. Texts that end in code. -/

/-- The text ends in code, and no token goes on behind it. -/
def Complete (p : List Char) : Prop := (({} : Lexer).after p).Idle

theorem closed_of_complete {p : List Char} (hp : Complete p) : unclosed? p = none := by
  rw [unclosed?_eq_none, hp.mode]
  rfl

/-- A firm character behind such a text is code, and what follows is read afresh. -/
theorem reads_join {p : List Char} (hp : Complete p) {c : Char} (hc : IsFirm c)
    (w : List Char) : ({} : Lexer).reads (p ++ [c]) w = classify p ++ [⟨c, .code⟩]
      ∧ (({} : Lexer).past (p ++ [c]) w).Fresh := by
  obtain ⟨hident, hdollar, hsingle, hdouble, -⟩ := isStop_iff.1 hc.stop
  have hquote : isQuote c = false := by
    unfold isQuote
    simp [hdollar, hsingle, hdouble]
  obtain ⟨hfront, -, hpast⟩ :=
    Lexer.reads_firm Lexer.delimited_start hc.stop hc.hyphen hc.slash p w
  have hstate := hpast (by rw [hp.mode]; decide)
  obtain ⟨hcode, hidle⟩ := Lexer.advance_plain (c := c) hp hquote hc.hyphen hc.slash w
  rw [Lexer.reads_concat, Lexer.past_concat, hfront, hstate, hcode]
  refine ⟨rfl, hidle, ?_⟩
  rw [Lexer.advance_last]
  simp [hident, hdollar]

/-- **What stands on the two sides of a firm character is read by itself.** -/
theorem classify_join {p : List Char} (hp : Complete p) {c : Char} (hc : IsFirm c)
    (w : List Char) : classify (p ++ c :: w) = classify p ++ ⟨c, .code⟩ :: classify w := by
  have hsettled : Settled (p ++ [c]) := by
    refine settled_of_reads fun w => ⟨?_, (reads_join hp hc w).2⟩
    have hwhole := (reads_join hp hc []).1
    rw [Lexer.reads_whole] at hwhole
    rw [(reads_join hp hc w).1]
    exact hwhole.symm
  have hwhole := (reads_join hp hc []).1
  rw [Lexer.reads_whole] at hwhole
  have hjoined := hsettled w
  rw [List.append_assoc, show classify (p ++ [c]) = _ from hwhole, List.append_assoc] at hjoined
  exact hjoined

theorem complete_join {p : List Char} (hp : Complete p) {c : Char} (hc : IsFirm c)
    {w : List Char} (hw : Complete w) : Complete (p ++ c :: w) := by
  have halike := (Lexer.alike_reads (Lexer.alike_start (reads_join hp hc w).2) w []).2
  rw [Lexer.past_whole, Lexer.past_whole] at halike
  unfold Complete
  rw [show p ++ c :: w = (p ++ [c]) ++ w by simp, Lexer.after_append]
  exact ⟨halike.mode.trans hw.mode, halike.held.trans hw.held⟩

/-- The last character of a text, and what is behind it. -/
theorem classify_concat (p : List Char) (c : Char) : ∃ gs cls,
    classify (p ++ [c]) = gs ++ [⟨c, cls⟩]
      ∧ Lexer.Leaves ⟨c, cls⟩ (({} : Lexer).after (p ++ [c])).inside := by
  have hreads := ({} : Lexer).reads_concat p c []
  have hpast := ({} : Lexer).past_concat p c []
  have hsound : (({} : Lexer).past p [c]).Sound [c] :=
    Lexer.sound_past (Lexer.sound_start (p ++ [c]))
  rw [Lexer.reads_whole] at hreads
  rw [Lexer.past_whole] at hpast
  refine ⟨_, _, hreads, ?_⟩
  rw [hpast]
  exact Lexer.advance_leaves hsound

/-- A text without comments at whose end nothing is open ends in code. -/
theorem complete_of_closed {p : List Char} (hclosed : unclosed? p = none)
    (hcomment : ∀ g ∈ classify p, g.cls ≠ .comment) : Complete p :=
  idle_at_end hclosed fun g hg => hcomment g (List.mem_of_getLast? hg)

/-- In a text that ends in code the last character is white only if it is of a gap. -/
theorem isBlank_last {p : List Char} (hp : Complete p)
    (hends : ∀ g ∈ (classify p).getLast?, g.isGap = false) :
    ∀ c ∈ p.getLast?, isBlank c = false := by
  intro c hc
  rcases List.eq_nil_or_concat p with rfl | ⟨q, d, rfl⟩
  · cases hc
  · rw [List.concat_eq_append] at hp hends hc
    rw [List.getLast?_concat] at hc
    obtain rfl := Option.some.inj hc
    obtain ⟨gs, cls, hclassify, hleaves⟩ := classify_concat q d
    rw [hclassify, List.getLast?_concat] at hends
    have hgap := hends _ rfl
    cases cls with
    | comment => cases hgap
    | code => exact hgap
    | quoted =>
      -- what is quoted ends with a quote
      rw [Lexer.inside_idle hp] at hleaves
      rcases hleaves with hcls | ⟨-, hcloses⟩
      · cases hcls
      · by_contra hblank
        rw [Bool.not_eq_false] at hblank
        rw [show CharClass.quoted.closes d = isQuote d from rfl,
          isQuote_of_isBlank hblank] at hcloses
        cases hcloses

/-! ## §2. Brackets. -/

/-- The glyph is a bracket in code. -/
def isBracket (g : Glyph) : Bool := g.isCode '(' || g.isCode ')' || g.isCode '[' || g.isCode ']'

/-- Brackets in code are closed in the order in which they are opened. -/
inductive Nested : List Glyph → Prop where
  | nil : Nested []
  | plain {g : Glyph} {gs : List Glyph} (hg : isBracket g = false) (h : Nested gs) :
    Nested (g :: gs)
  | group {opening : Char} {inside behind : List Glyph} (hopening : opening = '(' ∨ opening = '[')
    (hinside : Nested inside) (hbehind : Nested behind) :
    Nested (⟨opening, .code⟩ :: (inside ++ ⟨closing opening, .code⟩ :: behind))

theorem Nested.append {gs hs : List Glyph} (hgs : Nested gs) (hhs : Nested hs) :
    Nested (gs ++ hs) := by
  induction hgs with
  | nil => exact hhs
  | plain hg _ ih => exact .plain hg ih
  | group hopening hinside _ _ ih =>
    rw [List.cons_append, List.append_assoc, List.cons_append]
    exact .group hopening hinside ih

/-- Without brackets there is nothing to close. -/
theorem nested_of_none {gs : List Glyph} (h : ∀ g ∈ gs, isBracket g = false) : Nested gs := by
  induction gs with
  | nil => exact .nil
  | cons g gs ih =>
    exact .plain (h g List.mem_cons_self) (ih fun g hg => h g (List.mem_cons_of_mem _ hg))

theorem not_isBracket {g : Glyph} (h : isBracket g = false) : g.isCode '(' = false
    ∧ g.isCode ')' = false ∧ g.isCode '[' = false ∧ g.isCode ']' = false := by
  unfold isBracket at h
  simpa only [Bool.or_eq_false_iff, and_assoc] using h

/-- Of nested brackets those of one kind belong together. -/
theorem Nested.balanced {gs : List Glyph} (h : Nested gs) {opening : Char}
    (hopening : opening = '(' ∨ opening = '[') : Balanced opening gs := by
  induction h with
  | nil => exact .nil
  | plain hg _ ih =>
    obtain ⟨hopen, hclose, hopen', hclose'⟩ := not_isBracket hg
    rcases hopening with rfl | rfl
    · exact .plain hopen hclose ih
    · exact .plain hopen' hclose' ih
  | group hinner _ _ ihinside ihbehind =>
    -- brackets of the same kind are a pair, those of the other kind count for nothing
    rcases hopening with rfl | rfl
    · rcases hinner with rfl | rfl
      · exact .pair ihinside ihbehind
      · exact .plain rfl rfl (ihinside.append (.plain rfl rfl ihbehind))
    · rcases hinner with rfl | rfl
      · exact .plain rfl rfl (ihinside.append (.plain rfl rfl ihbehind))
      · exact .pair ihinside ihbehind

/-- A parenthesis that opens. -/
theorem enclosed?_open (depth : Nat) (rest : List Glyph) :
    enclosed? depth (⟨'(', .code⟩ :: rest) = (enclosed? (depth + 1) rest).map ('(' :: ·) := by
  cases depth
  · rfl
  · rfl

/-- A parenthesis that closes another one. -/
theorem enclosed?_close (depth : Nat) (rest : List Glyph) :
    enclosed? (depth + 1) (⟨')', .code⟩ :: rest) = (enclosed? depth rest).map (')' :: ·) := rfl

/-- A glyph that is no parenthesis. -/
theorem enclosed?_other {g : Glyph} (hopen : g.isCode '(' = false) (hclose : g.isCode ')' = false)
    (depth : Nat) (rest : List Glyph) :
    enclosed? depth (g :: rest) = (enclosed? depth rest).map (g.char :: ·) := by
  rw [enclosed?.eq_def]
  dsimp only
  rw [hopen, hclose]
  rfl

/-- **The parenthesis that closes a body is not inside of nested brackets.** -/
theorem enclosed?_nested {gs : List Glyph} (h : Nested gs) (depth : Nat) (hs : List Glyph) :
    enclosed? depth (gs ++ hs) = (enclosed? depth hs).map (gs.map Glyph.char ++ ·) := by
  induction h generalizing depth hs with
  | nil => simp
  | plain hg _ ih =>
    obtain ⟨hopen, hclose, -⟩ := not_isBracket hg
    rw [List.cons_append, enclosed?_other hopen hclose, ih]
    simp [Function.comp_def]
  | @group opening inside behind hopening _ _ ihinside ihbehind =>
    rw [List.cons_append, List.append_assoc, List.cons_append]
    rcases hopening with rfl | rfl
    · rw [enclosed?_open, ihinside, show closing '(' = ')' from rfl, enclosed?_close, ihbehind]
      simp [Function.comp_def]
    · rw [enclosed?_other rfl rfl, ihinside, show closing '[' = ']' from rfl,
        enclosed?_other rfl rfl, ihbehind]
      simp [Function.comp_def]

/-- No comma in code stands outside of brackets. -/
def Uncut (gs : List Glyph) : Prop :=
  ∀ pre post, gs = pre ++ ⟨',', .code⟩ :: post → ¬Nested pre

/-- Puts a text in front of the first of some texts. -/
def prepend (s : List Char) : List (List Char) → List (List Char)
  | [] => [s]
  | part :: parts => (s ++ part) :: parts

theorem prepend_prepend (s t : List Char) (parts : List (List Char)) :
    prepend s (prepend t parts) = prepend (s ++ t) parts := by
  cases parts with
  | nil => rfl
  | cons part parts => rw [prepend, prepend, prepend, List.append_assoc]

/-- A glyph that is no comma outside of brackets goes to the part that follows. -/
theorem commaParts_cons {parens brackets : Nat} {g : Glyph} {rest : List Glyph}
    (hg : parens + brackets = 0 → g.isCode ',' = false) :
    commaParts parens brackets (g :: rest) = prepend [g.char] (commaParts
      (if g.isCode '(' then parens + 1 else if g.isCode ')' then parens - 1 else parens)
      (if g.isCode '[' then brackets + 1 else if g.isCode ']' then brackets - 1 else brackets)
      rest) := by
  have hno : (g.isCode ',' && decide (parens = 0) && decide (brackets = 0)) = false := by
    by_cases hzero : parens + brackets = 0
    · rw [hg hzero]
      rfl
    · simp only [Bool.and_eq_false_iff, decide_eq_false_iff_not]
      omega
  rw [commaParts, hno]
  dsimp only
  rw [if_neg (by decide)]
  generalize (if g.isCode '(' then parens + 1 else if g.isCode ')' then parens - 1 else parens)
    = parens'
  generalize (if g.isCode '[' then brackets + 1 else if g.isCode ']' then brackets - 1 else brackets)
    = brackets'
  cases commaParts parens' brackets' rest with
  | nil => rfl
  | cons part parts => rfl

theorem commaParts_ne_nil (parens brackets : Nat) (gs : List Glyph) :
    ∃ part parts, commaParts parens brackets gs = part :: parts := by
  cases gs with
  | nil => exact ⟨[], [], rfl⟩
  | cons g gs =>
    rw [commaParts]
    split
    · exact ⟨_, _, rfl⟩
    · dsimp only
      split
      · exact ⟨_, _, rfl⟩
      · exact ⟨_, _, rfl⟩

/-- **Nested brackets are not cut at commas**, nor is what has none outside of them. -/
theorem commaParts_nested {gs : List Glyph} (h : Nested gs) {parens brackets : Nat}
    (hcut : parens + brackets = 0 → Uncut gs) (hs : List Glyph) :
    commaParts parens brackets (gs ++ hs)
      = prepend (gs.map Glyph.char) (commaParts parens brackets hs) := by
  -- the counters are as before behind every group, and no comma cuts where they are at nought
  induction h generalizing parens brackets hs with
  | nil =>
    obtain ⟨part, parts, hparts⟩ := commaParts_ne_nil parens brackets hs
    rw [List.nil_append, hparts]
    rfl
  | @plain g gs hg _ ih =>
    obtain ⟨hopen, hclose, hopen', hclose'⟩ := not_isBracket hg
    have hcomma : parens + brackets = 0 → g.isCode ',' = false := by
      intro hzero
      by_contra hcomma
      rw [Bool.not_eq_false, Glyph.isCode_iff] at hcomma
      exact hcut hzero [] gs (by rw [hcomma]; rfl) .nil
    have hrest : parens + brackets = 0 → Uncut gs := by
      rintro hzero pre post rfl hpre
      exact hcut hzero (g :: pre) post rfl (.plain hg hpre)
    rw [List.cons_append, commaParts_cons hcomma, hopen, hclose, hopen', hclose']
    simp only [Bool.false_eq_true, if_false]
    rw [ih hrest, prepend_prepend]
    rfl
  | @group opening inside behind hopening hinside _ ihinside ihbehind =>
    have hrest : parens + brackets = 0 → Uncut behind := by
      rintro hzero pre post rfl hpre
      refine hcut hzero (⟨opening, .code⟩ :: (inside ++ ⟨closing opening, .code⟩ :: pre)) post ?_
        (.group hopening hinside hpre)
      simp
    rw [List.cons_append, List.append_assoc, List.cons_append]
    rcases hopening with rfl | rfl
    · rw [commaParts_cons (fun _ => rfl)]
      show prepend ['('] (commaParts (parens + 1) brackets (inside ++ _)) = _
      rw [ihinside (by omega), commaParts_cons (fun _ => rfl)]
      show prepend ['('] (prepend _ (prepend [')'] (commaParts parens brackets (behind ++ hs)))) = _
      rw [ihbehind hrest, prepend_prepend, prepend_prepend, prepend_prepend]
      simp [closing]
    · rw [commaParts_cons (fun _ => rfl)]
      show prepend ['['] (commaParts parens (brackets + 1) (inside ++ _)) = _
      rw [ihinside (by omega), commaParts_cons (fun _ => rfl)]
      show prepend ['['] (prepend _ (prepend [']'] (commaParts parens brackets (behind ++ hs)))) = _
      rw [ihbehind hrest, prepend_prepend, prepend_prepend, prepend_prepend]
      simp [closing]

/-! ## §3. Tokens. -/

/-- Outside of groups the reader stays outside over a glyph that is no bracket. -/
theorem next_outside {r : Reading} (hr : ¬r.InGroup) {g : Glyph} (hg : isBracket g = false) :
    ¬(r.next g).InGroup := by
  obtain ⟨hopen, -, hopen', -⟩ := not_isBracket hg
  have hfresh : ∀ r', (∃ kind, freshRole g = .start kind r') → ¬r'.InGroup := by
    rintro r' ⟨kind, hrole⟩ hgroup
    rcases freshRole_group g with hgap | ⟨kind', r'', hstart, hbegins, hkind⟩
    · rw [hgap] at hrole
      cases hrole
    · rw [hstart] at hrole
      obtain ⟨rfl, rfl⟩ := Role.start.inj hrole
      rcases (hbegins (hkind hgroup)).2 with rfl | rfl
      · cases hopen
      · cases hopen'
  unfold Reading.next
  rcases role_outside hr g with hrole | ⟨r', hrole, hout⟩
  · rw [hrole]
    rcases freshRole_group g with hgap | ⟨kind, r', hstart, -⟩
    · rw [hgap]
      exact between_outside
    · rw [hstart]
      exact hfresh r' ⟨kind, hstart⟩
  · rw [hrole]
    exact hout

/-- No word goes on over a bracket, or over a comma. -/
theorem isTokenChar_bracket {c : Char} (hc : c ∈ ['(', ')', '[', ']', ',']) :
    isTokenChar c = false := by
  have hall : ['(', ')', '[', ']', ','].all (fun c => !isTokenChar c) = true := by decide +kernel
  simpa using List.all_eq_true.1 hall c hc

/-- An opening bracket begins a group. -/
theorem next_opening {r : Reading} (hr : ¬r.InGroup) {opening : Char}
    (hopening : opening = '(' ∨ opening = '[') :
    r.next ⟨opening, .code⟩ = .group opening 0 := by
  cases r with
  | group o d => exact absurd ⟨o, d, rfl⟩ hr
  | between =>
    rcases hopening with rfl | rfl
    · rfl
    · rfl
  | quoted =>
    rcases hopening with rfl | rfl
    · rfl
    · rfl
  | word =>
    unfold Reading.next Reading.role freshRole
    rcases hopening with rfl | rfl
    · simp only [isTokenChar_bracket (c := '(') (by decide)]
      rfl
    · simp only [isTokenChar_bracket (c := '[') (by decide)]
      rfl

/-- **Outside of groups the reader is outside of them behind nested brackets.** -/
theorem through_nested {gs : List Glyph} (h : Nested gs) {r : Reading} (hr : ¬r.InGroup) :
    ¬(r.through gs).InGroup := by
  induction h generalizing r with
  | nil => exact hr
  | plain hg _ ih =>
    rw [through_cons]
    exact ih (next_outside hr hg)
  | group hopening hinside _ _ ih =>
    rw [through_cons, through_append, through_cons, next_opening hr hopening,
      through_balanced hopening (hinside.balanced hopening), next_closing hopening]
    exact ih between_outside

/-- The tokens with the gap behind the last of them made longer. -/
def addGap (gap : List Char) : List Token → List Token
  | [] => []
  | [t] => [{ t with gap := t.gap ++ gap }]
  | t :: t' :: ts => t :: addGap gap (t' :: ts)

theorem addGap_cons (gap : List Char) (t : Token) {ts : List Token} (h : ts ≠ []) :
    addGap gap (t :: ts) = t :: addGap gap ts := by
  cases ts with
  | nil => exact absurd rfl h
  | cons t' ts => rfl

theorem addGap_nil (ts : List Token) : addGap [] ts = ts := by
  induction ts with
  | nil => rfl
  | cons t ts ih =>
    cases ts with
    | nil => simp [addGap]
    | cons t' ts => rw [addGap_cons _ _ (List.cons_ne_nil t' ts), ih]

theorem isTokenChar_of_isBlank {c : Char} (hc : isBlank c = true) : isTokenChar c = false := by
  obtain ⟨hident, hdollar, -⟩ := isStop_iff.1 (isStop_of_isBlank hc)
  have hdot : c ≠ '.' := ne_of_isBlank hc (by decide)
  unfold isTokenChar
  simp [hident, hdollar, hdot]

/-- A gap glyph is of a gap, outside of groups. -/
theorem role_gap {r : Reading} (hr : ¬r.InGroup) {g : Glyph} (hg : g.isGap = true) :
    r.role g = .gap := by
  obtain ⟨c, cls⟩ := g
  have hfresh : freshRole ⟨c, cls⟩ = .gap := by
    unfold freshRole
    cases cls with
    | comment => rfl
    | quoted => cases hg
    | code => exact if_pos hg
  cases r with
  | between => exact hfresh
  | group o d => exact absurd ⟨o, d, rfl⟩ hr
  | quoted =>
    unfold Reading.role
    dsimp only
    rw [if_neg, hfresh]
    rintro rfl
    cases hg
  | word =>
    unfold Reading.role
    dsimp only
    rw [if_neg, hfresh]
    intro hword
    simp only [Bool.and_eq_true, decide_eq_true_eq] at hword
    obtain ⟨rfl, hword⟩ := hword
    rw [isTokenChar_of_isBlank hg] at hword
    cases hword

/-- What a gap glyph is read to, outside of groups. -/
theorem row_gap_first {r : Reading} (hr : ¬r.InGroup) {g : Glyph} (hg : g.isGap = true)
    (hs : List Glyph) : r.row (g :: hs) = Reading.between.row (g :: hs) := by
  rw [row_cons, row_cons, role_gap hr hg, role_gap between_outside hg]

/-- **What is read of a row up to a gap does not depend on what follows**, but for the gap. -/
theorem row_gap {r : Reading} {gs : List Glyph} (hr : ¬(r.through gs).InGroup) {g : Glyph}
    (hg : g.isGap = true) (hs : List Glyph) : r.row (gs ++ g :: hs)
      = ⟨(r.row gs).rest,
          if (r.row gs).tokens = [] then (r.row gs).gap ++ (Reading.between.row (g :: hs)).gap
            else (r.row gs).gap,
          addGap (Reading.between.row (g :: hs)).gap (r.row gs).tokens
            ++ (Reading.between.row (g :: hs)).tokens⟩ := by
  induction gs generalizing r with
  | nil =>
    rw [List.nil_append, row_gap_first (r := r) hr hg]
    generalize hrow : Reading.between.row (g :: hs) = row
    have hrest : row.rest = [] := by
      rw [← hrow]
      exact row_between_rest _
    obtain ⟨rest, gap, tokens⟩ := row
    rw [show rest = [] from hrest]
    rfl
  | cons x gs ih =>
    rw [through_cons] at hr
    unfold Reading.next at hr
    rw [List.cons_append, row_cons, row_cons]
    -- the gap goes behind the last token in front of it, if there is one
    cases hrole : r.role x with
    | more r' =>
      rw [hrole] at hr
      dsimp only
      rw [ih hr]
    | gap =>
      rw [hrole] at hr
      dsimp only
      rw [ih hr]
      dsimp only
      split
      · rw [List.cons_append]
      · rfl
    | start kind r' =>
      rw [hrole] at hr
      dsimp only
      rw [ih hr, if_neg (List.cons_ne_nil _ _)]
      dsimp only
      by_cases hnone : (r'.row gs).tokens = []
      · rw [if_pos hnone, hnone]
        rfl
      · rw [if_neg hnone, addGap_cons _ _ hnone]
        rfl

/-- The text of a row of tokens, with all of the gaps. -/
def rowText (ts : List Token) : List Char := ts.flatMap fun t => t.text ++ t.gap

/-- Reading loses nothing. -/
theorem row_text (r : Reading) (gs : List Glyph) :
    (r.row gs).rest ++ ((r.row gs).gap ++ rowText (r.row gs).tokens) = gs.map Glyph.char := by
  induction gs generalizing r with
  | nil => rfl
  | cons g gs ih =>
    rw [row_cons]
    cases hrole : r.role g with
    | more r' =>
      dsimp only
      rw [List.cons_append, ih]
      rfl
    | start kind r' =>
      dsimp only
      rw [List.nil_append, List.nil_append, List.map_cons, ← ih r']
      simp [rowText]
    | gap =>
      have hrest := row_between_rest gs
      dsimp only
      rw [hrest, List.map_cons, ← ih .between, hrest]
      rfl

/-- A glyph that is of a gap is a gap. -/
theorem isGap_of_role {r : Reading} {g : Glyph} (h : r.role g = .gap) : g.isGap = true := by
  have hfresh : freshRole g = .gap → g.isGap = true := by
    intro hrole
    unfold freshRole at hrole
    cases hcls : g.cls with
    | comment => exact isGap_comment hcls
    | quoted =>
      rw [hcls] at hrole
      cases hrole
    | code =>
      rw [hcls] at hrole
      dsimp only at hrole
      rw [isGap_code hcls]
      by_contra hblank
      rw [if_neg hblank] at hrole
      split at hrole
      · cases hrole
      · split at hrole
        · cases hrole
        · cases hrole
  -- within a group every character goes on with it
  by_cases hr : r.InGroup
  · obtain ⟨opening, depth, rfl⟩ := hr
    obtain ⟨r', hmore, -⟩ := role_group opening depth g
    rw [hmore] at h
    cases h
  · rcases role_outside hr g with hrole | ⟨r', hrole, -⟩
    · exact hfresh (hrole.symm.trans h)
    · rw [hrole] at h
      cases h

/-- Behind a row that does not end with a gap there is none. -/
theorem row_ends {gs : List Glyph} (hends : ∀ g ∈ gs.getLast?, g.isGap = false) (r : Reading) :
    ((r.row gs).tokens = [] → (r.row gs).gap = [])
      ∧ ∀ t ∈ (r.row gs).tokens.getLast?, t.gap = [] := by
  induction gs generalizing r with
  | nil => exact ⟨fun _ => rfl, fun t ht => absurd ht (Option.not_mem_none t)⟩
  | cons g gs ih =>
    have htail : ∀ g ∈ gs.getLast?, g.isGap = false := by
      intro x hx
      refine hends x ?_
      rw [List.getLast?_cons, hx]
      rfl
    rw [row_cons]
    cases hrole : r.role g with
    | more r' => exact ih htail r'
    | start kind r' =>
      obtain ⟨hgap, hlast⟩ := ih htail r'
      refine ⟨fun hnil => absurd hnil (List.cons_ne_nil _ _), ?_⟩
      dsimp only
      rw [List.getLast?_cons]
      intro t ht
      cases htokens : (r'.row gs).tokens.getLast? with
      | none =>
        rw [htokens] at ht
        obtain rfl := Option.some.inj ht
        exact hgap (List.getLast?_eq_none_iff.1 htokens)
      | some t' =>
        rw [htokens] at ht
        obtain rfl := Option.some.inj ht
        exact hlast t' htokens
    | gap =>
      obtain ⟨hgap, hlast⟩ := ih htail .between
      refine ⟨fun hnil => ?_, hlast⟩
      dsimp only at hnil
      -- nothing would follow the gap
      have hall := row_text .between gs
      rw [row_between_rest, hgap hnil, hnil] at hall
      have hnone : gs = [] := List.map_eq_nil_iff.1 hall.symm
      subst hnone
      have hg := hends g rfl
      rw [isGap_of_role hrole] at hg
      cases hg

theorem spanText_cons (t : Token) {ts : List Token} (h : ts ≠ []) :
    spanText (t :: ts) = t.text ++ t.gap ++ spanText ts := by
  cases ts with
  | nil => exact absurd rfl h
  | cons t' ts => rfl

theorem spanText_eq_rowText {ts : List Token} (h : ∀ t ∈ ts.getLast?, t.gap = []) :
    spanText ts = rowText ts := by
  induction ts with
  | nil => rfl
  | cons t ts ih =>
    cases ts with
    | nil =>
      have hgap := h t rfl
      simp [spanText, rowText, hgap]
    | cons t' ts =>
      have hrest := ih fun x hx => h x (by rw [List.getLast?_cons_cons]; exact hx)
      rw [spanText_cons t (List.cons_ne_nil t' ts), hrest]
      simp [rowText]

theorem spanText_addGap (gap : List Char) (ts : List Token) :
    spanText (addGap gap ts) = spanText ts := by
  induction ts with
  | nil => rfl
  | cons t ts ih =>
    cases ts with
    | nil => rfl
    | cons t' ts =>
      have hne : addGap gap (t' :: ts) ≠ [] := by
        cases ts with
        | nil => exact List.cons_ne_nil _ _
        | cons t'' ts => exact List.cons_ne_nil _ _
      rw [addGap_cons _ _ (List.cons_ne_nil t' ts), spanText_cons t hne, ih,
        spanText_cons t (List.cons_ne_nil t' ts)]

/-- In front of what does not begin with a gap there is none. -/
theorem row_begins {g : Glyph} (hg : g.isGap = false) (gs : List Glyph) :
    (Reading.between.row (g :: gs)).gap = [] := by
  rw [row_cons]
  rcases freshRole_cases g with hrole | ⟨kind, r, hrole, -⟩
  · rw [isGap_of_role (r := .between) hrole] at hg
    cases hg
  · rw [show Reading.between.role g = .start kind r from hrole]

/-! ## §4. Parts. -/

/-- A text that ends in code outside of brackets, has no comments, and neither begins nor
ends with white space. -/
structure Part (p : List Char) : Prop where
  complete : Complete p
  uncommented : ∀ g ∈ classify p, g.cls ≠ .comment
  nested : Nested (classify p)
  /-- No comma cuts it. -/
  whole : ∀ hs, commaParts 0 0 (classify p ++ hs) = prepend p (commaParts 0 0 hs)
  begins : ∃ g gs, classify p = g :: gs ∧ g.isGap = false
  ends : ∀ g ∈ (classify p).getLast?, g.isGap = false

/-- The tokens of a part are all of it. -/
theorem spanText_part {p : List Char} (hp : Part p) : spanText (tokenize p) = p := by
  obtain ⟨g, gs, hclassify, hg⟩ := hp.begins
  have hgap : (Reading.between.row (classify p)).gap = [] := by
    rw [hclassify]
    exact row_begins hg gs
  have hall := row_text .between (classify p)
  rw [row_between_rest, hgap, classify_map_char] at hall
  unfold tokenize
  rw [spanText_eq_rowText (row_ends hp.ends .between).2]
  exact hall

theorem tokenize_part_ne_nil {p : List Char} (hp : Part p) : tokenize p ≠ [] := by
  intro hnil
  have htext := spanText_part hp
  rw [hnil] at htext
  obtain ⟨g, gs, hclassify, -⟩ := hp.begins
  rw [← htext] at hclassify
  cases hclassify

/-- Parts with one space between them. -/
def joined : List (List Char) → List Char
  | [] => []
  | p :: ps => p ++ ps.flatMap (' ' :: ·)

theorem joined_cons_cons (p q : List Char) (ps : List (List Char)) :
    joined (p :: q :: ps) = p ++ ' ' :: joined (q :: ps) := by
  simp [joined]

/-- The tokens of parts with one space between them. -/
def rowOf : List (List Char) → List Token
  | [] => []
  | [p] => tokenize p
  | p :: q :: ps => addGap [' '] (tokenize p) ++ rowOf (q :: ps)

/-- What stands between parts is firm. -/
theorem isFirm_between {c : Char} (hc : c ∈ [' ', '.', '(', ')']) : IsFirm c := by
  have hall : [' ', '.', '(', ')'].all (fun c => decide (IsFirm c)) = true := by decide +kernel
  simpa using List.all_eq_true.1 hall c hc

theorem isFirm_space : IsFirm ' ' := isFirm_between (by decide)

/-- The space between two parts. -/
theorem commaParts_space (hs : List Glyph) :
    commaParts 0 0 (⟨' ', .code⟩ :: hs) = prepend [' '] (commaParts 0 0 hs) :=
  commaParts_cons fun _ => rfl

/-- Two parts with a space between them are a part. -/
theorem Part.join {p q : List Char} (hp : Part p) (hq : Part q) : Part (p ++ ' ' :: q) := by
  obtain ⟨g, gs, hbegins, hg⟩ := hp.begins
  obtain ⟨g', gs', hbegins', -⟩ := hq.begins
  have hclassify := classify_join hp.complete isFirm_space q
  refine ⟨complete_join hp.complete isFirm_space hq.complete, ?_, ?_, ?_, ?_, ?_⟩
  · rw [hclassify]
    intro x hx
    rcases List.mem_append.1 hx with hx | hx
    · exact hp.uncommented x hx
    · rcases List.mem_cons.1 hx with rfl | hx
      · decide
      · exact hq.uncommented x hx
  · rw [hclassify]
    exact hp.nested.append (.plain rfl hq.nested)
  · intro hs
    rw [hclassify, List.append_assoc, hp.whole, List.cons_append, commaParts_space, hq.whole,
      prepend_prepend, prepend_prepend]
    simp
  · refine ⟨g, gs ++ ⟨' ', .code⟩ :: classify q, ?_, hg⟩
    rw [hclassify, hbegins]
    rfl
  · rw [hclassify, List.getLast?_append_cons, hbegins', List.getLast?_cons_cons, ← hbegins']
    exact hq.ends

/-- **Parts with one space between them are a part.** -/
theorem part_joined {ps : List (List Char)} (hps : ∀ p ∈ ps, Part p) (hne : ps ≠ []) :
    Part (joined ps) := by
  induction ps with
  | nil => exact absurd rfl hne
  | cons p ps ih =>
    have hp := hps p List.mem_cons_self
    cases ps with
    | nil =>
      rw [joined, List.flatMap_nil, List.append_nil]
      exact hp
    | cons q ps =>
      rw [joined_cons_cons]
      exact hp.join (ih (fun q hq => hps q (List.mem_cons_of_mem _ hq)) (List.cons_ne_nil q ps))

/-- What is read behind a space is read as it is read alone. -/
theorem classify_space (rest : List Char) :
    classify (' ' :: rest) = ⟨' ', .code⟩ :: classify rest :=
  classify_join (p := []) Lexer.fresh_start.toIdle isFirm_space rest

/-- A space is of the gap in front of what follows it. -/
theorem row_space (hs : List Glyph) : Reading.between.row (⟨' ', .code⟩ :: hs)
    = ⟨[], ' ' :: (Reading.between.row hs).gap, (Reading.between.row hs).tokens⟩ := by
  rw [row_cons, role_gap between_outside (show (⟨' ', .code⟩ : Glyph).isGap = true by decide)]
  dsimp only
  rw [row_between_rest]

/-- The tokens of a text with a space behind it that ends the last of them. -/
theorem tokenize_join {p : List Char} (hp : Complete p)
    (hout : ¬(Reading.between.through (classify p)).InGroup) (w : List Char) :
    tokenize (p ++ ' ' :: w)
      = addGap (Reading.between.row (classify (' ' :: w))).gap (tokenize p) ++ tokenize w := by
  have hspace : (⟨' ', .code⟩ : Glyph).isGap = true := by decide
  unfold tokenize
  rw [classify_join hp isFirm_space, classify_space, row_gap hout hspace, row_space]

/-- **The tokens of parts are theirs, one part behind the other.** -/
theorem tokenize_joined {ps : List (List Char)} (hps : ∀ p ∈ ps, Part p) :
    tokenize (joined ps) = rowOf ps := by
  induction ps with
  | nil => rfl
  | cons p ps ih =>
    have hp := hps p List.mem_cons_self
    cases ps with
    | nil =>
      rw [joined, List.flatMap_nil, List.append_nil]
      rfl
    | cons q ps =>
      have hrest : ∀ p ∈ q :: ps, Part p := fun q hq => hps q (List.mem_cons_of_mem _ hq)
      obtain ⟨g, gs, hbegins, hg⟩ := (part_joined hrest (List.cons_ne_nil q ps)).begins
      rw [joined_cons_cons, rowOf, ← ih hrest,
        tokenize_join hp.complete (through_nested hp.nested between_outside), classify_space,
        row_space, hbegins, row_begins hg]

end SchemaDrift.Table
