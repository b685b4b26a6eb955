/-
  SchemaDrift.Proofs.Table.Span
  ─────────────────────────────
  **THE TEXT OF A ROW OF TOKENS MAKES NO MARKER LINE.**

  The tokens of an entry lie in it one behind the other, each with its gap (`Laid`).  A
  token is over where it ends: with a bracket, a name or a sign of code, or with something
  quoted that is not quoted any longer, unless the entry ends there.  A marker ends in none
  of these ways, so a text cut out between tokens has no marker that the entry has not
  (`unmarked_span`), and neither has the inside of a group (`unmarked_inside`).
-/

import SchemaDrift.Proofs.Table.Body

namespace SchemaDrift.Table

open SchemaDrift.Sql SchemaDrift.Text

/-! ## §1. Where tokens lie. -/

/-- The glyphs `text` end in code, or with the end of what they quote, or with the entry. -/
def Ends (text behind : List Glyph) : Prop :=
  ∃ g, text.getLast? = some g
    ∧ (behind = [] ∨ g.cls = .code ∨ g.cls = .quoted ∧ ∀ h ∈ behind.head?, h.cls ≠ .quoted)

/-- A token of the glyphs `text` is over, with the glyphs `behind` following. -/
structure Over (kind : TokenKind) (text behind : List Glyph) : Prop where
  ends : Ends text behind
  word : kind = .word → ∀ g ∈ text, isTokenChar g.char = true
  /-- A group stands between brackets, the second of which may be missing at the end. -/
  group : kind = .group → ∃ opening inside, text = opening :: inside ∧ opening.cls = .code
    ∧ (opening.char = '(' ∨ opening.char = '[')
    ∧ (behind = [] ∨ ∃ m c, inside = m ++ [c] ∧ (c.char = ')' ∨ c.char = ']'))

/-- The tokens lie in the row of glyphs one behind the other. -/
inductive Laid : List Glyph → List Token → Prop where
  | nil : Laid [] []
  | cons {kind : TokenKind} {text gap gs : List Glyph} {ts : List Token}
      (hover : Over kind text (gap ++ gs)) (hrest : Laid gs ts) :
      Laid (text ++ (gap ++ gs)) (⟨kind, text.map Glyph.char, gap.map Glyph.char⟩ :: ts)

/-- What is known of a token when `done` of it is read and the reader is in `r`. -/
def Reading.Within (r : Reading) (kind : TokenKind) (done : List Glyph) : Prop :=
  match r with
  | .between => ∀ behind, Over kind done behind
  | .quoted =>
    (kind = .quotedIdent ∨ kind = .literal) ∧ ∃ g, done.getLast? = some g ∧ g.cls = .quoted
  | .word => kind = .word ∧ done ≠ [] ∧ ∀ g ∈ done, g.cls = .code ∧ isTokenChar g.char = true
  | .group opening _ => kind = .group ∧ (opening = '(' ∨ opening = '[')
    ∧ ∃ rest, done = ⟨opening, .code⟩ :: rest

/-- A glyph that goes on with no token begins one, or is of a gap. -/
theorem freshRole_cases (g : Glyph) : freshRole g = .gap
    ∨ ∃ kind r, freshRole g = .start kind r ∧ r.Within kind [g] := by
  unfold freshRole
  split
  · exact Or.inl rfl
  · next hcls =>
    right
    refine ⟨_, _, rfl, ?_, g, rfl, hcls⟩
    split
    · exact Or.inl rfl
    · exact Or.inr rfl
  · next hcls =>
    split
    · exact Or.inl rfl
    · right
      split
      · next hopen =>
        refine ⟨_, _, rfl, rfl, by simpa using hopen, [], ?_⟩
        rw [← hcls]
      · split
        · next hword =>
          refine ⟨_, _, rfl, rfl, by simp, ?_⟩
          intro x hx
          rw [List.mem_singleton.1 hx]
          exact ⟨hcls, hword⟩
        · refine ⟨_, _, rfl, fun behind => ⟨⟨g, rfl, Or.inr (Or.inl hcls)⟩, ?_, ?_⟩⟩
          · exact fun h => by cases h
          · exact fun h => by cases h

/-- A glyph that begins a token. -/
theorem within_start {r r' : Reading} {kind : TokenKind} {g : Glyph}
    (hrole : r.role g = .start kind r') : r'.Within kind [g] := by
  have hfresh : freshRole g = .start kind r' → r'.Within kind [g] := by
    intro hfresh
    rcases freshRole_cases g with h | ⟨k, r, h, hwithin⟩
    · rw [h] at hfresh
      cases hfresh
    · rw [h] at hfresh
      cases hfresh
      exact hwithin
  -- outside of groups a token begins as it does between tokens
  cases r with
  | between => exact hfresh hrole
  | quoted =>
    unfold Reading.role at hrole
    dsimp only at hrole
    split at hrole
    · cases hrole
    · exact hfresh hrole
  | word =>
    unfold Reading.role at hrole
    dsimp only at hrole
    split at hrole
    · cases hrole
    · exact hfresh hrole
  | group opening depth =>
    unfold Reading.role at hrole
    dsimp only at hrole
    split at hrole
    · cases hrole
    · split at hrole
      · split at hrole
        · cases hrole
        · cases hrole
      · cases hrole

/-- A token is over behind which no glyph goes on with it. -/
theorem over_of_within {r : Reading} {kind : TokenKind} {done : List Glyph} (h : r.Within kind done)
    {g : Glyph} (hrole : ∀ r', r.role g ≠ .more r') (gs : List Glyph) :
    Over kind done (g :: gs) := by
  -- by what is being read: it is over where the next character does not go on with it
  cases r with
  | between => exact h (g :: gs)
  | quoted =>
    obtain ⟨hkind, x, hx, hcls⟩ := h
    have hg : g.cls ≠ .quoted := by
      intro hg
      refine hrole .quoted ?_
      simp [Reading.role, hg]
    refine ⟨⟨x, hx, Or.inr (Or.inr ⟨hcls, ?_⟩)⟩, ?_, ?_⟩
    · rintro y ⟨⟩
      exact hg
    · rintro rfl
      rcases hkind with h | h <;> cases h
    · rintro rfl
      rcases hkind with h | h <;> cases h
  | word =>
    obtain ⟨rfl, hne, hall⟩ := h
    refine ⟨⟨done.getLast hne, List.getLast?_eq_some_getLast hne, Or.inr (Or.inl ?_)⟩, ?_, ?_⟩
    · exact (hall _ (List.getLast_mem hne)).1
    · exact fun _ x hx => (hall x hx).2
    · exact fun h => by cases h
  | group opening depth =>
    exfalso
    unfold Reading.role at hrole
    dsimp only at hrole
    split at hrole
    · exact hrole _ rfl
    · split at hrole
      · split at hrole
        · exact hrole _ rfl
        · exact hrole _ rfl
      · exact hrole _ rfl

/-- A glyph that goes on with a token. -/
theorem within_more {r r' : Reading} {kind : TokenKind} {done : List Glyph} (h : r.Within kind done)
    {g : Glyph} (hrole : r.role g = .more r') : r'.Within kind (done ++ [g]) := by
  -- a glyph that begins anew, or says nothing, does not go on with a token
  have hfresh : freshRole g ≠ .more r' := by
    rcases freshRole_cases g with h | ⟨k, r, h, -⟩
    · rw [h]
      exact fun h => by cases h
    · rw [h]
      exact fun h => by cases h
  cases r with
  | between => exact absurd hrole hfresh
  | quoted =>
    obtain ⟨hkind, -⟩ := h
    unfold Reading.role at hrole
    dsimp only at hrole
    split at hrole
    · next hcls =>
      cases hrole
      exact ⟨hkind, g, by simp, hcls⟩
    · exact absurd hrole hfresh
  | word =>
    obtain ⟨rfl, hne, hall⟩ := h
    unfold Reading.role at hrole
    dsimp only at hrole
    split at hrole
    · next hword =>
      cases hrole
      refine ⟨rfl, by simp, fun x hx => ?_⟩
      rcases List.mem_append.1 hx with hx | hx
      · exact hall x hx
      · rw [List.mem_singleton.1 hx]
        simpa using hword
    · exact absurd hrole hfresh
  | group opening depth =>
    obtain ⟨rfl, hopening, rest, rfl⟩ := h
    have hgroup : ∀ d, (Reading.group opening d).Within .group (⟨opening, .code⟩ :: rest ++ [g]) :=
      fun d => ⟨rfl, hopening, rest ++ [g], rfl⟩
    unfold Reading.role at hrole
    dsimp only at hrole
    split at hrole
    · cases hrole
      exact hgroup _
    · split at hrole
      · next hclosing =>
        split at hrole
        · cases hrole
          have hg := Glyph.isCode_iff.1 hclosing
          intro behind
          refine ⟨⟨g, by simp [List.getLast?_cons], Or.inr (Or.inl (by rw [hg]))⟩,
            (fun h => by cases h),
            fun _ => ?_⟩
          refine ⟨⟨opening, .code⟩, rest ++ [g], rfl, rfl, hopening, Or.inr ⟨rest, g, rfl, ?_⟩⟩
          rw [hg]
          rcases hopening with rfl | rfl
          · exact Or.inl rfl
          · exact Or.inr rfl
        · cases hrole
          exact hgroup _
      · cases hrole
        exact hgroup _

/-- At the end of the entry every token is over. -/
theorem over_at_end {r : Reading} {kind : TokenKind} {done : List Glyph} (h : r.Within kind done) :
    Over kind done [] := by
  cases r with
  | between => exact h []
  | quoted =>
    obtain ⟨hkind, x, hx, -⟩ := h
    refine ⟨⟨x, hx, Or.inl rfl⟩, ?_, ?_⟩
    · rintro rfl
      rcases hkind with h | h <;> cases h
    · rintro rfl
      rcases hkind with h | h <;> cases h
  | word =>
    obtain ⟨rfl, hne, hall⟩ := h
    exact ⟨⟨done.getLast hne, List.getLast?_eq_some_getLast hne, Or.inl rfl⟩,
      fun _ x hx => (hall x hx).2, fun h => by cases h⟩
  | group opening depth =>
    obtain ⟨rfl, hopening, rest, rfl⟩ := h
    refine ⟨⟨(⟨opening, .code⟩ :: rest).getLast (List.cons_ne_nil _ _),
      List.getLast?_eq_some_getLast _, Or.inl rfl⟩, (fun h => by cases h), fun _ => ?_⟩
    exact ⟨_, rest, rfl, rfl, hopening, Or.inl rfl⟩

/-- Between tokens nothing is left of a token. -/
theorem row_between_rest (gs : List Glyph) : (Reading.between.row gs).rest = [] := by
  cases gs with
  | nil => rfl
  | cons g gs =>
    unfold Reading.row
    rcases freshRole_cases g with h | ⟨kind, r, h, -⟩
    · rw [show Reading.between.role g = .gap from h]
      exact row_between_rest gs
    · rw [show Reading.between.role g = .start kind r from h]

/-- A row goes on with the role of its first glyph. -/
theorem row_cons (r : Reading) (g : Glyph) (gs : List Glyph) :
    r.row (g :: gs) = match r.role g with
      | .more r' => { r'.row gs with rest := g.char :: (r'.row gs).rest }
      | .start kind r' =>
        ⟨[], [], ⟨kind, g.char :: (r'.row gs).rest, (r'.row gs).gap⟩ :: (r'.row gs).tokens⟩
      | .gap => { Reading.between.row gs with gap := g.char :: (Reading.between.row gs).gap } :=
  rfl

/-- **What is read of a row of glyphs lies in it**: the rest of a token, a gap and tokens. -/
theorem row_laid {r : Reading} {kind : TokenKind} {done : List Glyph} (h : r.Within kind done)
    (gs : List Glyph) : ∃ more gap rest, gs = more ++ (gap ++ rest)
      ∧ (r.row gs).rest = more.map Glyph.char ∧ (r.row gs).gap = gap.map Glyph.char
      ∧ Over kind (done ++ more) (gap ++ rest) ∧ Laid rest (r.row gs).tokens := by
  induction gs generalizing r kind done with
  | nil =>
    exact ⟨[], [], [], rfl, rfl, rfl, by rw [List.append_nil]; exact over_at_end h, .nil⟩
  | cons g gs ih =>
    have hrow := row_cons r g gs
    have hover : (∀ r', r.role g ≠ .more r') → Over kind (done ++ []) (g :: gs) := by
      intro hrole
      rw [List.append_nil]
      exact over_of_within h hrole gs
    -- the character goes on with the token, begins another, or is a gap
    cases hrole : r.role g with
    | more r' =>
      rw [hrole] at hrow
      obtain ⟨more, gap, rest, rfl, hrest, hgap, hdone, hlaid⟩ := ih (within_more h hrole)
      rw [hrow]
      refine ⟨g :: more, gap, rest, rfl, ?_, hgap, ?_, hlaid⟩
      · dsimp only
        rw [hrest]
        rfl
      · rwa [List.append_assoc] at hdone
    | start kind' r' =>
      rw [hrole] at hrow
      obtain ⟨more, gap, rest, rfl, hrest, hgap, hdone, hlaid⟩ := ih (within_start hrole)
      rw [hrow]
      refine ⟨[], [], g :: (more ++ (gap ++ rest)), rfl, rfl, rfl, hover (by simp [hrole]), ?_⟩
      dsimp only
      rw [hrest, hgap]
      have hrow : Laid ((g :: more) ++ (gap ++ rest)) (⟨_, (g :: more).map Glyph.char, _⟩ :: _) :=
        Laid.cons hdone hlaid
      exact hrow
    | gap =>
      rw [hrole] at hrow
      have hwithin : Reading.between.Within .punct [⟨' ', .code⟩] := by
        intro behind
        exact ⟨⟨_, rfl, Or.inr (Or.inl rfl)⟩, (fun h => by cases h), fun h => by cases h⟩
      obtain ⟨more, gap, rest, rfl, hrest, hgap, -, hlaid⟩ := ih hwithin
      have hmore : more = [] := by
        rw [row_between_rest] at hrest
        exact List.map_eq_nil_iff.1 hrest.symm
      subst hmore
      rw [hrow]
      refine ⟨[], g :: gap, rest, rfl, ?_, ?_, hover (by simp [hrole]), hlaid⟩
      · exact row_between_rest _
      · dsimp only
        rw [hgap]
        rfl

/-- The tokens of an entry lie in it behind a gap. -/
theorem tokenize_laid (e : List Char) :
    ∃ gap gs, classify e = gap ++ gs ∧ Laid gs (tokenize e) := by
  have hwithin : Reading.between.Within .punct [⟨' ', .code⟩] := by
    intro behind
    exact ⟨⟨_, rfl, Or.inr (Or.inl rfl)⟩, (fun h => by cases h), fun h => by cases h⟩
  obtain ⟨more, gap, rest, hsplit, -, -, -, hlaid⟩ := row_laid hwithin (classify e)
  exact ⟨more ++ gap, rest, by rw [hsplit, List.append_assoc], hlaid⟩

/-- The tokens behind some others lie behind them. -/
theorem laid_right {gs : List Glyph} {ts ts' : List Token} (h : Laid gs (ts ++ ts')) :
    ∃ front behind, gs = front ++ behind ∧ Laid behind ts' := by
  induction ts generalizing gs with
  | nil => exact ⟨[], gs, rfl, h⟩
  | cons t ts ih =>
    cases h with
    | @cons kind text gap gs _ hover hrest =>
      obtain ⟨front, behind, rfl, hlaid⟩ := ih hrest
      exact ⟨text ++ (gap ++ front), behind, by simp, hlaid⟩

/-- The text of some tokens stands in front, and ends there. -/
theorem laid_span {gs : List Glyph} {ts ts' : List Token} (hne : ts ≠ [])
    (h : Laid gs (ts ++ ts')) :
    ∃ text behind, gs = text ++ behind ∧ spanText ts = text.map Glyph.char ∧ Ends text behind := by
  induction ts generalizing gs with
  | nil => exact absurd rfl hne
  | cons t ts ih =>
    cases h with
    | @cons kind text gap gs _ hover hrest =>
      cases ts with
      | nil => exact ⟨text, gap ++ gs, rfl, rfl, hover.ends⟩
      | cons t' ts =>
        obtain ⟨text', behind, rfl, hspan, g, hlast, hends⟩ := ih (List.cons_ne_nil t' ts) hrest
        refine ⟨text ++ (gap ++ text'), behind, by simp, ?_, g, ?_, hends⟩
        · rw [spanText, hspan, List.map_append, List.map_append, List.append_assoc]
          exact fun h => by cases h
        · rw [← List.append_assoc, List.getLast?_append, hlast]
          rfl

/-! ## §2. Markers and the ends of tokens. -/

/-- **No marker ends where glyphs end in code or with what they quote**: one that seems to
is there with what follows as well. -/
theorem marker_at_end {text behind : List Glyph} (hchain : (text ++ behind).IsChain Neighbours)
    (hends : Ends text behind) {u v : List Char} (htext : text.map Glyph.char = u ++ v)
    (hv : marker? v ≠ none) : marker? (v ++ behind.map Glyph.char) ≠ none := by
  obtain ⟨i, w, r, hshape, -, hw, -, hmore⟩ := marker?_shape hv
  by_cases hr : r = []
  · obtain ⟨g, hg, hends⟩ := hends
    cases behind with
    | nil => rwa [List.map_nil, List.append_nil]
    | cons h behind =>
      exfalso
      -- the glyphs of the marker, from its hyphens on
      rw [hshape, hr, List.append_nil, ← List.append_assoc] at htext
      obtain ⟨front, tail, rfl, -, htail⟩ := List.map_eq_append_iff.1 htext
      obtain ⟨a, tail, rfl, ha, htail⟩ := List.map_eq_cons_iff.1 htail
      obtain ⟨b, gs, rfl, hb, hgs⟩ := List.map_eq_cons_iff.1 htail
      have hchars : ∀ x ∈ gs, isMarkerChar x.char = true := by
        intro x hx
        refine hw x.char ?_
        rw [← hgs]
        exact List.mem_map_of_mem hx
      obtain ⟨htext, -, hjoint⟩ := List.isChain_append.1 hchain
      have hall := code_ends_no_marker (List.isChain_append.1 htext).2.1 ha hb
        fun x hx => stays_of_isMarkerChar (hchars x hx)
      have hmem : g ∈ a :: b :: gs := by
        rw [List.getLast?_append, List.getLast?_cons_cons] at hg
        refine List.mem_cons_of_mem a (List.mem_of_getLast? ?_)
        cases hl : (b :: gs).getLast? with
        | none => exact absurd (List.getLast?_eq_none_iff.1 hl) (List.cons_ne_nil b gs)
        | some y =>
          rw [hl] at hg
          exact hg
      have hquote : isQuote g.char = false := by
        rcases List.mem_cons.1 hmem with rfl | hmem
        · rw [ha]
          decide
        · rcases List.mem_cons.1 hmem with rfl | hmem
          · rw [hb]
            decide
          · exact isQuote_of_isMarkerChar (hchars g hmem)
      rcases hends with hnil | hcode | ⟨hquoted, hnext⟩
      · exact absurd hnil (List.cons_ne_nil h behind)
      · rcases hall with hall | hall
        · exact absurd ((hall g hmem).symm.trans hcode) (by decide)
        · exact absurd ((hall g hmem).symm.trans hcode) (by decide)
      · exact hnext h rfl ((hjoint g hg h rfl).quoted hquoted hquote)
  · exact hmore hr _

/-- **The text of some tokens of an entry makes no marker.** -/
theorem unmarked_span {e : List Char} (he : Unmarked [] e) {a ts b : List Token}
    (h : tokenize e = a ++ (ts ++ b)) : Unmarked [] (spanText ts) := by
  by_cases hne : ts = []
  · rw [hne]
    exact unmarked_of_not_mem (by simp [spanText])
  · obtain ⟨gap, gs, hclassify, hlaid⟩ := tokenize_laid e
    rw [h] at hlaid
    obtain ⟨front, rest, rfl, hrest⟩ := laid_right hlaid
    obtain ⟨text, behind, rfl, hspan, hends⟩ := laid_span hne hrest
    have hchain := classify_neighbours e
    rw [hclassify, ← List.append_assoc] at hchain
    have htext := (Lexer.glyphs_split hclassify).1
    intro u v huv
    rw [hspan] at huv
    by_contra hmarker
    rw [List.nil_append] at hmarker
    have hcut : text.map Glyph.char = (u ++ ['\n']) ++ v := by rw [huv]; simp
    refine marker_at_end (List.isChain_append.1 hchain).2.1 hends hcut hmarker ?_
    refine he (gap.map Glyph.char ++ (front.map Glyph.char ++ u)) _ ?_
    rw [htext]
    simp [huv]

/-! ## §3. The inside of a group. -/

/-- A line feed that is quoted in a text of its own is quoted in fresh code too, whatever
follows. -/
theorem inside_feed {s : Lexer} (hs : s.Fresh) {a b : List Glyph}
    (hsplit : classify (a.map Glyph.char ++ '\n' :: b.map Glyph.char) = a ++ ⟨'\n', .quoted⟩ :: b)
    {w : List Char} (hsound : s.Sound (a.map Glyph.char ++ '\n' :: w)) :
    (s.past (a.map Glyph.char) ('\n' :: w)).inside = .quoted := by
  have hfirm := fun q => (Lexer.reads_firm Lexer.delimited_start (c := '\n') (by decide +kernel)
    (by decide) (by decide) (a.map Glyph.char) q).2
  have hmode : (({} : Lexer).after (a.map Glyph.char)).mode.cls = .quoted := by
    by_contra hne
    obtain ⟨-, -, hglyphs⟩ := Lexer.glyphs_split hsplit
    have hsound' :=
      Lexer.sound_past (Lexer.sound_start (a.map Glyph.char ++ '\n' :: b.map Glyph.char))
    have henters := Lexer.advance_enters hsound'
    rw [List.map_cons, Lexer.glyphs] at hglyphs
    rw [(List.cons.inj hglyphs).1] at henters
    have hinside := Lexer.inside_after (Lexer.sound_start (a.map Glyph.char))
    rw [← (hfirm (b.map Glyph.char)).2 hne] at hinside hne
    rcases henters with he | ⟨-, he⟩ | ⟨-, he⟩
    · exact hne (hinside.symm.trans he.symm)
    · exact absurd he (by decide)
    · cases he
  obtain ⟨-, hpast⟩ := Lexer.alike_reads (Lexer.alike_start hs) (a.map Glyph.char) ('\n' :: w)
  refine Lexer.inside_of_mode (Lexer.sound_past hsound) ?_
  rw [hpast.mode, (hfirm w).1]
  exact hmode

theorem isQuote_of_isWordChar {c : Char} (hc : isWordChar c = true) : isQuote c = false := by
  by_contra hq
  rcases isQuote_iff.1 (Bool.not_eq_false _ ▸ hq) with rfl | rfl | rfl
  · exact absurd hc (by decide +kernel)
  · exact absurd hc (by decide +kernel)
  · exact absurd hc (by decide +kernel)

/-- A group that is never closed goes on to the end of the entry; there nothing quoted is
open, so the character that is cut off it hid no marker. -/
theorem unmarked_unclosed {e : List Char} (he : Clean e) {front : List Glyph} {opening : Glyph}
    {m : List Glyph} {x : Glyph} (hcode : opening.cls = .code)
    (hbracket : opening.char = '(' ∨ opening.char = '[')
    (hsplit : classify e = front ++ opening :: (m ++ [x])) : UnmarkedQuoted (m.map Glyph.char) := by
  have htext := (Lexer.glyphs_split hsplit).1
  rw [List.map_cons] at htext
  have hplain : isIdentChar opening.char = false ∧ opening.char ≠ '$' := by
    rcases hbracket with h | h
    · rw [h]
      decide +kernel
    · rw [h]
      decide +kernel
  have hopening : opening = ⟨opening.char, .code⟩ := by rw [← hcode]
  rw [hopening] at hsplit
  obtain ⟨s, hfresh, hsound, -, hafter⟩ :=
    Lexer.fresh_behind (Lexer.sound_start e) hplain.1 hplain.2 hsplit
  intro a b hm
  have htext' := (Lexer.glyphs_split hm).1
  rw [List.map_cons] at htext'
  by_contra hmarker
  obtain ⟨i, w, r, hshape, hi, hw, -, hmore⟩ := marker?_shape hmarker
  have hnone : marker? (b.map Glyph.char ++ [x.char]) = none := by
    refine he.unmarked (front.map Glyph.char ++ opening.char :: a.map Glyph.char) _ ?_
    rw [htext, List.map_append, htext']
    simp
  have hr : r = [] := by
    by_contra hr
    exact hmore hr [x.char] hnone
  have hx : isQuote x.char = false := by
    refine isQuote_of_isWordChar ?_
    by_contra hword
    refine marker?_extend hmarker (q := [x.char]) ?_ hnone
    show (!isWordChar x.char) = true
    rw [Bool.eq_false_iff.2 hword]
    rfl
  -- from the line feed on everything is quoted, up to the end of the entry
  have hquiet : ∀ c ∈ '\n' :: (b.map Glyph.char ++ [x.char]), isQuote c = false := by
    intro c hc
    rw [hshape, hr] at hc
    simp only [List.mem_cons, List.mem_append, List.append_nil, List.not_mem_nil, or_false] at hc
    rcases hc with rfl | (hc | rfl | rfl | hc) | rfl
    · decide
    · refine isQuote_of_isMarkerChar ?_
      unfold isMarkerChar
      rw [hi c hc]
      rfl
    · decide
    · decide
    · exact isQuote_of_isMarkerChar (hw c hc)
    · exact hx
  have hbehind : (m ++ [x]).map Glyph.char
      = a.map Glyph.char ++ '\n' :: (b.map Glyph.char ++ [x.char]) := by
    rw [List.map_append, htext']
    simp
  rw [hbehind] at hsound hafter
  rw [htext'] at hm
  have hfeed := inside_feed hfresh hm hsound
  have hopen := (Lexer.past_quoted (q := []) ((List.append_nil _).symm ▸ Lexer.sound_past hsound)
    hfeed hquiet).2
  rw [Lexer.past_whole, ← Lexer.after_append, hafter] at hopen
  exact he.closed hopen

/-- **The inside of a group of an entry makes no marker behind what is quoted.** -/
theorem unmarked_inside {e : List Char} (he : Clean e) {a b : List Token} {t : Token}
    (h : tokenize e = a ++ t :: b) (hgroup : t.kind = .group) {inside : List Char}
    (hinside : t.inside = .ok inside) : UnmarkedQuoted inside := by
  obtain ⟨gap, gs, hclassify, hlaid⟩ := tokenize_laid e
  rw [h] at hlaid
  obtain ⟨front, rest, rfl, hrest⟩ := laid_right hlaid
  cases hrest with
  | @cons kind text gap' rest ts hover _ =>
    obtain ⟨opening, ins, rfl, hcode, hbracket, hends⟩ := hover.group hgroup
    have htext := (Lexer.glyphs_split hclassify).1
    rcases List.eq_nil_or_concat ins with rfl | ⟨m, x, rfl⟩
    · have hnil : inside = [] := by
        unfold Token.inside at hinside
        exact (Except.ok.inj hinside).symm
      rw [hnil]
      exact (unmarked_of_not_mem (by simp)).quoted
    · rw [List.concat_eq_append] at hends hclassify hinside htext
      have htail :
          ((opening :: (m ++ [x])).map Glyph.char).tail = m.map Glyph.char ++ [x.char] := by
        simp
      -- the inside is what is left without the first and the last character
      have hm : inside = m.map Glyph.char := by
        unfold Token.inside at hinside
        dsimp only at hinside
        rw [htail, List.getLast?_concat] at hinside
        dsimp only at hinside
        split at hinside
        · rw [← Except.ok.inj hinside, List.dropLast_concat]
        · cases hinside
      rw [hm]
      rcases hends with hnil | ⟨m', c, hmc, hc⟩
      · rw [hnil, List.append_nil, ← List.append_assoc] at hclassify
        exact unmarked_unclosed he hcode hbracket hclassify
      · obtain ⟨rfl, hx⟩ := List.append_inj' hmc rfl
        have hunmarked := he.unmarked
        rw [htext, show gap.map Glyph.char ++ (front ++ (opening :: (m ++ [x])
            ++ (gap' ++ rest))).map Glyph.char
          = (gap.map Glyph.char ++ (front.map Glyph.char ++ [opening.char]))
            ++ (m.map Glyph.char ++ x.char :: (gap' ++ rest).map Glyph.char) by simp] at hunmarked
        refine (hunmarked.right.left ?_).quoted
        rw [List.singleton_inj.1 hx]
        rcases hc with hc | hc
        · rw [hc]
          rfl
        · rw [hc]
          rfl

/-- A word has no line feed. -/
theorem feed_not_mem_word {e : List Char} {a b : List Token} {t : Token}
    (h : tokenize e = a ++ t :: b) (hword : t.kind = .word) : '\n' ∉ t.text := by
  obtain ⟨gap, gs, -, hlaid⟩ := tokenize_laid e
  rw [h] at hlaid
  obtain ⟨front, rest, rfl, hrest⟩ := laid_right hlaid
  cases hrest with
  | @cons kind text gap' rest ts hover _ =>
    intro hmem
    obtain ⟨g, hg, hfeed⟩ := List.mem_map.1 hmem
    have htoken := hover.word hword g hg
    rw [hfeed] at htoken
    exact absurd htoken (by decide +kernel)

end SchemaDrift.Table
