/-
  SchemaDrift.Proofs.Sql.Reading
  ──────────────────────────────
  **READING A PART OF A TEXT.**

  A part of a text is read with what follows it in view: `s.reads p q` are the glyphs of
  `p` in front of `q`, and `s.past p q` is the state between the two.

      glyphs_append      the glyphs of `p ++ q` are those of `p` and those of `q`
      Sound              what every state that is reached knows of the text ahead
      quoting_advance    a quoted character that is no delimiter is not the last of what
                         it is quoted by

  What is quoted, or of a comment, therefore goes on until a character comes that can
  end it.
-/

import Mathlib.Data.List.Chain
import SchemaDrift.Proofs.Sql.Decisions

namespace SchemaDrift.Sql

open SchemaDrift.Text

namespace Lexer

/-! ## §1. Parts of a text. -/

/-- The state behind `p`, if `q` follows. -/
def past (s : Lexer) : List Char → List Char → Lexer
  | [], _ => s
  | c :: p, q => (s.advance c (p ++ q)).2.past p q

/-- The characters of `p` with their classes, if `q` follows. -/
def reads (s : Lexer) : List Char → List Char → List Glyph
  | [], _ => []
  | c :: p, q => ⟨c, (s.advance c (p ++ q)).1⟩ :: (s.advance c (p ++ q)).2.reads p q

@[simp] theorem past_nil (s : Lexer) (q : List Char) : s.past [] q = s := rfl

@[simp] theorem reads_nil (s : Lexer) (q : List Char) : s.reads [] q = [] := rfl

theorem past_cons (s : Lexer) (c : Char) (p q : List Char) :
    s.past (c :: p) q = (s.advance c (p ++ q)).2.past p q := rfl

theorem reads_cons (s : Lexer) (c : Char) (p q : List Char) :
    s.reads (c :: p) q
      = ⟨c, (s.advance c (p ++ q)).1⟩ :: (s.advance c (p ++ q)).2.reads p q := rfl

/-- **The glyphs of a text in two parts.** -/
theorem glyphs_append (s : Lexer) (p q : List Char) :
    s.glyphs (p ++ q) = s.reads p q ++ (s.past p q).glyphs q := by
  induction p generalizing s with
  | nil => rfl
  | cons c p ih =>
    rw [List.cons_append, glyphs, ih, reads_cons, past_cons, List.cons_append]

/-- The state behind a text in two parts. -/
theorem after_append (s : Lexer) (p q : List Char) : s.after (p ++ q) = (s.past p q).after q := by
  induction p generalizing s with
  | nil => rfl
  | cons c p ih => rw [List.cons_append, after, ih, past_cons]

theorem past_append (s : Lexer) (p p' q : List Char) :
    s.past (p ++ p') q = (s.past p (p' ++ q)).past p' q := by
  induction p generalizing s with
  | nil => rfl
  | cons c p ih => rw [List.cons_append, past_cons, past_cons, ih, List.append_assoc]

theorem reads_append (s : Lexer) (p p' q : List Char) :
    s.reads (p ++ p') q = s.reads p (p' ++ q) ++ (s.past p (p' ++ q)).reads p' q := by
  induction p generalizing s with
  | nil => rfl
  | cons c p ih =>
    rw [List.cons_append, reads_cons, reads_cons, past_cons, ih, List.append_assoc,
      List.cons_append]

/-- A whole text is read with nothing behind it. -/
theorem reads_whole (s : Lexer) (p : List Char) : s.reads p [] = s.glyphs p := by
  have h := s.glyphs_append p []
  rw [List.append_nil, glyphs, List.append_nil] at h
  exact h.symm

theorem past_whole (s : Lexer) (p : List Char) : s.past p [] = s.after p := by
  have h := s.after_append p []
  rw [List.append_nil, after] at h
  exact h.symm

theorem reads_map_char (s : Lexer) (p q : List Char) : (s.reads p q).map Glyph.char = p := by
  induction p generalizing s with
  | nil => rfl
  | cons c p ih => rw [reads_cons, List.map_cons, ih]

theorem reads_length (s : Lexer) (p q : List Char) : (s.reads p q).length = p.length := by
  rw [← List.length_map (f := Glyph.char), reads_map_char]

/-- Where the glyphs of a text are cut, the text is. -/
theorem glyphs_split {s : Lexer} {t : List Char} {gs hs : List Glyph} (h : s.glyphs t = gs ++ hs) :
    t = gs.map Glyph.char ++ hs.map Glyph.char
      ∧ s.reads (gs.map Glyph.char) (hs.map Glyph.char) = gs
      ∧ (s.past (gs.map Glyph.char) (hs.map Glyph.char)).glyphs (hs.map Glyph.char) = hs := by
  have ht : t = gs.map Glyph.char ++ hs.map Glyph.char := by
    rw [← List.map_append, ← h, glyphs_map_char]
  refine ⟨ht, ?_⟩
  rw [ht, glyphs_append] at h
  exact List.append_inj h (by rw [reads_length, List.length_map])

/-- The last character of a part. -/
theorem reads_concat (s : Lexer) (p : List Char) (c : Char) (q : List Char) :
    s.reads (p ++ [c]) q = s.reads p (c :: q) ++ [⟨c, ((s.past p (c :: q)).advance c q).1⟩] := by
  rw [reads_append, reads_cons]
  rfl

theorem past_concat (s : Lexer) (p : List Char) (c : Char) (q : List Char) :
    s.past (p ++ [c]) q = ((s.past p (c :: q)).advance c q).2 := by
  rw [past_append, past_cons]
  rfl

end Lexer

/-- A character as code is one glyph only. -/
theorem Glyph.isCode_iff {g : Glyph} {c : Char} : g.isCode c = true ↔ g = ⟨c, .code⟩ := by
  unfold Glyph.isCode
  rw [Bool.and_eq_true, decide_eq_true_eq, decide_eq_true_eq]
  constructor
  · rintro ⟨hcls, hchar⟩
    rw [← hcls, ← hchar]
  · rintro rfl
    exact ⟨rfl, rfl⟩

/-! ## §2. What a decision may be. -/

/-- The class of what a mode is inside of. -/
def Mode.cls : Mode → CharClass
  | .code => .code
  | .literal _ | .identifier | .dollar _ => .quoted
  | .lineComment | .blockComment _ => .comment

/-- What is quoted begins and ends with one of these. -/
def isQuote (c : Char) : Bool := c == '\'' || c == '"' || c == '$'

theorem isQuote_iff {c : Char} : isQuote c = true ↔ c = '\'' ∨ c = '"' ∨ c = '$' := by
  unfold isQuote
  simp only [Bool.or_eq_true, beq_iff_eq, or_assoc]

/-- The character can begin, in code, a token of the class. -/
def CharClass.opens (c : Char) : CharClass → Bool
  | .code => true
  | .quoted => isQuote c
  | .comment => c == '-' || c == '/'

/-- The character can be the last of a token of the class with code behind it. -/
def CharClass.closes (c : Char) : CharClass → Bool
  | .code => true
  | .quoted => isQuote c
  | .comment => c == '/'

/-- The decision is one that can be made in the mode, at `c` with `rest` behind it. -/
structure Decision.Fits (d : Decision) (m : Mode) (c : Char) (rest : List Char) : Prop where
  bound : d.more ≤ rest.length
  /-- A token of code is one character. -/
  code : d.cls = .code → d.more = 0
  /-- The token goes on with what the mode is inside of, begins in code, or ends a line
  comment. -/
  enters : d.cls = m.cls ∨ m = .code ∧ d.cls.opens c = true
    ∨ m = .lineComment ∧ c = '\n' ∧ d.cls = .code
  /-- Behind the token there is more of its class, or code. -/
  leaves : d.mode.cls = d.cls
    ∨ d.mode = .code ∧ ∃ x, (c :: rest)[d.more]? = some x ∧ d.cls.closes x = true
  delimiter : ∀ t, d.mode = .dollar t → IsDelimiter t

namespace Lexer

/-- A character that changes nothing. -/
theorem fits_stay {m : Mode} (hm : ∀ t, m = .dollar t → IsDelimiter t) (c : Char)
    (rest : List Char) : Decision.Fits ⟨m.cls, 0, m⟩ m c rest where
  bound := Nat.zero_le _
  code _ := rfl
  enters := Or.inl rfl
  leaves := Or.inl rfl
  delimiter := hm

/-- If the state is inside of a block, what closes it is a delimiter. -/
def Delimited (s : Lexer) : Prop := ∀ t, s.mode = .dollar t → IsDelimiter t

/-- **Every decision fits the mode it is made in.** -/
theorem decision_fits {s : Lexer} (hs : s.Delimited) (c : Char)
    (rest : List Char) : (s.decision c rest).Fits s.mode c rest := by
  have hahead : ∀ {x : Char}, rest.head? = some x → 1 ≤ rest.length ∧ (c :: rest)[1]? = some x := by
    intro x h
    obtain ⟨behind, rfl⟩ := List.head?_eq_some_iff.1 h
    exact ⟨by simp, rfl⟩
  unfold Delimited at hs
  have h := s.decides c rest
  generalize s.mode = m, s.decision c rest = d at hs h ⊢
  cases h with
  -- from code a token goes into what it opens
  | hyphens hc hnext | slashStar hc hnext =>
    exact ⟨(hahead hnext).1, by simp, by simp [CharClass.opens, hc], Or.inl rfl, by simp⟩
  | openLiteral hc | openIdentifier hc =>
    exact ⟨Nat.zero_le _, by simp, by simp [CharClass.opens, isQuote, hc], Or.inl rfl, by simp⟩
  | openBlock hc hd =>
    obtain ⟨hdelim, hlen⟩ := delimiter?_eq_some hd
    refine ⟨hlen, by simp, by simp [CharClass.opens, isQuote, hc], Or.inl rfl, ?_⟩
    intro t ht
    cases ht
    exact hdelim
  -- back to code a token ends with what closes its class
  | lineEnd hc => exact ⟨Nat.zero_le _, by simp, by simp [hc], Or.inl rfl, by simp⟩
  | closeComment hc hnext =>
    obtain ⟨hlen, hlast⟩ := hahead hnext
    exact ⟨hlen, by simp, Or.inl rfl, Or.inr ⟨rfl, '/', hlast, by decide⟩, by simp⟩
  | closeLiteral hc | closeIdentifier hc =>
    exact ⟨Nat.zero_le _, by simp, Or.inl rfl, by simp [CharClass.closes, isQuote, hc], by simp⟩
  | closeBlock hd =>
    obtain ⟨hlen, hlast⟩ := delimiter_in_front (hs _ rfl) hd
    exact ⟨hlen, by simp, Or.inl rfl, Or.inr ⟨rfl, '$', hlast, rfl⟩, by simp⟩
  -- a pair of characters goes on in the class
  | closeInner hc hnext | openInner hc hnext | doubledSingle hc hnext | doubledDouble hc hnext =>
    exact ⟨(hahead hnext).1, by simp, Or.inl rfl, Or.inl rfl, by simp⟩
  | escape hc hnext =>
    exact ⟨List.length_pos_iff.2 hnext, by simp, Or.inl rfl, Or.inl rfl, by simp⟩
  | code | lineComment | blockComment | literal | identifier | block => exact fits_stay hs c rest

/-! ## §3. What a state knows of the text ahead. -/

/-- The class of what the state is inside of. -/
def inside (s : Lexer) : CharClass := if s.held = 0 then s.mode.cls else s.heldClass

/-- The text ahead is one that the state can have been reached in front of. -/
structure Sound (s : Lexer) (ahead : List Char) : Prop where
  /-- What is held is there. -/
  bound : s.held ≤ ahead.length
  /-- Code is never held. -/
  held_class : s.held ≠ 0 → s.heldClass ≠ .code
  /-- Behind what is held there is more of its class, or code. -/
  leaves : ∀ n, s.held = n + 1 → s.mode.cls = s.heldClass
    ∨ s.mode = .code ∧ ∃ x, ahead[n]? = some x ∧ s.heldClass.closes x = true
  delimiter : s.Delimited

/-- A text is read from a state that expects nothing. -/
theorem sound_start (ahead : List Char) : ({} : Lexer).Sound ahead where
  bound := Nat.zero_le _
  held_class h := absurd rfl h
  leaves n h := by cases h
  delimiter t h := by cases h

variable {s : Lexer} {c : Char} {rest : List Char}

theorem advance_held {n : Nat} (h : s.held = n + 1) : s.advance c rest
    = (s.heldClass, { s with held := n, last := some c, beforeLast := s.last }) := by
  unfold advance
  rw [h]

theorem advance_decided (h : s.held = 0) : s.advance c rest
    = ((s.decision c rest).cls,
        { mode := (s.decision c rest).mode, held := (s.decision c rest).more,
          heldClass := (s.decision c rest).cls, last := some c, beforeLast := s.last }) := by
  unfold advance
  rw [h]

/-- What is held is read whatever is behind it. -/
theorem advance_congr {rest' : List Char}
    (h : s.held = 0 → s.decision c rest = s.decision c rest') :
    s.advance c rest = s.advance c rest' := by
  cases hn : s.held with
  | zero => rw [advance_decided hn, advance_decided hn, h hn]
  | succ n => rw [advance_held hn, advance_held hn]

theorem delimited_advance (hs : s.Delimited) (c : Char) (rest : List Char) :
    (s.advance c rest).2.Delimited := by
  cases h : s.held with
  | zero =>
    rw [advance_decided h]
    exact (decision_fits hs c rest).delimiter
  | succ n =>
    rw [advance_held h]
    exact hs

theorem sound_advance (hs : s.Sound (c :: rest)) : (s.advance c rest).2.Sound rest := by
  cases h : s.held with
  | zero =>
    have hfits := decision_fits hs.delimiter c rest
    rw [advance_decided h]
    refine ⟨hfits.bound, fun hmore hcode => hmore (hfits.code hcode), ?_, hfits.delimiter⟩
    intro n hn
    dsimp only at hn
    rcases hfits.leaves with hcls | ⟨hcode, x, hx, hcloses⟩
    · exact Or.inl hcls
    · rw [hn, List.getElem?_cons_succ] at hx
      exact Or.inr ⟨hcode, x, hx, hcloses⟩
  | succ n =>
    rw [advance_held h]
    have hbound := hs.bound
    rw [List.length_cons, h] at hbound
    refine ⟨Nat.le_of_succ_le_succ hbound, fun _ => hs.held_class (by omega), ?_, hs.delimiter⟩
    intro k hk
    dsimp only at hk
    rcases hs.leaves n h with hcls | ⟨hcode, x, hx, hcloses⟩
    · exact Or.inl hcls
    · rw [hk, List.getElem?_cons_succ] at hx
      exact Or.inr ⟨hcode, x, hx, hcloses⟩

theorem sound_past {p q : List Char} {s : Lexer} (hs : s.Sound (p ++ q)) :
    (s.past p q).Sound q := by
  induction p generalizing s with
  | nil => exact hs
  | cons c p ih => exact ih (sound_advance hs)

/-- At the end of a text nothing is held. -/
theorem held_after {s : Lexer} {t : List Char} (hs : s.Sound t) : (s.after t).held = 0 := by
  rw [← past_whole]
  have h := (sound_past (q := []) ((List.append_nil t).symm ▸ hs)).bound
  exact Nat.le_zero.1 h

theorem inside_after {s : Lexer} {t : List Char} (hs : s.Sound t) :
    (s.after t).inside = (s.after t).mode.cls := by
  unfold inside
  rw [held_after hs, if_pos rfl]

/-- In a mode that quotes, whatever is held is quoted. -/
theorem inside_of_mode {s : Lexer} {t : List Char} (hs : s.Sound t) (h : s.mode.cls = .quoted) :
    s.inside = .quoted := by
  unfold inside
  cases hn : s.held with
  | zero => exact h
  | succ n =>
    rw [if_neg (Nat.succ_ne_zero n)]
    rcases hs.leaves n hn with hl | ⟨hm, -⟩
    · exact hl.symm.trans h
    · rw [hm] at h
      cases h

/-! ## §4. One character behind the other. -/

/-- A character of this class can come where one is inside of `k`. -/
def Enters (k : CharClass) (g : Glyph) : Prop :=
  g.cls = k ∨ k = .code ∧ g.cls.opens g.char = true ∨ k = .comment ∧ g = ⟨'\n', .code⟩

/-- Behind the character one can be inside of `k`. -/
def Leaves (g : Glyph) (k : CharClass) : Prop :=
  k = g.cls ∨ k = .code ∧ g.cls.closes g.char = true

/-- What a character is, and what is behind it. -/
theorem advance_enters (hs : s.Sound (c :: rest)) : Enters s.inside ⟨c, (s.advance c rest).1⟩ := by
  unfold Enters inside
  cases h : s.held with
  | zero =>
    rw [advance_decided h, if_pos rfl]
    rcases (decision_fits hs.delimiter c rest).enters with he | ⟨hm, he⟩ | ⟨hm, hc, he⟩
    · exact Or.inl he
    · exact Or.inr (Or.inl ⟨by rw [hm]; rfl, he⟩)
    · subst hc
      exact Or.inr (Or.inr ⟨by rw [hm]; rfl, congrArg (Glyph.mk '\n') he⟩)
  | succ n =>
    rw [advance_held h, if_neg (Nat.succ_ne_zero n)]
    exact Or.inl rfl

theorem advance_leaves (hs : s.Sound (c :: rest)) :
    Leaves ⟨c, (s.advance c rest).1⟩ (s.advance c rest).2.inside := by
  unfold Leaves inside
  cases h : s.held with
  | zero =>
    rw [advance_decided h]
    dsimp only
    by_cases hmore : (s.decision c rest).more = 0
    · rw [if_pos hmore]
      rcases (decision_fits hs.delimiter c rest).leaves with hl | ⟨hm, x, hx, hl⟩
      · exact Or.inl hl
      · rw [hmore, List.getElem?_cons_zero] at hx
        cases hx
        exact Or.inr ⟨by rw [hm]; rfl, hl⟩
    · rw [if_neg hmore]
      exact Or.inl rfl
  | succ n =>
    rw [advance_held h]
    dsimp only
    by_cases hn : n = 0
    · rw [if_pos hn]
      rcases hs.leaves n h with hl | ⟨hm, x, hx, hl⟩
      · exact Or.inl hl
      · rw [hn, List.getElem?_cons_zero] at hx
        cases hx
        exact Or.inr ⟨by rw [hm]; rfl, hl⟩
    · rw [if_neg hn]
      exact Or.inl rfl

/-- The last character of a part, and what is behind it. -/
theorem past_leaves {s : Lexer} {p q : List Char} (hs : s.Sound (p ++ q)) {g : Glyph}
    (hg : (s.reads p q).getLast? = some g) : Leaves g (s.past p q).inside := by
  rcases List.eq_nil_or_concat p with rfl | ⟨p, c, rfl⟩
  · cases hg
  · rw [List.concat_eq_append] at hs hg ⊢
    rw [reads_concat, List.getLast?_concat] at hg
    cases hg
    rw [past_concat]
    rw [List.append_assoc] at hs
    exact advance_leaves (sound_past hs)

/-- Two hyphens are never code together. -/
theorem advance_hyphens (hs : s.Sound ('-' :: '-' :: rest)) :
    (s.advance '-' ('-' :: rest)).1 ≠ .code := by
  cases h : s.held with
  | zero =>
    rw [advance_decided h]
    have hdecides := s.decides '-' ('-' :: rest)
    generalize s.mode = m, s.decision '-' ('-' :: rest) = d at hdecides
    intro hcode
    cases hdecides with
    | code hhyphen => exact hhyphen ⟨rfl, rfl⟩
    | lineEnd hc => exact absurd hc (by decide)
    | _ => cases hcode
  | succ n =>
    rw [advance_held h]
    exact hs.held_class (by omega)

end Lexer

/-- The second character can stand right behind the first. -/
def Neighbours (g g' : Glyph) : Prop :=
  (∃ k, Lexer.Leaves g k ∧ Lexer.Enters k g') ∧ ¬(g = ⟨'-', .code⟩ ∧ g'.char = '-')

/-- **The characters of a text are neighbours**, each of the next. -/
theorem glyphs_neighbours {s : Lexer} {t : List Char} (hs : s.Sound t) :
    (s.glyphs t).IsChain Neighbours := by
  induction t generalizing s with
  | nil => exact .nil
  | cons c rest ih =>
    have hrest := ih (Lexer.sound_advance hs)
    cases rest with
    | nil => exact .singleton _
    | cons c' rest =>
      refine List.isChain_cons_cons.2 ⟨⟨⟨_, Lexer.advance_leaves hs,
        Lexer.advance_enters (Lexer.sound_advance hs)⟩, ?_⟩, hrest⟩
      rintro ⟨hg, hc'⟩
      obtain ⟨rfl, hcode⟩ := Glyph.mk.inj hg
      dsimp only at hc'
      subst hc'
      exact Lexer.advance_hyphens hs hcode

/-- The characters of a whole text are neighbours. -/
theorem classify_neighbours (t : List Char) : (classify t).IsChain Neighbours :=
  glyphs_neighbours (Lexer.sound_start t)

namespace Neighbours

variable {g g' : Glyph}

/-- What is quoted goes on behind a character that closes nothing. -/
theorem quoted (h : Neighbours g g') (hg : g.cls = .quoted) (hc : isQuote g.char = false) :
    g'.cls = .quoted := by
  obtain ⟨⟨k, hl, he⟩, -⟩ := h
  rcases hl with rfl | ⟨-, hl⟩
  · rw [hg] at he
    rcases he with he | ⟨he, -⟩ | ⟨he, -⟩
    · exact he
    · cases he
    · cases he
  · rw [hg] at hl
    exact absurd hl (by rw [CharClass.closes, hc]; decide)

/-- A comment goes on behind a character that closes none, or ends with the line. -/
theorem comment (h : Neighbours g g') (hg : g.cls = .comment) (hc : g.char ≠ '/') :
    g'.cls = .comment ∨ g' = ⟨'\n', .code⟩ := by
  obtain ⟨⟨k, hl, he⟩, -⟩ := h
  rcases hl with rfl | ⟨-, hl⟩
  · rw [hg] at he
    rcases he with he | ⟨he, -⟩ | ⟨-, he⟩
    · exact Or.inl he
    · cases he
    · exact Or.inr he
  · rw [hg] at hl
    exact absurd (by simpa [CharClass.closes] using hl) hc

/-- A character behind one of another class opens what it belongs to. -/
theorem opens (h : Neighbours g g') (hcls : g.cls ≠ g'.cls) : g'.cls.opens g'.char = true := by
  obtain ⟨⟨k, hl, he⟩, -⟩ := h
  rcases he with he | ⟨-, he⟩ | ⟨-, he⟩
  · rcases hl with hl | ⟨hl, -⟩
    · exact absurd (hl.symm.trans he.symm) hcls
    · rw [he, hl]
      rfl
  · exact he
  · rw [he]
    rfl

/-- What is quoted begins with a quote. -/
theorem opens_quoted (h : Neighbours g g') (hg : g.cls ≠ .quoted) (hg' : g'.cls = .quoted) :
    isQuote g'.char = true := by
  have hopens := h.opens (hg' ▸ hg)
  rw [hg'] at hopens
  exact hopens

/-- A comment begins with a hyphen or a slash. -/
theorem opens_comment (h : Neighbours g g') (hg : g.cls ≠ .comment) (hg' : g'.cls = .comment) :
    g'.char = '-' ∨ g'.char = '/' := by
  have hopens := h.opens (hg' ▸ hg)
  rw [hg'] at hopens
  simpa [CharClass.opens] using hopens

end Neighbours

end SchemaDrift.Sql
