/-
  SchemaDrift.Proofs.Sql.Deletion
  ───────────────────────────────
  **BLOCK COMMENTS TAKEN OUT OF A TEXT.**

  A block comment separates what is in front of it from what is behind.  Where it is taken out the
  two meet, and the comment leaves a space in the normal form unless there is one anyway: next to
  white space or another comment, at the beginning, and in front of what closes the text
  (`SetApart`).  As long as no two characters fuse where it was (`fuses`), that is exactly where
  taking it out leaves the normal form alone:

      reads_across            what is read in front of the comment, without it
      BlockComments.classify  the text comes apart at the comment
      normalize_iff           the normal form without it
-/

import SchemaDrift.Proofs.Sql.Closing

namespace SchemaDrift.Sql

open SchemaDrift.Text

/-! ## §1. What is read across the end of a part. -/

/-- Two characters of code that are one token, or of which the first ends no quote in front of the
second. -/
def fuses (l r : Char) : Bool :=
  [('-', '-'), ('/', '*'), ('\'', '\''), ('"', '"')].contains (l, r)

namespace Lexer

/-- Letters and digits in code are code. -/
theorem glyphs_word {s : Lexer} (hs : s.Idle) {t : List Char} (ht : ∀ c ∈ t, isIdentChar c = true) :
    ∀ g ∈ s.glyphs t, g.isGap = false := by
  induction t generalizing s with
  | nil => exact List.forall_mem_nil _
  | cons c rest ih =>
    obtain ⟨hc, hrest⟩ := List.forall_mem_cons.1 ht
    obtain ⟨hquote, hhyphen, hslash⟩ := plain_of_isIdentChar hc
    obtain ⟨hcode, hidle⟩ := advance_plain hs hquote hhyphen hslash rest
    rw [glyphs, List.forall_mem_cons]
    refine ⟨?_, ih hidle hrest⟩
    rw [isGap_code hcode]
    by_contra hblank
    rw [isIdentChar_of_isBlank (by simpa using hblank)] at hc
    cases hc

/-- A dollar tag that begins in a part of a text and ends behind it: the part holds the dollar sign
and the first characters of the tag. -/
theorem tag_across {s : Lexer} {p q : List Char} {r : Char} {d : List Char}
    (h : s.delimiter? (p ++ r :: q) = some d) (hlen : p.length < d.length - 1) :
    (∀ c ∈ p, isIdentChar c = true) ∧ (isIdentChar r = true ∨ r = '$') ∧ s.delimiter? p = none := by
  obtain ⟨hlast, name, behind, htext, hname, -, rfl⟩ := delimiter?_eq_some_iff.1 h
  have hle : p.length ≤ name.length := Nat.lt_succ_iff.1 (by simpa using hlen)
  obtain ⟨rest, rfl⟩ : p <+: name :=
    List.prefix_of_prefix_length_le (List.prefix_append p (r :: q)) ⟨_, htext.symm⟩ hle
  have hp : ∀ c ∈ p, isIdentChar c = true := fun c hc => hname c (List.mem_append_left rest hc)
  refine ⟨hp, ?_, ?_⟩
  · rw [List.append_assoc, List.append_cancel_left_eq] at htext
    cases rest with
    | nil => exact Or.inr (List.cons.inj htext).1
    | cons x rest =>
      rw [(List.cons.inj htext).1]
      exact Or.inl (hname x (by simp))
  · cases hpart : s.delimiter? p with
    | none => rfl
    | some d =>
      obtain ⟨-, name', behind', rfl, -⟩ := delimiter?_eq_some_iff.1 hpart
      exact absurd (hp '$' (by simp)) (by decide)

/-- What a tag that begins in the part `p` and ends behind it does to the part: what was code and
no gap is quoted, and the next character `r` is quoted too. -/
structure Across (s : Lexer) (p : List Char) (r : Char) (q : List Char) : Prop where
  tag : isIdentChar r = true ∨ r = '$'
  last : ∀ g ∈ (s.glyphs p).getLast?, g.isGap = false
  gaps : (s.reads p (r :: q)).map Glyph.isGap = (s.glyphs p).map Glyph.isGap
  next : ((s.past p (r :: q)).advance r q).1 = .quoted

theorem map_isGap {gs : List Glyph} (h : ∀ g ∈ gs, g.isGap = false) :
    gs.map Glyph.isGap = List.replicate gs.length false := by
  refine List.eq_replicate_iff.2 ⟨List.length_map .., fun b hb => ?_⟩
  obtain ⟨g, hg, rfl⟩ := List.mem_map.1 hb
  exact h g hg

/-- A tag goes on behind the part. -/
theorem across_of_tag {s : Lexer} (hm : s.mode = .code) (hheld : s.held = 0) {p q d : List Char}
    {r : Char} (hd : s.delimiter? (p ++ r :: q) = some d) (hlen : p.length < d.length - 1) :
    s.Across ('$' :: p) r q := by
  obtain ⟨hword, hr, hnone⟩ := tag_across hd hlen
  have halone : s.decision '$' p = ⟨.code, 0, .code⟩ :=
    decision_eq (.code (by simp) (by simp) (by decide) (by decide) fun _ => hnone) hm
  have hwhole : s.decision '$' (p ++ r :: q) = ⟨.quoted, d.length - 1, .dollar d⟩ :=
    decision_eq (.openBlock rfl hd) hm
  have hglyphs : ∀ g ∈ s.glyphs ('$' :: p), g.isGap = false := by
    rw [glyphs, advance_decided hheld, halone, List.forall_mem_cons]
    exact ⟨rfl, glyphs_word ⟨rfl, rfl⟩ hword⟩
  have hstate : (s.advance '$' (p ++ r :: q)).2
      = ⟨.dollar d, d.length - 1, .quoted, some '$', s.last⟩ := by
    rw [advance_decided hheld, hwhole]
  -- the tag takes the whole part and the character behind it
  have htaken : ∀ g ∈ (s.advance '$' (p ++ r :: q)).2.reads (p ++ [r]) q, g.cls = .quoted := by
    rw [hstate]
    refine reads_held (s := ⟨.dollar d, d.length - 1, .quoted, some '$', s.last⟩) ?_ q
    rw [List.length_append, List.length_singleton]
    exact hlen
  rw [reads_concat] at htaken
  have hreads : ∀ g ∈ s.reads ('$' :: p) (r :: q), g.isGap = false := by
    rw [reads_cons, List.forall_mem_cons]
    refine ⟨?_, fun g hg => ?_⟩
    · rw [advance_decided hheld, hwhole]
      rfl
    · exact isGap_quoted (htaken g (List.mem_append_left _ hg))
  refine ⟨hr, fun g hg => hglyphs g (List.mem_of_getLast? hg), ?_, ?_⟩
  · have hlength := congrArg List.length (glyphs_map_char s ('$' :: p))
    rw [List.length_map] at hlength
    rw [map_isGap hreads, map_isGap hglyphs, reads_length, hlength]
  · exact htaken _ (List.mem_append_right _ (List.mem_singleton_self _))

/-- A token of several characters has two, or ends a block, or begins with a tag. -/
theorem more_le_one {s : Lexer} (hmode : ∀ d, s.mode ≠ .dollar d) {c : Char}
    (hc : s.mode = .code → c ≠ '$') (t : List Char) : (s.decision c t).more ≤ 1 := by
  have h := s.decides c t
  generalize s.mode = m, s.decision c t = d at h hmode hc ⊢
  cases h with
  | openBlock hdollar => exact absurd hdollar (hc rfl)
  | closeBlock | block => exact absurd rfl (hmode _)
  | hyphens | slashStar | closeComment | closeInner | openInner | escape | doubledSingle
  | doubledDouble => exact Nat.le_refl 1
  | _ => exact Nat.zero_le 1

/-- A character behind which there is code is a token by itself in front of one that it does not
fuse with. -/
theorem more_eq_zero {s : Lexer} (hheld : s.held = 0) (hmode : ∀ d, s.mode ≠ .dollar d)
    {c r : Char} (hc : s.mode = .code → c ≠ '$') (hend : (s.advance c []).2.mode = .code)
    (hfuse : fuses c r = false) (q : List Char) : (s.decision c (r :: q)).more = 0 := by
  have hsep : ∀ {x y : Char}, fuses x y = true → c = x → r ≠ y := by
    rintro x y hxy rfl rfl
    rw [hfuse] at hxy
    cases hxy
  rw [advance_decided hheld] at hend
  have h := s.decides c (r :: q)
  generalize hm : s.mode = m, s.decision c (r :: q) = d at h hmode hc ⊢
  cases h with
  | openBlock hdollar => exact absurd hdollar (hc rfl)
  | closeBlock => exact absurd rfl (hmode _)
  | hyphens hfirst hnext => exact absurd (Option.some.inj hnext) (hsep (by decide) hfirst)
  | slashStar hfirst hnext => exact absurd (Option.some.inj hnext) (hsep (by decide) hfirst)
  | doubledSingle hfirst hnext => exact absurd (Option.some.inj hnext) (hsep (by decide) hfirst)
  | doubledDouble hfirst hnext => exact absurd (Option.some.inj hnext) (hsep (by decide) hfirst)
  -- by itself the character leaves the comment or the literal open
  | closeComment | closeInner | openInner =>
    rw [decision_eq (.blockComment (by simp) (by simp)) hm] at hend
    cases hend
  | escape hbackslash =>
    rw [decision_eq (.literal (fun _ _ => rfl) (by rw [hbackslash]; decide)) hm] at hend
    cases hend
  | _ => rfl

/-- A decision that takes the character behind the part `c :: p`, from which code is reached
without it, begins a tag. -/
theorem across_of_decision {s : Lexer} (hheld : s.held = 0) {c : Char}
    {p : List Char} (hend : ((s.advance c p).2.after p).Idle) {r : Char} {q : List Char}
    (hfuse : ∀ l ∈ (c :: p).getLast?, fuses l r = false)
    (hmore : p.length < (s.decision c (p ++ r :: q)).more) : s.Across (c :: p) r q := by
  by_cases hdollar : ∃ d, s.mode = .dollar d
  · -- the part is too short to end the block
    exfalso
    obtain ⟨d, hm⟩ := hdollar
    have hlen : (c :: p).length < d.length := by
      rw [List.length_cons]
      by_cases hd : d <+: c :: (p ++ r :: q)
      · rw [decision_eq (.closeBlock hd) hm] at hmore
        dsimp only at hmore
        omega
      · rw [decision_eq (.block hd) hm] at hmore
        exact absurd hmore (Nat.not_lt_zero _)
    have hmode := (glyphs_dollar hm hheld hlen).2
    rw [after, hend.mode] at hmode
    cases hmode
  by_cases htag : s.mode = .code ∧ c = '$'
  · obtain ⟨hm, rfl⟩ := htag
    cases hd : s.delimiter? (p ++ r :: q) with
    | none =>
      rw [decision_eq (.code (by simp) (by simp) (by decide) (by decide) fun _ => hd) hm] at hmore
      exact absurd hmore (Nat.not_lt_zero _)
    | some d =>
      rw [decision_eq (.openBlock rfl hd) hm] at hmore
      exact across_of_tag hm hheld hd hmore
  · exfalso
    have hmode : ∀ d, s.mode ≠ .dollar d := fun d hm => hdollar ⟨d, hm⟩
    have hc : s.mode = .code → c ≠ '$' := fun hm hc => htag ⟨hm, hc⟩
    have hle := more_le_one hmode hc (p ++ r :: q)
    obtain rfl : p = [] := List.length_eq_zero_iff.1 (by omega)
    have hzero := more_eq_zero hheld hmode hc hend.mode (hfuse c rfl) q
    rw [List.nil_append, hzero] at hmore
    exact absurd hmore (Nat.not_lt_zero _)

/-- **What is in front of a character is read by itself**, whatever the character, if code is
reached there, nothing fuses, and no tag goes on. -/
theorem reads_across {s : Lexer} (hs : s.Delimited) {p : List Char} (hend : (s.after p).Idle)
    {r : Char} {q : List Char} (hfuse : ∀ l ∈ p.getLast?, fuses l r = false) :
    (s.reads p (r :: q) = s.glyphs p ∧ s.past p (r :: q) = s.after p) ∨ s.Across p r q := by
  induction p generalizing s with
  | nil => exact Or.inl ⟨rfl, rfl⟩
  | cons c p ih =>
    -- only a decision at the end of `p` can look across; the others are made within `p`
    by_cases hmore : s.held = 0 ∧ p.length < (s.decision c (p ++ r :: q)).more
    · exact Or.inr (across_of_decision hmore.1 hend hfuse hmore.2)
    · have hadvance : s.advance c (p ++ r :: q) = s.advance c p :=
        advance_within hs fun hn => Nat.le_of_not_lt fun hlt => hmore ⟨hn, hlt⟩
      rw [after] at hend
      have hfuse' : ∀ l ∈ p.getLast?, fuses l r = false := fun l hl => hfuse l (by
        rw [List.getLast?_cons, Option.mem_def.1 hl]
        rfl)
      rw [reads_cons, past_cons, hadvance]
      by_cases hnil : p = []
      · subst hnil
        exact Or.inl ⟨rfl, rfl⟩
      rcases ih (delimited_advance hs c p) hend hfuse' with ⟨hreads, hpast⟩ | hacross
      · exact Or.inl ⟨by rw [hreads]; rfl, hpast⟩
      · right
        refine ⟨hacross.tag, ?_, ?_, ?_⟩
        · intro g hg
          have hne : (s.advance c p).2.glyphs p ≠ [] := by
            intro hglyphs
            have hchars := glyphs_map_char (s.advance c p).2 p
            rw [hglyphs] at hchars
            exact hnil hchars.symm
          rw [glyphs, List.getLast?_cons_of_ne_nil hne] at hg
          exact hacross.last g hg
        · rw [reads_cons, hadvance, List.map_cons, hacross.gaps, glyphs, List.map_cons]
        · rw [past_cons, hadvance]
          exact hacross.next

end Lexer

/-! ## §2. Block comments. -/

/-- Between `p` and `q` stands one block comment or several without anything between: what begins
and ends in code, and is comment all over. -/
structure BlockComments (p k q : List Char) : Prop where
  ne_nil : k ≠ []
  before : (({} : Lexer).past p (k ++ q)).Idle
  comment : ∀ g ∈ (({} : Lexer).past p (k ++ q)).reads k q, g.cls = .comment
  behind : (({} : Lexer).past (p ++ k) q).Idle

/-- **A text comes apart at a block comment.** -/
theorem BlockComments.classify {p k q : List Char} (h : BlockComments p k q) :
    (({} : Lexer).after p).Idle ∧ (∃ ks, IsRun ks
        ∧ classify (p ++ (k ++ q)) = Sql.classify p ++ (ks ++ Sql.classify q))
      ∧ (({} : Lexer).after (p ++ (k ++ q))).mode = (({} : Lexer).after q).mode := by
  obtain ⟨hreads, hpast⟩ := Lexer.reads_part Lexer.delimited_start h.before
  have hgaps : ∀ g ∈ (({} : Lexer).past p (k ++ q)).reads k q, g.isGap = true :=
    fun g hg => isGap_comment (h.comment g hg)
  have hne : (({} : Lexer).past p (k ++ q)).reads k q ≠ [] := by
    intro hnil
    have hchars := Lexer.reads_map_char (({} : Lexer).past p (k ++ q)) k q
    rw [hnil] at hchars
    exact h.ne_nil hchars.symm
  have hfresh : (({} : Lexer).past (p ++ k) q).Fresh := by
    refine Lexer.fresh_of_gap (Lexer.sound_start (p ++ k ++ q)) ?_
      (hgaps _ (List.getLast_mem hne)) h.behind
    rw [Lexer.reads_append, List.getLast?_append_of_ne_nil _ hne,
      List.getLast?_eq_some_getLast hne]
  obtain ⟨hglyphs, hmode⟩ := Lexer.glyphs_fresh hfresh q
  rw [Lexer.past_append] at hglyphs hmode
  refine ⟨hpast ▸ h.before, ⟨_, ⟨hne, hgaps⟩, ?_⟩, ?_⟩
  · show ({} : Lexer).glyphs _ = _
    rw [Lexer.glyphs_append, Lexer.glyphs_append, hglyphs, hreads]
    rfl
  · rw [Lexer.after_append, Lexer.after_append, hmode]

/-- The row says nothing at the end of another one. -/
def Closes (hs : List Glyph) : Prop := ∀ h ∈ hs, h.isGap = true ∨ isClosing h.char = true

/-- What stands between the two rows makes no difference to what they say: one of them is empty or
has a gap there, or the second only closes the text. -/
def SetApart (ps qs : List Glyph) : Prop :=
  ps = [] ∨ (∃ g ∈ ps.getLast?, g.isGap = true) ∨ (∃ h ∈ qs.head?, h.isGap = true)
    ∨ Closes qs

/-- Behind any code the rest of a text is read afresh that begins with no letter and no quote. -/
theorem Lexer.glyphs_apart {s : Lexer} (hs : s.Idle) {c : Char} (hc : isIdentChar c = false)
    (hc' : isQuote c = false) (rest : List Char) : s.glyphs (c :: rest) = classify (c :: rest)
      ∧ (s.after (c :: rest)).mode = (({} : Lexer).after (c :: rest)).mode := by
  refine Lexer.glyphs_behind hs fun x hx => ?_
  obtain rfl : c = x := Option.some.inj hx
  refine ⟨?_, ?_, ?_⟩
  · rintro rfl
    cases hc'
  · rintro rfl
    cases hc'
  · rintro (rfl | rfl) <;> exact absurd hc (by decide)

/-- The first character of a text that closes something or is a gap. -/
theorem apart_head {c : Char} {rest : List Char}
    (h : ∀ g ∈ (classify (c :: rest)).head?, g.isGap = true ∨ isClosing g.char = true) :
    isIdentChar c = false ∧ isQuote c = false := by
  rcases h _ rfl with hgap | hclosing
  · exact Lexer.gap_begins (Lexer.sound_start (c :: rest)) Lexer.fresh_start.toIdle hgap
  · unfold isClosing at hclosing
    rcases Bool.or_eq_true_iff.1 hclosing with hc | hc
    · obtain rfl : c = ';' := by simpa using hc
      decide +kernel
    · exact ⟨isIdentChar_of_isBlank hc, isQuote_of_isBlank hc⟩

/-- **Without a comment that was set apart a text reads as before.** -/
theorem BlockComments.delete {p k q : List Char} (h : BlockComments p k q)
    (hfuse : ∀ l ∈ p.getLast?, ∀ r ∈ q.head?, fuses l r = false)
    (hapart : SetApart (Sql.classify p) (Sql.classify q)) :
    Sql.classify (p ++ q) = Sql.classify p ++ Sql.classify q
      ∧ (({} : Lexer).after (p ++ q)).mode = (({} : Lexer).after q).mode := by
  obtain ⟨hidle, -, -⟩ := h.classify
  cases q with
  | nil =>
    rw [List.append_nil]
    exact ⟨(List.append_nil _).symm, hidle.mode⟩
  | cons r q =>
    have hparts : ∀ {s : Lexer}, ({} : Lexer).reads p (r :: q) = Sql.classify p →
        ({} : Lexer).past p (r :: q) = s → s.glyphs (r :: q) = Sql.classify (r :: q)
          ∧ (s.after (r :: q)).mode = (({} : Lexer).after (r :: q)).mode →
        Sql.classify (p ++ r :: q) = Sql.classify p ++ Sql.classify (r :: q)
          ∧ (({} : Lexer).after (p ++ r :: q)).mode = (({} : Lexer).after (r :: q)).mode := by
      rintro s hreads rfl ⟨hglyphs, hmode⟩
      refine ⟨?_, by rw [Lexer.after_append, hmode]⟩
      rw [← hreads, ← hglyphs]
      exact Lexer.glyphs_append _ _ _
    -- where the texts meet no token fuses, so that the first is read as it is alone
    have hacross := Lexer.reads_across (q := q) Lexer.delimited_start hidle
      fun l hl => hfuse l hl r rfl
    have hbehind : (∀ g ∈ (Sql.classify (r :: q)).head?, g.isGap = true ∨ isClosing g.char = true) →
        Sql.classify (p ++ r :: q) = Sql.classify p ++ Sql.classify (r :: q)
          ∧ (({} : Lexer).after (p ++ r :: q)).mode = (({} : Lexer).after (r :: q)).mode := by
      intro hhead
      obtain ⟨hident, hquote⟩ := apart_head hhead
      rcases hacross with ⟨hreads, hpast⟩ | hacross
      · exact hparts hreads hpast (Lexer.glyphs_apart hidle hident hquote q)
      · rcases hacross.tag with htag | rfl
        · rw [hident] at htag
          cases htag
        · cases hquote
    -- set apart by an empty text, by a gap on either side, or by what closes
    rcases hapart with hnil | ⟨g, hg, hgap⟩ | ⟨g, hg, hgap⟩ | hall
    · have hp := congrArg (List.map Glyph.char) hnil
      rw [classify_map_char] at hp
      rw [hp]
      exact ⟨rfl, rfl⟩
    · rcases hacross with ⟨hreads, hpast⟩ | hacross
      · refine hparts hreads hpast (Lexer.glyphs_fresh ?_ (r :: q))
        rw [← hpast] at hidle ⊢
        refine Lexer.fresh_of_gap (Lexer.sound_start (p ++ r :: q)) ?_ hgap hidle
        rw [hreads]
        exact hg
      · have hnot := hacross.last g hg
        rw [hgap] at hnot
        cases hnot
    · refine hbehind fun x hx => Or.inl ?_
      rw [Option.mem_def.1 hg] at hx
      cases hx
      exact hgap
    · exact hbehind fun x hx => hall x (List.mem_of_head? hx)

/-! ## §3. The normal form. -/

/-- Squeezing goes on behind a glyph that is no gap. -/
theorem squeeze_append_last {gs : List Glyph} (hne : gs ≠ [])
    (hlast : ∀ g ∈ gs.getLast?, g.isGap = false) (started pending : Bool) (hs : List Glyph) :
    squeeze started pending (gs ++ hs) = squeeze started pending gs ++ squeeze true false hs := by
  induction gs generalizing started pending with
  | nil => exact absurd rfl hne
  | cons g gs ih =>
    by_cases hnil : gs = []
    · subst hnil
      have hg := hlast g rfl
      rw [List.singleton_append]
      simp only [squeeze, hg, Bool.false_eq_true, if_false]
      split <;> rfl
    · have hbehind := ih hnil (fun x hx => hlast x (by
        rw [List.getLast?_cons_of_ne_nil hnil]
        exact hx))
      rw [List.cons_append, squeeze, squeeze]
      split
      · exact hbehind _ _
      split
      · rw [hbehind]
        rfl
      · rw [hbehind]
        rfl

/-- Squeezing looks at characters and at which of them are gaps. -/
theorem squeeze_congr {gs hs : List Glyph} (hchars : gs.map Glyph.char = hs.map Glyph.char)
    (hgaps : gs.map Glyph.isGap = hs.map Glyph.isGap) (started pending : Bool) :
    squeeze started pending gs = squeeze started pending hs := by
  induction gs generalizing hs started pending with
  | nil => rw [List.map_eq_nil_iff.1 hchars.symm]
  | cons g gs ih =>
    cases hs with
    | nil => cases hchars
    | cons h hs =>
      rw [List.map_cons, List.map_cons] at hchars hgaps
      obtain ⟨hchar, hchars⟩ := List.cons.inj hchars
      obtain ⟨hgap, hgaps⟩ := List.cons.inj hgaps
      rw [squeeze, squeeze, hgap, hchar, ih hchars hgaps, ih hchars hgaps]

theorem trimEndWhile_append {f : Char → Bool} (s : List Char) {t : List Char}
    (ht : trimEndWhile f t ≠ []) : trimEndWhile f (s ++ t) = s ++ trimEndWhile f t := by
  unfold trimEndWhile at ht ⊢
  rw [List.reverse_append, List.dropWhile_append, if_neg, List.reverse_append, List.reverse_reverse]
  rw [List.isEmpty_iff]
  exact fun hnil => ht (by rw [hnil]; rfl)

/-- Gaps next to another gap. -/
theorem respaced_beside {ps ks qs : List Glyph} (hks : IsRun ks)
    (h : (∃ g ∈ ps.getLast?, g.isGap = true) ∨ ∃ h ∈ qs.head?, h.isGap = true) :
    Respaced (ps ++ qs) (ps ++ (ks ++ qs)) := by
  rcases h with ⟨g, hg, hgap⟩ | ⟨g, hg, hgap⟩
  · obtain ⟨ps, rfl⟩ : ∃ l, ps = l ++ [g] := ⟨_, (List.dropLast_append_getLast? g hg).symm⟩
    rw [List.append_assoc, List.append_assoc, ← List.append_assoc [g] ks]
    exact (Respaced.refl ps).append
      (.run (isRun_singleton hgap) ((isRun_singleton hgap).append hks) (.refl qs))
  · obtain ⟨qs, rfl⟩ : ∃ l, qs = g :: l := ⟨_, (List.cons_head?_tail hg).symm⟩
    rw [← List.singleton_append, ← List.append_assoc ks]
    exact (Respaced.refl ps).append
      (.run (isRun_singleton hgap) (hks.append (isRun_singleton hgap)) (.refl qs))

theorem not_setApart {ps qs : List Glyph} (h : ¬SetApart ps qs) : ps ≠ []
    ∧ (∀ g ∈ ps.getLast?, g.isGap = false)
    ∧ ∃ g rest, qs = g :: rest ∧ g.isGap = false ∧ ∃ h ∈ qs, h.isSaying = true := by
  unfold SetApart Closes at h
  simp only [not_or, not_exists, not_and, Bool.not_eq_true, not_forall] at h
  obtain ⟨hne, hlast, hhead, g, hg, hgap, hclosing⟩ := h
  obtain ⟨x, rest, rfl⟩ := List.exists_cons_of_ne_nil (List.ne_nil_of_mem hg)
  refine ⟨hne, hlast, x, rest, rfl, hhead x rfl, g, hg, ?_⟩
  unfold Glyph.isSaying
  rw [hgap, hclosing]
  rfl

/-- Where nothing sets the comments apart, they leave a space in the normal form. -/
theorem BlockComments.normalize_space {p k q : List Char} (h : BlockComments p k q)
    (hapart : ¬SetApart (Sql.classify p) (Sql.classify q)) :
    ∃ z, normalize (p ++ (k ++ q)) = squeeze false false (Sql.classify p) ++ ' ' :: z := by
  obtain ⟨-, ⟨ks, hks, hwhole⟩, -⟩ := h.classify
  obtain ⟨hne, hlast, g, rest, hq, hg, hsaid⟩ := not_setApart hapart
  have hbehind : squeeze true false (ks ++ Sql.classify q) = ' ' :: squeeze false false (Sql.classify q) := by
    rw [Respaced.squeeze_run hks, hq]
    simp [squeeze, hg]
  have hkept : trimEndWhile isClosing (squeeze false false (Sql.classify q)) ≠ [] :=
    normalize_ne_nil.2 hsaid
  refine ⟨normalize q, ?_⟩
  unfold normalize
  rw [hwhole, squeeze_append_last hne hlast, hbehind, ← List.singleton_append, ← List.append_assoc,
    trimEndWhile_append _ hkept, List.append_assoc, List.singleton_append]

/-- Where nothing sets the comments apart, the characters around them meet in the normal form. -/
theorem BlockComments.squeeze_delete {p k q : List Char} (h : BlockComments p k q)
    (hfuse : ∀ l ∈ p.getLast?, ∀ r ∈ q.head?, fuses l r = false)
    (hapart : ¬SetApart (Sql.classify p) (Sql.classify q)) :
    ∃ r z, isBlank r = false ∧ squeeze false false (Sql.classify (p ++ q))
      = squeeze false false (Sql.classify p) ++ r :: z := by
  obtain ⟨hidle, -, -⟩ := h.classify
  obtain ⟨hne, hlast, g, rest, hq, hg, -⟩ := not_setApart hapart
  cases q with
  | nil => cases hq
  | cons r q =>
    have hfirst : g = ⟨r, (({} : Lexer).advance r q).1⟩ := (List.cons.inj hq).1.symm
    have hblank : isBlank r = false := by
      by_contra hr
      rw [Bool.not_eq_false] at hr
      have hcode := (Lexer.advance_plain Lexer.fresh_start.toIdle (isQuote_of_isBlank hr)
        (ne_of_isBlank hr (by decide)) (ne_of_isBlank hr (by decide)) q).1
      rw [hfirst, isGap_code hcode, hr] at hg
      cases hg
    -- the front has the same characters and the same gaps, and no gap follows
    have hfront : squeeze false false (({} : Lexer).reads p (r :: q))
          = squeeze false false (Sql.classify p)
        ∧ (∀ x ∈ (({} : Lexer).reads p (r :: q)).getLast?, x.isGap = false)
        ∧ (⟨r, ((({} : Lexer).past p (r :: q)).advance r q).1⟩ : Glyph).isGap = false := by
      rcases Lexer.reads_across (q := q) Lexer.delimited_start hidle
        fun l hl => hfuse l hl r rfl with ⟨hreads, hpast⟩ | hacross
      · rw [hreads, hpast]
        refine ⟨rfl, hlast, ?_⟩
        by_contra hgap
        rw [Bool.not_eq_false] at hgap
        have hsound := Lexer.sound_past (Lexer.sound_start (p ++ r :: q))
        rw [hpast] at hsound
        obtain ⟨hident, hquote⟩ := Lexer.gap_begins hsound hidle hgap
        rw [(Lexer.alike_behind hidle Lexer.fresh_start.toIdle hident hquote q).1, ← hfirst, hg] at hgap
        cases hgap
      · refine ⟨squeeze_congr ?_ hacross.gaps false false, fun x hx => ?_, ?_⟩
        · rw [Lexer.reads_map_char, glyphs_map_char]
        · have hmap := congrArg List.getLast? hacross.gaps
          rw [List.getLast?_map, List.getLast?_map, Option.mem_def.1 hx] at hmap
          obtain ⟨y, hy, hyx⟩ := Option.map_eq_some_iff.1 hmap.symm
          rw [← hyx]
          exact hlast y hy
        · exact isGap_quoted hacross.next
    obtain ⟨hsame, hends, hnext⟩ := hfront
    have hne' : ({} : Lexer).reads p (r :: q) ≠ [] := by
      intro hnil
      have hchars := Lexer.reads_map_char {} p (r :: q)
      rw [hnil] at hchars
      rw [← hchars] at hne
      exact hne rfl
    refine ⟨r, squeeze true false ((({} : Lexer).past p (r :: q)).advance r q |>.2.glyphs q),
      hblank, ?_⟩
    rw [show Sql.classify (p ++ r :: q) = ({} : Lexer).glyphs (p ++ r :: q) from rfl,
      Lexer.glyphs_append, squeeze_append_last hne' hends, hsame, Lexer.glyphs, squeeze, hnext]
    rfl

/-- **Taking block comments out leaves the normal form alone exactly where they are set apart**, as
long as nothing fuses. -/
theorem BlockComments.normalize_iff {p k q : List Char} (h : BlockComments p k q)
    (hfuse : ∀ l ∈ p.getLast?, ∀ r ∈ q.head?, fuses l r = false) :
    normalize (p ++ q) = normalize (p ++ (k ++ q))
      ↔ SetApart (Sql.classify p) (Sql.classify q) := by
  constructor
  · intro heq
    -- else the comment leaves a space that is not there without it
    by_contra hapart
    obtain ⟨z, hz⟩ := h.normalize_space hapart
    obtain ⟨r, z', hr, hz'⟩ := h.squeeze_delete hfuse hapart
    obtain ⟨rest, hrest, -⟩ :=
      exists_trimmed isClosing (squeeze false false (Sql.classify (p ++ q)))
    rw [show trimEndWhile isClosing (squeeze false false (Sql.classify (p ++ q)))
      = normalize (p ++ q) from rfl, heq, hz, hz', List.append_assoc, List.append_cancel_left_eq,
      List.cons_append] at hrest
    rw [(List.cons.inj hrest).1] at hr
    exact absurd hr (by decide)
  · intro hapart
    obtain ⟨-, ⟨ks, hks, hwhole⟩, -⟩ := h.classify
    have hdelete := (h.delete hfuse hapart).1
    have hbeside : ((∃ g ∈ (Sql.classify p).getLast?, g.isGap = true)
        ∨ ∃ h ∈ (Sql.classify q).head?, h.isGap = true) →
        normalize (p ++ q) = normalize (p ++ (k ++ q)) := by
      intro hgap
      refine normalize_respaced ?_
      rw [hdelete, hwhole]
      exact respaced_beside hks hgap
    rcases hapart with hnil | hgap | hgap | hall
    · unfold normalize
      rw [hdelete, hwhole, hnil, List.nil_append, List.nil_append, squeeze_gaps_append hks.gaps]
    · exact hbeside (Or.inl hgap)
    · exact hbeside (Or.inr hgap)
    · unfold normalize
      rw [hdelete, hwhole, normal_append hall, ← List.append_assoc, normal_append hall,
        normal_append fun x hx => Or.inl (hks.gaps x hx)]

end SchemaDrift.Sql
