/-
  SchemaDrift.Proofs.Sql.Hidden
  ─────────────────────────────
  **WHAT IS QUOTED OR COMMENTED SETS NO DIRECTIVE.**

  The interior of a literal, a quoted identifier, a dollar-quoted block or a block comment is
  exchanged for another text (`Interior.fill`).  If all that is outside of it is read as
  before, and no line of the new text is one of settings in code, then the directives are the
  same, and so is what is wrong with them, down to the number of the line
  (`directives_hidden`):

      in front     a line that begins in code and holds the opening is no line of settings
      within       no line feed is code, so that no line begins in code
      behind       the lines are the same, and have the same numbers

  That the outside is read as before does not suffice.  A text that leaves the construct and
  enters one of the same kind again can say anything in between
  (`directives_between_literals`).
-/

import SchemaDrift.Proofs.Sql.Addressed
import SchemaDrift.Proofs.Sql.Enclosing

namespace SchemaDrift.Sql

open SchemaDrift.Text

/-! ## §1. Interiors. -/

/-- What stands around the interior of an enclosure: the text in front of it, the beginning of it
and all that follows the interior. -/
structure Interior where
  front : List Char
  opening : List Char
  rest : List Char

namespace Interior

variable (f : Interior)

/-- The text with the interior `x`. -/
def fill (x : List Char) : List Char := f.front ++ (f.opening ++ (x ++ f.rest))

/-- With the interior `x` an enclosure of the kind `what` begins with the opening, and is not left
before the end of the interior. -/
structure Holds (what : Enclosure) (x : List Char) : Prop where
  opens : f.opening ≠ []
  encloses : (({} : Lexer).past f.front (f.opening ++ (x ++ f.rest))).EnclosedIn what
    (f.opening ++ x) f.rest

/-- The characters in front of the interior and behind it, with their classes. -/
def outside (x : List Char) : List Glyph × List Glyph :=
  ((classify (f.fill x)).take (f.front ++ f.opening).length,
    (classify (f.fill x)).drop ((f.front ++ f.opening).length + x.length))

/-- No line that begins in code within the interior, or right behind it, has settings. -/
def SetsNothing (x : List Char) : Prop :=
  ∀ n ≤ x.length,
    startsBehind true ((classify (f.fill x)).take ((f.front ++ f.opening).length + n)) = true →
      settingAt (x.drop n ++ f.rest) = none

instance (x : List Char) : Decidable (f.SetsNothing x) :=
  inferInstanceAs (Decidable (∀ n ≤ x.length,
    startsBehind true ((classify (f.fill x)).take ((f.front ++ f.opening).length + n)) = true →
      settingAt (x.drop n ++ f.rest) = none))

variable {f : Interior} {what : Enclosure} {x x' : List Char}

/-- An enclosure that is left again holds what stands between its opening and its closing. -/
theorem holds_of_encloses {front opening x closing back : List Char} (hopen : opening ≠ [])
    (h : (({} : Lexer).past front (opening ++ (x ++ closing) ++ back)).Encloses what
      (opening ++ (x ++ closing)) back) :
    Holds ⟨front, opening, closing ++ back⟩ what x := by
  refine ⟨hopen, ?_⟩
  have hfront := h.enclosedIn
  rw [← List.append_assoc opening, List.append_assoc _ closing] at hfront
  have hkept := hfront.front (List.append_ne_nil_of_left_ne_nil hopen x)
  rwa [List.append_assoc opening] at hkept

/-! ## §2. The text around an interior. -/

/-- The glyphs of a text with the interior `x`, cut around it. -/
structure Cut (f : Interior) (x : List Char) (gs os xs rs : List Glyph) : Prop where
  row : classify (f.fill x) = gs ++ (os ++ (xs ++ rs))
  front : gs.map Glyph.char = f.front
  opening : os.map Glyph.char = f.opening
  interior : xs.map Glyph.char = x
  rest : rs.map Glyph.char = f.rest

theorem exists_cut (f : Interior) (x : List Char) : ∃ gs os xs rs, f.Cut x gs os xs rs := by
  obtain ⟨gs, row, hrow, hgs, htail⟩ := List.map_eq_append_iff.1 (classify_map_char (f.fill x))
  obtain ⟨os, row', rfl, hos, htail'⟩ := List.map_eq_append_iff.1 htail
  obtain ⟨xs, rs, rfl, hxs, hrs⟩ := List.map_eq_append_iff.1 htail'
  exact ⟨gs, os, xs, rs, hrow, hgs, hos, hxs, hrs⟩

variable {gs os xs xs' rs : List Glyph}

namespace Cut

theorem lengths (h : f.Cut x gs os xs rs) : (f.front ++ f.opening).length = (gs ++ os).length
    ∧ x.length = xs.length := by
  rw [← h.front, ← h.opening, ← h.interior, ← List.map_append, List.length_map, List.length_map]
  exact ⟨rfl, rfl⟩

theorem outside (h : f.Cut x gs os xs rs) : f.outside x = (gs ++ os, rs) := by
  obtain ⟨hfront, hinterior⟩ := h.lengths
  have hrow : classify (f.fill x) = (gs ++ os) ++ (xs ++ rs) := by
    rw [h.row, List.append_assoc]
  unfold Interior.outside
  rw [hfront, hinterior, ← List.length_append, hrow, List.take_left, ← List.append_assoc,
    List.drop_left]

/-- Texts that are read alike around their interiors are cut alike. -/
theorem of_outside (h : f.Cut x gs os xs rs) (hout : f.outside x' = f.outside x) :
    ∃ xs', f.Cut x' gs os xs' rs := by
  obtain ⟨gs', os', xs', rs', h'⟩ := f.exists_cut x'
  rw [h.outside, h'.outside] at hout
  obtain ⟨hfront, rfl⟩ := Prod.mk.inj hout
  obtain ⟨rfl, rfl⟩ := List.append_inj hfront (by
    rw [← List.length_map (f := Glyph.char), h'.front, ← h.front, List.length_map])
  exact ⟨xs', h'⟩

/-- No character of the enclosure up to the end of the interior is code. -/
theorem not_code (hcut : f.Cut x gs os xs rs) (h : f.Holds what x) :
    ∀ g ∈ os ++ xs, g.cls ≠ .code := by
  obtain ⟨-, -, hglyphs⟩ := Lexer.glyphs_split hcut.row
  obtain ⟨-, hreads, -⟩ := Lexer.glyphs_split (hglyphs.trans (List.append_assoc os xs rs).symm)
  simp only [List.map_append, hcut.front, hcut.opening, hcut.interior, hcut.rest] at hreads
  have hsound : (({} : Lexer).past f.front (f.opening ++ (x ++ f.rest))).Sound
      (f.opening ++ x ++ f.rest) := by
    rw [List.append_assoc]
    exact Lexer.sound_past (Lexer.sound_start (f.fill x))
  intro g hg
  rw [← hreads] at hg
  rw [h.encloses.reads hsound g hg]
  exact what.cls_ne_code

end Cut

/-! ## §3. Lines of settings. -/

/-- No line begins in code behind what is none. -/
theorem startsBehind_of_not_code {us row : List Glyph} (hne : row ≠ [])
    (hrow : ∀ g ∈ row, g.cls ≠ .code) (starts : Bool) : startsBehind starts (us ++ row) = false := by
  unfold startsBehind
  rw [List.getLast?_append_of_ne_nil us hne, List.getLast?_eq_some_getLast hne]
  show (row.getLast hne).isCode '\n' = false
  by_contra hcode
  rw [Bool.not_eq_false, Glyph.isCode_iff] at hcode
  have hcls := hrow _ (List.getLast_mem hne)
  rw [hcode] at hcls
  exact hcls rfl

/-- What is no white space and no hyphen stands behind the hyphens of an addressed line. -/
theorem exists_hyphens {m z b w : List Char} {c : Char} (hc : isBlank c = false) (hhyphen : c ≠ '-')
    (hb : ∀ d ∈ b, isBlank d = true) (h : m ++ c :: z = b ++ '-' :: '-' :: w) :
    ∃ m', m = b ++ '-' :: '-' :: m' := by
  rcases List.append_eq_append_iff.1 h with ⟨a, rfl, ha⟩ | ⟨a, rfl, ha⟩
  · cases a with
    | nil => exact absurd (List.cons.inj ha).1 hhyphen
    | cons d a =>
      -- it stands among the white space
      rw [← (List.cons.inj ha).1] at hb
      rw [hb c (List.mem_append_right m List.mem_cons_self)] at hc
      cases hc
  · cases a with
    | nil => exact absurd (List.cons.inj ha).1.symm hhyphen
    | cons d a =>
      obtain ⟨rfl, hbehind⟩ := List.cons.inj ha
      cases a with
      | nil => exact absurd (List.cons.inj hbehind).1.symm hhyphen
      | cons e a =>
        obtain ⟨rfl, -⟩ := List.cons.inj hbehind
        exact ⟨a, rfl⟩

/-- **A line that begins in code and holds the opening is not addressed**, whatever follows: two
hyphens in front of the opening would hide it. -/
theorem Cut.not_addressed (hcut : f.Cut x gs os xs rs) (h : f.Holds what x) {us vs : List Glyph}
    (hsplit : gs ++ os = us ++ vs) (hvs : vs ≠ []) (hinline : '\n' ∉ vs.map Glyph.char)
    (hstarts : startsBehind true us = true) (z : List Char) :
    isAddressed (headLine (vs.map Glyph.char ++ z)) = false := by
  have hgs : ∃ m, gs = us ++ m ∧ vs = m ++ os := by
    rcases List.append_eq_append_iff.1 hsplit with ⟨m, hus, hos⟩ | ⟨m, hgs, hvs⟩
    · cases m with
      | nil => exact ⟨[], by rw [hus, List.append_nil, List.append_nil], hos.symm⟩
      | cons g m =>
        -- no line begins in code behind the first character of the opening
        have hnone : startsBehind true (gs ++ g :: m) = false := by
          refine startsBehind_of_not_code (List.cons_ne_nil g m) (fun k hk => ?_) true
          refine hcut.not_code h k (List.mem_append_left xs ?_)
          rw [hos]
          exact List.mem_append_left vs hk
        rw [hus, hnone] at hstarts
        cases hstarts
    · exact ⟨m, hgs, hvs⟩
  obtain ⟨m, hgs, rfl⟩ := hgs
  by_contra haddressed
  rw [Bool.not_eq_false, headLine_append hinline, List.map_append, hcut.opening] at haddressed
  obtain ⟨b, b', w, hline, hb, -⟩ := isAddressed_iff.1 haddressed
  obtain ⟨p, hp⟩ := h.encloses.head
  obtain ⟨c, opening, hopening⟩ := List.exists_cons_of_ne_nil h.opens
  rw [hopening] at hp
  obtain rfl : c = what.opener := (List.cons.inj hp).1
  have hopener : isBlank what.opener = false ∧ what.opener ≠ '-' := by
    cases what <;> decide
  rw [hopening, List.append_assoc, List.cons_append] at hline
  obtain ⟨m', hm⟩ := exists_hyphens hopener.1 hopener.2 hb hline
  -- behind the hyphens there is a comment, where no enclosure begins
  have hfront : f.front = us.map Glyph.char ++ (b ++ '-' :: '-' :: m') := by
    rw [← hcut.front, hgs, List.map_append, hm]
  have hidle : (({} : Lexer).past (us.map Glyph.char)
      ((b ++ '-' :: '-' :: m') ++ (f.opening ++ (x ++ f.rest)))).Idle := by
    have hrow : classify (f.fill x) = us ++ (m ++ (os ++ (xs ++ rs))) := by
      rw [hcut.row, hgs, List.append_assoc]
    have hbegins := idle_of_starts hrow hstarts
    simpa only [List.map_append, hm, hcut.opening, hcut.interior, hcut.rest] using hbegins
  have hm' : '\n' ∉ m' := fun hmem => hinline (by simp [hm, hmem])
  have hcomment := (Lexer.reads_hyphens
    (Lexer.idle_past_blanks hb hidle ('-' :: '-' :: m' ++ (f.opening ++ (x ++ f.rest))))
    hm' (f.opening ++ (x ++ f.rest))).2.1
  have hcode := h.encloses.idle.mode
  rw [hfront, Lexer.past_append, Lexer.past_append _ b] at hcode
  rw [hcode] at hcomment
  cases hcomment

/-- What is set in front of the end of the interior and by the line that it ends in is none of it:
the settings are those of the lines in front of the enclosure and of the lines behind the
interior. -/
theorem Cut.numberedSettings (hcut : f.Cut x gs os xs rs) (last : Nat)
    (hquiet : ∀ us vs, xs = us ++ vs → startsBehind true (gs ++ os ++ us) = true →
      settingAt ((vs ++ rs).map Glyph.char) = none) :
    numberedSettings last true (classify (f.fill x))
      = atStarts (fun y => (settingAt ((y ++ (xs ++ rs)).map Glyph.char)).map fun body =>
          (last - lineFeeds ((y ++ (xs ++ rs)).map Glyph.char), body)) true (gs ++ os)
        ++ Sql.numberedSettings last false rs := by
  have hrow : classify (f.fill x) = (gs ++ os) ++ (xs ++ rs) := by
    rw [hcut.row, List.append_assoc]
  rw [hrow, Sql.numberedSettings, atStarts_append]
  refine congrArg _ (atStarts_quiet fun us vs hsplit hstarts => ?_)
  rw [← startsBehind_append] at hstarts
  rw [hquiet us vs hsplit hstarts]
  rfl

/-- No line begins in code in an interior, nor right behind it. -/
theorem Cut.startsBehind_interior (hcut : f.Cut x gs os xs rs) (h : f.Holds what x)
    {us vs : List Glyph} (hsplit : xs = us ++ vs) : startsBehind true (gs ++ os ++ us) = false := by
  have hne : os ≠ [] := by
    rintro rfl
    exact h.opens hcut.opening.symm
  rw [List.append_assoc]
  refine startsBehind_of_not_code (List.append_ne_nil_of_left_ne_nil hne us) (fun g hg => ?_) true
  refine hcut.not_code h g ?_
  rw [hsplit, ← List.append_assoc]
  exact List.mem_append_left vs hg

/-- What sets nothing has no settings where a line begins in code. -/
theorem Cut.settingAt_interior (hcut : f.Cut x gs os xs rs) (hquiet : f.SetsNothing x)
    {us vs : List Glyph} (hsplit : xs = us ++ vs)
    (hstarts : startsBehind true (gs ++ os ++ us) = true) :
    settingAt ((vs ++ rs).map Glyph.char) = none := by
  have hx : x = us.map Glyph.char ++ vs.map Glyph.char := by
    rw [← hcut.interior, hsplit, List.map_append]
  have hlength : us.length = (us.map Glyph.char).length := (List.length_map _).symm
  have htake : (classify (f.fill x)).take ((f.front ++ f.opening).length + us.length)
      = gs ++ os ++ us := by
    have hrow : classify (f.fill x) = (gs ++ os ++ us) ++ (vs ++ rs) := by
      rw [hcut.row, hsplit]
      simp only [List.append_assoc]
    rw [hcut.lengths.1, ← List.length_append, hrow, List.take_left]
  have hdrop : x.drop us.length = vs.map Glyph.char := by
    rw [hx, hlength, List.drop_left]
  have hset := hquiet us.length (by rw [hx, hlength, List.length_append]; omega) (by rwa [htake])
  rwa [hdrop, ← hcut.rest, ← List.map_append] at hset

/-- **Interiors set nothing.**  An interior is exchanged for another one with as many line feeds,
all characters outside of it being of the same classes as before.  If no line that begins in code
in the new interior is one of settings, the directives of the text stay as they are, and so does
what is wrong with them. -/
theorem directives_hidden (h : f.Holds what x) (hfeeds : lineFeeds x' = lineFeeds x)
    (hout : f.outside x' = f.outside x) (hquiet : f.SetsNothing x') :
    directives (f.fill x') = directives (f.fill x) := by
  obtain ⟨gs, os, xs, rs, hcut⟩ := f.exists_cut x
  obtain ⟨xs', hcut'⟩ := hcut.of_outside hout
  have hsum : ∀ y : List Char, lineFeeds (y ++ (x' ++ f.rest)) = lineFeeds (y ++ (x ++ f.rest)) := by
    intro y
    simp only [lineFeeds_append, hfeeds]
  have hlast : lineFeeds (f.fill x') = lineFeeds (f.fill x) := by
    unfold fill
    rw [← List.append_assoc, ← List.append_assoc f.front, hsum]
  have hback : ∀ us vs, xs = us ++ vs → startsBehind true (gs ++ os ++ us) = true →
      settingAt ((vs ++ rs).map Glyph.char) = none := by
    intro us vs hsplit hstarts
    rw [hcut.startsBehind_interior h hsplit] at hstarts
    cases hstarts
  rw [directives_eq, directives_eq, hlast, hcut.numberedSettings _ hback,
    hcut'.numberedSettings _ fun us vs => hcut'.settingAt_interior hquiet]
  -- what is left to compare are the lines that begin in front of the interior
  refine congrArg (fun ss => List.foldlM Directives.applyAt {} (ss ++ _)) ?_
  refine atStarts_congr fun us vs hsplit hvs => ?_
  by_cases hstarts : startsBehind true us = true
  · rw [if_pos hstarts, if_pos hstarts]
    simp only [List.map_append, hcut.interior, hcut'.interior, hcut.rest, hsum]
    refine congrArg (Option.map _) ?_
    unfold settingAt
    by_cases hfeed : '\n' ∈ vs.map Glyph.char
    · rw [headLine_of_mem hfeed, headLine_of_mem hfeed]
    · have hnone : ∀ z, settingAt (vs.map Glyph.char ++ z) = none := by
        intro z
        by_contra hset
        have haddressed := isAddressed_of_setting hset
        rw [hcut.not_addressed h hsplit hvs hfeed hstarts] at haddressed
        cases haddressed
      exact (hnone _).trans (hnone _).symm
  · rw [if_neg hstarts, if_neg hstarts]

/-- A literal, with `behind` behind its statement. -/
def selected (behind : List Char) : Interior :=
  ⟨"SELECT ".toList, ['\''], ['\''] ++ (';' :: behind)⟩

/-- A line of settings in a literal, and another one behind it. -/
theorem directives_hidden_literal :
    directives ((selected "\n-- sqlsync: declarativeTable=true".toList).fill
        "\n-- sqlsync: splitStatements=true\n".toList)
      = directives ((selected "\n-- sqlsync: declarativeTable=true".toList).fill
        "a\n\nb".toList) := by
  have hholds : (selected "\n-- sqlsync: declarativeTable=true".toList).Holds .literal
      "a\n\nb".toList :=
    holds_of_encloses (List.cons_ne_nil _ _) (by decide +kernel)
  exact directives_hidden hholds (by decide +kernel) (by decide +kernel) (by decide +kernel)

/-- A text that leaves the literal and enters another has the line between them in code. -/
theorem directives_between_literals :
    (selected []).Holds .literal "a\n\nb".toList
      ∧ lineFeeds "a'\n-- sqlsync: splitStatements=true\n'b".toList = lineFeeds "a\n\nb".toList
      ∧ (selected []).outside "a'\n-- sqlsync: splitStatements=true\n'b".toList
        = (selected []).outside "a\n\nb".toList
      ∧ directives ((selected []).fill "a\n\nb".toList) = .ok {}
      ∧ directives ((selected []).fill "a'\n-- sqlsync: splitStatements=true\n'b".toList)
        = .ok { splitStatements := true } :=
  ⟨holds_of_encloses (List.cons_ne_nil _ _) (by decide +kernel), by decide +kernel⟩

end Interior

end SchemaDrift.Sql
