/-
  SchemaDrift.Proofs.Table.Located
  ────────────────────────────────
  **THE TOKENS OF AN ENTRY LIE IN IT, AND BETWEEN THEM THERE IS NOTHING BUT GAPS.**

  A token begins as many bytes into the entry as there are in the gap in front of all tokens
  and in the tokens and gaps before it (`tokensAt`).  From its start to its stop the entry
  spells the token, the tokens do not overlap, and what is in none of them is white space in
  code or a comment (`LiesIn`).

      Grouped           a group is read up to the bracket that belongs to its first one, or,
                        where none does, to the end
      Covered           the glyphs of a row are those of the tokens and gaps, in order
      between_covered   reading covers a row, behind a gap
      mem_tokensAt      the place of one token
      tokensAt_liesIn   how the tokens of an entry lie in it
-/

import SchemaDrift.Proofs.Sql.Offsets
import SchemaDrift.Proofs.Table.Parts
import SchemaDrift.Proofs.Table.Stretches

namespace SchemaDrift.Table

open SchemaDrift.Sql SchemaDrift.Text
open String (utf8Len)

/-! ## §1. Where tokens are. -/

/-- A token with the number of bytes in front of it. -/
structure Located where
  token : Token
  start : Nat
  deriving Repr, DecidableEq

/-- The number of bytes up to the end of the token. -/
def Located.stop (p : Located) : Nat := p.start + utf8Len p.token.text

/-- What is so many bytes into the text is of the token. -/
def Located.Holds (p : Located) (offset : Nat) : Prop := p.start ≤ offset ∧ offset < p.stop

/-- The tokens of a row, `start` bytes being in front of the first. -/
def located (start : Nat) : List Token → List Located
  | [] => []
  | t :: ts => ⟨t, start⟩ :: located (start + (utf8Len t.text + utf8Len t.gap)) ts

/-- The tokens of a text and where they are. -/
def tokensAt (e : List Char) : List Located :=
  located (utf8Len (Reading.between.row (classify e)).gap) (tokenize e)

theorem located_token (start : Nat) (ts : List Token) :
    (located start ts).map Located.token = ts := by
  induction ts generalizing start with
  | nil => rfl
  | cons t ts ih => rw [located, List.map_cons, ih]

theorem le_start {start : Nat} {ts : List Token} {p : Located} (hp : p ∈ located start ts) :
    start ≤ p.start := by
  induction ts generalizing start with
  | nil => exact absurd hp List.not_mem_nil
  | cons t ts ih =>
    rcases List.mem_cons.1 hp with rfl | hp
    · exact Nat.le_refl start
    · exact (Nat.le_add_right _ _).trans (ih hp)

/-- **A token ends before the next one begins.** -/
theorem located_ordered (start : Nat) (ts : List Token) :
    (located start ts).Pairwise fun p q => p.stop ≤ q.start := by
  induction ts generalizing start with
  | nil => exact .nil
  | cons t ts ih =>
    refine .cons (fun q hq => ?_) (ih _)
    have hstart := le_start hq
    unfold Located.stop
    dsimp only
    omega

/-! ## §2. What reading leaves behind a token. -/

/-- The group `text` ends with the bracket that belongs to its first one.  If no bracket belongs
to that, the group goes on to the end of the row: nothing is `behind` it. -/
def Grouped (text behind : List Glyph) : Prop :=
  ∃ opening after, (opening = '(' ∨ opening = '[') ∧ text ++ behind = ⟨opening, .code⟩ :: after
    ∧ (∀ inside rest, after = inside ++ ⟨closing opening, .code⟩ :: rest → Balanced opening inside →
      text = ⟨opening, .code⟩ :: (inside ++ [⟨closing opening, .code⟩]))
    ∧ (¬Matched opening after → behind = [])

/-- A group is read to its end, and what is behind it is read afresh. -/
theorem group_run {opening : Char} (hopening : opening = '(' ∨ opening = '[') (gs : List Glyph) :
    ∃ more behind, gs = more ++ behind
      ∧ (Reading.group opening 0).row gs
        = { Reading.between.row behind with rest := more.map Glyph.char }
      ∧ Grouped (⟨opening, .code⟩ :: more) behind := by
  by_cases hmatched : Matched opening gs
  · obtain ⟨inside, behind, rfl, hinside⟩ := id hmatched
    refine ⟨inside ++ [⟨closing opening, .code⟩], behind, List.append_cons _ _ _, ?_,
      opening, _, hopening, ?_, ?_, fun hopen => absurd hmatched hopen⟩
    · rw [row_matched hopening hinside, List.map_append]
      rfl
    · rw [List.cons_append, ← List.append_cons]
    · intro inside' rest hsame hinside'
      rw [balanced_unique hopening hinside hinside' hsame]
  · refine ⟨gs, [], (List.append_nil gs).symm, row_unmatched hopening hmatched 0,
      opening, gs, hopening, List.append_nil _, ?_, fun _ => rfl⟩
    rintro inside rest rfl hinside
    exact absurd ⟨inside, rest, rfl, hinside⟩ hmatched

/-- Outside of groups a token is read to its end, and what is behind it is read afresh. -/
theorem outside_run {r : Reading} (hr : ¬r.InGroup) (gs : List Glyph) :
    ∃ more behind, gs = more ++ behind
      ∧ r.row gs = { Reading.between.row behind with rest := more.map Glyph.char } := by
  induction gs generalizing r with
  | nil => exact ⟨[], [], rfl, rfl⟩
  | cons g gs ih =>
    rcases role_outside hr g with hrole | ⟨r', hrole, hr'⟩
    · refine ⟨[], g :: gs, rfl, ?_⟩
      have hsame : r.row (g :: gs) = Reading.between.row (g :: gs) := by
        rw [row_cons, row_cons, hrole]
        rfl
      rw [hsame, List.map_nil, ← row_between_rest (g :: gs)]
    · obtain ⟨more, behind, rfl, hrow⟩ := ih hr'
      refine ⟨g :: more, behind, rfl, ?_⟩
      rw [row_cons, hrole]
      dsimp only
      rw [hrow]
      rfl

/-- **Any token is read to its end, and what is behind it is read afresh.** -/
theorem token_run {g : Glyph} {kind : TokenKind} {r : Reading} (h : freshRole g = .start kind r)
    (gs : List Glyph) : ∃ more behind, gs = more ++ behind
      ∧ r.row gs = { Reading.between.row behind with rest := more.map Glyph.char }
      ∧ (kind = .group → Grouped (g :: more) behind) := by
  rcases freshRole_group g with hgap | ⟨kind', r', hstart, hgroup, hkind⟩
  · rw [h] at hgap
    cases hgap
  · obtain ⟨rfl, rfl⟩ := Role.start.inj (h.symm.trans hstart)
    by_cases hr : r.InGroup
    · obtain ⟨rfl, hbracket⟩ := hgroup (hkind hr)
      have hopening : g.char = '(' ∨ g.char = '[' := by
        rcases hbracket with rfl | rfl
        · exact Or.inl rfl
        · exact Or.inr rfl
      have hcode : g = ⟨g.char, .code⟩ := by
        rcases hbracket with rfl | rfl
        · rfl
        · rfl
      obtain ⟨more, behind, hsplit, hrow, hgrouped⟩ := group_run hopening gs
      rw [← hcode] at hgrouped
      exact ⟨more, behind, hsplit, hrow, fun _ => hgrouped⟩
    · obtain ⟨more, behind, hsplit, hrow⟩ := outside_run hr gs
      refine ⟨more, behind, hsplit, hrow, fun hkind => ?_⟩
      exact absurd ⟨_, _, (hgroup hkind).1⟩ hr

/-- The glyphs of the row are those of the tokens, each with its gap, one behind the other. -/
inductive Covered : List Glyph → List Token → Prop where
  | nil : Covered [] []
  | cons {kind : TokenKind} {text gap gs : List Glyph} {ts : List Token} (htext : text ≠ [])
      (hgroup : kind = .group → Grouped text (gap ++ gs)) (hgap : ∀ g ∈ gap, g.isGap = true)
      (hrest : Covered gs ts) :
      Covered (text ++ (gap ++ gs)) (⟨kind, text.map Glyph.char, gap.map Glyph.char⟩ :: ts)

/-- **Reading covers a row**, but for a gap in front. -/
theorem between_covered (gs : List Glyph) : ∃ gap rest, gs = gap ++ rest
    ∧ (Reading.between.row gs).gap = gap.map Glyph.char ∧ (∀ g ∈ gap, g.isGap = true)
    ∧ Covered rest (Reading.between.row gs).tokens := by
  generalize hlen : gs.length = len
  induction len using Nat.strongRecOn generalizing gs with
  | _ len ih =>
    cases gs with
    | nil => exact ⟨[], [], rfl, rfl, fun g hg => absurd hg List.not_mem_nil, .nil⟩
    | cons g gs =>
      rw [List.length_cons] at hlen
      rw [row_cons]
      rcases freshRole_group g with hrole | ⟨kind, r, hrole, -⟩
      · obtain ⟨gap, rest, rfl, hgap, hblank, hcovered⟩ := ih gs.length (by omega) gs rfl
        rw [show Reading.between.role g = .gap from hrole]
        refine ⟨g :: gap, rest, rfl, congrArg (g.char :: ·) hgap, ?_, hcovered⟩
        intro x hx
        rcases List.mem_cons.1 hx with rfl | hx
        · exact isGap_of_role (r := .between) hrole
        · exact hblank x hx
      · obtain ⟨more, behind, rfl, hrow, hgroup⟩ := token_run hrole gs
        rw [List.length_append] at hlen
        obtain ⟨gap, rest, rfl, hgap, hblank, hcovered⟩ := ih behind.length (by omega) behind rfl
        rw [show Reading.between.role g = .start kind r from hrole]
        refine ⟨[], _, rfl, rfl, fun x hx => absurd hx List.not_mem_nil, ?_⟩
        dsimp only
        rw [hrow, hgap]
        have hfirst : Covered ((g :: more) ++ (gap ++ rest))
            (⟨kind, (g :: more).map Glyph.char, gap.map Glyph.char⟩ :: _) :=
          .cons (List.cons_ne_nil g more) hgroup hblank hcovered
        exact hfirst

/-! ## §3. Where the tokens of an entry lie. -/

/-- The token is the part `text` of a row, with `front` in front of it. -/
structure Located.Lies (p : Located) (front text behind : List Glyph) : Prop where
  start : p.start = size front
  spelled : p.token.text = text.map Glyph.char
  nonempty : text ≠ []
  grouped : p.token.kind = .group → Grouped text behind

namespace Located.Lies

variable {p : Located} {front text behind : List Glyph}

theorem stop (h : p.Lies front text behind) : p.stop = size front + size text := by
  unfold Located.stop size
  rw [h.start, h.spelled]
  rfl

theorem start_lt (h : p.Lies front text behind) : p.start < p.stop := by
  rw [h.stop, h.start]
  exact Nat.lt_add_of_pos_right (size_pos h.nonempty)

theorem stop_le (h : p.Lies front text behind) : p.stop ≤ size (front ++ (text ++ behind)) := by
  rw [h.stop, size_append, size_append, ← Nat.add_assoc]
  exact Nat.le_add_right _ _

/-- The bytes of the token spell it. -/
theorem extract (h : p.Lies front text behind) : String.Pos.Raw.extract
    (String.ofList ((front ++ (text ++ behind)).map Glyph.char)) ⟨p.start⟩ ⟨p.stop⟩
      = String.ofList p.token.text := by
  rw [h.stop, h.start, h.spelled, List.map_append, List.map_append, ← List.append_assoc]
  exact String.extract_of_valid _ _ _

end Located.Lies

/-- Every token of a covered row lies in it; `done` is in front of the row. -/
theorem mem_located {gs : List Glyph} {ts : List Token} (h : Covered gs ts) {done : List Glyph}
    {p : Located} (hp : p ∈ located (size done) ts) :
    ∃ front text behind, done ++ gs = front ++ (text ++ behind) ∧ p.Lies front text behind := by
  induction h generalizing done with
  | nil => exact absurd hp List.not_mem_nil
  | @cons kind text gap gs ts htext hgroup _ _ ih =>
    rcases List.mem_cons.1 hp with rfl | hp
    · exact ⟨done, text, gap ++ gs, rfl, rfl, rfl, htext, hgroup⟩
    · have hdone : size (done ++ (text ++ gap)) = size done
          + (utf8Len (text.map Glyph.char) + utf8Len (gap.map Glyph.char)) := by
        rw [size_append, size_append]
        rfl
      rw [← hdone] at hp
      obtain ⟨front, text', behind, hsplit, hlies⟩ := ih hp
      refine ⟨front, text', behind, ?_, hlies⟩
      rw [← hsplit]
      simp

/-- **What is in no token is of a gap.** -/
theorem isGap_outside {gs : List Glyph} {ts : List Token} (h : Covered gs ts) {start : Nat}
    {q : Nat × Glyph} (hq : q ∈ placed start gs) (hout : ∀ p ∈ located start ts, ¬p.Holds q.1) :
    q.2.isGap = true := by
  induction h generalizing start with
  | nil => exact absurd hq List.not_mem_nil
  | @cons kind text gap gs ts _ _ hgap _ ih =>
    rw [placed_append, placed_append] at hq
    rcases List.mem_append.1 hq with hq | hq
    · exact absurd (mem_placed hq).2 (hout _ List.mem_cons_self)
    · rcases List.mem_append.1 hq with hq | hq
      · exact hgap q.2 (mem_placed hq).1
      · rw [Nat.add_assoc] at hq
        exact ih hq fun p hp => hout p (List.mem_cons_of_mem _ hp)

/-- A gap that is no comment is white space in code. -/
theorem blank_of_isGap {g : Glyph} (h : g.isGap = true) (hcls : g.cls ≠ .comment) :
    g.cls = .code ∧ isBlank g.char = true := by
  obtain ⟨c, cls⟩ := g
  cases cls with
  | comment => exact absurd rfl hcls
  | quoted => cases h
  | code => exact ⟨rfl, h⟩

/-- The tokens of a text cover what is behind the gap in front of them. -/
theorem exists_covered (e : List Char) : ∃ gap gs, classify e = gap ++ gs
    ∧ (∀ g ∈ gap, g.isGap = true) ∧ Covered gs (tokenize e)
    ∧ tokensAt e = located (size gap) (tokenize e) := by
  obtain ⟨gap, gs, hsplit, hgap, hblank, hcovered⟩ := between_covered (classify e)
  refine ⟨gap, gs, hsplit, hblank, hcovered, ?_⟩
  unfold tokensAt size
  rw [hgap]

theorem mem_tokensAt {e : List Char} {p : Located} (hp : p ∈ tokensAt e) :
    ∃ front text behind, classify e = front ++ (text ++ behind) ∧ p.Lies front text behind := by
  obtain ⟨gap, gs, hsplit, -, hcovered, hat⟩ := exists_covered e
  rw [hat] at hp
  rw [hsplit]
  exact mem_located hcovered hp

theorem isGap_outside_tokens {e : List Char} {q : Nat × Glyph} (hq : q ∈ classifyAt e)
    (hout : ∀ p ∈ tokensAt e, ¬p.Holds q.1) : q.2.isGap = true := by
  obtain ⟨gap, gs, hsplit, hblank, hcovered, hat⟩ := exists_covered e
  rw [hat] at hout
  unfold classifyAt at hq
  rw [hsplit, placed_append, Nat.zero_add] at hq
  rcases List.mem_append.1 hq with hq | hq
  · exact hblank q.2 (mem_placed hq).1
  · exact isGap_outside hcovered hq hout

/-- How tokens lie in a text. -/
structure LiesIn (e : List Char) (ts : List Located) : Prop where
  ordered : ts.Pairwise fun p q => p.stop ≤ q.start
  nonempty : ∀ p ∈ ts, p.start < p.stop
  within : ∀ p ∈ ts, p.stop ≤ utf8Len e
  spelled : ∀ p ∈ ts,
    String.Pos.Raw.extract (String.ofList e) ⟨p.start⟩ ⟨p.stop⟩ = String.ofList p.token.text
  /-- What is in none of the tokens is white space that is not quoted, but for comments. -/
  outside : ∀ q ∈ classifyAt e, (∀ p ∈ ts, ¬p.Holds q.1) → q.2.cls ≠ .comment →
    q.2.cls = .code ∧ isBlank q.2.char = true
  grouped : ∀ p ∈ ts, p.token.kind = .group → ∃ front text behind,
    classify e = front ++ (text ++ behind) ∧ p.start = size front
      ∧ p.stop = size front + size text ∧ Grouped text behind

/-- **The tokens of an entry lie in it.** -/
theorem tokensAt_liesIn (e : List Char) : LiesIn e (tokensAt e) where
  ordered := located_ordered _ _
  nonempty p hp := by
    obtain ⟨front, text, behind, -, hlies⟩ := mem_tokensAt hp
    exact hlies.start_lt
  within p hp := by
    obtain ⟨front, text, behind, hsplit, hlies⟩ := mem_tokensAt hp
    rw [← size_classify, hsplit]
    exact hlies.stop_le
  spelled p hp := by
    obtain ⟨front, text, behind, hsplit, hlies⟩ := mem_tokensAt hp
    rw [← classify_map_char e, hsplit]
    exact hlies.extract
  outside q hq hout hcls := blank_of_isGap (isGap_outside_tokens hq hout) hcls
  grouped p hp hkind := by
    obtain ⟨front, text, behind, hsplit, hlies⟩ := mem_tokensAt hp
    exact ⟨front, text, behind, hsplit, hlies.start, hlies.stop, hlies.grouped hkind⟩

/-- A group with another bracket inside, a comment, and a group that is not closed.  What counts is
bytes. -/
example : (tokensAt "é (a[) /* ( */ [b)".toList).map (fun p => (p.start, p.stop))
    = [(0, 2), (3, 7), (16, 19)] := by decide +kernel

/-- **The entries and the tokens cover a table body.**  The entries of a text are the stretches
between the commas in code that are outside of brackets, trimmed, in order, without those that
are empty.  The tokens of a text lie in it one behind the other, and what is in none of them is
a gap; a group ends at the bracket that belongs to its first one, if any does. -/
theorem entries_tokens_cover (body entry : List Char) :
    (∃ pieces, CutAtCommas (classify body) pieces ∧ splitTopLevel body
      = (pieces.map fun piece => trim (piece.map Glyph.char)).filter (!·.isEmpty))
    ∧ (tokensAt entry).map Located.token = tokenize entry ∧ LiesIn entry (tokensAt entry) :=
  ⟨splitTopLevel_pieces body, located_token _ _, tokensAt_liesIn entry⟩

end SchemaDrift.Table
