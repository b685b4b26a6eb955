/-
  SchemaDrift.Proofs.Sql.Pieces
  ─────────────────────────────
  **THE PIECES OF A TEXT ARE READ AS THEY WERE READ IN IT.**

  A text is cut behind every semicolon that is code, and each piece is taken for a text of
  its own.  Nothing is open where it is cut, and no token reaches across a semicolon.  So
  the characters of a piece have the classes that they have in the text, and what follows
  is read afresh (`Settled`).  The white space around a piece changes nothing either.

      pieces_cases           the first piece, and the pieces of what follows it
      pieces_selfContained   nothing is open in a piece, and no semicolon is in it but the last
      pieces_settled         every piece but the last ends with its semicolon
-/

import SchemaDrift.Proofs.Sql.Layout
import SchemaDrift.Proofs.Text.Lines
import SchemaDrift.Sql.Split

namespace SchemaDrift.Sql

open SchemaDrift.Text

/-! ## §1. Texts behind which code begins afresh. -/

/-- What follows the text is read as it is by itself, whatever it is. -/
def Settled (q : List Char) : Prop := ∀ w, classify (q ++ w) = classify q ++ classify w

theorem Settled.append {q r : List Char} (hq : Settled q) (hr : Settled r) : Settled (q ++ r) := by
  intro w
  rw [List.append_assoc, hq, hr, hq, List.append_assoc]

/-- A text is settled that is read in one way and leads to fresh code. -/
theorem settled_of_reads {q : List Char} (h : ∀ w, ({} : Lexer).reads q w = classify q
    ∧ (({} : Lexer).past q w).Fresh) : Settled q := by
  intro w
  obtain ⟨hreads, hfresh⟩ := h w
  have halike := (Lexer.alike_reads (Lexer.alike_start hfresh) w []).1
  rw [Lexer.reads_whole, Lexer.reads_whole] at halike
  have hwhole : classify (q ++ w) = ({} : Lexer).reads q w ++ (({} : Lexer).past q w).glyphs w :=
    Lexer.glyphs_append _ q w
  rw [hwhole, hreads, halike]
  rfl

/-- White space in code is code. -/
theorem Lexer.reads_blanks {s : Lexer} (hs : s.Idle) {b : List Char}
    (hb : ∀ c ∈ b, isBlank c = true) (q : List Char) :
    s.reads b q = b.map fun c => ⟨c, .code⟩ := by
  induction b generalizing s with
  | nil => rfl
  | cons c b ih =>
    have hc : isBlank c = true := hb c List.mem_cons_self
    obtain ⟨hcls, hidle⟩ := advance_plain hs (isQuote_of_isBlank hc)
      (ne_of_isBlank hc (by decide)) (ne_of_isBlank hc (by decide)) (b ++ q)
    rw [reads_cons, hcls, ih hidle fun c hc => hb c (List.mem_cons_of_mem _ hc)]
    rfl

theorem classify_blanks {b : List Char} (hb : ∀ c ∈ b, isBlank c = true) :
    classify b = b.map fun c => ⟨c, .code⟩ := by
  have h := Lexer.reads_blanks Lexer.fresh_start.toIdle hb []
  rw [Lexer.reads_whole] at h
  exact h

theorem settled_blanks {b : List Char} (hb : ∀ c ∈ b, isBlank c = true) : Settled b := by
  refine settled_of_reads fun w => ⟨?_, (Lexer.fresh_blanks Lexer.fresh_start hb).2⟩
  rw [Lexer.reads_blanks Lexer.fresh_start.toIdle hb, classify_blanks hb]

/-- What is read up to a semicolon behind which code goes on. -/
theorem Lexer.reads_semicolon {p : List Char} (hp : (({} : Lexer).after p).Idle) (w : List Char) :
    ({} : Lexer).reads (p ++ [';']) w = classify p ++ [⟨';', .code⟩]
      ∧ (({} : Lexer).past (p ++ [';']) w).Fresh := by
  obtain ⟨hfront, -, hpast⟩ := reads_firm delimited_start (c := ';') (by decide +kernel)
    (by decide) (by decide) p w
  have hstate := hpast (by rw [hp.mode]; decide)
  obtain ⟨hcode, hidle⟩ := advance_plain (c := ';') hp (by decide) (by decide) (by decide) w
  rw [reads_concat, past_concat, hfront, hstate, hcode]
  refine ⟨rfl, hidle, ?_⟩
  rw [advance_last]
  decide +kernel

/-- A semicolon in code is code, and what follows it is read afresh. -/
theorem settled_semicolon {p : List Char} (hp : (({} : Lexer).after p).Idle) :
    classify (p ++ [';']) = classify p ++ [⟨';', .code⟩] ∧ Settled (p ++ [';']) := by
  have hclassify : classify (p ++ [';']) = classify p ++ [⟨';', .code⟩] := by
    have h := (Lexer.reads_semicolon hp []).1
    rw [Lexer.reads_whole] at h
    exact h
  refine ⟨hclassify, settled_of_reads fun w => ?_⟩
  rw [hclassify]
  exact Lexer.reads_semicolon hp w

/-! ## §2. The first piece. -/

/-- **A text without a semicolon in code is one piece; else the first piece ends at the first
of them**, in the middle of code, and the others are those of what follows. -/
theorem pieces_cases (t : List Char) :
    (∀ g ∈ classify t, g.isCode ';' = false) ∧ pieces t = (if t.isEmpty then [] else [t])
      ∨ ∃ p u, t = p ++ ';' :: u ∧ (∀ g ∈ classify p, g.isCode ';' = false)
        ∧ (({} : Lexer).after p).Idle ∧ pieces t = (p ++ [';']) :: pieces u
        ∧ (({} : Lexer).after u).mode = (({} : Lexer).after t).mode := by
  -- the first semicolon of code, if there is one, ends the first piece
  cases hfind : (classify t).find? (·.isCode ';') with
  | none =>
    have hnone : ∀ g ∈ classify t, g.isCode ';' = false := by
      intro g hg
      exact Bool.eq_false_iff.2 (List.find?_eq_none.1 hfind g hg)
    have hempty : (classify t).isEmpty = t.isEmpty := by
      rw [← List.isEmpty_map (f := Glyph.char), classify_map_char]
    refine Or.inl ⟨hnone, ?_⟩
    unfold pieces
    rw [splitAfter_none hnone, hempty]
    split
    · rfl
    · rw [List.map_singleton, classify_map_char]
  | some g =>
    obtain ⟨hcode, gs, rest, hsplit, hgs⟩ := List.find?_eq_some_iff_append.1 hfind
    have hnone : ∀ g ∈ gs, g.isCode ';' = false := by
      intro g hg
      simpa using hgs g hg
    rw [Glyph.isCode_iff.1 hcode] at hsplit
    obtain ⟨hfront, hidle, s, hfresh, -, hglyphs, hafter⟩ :=
      Lexer.cut_firm Lexer.fresh_start (Lexer.sound_start t) (c := ';') (by decide +kernel) hsplit
    obtain ⟨hreads, hpast⟩ :=
      Lexer.alike_reads (Lexer.alike_start hfresh) (rest.map Glyph.char) []
    rw [Lexer.reads_whole, Lexer.reads_whole, hglyphs] at hreads
    rw [Lexer.past_whole, Lexer.past_whole, hafter] at hpast
    have hbehind : classify (rest.map Glyph.char) = rest := hreads.symm
    refine Or.inr ⟨gs.map Glyph.char, rest.map Glyph.char, (Lexer.glyphs_split hsplit).1, ?_,
      hidle, ?_, hpast.mode.symm⟩
    · rw [hfront]
      exact hnone
    · unfold pieces
      rw [hsplit, splitAfter_first hnone (Glyph.isCode_iff.2 rfl), hbehind, List.map_cons,
        List.map_append]
      rfl

/-- Cutting a text loses nothing. -/
theorem flatten_pieces (t : List Char) : (pieces t).flatten = t := by
  unfold pieces
  rw [← List.map_flatten, flatten_splitAfter, classify_map_char]

/-- What is proved of a last piece and of a piece in front of others holds of the pieces of
every text. -/
theorem pieces_rec {motive : List Char → Prop}
    (last : ∀ t, (∀ g ∈ classify t, g.isCode ';' = false) →
      pieces t = (if t.isEmpty then [] else [t]) → motive t)
    (piece : ∀ p u, (∀ g ∈ classify p, g.isCode ';' = false) → (({} : Lexer).after p).Idle →
      pieces (p ++ ';' :: u) = (p ++ [';']) :: pieces u →
      (({} : Lexer).after u).mode = (({} : Lexer).after (p ++ ';' :: u)).mode →
      motive u → motive (p ++ ';' :: u)) (t : List Char) : motive t := by
  generalize hn : t.length = n
  induction n using Nat.strongRecOn generalizing t with
  | _ n ih =>
    rcases pieces_cases t with ⟨hnone, hone⟩ | ⟨p, u, rfl, hnone, hidle, hpieces, hmode⟩
    · exact last t hnone hone
    · refine piece p u hnone hidle hpieces hmode (ih u.length ?_ u rfl)
      rw [← hn, List.length_append, List.length_cons]
      omega

/-- **Every piece but the last ends with its semicolon**, and what follows is read afresh. -/
theorem pieces_settled (t : List Char) :
    ∀ p ∈ (pieces t).dropLast, Settled p ∧ p.getLast? = some ';' := by
  induction t using pieces_rec with
  | last t hnone hone =>
    rw [hone]
    split
    · exact List.forall_mem_nil _
    · exact List.forall_mem_nil _
  | piece p u hnone hidle hpieces hmode ih =>
    rw [hpieces]
    intro q hq
    cases hu : pieces u with
    | nil =>
      rw [hu] at hq
      cases hq
    | cons r rest =>
      rw [hu, List.dropLast_cons_cons] at hq
      rcases List.mem_cons.1 hq with rfl | hq
      · exact ⟨(settled_semicolon hidle).2, List.getLast?_concat ..⟩
      · exact ih q (by rw [hu]; exact hq)

/-! ## §3. Pieces by themselves. -/

/-- Nothing is open at the end of the text, and a semicolon in code is its last character. -/
structure SelfContained (s : List Char) : Prop where
  closed : unclosed? s = none
  last : ∀ a b, classify s = a ++ ⟨';', .code⟩ :: b → b = []

theorem unclosed?_eq_none {s : List Char} :
    unclosed? s = none ↔ (({} : Lexer).after s).mode.enclosure? = none := by
  unfold unclosed?
  rw [Option.map_eq_none_iff]

/-- **Nothing is open in a piece of a text in which nothing is open, and no semicolon in code
is in it but as its last character.** -/
theorem pieces_selfContained {t : List Char} (ht : unclosed? t = none) :
    ∀ p ∈ pieces t, SelfContained p := by
  induction t using pieces_rec with
  | last t hnone hone =>
    rw [hone]
    split
    · exact List.forall_mem_nil _
    · rw [List.forall_mem_singleton]
      refine ⟨ht, fun a b hsplit => ?_⟩
      have hsemicolon := hnone ⟨';', .code⟩ (by rw [hsplit]; simp)
      cases hsemicolon
  | piece p u hnone hidle hpieces hmode ih =>
    rw [hpieces, List.forall_mem_cons]
    refine ⟨⟨?_, fun a b hsplit => ?_⟩, ih ?_⟩
    · have hfresh := (Lexer.reads_semicolon hidle []).2
      rw [Lexer.past_whole] at hfresh
      rw [unclosed?_eq_none, hfresh.mode]
      rfl
    · rw [(settled_semicolon hidle).1] at hsplit
      rcases List.eq_nil_or_concat b with rfl | ⟨b, x, rfl⟩
      · rfl
      · -- a semicolon in front of the last character is one of the text in front of that
        rw [List.concat_eq_append, ← List.cons_append, ← List.append_assoc] at hsplit
        have hsemicolon := hnone ⟨';', .code⟩ (by rw [(List.append_inj' hsplit rfl).1]; simp)
        cases hsemicolon
    · rw [unclosed?_eq_none, hmode]
      exact unclosed?_eq_none.1 ht

namespace Lexer

/-- White space is no part of a longer token, and closes nothing. -/
theorem decision_blank {s : Lexer} (hs : s.Delimited) {c : Char} (hc : isBlank c = true)
    (rest : List Char) : (s.decision c rest).more = 0
      ∧ (s.mode.enclosure? ≠ none → (s.decision c rest).mode = s.mode) := by
  have hne : ∀ {x : Char}, isBlank x = false → c ≠ x := fun hx => ne_of_isBlank hc hx
  have h := s.decides c rest
  unfold Delimited at hs
  generalize s.mode = m, s.decision c rest = d at hs h ⊢
  cases h with
  | code | lineEnd | lineComment => exact ⟨rfl, fun h => absurd rfl h⟩
  | blockComment | literal | identifier | block => exact ⟨rfl, fun _ => rfl⟩
  | hyphens h | slashStar h | openLiteral h | openIdentifier h | openBlock h =>
    exact absurd h (hne (by decide))
  | closeComment h | closeInner h | openInner h => exact absurd h (hne (by decide))
  | escape h | doubledSingle h | closeLiteral h | doubledDouble h | closeIdentifier h =>
    exact absurd h (hne (by decide))
  | closeBlock hd =>
    obtain ⟨name, rfl, -⟩ := hs _ rfl
    exact absurd (List.cons_prefix_cons.1 hd).1.symm (hne (by decide))

theorem advance_enclosed {s : Lexer} (hs : s.Delimited) {c : Char} (hc : isBlank c = true)
    (h : s.mode.enclosure? ≠ none) (rest : List Char) : (s.advance c rest).2.mode = s.mode := by
  cases hn : s.held with
  | succ n => rw [advance_held hn]
  | zero =>
    rw [advance_decided hn]
    exact (decision_blank hs hc rest).2 h

theorem past_enclosed {s : Lexer} (hs : s.Delimited) {b : List Char}
    (hb : ∀ c ∈ b, isBlank c = true) (h : s.mode.enclosure? ≠ none) (q : List Char) :
    (s.past b q).mode = s.mode := by
  induction b generalizing s with
  | nil => rfl
  | cons c b ih =>
    have hmode := advance_enclosed hs (hb c List.mem_cons_self) h (b ++ q)
    rw [past_cons, ih (delimited_advance hs c _) (fun c hc => hb c (List.mem_cons_of_mem _ hc))
      (by rw [hmode]; exact h), hmode]

end Lexer

/-- White space behind a text: its glyphs stay in front, and what is open in it stays open. -/
theorem SelfContained.of_append_right {s b : List Char} (hb : ∀ c ∈ b, isBlank c = true)
    (h : SelfContained (s ++ b)) : SelfContained s := by
  cases b with
  | nil => rwa [List.append_nil] at h
  | cons c b =>
    have hc : isBlank c = true := hb c List.mem_cons_self
    obtain ⟨hreads, hmode, -⟩ := Lexer.reads_firm Lexer.delimited_start (isStop_of_isBlank hc)
      (ne_of_isBlank hc (by decide)) (ne_of_isBlank hc (by decide)) s b
    refine ⟨?_, fun x y hsplit => ?_⟩
    · rw [unclosed?_eq_none, ← hmode]
      by_contra hopen
      have hpast := Lexer.past_enclosed (Lexer.delimited_past Lexer.delimited_start s (c :: b)) hb
        hopen []
      have hclosed := unclosed?_eq_none.1 h.closed
      rw [Lexer.after_append, ← Lexer.past_whole, hpast] at hclosed
      exact hopen hclosed
    · have hwhole : classify (s ++ c :: b) = classify s
          ++ (({} : Lexer).past s (c :: b)).glyphs (c :: b) := by
        unfold classify
        rw [Lexer.glyphs_append, hreads]
      rw [hsplit, List.append_assoc, List.cons_append] at hwhole
      exact (List.append_eq_nil_iff.1 (h.last x _ hwhole)).1

/-- White space in front of a text. -/
theorem SelfContained.of_append_left {a s : List Char} (ha : ∀ c ∈ a, isBlank c = true)
    (h : SelfContained (a ++ s)) : SelfContained s := by
  obtain ⟨-, hfresh⟩ := Lexer.fresh_blanks (q := s) Lexer.fresh_start ha
  have hpast := (Lexer.alike_reads (Lexer.alike_start hfresh) s []).2
  rw [Lexer.past_whole, Lexer.past_whole] at hpast
  refine ⟨?_, fun x y hsplit => ?_⟩
  · rw [unclosed?_eq_none, ← hpast.mode, ← Lexer.after_append]
    exact unclosed?_eq_none.1 h.closed
  · refine h.last (classify a ++ x) y ?_
    rw [settled_blanks ha s, hsplit, List.append_assoc]

/-- **A piece without the white space around it is as self-contained as it is.** -/
theorem SelfContained.trim {s : List Char} (h : SelfContained s) :
    SelfContained (Text.trim s) := by
  obtain ⟨a, b, hs, ha, hb⟩ := exists_trim s
  rw [hs] at h
  exact (h.of_append_left ha).of_append_right hb

end SchemaDrift.Sql
