/-
  SchemaDrift.Proofs.Sql.Inert
  ────────────────────────────
  **WHAT IS QUOTED OR COMMENTED MOVES NO STATEMENT.**

  A literal, a quoted identifier, a dollar-quoted block or a block comment stands in a
  section of a file, that is, between two marker lines (`Frame`), and its interior is
  exchanged for another one behind which the same characters close it (`Frame.Holds`).
  Then the file splits as it did before, into the same statements but the one that holds
  the interior (`split_fill`).

      Frame.Holds.enclosed   the construct is the same in its section by itself
      exists_reading         around the interior, all is read the same
      piece_exchange         so the region is cut the same

  The section has to begin in code.  Manual statements are taken before anything is read:
  a quote that one of them leaves open is none for the section behind it
  (`construct_across_manual`).
-/

import SchemaDrift.Proofs.Sql.Enclosing
import SchemaDrift.Proofs.Sql.Exchange

namespace SchemaDrift.Sql

open SchemaDrift.Text

/-! ## §1. Interiors. -/

/-- A file around the interior of a construct: what stands before its section, in front of
it in the section, how it opens and closes, and what follows in the section and behind. -/
structure Frame where
  before : List Char
  front : List Char
  opening : List Char
  closing : List Char
  back : List Char
  after : List Char

namespace Frame

/-- The construct with the interior `x`. -/
def body (f : Frame) (x : List Char) : List Char := f.opening ++ (x ++ f.closing)

/-- The section that it stands in. -/
def sect (f : Frame) (x : List Char) : List Char := f.front ++ (f.body x ++ f.back)

/-- The file. -/
def fill (f : Frame) (x : List Char) : List Char := f.before ++ (f.sect x ++ f.after)

/-- With the interior `x` the construct is one of the kind `what`, and the section has all the
lines between two marker lines, or between one and an end of the file, and begins in code. -/
structure Holds (f : Frame) (what : Enclosure) (x : List Char) : Prop where
  opens : f.opening ≠ []
  closes : f.closing ≠ []
  encloses : (({} : Lexer).past (f.before ++ f.front) (f.body x ++ (f.back ++ f.after))).Encloses
    what (f.body x) (f.back ++ f.after)
  code : (({} : Lexer).after f.before).Idle
  begins : EndsLine f.before
  marked : ∀ l ∈ (lines f.before).getLast?, marker? l ≠ none
  unmarked : ∀ l ∈ lines (f.sect x), marker? l = none
  ends : f.after = [] ∨ EndsLine (f.sect x)
  marked_after : ∀ l ∈ (lines f.after).head?, marker? l ≠ none

end Frame

/-- Two lists of statements are the same, but for one statement at most: that holds `b`, and
in the other list `b'` instead. -/
def SameBut (b b' : List Char) (rs rs' : List String) : Prop :=
  rs = rs' ∨ ∃ pre l r post, rs = pre ++ String.ofList (l ++ (b ++ r)) :: post
    ∧ rs' = pre ++ String.ofList (l ++ (b' ++ r)) :: post

theorem SameBut.length {b b' : List Char} {rs rs' : List String} (h : SameBut b b' rs rs') :
    rs.length = rs'.length := by
  rcases h with rfl | ⟨pre, l, r, post, rfl, rfl⟩
  · rfl
  · simp

theorem SameBut.around {b b' : List Char} {rs rs' : List String} (h : SameBut b b' rs rs')
    (us vs : List String) : SameBut b b' (us ++ (rs ++ vs)) (us ++ (rs' ++ vs)) := by
  rcases h with rfl | ⟨pre, l, r, post, rfl, rfl⟩
  · exact Or.inl rfl
  · exact Or.inr ⟨us ++ pre, l, r, post ++ vs, by simp, by simp⟩

/-! ## §2. The section by itself. -/

namespace Lexer

/-- White space is read without a look at what is behind it. -/
theorem advance_blank {s : Lexer} (hs : s.Delimited) {c : Char} (hc : isBlank c = true)
    (w w' : List Char) : s.advance c w = s.advance c w' := by
  refine advance_congr fun _ => ?_
  rw [decision_alone hs (decision_blank hs hc w).1, decision_alone hs (decision_blank hs hc w').1]

/-- Neither are whole lines. -/
theorem past_lines {t : List Char} (ht : EndsLine t) (w : List Char) :
    ({} : Lexer).past t w = ({} : Lexer).after t := by
  rw [← past_whole]
  rcases ht with rfl | ht
  · rfl
  · obtain ⟨p, rfl⟩ := List.getLast?_eq_some_iff.1 ht
    have hident : isIdentChar '\n' = false := by decide
    have hpast : ({} : Lexer).past p ('\n' :: w) = ({} : Lexer).past p ['\n'] :=
      (reads_same delimited_start hident p [] w []).2
    rw [past_concat, past_concat, hpast,
      advance_blank (delimited_past delimited_start p _) (by decide) w []]

/-- Code behind whole lines is read like the beginning of a text. -/
theorem alike_lines {t : List Char} (ht : EndsLine t) (hcode : (({} : Lexer).after t).Idle)
    (w : List Char) : (({} : Lexer).past t w).Alike {} := by
  rcases ht with rfl | ht
  · exact alike_start fresh_start
  · refine alike_start ⟨?_, ?_⟩
    · rw [past_lines (Or.inr ht)]
      exact hcode
    · rw [past_last ht]
      decide

end Lexer

section Sections

variable {f : Frame} {what : Enclosure} {x x' : List Char}

theorem Frame.Holds.body_ne_nil (h : f.Holds what x) : f.body x ≠ [] :=
  fun hnil => h.opens (List.append_eq_nil_iff.1 hnil).1

/-- How a construct ends is how it is closed. -/
theorem Frame.Holds.body_last (h : f.Holds what x) :
    ∃ d, (f.body x).getLast? = some d ∧ f.closing.getLast? = some d ∧ what.cls.closes d = true := by
  obtain ⟨d, hd⟩ := Option.ne_none_iff_exists'.1 fun hnone => h.closes (List.getLast?_eq_none_iff.1 hnone)
  have hbody : (f.body x).getLast? = some d := by
    unfold Frame.body
    rw [List.getLast?_append, List.getLast?_append, hd]
    rfl
  exact ⟨d, hbody, hd, (h.encloses.reads (Lexer.sound_past (Lexer.sound_start _))).2.2 d hbody⟩

/-- Neither what opens a construct nor what closes it is of a name, or white. -/
theorem Enclosure.opener_plain (what : Enclosure) :
    isIdentChar what.opener = false ∧ isBlank what.opener = false := by
  cases what with
  | literal => decide
  | identifier => decide
  | dollarBlock => decide
  | blockComment => decide

theorem Enclosure.closes_plain {d : Char} (h : what.cls.closes d = true) :
    isIdentChar d = false ∧ isBlank d = false := by
  cases hcls : what.cls with
  | code => exact absurd hcls what.cls_ne_code
  | quoted =>
    rw [hcls] at h
    rcases isQuote_iff.1 h with rfl | rfl | rfl
    · decide
    · decide
    · decide
  | comment =>
    rw [hcls] at h
    obtain rfl : d = '/' := by simpa [CharClass.closes] using h
    decide

/-- **A construct is the same one in its section by itself.** -/
theorem Frame.Holds.enclosed (h : f.Holds what x) :
    (({} : Lexer).past f.front (f.body x ++ f.back)).Encloses what (f.body x) f.back := by
  -- what is before the section leaves no trace
  have hsection : (({} : Lexer).past f.front (f.body x ++ (f.back ++ f.after))).Encloses what
      (f.body x) (f.back ++ f.after) := by
    have hencloses := h.encloses
    rw [Lexer.past_append] at hencloses
    have hlines := Lexer.alike_lines h.begins h.code
      (f.front ++ (f.body x ++ (f.back ++ f.after)))
    exact (Lexer.alike_reads hlines _ _).2.encloses.1 hencloses
  -- and what is after it is behind a line feed
  rcases h.ends with hnil | hends
  · rw [hnil, List.append_nil] at hsection
    exact hsection
  · obtain ⟨d, hd, -, hcloses⟩ := h.body_last
    have hback : ∃ b, f.back = b ++ ['\n'] := by
      have hne : f.body x ≠ [] := h.body_ne_nil
      have hlast : (f.sect x).getLast? = some '\n' := by
        refine hends.resolve_left fun hnil => hne ?_
        exact (List.append_eq_nil_iff.1 (List.append_eq_nil_iff.1 hnil).2).1
      unfold Frame.sect at hlast
      rw [List.getLast?_append, List.getLast?_append, hd] at hlast
      cases hb : f.back.getLast? with
      | none =>
        rw [hb] at hlast
        obtain rfl : d = '\n' := Option.some.inj hlast
        have hblank : isBlank '\n' = true := by decide
        rw [(Enclosure.closes_plain hcloses).2] at hblank
        cases hblank
      | some e =>
        rw [hb] at hlast
        obtain rfl : e = '\n' := Option.some.inj hlast
        exact List.getLast?_eq_some_iff.1 hb
    obtain ⟨b, hb⟩ := hback
    have hident : isIdentChar '\n' = false := by decide
    rw [hb, List.append_assoc, List.singleton_append, ← List.append_assoc,
      (Lexer.reads_same Lexer.delimited_start hident f.front (f.body x ++ b) f.after []).2,
      Lexer.encloses_same (Lexer.delimited_past Lexer.delimited_start _ _) hident _ b f.after []]
      at hsection
    rw [hb, ← List.append_assoc]
    exact hsection

/-! ## §3. The construct in its section. -/

/-- The glyphs of a construct of the kind `what` with the text `b`. -/
structure IsBody (what : Enclosure) (b : List Char) (gs : List Glyph) : Prop where
  text : gs.map Glyph.char = b
  cls : ∀ g ∈ gs, g.cls = what.cls
  head : ∃ b', b = what.opener :: b'
  last : ∀ d ∈ b.getLast?, isBlank d = false

/-- **Around the interior everything is read the same.** -/
theorem exists_reading (h : f.Holds what x) (h' : f.Holds what x') :
    ∃ gs bs bs' hs, classify (f.sect x) = gs ++ (bs ++ hs) ∧ IsBody what (f.body x) bs
      ∧ classify (f.sect x') = gs ++ (bs' ++ hs) ∧ IsBody what (f.body x') bs'
      ∧ (EndsOutside (f.sect x) ↔ EndsOutside (f.sect x')) := by
  have hbody : ∀ {y : List Char}, f.Holds what y →
      IsBody what (f.body y) ((({} : Lexer).past f.front (f.body y ++ f.back)).reads (f.body y) f.back)
        ∧ ((({} : Lexer).past f.front (f.body y ++ f.back)).past (f.body y) f.back).Idle := by
    intro y hy
    obtain ⟨hcls, hidle, hlast⟩ :=
      hy.enclosed.reads (Lexer.sound_past (Lexer.sound_start _))
    exact ⟨⟨Lexer.reads_map_char _ _ _, hcls, hy.enclosed.head,
      fun d hd => (Enclosure.closes_plain (hlast d hd)).2⟩, hidle⟩
  obtain ⟨hbs, hidle⟩ := hbody h
  obtain ⟨hbs', hidle'⟩ := hbody h'
  -- in front of it: up to its opener
  obtain ⟨b, hb⟩ := hbs.head
  obtain ⟨b', hb'⟩ := hbs'.head
  obtain ⟨hreads, hpast⟩ := Lexer.reads_same Lexer.delimited_start what.opener_plain.1 f.front []
    (b ++ f.back) (b' ++ f.back)
  rw [List.nil_append, List.nil_append, ← List.cons_append, ← List.cons_append, ← hb, ← hb']
    at hreads hpast
  rw [← hpast] at hidle' hbs'
  -- behind it: from how it is closed
  obtain ⟨d, hlast, hclosing, hcloses⟩ := h.body_last
  obtain ⟨d', hlast', hclosing', -⟩ := h'.body_last
  obtain rfl : d = d' := Option.some.inj (hclosing.symm.trans hclosing')
  have halike := Lexer.alike_of_last hidle hidle'
    ((Lexer.past_last hlast _ _).trans (Lexer.past_last hlast' _ _).symm) (by
      rw [Lexer.past_last hlast]
      exact (Enclosure.closes_plain hcloses).1)
  obtain ⟨hbehind, hafter⟩ := Lexer.alike_reads halike f.back []
  rw [Lexer.reads_whole, Lexer.reads_whole] at hbehind
  rw [Lexer.past_whole, Lexer.past_whole] at hafter
  refine ⟨({} : Lexer).reads f.front (f.body x ++ f.back), _, _,
    ((({} : Lexer).past f.front (f.body x ++ f.back)).past (f.body x) f.back).glyphs f.back,
    ?_, hbs, ?_, hbs', ?_⟩
  · unfold classify Frame.sect
    rw [Lexer.glyphs_append, Lexer.glyphs_append]
  · unfold classify Frame.sect
    rw [Lexer.glyphs_append, Lexer.glyphs_append, ← hpast, ← hreads, ← hbehind]
  · unfold EndsOutside Frame.sect
    rw [Lexer.after_append, Lexer.after_append, Lexer.after_append, Lexer.after_append, ← hpast,
      hafter.mode]

/-- What is quoted says something, and what is a comment says nothing. -/
theorem IsBody.saying {b : List Char} {gs : List Glyph} (h : IsBody what b gs) :
    (∃ g ∈ gs, g.isSaying = true) ↔ what.cls = .quoted := by
  unfold Glyph.isSaying
  constructor
  · rintro ⟨g, hg, hsaying⟩
    cases hcls : what.cls with
    | code => exact absurd hcls what.cls_ne_code
    | quoted => rfl
    | comment =>
      rw [isGap_comment ((h.cls g hg).trans hcls)] at hsaying
      cases hsaying
  · intro hquoted
    obtain ⟨b', hb⟩ := h.head
    have htext := h.text
    rw [hb] at htext
    obtain ⟨g, gs', rfl, hchar, -⟩ := List.map_eq_cons_iff.1 htext
    refine ⟨g, List.mem_cons_self, ?_⟩
    rw [isGap_quoted ((h.cls g List.mem_cons_self).trans hquoted), hchar]
    cases what with
    | literal => decide
    | identifier => decide
    | dollarBlock => decide
    | blockComment => cases hquoted

/-- A piece with a construct in it says something, whatever the interior is, or does not. -/
theorem normalize_exchange {b b' : List Char} {l bs bs' r : List Glyph} (hbs : IsBody what b bs)
    (hbs' : IsBody what b' bs')
    (hpiece : classify ((l ++ (bs ++ r)).map Glyph.char) = l ++ (bs ++ r))
    (hpiece' : classify ((l ++ (bs' ++ r)).map Glyph.char) = l ++ (bs' ++ r)) :
    normalize ((l ++ (bs ++ r)).map Glyph.char) = []
      ↔ normalize ((l ++ (bs' ++ r)).map Glyph.char) = [] := by
  rw [← not_iff_not, ← ne_eq, ← ne_eq, normalize_ne_nil, normalize_ne_nil, hpiece, hpiece']
  simp only [List.mem_append, or_and_right, exists_or, hbs.saying, hbs'.saying]

/-! ## §4. Pieces. -/

/-- **A region is cut in the same places, whatever the interior is**: it has the same pieces
but one. -/
theorem piece_exchange (h : f.Holds what x) (h' : f.Holds what x') {lead : List Char}
    (hlead : IsLead lead) (manual : Bool) :
    ∃ ps l r qs, cutPieces manual (lead ++ f.sect x) = ps ++ (l ++ (f.body x ++ r)) :: qs
      ∧ cutPieces manual (lead ++ f.sect x') = ps ++ (l ++ (f.body x' ++ r)) :: qs
      ∧ (normalize (l ++ (f.body x ++ r)) = [] ↔ normalize (l ++ (f.body x' ++ r)) = []) := by
  obtain ⟨gs, bs, bs', hs, hclassify, hbs, hclassify', hbs', -⟩ := exists_reading h h'
  have hblank : ∀ c ∈ lead, isBlank c = true := by
    rcases hlead with rfl | rfl
    · exact List.forall_mem_nil _
    · exact List.forall_mem_singleton.2 (by decide)
  have hwhole : classify (lead ++ f.sect x) = (classify lead ++ gs) ++ (bs ++ hs) := by
    rw [settled_blanks hblank, hclassify, List.append_assoc]
  have hwhole' : classify (lead ++ f.sect x') = (classify lead ++ gs) ++ (bs' ++ hs) := by
    rw [settled_blanks hblank, hclassify', List.append_assoc]
  have htext : ∀ {b : List Char} {cs : List Glyph} (l r : List Glyph), IsBody what b cs →
      (l ++ (cs ++ r)).map Glyph.char = l.map Glyph.char ++ (b ++ r.map Glyph.char) := by
    intro b cs l r hcs
    rw [List.map_append, List.map_append, hcs.text]
  -- a manual region is one piece; else the body, which holds no semicolon, is inside of one
  cases manual with
  | true =>
    have hpiece := classify_map_char (lead ++ f.sect x)
    have hpiece' := classify_map_char (lead ++ f.sect x')
    rw [hwhole] at hpiece
    rw [hwhole'] at hpiece'
    have hsaid := normalize_exchange hbs hbs' (by rw [hpiece, hwhole]) (by rw [hpiece', hwhole'])
    rw [htext _ _ hbs] at hpiece hsaid
    rw [htext _ _ hbs'] at hpiece' hsaid
    exact ⟨[], _, _, [], congrArg (fun t => [t]) hpiece.symm, congrArg (fun t => [t]) hpiece'.symm,
      hsaid⟩
  | false =>
    have hnone : ∀ {b : List Char} {cs : List Glyph}, IsBody what b cs →
        (∀ g ∈ cs, g.isCode ';' = false) ∧ cs ≠ [] := by
      intro b cs hcs
      refine ⟨fun g hg => ?_, ?_⟩
      · unfold Glyph.isCode
        rw [hcs.cls g hg, decide_eq_false what.cls_ne_code]
        rfl
      · rintro rfl
        obtain ⟨b', hb⟩ := hcs.head
        cases hcs.text.trans hb
    obtain ⟨before, left, right, behind, -, -, hcut, hcut'⟩ := splitAfter_exchange
      (hnone hbs).1 (hnone hbs').1 (hnone hbs).2 (hnone hbs').2 (classify lead ++ gs) hs
    rw [← hwhole] at hcut
    rw [← hwhole'] at hcut'
    have hsaid := normalize_exchange hbs hbs'
      (classify_piece _ (left ++ (bs ++ right)) (by rw [hcut]; simp))
      (classify_piece _ (left ++ (bs' ++ right)) (by rw [hcut']; simp))
    rw [htext _ _ hbs, htext _ _ hbs'] at hsaid
    refine ⟨before.map (·.map Glyph.char), left.map Glyph.char, right.map Glyph.char,
      behind.map (·.map Glyph.char), ?_, ?_, hsaid⟩
    · rw [cutPieces, if_neg Bool.false_ne_true, pieces, hcut, List.map_append, List.map_cons,
        htext _ _ hbs]
    · rw [cutPieces, if_neg Bool.false_ne_true, pieces, hcut', List.map_append, List.map_cons,
        htext _ _ hbs']

/-- The white space around a text that neither begins nor ends with any. -/
theorem trim_around {b : List Char} {c : Char} {b' : List Char} (hb : b = c :: b')
    (hc : isBlank c = false) (hlast : ∀ d ∈ b.getLast?, isBlank d = false) (l r : List Char) :
    trim (l ++ (b ++ r)) = trimStart l ++ (b ++ trimEnd r) := by
  have hstart : trimStart (l ++ (b ++ r)) = trimStart l ++ (b ++ r) := by
    unfold trimStart
    rw [hb, List.cons_append, dropWhile_append_cons hc]
  obtain ⟨u, d, hu⟩ : ∃ u d, b = u ++ [d] := by
    rcases List.eq_nil_or_concat b with hnil | ⟨u, d, hu⟩
    · rw [hnil] at hb
      cases hb
    · exact ⟨u, d, hu.trans List.concat_eq_append⟩
  have hd : isBlank d = false := hlast d (by rw [hu, List.getLast?_concat]; rfl)
  have hend : trimEnd ((trimStart l ++ u) ++ d :: r) = (trimStart l ++ u) ++ d :: trimEnd r := by
    unfold trimEnd trimEndWhile
    rw [List.reverse_append, List.reverse_cons, List.append_assoc, List.singleton_append,
      dropWhile_append_cons hd]
    simp
  unfold trim
  rw [hstart, hu]
  simpa using hend

/-- **A region has the same statements but one.** -/
theorem statements_exchange (h : f.Holds what x) (h' : f.Holds what x') {lead : List Char}
    (hlead : IsLead lead) (manual : Bool) (line line' : Nat) :
    SameBut (f.body x) (f.body x')
      ((statementsOf line (cutPieces manual (lead ++ f.sect x))).map (·.raw))
      ((statementsOf line' (cutPieces manual (lead ++ f.sect x'))).map (·.raw)) := by
  obtain ⟨-, bs, bs', -, -, hbs, -, hbs', -⟩ := exists_reading h h'
  obtain ⟨ps, l, r, qs, hcut, hcut', hsaid⟩ := piece_exchange h h' hlead manual
  have htrim : ∀ {b : List Char} {cs : List Glyph}, IsBody what b cs →
      trim (l ++ (b ++ r)) = trimStart l ++ (b ++ trimEnd r) := by
    intro b cs hcs
    obtain ⟨b', hb⟩ := hcs.head
    exact trim_around hb what.opener_plain.2 hcs.last l r
  rw [hcut, hcut', statementsOf_raws, statementsOf_raws, rawTexts_append, rawTexts_append,
    rawTexts_cons, rawTexts_cons]
  by_cases hempty : normalize (l ++ (f.body x ++ r)) = []
  · rw [if_pos hempty, if_pos (hsaid.1 hempty)]
    exact Or.inl rfl
  · rw [if_neg hempty, if_neg fun hnil => hempty (hsaid.2 hnil), htrim hbs, htrim hbs']
    exact Or.inr ⟨rawTexts ps, trimStart l, trimEnd r, rawTexts qs, rfl, rfl⟩

end Sections

/-! ## §5. Regions. -/

/-- Both give statements or neither does, and then the texts of these are as `R` says. -/
def Agree (R : List String → List String → Prop) (e e' : Except SplitError (List Statement)) : Prop :=
  ((∃ ss, e = .ok ss) ↔ ∃ ss, e' = .ok ss) ∧
    ∀ ss ss', e = .ok ss → e' = .ok ss' → R (ss.map (·.raw)) (ss'.map (·.raw))

theorem Agree.refl {R : List String → List String → Prop} (hR : ∀ us, R us us)
    (e : Except SplitError (List Statement)) : Agree R e e :=
  ⟨Iff.rfl, fun ss ss' hss hss' => by rw [Except.ok.inj (hss.symm.trans hss')]; exact hR _⟩

/-- A region has statements if it is manual or leaves nothing open: those of its pieces. -/
theorem statements_ok_iff {r : Region} {ss : List Statement} : r.statements = .ok ss ↔
    (r.manual = false → unclosed? r.text = none)
      ∧ ss = statementsOf r.line (cutPieces r.manual r.text) := by
  constructor
  · intro h
    obtain ⟨hss, hclosed⟩ := statements_eq_ok h
    exact ⟨hclosed, hss⟩
  · rintro ⟨hclosed, rfl⟩
    cases hm : r.manual with
    | true => exact statements_manual hm
    | false =>
      unfold Region.statements cutPieces
      rw [hm, hclosed hm]
      rfl

section Regions

variable {R R' R'' : List String → List String → Prop} {r r' : Region} {rs rs' : List Region}

/-- Regions agree if they leave nothing open together and their pieces have texts as `R` says. -/
theorem agree_statements
    (hclosed : (r.manual = false → unclosed? r.text = none)
      ↔ (r'.manual = false → unclosed? r'.text = none))
    (hR : (r.manual = false → unclosed? r.text = none) →
      R ((statementsOf r.line (cutPieces r.manual r.text)).map (·.raw))
        ((statementsOf r'.line (cutPieces r'.manual r'.text)).map (·.raw))) :
    Agree R r.statements r'.statements := by
  constructor
  · constructor
    · rintro ⟨ss, hss⟩
      exact ⟨_, statements_ok_iff.2 ⟨hclosed.1 (statements_ok_iff.1 hss).1, rfl⟩⟩
    · rintro ⟨ss, hss⟩
      exact ⟨_, statements_ok_iff.2 ⟨hclosed.2 (statements_ok_iff.1 hss).1, rfl⟩⟩
  · intro ss ss' hss hss'
    rw [(statements_ok_iff.1 hss).2, (statements_ok_iff.1 hss').2]
    exact hR (statements_ok_iff.1 hss).1

theorem Region.Same.agree (h : r.Same r') : Agree Eq r.statements r'.statements := by
  obtain ⟨hmanual, htext⟩ := h
  refine agree_statements (by rw [hmanual, htext]) fun _ => ?_
  rw [hmanual, htext, statementsOf_raws, statementsOf_raws]

theorem Region.Exchanged.agree {f : Frame} {what : Enclosure} {x x' : List Char}
    (hx : f.Holds what x) (hx' : f.Holds what x') (h : Region.Exchanged (f.sect x) (f.sect x') r r') :
    Agree (SameBut (f.body x) (f.body x')) r.statements r'.statements := by
  obtain ⟨hmanual, lead, hlead, htext, htext'⟩ := h
  obtain ⟨-, -, -, -, -, -, -, -, houtside⟩ := exists_reading hx hx'
  refine agree_statements ?_ fun _ => ?_
  · rw [hmanual, htext, htext', unclosed?_lead hlead, unclosed?_lead hlead, houtside]
  · rw [hmanual, htext, htext']
    exact statements_exchange hx hx' hlead r'.manual r.line r'.line

/-- Regions one behind the other agree if they do one by one. -/
theorem Agree.cons (h : Agree R r.statements r'.statements)
    (hs : Agree R' (splitRegions rs) (splitRegions rs'))
    (hR : ∀ us us' vs vs', R us us' → R' vs vs' → R'' (us ++ vs) (us' ++ vs')) :
    Agree R'' (splitRegions (r :: rs)) (splitRegions (r' :: rs')) := by
  constructor
  · simp only [splitRegions_cons_ok]
    constructor
    · rintro ⟨ss, here, behind, hhere, hbehind, -⟩
      obtain ⟨here', hhere'⟩ := h.1.1 ⟨here, hhere⟩
      obtain ⟨behind', hbehind'⟩ := hs.1.1 ⟨behind, hbehind⟩
      exact ⟨_, here', behind', hhere', hbehind', rfl⟩
    · rintro ⟨ss, here', behind', hhere', hbehind', -⟩
      obtain ⟨here, hhere⟩ := h.1.2 ⟨here', hhere'⟩
      obtain ⟨behind, hbehind⟩ := hs.1.2 ⟨behind', hbehind'⟩
      exact ⟨_, here, behind, hhere, hbehind, rfl⟩
  · intro ss ss' hss hss'
    obtain ⟨here, behind, hhere, hbehind, rfl⟩ := splitRegions_cons_ok.1 hss
    obtain ⟨here', behind', hhere', hbehind', rfl⟩ := splitRegions_cons_ok.1 hss'
    rw [List.map_append, List.map_append]
    exact hR _ _ _ _ (h.2 _ _ hhere hhere') (hs.2 _ _ hbehind hbehind')

/-- The same regions have the same statements. -/
theorem agree_same (h : List.Forall₂ Region.Same rs rs') :
    Agree Eq (splitRegions rs) (splitRegions rs') := by
  induction h with
  | nil => exact .refl (fun _ => rfl) _
  | cons hr _ ih =>
    exact hr.agree.cons ih fun us us' vs vs' hus hvs => by rw [hus, hvs]

/-- **Regions of which one holds the construct have the same statements but one.** -/
theorem agree_exchanged {f : Frame} {what : Enclosure} {x x' : List Char}
    (hx : f.Holds what x) (hx' : f.Holds what x')
    (h : OneOff Region.Same (Region.Exchanged (f.sect x) (f.sect x')) rs rs') :
    Agree (SameBut (f.body x) (f.body x')) (splitRegions rs) (splitRegions rs') := by
  induction h with
  | here hr hrs =>
    refine (hr.agree hx hx').cons (agree_same hrs) fun us us' vs vs' hus hvs => ?_
    rw [hvs]
    exact hus.around [] vs'
  | behind hr _ ih =>
    refine hr.agree.cons ih fun us us' vs vs' hus hvs => ?_
    have h := hvs.around us' []
    rw [List.append_nil, List.append_nil] at h
    rw [hus]
    exact h

theorem Outline.Match.agree {Q : List Region → List Region → Prop} {t t' : List Char}
    (h : (outline t).Match Q (outline t'))
    (hQ : ∀ rs rs', Q rs rs' → Agree R (splitRegions rs) (splitRegions rs')) :
    Agree R (split t) (split t') := by
  obtain ⟨hfault, hregions⟩ := h
  constructor
  · simp only [split_ok]
    constructor
    · rintro ⟨ss, hnone, hss⟩
      obtain ⟨ss', hss'⟩ := (hQ _ _ (hregions hnone)).1.1 ⟨ss, hss⟩
      exact ⟨ss', hfault.1 hnone, hss'⟩
    · rintro ⟨ss', hnone', hss'⟩
      have hnone := hfault.2 hnone'
      obtain ⟨ss, hss⟩ := (hQ _ _ (hregions hnone)).1.2 ⟨ss', hss'⟩
      exact ⟨ss, hnone, hss⟩
  · intro ss ss' hss hss'
    obtain ⟨hnone, hss⟩ := split_ok.1 hss
    exact (hQ _ _ (hregions hnone)).2 _ _ hss (split_ok.1 hss').2

end Regions

/-! ## §6. Files. -/

section Files

variable {f : Frame} {what : Enclosure} {x x' : List Char}

/-- The lines of a file are those before the section, in it and after it. -/
theorem Frame.Holds.lines (h : f.Holds what x) :
    Text.lines (f.fill x) = Text.lines f.before ++ (Text.lines (f.sect x) ++ Text.lines f.after) := by
  have hsection : Text.lines (f.sect x ++ f.after) = Text.lines (f.sect x) ++ Text.lines f.after := by
    rcases h.ends with hnil | hends
    · rw [hnil, lines_nil, List.append_nil, List.append_nil]
    · exact lines_append hends _
  unfold Frame.fill
  rw [lines_append h.begins, hsection]

/-- **The outline of the file is the same, but for the region that is the section.** -/
theorem outline_exchange (h : f.Holds what x) (h' : f.Holds what x') :
    (outline (f.fill x)).Match (OneOff Region.Same (Region.Exchanged (f.sect x) (f.sect x')))
      (outline (f.fill x')) := by
  have hflatten : ∀ t : List Char, (Text.lines t).flatten = t := flatten_splitAfter _
  have hmarks := marksFrom_exchange h.marked h.unmarked h'.unmarked h.marked_after 1
  rw [← h.lines, ← h'.lines, hflatten, hflatten] at hmarks
  unfold outline
  dsimp only
  rcases hmarks with ⟨htext, htext', hsame⟩ | ⟨htext, hone⟩
  · exact outlineFrom_first ⟨rfl, [], Or.inl rfl, htext, htext'⟩ hsame
  · exact outlineFrom_exchange ⟨rfl, htext⟩ hone

/-- **The interior of a construct moves no statement**: with another interior the file splits
if it did before, into as many statements, of the same texts but for the one at most that
holds the construct; that has the new construct for the old one. -/
theorem split_fill (h : f.Holds what x) (h' : f.Holds what x') :
    ((∃ ss, split (f.fill x) = .ok ss) ↔ ∃ ss, split (f.fill x') = .ok ss)
      ∧ ∀ ss ss', split (f.fill x) = .ok ss → split (f.fill x') = .ok ss' →
        ss.length = ss'.length
          ∧ SameBut (f.body x) (f.body x') (ss.map (·.raw)) (ss'.map (·.raw)) := by
  obtain ⟨hiff, hsame⟩ := (outline_exchange h h').agree fun rs rs' hrs => agree_exchanged h h' hrs
  refine ⟨hiff, fun ss ss' hss hss' => ?_⟩
  have hbut := hsame ss ss' hss hss'
  have hlength := hbut.length
  rw [List.length_map, List.length_map] at hlength
  exact ⟨hlength, hbut⟩

end Files

/-- A body of a function, behind a manual statement and in front of another one. -/
def functionFrame : Frame where
  before := "SELECT ';';\n-- sqlsync: startStatement\nDO 'x';\n-- sqlsync: endStatement\n".toList
  front := "SELECT 1;\nCREATE FUNCTION f() AS ".toList
  opening := "$f$".toList
  closing := "$f$".toList
  back := " LANGUAGE sql;\nSELECT 2;\n".toList
  after := "-- sqlsync: startStatement\nSELECT 3;\n-- sqlsync: endStatement".toList

/-- Semicolons, quotes and what looks like a comment, in a block. -/
theorem split_fill_block :
    let x := " a; $$ b; $$ ".toList
    let x' := "\n-- it's; /* \n-- sqlsync:\n\" $g$".toList
    functionFrame.Holds .dollarBlock x ∧ functionFrame.Holds .dollarBlock x'
      ∧ ∃ ss ss', split (functionFrame.fill x) = .ok ss ∧ split (functionFrame.fill x') = .ok ss'
        ∧ ss.length = ss'.length
        ∧ SameBut (functionFrame.body x) (functionFrame.body x') (ss.map (·.raw)) (ss'.map (·.raw)) := by
  intro x x'
  have h : functionFrame.Holds .dollarBlock x := by
    constructor <;> decide +kernel
  have h' : functionFrame.Holds .dollarBlock x' := by
    constructor <;> decide +kernel
  obtain ⟨hiff, hsame⟩ := split_fill h h'
  obtain ⟨ss, hss⟩ : ∃ ss, split (functionFrame.fill x) = .ok ss :=
    exists_of_toBool (by decide +kernel)
  obtain ⟨ss', hss'⟩ := hiff.1 ⟨ss, hss⟩
  exact ⟨h, h', ss, ss', hss, hss', hsame ss ss' hss hss'⟩

/-- A manual statement that opens a quote, and code that closes it. -/
def quoteFrame : Frame where
  before := "-- sqlsync: startStatement\nSELECT '\n-- sqlsync: endStatement\n".toList
  front := "SELECT 1; -- don't ".toList
  opening := "'".toList
  closing := "'".toList
  back := "\nSELECT 2;".toList
  after := []

/-- **A section that does not begin in code is not read as the file is.**  The file is closed
as a whole, and the literal in it is closed where it was with another interior, with all around
it read the same; but the section has a line comment there, which a line feed ends. -/
theorem construct_across_manual :
    let x := "x".toList
    let x' := "\n".toList
    let f := quoteFrame
    let s := ({} : Lexer).past (f.before ++ f.front) (f.body x ++ (f.back ++ f.after))
    unclosed? (f.fill x) = none
      ∧ s.Encloses .literal (f.body x) (f.back ++ f.after)
      ∧ s.Encloses .literal (f.body x') (f.back ++ f.after)
      ∧ classify (f.fill x') = ({} : Lexer).reads (f.before ++ f.front) (f.body x ++ (f.back ++ f.after))
        ++ (s.reads (f.body x') (f.back ++ f.after)
          ++ (s.past (f.body x) (f.back ++ f.after)).glyphs (f.back ++ f.after))
      ∧ (∀ l ∈ lines (f.sect x) ++ lines (f.sect x'), marker? l = none)
      ∧ split (f.fill x) = .ok [⟨"SELECT '", some 2⟩, ⟨"SELECT 1;", some 4⟩,
        ⟨"-- don't 'x'\nSELECT 2;", some 4⟩]
      ∧ split (f.fill x') = .error (.unterminated .literal 5) := by
  decide +kernel

end SchemaDrift.Sql
