/-
  SchemaDrift.Proofs.Sql.Relaid
  ─────────────────────────────
  **A FILE LAID OUT AGAIN HAS THE SAME STATEMENTS.**

  A text is laid out again when one run of white space and comments takes the place of another
  (`Relaid`).  Its glyphs are then the old ones respaced (`Relaid.exchanged`), so that it is cut
  in the same places, and every statement says what it said before (`Statement.Resaid`).

      split_relaid    the statements of a file without marker lines
-/

import SchemaDrift.Proofs.Sql.Addressed
import SchemaDrift.Proofs.Sql.Closing

namespace SchemaDrift.Sql

open SchemaDrift.Text

/-! ## §1. One run for another. -/

/-- A run of white space and comments of `t`, as long as it can be, and the text `r` that may
take its place: white space and comments too, and white space first.  In both every comment is
complete, and no line is addressed to this program. -/
structure Exchangeable (t : List Char) (gs a hs : List Glyph) (r : List Char) : Prop
    extends Parted t gs a hs where
  complete : hs = [] → unclosed? t = none
  quiet : Quiet (gs.map Glyph.char) (a.map Glyph.char)
  filler : Filler r
  /-- Only at the end of the text may a line comment lack its line feed. -/
  complete' : (({} : Lexer).after r).mode = .code
    ∨ hs = [] ∧ (({} : Lexer).after r).mode = .lineComment
  quiet' : Quiet (gs.map Glyph.char) r

/-- `t'` is `t` with one run of white space and comments exchanged for another. -/
def Relaid (t t' : List Char) : Prop :=
  ∃ gs a hs r, Exchangeable t gs a hs r ∧ t' = gs.map Glyph.char ++ (r ++ hs.map Glyph.char)

/-- No line is addressed where there is no colon. -/
theorem quiet_of_colonless {run : List Char} (h : ':' ∉ run) (front : List Char) :
    Quiet front run := by
  intro u v hrun _
  by_contra haddressed
  obtain ⟨b, b', x, hline, -, -⟩ := isAddressed_iff.1 (Bool.not_eq_false _ ▸ haddressed)
  have hcolon : ':' ∈ headLine v := by
    rw [hline]
    simp
  refine h ?_
  rw [hrun]
  exact List.mem_append_right u ((List.takeWhile_sublist _).subset hcolon)

/-- A run of white space and comments between two rows of glyphs is exchanged for another. -/
theorem relaid_between {t r : List Char} {gs a hs : List Glyph}
    (hparted : classify t = gs ++ (a ++ hs)) (hrun : IsRun a)
    (hfront : ∀ g ∈ gs.getLast?, g.isGap = false) (hbehind : Begins hs) (hne : hs ≠ [])
    (hfiller : Filler r) (hend : (({} : Lexer).after r).mode = .code)
    (hcolon : ':' ∉ a.map Glyph.char ∧ ':' ∉ r) :
    Relaid t (gs.map Glyph.char ++ (r ++ hs.map Glyph.char)) :=
  ⟨gs, a, hs, r, ⟨⟨hparted, hrun, hfront, hbehind⟩, fun hnil => absurd hnil hne,
    quiet_of_colonless hcolon.1 _, hfiller, Or.inl hend, quiet_of_colonless hcolon.2 _⟩, rfl⟩

/-- A run that closes its comments leaves a text as closed as it was. -/
theorem Exchangeable.parted' {t : List Char} {gs a hs : List Glyph} {r : List Char}
    (h : Exchangeable t gs a hs r) :
    Parted (gs.map Glyph.char ++ (r ++ hs.map Glyph.char)) gs (classify r) hs
      ∧ (unclosed? t = none ↔ unclosed? (gs.map Glyph.char ++ (r ++ hs.map Glyph.char)) = none) := by
  obtain ⟨hfront, hidle, hbehind, hmode⟩ := parting h.whole h.run h.front h.behind
  have hend : hs.map Glyph.char ≠ [] → (({} : Lexer).after r).Idle := by
    intro hne
    rcases h.complete' with hcode | ⟨rfl, -⟩
    · exact ⟨hcode, Lexer.held_after (Lexer.sound_start r)⟩
    · exact absurd rfl hne
  obtain ⟨hwhole, hafter⟩ := classify_fill hidle h.filler hend
  rw [hfront, hbehind] at hwhole
  refine ⟨⟨hwhole, h.filler.isRun, h.front, h.behind⟩, ?_⟩
  rw [unclosed?_eq_none, unclosed?_eq_none, hafter]
  by_cases hnil : hs = []
  · rw [if_pos (by rw [hnil]; rfl), ← unclosed?_eq_none]
    refine iff_of_true (h.complete hnil) ?_
    rcases h.complete' with hcode | ⟨-, hline⟩
    · rw [hcode]
      rfl
    · rw [hline]
      rfl
  · rw [if_neg fun hchars => hnil (List.map_eq_nil_iff.1 hchars), hmode hnil]

/-- What a text laid out again has in common with the old one. -/
structure Exchanged (t t' : List Char) : Prop where
  respaced : Respaced (classify t) (classify t')
  closed : unclosed? t = none ↔ unclosed? t' = none
  unmarked : (∀ l ∈ lines t, marker? l = none) → ∀ l ∈ lines t', marker? l = none
  directives : (directives t).toOption = (directives t').toOption

/-- **A text laid out again differs in its gaps only**, gets no marker line, and asks for the same
treatment. -/
theorem Relaid.exchanged {t t' : List Char} (h : Relaid t t') : Exchanged t t' := by
  obtain ⟨gs, a, hs, r, h, rfl⟩ := h
  obtain ⟨hparted, hclosed⟩ := h.parted'
  have hr : (classify r).map Glyph.char = r := classify_map_char r
  have hrespaced : Respaced (gs ++ (a ++ hs)) (gs ++ (classify r ++ hs)) :=
    (Respaced.refl gs).append (.run h.run h.filler.isRun (.refl hs))
  rw [← h.whole, ← hparted.whole] at hrespaced
  have hmarker : marker? [] = none := by decide
  refine ⟨hrespaced, hclosed, fun hnone => ?_, ?_⟩
  · have hunmarked := (unmarked_iff_lines hmarker).2 hnone
    exact (unmarked_iff_lines hmarker).1
      (h.toParted.unmarked_exchange hparted (by rw [hr]; exact h.quiet') hunmarked)
  · exact h.toParted.directives_exchange hparted h.quiet (by rw [hr]; exact h.quiet')

/-! ## §2. Statements. -/

/-- The statements are closed, and say the same. -/
structure Statement.Resaid (s s' : Statement) : Prop where
  same : SaySame s.raw.toList s'.raw.toList
  left : SelfContained s.raw.toList
  right : SelfContained s'.raw.toList

theorem Statement.Resaid.hash_eq {s s' : Statement} (h : s.Resaid s') : s.hash = s'.hash := by
  unfold Statement.hash Statement.normalized
  rw [h.same.normalize_eq]

theorem Statement.Resaid.isCreateTable_eq {s s' : Statement} (h : s.Resaid s') :
    s.isCreateTable = s'.isCreateTable := by
  unfold Statement.isCreateTable
  rw [h.same.normalize_eq]

/-- The pieces of respaced texts are respaced. -/
theorem pieces_respaced {t t' : List Char} (h : Respaced (classify t) (classify t')) :
    List.Forall₂ (fun p p' => Respaced (classify p) (classify p')) (pieces t) (pieces t') := by
  have hpieces := h.pieces (p := (·.isCode ';')) fun g hg => isCode_of_gap hg (by decide)
  have hread := classify_piece t
  have hread' := classify_piece t'
  unfold pieces
  generalize splitAfter (·.isCode ';') (classify t) = ps at hpieces hread ⊢
  generalize splitAfter (·.isCode ';') (classify t') = ps' at hpieces hread' ⊢
  induction hpieces with
  | nil => exact .nil
  | cons hp _ ih =>
    obtain ⟨hfirst, hread⟩ := List.forall_mem_cons.1 hread
    obtain ⟨hfirst', hread'⟩ := List.forall_mem_cons.1 hread'
    refine .cons ?_ (ih hread hread')
    rw [hfirst, hfirst']
    exact hp

/-- Pieces that say the same hold statements that do. -/
theorem statementsOf_resaid {ps ps' : List (List Char)} (h : List.Forall₂ SaySame ps ps')
    (hps : ∀ p ∈ ps, SelfContained p) (hps' : ∀ p ∈ ps', SelfContained p) (line line' : Nat) :
    List.Forall₂ Statement.Resaid (statementsOf line ps) (statementsOf line' ps') := by
  induction h generalizing line line' with
  | nil => exact .nil
  | @cons p p' ps ps' hp _ ih =>
    obtain ⟨hfirst, hps⟩ := List.forall_mem_cons.1 hps
    obtain ⟨hfirst', hps'⟩ := List.forall_mem_cons.1 hps'
    refine List.rel_append ?_ (ih hps hps' _ _)
    have hnormal : normalize (trim p) = normalize (trim p') := by
      rw [normalize_trim, normalize_trim, hp.normalize_eq]
    unfold statementOf? Statement.isEmpty
    simp only [String.toList_ofList, hnormal]
    split
    · exact .nil
    · refine .cons ⟨?_, ?_, ?_⟩ .nil
      · unfold SaySame
        simp only [String.toList_ofList]
        rw [core_trim hfirst.closed, core_trim hfirst'.closed]
        exact hp
      · simpa only [String.toList_ofList] using hfirst.trim
      · simpa only [String.toList_ofList] using hfirst'.trim

/-! ## §3. Files without marker lines. -/

/-- A file without marker lines is cut at its semicolons. -/
theorem split_unmarked {t : List Char} (h : ∀ l ∈ lines t, marker? l = none) :
    split t = match unclosed? t with
      | some (what, line) => .error (.unterminated what line)
      | none => .ok (statementsOf 1 (pieces t)) := by
  have hnone : ∀ l ∈ ([] : List (List Char)).head?, marker? l ≠ none := fun _ hl => nomatch hl
  obtain ⟨htext, hmarks⟩ := marksFrom_section h hnone 1
  rw [List.append_nil] at htext hmarks
  have hflat : (lines t).flatten = t := flatten_splitAfter _ _
  have houtline : outline t = ⟨[⟨false, 1, t⟩], none⟩ := by
    unfold outline
    rw [show marksFrom 1 (lines t) = (t, []) from Prod.ext (htext.trans hflat) hmarks]
    rfl
  unfold split
  rw [houtline]
  simp only [splitRegions, Region.statements, Bool.false_eq_true, if_false]
  cases unclosed? t with
  | none => simp [bind, Except.bind, pure, Except.pure]
  | some found => rfl

/-- **A file without marker lines has the same statements when it is laid out again**, or can be
cut in neither form. -/
theorem split_relaid {t t' : List Char} (h : Exchanged t t')
    (hunmarked : ∀ l ∈ lines t, marker? l = none) :
    ((∃ e, split t = .error e) ∧ ∃ e, split t' = .error e)
      ∨ ∃ ss ss', split t = .ok ss ∧ split t' = .ok ss' ∧ List.Forall₂ Statement.Resaid ss ss' := by
  rw [split_unmarked hunmarked, split_unmarked (h.unmarked hunmarked)]
  by_cases hclosed : unclosed? t = none
  · have hclosed' := h.closed.1 hclosed
    refine Or.inr ⟨_, _, by rw [hclosed], by rw [hclosed'], ?_⟩
    exact statementsOf_resaid ((pieces_respaced h.respaced).imp fun _ _ hp => core_respaced hp)
      (pieces_selfContained hclosed) (pieces_selfContained hclosed') 1 1
  · have hclosed' := mt h.closed.2 hclosed
    obtain ⟨found, hfound⟩ := Option.ne_none_iff_exists'.1 hclosed
    obtain ⟨found', hfound'⟩ := Option.ne_none_iff_exists'.1 hclosed'
    refine Or.inl ⟨⟨_, by rw [hfound]⟩, ⟨_, by rw [hfound']⟩⟩

end SchemaDrift.Sql
