/-
  SchemaDrift.Proofs.Table.Body
  ─────────────────────────────
  **THE ENTRIES OF A TABLE BODY ARE READ BY THEMSELVES.**

  The body of a definition stands between two parentheses in code, and its entries between
  commas in code.  Each of them is cut out and read afresh, and each time it is read as it
  was before (`glyphs_cut`).  So nothing quoted is open at the end of an entry, and no
  marker begins in it that did not begin in the definition (`clean_entry`).
-/

import SchemaDrift.Proofs.Sql.Verbatim
import SchemaDrift.Proofs.Table.Head

namespace SchemaDrift.Table

open SchemaDrift.Sql SchemaDrift.Text

/-! ## §1. Cutting at a character of code. -/

/-- Nothing quoted is open at the end of the text. -/
def Closed (t : List Char) : Prop := (({} : Lexer).after t).inside ≠ .quoted

/-- Fresh code is closed at its end like a text of its own. -/
theorem closed_iff_fresh {s : Lexer} {t : List Char} (hs : s.Fresh) (hsound : s.Sound t) :
    Closed t ↔ (s.after t).inside ≠ .quoted := by
  have hpast := (Lexer.alike_reads (Lexer.alike_start hs) t []).2
  rw [Lexer.past_whole, Lexer.past_whole] at hpast
  unfold Closed
  rw [Lexer.inside_after hsound, Lexer.inside_after (Lexer.sound_start t), hpast.mode]

/-- The character ends an entry, or the body. -/
def IsCut (c : Char) : Prop := c = ',' ∨ c = ')'

/-- **A text up to a comma or a parenthesis in code is read by itself as it is read there**,
and what follows is read afresh. -/
theorem glyphs_cut {s : Lexer} {t : List Char} (hs : s.Fresh) (hsound : s.Sound t)
    {gs rest : List Glyph} {c : Char} (hc : IsCut c)
    (h : s.glyphs t = gs ++ ⟨c, .code⟩ :: rest) :
    classify (gs.map Glyph.char) = gs ∧ Closed (gs.map Glyph.char)
      ∧ ∃ s' : Lexer, s'.Fresh ∧ s'.Sound (rest.map Glyph.char)
        ∧ s'.glyphs (rest.map Glyph.char) = rest
        ∧ s'.after (rest.map Glyph.char) = s.after t := by
  have hfirm : IsFirm c := by
    rcases hc with rfl | rfl
    · decide +kernel
    · decide +kernel
  obtain ⟨hfront, hidle, hbehind⟩ := Lexer.cut_firm hs hsound hfirm h
  refine ⟨hfront, ?_, hbehind⟩
  unfold Closed
  rw [Lexer.inside_idle hidle]
  decide

/-! ## §2. The body. -/

/-- The parenthesis that closes a body is code. -/
theorem enclosed?_eq_some {depth : Nat} {gs : List Glyph} {body : List Char}
    (h : enclosed? depth gs = some body) :
    ∃ inside rest, gs = inside ++ ⟨')', .code⟩ :: rest ∧ body = inside.map Glyph.char := by
  induction gs generalizing depth body with
  | nil => cases h
  | cons g gs ih =>
    have hmore : ∀ {d : Nat}, (enclosed? d gs).map (g.char :: ·) = some body →
        ∃ inside rest, g :: gs = inside ++ ⟨')', .code⟩ :: rest ∧ body = inside.map Glyph.char := by
      intro d h
      obtain ⟨body', hbody, rfl⟩ := Option.map_eq_some_iff.1 h
      obtain ⟨inside, rest, rfl, rfl⟩ := ih hbody
      exact ⟨g :: inside, rest, rfl, rfl⟩
    unfold enclosed? at h
    split at h
    · exact hmore h
    · split at h
      · next hcode =>
        split at h
        · cases h
          have hg : g = ⟨')', .code⟩ := Glyph.isCode_iff.1 hcode
          exact ⟨[], gs, by rw [hg]; rfl, rfl⟩
        · exact hmore h
      · exact hmore h

/-- No marker begins in the text, and nothing quoted is open at its end. -/
structure Clean (t : List Char) : Prop where
  unmarked : Unmarked [] t
  closed : Closed t

/-- **The body of a definition is read by itself as it is read there**, and nothing quoted is
open at its end. -/
theorem body_glyphs {t body : List Char} {head : Head} (hhead : head? t = some head)
    (hbody : enclosed? 0 ((classify t).drop (t.length - head.body.length)) = some body) :
    ∃ front inside rest, classify t = front ++ (inside ++ ⟨')', .code⟩ :: rest)
      ∧ enclosed? 0 (inside ++ ⟨')', .code⟩ :: rest) = some body
      ∧ body = inside.map Glyph.char ∧ classify body = inside ∧ Closed body := by
  obtain ⟨p, rfl, hp⟩ := head?_arrives hhead
  have hsound := Lexer.sound_past (Lexer.sound_start (p ++ '(' :: head.body))
  obtain ⟨hcode, -⟩ := Lexer.advance_plain (c := '(') (hp _ Lexer.fresh_start.toIdle)
    (by decide) (by decide) (by decide) head.body
  have hfresh := Lexer.fresh_advance hsound (by decide +kernel) (by decide) hcode
  -- the head up to its parenthesis, and the glyphs behind it
  have hparen : ∀ s : Lexer, (s.advance '(' head.body).1 = .code →
      s.glyphs ('(' :: head.body)
        = [⟨'(', .code⟩] ++ (s.advance '(' head.body).2.glyphs head.body := by
    intro s hs
    rw [← hs]
    rfl
  have hsplit : classify (p ++ '(' :: head.body)
      = (({} : Lexer).reads p ('(' :: head.body) ++ [⟨'(', .code⟩])
        ++ ((({} : Lexer).past p ('(' :: head.body)).advance '(' head.body).2.glyphs
          head.body := by
    unfold classify
    rw [Lexer.glyphs_append, List.append_assoc, hparen _ hcode]
  have hlen : (p ++ '(' :: head.body).length - head.body.length
      = (({} : Lexer).reads p ('(' :: head.body)
        ++ [(⟨'(', .code⟩ : Glyph)]).length := by
    rw [List.length_append, List.length_append, Lexer.reads_length, List.length_cons,
      List.length_singleton]
    omega
  rw [hsplit, hlen, List.drop_left] at hbody
  obtain ⟨inside, rest, hglyphs, rfl⟩ := enclosed?_eq_some hbody
  obtain ⟨hclassify, hclosed, -⟩ :=
    glyphs_cut hfresh (Lexer.sound_advance hsound) (Or.inr rfl) hglyphs
  rw [hglyphs] at hsplit hbody
  exact ⟨_, inside, rest, hsplit, hbody, rfl, hclassify, hclosed⟩

/-- The body of a definition is clean if the definition has no marker. -/
theorem clean_body {t body : List Char} (ht : Unmarked [] t) {head : Head}
    (hhead : head? t = some head)
    (hbody : enclosed? 0 ((classify t).drop (t.length - head.body.length)) = some body) :
    Clean body := by
  obtain ⟨front, inside, rest, hsplit, -, rfl, -, hclosed⟩ := body_glyphs hhead hbody
  refine ⟨?_, hclosed⟩
  rw [← classify_map_char t, hsplit, List.map_append, List.map_append] at ht
  exact ht.right.left rfl

/-! ## §3. The entries. -/

/-- A row without a comma to cut at is one part; else the first part ends at such a comma. -/
theorem commaParts_cases (parens brackets : Nat) (gs : List Glyph) :
    commaParts parens brackets gs = [gs.map Glyph.char]
      ∨ ∃ front behind, gs = front ++ ⟨',', .code⟩ :: behind
        ∧ commaParts parens brackets gs = front.map Glyph.char :: commaParts 0 0 behind := by
  induction gs generalizing parens brackets with
  | nil => exact Or.inl rfl
  | cons g gs ih =>
    rw [commaParts]
    split
    · next hcut =>
      simp only [Bool.and_eq_true] at hcut
      have hg : g = ⟨',', .code⟩ := Glyph.isCode_iff.1 hcut.1.1
      exact Or.inr ⟨[], gs, by rw [hg]; rfl, rfl⟩
    · dsimp only
      rcases ih (if g.isCode '(' then parens + 1 else if g.isCode ')' then parens - 1 else parens)
        (if g.isCode '[' then brackets + 1 else if g.isCode ']' then brackets - 1 else brackets)
        with h | ⟨front, behind, rfl, h⟩
      · rw [h]
        exact Or.inl rfl
      · rw [h]
        exact Or.inr ⟨g :: front, behind, rfl, rfl⟩

/-- A part between commas is closed, and stands in the text in front of the end of a word. -/
theorem closed_part {s : Lexer} {t : List Char} (hs : s.Fresh) (hsound : s.Sound t)
    (hclosed : (s.after t).inside ≠ .quoted) {parens brackets : Nat} {part : List Char}
    (h : part ∈ commaParts parens brackets (s.glyphs t)) :
    Closed part ∧ ∃ a b, t = a ++ (part ++ b) ∧ atWordEnd b = true := by
  generalize hn : t.length = n
  induction n using Nat.strongRecOn generalizing s t parens brackets with
  | _ n ih =>
    rcases commaParts_cases parens brackets (s.glyphs t) with hone | ⟨front, behind, hsplit, hmore⟩
    · rw [hone, glyphs_map_char] at h
      rw [List.mem_singleton.1 h]
      exact ⟨(closed_iff_fresh hs hsound).2 hclosed, [], [], by simp, rfl⟩
    · obtain ⟨-, hfront, s', hs', hsound', hglyphs, hafter⟩ :=
        glyphs_cut hs hsound (Or.inl rfl) hsplit
      have ht := (Lexer.glyphs_split hsplit).1
      rw [hmore] at h
      rcases List.mem_cons.1 h with rfl | h
      · exact ⟨hfront, [], _, ht, by rw [List.map_cons]; rfl⟩
      · have hlen : (behind.map Glyph.char).length < n := by
          rw [← hn, ht, List.length_append, List.length_map, List.length_map, List.length_map,
            List.length_cons]
          omega
        rw [← hglyphs] at h
        obtain ⟨hpart, a, b, hab, hend⟩ :=
          ih _ hlen hs' hsound' (by rw [hafter]; exact hclosed) h rfl
        refine ⟨hpart, front.map Glyph.char ++ ',' :: a, b, ?_, hend⟩
        rw [ht, List.map_cons, hab]
        simp

/-- White space at the ends opens and closes nothing. -/
theorem closed_trim {t : List Char} (ht : Closed t) : Closed (trim t) := by
  obtain ⟨a, b, hsplit, ha, hb⟩ := exists_trim t
  intro hopen
  refine ht ?_
  have hsound : ({} : Lexer).Sound (a ++ (trim t ++ b)) := Lexer.sound_start _
  obtain ⟨-, hfresh⟩ := Lexer.fresh_blanks (q := trim t ++ b) Lexer.fresh_start ha
  have hsound' := Lexer.sound_past hsound
  have hsound'' := Lexer.sound_past hsound'
  have hpast := (Lexer.alike_reads (Lexer.alike_start hfresh) (trim t) b).2
  -- the state behind the trimmed text, with the white space in view
  have hmode : ((({} : Lexer).past a (trim t ++ b)).past (trim t) b).mode
      = (({} : Lexer).after (trim t)).mode := by
    rw [hpast.mode]
    cases b with
    | nil => rw [Lexer.past_whole]
    | cons c b =>
      have hc : isBlank c = true := hb c List.mem_cons_self
      exact (Lexer.reads_firm Lexer.delimited_start (isStop_of_isBlank hc)
        (ne_of_isBlank hc (by decide)) (ne_of_isBlank hc (by decide)) (trim t) b).2.1
  rw [Lexer.inside_after (Lexer.sound_start _), ← hmode] at hopen
  have hinside := Lexer.inside_of_mode hsound'' hopen
  have hb' := (Lexer.past_quoted (q := []) ((List.append_nil b).symm ▸ hsound'') hinside
    fun c hc => isQuote_of_isBlank (hb c hc)).2
  rw [Lexer.past_whole] at hb'
  rw [hsplit, Lexer.after_append, Lexer.after_append]
  exact hb'

/-- White space cut off at the ends makes no marker. -/
theorem unmarked_trim {lead t : List Char} (ht : Unmarked lead t) : Unmarked lead (trim t) := by
  obtain ⟨a, b, hsplit, -, hb⟩ := exists_trim t
  rw [hsplit] at ht
  exact ht.right.left (atWordEnd_of_blanks hb)

/-- **The entries of a clean body are clean.** -/
theorem clean_entry {body : List Char} (hbody : Clean body) {e : List Char}
    (he : e ∈ splitTopLevel body) : Clean e := by
  unfold splitTopLevel at he
  obtain ⟨part, hpart, rfl⟩ := List.mem_map.1 (List.mem_filter.1 he).1
  obtain ⟨hclosed, a, b, hab, hend⟩ :=
    closed_part Lexer.fresh_start (Lexer.sound_start body) hbody.closed hpart
  refine ⟨unmarked_trim ?_, closed_trim hclosed⟩
  have hunmarked := hbody.unmarked
  rw [hab] at hunmarked
  exact hunmarked.right.left hend

end SchemaDrift.Table
