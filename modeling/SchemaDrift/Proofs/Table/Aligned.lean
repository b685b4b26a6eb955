/-
  SchemaDrift.Proofs.Table.Aligned
  ────────────────────────────────
  **WHAT IS READ OF RESPACED ENTRIES.**

  Two rows of tokens are aligned if they stand in respaced entries and lie there in pairs
  (`Aligned`).  Tokens in the same place are of one kind, and all of them but groups of one
  text; the insides of groups are respaced (`inside_respaced`), and so are the texts behind a
  token (`Aligned.span_behind`).
-/

import SchemaDrift.Proofs.Table.Paired

namespace SchemaDrift.Table

open SchemaDrift.Sql SchemaDrift.Text

/-! ## §1. The inside of a group. -/

/-- The text neither begins nor ends with a gap, has no comments and ends in code. -/
structure Trimmed (e : List Char) : Prop extends Uncommented e where
  ends : Begins (classify e).reverse

/-- A group that something follows ends with a bracket in code. -/
theorem bracket_of_group {e : List Char} {front inside behind : List Glyph} {o x y : Glyph}
    (h : classify e = front ++ ((o :: (inside ++ [x])) ++ y :: behind))
    (hstands : Stands .group (o :: (inside ++ [x])) (y :: behind)) :
    x.cls = .code ∧ (x.char = ')' ∨ x.char = ']') := by
  obtain ⟨g, hg, hends⟩ := hstands.ended.ends
  obtain rfl : x = g := by simpa [List.getLast?_cons] using hg
  obtain ⟨o', ins, htext, -, -, hbracket⟩ := hstands.ended.group rfl
  obtain ⟨rfl, rfl⟩ := List.cons.inj htext
  rcases hbracket with hnil | ⟨m, c, hins, hc⟩
  · cases hnil
  · obtain ⟨-, hx⟩ := List.append_inj' hins rfl
    obtain rfl := List.singleton_inj.1 hx
    rcases hends with hnil | hcode | ⟨hquoted, hnext⟩
    · cases hnil
    · exact ⟨hcode, hc⟩
    · -- what is quoted does not end with a bracket
      have hchain := classify_neighbours e
      rw [h] at hchain
      have hneighbours : Neighbours x y :=
        (List.isChain_append.1 (List.isChain_append.1 hchain).2.1).2.2 x hg y rfl
      refine absurd (hneighbours.quoted hquoted ?_) (hnext y rfl)
      rcases hc with hc | hc
      · rw [hc]
        decide
      · rw [hc]
        decide

/-- The last glyph of a group is no gap. -/
theorem last_of_group {e : List Char} (he : Trimmed e) {front inside behind : List Glyph} {o x : Glyph}
    (h : classify e = front ++ ((o :: (inside ++ [x])) ++ behind))
    (hstands : Stands .group (o :: (inside ++ [x])) behind) : x.isGap = false := by
  cases behind with
  | nil =>
    refine he.ends x ?_
    rw [h, List.head?_reverse, List.append_nil, ← List.cons_append, ← List.append_assoc,
      List.getLast?_concat]
    rfl
  | cons y behind =>
    obtain ⟨hcode, hc⟩ := bracket_of_group h hstands
    rw [isGap_code hcode]
    rcases hc with hc | hc
    · rw [hc]
      decide
    · rw [hc]
      decide

/-- **The inside of a group is read by itself as it is read there**, whatever is cut off at its
end. -/
theorem classify_inside {e : List Char} (he : Trimmed e) {front inside behind : List Glyph}
    {o x : Glyph} (h : classify e = front ++ ((o :: (inside ++ [x])) ++ behind))
    (hstands : Stands .group (o :: (inside ++ [x])) behind) :
    classify (inside.map Glyph.char) = inside := by
  obtain ⟨o', ins, htext, hcode, hopening, -⟩ := hstands.ended.group rfl
  obtain ⟨rfl, rfl⟩ := List.cons.inj htext
  have hplain : isIdentChar o.char = false ∧ o.char ≠ '$' := by
    rcases hopening with h | h
    · rw [h]
      decide +kernel
    · rw [h]
      decide +kernel
  have hsplit : classify e = front ++ ⟨o.char, .code⟩ :: ((inside ++ [x]) ++ behind) := by
    rw [h, ← hcode]
    simp
  obtain ⟨s, hfresh, hsound, hglyphs, hafter⟩ :=
    Lexer.fresh_behind (Lexer.sound_start e) hplain.1 hplain.2 hsplit
  have hglyphs' : s.glyphs (((inside ++ [x]) ++ behind).map Glyph.char)
      = inside ++ (x :: behind) := by
    rw [hglyphs]
    simp
  obtain ⟨hchars, hreads, hrest⟩ := Lexer.glyphs_split hglyphs'
  rw [hchars] at hsound
  have hdelimited := hsound.delimiter
  suffices halone : s.glyphs (inside.map Glyph.char) = inside from
    (Lexer.glyphs_fresh hfresh _).1.symm.trans halone
  -- the last of the group ends the text, or is the bracket that closes the group
  cases behind with
  | nil =>
    rw [List.map_cons, List.map_nil] at hreads
    rw [← Lexer.reads_dropLast hdelimited (x := x.char) ?_ ?_, hreads]
    · rw [List.append_nil, List.map_append] at hafter
      rw [Lexer.past_whole]
      rw [show [x.char] = [x].map Glyph.char from rfl, hafter]
      exact he.complete
    · intro g hg
      rw [hreads] at hg
      refine he.bare g ?_
      rw [h]
      simp [hg]
  | cons y behind =>
    obtain ⟨hcls, hc⟩ := bracket_of_group h hstands
    rw [List.map_cons] at hsound hreads hrest
    have hidle : (s.past (inside.map Glyph.char) (x.char :: (y :: behind).map Glyph.char)).Idle := by
      refine Lexer.idle_before (Lexer.sound_past hsound) ?_ ?_
      · rcases hc with hc | hc
        · rw [hc]
          decide
        · rw [hc]
          decide
      · rw [Lexer.glyphs] at hrest
        exact (congrArg Glyph.cls (List.cons.inj hrest).1).trans hcls
    exact (Lexer.reads_part hdelimited hidle).1.symm.trans hreads

/-- The insides of the two groups can be cut out and are respaced, or neither can. -/
def InsideAlike (t t' : Token) : Prop :=
  (∃ s s', t.inside = .ok s ∧ t'.inside = .ok s' ∧ Respaced (classify s) (classify s')
      ∧ (∀ g ∈ classify s, g.cls ≠ .comment) ∧ ∀ g ∈ classify s', g.cls ≠ .comment)
    ∨ (∃ x, t.inside = .error x) ∧ ∃ x, t'.inside = .error x

/-- What is cut out of a group of several characters. -/
theorem inside_of_chars (o x : Glyph) (inside : List Glyph) (gap : List Char) :
    (⟨.group, (o :: (inside ++ [x])).map Glyph.char, gap⟩ : Token).inside
      = if x.char.utf8Size = 1 then .ok (inside.map Glyph.char) else .error .cutInsideCharacter := by
  unfold Token.inside
  have htail : ((o :: (inside ++ [x])).map Glyph.char).tail = inside.map Glyph.char ++ [x.char] := by
    simp
  dsimp only
  rw [htail, List.getLast?_concat, List.dropLast_concat]

/-- **The insides of paired groups are respaced.** -/
theorem inside_respaced {e e' : List Char} (he : Trimmed e) (he' : Trimmed e')
    {front front' text text' behind behind' : List Glyph} {gap gap' : List Char}
    (h : classify e = front ++ (text ++ behind)) (h' : classify e' = front' ++ (text' ++ behind'))
    (hstands : Stands .group text behind) (hstands' : Stands .group text' behind')
    (htext : Respaced text text') :
    InsideAlike ⟨.group, text.map Glyph.char, gap⟩ ⟨.group, text'.map Glyph.char, gap'⟩ := by
  obtain ⟨o, ins, rfl, hcode, hopening, -⟩ := hstands.ended.group rfl
  have ho : o.isGap = false := by
    rw [isGap_code hcode]
    rcases hopening with hc | hc
    · rw [hc]
      decide
    · rw [hc]
      decide
  obtain ⟨ins', rfl, hins⟩ := htext.of_cons ho
  rcases List.eq_nil_or_concat ins with rfl | ⟨m, x, rfl⟩
  · obtain rfl := hins.eq_nil_iff.1 rfl
    exact Or.inl ⟨[], [], rfl, rfl, .nil, List.forall_mem_nil _, List.forall_mem_nil _⟩
  · rw [List.concat_eq_append] at *
    have hx := last_of_group he h hstands
    obtain ⟨m', rest, rfl, hm, hrest⟩ := hins.split hx
    obtain rfl := hrest.eq_nil_iff.1 rfl
    have hinside := classify_inside he h hstands
    have hinside' := classify_inside he' h' hstands'
    unfold InsideAlike
    rw [inside_of_chars, inside_of_chars]
    -- a last character of several bytes is cut in two, in both texts
    by_cases hsize : x.char.utf8Size = 1
    · rw [if_pos hsize, if_pos hsize]
      refine Or.inl ⟨_, _, rfl, rfl, ?_, ?_, ?_⟩
      · rw [hinside, hinside']
        exact hm
      · intro g hg
        rw [hinside] at hg
        exact he.bare g (by rw [h]; simp [hg])
      · intro g hg
        rw [hinside'] at hg
        exact he'.bare g (by rw [h']; simp [hg])
    · rw [if_neg hsize, if_neg hsize]
      exact Or.inr ⟨⟨_, rfl⟩, _, rfl⟩

/-! ## §2. Tokens in the same place. -/

/-- What two tokens in the same place have in common. -/
structure TokenAlike (t t' : Token) : Prop where
  kind : t.kind = t'.kind
  text : t.kind ≠ .group → t.text = t'.text
  gap : t.gap.isEmpty = t'.gap.isEmpty
  inside : t.kind = .group → InsideAlike t t'

theorem TokenAlike.keyword? {t t' : Token} (h : TokenAlike t t') : t.keyword? = t'.keyword? := by
  unfold Token.keyword?
  rw [← h.kind]
  by_cases hword : t.kind = .word
  · rw [if_pos hword, if_pos hword, h.text (by rw [hword]; decide)]
  · rw [if_neg hword, if_neg hword]

theorem TokenAlike.isKeyword {t t' : Token} (h : TokenAlike t t') (k : String) :
    t.isKeyword k = t'.isKeyword k := by
  unfold Token.isKeyword
  rw [h.keyword?]

/-- The tokens stand in respaced entries, one behind the other, in pairs. -/
def Aligned (e e' : List Char) (ts ts' : List Token) : Prop :=
  ∃ front front' gs gs', classify e = front ++ gs ∧ classify e' = front' ++ gs'
    ∧ Paired gs gs' ts ts'

/-- The tokens of respaced entries are aligned. -/
theorem aligned_tokenize {e e' : List Char} (h : Respaced (classify e) (classify e')) :
    Aligned e e' (tokenize e) (tokenize e') := tokenize_paired h

namespace Aligned

variable {e e' : List Char} {t t' : Token} {ts ts' : List Token}

theorem length (h : Aligned e e' ts ts') : ts.length = ts'.length := by
  obtain ⟨_, _, _, _, _, _, hpaired⟩ := h
  exact hpaired.length

theorem drop (h : Aligned e e' ts ts') (n : Nat) : Aligned e e' (ts.drop n) (ts'.drop n) := by
  obtain ⟨front, front', gs, gs', hsplit, hsplit', hpaired⟩ := h
  obtain ⟨us, us', vs, vs', rfl, rfl, hdrop⟩ := hpaired.drop n
  exact ⟨front ++ us, front' ++ us', vs, vs', by rw [hsplit, List.append_assoc],
    by rw [hsplit', List.append_assoc], hdrop⟩

theorem tail (h : Aligned e e' ts ts') : Aligned e e' ts.tail ts'.tail := by
  rw [← List.drop_one, ← List.drop_one]
  exact h.drop 1

theorem of_nil (h : Aligned e e' [] ts') : ts' = [] := List.length_eq_zero_iff.1 h.length.symm

/-- The tokens in front, and those behind them. -/
theorem of_cons (he : Trimmed e) (he' : Trimmed e') (h : Aligned e e' (t :: ts) ts') :
    ∃ u us, ts' = u :: us ∧ TokenAlike t u ∧ Aligned e e' ts us := by
  obtain ⟨front, front', gs, gs', hsplit, hsplit', hpaired⟩ := h
  have htail := fun hp : Paired gs gs' (t :: ts) ts' =>
    Aligned.tail (show Aligned e e' (t :: ts) ts' from ⟨front, front', gs, gs', hsplit, hsplit', hp⟩)
  specialize htail hpaired
  cases hpaired with
  | @cons kind text text' gap gap' gs gs' ts us hstands hstands' htext hkept hgap hrest =>
    refine ⟨_, _, rfl, ⟨rfl, fun hk => congrArg (List.map Glyph.char) (hkept hk), ?_, ?_⟩, htail⟩
    · rcases hgap with ⟨rfl, rfl⟩ | ⟨hg, hg'⟩
      · rfl
      · obtain ⟨x, gap, rfl⟩ := List.exists_cons_of_ne_nil hg.ne_nil
        obtain ⟨x', gap', rfl⟩ := List.exists_cons_of_ne_nil hg'.ne_nil
        rfl
    · intro hk
      obtain rfl : kind = .group := hk
      exact inside_respaced he he' hsplit hsplit' hstands hstands' htext

end Aligned

/-! ## §3. The text behind a token. -/

/-- No token begins with a gap. -/
theorem not_gap_of_start {g : Glyph} {kind : TokenKind} {r : Reading}
    (h : freshRole g = .start kind r) : g.isGap = false := by
  by_contra hgap
  have hrole := role_gap between_outside (Bool.not_eq_false _ ▸ hgap : g.isGap = true)
  rw [show Reading.between.role g = freshRole g from rfl, h] at hrole
  cases hrole

theorem Paired.begins {gs gs' : List Glyph} {ts ts' : List Token} (h : Paired gs gs' ts ts') :
    Begins gs := by
  cases h with
  | nil => exact begins_nil
  | cons hstands _ _ _ _ _ =>
    obtain ⟨g, rest, r, rfl, hstart⟩ := hstands.first
    exact begins_cons (not_gap_of_start hstart)

/-- The first glyph is the first of the token in front. -/
theorem Paired.head_char {gs gs' : List Glyph} {ts ts' : List Token} (h : Paired gs gs' ts ts') :
    ∀ g ∈ gs.head?, ∃ u ∈ ts.head?, g.char ∈ u.text.head? := by
  intro g hg
  cases h with
  | nil => cases hg
  | cons hstands _ _ _ _ _ =>
    obtain ⟨y, rest, r, rfl, -⟩ := hstands.first
    obtain rfl : y = g := Option.some.inj hg
    exact ⟨_, rfl, rfl⟩

/-- What is right behind the token does not look back at it: no literal begins there behind an
`E`, and no dollar sign behind what is quoted. -/
def Detached (t : Token) (behind : List Token) : Prop :=
  t.gap = [] → ∀ u ∈ behind.head?, ∀ c ∈ u.text.head?,
    (c = '\'' → ∀ x ∈ t.text.getLast?, x ≠ 'e' ∧ x ≠ 'E') ∧ (c = '$' → t.kind = .word)

instance (t : Token) (behind : List Token) : Decidable (Detached t behind) :=
  inferInstanceAs (Decidable (t.gap = [] → ∀ u ∈ behind.head?, ∀ c ∈ u.text.head?,
    (c = '\'' → ∀ x ∈ t.text.getLast?, x ≠ 'e' ∧ x ≠ 'E') ∧ (c = '$' → t.kind = .word)))

/-- The text behind a token is read by itself as it is read there. -/
theorem classify_behind {e : List Char} (he : Trimmed e) {kind : TokenKind}
    {front text gap span behind : List Glyph}
    (h : classify e = front ++ (text ++ (gap ++ (span ++ behind))))
    (hstands : Stands kind text (gap ++ (span ++ behind)))
    (hkind : kind = .word ∨ kind = .quotedIdent) (hgap : gap = [] ∨ IsRun gap) (hbegins : Begins span)
    (hends : Ends span behind) (hdetached : gap = [] → ∀ g ∈ span.head?,
      (g.char = '\'' → ∀ x ∈ text.getLast?, x.char ≠ 'e' ∧ x.char ≠ 'E') ∧ (g.char = '$' → kind = .word)) :
    classify (span.map Glyph.char) = span := by
  obtain ⟨y, span, rfl⟩ : ∃ y span', span = y :: span' := by
    obtain ⟨g, hg, -⟩ := hends
    exact List.exists_cons_of_ne_nil fun hnil => by rw [hnil] at hg; cases hg
  -- the span touches the text in front of it, or a gap is between them
  rcases hgap with rfl | hrun
  · rw [List.nil_append, List.cons_append] at hstands
    have hlooks := looks_behind he.toUncommented (by rw [h]; rfl) hstands hkind
      (hdetached rfl y rfl).1 (hdetached rfl y rfl).2
    have hidle := idle_behind he.toUncommented (by rw [h]; rfl) hstands.ended.ends
    have hparts : classify e = (front ++ text) ++ (y :: span ++ behind) := by
      rw [h]
      simp
    refine span_alone he.toUncommented hparts hends hidle ?_
    intro g hg
    obtain rfl : y = g := Option.some.inj hg
    exact hlooks
  · have hsplit : classify e = (front ++ (text ++ gap)) ++ (y :: (span ++ behind)) := by
      rw [h]
      simp
    obtain ⟨htext, hreads, hglyphs⟩ := Lexer.glyphs_split hsplit
    obtain ⟨z, hz, hmem⟩ : ∃ z, (front ++ (text ++ gap)).getLast? = some z ∧ z ∈ gap := by
      refine ⟨gap.getLast hrun.ne_nil, ?_, List.getLast_mem _⟩
      rw [← List.append_assoc, List.getLast?_append, List.getLast?_eq_some_getLast hrun.ne_nil]
      rfl
    have hfresh := Lexer.fresh_behind_gap (htext ▸ Lexer.sound_start e)
      (by rw [← List.map_cons, hreads]; exact hz) (hrun.gaps z hmem) (by
        rw [List.map_cons, Lexer.glyphs] at hglyphs
        rw [(List.cons.inj hglyphs).1]
        exact hbegins y rfl)
    have hparts : classify e = (front ++ (text ++ gap)) ++ (y :: span ++ behind) := hsplit
    exact span_alone he.toUncommented hparts hends hfresh.toIdle fun g _ => hfresh.looksAhead g.char

/-- **The texts behind tokens in the same place are respaced.** -/
theorem Aligned.span_behind {e e' : List Char} (he : Trimmed e) (he' : Trimmed e') {t t' : Token}
    {ts ts' : List Token} (h : Aligned e e' (t :: ts) (t' :: ts'))
    (hkind : t.kind = .word ∨ t.kind = .quotedIdent) (hdetached : Detached t ts) (n : Nat) :
    Respaced (classify (spanText (ts.take n))) (classify (spanText (ts'.take n))) := by
  obtain ⟨front, front', gs, gs', hsplit, hsplit', hpaired⟩ := h
  cases hpaired with
  | @cons kind text text' gap gap' gs gs' ts ts' hstands hstands' htext hkept hgap hrest =>
    by_cases hnil : ts.take n = []
    · have hnil' : ts'.take n = [] := by
        rw [← List.length_eq_zero_iff] at hnil ⊢
        rw [List.length_take] at hnil ⊢
        rw [← hrest.length]
        exact hnil
      rw [hnil, hnil']
      exact .refl _
    · obtain ⟨span, span', behind, behind', rfl, rfl, hspan, hspan', hrespaced, hends, hends'⟩ :=
        hrest.span hnil
      have hne : ∀ {us vs : List Glyph}, Ends us vs → us ≠ [] := by
        rintro us vs ⟨g, hg, -⟩ rfl
        cases hg
      have hbegins : Begins span := by
        have hb := hrest.begins
        obtain ⟨y, span, rfl⟩ := List.exists_cons_of_ne_nil (hne hends)
        exact begins_cons (hb y rfl)
      obtain rfl : text = text' := hkept (by rcases hkind with h | h <;> rw [show kind = _ from h] <;> decide)
      -- the first glyph of the text is the first of the next token
      have hdet : gap = [] → ∀ g ∈ span.head?, (g.char = '\'' → ∀ x ∈ text.getLast?,
          x.char ≠ 'e' ∧ x.char ≠ 'E') ∧ (g.char = '$' → kind = .word) := by
        intro hgapnil g hg
        have hfirst := hrest.head_char g (by
          rw [List.head?_append, Option.mem_def.1 hg]
          rfl)
        obtain ⟨u, hu, hc⟩ := hfirst
        obtain ⟨hliteral, hblock⟩ := hdetached (by rw [hgapnil]; rfl) u hu g.char hc
        refine ⟨fun hq x hx => hliteral hq x.char ?_, hblock⟩
        rw [Option.mem_def, List.getLast?_map, Option.mem_def.1 hx]
        rfl
      have hgapalike : (gap = [] ∨ IsRun gap) ∧ (gap' = [] ∨ IsRun gap') ∧ (gap' = [] → gap = []) := by
        rcases hgap with ⟨h, h'⟩ | ⟨h, h'⟩
        · exact ⟨Or.inl h, Or.inl h', fun _ => h⟩
        · exact ⟨Or.inr h, Or.inr h', fun hnil => absurd hnil h'.ne_nil⟩
      obtain ⟨hg, hg', hboth⟩ := hgapalike
      rw [hspan, hspan', classify_behind he hsplit hstands hkind hg hbegins hends hdet,
        classify_behind he' hsplit' hstands' hkind hg' (hrespaced.begins hbegins) hends' ?_]
      · exact hrespaced
      · intro hnil'
        rw [← hrespaced.head_eq hbegins]
        exact hdet (hboth hnil')

end SchemaDrift.Table
