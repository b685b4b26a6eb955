/-
  SchemaDrift.Proofs.Table.Paired
  ───────────────────────────────
  **THE TOKENS OF RESPACED ENTRIES.**

  Respaced rows of glyphs are read to tokens of the same kinds (`Paired`).  Each token has the
  same text as the other, or they are groups with respaced texts, and a gap stands behind both
  or behind neither.

      row_paired        what is read of respaced rows
      paired_span       the texts of some tokens are respaced
      span_alone        such a text is read by itself as it is read in the entry
-/

import SchemaDrift.Proofs.Table.Restated

namespace SchemaDrift.Table

open SchemaDrift.Sql SchemaDrift.Text

/-! ## §1. Two rows of tokens. -/

/-- A gap stands in both places or in neither. -/
def GapAlike (gap gap' : List Glyph) : Prop := gap = [] ∧ gap' = [] ∨ IsRun gap ∧ IsRun gap'

/-- A token of the glyphs `text` stands in front of the glyphs `behind`. -/
structure Stands (kind : TokenKind) (text behind : List Glyph) : Prop where
  ended : Over kind text behind
  first : ∃ g rest r, text = g :: rest ∧ freshRole g = .start kind r
  /-- A word goes on as far as it can. -/
  word : kind = .word → ∀ g ∈ behind.head?, ¬(g.cls = .code ∧ isTokenChar g.char = true)
  quoted : kind = .quotedIdent → ∀ g ∈ text.getLast?, g.cls = .quoted

/-- The tokens lie in the rows of glyphs one behind the other, and differ in gaps only. -/
inductive Paired : List Glyph → List Glyph → List Token → List Token → Prop where
  | nil : Paired [] [] [] []
  | cons {kind : TokenKind} {text text' gap gap' gs gs' : List Glyph} {ts ts' : List Token}
      (hstands : Stands kind text (gap ++ gs)) (hstands' : Stands kind text' (gap' ++ gs'))
      (htext : Respaced text text') (hkept : kind ≠ .group → text = text')
      (hgap : GapAlike gap gap') (hrest : Paired gs gs' ts ts') :
      Paired (text ++ (gap ++ gs)) (text' ++ (gap' ++ gs'))
        (⟨kind, text.map Glyph.char, gap.map Glyph.char⟩ :: ts)
        (⟨kind, text'.map Glyph.char, gap'.map Glyph.char⟩ :: ts')

/-- The reader is inside of a token as its kind says. -/
def Reading.Reads (r : Reading) (kind : TokenKind) : Prop :=
  (kind = .word → r = .word) ∧ (kind = .quotedIdent → r = .quoted)

theorem reads_of_freshRole {g : Glyph} {kind : TokenKind} {r : Reading}
    (h : freshRole g = .start kind r) : r.Reads kind := by
  unfold freshRole at h
  split at h
  · cases h
  · obtain ⟨rfl, rfl⟩ := Role.start.inj h
    refine ⟨fun hk => ?_, fun _ => rfl⟩
    split at hk
    · cases hk
    · cases hk
  · split at h
    · cases h
    · split at h
      · obtain ⟨rfl, rfl⟩ := Role.start.inj h
        exact ⟨by simp, by simp⟩
      · split at h
        · obtain ⟨rfl, rfl⟩ := Role.start.inj h
          exact ⟨fun _ => rfl, by simp⟩
        · obtain ⟨rfl, rfl⟩ := Role.start.inj h
          exact ⟨by simp, by simp⟩

/-- No glyph goes on with a token between tokens. -/
theorem freshRole_ne_more (g : Glyph) (r : Reading) : freshRole g ≠ .more r := by
  intro hmore
  rcases freshRole_cases g with h | ⟨k, q, h, -⟩
  · rw [h] at hmore
    cases hmore
  · rw [h] at hmore
    cases hmore

/-- A glyph that goes on with a token goes on with one of its kind. -/
theorem Reading.Reads.more {r r' : Reading} {kind : TokenKind} (h : r.Reads kind) {g : Glyph}
    (hrole : r.role g = .more r') : r'.Reads kind := by
  constructor
  · intro hk
    rw [h.1 hk] at hrole
    unfold Reading.role at hrole
    dsimp only at hrole
    split at hrole
    · exact (Role.more.inj hrole).symm
    · exact absurd hrole (freshRole_ne_more g r')
  · intro hk
    rw [h.2 hk] at hrole
    unfold Reading.role at hrole
    dsimp only at hrole
    split at hrole
    · exact (Role.more.inj hrole).symm
    · exact absurd hrole (freshRole_ne_more g r')

/-- What is read of a quoted name ends with something quoted. -/
theorem Reading.Reads.quoted {r : Reading} {kind : TokenKind} (h : r.Reads kind) {done : List Glyph}
    (hwithin : r.Within kind done) : kind = .quotedIdent → ∀ g ∈ (done ++ []).getLast?, g.cls = .quoted := by
  intro hk g hg
  rw [List.append_nil] at hg
  rw [h.2 hk] at hwithin
  obtain ⟨-, x, hx, hcls⟩ := hwithin
  rw [hx] at hg
  rw [← Option.some.inj hg]
  exact hcls

/-- A glyph begins a token as it would begin one between tokens. -/
theorem fresh_of_start {r r' : Reading} {kind : TokenKind} {g : Glyph}
    (h : r.role g = .start kind r') : freshRole g = .start kind r' := by
  by_cases hr : r.InGroup
  · obtain ⟨o, d, rfl⟩ := hr
    obtain ⟨r'', hmore, -⟩ := role_group o d g
    rw [hmore] at h
    cases h
  · rcases role_outside hr g with hrole | ⟨r'', hmore, -⟩
    · exact hrole.symm.trans h
    · rw [hmore] at h
      cases h

/-- In front of a row that begins with no gap none is read. -/
theorem row_between_gap {gs : List Glyph} (hgs : Begins gs) : (Reading.between.row gs).gap = [] := by
  cases gs with
  | nil => rfl
  | cons g gs => exact row_begins (hgs g rfl) gs

/-- What is read of gaps outside of groups. -/
theorem row_gaps_outside {r : Reading} (hr : ¬r.InGroup) {a : List Glyph} (ha : IsRun a)
    {gs : List Glyph} (hgs : Begins gs) :
    r.row (a ++ gs) = ⟨[], a.map Glyph.char, (Reading.between.row gs).tokens⟩ := by
  have hbegins := row_between_gap hgs
  have hgaps : ∀ {r : Reading}, ¬r.InGroup → ∀ {a : List Glyph}, (∀ g ∈ a, g.isGap = true) → a ≠ [] →
      r.row (a ++ gs) = ⟨[], a.map Glyph.char, (Reading.between.row gs).tokens⟩ := by
    intro r hr a ha hne
    induction a generalizing r with
    | nil => exact absurd rfl hne
    | cons g a ih =>
      obtain ⟨hg, ha⟩ := List.forall_mem_cons.1 ha
      rw [List.cons_append, row_cons, role_gap hr hg]
      dsimp only
      cases a with
      | nil => rw [List.nil_append, row_between_rest, hbegins]; rfl
      | cons x a =>
        rw [ih between_outside ha (List.cons_ne_nil x a)]
        rfl
  exact hgaps hr ha.gaps ha.ne_nil

/-- What is read of gaps inside of a group. -/
theorem row_gaps_group {opening : Char} (hopening : opening = '(' ∨ opening = '[') (depth : Nat)
    {a : List Glyph} (ha : ∀ g ∈ a, g.isGap = true) (gs : List Glyph) :
    (Reading.group opening depth).row (a ++ gs)
      = { (Reading.group opening depth).row gs with
          rest := a.map Glyph.char ++ ((Reading.group opening depth).row gs).rest } := by
  induction a with
  | nil => rfl
  | cons g a ih =>
    obtain ⟨hg, ha⟩ := List.forall_mem_cons.1 ha
    have hrole : (Reading.group opening depth).role g = .more (.group opening depth) := by
      have hopen : g.isCode opening = false := by
        rcases hopening with rfl | rfl
        · exact isCode_of_gap hg (by decide)
        · exact isCode_of_gap hg (by decide)
      have hclose : g.isCode (closing opening) = false := by
        rcases hopening with rfl | rfl
        · exact isCode_of_gap hg (by decide)
        · exact isCode_of_gap hg (by decide)
      unfold Reading.role
      simp [hopen, hclose]
    rw [List.cons_append, row_cons, hrole]
    dsimp only
    rw [ih ha]
    rfl

/-- What is read of two rows of glyphs by a reader inside of a token, `done` and `done'` of
which are read. -/
structure RowPaired (r : Reading) (kind : TokenKind) (done done' gs gs' : List Glyph)
    (more more' gap gap' rest rest' : List Glyph) : Prop where
  row : gs = more ++ (gap ++ rest)
  row' : gs' = more' ++ (gap' ++ rest')
  more_chars : (r.row gs).rest = more.map Glyph.char
  more_chars' : (r.row gs').rest = more'.map Glyph.char
  gap_chars : (r.row gs).gap = gap.map Glyph.char
  gap_chars' : (r.row gs').gap = gap'.map Glyph.char
  more_respaced : Respaced more more'
  more_kept : ¬r.InGroup → more = more'
  gap_alike : GapAlike gap gap'
  ended : Over kind (done ++ more) (gap ++ rest)
  ended' : Over kind (done' ++ more') (gap' ++ rest')
  word : kind = .word → ∀ g ∈ (gap ++ rest).head?, ¬(g.cls = .code ∧ isTokenChar g.char = true)
  word' : kind = .word → ∀ g ∈ (gap' ++ rest').head?, ¬(g.cls = .code ∧ isTokenChar g.char = true)
  quoted : kind = .quotedIdent → ∀ g ∈ (done ++ more).getLast?, g.cls = .quoted
  quoted' : kind = .quotedIdent → ∀ g ∈ (done' ++ more').getLast?, g.cls = .quoted
  tokens : Paired rest rest' (r.row gs).tokens (r.row gs').tokens

/-- A glyph that does not go on with a word is of no word. -/
theorem not_word_of_role {r : Reading} {kind : TokenKind} (hkind : r.Reads kind) {g : Glyph}
    (hrole : ∀ r', r.role g ≠ .more r') (gs : List Glyph) :
    kind = .word → ∀ x ∈ (g :: gs).head?, ¬(x.cls = .code ∧ isTokenChar x.char = true) := by
  intro h x hx
  obtain rfl : g = x := Option.some.inj hx
  rintro ⟨hcls, hchar⟩
  refine hrole .word ?_
  rw [hkind.1 h]
  unfold Reading.role
  simp [hcls, hchar]

/-- Behind a white glyph of code the reader is between tokens. -/
theorem within_between : Reading.between.Within .punct [⟨' ', .code⟩] := by
  intro behind
  exact ⟨⟨_, rfl, Or.inr (Or.inl rfl)⟩, (fun h => by cases h), fun h => by cases h⟩

theorem reads_between : Reading.between.Reads .punct :=
  ⟨by simp, by simp⟩

namespace RowPaired

variable {r r' : Reading} {kind kind' : TokenKind} {done done' gs gs' : List Glyph}
  {more more' gap gap' rest rest' : List Glyph} {g : Glyph}

/-- Both rows are at their end. -/
theorem at_end (h : r.Within kind done) (h' : r.Within kind done') (hkind : r.Reads kind) :
    RowPaired r kind done done' [] [] [] [] [] [] [] [] := by
  refine ⟨rfl, rfl, rfl, rfl, rfl, rfl, .nil, fun _ => rfl, Or.inl ⟨rfl, rfl⟩, ?_, ?_, ?_, ?_,
    hkind.quoted h, hkind.quoted h', .nil⟩
  · rw [List.append_nil]
    exact over_at_end h
  · rw [List.append_nil]
    exact over_at_end h'
  · exact fun _ x hx => nomatch hx
  · exact fun _ x hx => nomatch hx

/-- A glyph goes on with the token. -/
theorem goes_on (hg : g.isGap = false) (hrole : r.role g = .more r')
    (hp : RowPaired r' kind (done ++ [g]) (done' ++ [g]) gs gs' more more' gap gap' rest rest') :
    RowPaired r kind done done' (g :: gs) (g :: gs') (g :: more) (g :: more') gap gap' rest
      rest' := by
  have hrow := row_cons r g gs
  have hrow' := row_cons r g gs'
  rw [hrole] at hrow hrow'
  -- outside of a group, one character does not lead into one
  have hout : ¬r.InGroup → ¬r'.InGroup := by
    intro hr
    rcases role_outside hr g with hfresh | ⟨q, hq, hout⟩
    · rw [hrole] at hfresh
      exact absurd hfresh.symm (freshRole_ne_more g r')
    · rw [hrole] at hq
      rw [Role.more.inj hq]
      exact hout
  have hover := hp.ended
  have hover' := hp.ended'
  have hquoted := hp.quoted
  have hquoted' := hp.quoted'
  rw [List.append_assoc] at hover hover' hquoted hquoted'
  refine ⟨by rw [hp.row]; rfl, by rw [hp.row']; rfl, ?_, ?_, ?_, ?_, .same hg hp.more_respaced,
    fun hr => by rw [hp.more_kept (hout hr)], hp.gap_alike, hover, hover', hp.word, hp.word',
    hquoted, hquoted', ?_⟩
  · rw [hrow]
    dsimp only
    rw [hp.more_chars]
    rfl
  · rw [hrow']
    dsimp only
    rw [hp.more_chars']
    rfl
  · rw [hrow]
    exact hp.gap_chars
  · rw [hrow']
    exact hp.gap_chars'
  · rw [hrow, hrow']
    exact hp.tokens

/-- A glyph begins another token. -/
theorem begins (h : r.Within kind done) (h' : r.Within kind done') (hkind : r.Reads kind)
    (hg : g.isGap = false) (hrole : r.role g = .start kind' r')
    (hp : RowPaired r' kind' [g] [g] gs gs' more more' gap gap' rest rest') :
    RowPaired r kind done done' (g :: gs) (g :: gs') [] [] [] [] (g :: gs) (g :: gs') := by
  have hrow := row_cons r g gs
  have hrow' := row_cons r g gs'
  rw [hrole] at hrow hrow'
  have hfresh := fresh_of_start hrole
  have hno : ∀ q, r.role g ≠ .more q := by
    intro q hq
    rw [hrole] at hq
    cases hq
  -- a token that is no group has no gap inside
  have hkept : kind' ≠ .group → g :: more = g :: more' := by
    intro hne
    rw [hp.more_kept]
    intro hin
    rcases freshRole_group g with h | ⟨k, q, h, -, hgroup⟩
    · rw [h] at hfresh
      cases hfresh
    · rw [h] at hfresh
      obtain ⟨rfl, rfl⟩ := Role.start.inj hfresh
      exact hne (hgroup hin)
  have htokens : Paired ((g :: more) ++ (gap ++ rest)) ((g :: more') ++ (gap' ++ rest'))
      (⟨kind', (g :: more).map Glyph.char, gap.map Glyph.char⟩ :: (r'.row gs).tokens)
      (⟨kind', (g :: more').map Glyph.char, gap'.map Glyph.char⟩ :: (r'.row gs').tokens) :=
    .cons ⟨hp.ended, ⟨g, more, r', rfl, hfresh⟩, hp.word, hp.quoted⟩
      ⟨hp.ended', ⟨g, more', r', rfl, hfresh⟩, hp.word', hp.quoted'⟩ (.same hg hp.more_respaced)
      hkept hp.gap_alike hp.tokens
  rw [List.cons_append, List.cons_append, ← hp.row, ← hp.row'] at htokens
  refine ⟨rfl, rfl, ?_, ?_, ?_, ?_, .nil, fun _ => rfl, Or.inl ⟨rfl, rfl⟩, ?_, ?_,
    not_word_of_role hkind hno gs, not_word_of_role hkind hno gs', hkind.quoted h,
    hkind.quoted h', ?_⟩
  · rw [hrow]
    rfl
  · rw [hrow']
    rfl
  · rw [hrow]
    rfl
  · rw [hrow']
    rfl
  · rw [List.append_nil]
    exact over_of_within h hno gs
  · rw [List.append_nil]
    exact over_of_within h' hno gs'
  · rw [hrow, hrow']
    dsimp only
    rw [hp.more_chars, hp.more_chars', hp.gap_chars, hp.gap_chars']
    exact htokens

/-- Gaps inside of a group are of the group. -/
theorem gaps_group {o : Char} (ho : o = '(' ∨ o = '[') {depth : Nat} {a b : List Glyph}
    (ha : IsRun a) (hb : IsRun b)
    (hp : RowPaired (.group o depth) .group (done ++ a) (done' ++ b) gs gs' more more' gap gap'
      rest rest') :
    RowPaired (.group o depth) .group done done' (a ++ gs) (b ++ gs') (a ++ more) (b ++ more')
      gap gap' rest rest' := by
  have hrow := row_gaps_group ho depth ha.gaps gs
  have hrow' := row_gaps_group ho depth hb.gaps gs'
  have hover := hp.ended
  have hover' := hp.ended'
  rw [List.append_assoc] at hover hover'
  refine ⟨?_, ?_, ?_, ?_, ?_, ?_, .run ha hb hp.more_respaced,
    fun hne => absurd ⟨o, depth, rfl⟩ hne, hp.gap_alike, hover, hover', hp.word, hp.word',
    by simp, by simp, ?_⟩
  · rw [List.append_assoc, ← hp.row]
  · rw [List.append_assoc, ← hp.row']
  · rw [hrow, List.map_append]
    dsimp only
    rw [hp.more_chars]
  · rw [hrow', List.map_append]
    dsimp only
    rw [hp.more_chars']
  · rw [hrow]
    exact hp.gap_chars
  · rw [hrow']
    exact hp.gap_chars'
  · rw [hrow, hrow']
    exact hp.tokens

/-- Between tokens, a row that begins with no gap is not of the token in front of it. -/
theorem eq_rest (hgs : Begins gs) (hgs' : Begins gs')
    (hp : RowPaired .between .punct done done' gs gs' more more' gap gap' rest rest') :
    rest = gs ∧ rest' = gs' := by
  have hnil : ∀ {us : List Glyph}, [] = us.map Glyph.char → us = [] :=
    fun h => List.map_eq_nil_iff.1 h.symm
  have hmore := hp.more_chars
  have hmore' := hp.more_chars'
  have hgap := hp.gap_chars
  have hgap' := hp.gap_chars'
  rw [row_between_rest] at hmore hmore'
  rw [row_between_gap hgs] at hgap
  rw [row_between_gap hgs'] at hgap'
  have hrow := hp.row
  have hrow' := hp.row'
  rw [hnil hmore, hnil hgap] at hrow
  rw [hnil hmore', hnil hgap'] at hrow'
  exact ⟨hrow.symm, hrow'.symm⟩

/-- Gaps that are in no group end a token; what follows them begins another. -/
theorem gaps_outside (h : r.Within kind done) (h' : r.Within kind done') (hkind : r.Reads kind)
    (hr : ¬r.InGroup) {a b : List Glyph} (ha : IsRun a) (hb : IsRun b) (hgs : Begins gs)
    (hgs' : Begins gs')
    (htokens : Paired gs gs' (Reading.between.row gs).tokens (Reading.between.row gs').tokens) :
    RowPaired r kind done done' (a ++ gs) (b ++ gs') [] [] a b gs gs' := by
  have hno : ∀ {x : Glyph}, x.isGap = true → ∀ q, r.role x ≠ .more q := by
    intro x hx q hq
    rw [role_gap hr hx] at hq
    cases hq
  -- both rows end what is being read, and go on behind the gap
  have hrow := row_gaps_outside hr ha hgs
  have hrow' := row_gaps_outside hr hb hgs'
  obtain ⟨x, a, rfl⟩ := List.exists_cons_of_ne_nil ha.ne_nil
  obtain ⟨y, b, rfl⟩ := List.exists_cons_of_ne_nil hb.ne_nil
  have hx := hno (ha.gaps x List.mem_cons_self)
  have hy := hno (hb.gaps y List.mem_cons_self)
  refine ⟨rfl, rfl, ?_, ?_, ?_, ?_, .nil, fun _ => rfl, Or.inr ⟨ha, hb⟩, ?_, ?_,
    not_word_of_role hkind hx _, not_word_of_role hkind hy _, hkind.quoted h, hkind.quoted h', ?_⟩
  · rw [hrow]
    rfl
  · rw [hrow']
    rfl
  · rw [hrow]
  · rw [hrow']
  · rw [List.append_nil]
    exact over_of_within h hx _
  · rw [List.append_nil]
    exact over_of_within h' hy _
  · rw [hrow, hrow']
    exact htokens

end RowPaired

/-- **Respaced rows are read to paired tokens.** -/
theorem row_paired {r : Reading} {kind : TokenKind} {done done' : List Glyph}
    (h : r.Within kind done) (h' : r.Within kind done') (hkind : r.Reads kind)
    {gs gs' : List Glyph} (hgs : Respaced gs gs') :
    ∃ more more' gap gap' rest rest',
      RowPaired r kind done done' gs gs' more more' gap gap' rest rest' := by
  induction hgs generalizing r kind done done' with
  | nil => exact ⟨[], [], [], [], [], [], .at_end h h' hkind⟩
  | @same g gs gs' hg hgs ih =>
    cases hrole : r.role g with
    | gap =>
      rw [isGap_of_role hrole] at hg
      cases hg
    | more r' =>
      obtain ⟨more, more', gap, gap', rest, rest', hp⟩ :=
        ih (within_more h hrole) (within_more h' hrole) (hkind.more hrole)
      exact ⟨g :: more, g :: more', gap, gap', rest, rest', hp.goes_on hg hrole⟩
    | start kind' r' =>
      obtain ⟨more, more', gap, gap', rest, rest', hp⟩ := ih (within_start hrole)
        (within_start hrole) (reads_of_freshRole (fresh_of_start hrole))
      exact ⟨[], [], [], [], g :: gs, g :: gs', hp.begins h h' hkind hg hrole⟩
  | @gap a b gs gs' ha hb hbegins hgs ih =>
    have hbegins' := hgs.begins hbegins
    -- within a group the gap belongs to the token
    by_cases hr : r.InGroup
    · obtain ⟨o, d, rfl⟩ := hr
      obtain ⟨rfl, ho, inside, rfl⟩ := h
      obtain ⟨-, -, inside', rfl⟩ := h'
      obtain ⟨more, more', gap, gap', rest, rest', hp⟩ :=
        @ih (.group o d) .group (⟨o, .code⟩ :: inside ++ a) (⟨o, .code⟩ :: inside' ++ b)
          ⟨rfl, ho, inside ++ a, rfl⟩ ⟨rfl, ho, inside' ++ b, rfl⟩ ⟨by simp, by simp⟩
      exact ⟨a ++ more, b ++ more', gap, gap', rest, rest', hp.gaps_group ho ha hb⟩
    · obtain ⟨more, more', gap, gap', rest, rest', hp⟩ :=
        ih within_between within_between reads_between
      obtain ⟨rfl, rfl⟩ := hp.eq_rest hbegins hbegins'
      exact ⟨[], [], a, b, rest, rest', .gaps_outside h h' hkind hr ha hb hbegins hbegins' hp.tokens⟩

/-- **The tokens of respaced entries are paired.** -/
theorem tokenize_paired {e e' : List Char} (h : Respaced (classify e) (classify e')) :
    ∃ front front' gs gs', classify e = front ++ gs ∧ classify e' = front' ++ gs'
      ∧ Paired gs gs' (tokenize e) (tokenize e') := by
  obtain ⟨more, more', gap, gap', rest, rest', hp⟩ :=
    row_paired within_between within_between reads_between h
  exact ⟨more ++ gap, more' ++ gap', rest, rest', by rw [hp.row, List.append_assoc],
    by rw [hp.row', List.append_assoc], hp.tokens⟩

namespace Paired

variable {gs gs' : List Glyph} {t t' : Token} {ts ts' : List Token}

theorem length (h : Paired gs gs' ts ts') : ts.length = ts'.length := by
  induction h with
  | nil => rfl
  | cons _ _ _ _ _ _ ih => rw [List.length_cons, List.length_cons, ih]

/-- The tokens behind the first `n`. -/
theorem drop (h : Paired gs gs' ts ts') (n : Nat) :
    ∃ front front' us us', gs = front ++ us ∧ gs' = front' ++ us'
      ∧ Paired us us' (ts.drop n) (ts'.drop n) := by
  induction h generalizing n with
  | nil => exact ⟨[], [], [], [], rfl, rfl, by rw [List.drop_nil]; exact .nil⟩
  | @cons kind text text' gap gap' gs gs' ts ts' hstands hstands' htext hkept hgap hrest ih =>
    cases n with
    | zero => exact ⟨[], [], _, _, rfl, rfl, .cons hstands hstands' htext hkept hgap hrest⟩
    | succ n =>
      obtain ⟨front, front', us, us', rfl, rfl, hus⟩ := ih n
      exact ⟨text ++ (gap ++ front), text' ++ (gap' ++ front'), us, us', by simp, by simp, hus⟩

/-- **The texts of some tokens are respaced.** -/
theorem span (h : Paired gs gs' ts ts') {n : Nat} (hn : ts.take n ≠ []) :
    ∃ text text' behind behind', gs = text ++ behind ∧ gs' = text' ++ behind'
      ∧ spanText (ts.take n) = text.map Glyph.char ∧ spanText (ts'.take n) = text'.map Glyph.char
      ∧ Respaced text text' ∧ Ends text behind ∧ Ends text' behind' := by
  induction h generalizing n with
  | nil => exact absurd List.take_nil hn
  | @cons kind text text' gap gap' gs gs' ts ts' hstands hstands' htext hkept hgap hrest ih =>
    cases n with
    | zero => exact absurd rfl hn
    | succ n =>
      rw [List.take_succ_cons, List.take_succ_cons]
      -- the span ends with this token, or goes on over the gap behind it
      by_cases hmore : ts.take n = []
      · have hmore' : ts'.take n = [] := by
          rw [← List.length_eq_zero_iff] at hmore ⊢
          rw [List.length_take] at hmore ⊢
          rw [← hrest.length]
          exact hmore
        rw [hmore, hmore']
        exact ⟨text, text', gap ++ gs, gap' ++ gs', rfl, rfl, rfl, rfl, htext, hstands.ended.ends,
          hstands'.ended.ends⟩
      · have hmore' : ts'.take n ≠ [] := by
          intro hnil
          rw [← List.length_eq_zero_iff, List.length_take, ← hrest.length, ← List.length_take,
            List.length_eq_zero_iff] at hnil
          exact hmore hnil
        obtain ⟨us, us', behind, behind', rfl, rfl, hspan, hspan', hrespaced, hends, hends'⟩ :=
          ih hmore
        have hgaps : Respaced gap gap' := by
          rcases hgap with ⟨rfl, rfl⟩ | ⟨hg, hg'⟩
          · exact .nil
          · have hrun := Respaced.gap hg hg' begins_nil .nil
            rwa [List.append_nil, List.append_nil] at hrun
        have hend : ∀ {text gap us behind : List Glyph}, Ends us behind →
            Ends (text ++ (gap ++ us)) behind := by
          rintro text gap us behind ⟨g, hg, hend⟩
          refine ⟨g, ?_, hend⟩
          rw [← List.append_assoc, List.getLast?_append, hg]
          rfl
        refine ⟨text ++ (gap ++ us), text' ++ (gap' ++ us'), behind, behind', by simp, by simp, ?_, ?_,
          htext.append (hgaps.append hrespaced), hend hends, hend hends'⟩
        · rw [spanText_cons _ hmore, hspan, List.map_append, List.map_append, List.append_assoc]
        · rw [spanText_cons _ hmore', hspan', List.map_append, List.map_append, List.append_assoc]

end Paired

/-! ## §2. A text between tokens. -/

/-- Behind glyphs that end there is code. -/
theorem idle_behind {e : List Char} (he : Uncommented e) {front text behind : List Glyph}
    (h : classify e = front ++ (text ++ behind)) (hends : Ends text behind) :
    (({} : Lexer).past ((front ++ text).map Glyph.char) (behind.map Glyph.char)).Idle := by
  rw [← List.append_assoc] at h
  obtain ⟨htext, hreads, hglyphs⟩ := Lexer.glyphs_split h
  have hsound : ({} : Lexer).Sound ((front ++ text).map Glyph.char ++ behind.map Glyph.char) :=
    Lexer.sound_start _
  obtain ⟨g, hlast, hcases⟩ := hends
  have hlast' : (({} : Lexer).reads ((front ++ text).map Glyph.char)
      (behind.map Glyph.char)).getLast? = some g := by
    rw [hreads, List.getLast?_append, hlast]
    rfl
  have hmem : g ∈ classify e := by
    rw [h]
    exact List.mem_append_left _ (List.mem_append_right _ (List.mem_of_getLast? hlast))
  cases behind with
  | nil =>
    rw [List.map_nil, List.append_nil] at htext
    rw [List.map_nil, Lexer.past_whole, ← htext]
    exact he.complete
  | cons y behind =>
    rw [List.map_cons] at hsound hlast' hglyphs ⊢
    refine Lexer.idle_of_inside (Lexer.sound_past hsound) ?_
    have henters := Lexer.advance_enters (Lexer.sound_past hsound)
    rw [Lexer.glyphs] at hglyphs
    rw [(List.cons.inj hglyphs).1] at henters
    -- behind the last character: code, or a quoted one whose next is not quoted
    rcases Lexer.past_leaves hsound hlast' with hk | ⟨hk, -⟩
    · rcases hcases with hnil | hcode | ⟨hquoted, hnext⟩
      · cases hnil
      · exact hk.trans hcode
      · rcases henters with hy | ⟨hy, -⟩ | ⟨hy, -⟩
        · exact absurd (hy.trans (hk.trans hquoted)) (hnext y rfl)
        · exact hy
        · exact absurd (hk.symm.trans hy) (he.bare g hmem)
    · exact hk

/-- **A text between tokens is read by itself**, if its first character does not look back. -/
theorem span_alone {e : List Char} (he : Uncommented e) {front span behind : List Glyph}
    (h : classify e = front ++ (span ++ behind)) (hends : Ends span behind)
    (hidle : (({} : Lexer).past (front.map Glyph.char) ((span ++ behind).map Glyph.char)).Idle)
    (hlooks : ∀ g ∈ span.head?, (({} : Lexer).past (front.map Glyph.char)
      ((span ++ behind).map Glyph.char)).LooksAhead g.char) :
    classify (span.map Glyph.char) = span := by
  have hend := idle_behind he h hends
  rw [List.map_append, Lexer.past_append, ← List.map_append] at hend
  obtain ⟨-, -, hglyphs⟩ := Lexer.glyphs_split h
  have hspan := (Lexer.glyphs_split hglyphs).2.1
  obtain ⟨hreads, -⟩ := Lexer.reads_part (Lexer.delimited_past Lexer.delimited_start _ _) hend
  obtain ⟨hfresh, -⟩ := Lexer.glyphs_behind (t := span.map Glyph.char) hidle (by
    intro c hc
    rw [List.head?_map] at hc
    obtain ⟨g, hg, rfl⟩ := Option.map_eq_some_iff.1 hc
    exact hlooks g hg)
  exact hfresh.symm.trans (hreads.symm.trans hspan)

/-- What could go on with a word is quoted where it stands behind one. -/
theorem Stands.quoted_behind {text gs : List Glyph} {g : Glyph} (h : Stands .word text (g :: gs))
    (hbare : g.cls ≠ .comment) (hchar : isTokenChar g.char = true) : g.cls = .quoted := by
  cases hcls : g.cls with
  | code => exact absurd ⟨hcls, hchar⟩ (h.word rfl g rfl)
  | quoted => rfl
  | comment => exact absurd hcls hbare

/-- A name that a letter follows ends with a quote. -/
theorem Stands.quote_last {kind : TokenKind} {text gs : List Glyph} {x g : Glyph}
    (h : Stands kind text (g :: gs)) (hkind : kind = .word ∨ kind = .quotedIdent)
    (hx : text.getLast? = some x) (hneighbours : Neighbours x g) (hbare : g.cls ≠ .comment)
    (hplain : isQuote g.char = false) (hchar : isTokenChar g.char = true) :
    isQuote x.char = true := by
  obtain ⟨x', hx', hends⟩ := h.ended.ends
  obtain rfl : x = x' := Option.some.inj (hx.symm.trans hx')
  rcases hends with hnil | hcode | ⟨hquoted, hnext⟩
  · cases hnil
  · exfalso
    rcases hkind with rfl | rfl
    · have hopens := hneighbours.opens_quoted (by rw [hcode]; decide) (h.quoted_behind hbare hchar)
      rw [hplain] at hopens
      cases hopens
    · exact absurd ((h.quoted rfl x hx).symm.trans hcode) (by decide)
  · by_contra hq
    exact hnext g rfl (hneighbours.quoted hquoted (Bool.not_eq_true _ ▸ hq))

/-- What the first character behind a name looks back at: nothing, if it begins neither a
literal behind an `E`, nor a block behind what is quoted. -/
theorem looks_behind {e : List Char} (he : Uncommented e) {front text gs : List Glyph} {g : Glyph}
    {kind : TokenKind} (h : classify e = front ++ (text ++ (g :: gs)))
    (hstands : Stands kind text (g :: gs)) (hkind : kind = .word ∨ kind = .quotedIdent)
    (hliteral : g.char = '\'' → ∀ x ∈ text.getLast?, x.char ≠ 'e' ∧ x.char ≠ 'E')
    (hblock : g.char = '$' → kind = .word) : (({} : Lexer).past ((front ++ text).map Glyph.char)
      ((g :: gs).map Glyph.char)).LooksAhead g.char := by
  have hidle := idle_behind he h hstands.ended.ends
  have hbare : g.cls ≠ .comment := he.bare g (by
    rw [h]
    simp)
  have hchain := classify_neighbours e
  rw [h] at hchain
  rw [← List.append_assoc] at h
  obtain ⟨-, -, hglyphs⟩ := Lexer.glyphs_split h
  obtain ⟨x, hx, -⟩ := hstands.ended.ends
  have hneighbours : Neighbours x g :=
    (List.isChain_append.1 (List.isChain_append.1 hchain).2.1).2.2 x hx g rfl
  have hlast : (({} : Lexer).past ((front ++ text).map Glyph.char)
      ((g :: gs).map Glyph.char)).last = some x.char := by
    refine Lexer.past_last ?_ _ _
    rw [List.getLast?_map, List.getLast?_append, hx]
    rfl
  generalize ({} : Lexer).past ((front ++ text).map Glyph.char) ((g :: gs).map Glyph.char) = s
    at hidle hglyphs hlast
  -- no escape in front of a literal, no tag in front of a block, no word in front of a quote
  refine ⟨?_, ?_, ?_⟩
  · intro hc
    obtain ⟨hne, hne'⟩ := hliteral hc x hx
    unfold Lexer.escapes
    rw [hlast]
    simp [hne, hne']
  · intro hc
    by_contra htagged
    obtain rfl := hblock hc
    have hquoted := hstands.quoted_behind hbare (by rw [hc]; decide +kernel)
    have hcode := (Lexer.advance_name hidle (fun _ => Bool.not_eq_false _ ▸ htagged) (Or.inr hc)
      (gs.map Glyph.char)).1
    rw [List.map_cons, Lexer.glyphs] at hglyphs
    rw [← (List.cons.inj hglyphs).1] at hquoted
    exact absurd (hquoted.symm.trans hcode) (by decide)
  · intro hc
    have hletter : isQuote g.char = false ∧ isTokenChar g.char = true := by
      rcases hc with hc | hc
      · rw [hc]
        decide +kernel
      · rw [hc]
        decide +kernel
    have hquote := hstands.quote_last hkind hx hneighbours hbare hletter.1 hletter.2
    rw [hlast]
    show isIdentChar x.char = false
    by_contra hident
    rw [(Lexer.plain_of_isIdentChar (Bool.not_eq_false _ ▸ hident)).1] at hquote
    cases hquote

end SchemaDrift.Table
