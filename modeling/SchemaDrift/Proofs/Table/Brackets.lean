/-
  SchemaDrift.Proofs.Table.Brackets
  ─────────────────────────────────
  **WHERE A BRACKET OF A TABLE BODY STAYS OPEN.**

  An entry ends at a comma outside all brackets, and the body at the parenthesis that closes
  it.  So no group of an entry goes on to the end of it, with one exception: the last entry
  may end inside of square brackets, which nothing closes (`open_entry`).

      group_closed     a group ends with a bracket, if the reader is out of it at the end
      below_next       inside of a group the counters of the cut are above its depth
      inside_cut_iff   the inside of a group cannot be cut out exactly if its last character
                       is of more than one byte
      broken_entry     such a group is the last token of the last entry
-/

import SchemaDrift.Proofs.Sql.Pieces
import SchemaDrift.Proofs.Table.Span

namespace SchemaDrift.Table

open SchemaDrift.Sql SchemaDrift.Text

/-! ## §1. The reader at the end of a row. -/

/-- What the reader is inside of behind a glyph. -/
def Reading.next (r : Reading) (g : Glyph) : Reading :=
  match r.role g with
  | .more r' | .start _ r' => r'
  | .gap => .between

/-- What the reader is inside of behind a row of glyphs. -/
def Reading.through (r : Reading) (gs : List Glyph) : Reading := gs.foldl Reading.next r

/-- The reader is inside of a group. -/
def Reading.InGroup (r : Reading) : Prop := ∃ opening depth, r = .group opening depth

/-- The text ends with a bracket that closes. -/
def EndsClosed (t : List Char) : Prop := t.getLast? = some ')' ∨ t.getLast? = some ']'

theorem EndsClosed.cons {c : Char} {t : List Char} (h : EndsClosed t) : EndsClosed (c :: t) := by
  unfold EndsClosed at h ⊢
  rcases h with h | h
  · exact Or.inl (by rw [List.getLast?_cons, h]; rfl)
  · exact Or.inr (by rw [List.getLast?_cons, h]; rfl)

theorem through_cons (r : Reading) (g : Glyph) (gs : List Glyph) :
    r.through (g :: gs) = (r.next g).through gs := rfl

theorem through_append (r : Reading) (gs hs : List Glyph) :
    r.through (gs ++ hs) = (r.through gs).through hs :=
  List.foldl_append

/-- The role of a glyph that begins a token, or is of a gap: the reader comes into a group
exactly with a group. -/
theorem freshRole_group (g : Glyph) : freshRole g = .gap
    ∨ ∃ kind r, freshRole g = .start kind r
      ∧ (kind = .group → r = .group g.char 0 ∧ (g = ⟨'(', .code⟩ ∨ g = ⟨'[', .code⟩))
      ∧ (r.InGroup → kind = .group) := by
  unfold freshRole
  split
  · exact Or.inl rfl
  · refine Or.inr ⟨_, _, rfl, ?_, ?_⟩
    · intro h
      split at h <;> cases h
    · intro ⟨o, d, h⟩
      cases h
  · next hcls =>
    split
    · exact Or.inl rfl
    · right
      split
      · next hopen =>
        refine ⟨_, _, rfl, fun _ => ⟨rfl, ?_⟩, fun _ => rfl⟩
        obtain ⟨c, cls⟩ := g
        simp only [Bool.or_eq_true, decide_eq_true_eq] at hopen
        simp only at hcls
        rcases hopen with h | h
        · exact Or.inl (by rw [hcls, h])
        · exact Or.inr (by rw [hcls, h])
      · split
        · exact ⟨_, _, rfl, (fun h => by cases h), fun ⟨o, d, h⟩ => by cases h⟩
        · exact ⟨_, _, rfl, (fun h => by cases h), fun ⟨o, d, h⟩ => by cases h⟩

/-- Outside of groups a glyph has the role of a fresh one, or goes on outside. -/
theorem role_outside {r : Reading} (hr : ¬r.InGroup) (g : Glyph) :
    r.role g = freshRole g ∨ ∃ r', r.role g = .more r' ∧ ¬r'.InGroup := by
  cases r with
  | between => exact Or.inl rfl
  | quoted =>
    unfold Reading.role
    dsimp only
    split
    · exact Or.inr ⟨_, rfl, fun ⟨o, d, h⟩ => by cases h⟩
    · exact Or.inl rfl
  | word =>
    unfold Reading.role
    dsimp only
    split
    · exact Or.inr ⟨_, rfl, fun ⟨o, d, h⟩ => by cases h⟩
    · exact Or.inl rfl
  | group o d => exact absurd ⟨o, d, rfl⟩ hr

/-- Inside of a group a glyph goes on with it, and the one that ends it closes it. -/
theorem role_group (opening : Char) (depth : Nat) (g : Glyph) :
    ∃ r', (Reading.group opening depth).role g = .more r'
      ∧ ((∃ d, r' = .group opening d) ∨ r' = .between ∧ g = ⟨closing opening, .code⟩) := by
  unfold Reading.role
  dsimp only
  split
  · exact ⟨_, rfl, Or.inl ⟨_, rfl⟩⟩
  · split
    · next hclosing =>
      split
      · exact ⟨_, rfl, Or.inr ⟨rfl, Glyph.isCode_iff.1 hclosing⟩⟩
      · exact ⟨_, rfl, Or.inl ⟨_, rfl⟩⟩
    · exact ⟨_, rfl, Or.inl ⟨_, rfl⟩⟩

theorem endsClosed_closing (opening : Char) : EndsClosed [closing opening] := by
  unfold closing EndsClosed
  split
  · exact Or.inl rfl
  · exact Or.inr rfl

/-- **A group ends with a bracket that closes it, if the reader is out of it at the end.** -/
theorem group_closed {r : Reading} {gs : List Glyph} (hend : ¬(r.through gs).InGroup) :
    (∀ t ∈ (r.row gs).tokens, t.kind = .group → EndsClosed t.text)
      ∧ (r.InGroup → EndsClosed (r.row gs).rest) := by
  induction gs generalizing r with
  | nil => exact ⟨fun t ht => absurd ht List.not_mem_nil, fun h => absurd h hend⟩
  | cons g gs ih =>
    rw [through_cons] at hend
    unfold Reading.next at hend
    rw [row_cons]
    -- a glyph that begins a token begins a group or none
    have hfresh : r.role g = freshRole g → ∀ t ∈ (match freshRole g with
        | .more r' => { r'.row gs with rest := g.char :: (r'.row gs).rest }
        | .start kind r' =>
          ⟨[], [], ⟨kind, g.char :: (r'.row gs).rest, (r'.row gs).gap⟩ :: (r'.row gs).tokens⟩
        | .gap => { Reading.between.row gs with
            gap := g.char :: (Reading.between.row gs).gap } : Row).tokens,
        t.kind = .group → EndsClosed t.text := by
      intro hrole t ht hkind
      rw [hrole] at hend
      rcases freshRole_group g with h | ⟨kind, r', h, hgroup, -⟩
      · rw [h] at ht hend
        exact (ih hend).1 t ht hkind
      · rw [h] at ht hend
        rcases List.mem_cons.1 ht with rfl | ht
        · obtain ⟨rfl, -⟩ := hgroup hkind
          exact ((ih hend).2 ⟨g.char, 0, rfl⟩).cons
        · exact (ih hend).1 t ht hkind
    by_cases hr : r.InGroup
    · obtain ⟨o, d, rfl⟩ := hr
      obtain ⟨r', hrole, hcases⟩ := role_group o d g
      rw [hrole] at hend ⊢
      refine ⟨(ih hend).1, fun _ => ?_⟩
      rcases hcases with ⟨d', rfl⟩ | ⟨rfl, rfl⟩
      · exact ((ih hend).2 ⟨o, d', rfl⟩).cons
      · -- the bracket at the end is the last of the group
        show EndsClosed (closing o :: (Reading.between.row gs).rest)
        rw [row_between_rest]
        exact endsClosed_closing o
    · refine ⟨?_, fun h => absurd h hr⟩
      rcases role_outside hr g with hrole | ⟨r', hrole, -⟩
      · have hall := hfresh hrole
        rw [← hrole] at hall
        exact hall
      · rw [hrole] at hend ⊢
        exact (ih hend).1

/-- **The group that the reader is inside of at the end is the last token.** -/
theorem group_open {r : Reading} {gs : List Glyph} {opening : Char} {depth : Nat}
    (hend : r.through gs = .group opening depth) :
    (∃ ts inside, (r.row gs).tokens = ts ++ [⟨.group, opening :: inside, []⟩])
      ∨ (∃ d, r = .group opening d) ∧ (r.row gs).tokens = [] ∧ (r.row gs).gap = [] := by
  induction gs generalizing r with
  | nil => exact Or.inr ⟨⟨depth, hend⟩, rfl, rfl⟩
  | cons g gs ih =>
    rw [through_cons] at hend
    unfold Reading.next at hend
    rw [row_cons]
    by_cases hr : r.InGroup
    · obtain ⟨o, d, rfl⟩ := hr
      obtain ⟨r', hrole, hcases⟩ := role_group o d g
      rw [hrole] at hend ⊢
      rcases ih hend with hlast | ⟨⟨d', hr'⟩, hrow⟩
      · exact Or.inl hlast
      · rcases hcases with ⟨d'', rfl⟩ | ⟨rfl, -⟩
        · obtain ⟨rfl, -⟩ := Reading.group.inj hr'
          exact Or.inr ⟨⟨d, rfl⟩, hrow⟩
        · cases hr'
    · rcases role_outside hr g with hrole | ⟨r', hrole, hr'⟩
      · rw [hrole] at hend ⊢
        rcases freshRole_group g with h | ⟨kind, r', h, -, hgroup⟩
        · rw [h] at hend ⊢
          rcases ih hend with hlast | ⟨⟨d', hr'⟩, -⟩
          · exact Or.inl hlast
          · cases hr'
        · rw [h] at hend ⊢
          left
          rcases ih hend with ⟨ts, inside, hlast⟩ | ⟨⟨d', hr'⟩, htokens, hgap⟩
          · exact ⟨_ :: ts, inside, by dsimp only; rw [hlast]; rfl⟩
          · -- the group begins here
            have hkind := hgroup ⟨opening, d', hr'⟩
            rcases freshRole_group g with h' | ⟨kind', r'', h', hopen, -⟩
            · rw [h] at h'
              cases h'
            · rw [h] at h'
              obtain ⟨rfl, rfl⟩ := Role.start.inj h'
              obtain ⟨hr'', -⟩ := hopen hkind
              obtain ⟨hopening, -⟩ := Reading.group.inj (hr'.symm.trans hr'')
              refine ⟨[], (r'.row gs).rest, ?_⟩
              show (⟨kind, g.char :: (r'.row gs).rest, (r'.row gs).gap⟩ : Token)
                :: (r'.row gs).tokens = _
              rw [show (r'.row gs).tokens = [] from htokens,
                show (r'.row gs).gap = [] from hgap, hkind, hopening]
              rfl
      · rw [hrole] at hend ⊢
        rcases ih hend with hlast | ⟨⟨d', h⟩, -⟩
        · exact Or.inl hlast
        · exact absurd ⟨opening, d', h⟩ hr'

/-! ## §2. The counters of the cut. -/

/-- The brackets of a kind that are open behind a glyph. -/
def countBrackets (opening closing : Char) (g : Glyph) (n : Nat) : Nat :=
  if g.isCode opening then n + 1 else if g.isCode closing then n - 1 else n

/-- A group that the reader is inside of is counted. -/
def Reading.Below (parens brackets : Nat) (r : Reading) : Prop :=
  ∀ opening depth, r = .group opening depth →
    opening = '(' ∧ depth < parens ∨ opening = '[' ∧ depth < brackets

/-- Between two tokens no group is open. -/
theorem between_outside : ¬Reading.between.InGroup := by
  rintro ⟨o, d, h⟩
  cases h

theorem below_outside {r : Reading} (hr : ¬r.InGroup) (parens brackets : Nat) :
    r.Below parens brackets := fun o d h => absurd ⟨o, d, h⟩ hr

/-- Nothing is counted where no group is open. -/
theorem Reading.Below.outside {r : Reading} (h : r.Below 0 0) : ¬r.InGroup := by
  intro ⟨o, d, hr⟩
  rcases h o d hr with ⟨-, hlt⟩ | ⟨-, hlt⟩
  · exact Nat.not_lt_zero d hlt
  · exact Nat.not_lt_zero d hlt

/-- The group of some brackets is counted by the counter of these. -/
theorem next_group_lt {o o' : Char} {d d' n : Nat} (hlt : d < n) {g : Glyph}
    (h : (Reading.group o d).next g = .group o' d') :
    o' = o ∧ d' < countBrackets o (closing o) g n := by
  unfold Reading.next Reading.role at h
  unfold countBrackets
  by_cases hopen : g.isCode o = true
  · rw [if_pos hopen]
    simp only [hopen, if_true] at h
    obtain ⟨rfl, rfl⟩ := Reading.group.inj h
    exact ⟨rfl, Nat.succ_lt_succ hlt⟩
  · rw [if_neg hopen]
    by_cases hclose : g.isCode (closing o) = true
    · rw [if_pos hclose]
      simp only [Bool.not_eq_true] at hopen
      simp only [hopen, hclose, Bool.false_eq_true, if_false, if_true] at h
      cases d with
      | zero => cases h
      | succ d =>
        obtain ⟨rfl, rfl⟩ := Reading.group.inj h
        exact ⟨rfl, by omega⟩
    · rw [if_neg hclose]
      simp only [Bool.not_eq_true] at hopen hclose
      simp only [hopen, hclose, Bool.false_eq_true, if_false] at h
      obtain ⟨rfl, rfl⟩ := Reading.group.inj h
      exact ⟨rfl, hlt⟩

/-- **Inside of a group the counters stay above its depth.** -/
theorem below_next {r : Reading} {parens brackets : Nat} (hr : r.Below parens brackets)
    (g : Glyph) : (r.next g).Below (countBrackets '(' ')' g parens)
      (countBrackets '[' ']' g brackets) := by
  by_cases hin : r.InGroup
  · obtain ⟨o, d, rfl⟩ := hin
    intro o' d' h
    rcases hr o d rfl with ⟨rfl, hlt⟩ | ⟨rfl, hlt⟩
    · exact Or.inl (next_group_lt hlt h)
    · exact Or.inr (next_group_lt hlt h)
  · rcases role_outside hin g with hrole | ⟨r', hrole, hr'⟩
    · -- a group that begins here has been counted once
      intro o d h
      unfold Reading.next at h
      rw [hrole] at h
      rcases freshRole_group g with hg | ⟨kind, r', hg, hgroup, hin⟩
      · rw [hg] at h
        cases h
      · rw [hg] at h
        obtain ⟨hr', hcode⟩ := hgroup (hin ⟨o, d, h⟩)
        obtain ⟨rfl, rfl⟩ := Reading.group.inj (hr'.symm.trans h)
        rcases hcode with rfl | rfl
        · exact Or.inl ⟨rfl, Nat.succ_pos parens⟩
        · exact Or.inr ⟨rfl, Nat.succ_pos brackets⟩
    · unfold Reading.next
      rw [hrole]
      exact below_outside hr' _ _

/-- **A part that ends at a comma ends outside of all groups**, and the last part of a body
outside of round ones. -/
theorem parts_open {gs : List Glyph} {body : List Char} {parens brackets : Nat} {r : Reading}
    (hr : r.Below parens brackets) (h : enclosed? parens gs = some body) :
    ∃ inside rest, gs = inside ++ ⟨')', .code⟩ :: rest ∧ body = inside.map Glyph.char
      ∧ (commaParts parens brackets inside = [body] ∧ (∀ d, r.through inside ≠ .group '(' d)
        ∨ ∃ front behind, inside = front ++ ⟨',', .code⟩ :: behind
          ∧ commaParts parens brackets inside = front.map Glyph.char :: commaParts 0 0 behind
          ∧ ¬(r.through front).InGroup
          ∧ enclosed? 0 (behind ++ ⟨')', .code⟩ :: rest) = some (behind.map Glyph.char)) := by
  induction gs generalizing parens brackets r body with
  | nil => cases h
  | cons g gs ih =>
    -- behind a glyph that does not end the part, the counters are those of the cut
    have hgo : ∀ {body' : List Char},
        enclosed? (countBrackets '(' ')' g parens) gs = some body' → body = g.char :: body' →
        ¬(g.isCode ',' && parens = 0 && brackets = 0) = true →
        ∃ inside rest, g :: gs = inside ++ ⟨')', .code⟩ :: rest ∧ body = inside.map Glyph.char
          ∧ (commaParts parens brackets inside = [body] ∧ (∀ d, r.through inside ≠ .group '(' d)
            ∨ ∃ front behind, inside = front ++ ⟨',', .code⟩ :: behind
              ∧ commaParts parens brackets inside = front.map Glyph.char :: commaParts 0 0 behind
              ∧ ¬(r.through front).InGroup
              ∧ enclosed? 0 (behind ++ ⟨')', .code⟩ :: rest)
                = some (behind.map Glyph.char)) := by
      intro body' hbody hcons hcut
      obtain ⟨inside, rest, rfl, rfl, hparts⟩ := ih (below_next hr g) hbody
      have hrow : ∀ {part parts},
          commaParts (countBrackets '(' ')' g parens) (countBrackets '[' ']' g brackets) inside
            = part :: parts →
          commaParts parens brackets (g :: inside) = (g.char :: part) :: parts := by
        intro part parts h
        unfold countBrackets at h
        rw [commaParts, if_neg hcut]
        simp only [h]
      refine ⟨g :: inside, rest, rfl, hcons, ?_⟩
      rcases hparts with ⟨hone, hopen⟩ | ⟨front, behind, rfl, hmore, hopen, hrest⟩
      · exact Or.inl ⟨by rw [hrow hone, hcons], hopen⟩
      · exact Or.inr ⟨g :: front, behind, rfl, hrow hmore, hopen, hrest⟩
    unfold enclosed? at h
    by_cases hround : g.isCode '(' = true
    · rw [if_pos hround] at h
      obtain ⟨body', hbody, hcons⟩ := Option.map_eq_some_iff.1 h
      refine hgo ?_ hcons.symm ?_
      · rw [countBrackets, if_pos hround]
        exact hbody
      · rw [Glyph.isCode_iff.1 hround]
        simp [Glyph.isCode]
    · rw [if_neg hround] at h
      by_cases hclose : g.isCode ')' = true
      · rw [if_pos hclose] at h
        cases parens with
        | zero =>
          -- the parenthesis that closes the body
          rw [← Option.some.inj h]
          refine ⟨[], gs, by rw [Glyph.isCode_iff.1 hclose]; rfl, rfl, Or.inl ⟨rfl, ?_⟩⟩
          intro d hd
          rcases hr '(' d hd with ⟨-, hlt⟩ | ⟨heq, -⟩
          · exact Nat.not_lt_zero d hlt
          · exact absurd heq (by decide)
        | succ n =>
          obtain ⟨body', hbody, hcons⟩ := Option.map_eq_some_iff.1 h
          refine hgo ?_ hcons.symm ?_
          · rw [countBrackets, if_neg hround, if_pos hclose]
            exact hbody
          · simp
      · rw [if_neg hclose] at h
        obtain ⟨body', hbody, hcons⟩ := Option.map_eq_some_iff.1 h
        by_cases hcut : (g.isCode ',' && parens = 0 && brackets = 0) = true
        · simp only [Bool.and_eq_true, decide_eq_true_eq] at hcut
          obtain ⟨⟨hcomma, rfl⟩, rfl⟩ := hcut
          obtain ⟨inside, rest, rfl, rfl, -⟩ := ih (below_outside between_outside 0 0) hbody
          refine ⟨g :: inside, rest, rfl, hcons.symm, Or.inr ⟨[], inside, ?_, ?_, ?_, hbody⟩⟩
          · rw [Glyph.isCode_iff.1 hcomma]
            rfl
          · rw [commaParts, if_pos (by simp [hcomma])]
            rfl
          · exact hr.outside
        · refine hgo ?_ hcons.symm hcut
          rw [countBrackets, if_neg hround, if_neg hclose]
          exact hbody

/-! ## §3. The entries of a body. -/

/-- The reader behind the tokens of a text. -/
def behindTokens (e : List Char) : Reading := Reading.between.through (classify e)

/-- A group that the reader comes into is of round or of square brackets. -/
theorem behindTokens_group {e : List Char} {opening : Char} {depth : Nat}
    (h : behindTokens e = .group opening depth) : opening = '(' ∨ opening = '[' := by
  have hbelow : ∀ (gs : List Glyph) (r : Reading) (p b : Nat), r.Below p b →
      ∃ p' b', (r.through gs).Below p' b' := by
    intro gs
    induction gs with
    | nil => exact fun r p b hr => ⟨p, b, hr⟩
    | cons g gs ih => exact fun r p b hr => ih _ _ _ (below_next hr g)
  obtain ⟨p, b, hr⟩ := hbelow (classify e) .between 0 0
    (below_outside between_outside 0 0)
  rcases hr opening depth h with ⟨h, -⟩ | ⟨h, -⟩
  · exact Or.inl h
  · exact Or.inr h

/-- White space around a text does not lead out of a group. -/
theorem inGroup_trim {t : List Char} {opening : Char} {depth : Nat}
    (h : behindTokens (trim t) = .group opening depth) :
    behindTokens t = .group opening depth := by
  obtain ⟨a, b, hsplit, ha, hb⟩ := exists_trim t
  -- in front of the text the reader is between tokens
  have hfront : ∀ (a : List Char), (∀ c ∈ a, isBlank c = true) →
      Reading.between.through (a.map fun c => (⟨c, .code⟩ : Glyph)) = .between := by
    intro a ha
    induction a with
    | nil => rfl
    | cons c a ih =>
      rw [List.map_cons, through_cons]
      have hc : Reading.between.next ⟨c, .code⟩ = .between := by
        unfold Reading.next Reading.role freshRole
        simp [ha c List.mem_cons_self]
      rw [hc]
      exact ih fun c hc => ha c (List.mem_cons_of_mem _ hc)
  -- behind it white space is no bracket
  have hbehind : ∀ (gs : List Glyph), (∀ g ∈ gs, isBlank g.char = true) →
      (Reading.group opening depth).through gs = .group opening depth := by
    intro gs hgs
    induction gs with
    | nil => rfl
    | cons g gs ih =>
      rw [through_cons]
      have hg : (Reading.group opening depth).next g = .group opening depth := by
        have hblank := hgs g List.mem_cons_self
        have hne : ∀ c, isBlank c = false → g.isCode c = false := by
          intro c hc
          by_contra hcode
          rw [Bool.not_eq_false] at hcode
          rw [Glyph.isCode_iff.1 hcode, hc] at hblank
          cases hblank
        have hopen : g.isCode opening = false := by
          rcases behindTokens_group h with rfl | rfl
          · exact hne _ (by decide +kernel)
          · exact hne _ (by decide +kernel)
        have hclose : g.isCode (closing opening) = false := by
          rcases behindTokens_group h with rfl | rfl
          · exact hne _ (by decide +kernel)
          · exact hne _ (by decide +kernel)
        unfold Reading.next Reading.role
        simp [hopen, hclose]
      rw [hg]
      exact ih fun g hg => hgs g (List.mem_cons_of_mem _ hg)
  have hreads : ({} : Lexer).reads (trim t) b = classify (trim t) := by
    cases b with
    | nil => rw [Lexer.reads_whole]; rfl
    | cons c b =>
      have hc : isBlank c = true := hb c List.mem_cons_self
      exact (Lexer.reads_firm Lexer.delimited_start (isStop_of_isBlank hc)
        (ne_of_isBlank hc (by decide)) (ne_of_isBlank hc (by decide)) (trim t) b).1
  have hclassify : classify (trim t ++ b)
      = classify (trim t) ++ (({} : Lexer).past (trim t) b).glyphs b := by
    conv_lhs => unfold classify
    rw [Lexer.glyphs_append, hreads]
  unfold behindTokens at h ⊢
  rw [hsplit, settled_blanks ha, classify_blanks ha, through_append, hfront a ha, hclassify,
    through_append, h]
  refine hbehind _ fun g hg => hb g.char ?_
  rw [← glyphs_map_char (({} : Lexer).past (trim t) b) b]
  exact List.mem_map_of_mem hg

/-- **Only the last part of a body may end inside of a group**, and that of square brackets. -/
theorem parts_behind {s : Lexer} {inside rest : List Glyph} (hs : s.Fresh)
    (hsound : s.Sound (inside.map Glyph.char))
    (hglyphs : s.glyphs (inside.map Glyph.char) = inside)
    (h : enclosed? 0 (inside ++ ⟨')', .code⟩ :: rest) = some (inside.map Glyph.char)) :
    ∃ firsts last, commaParts 0 0 inside = firsts ++ [last]
      ∧ (∀ part ∈ firsts, ¬(behindTokens part).InGroup)
      ∧ ∀ d, behindTokens last ≠ .group '(' d := by
  generalize hn : inside.length = n
  induction n using Nat.strongRecOn generalizing s inside rest with
  | _ n ih =>
    obtain ⟨inside', rest', hsplit, hsame, hparts⟩ := parts_open (r := .between)
      (below_outside between_outside 0 0) h
    have hlen : inside.length = inside'.length := by
      simpa using congrArg List.length hsame
    obtain ⟨rfl, -⟩ := List.append_inj hsplit hlen
    -- no comma is left, or the part in front of the first one ends outside of a group
    rcases hparts with ⟨hone, hopen⟩ | ⟨front, behind, hcut, hmore, hopen, hrest⟩
    · refine ⟨[], inside.map Glyph.char, hone, fun p hp => absurd hp List.not_mem_nil, ?_⟩
      have halike := (Lexer.alike_reads (Lexer.alike_start hs) (inside.map Glyph.char) []).1
      rw [Lexer.reads_whole, Lexer.reads_whole, hglyphs] at halike
      unfold behindTokens classify
      rw [← halike]
      exact hopen
    · rw [hcut] at hglyphs
      have hglyphs' : s.glyphs (inside.map Glyph.char) = front ++ ⟨',', .code⟩ :: behind := by
        rw [hcut]
        exact hglyphs
      obtain ⟨hfront, -, s', hs', hsound', hbehind, -⟩ :=
        glyphs_cut hs hsound (Or.inl rfl) hglyphs'
      have hlt : behind.length < n := by
        rw [← hn, hcut, List.length_append, List.length_cons]
        omega
      obtain ⟨firsts, last, hparts, hfirsts, hlast⟩ := ih _ hlt hs' hsound' hbehind hrest rfl
      refine ⟨front.map Glyph.char :: firsts, last, by rw [hmore, hparts]; rfl, ?_, hlast⟩
      intro part hpart
      rcases List.mem_cons.1 hpart with rfl | hpart
      · unfold behindTokens
        rw [hfront]
        exact hopen
      · exact hfirsts part hpart

/-- **Only the last entry of a body may end inside of a group**, and that of square brackets. -/
theorem open_entry {t body : List Char} {head : Head} (hhead : head? t = some head)
    (hbody : enclosed? 0 ((classify t).drop (t.length - head.body.length)) = some body)
    {e : List Char} (he : e ∈ splitTopLevel body) (hopen : (behindTokens e).InGroup) :
    ∃ front, splitTopLevel body = front ++ [e] ∧ e ∉ front
      ∧ ∃ d, behindTokens e = .group '[' d := by
  obtain ⟨-, inside, rest, -, henclosed, rfl, hclassify, -⟩ := body_glyphs hhead hbody
  obtain ⟨firsts, last, hparts, hfirsts, hlast⟩ :=
    parts_behind Lexer.fresh_start (Lexer.sound_start _) hclassify henclosed
  have hentries : splitTopLevel (inside.map Glyph.char)
      = (firsts.map trim).filter (!·.isEmpty) ++ [trim last].filter (!·.isEmpty) := by
    unfold splitTopLevel
    rw [hclassify, hparts, List.map_append, List.filter_append]
    rfl
  obtain ⟨o, d, hgroup⟩ := hopen
  -- the parts in front end outside of all groups
  have hfront : e ∉ (firsts.map trim).filter (!·.isEmpty) := by
    intro he
    obtain ⟨part, hpart, rfl⟩ := List.mem_map.1 (List.mem_filter.1 he).1
    exact absurd ⟨o, d, inGroup_trim hgroup⟩ (hfirsts part hpart)
  rw [hentries] at he ⊢
  rcases List.mem_append.1 he with he | he
  · exact absurd he hfront
  · obtain ⟨he, hne⟩ := List.mem_filter.1 he
    obtain rfl := List.mem_singleton.1 he
    refine ⟨_, by rw [List.filter_singleton, hne]; rfl, hfront, d, ?_⟩
    rcases behindTokens_group hgroup with rfl | rfl
    · exact absurd (inGroup_trim hgroup) (hlast d)
    · exact hgroup

/-! ## §4. Groups that nothing closes. -/

/-- The token is a group that does not end with a bracket: its end is a character of more
than one byte. -/
def Token.Broken (t : Token) : Prop :=
  t.kind = .group ∧ ∃ c, t.text.tail.getLast? = some c ∧ c.utf8Size ≠ 1

instance (t : Token) : Decidable t.Broken := by
  unfold Token.Broken
  cases t.text.tail.getLast? with
  | none => exact .isFalse fun ⟨_, c, hc, _⟩ => by cases hc
  | some c =>
    exact decidable_of_iff (t.kind = .group ∧ c.utf8Size ≠ 1)
      ⟨fun ⟨hkind, hc⟩ => ⟨hkind, c, rfl, hc⟩,
        fun ⟨hkind, c', hc', hsize⟩ => ⟨hkind, by rw [Option.some.inj hc']; exact hsize⟩⟩

/-- **The inside of a group cannot be cut out exactly if the group is broken.** -/
theorem inside_cut_iff {t : Token} (hkind : t.kind = .group) :
    t.inside = .error .cutInsideCharacter ↔ t.Broken := by
  unfold Token.inside Token.Broken
  cases t.text.tail.getLast? with
  | none =>
    constructor
    · intro h
      cases h
    · intro ⟨_, c, hc, _⟩
      cases hc
  | some last =>
    dsimp only
    by_cases hsize : last.utf8Size = 1
    · rw [if_pos hsize]
      constructor
      · intro h
        cases h
      · intro ⟨_, c, hc, hne⟩
        rw [← Option.some.inj hc] at hne
        exact absurd hsize hne
    · rw [if_neg hsize]
      exact ⟨fun _ => ⟨hkind, last, rfl, hsize⟩, fun _ => rfl⟩

/-- There is no other fault in cutting out the inside of a group. -/
theorem inside_cases (t : Token) :
    (∃ inside, t.inside = .ok inside) ∨ t.inside = .error .cutInsideCharacter := by
  unfold Token.inside
  split
  · exact Or.inl ⟨_, rfl⟩
  · split
    · exact Or.inl ⟨_, rfl⟩
    · exact Or.inr rfl

/-- A broken group does not end with a bracket. -/
theorem Token.Broken.not_endsClosed {t : Token} (h : t.Broken) : ¬EndsClosed t.text := by
  obtain ⟨-, c, hc, hsize⟩ := h
  have hlast : t.text.getLast? = some c := by
    cases htext : t.text with
    | nil =>
      rw [htext] at hc
      cases hc
    | cons x rest =>
      rw [htext, List.tail_cons] at hc
      rw [List.getLast?_cons, hc]
      rfl
  intro hends
  unfold EndsClosed at hends
  rw [hlast] at hends
  rcases hends with hends | hends
  · rw [Option.some.inj hends] at hsize
    exact hsize (by decide)
  · rw [Option.some.inj hends] at hsize
    exact hsize (by decide)

/-- A broken group is the last token of its entry. -/
theorem broken_last {e : List Char} {t : Token} (ht : t ∈ tokenize e) (hbroken : t.Broken) :
    ∃ ts, tokenize e = ts ++ [t] := by
  obtain ⟨a, b, hab⟩ := List.append_of_mem ht
  obtain ⟨gap, gs, -, hlaid⟩ := tokenize_laid e
  rw [hab] at hlaid
  obtain ⟨front, rest, rfl, hrest⟩ := laid_right hlaid
  cases hrest with
  | @cons kind text gap' rest ts hover hmore =>
    obtain ⟨opening, inside, rfl, -, -, hends⟩ := hover.group hbroken.1
    rcases hends with hnil | ⟨m, c, rfl, hc⟩
    · -- nothing is behind the group, so no token is
      obtain ⟨-, rfl⟩ := List.append_eq_nil_iff.1 hnil
      generalize hempty : ([] : List Glyph) = none at hmore
      cases hmore with
      | nil => exact ⟨a, hab⟩
      | cons hover' =>
        obtain ⟨g, hg, -⟩ := hover'.ends
        obtain ⟨rfl, -⟩ := List.append_eq_nil_iff.1 hempty.symm
        cases hg
    · refine absurd ?_ hbroken.not_endsClosed
      have hlast : ((opening :: (m ++ [c])).map Glyph.char).getLast? = some c.char := by
        simp [List.getLast?_cons]
      show _ ∨ _
      rw [hlast]
      rcases hc with hc | hc
      · exact Or.inl (by rw [hc])
      · exact Or.inr (by rw [hc])

/-- **An entry with a broken group is the last of its body, and the group is of square
brackets.** -/
theorem broken_entry {t body : List Char} {head : Head} (hhead : head? t = some head)
    (hbody : enclosed? 0 ((classify t).drop (t.length - head.body.length)) = some body)
    {e : List Char} (he : e ∈ splitTopLevel body) {g : Token} (hg : g ∈ tokenize e)
    (hbroken : g.Broken) :
    (∃ front, splitTopLevel body = front ++ [e] ∧ e ∉ front)
      ∧ (∃ ts, tokenize e = ts ++ [g]) ∧ g.text.head? = some '[' := by
  have hopen : (behindTokens e).InGroup := by
    by_contra hend
    exact hbroken.not_endsClosed ((group_closed hend).1 g hg hbroken.1)
  obtain ⟨front, hfront, hnew, d, hgroup⟩ := open_entry hhead hbody he hopen
  obtain ⟨ts, hts⟩ := broken_last hg hbroken
  refine ⟨⟨front, hfront, hnew⟩, ⟨ts, hts⟩, ?_⟩
  rcases group_open hgroup with ⟨ts', inside, hlast⟩ | ⟨⟨d', hd'⟩, -⟩
  · have hsame : ts ++ [g] = ts' ++ [⟨.group, '[' :: inside, []⟩] := hts.symm.trans hlast
    obtain ⟨-, hg'⟩ := List.append_inj' hsame rfl
    rw [List.singleton_inj.1 hg']
    rfl
  · cases hd'

end SchemaDrift.Table
