/-
  SchemaDrift.Proofs.Sql.Verbatim
  ───────────────────────────────
  **REWRITING A TEXT MAKES NO MARKER LINE.**

  Comments are blanked, gaps squeezed and types spelled, but what is quoted is kept to the
  letter, and only what is quoted keeps its line feeds.  A marker behind such a line feed
  is then quoted up to its end, so it stands in the text that was rewritten too.  A line
  feed in code is kept only where comments are blanked, and behind it the hyphens of a
  marker would have been a comment.

      code_ends_no_marker       hyphens and what stays behind them are no code
      unmarked_stripComments    blanked comments
      unmarked_normalize        the normal form
      unmarked_canonicalType    the spelling of a type
      unmarked_terminate        the closing semicolon
-/

import SchemaDrift.Proofs.Sql.Layout
import SchemaDrift.Proofs.Sql.Marking
import SchemaDrift.Table.TypeName

namespace SchemaDrift.Sql

open SchemaDrift.Text SchemaDrift.Table

/-! ## §1. Glyphs of markers. -/

theorem isQuote_of_isMarkerChar {c : Char} (hc : isMarkerChar c = true) : isQuote c = false := by
  by_contra hq
  rcases isQuote_iff.1 (Bool.not_eq_false _ ▸ hq) with rfl | rfl | rfl
  · exact absurd hc (by decide)
  · exact absurd hc (by decide)
  · exact absurd hc (by decide)

/-- The character ends neither what is quoted nor a comment. -/
def Stays (c : Char) : Prop := isQuote c = false ∧ c ≠ '/' ∧ c ≠ '\n'

theorem stays_of_isMarkerChar {c : Char} (hc : isMarkerChar c = true) : Stays c := by
  refine ⟨isQuote_of_isMarkerChar hc, ?_, ?_⟩
  · rintro rfl
    exact absurd hc (by decide)
  · rintro rfl
    exact absurd hc (by decide)

/-- Such characters behind a quoted one are quoted. -/
theorem quoted_of_chain {g : Glyph} {gs : List Glyph} (hchain : (g :: gs).IsChain Neighbours)
    (hg : g.cls = .quoted) (hchars : ∀ x ∈ g :: gs, isQuote x.char = false) :
    ∀ x ∈ g :: gs, x.cls = .quoted := by
  induction gs generalizing g with
  | nil =>
    intro x hx
    rw [List.mem_singleton.1 hx]
    exact hg
  | cons g' gs ih =>
    obtain ⟨hfirst, hrest⟩ := List.isChain_cons_cons.1 hchain
    have hg' : g'.cls = .quoted := hfirst.quoted hg (hchars g List.mem_cons_self)
    intro x hx
    rcases List.mem_cons.1 hx with rfl | hx
    · exact hg
    · exact ih hrest hg' (fun y hy => hchars y (List.mem_cons_of_mem _ hy)) x hx

/-- Such characters behind one of a comment are of the comment. -/
theorem comment_of_chain {g : Glyph} {gs : List Glyph} (hchain : (g :: gs).IsChain Neighbours)
    (hg : g.cls = .comment) (hchars : ∀ x ∈ g :: gs, Stays x.char) :
    ∀ x ∈ g :: gs, x.cls = .comment := by
  induction gs generalizing g with
  | nil =>
    intro x hx
    rw [List.mem_singleton.1 hx]
    exact hg
  | cons g' gs ih =>
    obtain ⟨hfirst, hrest⟩ := List.isChain_cons_cons.1 hchain
    have hg' : g'.cls = .comment := by
      rcases hfirst.comment hg (hchars g List.mem_cons_self).2.1 with h | h
      · exact h
      · have hfeed := (hchars g' (List.mem_cons_of_mem _ List.mem_cons_self)).2.2
        rw [h] at hfeed
        exact absurd rfl hfeed
    intro x hx
    rcases List.mem_cons.1 hx with rfl | hx
    · exact hg
    · exact ih hrest hg' (fun y hy => hchars y (List.mem_cons_of_mem _ hy)) x hx

/-- **Two hyphens and what stays behind them are quoted together, or a comment together.** -/
theorem code_ends_no_marker {a b : Glyph} {gs : List Glyph}
    (hchain : (a :: b :: gs).IsChain Neighbours) (ha : a.char = '-') (hb : b.char = '-')
    (hchars : ∀ x ∈ gs, Stays x.char) :
    (∀ x ∈ a :: b :: gs, x.cls = .quoted) ∨ ∀ x ∈ a :: b :: gs, x.cls = .comment := by
  have hhyphen : Stays '-' := ⟨by decide, by decide, by decide⟩
  have hall : ∀ x ∈ a :: b :: gs, Stays x.char := by
    intro x hx
    rcases List.mem_cons.1 hx with rfl | hx
    · rw [ha]
      exact hhyphen
    · rcases List.mem_cons.1 hx with rfl | hx
      · rw [hb]
        exact hhyphen
      · exact hchars x hx
  cases hcls : a.cls with
  | quoted => exact Or.inl (quoted_of_chain hchain hcls fun x hx => (hall x hx).1)
  | comment => exact Or.inr (comment_of_chain hchain hcls hall)
  | code =>
    have hneighbours := (List.isChain_cons_cons.1 hchain).1
    exact absurd ⟨by rw [← ha, ← hcls], hb⟩ hneighbours.2

/-! ## §2. What is quoted is kept. -/

/-- The text has what is quoted in front of it as it is, and nothing else if that is all. -/
def KeepsQuoted (gs : List Glyph) (t : List Char) : Prop :=
  ∀ p r, gs = p ++ r → (∀ g ∈ p, g.cls = .quoted) →
    ∃ x, t = p.map Glyph.char ++ x ∧ (r = [] → x = [])

/-- A quote breaks a line. -/
theorem breaks_quote {c : Char} (hc : isQuote c = true) (q : List Char) : Breaks (c :: q) := by
  rcases isQuote_iff.1 hc with rfl | rfl | rfl
  · exact breaks_cons (by decide) (by decide) (by decide) (by decide) q
  · exact breaks_cons (by decide) (by decide) (by decide) (by decide) q
  · exact breaks_cons (by decide) (by decide) (by decide) (by decide) q

/-- **What keeps what is quoted begins a marker exactly if that does.** -/
theorem marker?_keepsQuoted {g : Glyph} {gs : List Glyph} {t : List Char}
    (hchain : (g :: gs).IsChain Neighbours) (hg : g.cls = .quoted) (hc : isQuote g.char = false)
    (hkeeps : KeepsQuoted gs t) : marker? t = marker? (gs.map Glyph.char) := by
  -- the quoted characters up to the first quote
  have hsplit := List.takeWhile_append_dropWhile (p := fun x : Glyph => !isQuote x.char) (l := gs)
  have hopen : ∀ x ∈ gs.takeWhile fun x => !isQuote x.char, isQuote x.char = false := by
    intro x hx
    have hnot := List.all_eq_true.1 List.all_takeWhile x hx
    simpa using hnot
  generalize hp : gs.takeWhile (fun x => !isQuote x.char) = p at hsplit hopen
  generalize hr : gs.dropWhile (fun x => !isQuote x.char) = r at hsplit
  subst hsplit
  have hfront : (g :: p).IsChain Neighbours := by
    have happend := List.isChain_append.1 (show ((g :: p) ++ r).IsChain Neighbours from hchain)
    exact happend.1
  have hquoted : ∀ x ∈ g :: p, x.cls = .quoted := quoted_of_chain hfront hg (by
    intro x hx
    rcases List.mem_cons.1 hx with rfl | hx
    · exact hc
    · exact hopen x hx)
  cases r with
  | nil =>
    obtain ⟨x, rfl, hx⟩ := hkeeps p [] rfl fun y hy => hquoted y (List.mem_cons_of_mem _ hy)
    rw [hx rfl, List.append_nil, List.append_nil]
  | cons q r =>
    have hq : isQuote q.char = true := by
      have hhead := List.head?_dropWhile_not (fun x : Glyph => !isQuote x.char) (p ++ q :: r)
      rw [hr] at hhead
      simpa using hhead
    have hqcls : q.cls = .quoted := by
      have hlast := List.getLast_mem (List.cons_ne_nil g p)
      have happend :=
        List.isChain_append.1 (show ((g :: p) ++ q :: r).IsChain Neighbours from hchain)
      have hneighbours := happend.2.2 _ (List.getLast?_eq_some_getLast (List.cons_ne_nil g p)) q rfl
      refine hneighbours.quoted (hquoted _ hlast) ?_
      rcases List.mem_cons.1 hlast with h | h
      · rw [h]
        exact hc
      · exact hopen _ h
    obtain ⟨x, rfl, -⟩ := hkeeps (p ++ [q]) r (by simp) (by
      intro y hy
      rcases List.mem_append.1 hy with hy | hy
      · exact hquoted y (List.mem_cons_of_mem _ hy)
      · rw [List.mem_singleton.1 hy]
        exact hqcls)
    rw [List.map_append, List.map_append, List.append_assoc]
    show marker? (p.map Glyph.char ++ q.char :: x)
      = marker? (p.map Glyph.char ++ q.char :: r.map Glyph.char)
    rw [marker?_append (breaks_quote hq _), marker?_append (breaks_quote hq _)]

/-- A rewriting that takes quoted glyphs over one by one keeps what is quoted. -/
theorem keepsQuoted_of_cons {σ : Type} {R : σ → List Glyph → List Char} (hnil : ∀ i, R i [] = [])
    (hcons : ∀ i g gs, g.cls = .quoted → ∃ j, R i (g :: gs) = g.char :: R j gs) (i : σ)
    (gs : List Glyph) : KeepsQuoted gs (R i gs) := by
  intro p r hgs hp
  subst hgs
  induction p generalizing i with
  | nil => exact ⟨R i r, rfl, fun hr => by rw [hr, hnil]⟩
  | cons g p ih =>
    obtain ⟨j, hj⟩ := hcons i g (p ++ r) (hp g List.mem_cons_self)
    obtain ⟨x, hx, hr⟩ := ih j fun y hy => hp y (List.mem_cons_of_mem _ hy)
    refine ⟨x, ?_, hr⟩
    rw [List.cons_append, hj, hx]
    rfl

/-! ## §3. Blanked comments. -/

/-- Where a line feed of a text without comments comes from. -/
theorem blankComments_feed {inComment : Bool} {gs : List Glyph} {u v : List Char}
    (h : blankComments inComment gs = u ++ '\n' :: v) :
    ∃ a cls b, gs = a ++ ⟨'\n', cls⟩ :: b ∧ cls ≠ .comment ∧ v = blankComments false b := by
  induction gs generalizing inComment u with
  | nil => exact absurd h (by simp [blankComments])
  | cons g gs ih =>
    have hbehind : ∀ {i : Bool} {u : List Char}, blankComments i gs = u ++ '\n' :: v →
        ∃ a cls b, g :: gs = a ++ ⟨'\n', cls⟩ :: b ∧ cls ≠ .comment
          ∧ v = blankComments false b := by
      intro i u h
      obtain ⟨a, cls, b, rfl, hcls, hv⟩ := ih h
      exact ⟨g :: a, cls, b, rfl, hcls, hv⟩
    unfold blankComments at h
    split at h
    · split at h
      · exact hbehind h
      · cases u with
        | nil => exact absurd (List.cons.inj h).1 (by decide)
        | cons c u => exact hbehind (List.cons.inj h).2
    · next hcls =>
      cases u with
      | nil =>
        obtain ⟨hc, hv⟩ := List.cons.inj h
        exact ⟨[], g.cls, gs, by rw [← hc]; rfl, hcls, hv.symm⟩
      | cons c u => exact hbehind (List.cons.inj h).2

/-- Where code goes on, two hyphens are left of it only behind something that is no indent. -/
theorem blankComments_code {gs : List Glyph} (hchain : gs.IsChain Neighbours)
    (hhead : ∀ g ∈ gs.head?, g.cls = .quoted → isQuote g.char = true) (inComment : Bool)
    {i x : List Char} (hi : ∀ c ∈ i, isIndent c = true) :
    blankComments inComment gs ≠ i ++ '-' :: '-' :: x := by
  induction gs generalizing inComment i with
  | nil =>
    intro h
    exact absurd h.symm (by simp [blankComments])
  | cons g gs ih =>
    have hbehind : g.cls ≠ .quoted →
        ∀ g' ∈ gs.head?, g'.cls = .quoted → isQuote g'.char = true := by
      intro hcls g' hg' hquoted
      cases gs with
      | nil => cases hg'
      | cons g'' gs =>
        cases hg'
        exact (List.isChain_cons_cons.1 hchain).1.opens_quoted hcls hquoted
    have hrest : gs.IsChain Neighbours := hchain.tail
    have hnext : g.cls ≠ .quoted → ∀ (b : Bool) {i : List Char}, (∀ c ∈ i, isIndent c = true) →
        blankComments b gs ≠ i ++ '-' :: '-' :: x := by
      intro hcls b i hi
      exact ih hrest (hbehind hcls) b hi
    intro h
    unfold blankComments at h
    split at h
    · next hcls =>
      have hne : g.cls ≠ .quoted := by
        rw [hcls]
        decide
      split at h
      · exact hnext hne true hi h
      · -- the comment left a space, which belongs to the indent
        cases i with
        | nil => exact absurd (List.cons.inj h).1 (by decide)
        | cons c i =>
          exact hnext hne true (fun c hc => hi c (List.mem_cons_of_mem _ hc)) (List.cons.inj h).2
    · next hcomment =>
      cases i with
      | nil =>
        -- a dash of code with another dash behind it would have begun a comment
        obtain ⟨hc, hrest'⟩ := List.cons.inj h
        have hcode : g = ⟨'-', .code⟩ := by
          cases hcls : g.cls with
          | code => rw [← hc, ← hcls]
          | comment => exact absurd hcls hcomment
          | quoted =>
            have hq := hhead g rfl hcls
            rw [hc] at hq
            exact absurd hq (by decide)
        cases gs with
        | nil => exact absurd hrest'.symm (by simp [blankComments])
        | cons g' gs =>
          unfold blankComments at hrest'
          split at hrest'
          · exact absurd (List.cons.inj hrest').1 (by decide)
          · exact (List.isChain_cons_cons.1 hchain).1.2 ⟨hcode, (List.cons.inj hrest').1⟩
      | cons c i =>
        obtain ⟨hc, hrest'⟩ := List.cons.inj h
        have hne : g.cls ≠ .quoted := by
          intro hcls
          have hq := hhead g rfl hcls
          rw [hc] at hq
          have hindent : isIndent c = true := hi c List.mem_cons_self
          rcases isQuote_iff.1 hq with rfl | rfl | rfl
          · exact absurd hindent (by decide)
          · exact absurd hindent (by decide)
          · exact absurd hindent (by decide)
        exact hnext hne false (fun c hc => hi c (List.mem_cons_of_mem _ hc)) hrest'

/-- **Blanking comments makes no marker.** -/
theorem unmarked_stripComments {s : List Char} (hs : Unmarked [] s) :
    Unmarked [] (stripComments s) := by
  intro u v h
  obtain ⟨a, cls, b, hsplit, hcls, rfl⟩ := blankComments_feed h
  have hchain := classify_neighbours s
  rw [hsplit] at hchain
  have htail : (⟨'\n', cls⟩ :: b).IsChain Neighbours := (List.isChain_append.1 hchain).2.1
  rw [List.nil_append]
  by_cases hquoted : cls = .quoted
  · have htext : s = a.map Glyph.char ++ '\n' :: b.map Glyph.char := (Lexer.glyphs_split hsplit).1
    have hkeeps : KeepsQuoted b (blankComments false b) := by
      refine keepsQuoted_of_cons (R := blankComments) (fun _ => rfl) ?_ false b
      intro inComment g gs hg
      exact ⟨false, by simp [blankComments, hg]⟩
    rw [marker?_keepsQuoted htail hquoted rfl hkeeps]
    exact hs _ _ htext
  · by_contra hmarker
    obtain ⟨i, w, r, hv, hi, -⟩ := marker?_shape hmarker
    refine blankComments_code htail.tail ?_ false hi hv
    intro g hg hgq
    cases b with
    | nil => cases hg
    | cons g' b =>
      cases hg
      exact (List.isChain_cons_cons.1 htail).1.opens_quoted hquoted hgq

/-! ## §4. Normal forms and types. -/

/-- Behind no quoted line feed of the text a marker begins. -/
def UnmarkedQuoted (s : List Char) : Prop :=
  ∀ a b, classify s = a ++ ⟨'\n', .quoted⟩ :: b → marker? (b.map Glyph.char) = none

theorem Unmarked.quoted {s : List Char} (hs : Unmarked [] s) : UnmarkedQuoted s := by
  intro a b hsplit
  exact hs (a.map Glyph.char) (b.map Glyph.char) (Lexer.glyphs_split hsplit).1

/-- A rewriting that keeps line feeds only if they are quoted makes no marker. -/
theorem unmarked_of_keepsQuoted {s t : List Char} (hs : UnmarkedQuoted s)
    (ht : ∀ u v, t = u ++ '\n' :: v →
      ∃ a b, classify s = a ++ ⟨'\n', .quoted⟩ :: b ∧ KeepsQuoted b v) : Unmarked [] t := by
  intro u v huv
  obtain ⟨a, b, hsplit, hkeeps⟩ := ht u v huv
  have hchain := classify_neighbours s
  rw [hsplit] at hchain
  have htail : (⟨'\n', .quoted⟩ :: b).IsChain Neighbours := (List.isChain_append.1 hchain).2.1
  rw [List.nil_append, marker?_keepsQuoted htail rfl rfl hkeeps]
  exact hs a b hsplit

/-- A line feed that is no gap is quoted. -/
theorem quoted_of_feed {g : Glyph} (hgap : ¬g.isGap = true) (hc : g.char = '\n') :
    g = ⟨'\n', .quoted⟩ := by
  cases hcls : g.cls with
  | quoted => rw [← hc, ← hcls]
  | comment => exact absurd (isGap_comment hcls) hgap
  | code =>
    refine absurd ?_ hgap
    rw [isGap_code hcls, hc]
    decide

theorem squeeze_feed {started pending : Bool} {gs : List Glyph} {u v : List Char}
    (h : squeeze started pending gs = u ++ '\n' :: v) :
    ∃ a b, gs = a ++ ⟨'\n', .quoted⟩ :: b ∧ v = squeeze true false b := by
  induction gs generalizing started pending u with
  | nil => exact absurd h (by simp [squeeze])
  | cons g gs ih =>
    have hbehind : ∀ {i j : Bool} {u : List Char}, squeeze i j gs = u ++ '\n' :: v →
        ∃ a b, g :: gs = a ++ ⟨'\n', .quoted⟩ :: b ∧ v = squeeze true false b := by
      intro i j u h
      obtain ⟨a, b, rfl, hv⟩ := ih h
      exact ⟨g :: a, b, rfl, hv⟩
    -- a line feed that is kept is quoted: in code it is a gap
    have hhere : ¬g.isGap = true → ∀ {u : List Char},
        g.char :: squeeze true false gs = u ++ '\n' :: v →
        ∃ a b, g :: gs = a ++ ⟨'\n', .quoted⟩ :: b ∧ v = squeeze true false b := by
      intro hgap u h
      cases u with
      | nil =>
        obtain ⟨hc, hv⟩ := List.cons.inj h
        exact ⟨[], gs, by rw [quoted_of_feed hgap hc]; rfl, hv.symm⟩
      | cons c u => exact hbehind (List.cons.inj h).2
    unfold squeeze at h
    split at h
    · exact hbehind h
    · next hgap =>
      split at h
      · cases u with
        | nil => exact absurd (List.cons.inj h).1 (by decide)
        | cons c u => exact hhere hgap (List.cons.inj h).2
      · exact hhere hgap h

/-- **The normal form makes no marker.** -/
theorem unmarked_normalize {s : List Char} (hs : UnmarkedQuoted s) : Unmarked [] (normalize s) := by
  obtain ⟨r, hr, hclosing⟩ := exists_trimmed isClosing (squeeze false false (classify s))
  have hend : atWordEnd r = true := by
    cases r with
    | nil => rfl
    | cons c r =>
      have hc : isClosing c = true := hclosing c List.mem_cons_self
      have hword : isWordChar c = false := by
        unfold isClosing at hc
        rcases Bool.or_eq_true _ _ ▸ hc with h | h
        · rw [beq_iff_eq.1 h]
          decide
        · exact isWordChar_of_isBlank h
      show (!isWordChar c) = true
      rw [hword]
      rfl
  have hsqueeze : Unmarked [] (squeeze false false (classify s)) := by
    refine unmarked_of_keepsQuoted hs fun u v huv => ?_
    obtain ⟨a, b, hsplit, rfl⟩ := squeeze_feed huv
    refine ⟨a, b, hsplit, ?_⟩
    refine keepsQuoted_of_cons (R := fun _ : Unit => squeeze true false) (fun _ => rfl) ?_ () b
    intro _ g gs hg
    exact ⟨(), by simp [squeeze, Glyph.isGap, hg]⟩
  rw [hr] at hsqueeze
  exact hsqueeze.left hend

theorem spellType_feed {last : Option Char} {pending : Bool} {gs : List Glyph} {u v : List Char}
    (h : spellType last pending gs = u ++ '\n' :: v) :
    ∃ a b, gs = a ++ ⟨'\n', .quoted⟩ :: b ∧ v = spellType (some '\n') false b := by
  induction gs generalizing last pending u with
  | nil => exact absurd h (by simp [spellType])
  | cons g gs ih =>
    -- the feed comes from a glyph behind, or from this one, which is then quoted
    have hbehind : ∀ {l : Option Char} {p : Bool} {u : List Char},
        spellType l p gs = u ++ '\n' :: v →
        ∃ a b, g :: gs = a ++ ⟨'\n', .quoted⟩ :: b ∧ v = spellType (some '\n') false b := by
      intro l p u h
      obtain ⟨a, b, rfl, hv⟩ := ih h
      exact ⟨g :: a, b, rfl, hv⟩
    have hhere : ¬g.isGap = true → ∀ {c : Char} {u : List Char},
        c = (if g.cls = .code then g.char.toUpper else g.char) →
        c :: spellType (some c) false gs = u ++ '\n' :: v →
        ∃ a b, g :: gs = a ++ ⟨'\n', .quoted⟩ :: b ∧ v = spellType (some '\n') false b := by
      intro hgap c u hdef h
      cases u with
      | nil =>
        obtain ⟨rfl, hv⟩ := List.cons.inj h
        have hc : g.char = '\n' := by
          split at hdef
          · exact eq_feed_of_toUpper hdef.symm
          · exact hdef.symm
        exact ⟨[], gs, by rw [quoted_of_feed hgap hc]; rfl, hv.symm⟩
      | cons d u => exact hbehind (List.cons.inj h).2
    unfold spellType at h
    split at h
    · exact hbehind h
    · next hgap =>
      dsimp only at h
      split at h
      · cases u with
        | nil => exact absurd (List.cons.inj h).1 (by decide)
        | cons c u => exact hhere hgap rfl (List.cons.inj h).2
      · exact hhere hgap rfl h

/-- **The spelling of a type makes no marker.** -/
theorem unmarked_canonicalType {s : List Char} (hs : UnmarkedQuoted s) :
    Unmarked [] (canonicalType s) := by
  refine unmarked_of_keepsQuoted hs fun u v huv => ?_
  obtain ⟨a, b, hsplit, rfl⟩ := spellType_feed huv
  refine ⟨a, b, hsplit, ?_⟩
  refine keepsQuoted_of_cons (R := fun last => spellType last false) (fun _ => rfl) ?_ _ b
  intro last g gs hg
  exact ⟨some g.char, by simp [spellType, Glyph.isGap, hg]⟩

/-! ## §5. The closing semicolon. -/

/-- A semicolon at the end of a word makes no marker. -/
theorem Unmarked.semicolon {lead a b : List Char} (h : Unmarked lead (a ++ b))
    (hb : atWordEnd b = true) : Unmarked lead (a ++ ';' :: b) := by
  have hbreaks : Breaks (';' :: b) :=
    breaks_cons (by decide) (by decide) (by decide) (by decide) _
  exact (h.left hb).append hbreaks (Unmarked.behind (a := [';']) (by decide) h.right)

/-- What follows the last glyph that is neither blank nor of a comment is behind a word. -/
theorem atWordEnd_trailing {s : List Char} {gs : List Glyph} {g : Glyph} {hs : List Glyph}
    (hsplit : classify s = gs ++ g :: hs) (hg : g.isTrailing = false)
    (hall : ∀ h ∈ hs, h.isTrailing = true) : atWordEnd (hs.map Glyph.char) = true := by
  cases hs with
  | nil => rfl
  | cons x hs =>
    show (!isWordChar x.char) = true
    rcases trailing_head hsplit hg (hall x List.mem_cons_self) with hblank | hc | hc
    · rw [isWordChar_of_isBlank hblank]
      rfl
    · rw [hc]
      decide +kernel
    · rw [hc]
      decide +kernel

/-- **The semicolon that ends a statement makes no marker**: what it is put in front of is
white space or a comment. -/
theorem unmarked_terminate {lead s : List Char} (hs : Unmarked lead ('\n' :: s)) :
    Unmarked lead ('\n' :: terminate s) := by
  have htrim : Unmarked lead ('\n' :: trimEnd s) := hs.trimEnd
  rcases terminate_cases s with h | ⟨gs, g, hs, hsplit, hg, hall, h⟩
  · rw [h]
    exact htrim
  · have htext : '\n' :: trimEnd s
        = ('\n' :: (gs ++ [g]).map Glyph.char) ++ hs.map Glyph.char := by
      rw [← classify_map_char (trimEnd s), hsplit]
      simp
    rw [htext] at htrim
    rw [h]
    exact htrim.semicolon (atWordEnd_trailing hsplit hg hall)

end SchemaDrift.Sql
