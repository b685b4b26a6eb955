/-
  SchemaDrift.Proofs.Sql.Addressed
  ────────────────────────────────
  **LINES THAT SAY HOW A FILE IS TO BE TREATED.**

  Directives and markers stand in lines that begin with two hyphens and `sqlsync:`
  (`isAddressed`).  A directive counts only where a line begins in code, and there all of its
  line is white space and comment (`gaps_of_addressed`).  A marker counts wherever its line
  begins, and then it lies as a whole in gaps, or in something quoted (`of_one_kind`).  So
  neither reaches over the edge of a run of gaps, and one run can be exchanged for another:

      unmarked_exchange      there is no marker line then, if there was none before
      directives_exchange    the directives stay as they are

  The directives of a text are the settings in its lines that begin in code, one after the other
  (`directives_eq`).
-/

import SchemaDrift.Proofs.Except
import SchemaDrift.Proofs.Sql.Gaps
import SchemaDrift.Proofs.Sql.Verbatim
import SchemaDrift.Sql.Directive

namespace SchemaDrift.Sql

open SchemaDrift.Text

/-! ## §1. Addressed lines. -/

/-- Two hyphens and `sqlsync:` are in front of the line, with white space before each. -/
def isAddressed (line : List Char) : Bool :=
  ((literally? "--".toList (trimStart line)).bind fun rest =>
    literally? "sqlsync:".toList (trimStart rest)).isSome

theorem trimStart_blanks {b : List Char} (hb : ∀ c ∈ b, isBlank c = true) {c : Char}
    (hc : isBlank c = false) (r : List Char) : trimStart (b ++ c :: r) = c :: r := by
  unfold trimStart
  rw [List.dropWhile_append_of_pos hb,
    List.dropWhile_cons_of_neg (by rw [hc]; exact Bool.false_ne_true)]

theorem isAddressed_iff {line : List Char} : isAddressed line = true ↔
    ∃ b b' x, line = b ++ '-' :: '-' :: (b' ++ ("sqlsync:".toList ++ x))
      ∧ (∀ c ∈ b, isBlank c = true) ∧ ∀ c ∈ b', isBlank c = true := by
  have hsplit : ∀ {k s r : List Char}, literally? k (trimStart s) = some r →
      s = s.takeWhile isBlank ++ (k ++ r) := by
    intro k s r h
    rw [← literally?_eq_some.1 h]
    exact List.takeWhile_append_dropWhile.symm
  unfold isAddressed
  rw [Option.isSome_iff_exists]
  constructor
  · rintro ⟨x, hx⟩
    obtain ⟨rest, hrest, hx⟩ := Option.bind_eq_some_iff.1 hx
    have hfirst := hsplit hrest
    rw [hsplit hx] at hfirst
    exact ⟨_, _, x, hfirst, isBlank_takeWhile line, isBlank_takeWhile rest⟩
  · rintro ⟨b, b', x, rfl, hb, hb'⟩
    refine ⟨x, Option.bind_eq_some_iff.2 ⟨b' ++ ("sqlsync:".toList ++ x), ?_, ?_⟩⟩
    · rw [trimStart_blanks hb (by decide), literally?_eq_some]
      rfl
    · rw [show "sqlsync:".toList ++ x = 's' :: ("qlsync:".toList ++ x) from rfl,
        trimStart_blanks hb' (by decide), literally?_eq_some]
      rfl

/-- A line that goes on is addressed if it was. -/
theorem isAddressed_append {a : List Char} (h : isAddressed a = true) (q : List Char) :
    isAddressed (a ++ q) = true := by
  obtain ⟨b, b', x, rfl, hb, hb'⟩ := isAddressed_iff.1 h
  exact isAddressed_iff.2 ⟨b, b', x ++ q, by simp, hb, hb'⟩

/-- The line that the text begins with, without the line feed. -/
def headLine (t : List Char) : List Char := t.takeWhile (· != '\n')

theorem not_mem_headLine (t : List Char) : '\n' ∉ headLine t := by
  intro h
  have hne := List.all_eq_true.1 List.all_takeWhile _ h
  exact absurd hne (by decide)

theorem headLine_append {a : List Char} (ha : '\n' ∉ a) (r : List Char) :
    headLine (a ++ r) = a ++ headLine r := by
  refine List.takeWhile_append_of_pos fun c hc => ?_
  rw [bne_iff_ne]
  rintro rfl
  exact ha hc

/-- What follows a line feed makes no difference to the line in front of it. -/
theorem headLine_of_mem {a : List Char} (ha : '\n' ∈ a) (r : List Char) :
    headLine (a ++ r) = headLine a := by
  obtain ⟨b, c, rfl, hb⟩ := List.eq_append_cons_of_mem ha
  rw [List.append_assoc, headLine_append hb, headLine_append hb]
  rfl

/-- A marker line is addressed. -/
theorem isAddressed_of_marker {t : List Char} (h : marker? t ≠ none) :
    isAddressed (headLine t) = true := by
  have hpart : ∀ {k s r : List Char}, indented? k s = some r →
      ∃ i, s = i ++ (k ++ r) ∧ ∀ c ∈ i, isIndent c = true := by
    intro k s r h
    refine ⟨s.takeWhile isIndent, ?_, fun c hc => List.all_eq_true.1 List.all_takeWhile c hc⟩
    rw [← literally?_eq_some.1 h, List.takeWhile_append_dropWhile]
  have hinline : ∀ {i : List Char}, (∀ c ∈ i, isIndent c = true) → '\n' ∉ i := by
    intro i hi hmem
    exact absurd (hi _ hmem) (by decide)
  have hblank : ∀ {i : List Char}, (∀ c ∈ i, isIndent c = true) → ∀ c ∈ i, isBlank c = true :=
    fun hi c hc => isBlank_of_isIndent (hi c hc)
  obtain ⟨first, rest, -, -, hfirst, hrest, -⟩ := marker?_ne_none.1 h
  obtain ⟨i, rfl, hi⟩ := hpart hfirst
  obtain ⟨i', rfl, hi'⟩ := hpart hrest
  refine isAddressed_iff.2 ⟨i, i', headLine rest, ?_, hblank hi, hblank hi'⟩
  rw [headLine_append (hinline hi), headLine_append (by decide), headLine_append (hinline hi'),
    headLine_append (by decide)]
  rfl

/-- The settings of the line that the text begins with. -/
def settingAt (t : List Char) : Option (List Char) :=
  directiveBody? (trimEndWhile (fun c => c == '\n' || c == '\r') (headLine t))

/-- A line with settings is addressed. -/
theorem isAddressed_of_setting {t : List Char} (h : settingAt t ≠ none) :
    isAddressed (headLine t) = true := by
  obtain ⟨r, hr, -⟩ := exists_trimmed (fun c => c == '\n' || c == '\r') (headLine t)
  rw [hr]
  refine isAddressed_append ?_ r
  obtain ⟨body, hbody⟩ := Option.ne_none_iff_exists'.1 h
  unfold settingAt directiveBody? at hbody
  obtain ⟨rest, hrest, hbody⟩ := Option.bind_eq_some_iff.1 hbody
  obtain ⟨rest', hrest', -⟩ := Option.bind_eq_some_iff.1 hbody
  unfold isAddressed
  rw [hrest, Option.bind_some, hrest']
  rfl

/-- In the text behind `front` no line begins that is addressed. -/
def Quiet (front run : List Char) : Prop :=
  ∀ u v, run = u ++ v → EndsLine (front ++ u) → isAddressed (headLine v) = false

/-! ## §2. Where they stand. -/

theorem Lexer.idle_past_blanks {b : List Char} (hb : ∀ c ∈ b, isBlank c = true) {s : Lexer}
    (hs : s.Idle) (q : List Char) : (s.past b q).Idle := by
  induction b generalizing s with
  | nil => exact hs
  | cons c b ih =>
    obtain ⟨hc, hb⟩ := List.forall_mem_cons.1 hb
    exact ih hb (Lexer.advance_plain hs (isQuote_of_isBlank hc) (ne_of_isBlank hc (by decide))
      (ne_of_isBlank hc (by decide)) _).2

/-- **A line that begins in code and is addressed is all gaps.** -/
theorem Lexer.gaps_of_addressed {s : Lexer} (hs : s.Idle) {l : List Char} (hl : '\n' ∉ l)
    (h : isAddressed l = true) (r : List Char) : ∀ g ∈ s.reads l r, g.isGap = true := by
  obtain ⟨b, b', x, rfl, hb, -⟩ := isAddressed_iff.1 h
  rw [List.mem_append, not_or] at hl
  have hinline : '\n' ∉ b' ++ ("sqlsync:".toList ++ x) := by
    intro hmem
    exact hl.2 (List.mem_cons_of_mem _ (List.mem_cons_of_mem _ hmem))
  rw [Lexer.reads_append, List.forall_mem_append]
  refine ⟨?_, ?_⟩
  · rw [Lexer.reads_blanks hs hb]
    intro g hg
    obtain ⟨c, hc, rfl⟩ := List.mem_map.1 hg
    exact hb c hc
  · intro g hg
    have hcls := (Lexer.reads_hyphens (Lexer.idle_past_blanks hb hs _) hinline r).1 g hg
    exact isGap_comment hcls

/-- **Two hyphens in front and what stays in a comment behind them are all gaps, or all
quoted**, with white space before them. -/
theorem of_one_kind {gs : List Glyph} (hchain : gs.IsChain Neighbours) {i w : List Char}
    (hgs : gs.map Glyph.char = i ++ '-' :: '-' :: w) (hi : ∀ c ∈ i, isIndent c = true)
    (hw : ∀ c ∈ w, Stays c) :
    (∀ g ∈ gs, g.isGap = true) ∨ ∀ g ∈ gs, g.cls = .quoted := by
  induction i generalizing gs with
  | nil =>
    obtain ⟨a, row, rfl, ha, hrow⟩ := List.map_eq_cons_iff.1 hgs
    obtain ⟨b, row, rfl, hb, rfl⟩ := List.map_eq_cons_iff.1 hrow
    rcases code_ends_no_marker hchain ha hb fun x hx => hw x.char (List.mem_map_of_mem hx) with h | h
    · exact Or.inr h
    · refine Or.inl fun g hg => ?_
      exact isGap_comment (h g hg)
  | cons c i ih =>
    obtain ⟨hc, hi⟩ := List.forall_mem_cons.1 hi
    obtain ⟨g, row, rfl, hgc, hrow⟩ := List.map_eq_cons_iff.1 hgs
    have hrest := ih hchain.tail hrow hi
    -- what follows is an indent or a hyphen
    obtain ⟨h, row, rfl⟩ : ∃ h row', row = h :: row' := by
      refine List.exists_cons_of_ne_nil fun hnil => ?_
      rw [hnil] at hrow
      exact List.append_ne_nil_of_right_ne_nil _ (List.cons_ne_nil _ _) hrow.symm
    have hh : isIndent h.char = true ∨ h.char = '-' := by
      cases i with
      | nil => exact Or.inr (List.cons.inj hrow).1
      | cons d i =>
        rw [(List.cons.inj hrow).1]
        exact Or.inl (hi d List.mem_cons_self)
    have hneighbours := (List.isChain_cons_cons.1 hchain).1
    have hblank : isBlank g.char = true := by
      rw [hgc]
      exact isBlank_of_isIndent hc
    rcases hrest with hgaps | hquoted
    · refine Or.inl (List.forall_mem_cons.2 ⟨?_, hgaps⟩)
      cases hcls : g.cls with
      | quoted =>
        have hnext := hneighbours.quoted hcls (isQuote_of_isBlank hblank)
        exact absurd hnext (isGap_not_quoted (hgaps h List.mem_cons_self))
      | code => exact (isGap_code hcls).trans hblank
      | comment => exact isGap_comment hcls
    · refine Or.inr (List.forall_mem_cons.2 ⟨?_, hquoted⟩)
      by_contra hcls
      have hquote := hneighbours.opens_quoted hcls (hquoted h List.mem_cons_self)
      rcases hh with hh | hh
      · rw [isQuote_of_isBlank (isBlank_of_isIndent hh)] at hquote
        cases hquote
      · rw [hh] at hquote
        exact absurd hquote (by decide)

/-! ## §3. Markers around a run. -/

/-- A text makes no marker exactly if no line of it begins with one. -/
theorem unmarked_iff_starts {t : List Char} :
    Unmarked [] ('\n' :: t) ↔ ∀ u v, t = u ++ v → EndsLine u → marker? v = none := by
  constructor
  · rintro h u v rfl (rfl | hlast)
    · exact h [] v rfl
    · obtain ⟨u, rfl⟩ := List.getLast?_eq_some_iff.1 hlast
      exact h ('\n' :: u) v (by simp)
  · intro h u v huv
    cases u with
    | nil => exact h [] v (List.cons.inj huv).2 (Or.inl rfl)
    | cons c u =>
      refine h (u ++ ['\n']) v ?_ (Or.inr (by simp))
      rw [(List.cons.inj huv).2]
      simp

/-- The text is a run of gaps with what is no gap around it. -/
structure Parted (t : List Char) (gs a hs : List Glyph) : Prop where
  whole : classify t = gs ++ (a ++ hs)
  run : IsRun a
  front : ∀ g ∈ gs.getLast?, g.isGap = false
  behind : Begins hs

namespace Parted

variable {t t' : List Char} {gs a a' hs : List Glyph}

theorem text (h : Parted t gs a hs) :
    t = gs.map Glyph.char ++ (a.map Glyph.char ++ hs.map Glyph.char) := by
  rw [← classify_map_char t, h.whole, List.map_append, List.map_append]

theorem chain (h : Parted t gs a hs) : (gs ++ (a ++ hs)).IsChain Neighbours := by
  rw [← h.whole]
  exact classify_neighbours t

/-- Behind a run a word is over. -/
theorem word_ends (h : Parted t gs a hs) (hgs : gs ≠ []) (r : List Char) :
    atWordEnd (a.map Glyph.char ++ r) = true := by
  obtain ⟨front, g, rfl⟩ := List.eq_nil_or_concat gs |>.resolve_left hgs
  obtain ⟨x, a, rfl⟩ := List.exists_cons_of_ne_nil h.run.ne_nil
  rw [List.concat_eq_append] at h
  have hg := h.front g (by simp)
  have hchain := h.chain
  rw [List.append_assoc] at hchain
  have hneighbours := (List.isChain_cons_cons.1 (List.isChain_append.1 hchain).2.1).1
  show (!isWordChar x.char) = true
  by_cases hx : x.cls = .comment
  · rcases hneighbours.opens_comment (not_comment_of_not_gap hg) hx with hc | hc
    · rw [hc]
      decide +kernel
    · rw [hc]
      decide +kernel
  · rw [isWordChar_of_isBlank (isBlank_of_isGap (h.run.gaps x List.mem_cons_self) hx).1]
    rfl

/-- A marker that begins in front of the run is over there. -/
theorem marker_front (h : Parted t gs a hs) (h' : Parted t' gs a' hs) {gs₁ gs₂ : List Glyph}
    (hgs : gs = gs₁ ++ gs₂) (hne : gs₂ ≠ [])
    (hmarker : marker? ((gs₂ ++ (a' ++ hs)).map Glyph.char) ≠ none) :
    marker? ((gs₂ ++ (a ++ hs)).map Glyph.char) ≠ none := by
  obtain ⟨i, w, r, htext, hi, hw, -, hshort, hend⟩ := marker?_front hmarker
  rw [show i ++ '-' :: '-' :: (w ++ r) = (i ++ '-' :: '-' :: w) ++ r by simp] at htext
  obtain ⟨row, rest, hrow, hchars, rfl⟩ := List.map_eq_append_iff.1 htext
  have hgs' : gs ≠ [] := by
    rw [hgs]
    exact List.append_ne_nil_of_right_ne_nil _ hne
  -- what makes it a marker does not reach into the run
  obtain ⟨m, rfl⟩ : ∃ m, gs₂ = row ++ m := by
    rcases List.append_eq_append_iff.1 hrow with ⟨m, hm, hm'⟩ | ⟨m, hm, -⟩
    · cases m with
      | nil => exact ⟨[], by rw [hm, List.append_nil, List.append_nil]⟩
      | cons x m =>
        exfalso
        obtain ⟨y, b, hb⟩ := List.exists_cons_of_ne_nil h'.run.ne_nil
        rw [hb] at hm'
        obtain ⟨rfl, -⟩ := List.cons.inj hm'
        have hgap := h'.run.gaps y (by rw [hb]; exact List.mem_cons_self)
        have hlast := List.getLast_mem hne
        have hfront := h.front (gs₂.getLast hne) (by
          rw [hgs, List.getLast?_append, List.getLast?_eq_some_getLast hne]
          rfl)
        have hchain := h'.chain
        rw [hgs, List.append_assoc, hrow] at hchain
        have hkind := of_one_kind (List.isChain_append.1 (List.isChain_append.1 hchain).2.1).1
          hchars hi fun c hc => stays_of_isMarkerChar (hw c hc)
        rw [hm] at hkind
        rcases hkind with hgaps | hquoted
        · rw [hgaps _ (List.mem_append_left _ hlast)] at hfront
          cases hfront
        · exact isGap_not_quoted hgap (hquoted y (List.mem_append_right _ List.mem_cons_self))
    · exact ⟨m, hm⟩
  rw [List.append_assoc] at hrow ⊢
  rw [← List.append_cancel_left hrow] at hend
  rw [List.map_append, hchars]
  refine marker?_extend hshort ?_
  cases m with
  | nil =>
    rw [List.nil_append, List.map_append]
    exact h.word_ends hgs' _
  | cons x m => exact hend

/-- A marker that begins in the run is over there. -/
theorem marker_run (h : Parted t gs a hs) {a₁ a₂ : List Glyph} (ha : a = a₁ ++ a₂)
    (hmarker : marker? ((a₂ ++ hs).map Glyph.char) ≠ none) :
    isAddressed (headLine (a₂.map Glyph.char)) = true := by
  obtain ⟨i, w, r, htext, hi, hw, -, hshort, hend⟩ := marker?_front hmarker
  rw [show i ++ '-' :: '-' :: (w ++ r) = (i ++ '-' :: '-' :: w) ++ r by simp] at htext
  obtain ⟨row, rest, hrow, hchars, rfl⟩ := List.map_eq_append_iff.1 htext
  have hchain := h.chain
  rw [ha, List.append_assoc, hrow, ← List.append_assoc] at hchain
  have hkind := of_one_kind (List.isChain_append.1 (List.isChain_append.1 hchain).2.1).1
    hchars hi fun c hc => stays_of_isMarkerChar (hw c hc)
  -- what makes it a marker does not reach behind the run
  obtain ⟨m, rfl⟩ : ∃ m, a₂ = row ++ m := by
    rcases List.append_eq_append_iff.1 hrow with ⟨m, hm, hm'⟩ | ⟨m, hm, -⟩
    · cases m with
      | nil => exact ⟨[], by rw [hm, List.append_nil, List.append_nil]⟩
      | cons y m =>
        exfalso
        have hy := h.behind y (by rw [hm']; rfl)
        have hmem : y ∈ row := by
          rw [hm]
          exact List.mem_append_right _ List.mem_cons_self
        rcases hkind with hgaps | hquoted
        · rw [hgaps y hmem] at hy
          cases hy
        · have hlast := List.getLast_mem h.run.ne_nil
          have hneighbours := (List.isChain_append.1 (List.isChain_append.1 h.chain).2.1).2.2 _
            (List.getLast?_eq_some_getLast h.run.ne_nil) y (by rw [hm']; rfl)
          have hquote := hneighbours.opens_quoted (isGap_not_quoted (h.run.gaps _ hlast))
            (hquoted y hmem)
          have hc : y.char ∈ i ++ '-' :: '-' :: w := by
            rw [← hchars]
            exact List.mem_map_of_mem hmem
          rw [List.mem_append, List.mem_cons, List.mem_cons] at hc
          rcases hc with hc | hc | hc | hc
          · rw [isQuote_of_isBlank (isBlank_of_isIndent (hi _ hc))] at hquote
            cases hquote
          · rw [hc] at hquote
            exact absurd hquote (by decide)
          · rw [hc] at hquote
            exact absurd hquote (by decide)
          · rw [isQuote_of_isMarkerChar (hw _ hc)] at hquote
            cases hquote
    · exact ⟨m, hm⟩
  rw [List.append_assoc] at hrow
  rw [← List.append_cancel_left hrow] at hend
  rw [List.map_append, hchars]
  refine isAddressed_of_marker (marker?_extend hshort ?_)
  cases m with
  | nil => rfl
  | cons x m => exact hend

/-- **Gaps in which no addressed line begins make no marker**, if there was none before. -/
theorem unmarked_exchange (h : Parted t gs a hs) (h' : Parted t' gs a' hs)
    (hquiet : Quiet (gs.map Glyph.char) (a'.map Glyph.char)) (ht : Unmarked [] ('\n' :: t)) :
    Unmarked [] ('\n' :: t') := by
  rw [unmarked_iff_starts] at ht ⊢
  have hrun : ∀ {a₁ a₂ : List Glyph}, a' = a₁ ++ a₂ →
      EndsLine (gs.map Glyph.char ++ a₁.map Glyph.char) →
      marker? ((a₂ ++ hs).map Glyph.char) = none := by
    intro a₁ a₂ ha hstarts
    by_contra hmarker
    have haddressed := h'.marker_run ha hmarker
    rw [hquiet _ _ (by rw [ha, List.map_append]) hstarts] at haddressed
    cases haddressed
  intro u v huv hu
  rw [h'.text, ← List.map_append, ← List.map_append] at huv
  obtain ⟨front, row, hrow, rfl, rfl⟩ := List.map_eq_append_iff.1 huv
  rcases List.append_eq_append_iff.1 hrow with ⟨x, rfl, hx⟩ | ⟨x, rfl, rfl⟩
  · rcases List.append_eq_append_iff.1 hx with ⟨y, rfl, rfl⟩ | ⟨y, rfl, rfl⟩
    · -- behind the run
      by_cases hy : y = []
      · subst hy
        rw [List.append_nil, List.map_append] at hu
        exact hrun (List.append_nil a').symm hu
      · refine ht ((gs ++ (a ++ y)).map Glyph.char) (row.map Glyph.char) ?_ ?_
        · rw [h.text]
          simp
        · refine Or.inr ?_
          rcases hu with hu | hu
          · simp [hy] at hu
          · rw [List.map_append, List.map_append, List.getLast?_append_of_ne_nil _ (by simp [hy]),
              List.getLast?_append_of_ne_nil _ (by simp [hy])] at hu ⊢
            exact hu
    · -- in it
      rw [List.map_append] at hu
      exact hrun rfl hu
  · -- in front of it
    by_cases hx : x = []
    · subst hx
      rw [List.append_nil] at hrun
      exact hrun (List.nil_append a').symm (by simpa using hu)
    · by_contra hmarker
      refine h.marker_front h' rfl hx hmarker (ht _ _ ?_ hu)
      rw [h.text]
      simp

end Parted

/-! ## §4. Directives around a run. -/

/-- What is found where a line of the row begins in code; `starts` tells whether one begins in
front of the row. -/
def atStarts {α : Type} (find : List Glyph → Option α) (starts : Bool) : List Glyph → List α
  | [] => []
  | g :: row =>
    (if starts then (find (g :: row)).toList else []) ++ atStarts find (g.isCode '\n') row

/-- A line begins in code behind the row, if one begins in front of it or not. -/
def startsBehind (starts : Bool) (row : List Glyph) : Bool :=
  (row.getLast?.map (·.isCode '\n')).getD starts

theorem startsBehind_cons (starts : Bool) (g : Glyph) (row : List Glyph) :
    startsBehind starts (g :: row) = startsBehind (g.isCode '\n') row := by
  unfold startsBehind
  rw [List.getLast?_cons]
  cases row.getLast? with
  | none => rfl
  | some h => rfl

theorem startsBehind_append (starts : Bool) (x y : List Glyph) :
    startsBehind starts (x ++ y) = startsBehind (startsBehind starts x) y := by
  induction x generalizing starts with
  | nil => rfl
  | cons g x ih => rw [List.cons_append, startsBehind_cons, startsBehind_cons, ih]

/-- Where a line begins in code, one begins. -/
theorem endsLine_of_starts {row : List Glyph} (h : startsBehind true row = true) :
    EndsLine (row.map Glyph.char) := by
  unfold startsBehind at h
  cases hlast : row.getLast? with
  | none =>
    rw [List.getLast?_eq_none_iff.1 hlast]
    exact Or.inl rfl
  | some g =>
    rw [hlast] at h
    refine Or.inr ?_
    rw [List.getLast?_map, hlast, Glyph.isCode_iff.1 h]
    rfl

theorem atStarts_append {α : Type} (find : List Glyph → Option α) (starts : Bool)
    (x y : List Glyph) : atStarts find starts (x ++ y)
      = atStarts (fun z => find (z ++ y)) starts x ++ atStarts find (startsBehind starts x) y := by
  induction x generalizing starts with
  | nil => rfl
  | cons g x ih =>
    rw [List.cons_append, atStarts, atStarts, ih, startsBehind_cons, List.append_assoc,
      List.cons_append]

theorem atStarts_congr {α : Type} {find find' : List Glyph → Option α} {starts starts' : Bool}
    {row : List Glyph}
    (h : ∀ x y, row = x ++ y → y ≠ [] → (if startsBehind starts x then find y else none)
      = if startsBehind starts' x then find' y else none) :
    atStarts find starts row = atStarts find' starts' row := by
  induction row generalizing starts starts' with
  | nil => rfl
  | cons g row ih =>
    have hif : ∀ (b : Bool) (o : Option α),
        (if b then o.toList else []) = (if b then o else none).toList := by
      intro b o
      cases b with
      | true => rfl
      | false => rfl
    have hfirst : (if starts then find (g :: row) else none)
        = if starts' then find' (g :: row) else none := h [] (g :: row) rfl (List.cons_ne_nil g row)
    rw [atStarts, atStarts, hif, hif, hfirst, ih]
    intro x y hxy hy
    have hrest := h (g :: x) y (by rw [hxy]; rfl) hy
    rwa [startsBehind_cons, startsBehind_cons] at hrest

theorem atStarts_none {α : Type} (starts : Bool) (row : List Glyph) :
    atStarts (fun _ => (none : Option α)) starts row = [] := by
  induction row generalizing starts with
  | nil => rfl
  | cons g row ih =>
    rw [atStarts, ih]
    cases starts with
    | true => rfl
    | false => rfl

theorem atStarts_map {α β : Type} (f : α → β) (find : List Glyph → Option α) (starts : Bool)
    (row : List Glyph) :
    atStarts (fun y => (find y).map f) starts row = (atStarts find starts row).map f := by
  induction row generalizing starts with
  | nil => rfl
  | cons g row ih =>
    rw [atStarts, atStarts, ih, List.map_append]
    cases starts with
    | true => rw [if_pos rfl, if_pos rfl, Option.toList_map]
    | false => rfl

/-- Where nothing is found at the lines that begin in a part of a row, nor right behind it, what is
found is found behind that line. -/
theorem atStarts_quiet {α : Type} {find : List Glyph → Option α} {starts : Bool} {a hs : List Glyph}
    (hnone : ∀ x y, a = x ++ y → startsBehind starts x = true → find (y ++ hs) = none) :
    atStarts find starts (a ++ hs) = atStarts find false hs := by
  have hif : ∀ x y, a = x ++ y →
      (if startsBehind starts x then find (y ++ hs) else none) = none := by
    intro x y hxy
    split
    · next hstarts => exact hnone x y hxy hstarts
    · rfl
  have hinside : atStarts (fun z => find (z ++ hs)) starts a
      = atStarts (fun _ => none) false a := by
    refine atStarts_congr fun x y hxy _ => ?_
    rw [hif x y hxy]
    split
    · rfl
    · rfl
  rw [atStarts_append, hinside, atStarts_none, List.nil_append]
  refine atStarts_congr fun x y hxy _ => ?_
  cases x with
  | nil =>
    rw [hxy] at hif
    exact hif a [] (List.append_nil a).symm
  | cons g x => rw [startsBehind_cons, startsBehind_cons]

/-- The settings in the lines of a row that begin in code. -/
abbrev settings (starts : Bool) (row : List Glyph) : List (List Char) :=
  atStarts (fun y => settingAt (y.map Glyph.char)) starts row

/-- The settings in the lines of a row that begin in code, with the numbers of their lines, the row
ending in line `last`. -/
abbrev numberedSettings (last : Nat) (starts : Bool) (row : List Glyph) : List (Nat × List Char) :=
  atStarts (fun y => (settingAt (y.map Glyph.char)).map fun body =>
    (last - lineFeeds (y.map Glyph.char), body)) starts row

theorem map_numberedSettings (last : Nat) (starts : Bool) (row : List Glyph) :
    (numberedSettings last starts row).map Prod.snd = settings starts row := by
  rw [numberedSettings, ← atStarts_map]
  refine congrFun (congrFun (congrArg atStarts (funext fun y => ?_)) starts) row
  rw [Option.map_map]
  exact Option.map_id'

/-- Applies the settings of one line, which are given with its number. -/
def Directives.applyAt (d : Directives) (setting : Nat × List Char) :
    Except DirectiveError Directives :=
  (((splitBy (· == ',') setting.2).map trim).filter (!·.isEmpty)).foldlM
    (fun d pair => d.set setting.1 pair) d

/-- Applies the settings of one line; what is wrong with them is left aside. -/
def Directives.applyLine (d : Directives) (body : List Char) : Option Directives :=
  (((splitBy (· == ',') body).map trim).filter (!·.isEmpty)).foldlM
    (fun d pair => (d.set 0 pair).toOption) d

/-- The number of a line is of no importance for what is set in it. -/
theorem toOption_set (d : Directives) (number : Nat) (pair : List Char) :
    (d.set number pair).toOption = (d.set 0 pair).toOption := by
  unfold Directives.set
  split
  · rfl
  · next key value _ =>
    dsimp only
    cases boolOfWord? (trim value) with
    | none =>
      split
      · rfl
      · split
        · rfl
        · rfl
    | some b => rfl

theorem toOption_applyAt (d : Directives) (setting : Nat × List Char) :
    (d.applyAt setting).toOption = d.applyLine setting.2 := by
  unfold Directives.applyAt Directives.applyLine
  generalize ((splitBy (· == ',') setting.2).map trim).filter (!·.isEmpty) = pairs
  induction pairs generalizing d with
  | nil => rfl
  | cons pair pairs ih =>
    rw [List.foldlM_cons, List.foldlM_cons, toOption_bind, toOption_set]
    cases (d.set 0 pair).toOption with
    | none => rfl
    | some d' => exact ih d'

theorem toOption_applyAll (d : Directives) (ss : List (Nat × List Char)) :
    (ss.foldlM Directives.applyAt d).toOption
      = (ss.map Prod.snd).foldlM Directives.applyLine d := by
  induction ss generalizing d with
  | nil => rfl
  | cons s ss ih =>
    rw [List.foldlM_cons, List.map_cons, List.foldlM_cons, toOption_bind, toOption_applyAt]
    exact congrArg (Option.bind _) (funext fun d => ih d)

/-- No piece of a list is empty. -/
theorem ne_nil_of_mem_splitAfter {α : Type} {p : α → Bool} {l : List α} :
    ∀ piece ∈ splitAfter p l, piece ≠ [] := by
  induction l with
  | nil => exact List.forall_mem_nil _
  | cons a l ih =>
    rw [splitAfter]
    split
    · exact List.forall_mem_cons.2 ⟨List.cons_ne_nil a [], ih⟩
    · split
      · exact List.forall_mem_singleton.2 (List.cons_ne_nil a [])
      · next piece pieces hsplit =>
        rw [hsplit] at ih
        exact List.forall_mem_cons.2 ⟨List.cons_ne_nil a piece, (List.forall_mem_cons.1 ih).2⟩

/-- The first line of a row of glyphs. -/
theorem head_splitAfter {row piece : List Glyph} {pieces : List (List Glyph)}
    (h : splitAfter (·.char == '\n') row = piece :: pieces) :
    trimEndWhile (fun c => c == '\n' || c == '\r') (piece.map Glyph.char)
      = trimEndWhile (fun c => c == '\n' || c == '\r') (headLine (row.map Glyph.char)) := by
  suffices hfeed : ∃ r, piece.map Glyph.char = headLine (row.map Glyph.char) ++ r
      ∧ ∀ c ∈ r, c = '\n' by
    obtain ⟨r, hr, hfeed⟩ := hfeed
    rw [hr]
    refine trimEndWhile_append_of_all (fun c hc => ?_) _
    rw [hfeed c hc]
    rfl
  -- the first piece is the first line, up to and with its feed
  induction row generalizing piece pieces with
  | nil => cases h
  | cons g row ih =>
    rw [splitAfter] at h
    by_cases hg : (g.char == '\n') = true
    · rw [if_pos hg] at h
      have hline : headLine ((g :: row).map Glyph.char) = [] :=
        List.takeWhile_cons_of_neg (by simpa using hg)
      rw [← (List.cons.inj h).1, hline]
      exact ⟨[g.char], rfl, List.forall_mem_singleton.2 (beq_iff_eq.1 hg)⟩
    · rw [if_neg hg] at h
      have hline : headLine ((g :: row).map Glyph.char)
          = g.char :: headLine (row.map Glyph.char) :=
        List.takeWhile_cons_of_pos (by simpa using hg)
      rw [hline]
      split at h
      · next hnil =>
        have hrow := flatten_splitAfter (fun g : Glyph => g.char == '\n') row
        rw [hnil] at hrow
        rw [← (List.cons.inj h).1, ← hrow]
        exact ⟨[], rfl, List.forall_mem_nil _⟩
      · next first rest hsplit =>
        obtain ⟨r, hr, hfeed⟩ := ih hsplit
        rw [← (List.cons.inj h).1, List.map_cons, hr]
        exact ⟨r, rfl, hfeed⟩

theorem directivesFrom_cons (d : Directives) (number : Nat) (inCode : Bool) (line : List Glyph)
    (rest : List (List Glyph)) : directivesFrom d number inCode (line :: rest)
      = (if inCode then ((directiveBody? (trimEndWhile (fun c => c == '\n' || c == '\r')
          (line.map Glyph.char))).map fun body => (number, body)).toList else []).foldlM
            Directives.applyAt d >>= fun d =>
        directivesFrom d (number + 1) (line.getLast?.any (·.cls = .code)) rest := by
  cases inCode with
  | true =>
    refine congrArg (· >>= _) ?_
    rw [if_pos rfl, Directives.setAll]
    cases directiveBody? (trimEndWhile (fun c => c == '\n' || c == '\r') (line.map Glyph.char)) with
    | none => rfl
    | some body => exact (bind_pure (d.applyAt (number, body))).symm
  | false => rfl

/-- **The directives of a row are its settings**, in order, and the first of them that cannot be
read is what is wrong, with the number of its line. -/
theorem directivesFrom_eq (d : Directives) (number : Nat) (starts : Bool) (row : List Glyph) :
    directivesFrom d number starts (splitAfter (·.char == '\n') row)
      = (numberedSettings (number + lineFeeds (row.map Glyph.char)) starts row).foldlM
          Directives.applyAt d := by
  induction row generalizing d number starts with
  | nil => rfl
  | cons g row ih =>
    obtain ⟨piece, pieces, hpieces⟩ : ∃ piece pieces,
        splitAfter (·.char == '\n') (g :: row) = piece :: pieces := by
      refine List.exists_cons_of_ne_nil fun hnil => ?_
      have hrow := flatten_splitAfter (fun g : Glyph => g.char == '\n') (g :: row)
      rw [hnil] at hrow
      cases hrow
    rw [hpieces, directivesFrom_cons, head_splitAfter hpieces, numberedSettings, atStarts,
      List.foldlM_append, Nat.add_sub_cancel]
    refine congrArg (_ >>= ·) (funext fun d => ?_)
    rw [splitAfter] at hpieces
    by_cases hg : (g.char == '\n') = true
    · rw [if_pos hg] at hpieces
      obtain ⟨rfl, rfl⟩ := List.cons.inj hpieces
      have hstarts : ([g].getLast?.any fun g => decide (g.cls = .code)) = g.isCode '\n' := by
        unfold Glyph.isCode
        rw [show (decide (g.char = '\n')) = true from decide_eq_true (beq_iff_eq.1 hg),
          Bool.and_true]
        rfl
      have hfeeds : number + 1 + lineFeeds (row.map Glyph.char)
          = number + lineFeeds ((g :: row).map Glyph.char) := by
        rw [List.map_cons, beq_iff_eq.1 hg]
        unfold lineFeeds
        rw [List.count_cons_self]
        omega
      rw [ih, hstarts, hfeeds]
    · rw [if_neg hg] at hpieces
      have hstarts : g.isCode '\n' = false := by
        unfold Glyph.isCode
        rw [show (decide (g.char = '\n')) = false from decide_eq_false (by simpa using hg),
          Bool.and_false]
      have hfeeds : lineFeeds ((g :: row).map Glyph.char) = lineFeeds (row.map Glyph.char) :=
        List.count_cons_of_ne fun h => hg (beq_iff_eq.2 h)
      rw [hstarts, hfeeds]
      split at hpieces
      · next hnil =>
        have hrow := flatten_splitAfter (fun g : Glyph => g.char == '\n') row
        rw [hnil] at hrow
        obtain ⟨-, rfl⟩ := List.cons.inj hpieces
        rw [← hrow]
        rfl
      · next first rest hsplit =>
        obtain ⟨rfl, rfl⟩ := List.cons.inj hpieces
        -- the rest of the line is read as if it began one that is not in code
        have hrest := ih d number false
        rw [hsplit, directivesFrom_cons] at hrest
        refine Eq.trans ?_ hrest
        have hne : first ≠ [] := ne_nil_of_mem_splitAfter first (by
          rw [hsplit]
          exact List.mem_cons_self)
        obtain ⟨x, first, rfl⟩ := List.exists_cons_of_ne_nil hne
        rw [List.getLast?_cons_cons]
        rfl

/-- The directives of a text are the settings in its lines. -/
theorem directives_eq (t : List Char) : directives t
    = (numberedSettings (1 + lineFeeds t) true (classify t)).foldlM Directives.applyAt {} := by
  unfold directives
  rw [directivesFrom_eq, classify_map_char]

/-- Which directives there are does not depend on the numbers of the lines. -/
theorem toOption_directives (t : List Char) : (directives t).toOption
    = (settings true (classify t)).foldlM Directives.applyLine {} := by
  rw [directives_eq, toOption_applyAll, map_numberedSettings]

/-- Where a line begins in code, the text is read from code on. -/
theorem idle_of_starts {t : List Char} {front row : List Glyph} (h : classify t = front ++ row)
    (hstarts : startsBehind true front = true) :
    (({} : Lexer).past (front.map Glyph.char) (row.map Glyph.char)).Idle := by
  obtain ⟨htext, hreads, -⟩ := Lexer.glyphs_split h
  have hsound := htext ▸ Lexer.sound_start t
  unfold startsBehind at hstarts
  cases hlast : front.getLast? with
  | none =>
    rw [List.getLast?_eq_none_iff.1 hlast]
    exact Lexer.fresh_start.toIdle
  | some g =>
    rw [hlast] at hstarts
    have hcode : g.cls = .code := by
      rw [Glyph.isCode_iff.1 hstarts]
    refine Lexer.idle_of_inside (Lexer.sound_past hsound) ?_
    rcases Lexer.past_leaves hsound (by rw [hreads]; exact hlast) with hk | ⟨hk, -⟩
    · rw [hk, hcode]
    · exact hk

/-- **Where a line begins in code and is addressed, all of it is gaps.** -/
theorem gaps_of_starts {t : List Char} {front row : List Glyph} (h : classify t = front ++ row)
    (hstarts : startsBehind true front = true)
    (haddressed : isAddressed (headLine (row.map Glyph.char)) = true) :
    ∀ g ∈ row.takeWhile (·.char != '\n'), g.isGap = true := by
  have hidle := idle_of_starts h hstarts
  have hline : headLine (row.map Glyph.char)
      = (row.takeWhile (·.char != '\n')).map Glyph.char := List.takeWhile_map
  rw [hline] at haddressed
  have hinline : '\n' ∉ (row.takeWhile (·.char != '\n')).map Glyph.char := by
    rw [← hline]
    exact not_mem_headLine _
  obtain ⟨-, -, hglyphs⟩ := Lexer.glyphs_split h
  obtain ⟨-, hreads, -⟩ := Lexer.glyphs_split
    (hglyphs.trans (List.takeWhile_append_dropWhile (p := fun g => g.char != '\n')).symm)
  rw [← hreads]
  exact Lexer.gaps_of_addressed hidle hinline haddressed _

namespace Parted

variable {t t' : List Char} {gs a a' hs : List Glyph}

/-- No line that begins in front of the run and reaches into it has settings. -/
theorem no_setting_front (h : Parted t gs a hs) {x y : List Glyph} (hgs : gs = x ++ y) (hy : y ≠ [])
    (hinline : '\n' ∉ y.map Glyph.char) (hstarts : startsBehind true x = true) :
    settingAt ((y ++ (a ++ hs)).map Glyph.char) = none := by
  by_contra hsetting
  have hgaps := gaps_of_starts (by rw [h.whole, hgs, List.append_assoc]) hstarts
    (isAddressed_of_setting hsetting)
  have hline : (y ++ (a ++ hs)).takeWhile (·.char != '\n')
      = y ++ (a ++ hs).takeWhile (·.char != '\n') := by
    refine List.takeWhile_append_of_pos fun g hg => ?_
    rw [bne_iff_ne]
    intro hfeed
    exact hinline (hfeed ▸ List.mem_map_of_mem hg)
  have hlast := h.front (y.getLast hy) (by
    rw [hgs, List.getLast?_append, List.getLast?_eq_some_getLast hy]
    rfl)
  rw [hgaps _ (by rw [hline]; exact List.mem_append_left _ (List.getLast_mem hy))] at hlast
  cases hlast

/-- No line that begins in the run has settings, if none there is addressed. -/
theorem no_setting_run (h : Parted t gs a hs)
    (hquiet : Quiet (gs.map Glyph.char) (a.map Glyph.char)) {x y : List Glyph} (ha : a = x ++ y)
    (hstarts : startsBehind true (gs ++ x) = true) :
    settingAt ((y ++ hs).map Glyph.char) = none := by
  by_contra hsetting
  have haddressed := isAddressed_of_setting hsetting
  have hgaps := gaps_of_starts (by rw [h.whole, ha, List.append_assoc, ← List.append_assoc]) hstarts
    haddressed
  -- the line is over within the run
  have hline : headLine ((y ++ hs).map Glyph.char) = headLine (y.map Glyph.char) := by
    rw [List.map_append]
    by_cases hfeed : '\n' ∈ y.map Glyph.char
    · exact headLine_of_mem hfeed _
    · cases hs with
      | nil => rw [List.map_nil, List.append_nil]
      | cons k hs =>
        have hk := h.behind k rfl
        have hchar : k.char = '\n' := by
          by_contra hne
          have htake : k ∈ (y ++ k :: hs).takeWhile (·.char != '\n') := by
            rw [List.takeWhile_append_of_pos, List.takeWhile_cons_of_pos (by simpa using hne)]
            · exact List.mem_append_right _ List.mem_cons_self
            · intro g hg
              rw [bne_iff_ne]
              intro hc
              exact hfeed (hc ▸ List.mem_map_of_mem hg)
          rw [hgaps k htake] at hk
          cases hk
        have hwhole := headLine_append hfeed []
        rw [List.append_nil] at hwhole
        rw [headLine_append hfeed, hwhole, List.map_cons, hchar]
        rfl
  have hends := endsLine_of_starts hstarts
  rw [List.map_append] at hends
  rw [hline, hquiet _ _ (by rw [ha, List.map_append]) hends] at haddressed
  cases haddressed

/-- No setting begins in the run, nor right behind it. -/
theorem settings_run (h : Parted t gs a hs)
    (hquiet : Quiet (gs.map Glyph.char) (a.map Glyph.char)) :
    settings (startsBehind true gs) (a ++ hs) = settings false hs := by
  refine atStarts_quiet fun x y hxy hstarts => ?_
  rw [← startsBehind_append] at hstarts
  exact h.no_setting_run hquiet hxy hstarts

/-- **Gaps in which no addressed line begins change no directive.** -/
theorem directives_exchange (h : Parted t gs a hs) (h' : Parted t' gs a' hs)
    (hquiet : Quiet (gs.map Glyph.char) (a.map Glyph.char))
    (hquiet' : Quiet (gs.map Glyph.char) (a'.map Glyph.char)) :
    (directives t).toOption = (directives t').toOption := by
  have hfront : atStarts (fun z => settingAt ((z ++ (a ++ hs)).map Glyph.char)) true gs
      = atStarts (fun z => settingAt ((z ++ (a' ++ hs)).map Glyph.char)) true gs := by
    refine atStarts_congr fun x y hxy hy => ?_
    by_cases hstarts : startsBehind true x = true
    · rw [if_pos hstarts, if_pos hstarts]
      by_cases hfeed : '\n' ∈ y.map Glyph.char
      · have hline : ∀ z, settingAt ((y ++ z).map Glyph.char) = settingAt (y.map Glyph.char) := by
          intro z
          rw [List.map_append, settingAt, headLine_of_mem hfeed]
          rfl
        rw [hline, hline]
      · rw [h.no_setting_front hxy hy hfeed hstarts, h'.no_setting_front hxy hy hfeed hstarts]
    · rw [if_neg hstarts, if_neg hstarts]
  have hsplit : ∀ z, settings true (gs ++ z)
      = atStarts (fun y => settingAt ((y ++ z).map Glyph.char)) true gs
        ++ settings (startsBehind true gs) z := fun z => atStarts_append _ true gs z
  rw [toOption_directives, toOption_directives, h.whole, h'.whole, hsplit, hsplit, hfront,
    h.settings_run hquiet, h'.settings_run hquiet']

end Parted

end SchemaDrift.Sql
