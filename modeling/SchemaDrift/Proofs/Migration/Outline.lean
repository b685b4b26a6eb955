/-
  SchemaDrift.Proofs.Migration.Outline
  ────────────────────────────────────
  **A MIGRATION IS CUT WHERE IT WAS PUT TOGETHER.**

  The text of a migration is read back line by line.  What makes that possible is a property
  of each of its lines (`MigrationLine.Readable`): a note is of comments only, none of them
  a marker, and of a statement no line is a marker, whatever it leaves open.  Then

    • everything between the statements is white space and comments (`Silent`), so that the
      regions there hold no statement,
    • the regions between markers are the statements, and each keeps its identity,

  and the text splits into the statements it was made of (`split_text`).
-/

import SchemaDrift.Migration.Basic
import SchemaDrift.Proofs.Sql.Layout
import SchemaDrift.Proofs.Sql.Marking

namespace SchemaDrift

open SchemaDrift.Sql SchemaDrift.Text SchemaDrift.Digest

/-! ## §1. Texts that say nothing. -/

/-- The line is empty or a comment. -/
structure Bare (l : List Char) : Prop where
  inline : '\n' ∉ l
  comment : l = [] ∨ ∃ rest, l = '-' :: '-' :: rest

/-- The line is empty or a comment, and no marker. -/
structure Quiet (l : List Char) : Prop extends Bare l where
  unmarked : marker? l = none

/-- The text is made of such lines, each with its line feed. -/
inductive Rows (p : List Char → Prop) : List Char → Prop where
  | nil : Rows p []
  | line {l t : List Char} (hl : p l) (ht : Rows p t) : Rows p (l ++ '\n' :: t)

/-- The text is made of quiet lines. -/
abbrev Silent (t : List Char) : Prop := Rows Quiet t

theorem quiet_empty : Quiet [] := ⟨⟨by simp, Or.inl rfl⟩, rfl⟩

theorem silent_feed : Silent ['\n'] := Rows.line quiet_empty Rows.nil

namespace Rows

variable {p : List Char → Prop} {a b t : List Char}

theorem append (ha : Rows p a) (hb : Rows p b) : Rows p (a ++ b) := by
  induction ha with
  | nil => exact hb
  | @line l t hl _ ih =>
    rw [List.append_assoc, List.cons_append]
    exact Rows.line hl ih

/-- A text of such lines is empty or ends with a line feed. -/
theorem last (h : Rows p t) : EndsLine t := by
  induction h with
  | nil => exact Or.inl rfl
  | @line l t hl ht ih =>
    right
    rw [List.getLast?_append]
    rcases ih with rfl | ih
    · rfl
    · rw [List.getLast?_cons, ih]
      rfl

/-- Lines one by one. -/
theorem flatMap {ls : List (List Char)} (h : ∀ l ∈ ls, p l) :
    Rows p (ls.flatMap (· ++ ['\n'])) := by
  induction ls with
  | nil => exact Rows.nil
  | cons l ls ih =>
    rw [List.flatMap_cons, List.append_assoc]
    exact Rows.line (h l List.mem_cons_self) (ih fun l hl => h l (List.mem_cons_of_mem _ hl))

/-- What makes a line one of the other kind makes the whole text one. -/
theorem imp {q : List Char → Prop} (hpq : ∀ l, p l → q l) (h : Rows p t) : Rows q t := by
  induction h with
  | nil => exact Rows.nil
  | line hl ht ih => exact Rows.line (hpq _ hl) ih

end Rows

/-- None of the lines of a text that says nothing is a marker. -/
theorem Silent.unmarked {t : List Char} (h : Silent t) : ∀ l ∈ lines t, marker? l = none := by
  induction h with
  | nil =>
    intro l hl
    cases hl
  | @line l t hl ht ih =>
    rw [lines_line hl.inline]
    intro l' hl'
    rcases List.mem_cons.1 hl' with rfl | hl'
    · rw [marker?_append (breaks_feed [])]
      exact hl.unmarked
    · exact ih l' hl'

namespace Sql.Lexer

/-- The line feed that ends a line comment is a gap, and code begins afresh behind it. -/
theorem advance_commentEnd {s : Lexer} (hmode : s.mode = .lineComment) (hheld : s.held = 0)
    (w : List Char) : (s.advance '\n' w).1 = .code ∧ (s.advance '\n' w).2.Fresh := by
  have hname : (isIdentChar '\n' || '\n' == '$') = false := by decide +kernel
  rw [advance_decided hheld, decision_eq (.lineEnd rfl) hmode]
  exact ⟨rfl, ⟨rfl, rfl⟩, hname⟩

/-- **A bare line is nothing but gaps**, and code begins afresh behind it. -/
theorem reads_bare {s : Lexer} (hs : s.Fresh) {l : List Char} (hl : Bare l) (w : List Char) :
    (∀ g ∈ s.reads (l ++ ['\n']) w, g.isGap = true) ∧ (s.past (l ++ ['\n']) w).Fresh := by
  rcases hl.comment with rfl | ⟨rest, rfl⟩
  · exact fresh_blanks hs (forall_chars (by decide))
  · have hrest : '\n' ∉ rest := by
      intro hmem
      exact hl.inline (List.mem_cons_of_mem _ (List.mem_cons_of_mem _ hmem))
    obtain ⟨hcomment, hmode, hheld⟩ := reads_hyphens hs.toIdle hrest ('\n' :: w)
    obtain ⟨hcode, hfresh⟩ := advance_commentEnd hmode hheld w
    rw [reads_concat, past_concat, hcode]
    refine ⟨?_, hfresh⟩
    intro g hg
    rcases List.mem_append.1 hg with hg | hg
    · exact isGap_comment (hcomment g hg)
    · rw [List.mem_singleton.1 hg]
      rfl

/-- A text of bare lines is nothing but gaps, whatever follows. -/
theorem reads_rows {s : Lexer} (hs : s.Fresh) {t : List Char} (ht : Rows Bare t) (w : List Char) :
    (∀ g ∈ s.reads t w, g.isGap = true) ∧ (s.past t w).Fresh := by
  induction ht generalizing s with
  | nil => exact ⟨by simp, hs⟩
  | @line l t hl ht ih =>
    rw [show l ++ '\n' :: t = (l ++ ['\n']) ++ t by simp, reads_append s (l ++ ['\n']) t,
      past_append s (l ++ ['\n']) t]
    obtain ⟨hgaps, hfresh⟩ := reads_bare hs hl (t ++ w)
    obtain ⟨hgaps', hfresh'⟩ := ih hfresh
    refine ⟨?_, hfresh'⟩
    intro g hg
    rcases List.mem_append.1 hg with hg | hg
    · exact hgaps g hg
    · exact hgaps' g hg

/-- So is a whole text of bare lines. -/
theorem glyphs_bare {s : Lexer} (hs : s.Fresh) {t : List Char} (ht : Rows Bare t) :
    (∀ g ∈ s.glyphs t, g.isGap = true) ∧ (s.after t).Fresh := by
  have h := reads_rows hs ht []
  rw [reads_whole, past_whole] at h
  exact h

end Sql.Lexer

/-- Bare lines in front make no difference to the normal form. -/
theorem normalize_bare_append {t : List Char} (ht : Rows Bare t) (w : List Char) :
    Sql.normalize (t ++ w) = Sql.normalize w := by
  obtain ⟨hgaps, hfresh⟩ := Lexer.reads_rows Lexer.fresh_start ht w
  unfold Sql.normalize classify
  rw [Lexer.glyphs_append, squeeze_gaps_append hgaps]
  have halike := (Lexer.alike_reads (Lexer.alike_start hfresh) w []).1
  rw [Lexer.reads_whole, Lexer.reads_whole] at halike
  rw [halike]

/-- The normal form of a text of bare lines is empty. -/
theorem normalize_bare {t : List Char} (ht : Rows Bare t) : Sql.normalize t = [] := by
  have h := normalize_bare_append ht []
  rw [List.append_nil] at h
  exact h

/-- **A text that says nothing holds no statement**, and leaves nothing open. -/
theorem statements_silent {t : List Char} (ht : Silent t) (line : Nat) :
    (Region.mk false line t).statements = .ok [] := by
  have hbare : Rows Bare t := ht.imp fun l hl => hl.toBare
  obtain ⟨hgaps, hfresh⟩ := Lexer.glyphs_bare Lexer.fresh_start hbare
  have hopen : unclosed? t = none := by
    unfold unclosed?
    rw [hfresh.mode]
    rfl
  have hempty : Sql.normalize t = [] := normalize_bare hbare
  -- a silent text is all gaps: nothing cuts it, and nothing is said in it
  have hsemicolon : ∀ g ∈ classify t, g.isCode ';' = false := by
    intro g hg
    have hgap : g.isGap = true := hgaps g hg
    unfold Glyph.isCode
    cases hcls : g.cls with
    | code =>
      rw [isGap_code hcls] at hgap
      simpa using ne_of_isBlank hgap (by decide)
    | quoted => rfl
    | comment => rfl
  have hpieces : pieces t = if (classify t).isEmpty then [] else [t] := by
    unfold pieces
    rw [splitAfter_none hsemicolon]
    split
    · rfl
    · rw [List.map_singleton, classify_map_char]
  have hnone : statementOf? line t = none := by
    unfold statementOf? Statement.isEmpty
    dsimp only
    rw [String.toList_ofList, normalize_trim, hempty]
    rfl
  have hstatements : statementsOf line (pieces t) = [] := by
    rw [hpieces]
    split
    · rfl
    · rw [statementsOf, hnone]
      rfl
  unfold Region.statements
  dsimp only
  rw [if_neg Bool.false_ne_true, hopen, hstatements]

/-! ## §2. Lines that can be read back. -/

/-- The line is one that the text of a migration is read back to. -/
inductive MigrationLine.Readable : MigrationLine → Prop where
  /-- A note says nothing. -/
  | note {text : String} (h : Silent (text.toList ++ ['\n'])) : Readable (.note text)
  | blank : Readable .blank
  /-- A statement is no mere comment, carries its identity, and none of its lines is a
  marker. -/
  | statement (path : String) {hash sql : String} (hsaid : Sql.normalize sql.toList ≠ [])
      (hhash : hash = hashOf (String.ofList (Sql.normalize sql.toList)))
      (hlines : Unmarked [] ('\n' :: sql.toList)) : Readable (.statement path hash sql)

/-- The text of some lines. -/
def textOf (ls : List MigrationLine) : List Char := ls.flatMap fun l => l.render.toList

theorem Migration.toList_text (m : Migration) : m.text.toList = textOf m.lines := by
  unfold Migration.text textOf
  rw [String.toList_join, List.flatMap_map]

/-- A digest is of one line. -/
theorem inline_hashOf (text : String) : Inline (hashOf text) := by
  have hdigit : ∀ n < 16, Nat.digitChar n ≠ '\n' := by decide
  have hword : ∀ w, '\n' ∉ hexOfWord w := by
    intro w hmem
    unfold hexOfWord at hmem
    obtain ⟨i, -, hi⟩ := List.mem_map.1 hmem
    exact hdigit _ (Nat.mod_lt _ (by decide)) hi
  unfold hashOf Inline
  rw [String.toList_ofList]
  intro hmem
  obtain ⟨w, -, hw⟩ := List.mem_flatMap.1 hmem
  exact hword w hw

/-! ## §3. Marks. -/

/-- Whole lines that are no markers stand in front of the first mark. -/
theorem marksFrom_unmarked {t : List Char} (hfeed : t = [] ∨ t.getLast? = some '\n')
    (h : ∀ l ∈ lines t, marker? l = none) (number : Nat) (rest : List Char) :
    ∃ number', marksFrom number (lines (t ++ rest))
      = (t ++ (marksFrom number' (lines rest)).1, (marksFrom number' (lines rest)).2) := by
  rw [lines_append hfeed, marksFrom_lines h, show (lines t).flatten = t from flatten_splitAfter _ t]
  exact ⟨_, rfl⟩

/-- A marker line begins a mark. -/
theorem marksFrom_marker {l : List Char} (hl : '\n' ∉ l) {m : Marker} (hm : marker? l = some m)
    (number : Nat) (rest : List Char) : marksFrom number (lines (l ++ '\n' :: rest))
      = ([], ⟨m, number, '\n' :: (marksFrom (number + 1) (lines rest)).1⟩
          :: (marksFrom (number + 1) (lines rest)).2) := by
  rw [lines_line hl, marksFrom]
  dsimp only
  rw [marker?_append (breaks_feed []), hm, List.getLast?_concat]
  rfl

/-- The lines around a statement are markers, whatever follows on them. -/
theorem marker?_around (x : List Char) :
    marker? ("-- sqlsync: startStatement:".toList ++ x) = some .start
      ∧ marker? ("-- sqlsync: endStatement:".toList ++ x) = some .finish := ⟨rfl, rfl⟩

/-- The text of a statement between its markers, with the line feeds around. -/
def between (sql : String) : List Char := '\n' :: (trimEnd sql.toList ++ ['\n'])

/-- **A statement is read as its two markers**, with its text between them. -/
theorem marksFrom_statement {path hash sql : String}
    (h : (MigrationLine.statement path hash sql).Readable) (number : Nat) (rest : List Char) :
    ∃ first last number',
      marksFrom number (lines ((MigrationLine.statement path hash sql).render.toList ++ rest))
        = ([], ⟨.start, first, between sql⟩
            :: ⟨.finish, last, '\n' :: (marksFrom number' (lines rest)).1⟩
            :: (marksFrom number' (lines rest)).2) := by
  cases h with
  | statement _ hsaid hhash hlines =>
    have hinline : '\n' ∉ hash.toList := by
      rw [hhash]
      exact inline_hashOf _
    -- the two markers take a line each
    have hstart : '\n' ∉ "-- sqlsync: startStatement:".toList ++ hash.toList := by
      rw [List.mem_append, not_or]
      exact ⟨by decide, hinline⟩
    have hfinish : '\n' ∉ "-- sqlsync: endStatement:".toList ++ hash.toList := by
      rw [List.mem_append, not_or]
      exact ⟨by decide, hinline⟩
    -- no line of the statement between them is a marker
    have hunmarked : ∀ l ∈ lines (trimEnd sql.toList ++ ['\n']), marker? l = none := by
      have hlead : marker? [] = none := rfl
      have hfeed : Unmarked [] ['\n'] := unmarked_feed.2 ⟨rfl, unmarked_of_not_mem (by simp)⟩
      refine (unmarked_iff_lines hlead).1 ?_
      exact hlines.trimEnd.append (breaks_feed []) hfeed
    have hrender : (MigrationLine.statement path hash sql).render.toList ++ rest
        = ("-- sqlsync: startStatement:".toList ++ hash.toList) ++ '\n' ::
          ((trimEnd sql.toList ++ ['\n'])
            ++ (("-- sqlsync: endStatement:".toList ++ hash.toList) ++ '\n' :: rest)) := by
      unfold MigrationLine.render
      simp
    obtain ⟨number', hsql⟩ := marksFrom_unmarked (Or.inr (List.getLast?_concat ..)) hunmarked
      (number + 1) (("-- sqlsync: endStatement:".toList ++ hash.toList) ++ '\n' :: rest)
    refine ⟨number, number', number' + 1, ?_⟩
    rw [hrender, marksFrom_marker hstart (marker?_around _).1, hsql,
      marksFrom_marker hfinish (marker?_around _).2, List.append_nil]
    rfl

/-! ## §4. Reading back. -/

/-- A statement between its markers keeps its identity. -/
theorem statements_between {path hash sql : String}
    (h : (MigrationLine.statement path hash sql).Readable) (line : Nat) :
    ∃ s : Statement, (Region.mk true line (between sql)).statements = .ok [s] ∧ s.hash = hash := by
  cases h with
  | statement _ hsaid hhash hlines =>
    have hnormal : Sql.normalize (trim (between sql)) = Sql.normalize sql.toList := by
      rw [normalize_trim]
      show Sql.normalize (['\n'] ++ (trimEnd sql.toList ++ ['\n'])) = _
      rw [normalize_append_left (forall_chars (by decide)),
        normalize_append_right (forall_chars (by decide)), normalize_trimEnd]
    obtain ⟨s, hs, hraw⟩ : ∃ s, statementOf? line (between sql) = some s
        ∧ s.raw = String.ofList (trim (between sql)) := by
      have hempty : (Sql.normalize sql.toList).isEmpty = false := by
        rw [List.isEmpty_eq_false_iff]
        exact hsaid
      unfold statementOf? Statement.isEmpty
      dsimp only
      rw [String.toList_ofList, hnormal, hempty, if_neg Bool.false_ne_true]
      exact ⟨_, rfl, rfl⟩
    refine ⟨s, ?_, ?_⟩
    · show Except.ok (statementsOf line [between sql]) = _
      rw [statementsOf, hs]
      rfl
    · unfold Statement.hash Statement.normalized
      rw [hraw, String.toList_ofList, hnormal, hhash]

/-- The identities of the statements of some lines. -/
def identities (ls : List MigrationLine) : List String :=
  (ls.filterMap MigrationLine.origin?).map (·.hash)

/-- What a line that is no statement adds to the text says nothing. -/
theorem MigrationLine.Readable.silent {l : MigrationLine} (h : l.Readable)
    (hl : l.origin? = none) : Silent l.render.toList := by
  cases h with
  | @note text h =>
    unfold MigrationLine.render
    rw [String.toList_append]
    exact h
  | blank => exact silent_feed
  | statement => cases hl

/-- **Lines that can be read back are read back**: with a text that says nothing in front,
their regions hold their statements, and no marker is misplaced. -/
theorem outline_lines {ls : List MigrationLine} (h : ∀ l ∈ ls, l.Readable) {q : List Char}
    (hq : Silent q) (line number : Nat) :
    ∃ regions statements,
      outlineFrom ⟨false, line, q ++ (marksFrom number (lines (textOf ls))).1⟩
          (marksFrom number (lines (textOf ls))).2 = ⟨regions, none⟩
        ∧ splitRegions regions = .ok statements
        ∧ statements.map (·.hash) = identities ls := by
  induction ls generalizing q line number with
  | nil =>
    refine ⟨[⟨false, line, q⟩], [], ?_, ?_, rfl⟩
    · show outlineFrom ⟨false, line, q ++ []⟩ [] = _
      rw [List.append_nil]
      rfl
    · rw [splitRegions, statements_silent hq]
      rfl
  | cons l ls ih =>
    have hl : l.Readable := h l List.mem_cons_self
    have ih := fun {q} hq => ih (q := q) (fun l hl => h l (List.mem_cons_of_mem _ hl)) hq
    have htext : textOf (l :: ls) = l.render.toList ++ textOf ls := List.flatMap_cons
    rw [htext]
    -- a note goes to the text that is open; a statement closes it, opens its own and the next
    by_cases horigin : l.origin? = none
    · have hsilent := hl.silent horigin
      obtain ⟨number', hmarks⟩ :=
        marksFrom_unmarked hsilent.last hsilent.unmarked number (textOf ls)
      have hids : identities (l :: ls) = identities ls :=
        congrArg (List.map _) (List.filterMap_cons_none horigin)
      rw [hmarks, hids]
      dsimp only
      rw [← List.append_assoc]
      exact ih (hq.append hsilent) line number'
    · cases l with
      | note text => exact absurd rfl horigin
      | blank => exact absurd rfl horigin
      | statement path hash sql =>
        obtain ⟨first, last, number', hmarks⟩ := marksFrom_statement hl number (textOf ls)
        obtain ⟨s, hs, hhash⟩ := statements_between hl first
        obtain ⟨regions, statements, houtline, hsplit, hids⟩ := ih silent_feed last number'
        refine ⟨⟨false, line, q⟩ :: ⟨true, first, between sql⟩ :: regions, s :: statements,
          ?_, ?_, ?_⟩
        · rw [hmarks, List.append_nil]
          show (let o := outlineFrom ⟨false, last,
              ['\n'] ++ (marksFrom number' (lines (textOf ls))).1⟩ _
            Outline.mk (_ :: _ :: o.regions) o.fault) = _
          rw [houtline]
          rfl
        · rw [splitRegions, splitRegions, statements_silent hq, hs, hsplit]
          rfl
        · rw [List.map_cons, hhash, hids]
          rfl

/-- **The text of lines that can be read back splits into their statements.** -/
theorem split_text {ls : List MigrationLine} (h : ∀ l ∈ ls, l.Readable) :
    ∃ statements, split (textOf ls) = .ok statements
      ∧ statements.map (·.hash) = identities ls := by
  obtain ⟨regions, statements, houtline, hsplit, hids⟩ := outline_lines h Rows.nil 1 1
  refine ⟨statements, ?_, hids⟩
  have hwhole : outline (textOf ls) = ⟨regions, none⟩ := houtline
  unfold split
  rw [hwhole]
  dsimp only
  rw [hsplit]
  rfl

/-- A text of lines that can be read back executes nothing exactly if it has no statement. -/
theorem isInert_text {ls : List MigrationLine} (h : ∀ l ∈ ls, l.Readable) :
    isInert (textOf ls) = true ↔ ls.filterMap MigrationLine.origin? = [] := by
  obtain ⟨statements, hsplit, hids⟩ := split_text h
  unfold isInert
  rw [hsplit]
  dsimp only
  unfold identities at hids
  rw [List.isEmpty_iff, ← List.map_eq_nil_iff (f := (·.hash)), hids, List.map_eq_nil_iff]

end SchemaDrift
