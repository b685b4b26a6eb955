/-
  SchemaDrift.Proofs.Sql.Coverage
  ───────────────────────────────
  **SPLITTING LOSES NOTHING, REPEATS NOTHING AND INVENTS NOTHING.**

  A text that is split is laid out as gaps with statements and marker lines between them.
  Nothing is said in the gaps, and every item fits the place it stands in (`Item.Fits`): a
  statement knows its line, and outside of manual statements it is self-contained; a marker
  line is a whole line.

      fit_pieces     the pieces of a region, one behind the other
      Marks          a text, marker line by marker line
      outline_fits   the regions between them, in turn
      split_covers   a whole text
-/

import SchemaDrift.Proofs.Except
import SchemaDrift.Proofs.Sql.Marking
import SchemaDrift.Proofs.Sql.Pieces

namespace SchemaDrift.Sql

open SchemaDrift.Text

/-! ## §1. A text laid out. -/

/-- What stands between the gaps of a text. -/
inductive Item where
  | statement (s : Statement)
  | marker (m : Marker) (line : List Char)
  deriving Repr, DecidableEq

namespace Item

/-- The text of the item; that of a marker line is without its line feed. -/
def text : Item → List Char
  | .statement s => s.raw.toList
  | .marker _ line => line

/-- The statement that the item is. -/
def statement? : Item → Option Statement
  | .statement s => some s
  | .marker _ _ => none

/-- The marker that the item is. -/
def mark? : Item → Option Marker
  | .statement _ => none
  | .marker m _ => some m

/-- A manual statement is open behind the item; `manual` tells whether one is before it. -/
def opens (manual : Bool) : Item → Bool
  | .statement _ => manual
  | .marker m _ => m = .start

end Item

/-- The statement can stand between `before` and what follows. -/
structure StatementFits (manual : Bool) (before : List Char) (s : Statement) : Prop where
  startLine : s.startLine = some (1 + lineFeeds before)
  /-- None of the lines that it stands in is a marker line, as far as it goes. -/
  unmarked : Unmarked [] ('\n' :: (lastLine before ++ s.raw.toList))
  selfContained : manual = false → SelfContained s.raw.toList

/-- The marker line is a whole line between `before` and `behind`. -/
structure MarkerFits (before behind : List Char) (m : Marker) (line : List Char) : Prop where
  marker : marker? line = some m
  inline : '\n' ∉ line
  starts : EndsLine before
  ends : ∀ c ∈ behind.head?, c = '\n'

/-- The item can stand between `before` and `behind`. -/
def Item.Fits (manual : Bool) (before behind : List Char) : Item → Prop
  | .statement s => StatementFits manual before s
  | .marker m line => MarkerFits before behind m line

/-- An item with the gap in front of it. -/
structure Placed where
  gap : List Char
  item : Item
  deriving Repr, DecidableEq

/-- The gap and the item behind it. -/
def Placed.text (p : Placed) : List Char := p.gap ++ p.item.text

/-- The text that some items are laid out to. -/
def laidOut (ps : List Placed) : List Char := ps.flatMap Placed.text

/-- Nothing is said in the gaps, and each item fits the place it stands in, with `before`
in front of all of them and `behind` behind. -/
def AllFit (manual : Bool) (before : List Char) : List Placed → List Char → Prop
  | [], _ => True
  | p :: ps, behind => normalize p.gap = []
      ∧ p.item.Fits manual (before ++ p.gap) (laidOut ps ++ behind)
      ∧ AllFit (p.item.opens manual) (before ++ p.text) ps behind

/-- The text is laid out as these items, with `rest` behind them: they are the statements
and all the marker lines of the text, and nothing else is said in it. -/
structure Covers (t : List Char) (ss : List Statement) (ps : List Placed) (rest : List Char) :
    Prop where
  whole : t = laidOut ps ++ rest
  statements : ps.filterMap (·.item.statement?) = ss
  markers : ps.filterMap (·.item.mark?) = (lines t).filterMap marker?
  inert : normalize rest = []
  fits : AllFit false [] ps rest

theorem laidOut_cons (p : Placed) (ps : List Placed) :
    laidOut (p :: ps) = p.gap ++ (p.item.text ++ laidOut ps) := by
  unfold laidOut
  rw [List.flatMap_cons, Placed.text, List.append_assoc]

theorem laidOut_append (ps qs : List Placed) : laidOut (ps ++ qs) = laidOut ps ++ laidOut qs :=
  List.flatMap_append

/-- Items behind statements. -/
theorem AllFit.append {manual : Bool} {before behind : List Char} {ps qs : List Placed}
    (hps : ∀ p ∈ ps, p.item.mark? = none) (h : AllFit manual before ps (laidOut qs ++ behind))
    (hqs : AllFit manual (before ++ laidOut ps) qs behind) :
    AllFit manual before (ps ++ qs) behind := by
  induction ps generalizing before with
  | nil =>
    rw [show laidOut [] = [] from rfl, List.append_nil] at hqs
    exact hqs
  | cons p ps ih =>
    obtain ⟨hgap, hfits, hrest⟩ := h
    have hopens : p.item.opens manual = manual := by
      have hmark := hps p List.mem_cons_self
      cases hitem : p.item with
      | statement s => rfl
      | marker m line =>
        rw [hitem] at hmark
        cases hmark
    rw [hopens] at hrest
    rw [laidOut_cons, ← List.append_assoc, ← List.append_assoc] at hqs
    refine ⟨hgap, ?_, ?_⟩
    · rw [show laidOut (ps.append qs) = laidOut ps ++ laidOut qs from laidOut_append ps qs,
        List.append_assoc]
      exact hfits
    · rw [hopens]
      refine ih (fun q hq => hps q (List.mem_cons_of_mem _ hq)) hrest ?_
      unfold Placed.text
      rw [← List.append_assoc]
      exact hqs

/-- **Every statement among the items stands in the text**, and fits its place. -/
theorem AllFit.statement {manual : Bool} {before behind : List Char} {ps : List Placed}
    (h : AllFit manual before ps behind) {s : Statement}
    (hs : s ∈ ps.filterMap (·.item.statement?)) :
    ∃ inside pre post, before ++ (laidOut ps ++ behind) = pre ++ (s.raw.toList ++ post)
      ∧ StatementFits inside pre s := by
  induction ps generalizing manual before with
  | nil => cases hs
  | cons p ps ih =>
    obtain ⟨-, hfits, hrest⟩ := h
    rw [laidOut_cons]
    cases hitem : p.item with
    | statement s' =>
      rw [hitem] at hfits
      rw [List.filterMap_cons_some (b := s') (by rw [hitem]; rfl)] at hs
      rcases List.mem_cons.1 hs with rfl | hs
      · exact ⟨manual, before ++ p.gap, laidOut ps ++ behind, by simp [Item.text], hfits⟩
      · obtain ⟨inside, pre, post, htext, hfit⟩ := ih hrest hs
        refine ⟨inside, pre, post, ?_, hfit⟩
        rw [← htext, Placed.text, hitem]
        simp
    | marker m line =>
      rw [List.filterMap_cons_none (by rw [hitem]; rfl)] at hs
      obtain ⟨inside, pre, post, htext, hfit⟩ := ih hrest hs
      refine ⟨inside, pre, post, ?_, hfit⟩
      rw [← htext, Placed.text, hitem]
      simp

/-! ## §2. Pieces. -/

/-- Texts that say nothing say nothing together, if the second is read afresh. -/
theorem normalize_append_eq_nil {q p : List Char} (hsettled : Settled q) (hq : normalize q = [])
    (hp : normalize p = []) : normalize (q ++ p) = [] := by
  by_contra h
  obtain ⟨g, hg, hsaid⟩ := normalize_ne_nil.1 h
  rw [hsettled] at hg
  rcases List.mem_append.1 hg with hg | hg
  · exact normalize_ne_nil.2 ⟨g, hg, hsaid⟩ hq
  · exact normalize_ne_nil.2 ⟨g, hg, hsaid⟩ hp

theorem normalize_blanks {b : List Char} (hb : ∀ c ∈ b, isBlank c = true) : normalize b = [] :=
  normalize_append_right hb []

theorem lineFeeds_append (a b : List Char) : lineFeeds (a ++ b) = lineFeeds a + lineFeeds b :=
  List.count_append

/-- A piece says nothing, or it is a statement. -/
theorem statementOf?_cases (line : Nat) (p : List Char) :
    normalize p = [] ∧ statementOf? line p = none
      ∨ normalize p ≠ [] ∧ statementOf? line p = some
        ⟨String.ofList (trim p), some (line + lineFeeds (p.takeWhile isBlank))⟩ := by
  unfold statementOf? Statement.isEmpty
  dsimp only
  rw [String.toList_ofList, normalize_trim]
  by_cases h : normalize p = []
  · left
    rw [h]
    exact ⟨rfl, rfl⟩
  · right
    rw [List.isEmpty_eq_false_iff.2 h]
    exact ⟨h, rfl⟩

/-- A text without markers, up to the end of a word or a semicolon. -/
theorem Unmarked.front {a b : List Char} (h : Unmarked [] (a ++ b))
    (hend : atWordEnd b = true ∨ a.getLast? = some ';') : Unmarked [] a := by
  rcases hend with hend | hlast
  · exact h.left hend
  · rintro u v rfl
    by_contra hmarker
    rw [List.nil_append] at hmarker
    obtain ⟨i, w, r, rfl, -, -, hw, hmore⟩ := marker?_shape hmarker
    -- a marker up to its last letter would not end with the semicolon
    have hr : r ≠ [] := by
      rintro rfl
      have hend : (u ++ '\n' :: (i ++ '-' :: '-' :: (w ++ []))).getLast? = some 't' := by
        rw [List.append_nil, List.getLast?_append, List.getLast?_cons, List.getLast?_append,
          List.getLast?_cons, List.getLast?_cons, hw]
        rfl
      rw [hend] at hlast
      exact absurd hlast (by decide)
    refine hmore hr b ?_
    have hwhole := h u _ (by rw [List.append_assoc, List.cons_append])
    rwa [List.nil_append] at hwhole

/-- A text without markers behind the last line of another one: the part that follows it. -/
theorem Unmarked.behind_lastLine {before g x : List Char}
    (h : Unmarked [] ('\n' :: (lastLine before ++ (g ++ x)))) :
    Unmarked [] ('\n' :: (lastLine (before ++ g) ++ x)) := by
  obtain ⟨u, hu⟩ := lastLine_append before g
  rw [← List.append_assoc, ← List.cons_append, hu, List.append_assoc, List.cons_append] at h
  exact h.right

/-- A piece that says something ends as it does without white space, if with a semicolon. -/
theorem trim_ends {p b : List Char} (hp : normalize p ≠ [])
    (hb : p = p.takeWhile isBlank ++ (trim p ++ b)) (hblank : ∀ c ∈ b, isBlank c = true)
    (hlast : p.getLast? = some ';') : (trim p).getLast? = some ';' := by
  have hnil : trim p ≠ [] := by
    intro h
    rw [← normalize_trim, h] at hp
    exact hp rfl
  rw [hb, ← List.append_assoc] at hlast
  rcases List.eq_nil_or_concat b with rfl | ⟨b, c, rfl⟩
  · rw [List.append_nil, List.getLast?_append_of_ne_nil _ hnil] at hlast
    exact hlast
  · rw [List.concat_eq_append, ← List.append_assoc, List.getLast?_concat] at hlast
    have hc : isBlank c = true := hblank c (by simp)
    rw [Option.some.inj hlast] at hc
    exact absurd hc (by decide)

/-- The text behind `before` is laid out as these statements, and nothing else is said in it. -/
def LaidAs (manual : Bool) (before t : List Char) (ss : List Statement) : Prop :=
  ∃ xs rest, t = laidOut xs ++ rest ∧ xs.filterMap (·.item.statement?) = ss
    ∧ (∀ x ∈ xs, x.item.mark? = none) ∧ normalize rest = []
    ∧ ∀ behind, AllFit manual before xs behind

theorem LaidAs.nil {q : List Char} (hq : normalize q = []) (manual : Bool) (before : List Char) :
    LaidAs manual before q [] :=
  ⟨[], q, rfl, rfl, List.forall_mem_nil _, hq, fun _ => trivial⟩

theorem LaidAs.cons {manual : Bool} {before gap t : List Char} {s : Statement}
    {ss : List Statement} (hgap : normalize gap = [])
    (hs : StatementFits manual (before ++ gap) s)
    (h : LaidAs manual (before ++ (gap ++ s.raw.toList)) t ss) :
    LaidAs manual before (gap ++ (s.raw.toList ++ t)) (s :: ss) := by
  obtain ⟨xs, rest, rfl, rfl, hmarks, hrest, hfits⟩ := h
  refine ⟨⟨gap, .statement s⟩ :: xs, rest, ?_, rfl, ?_, hrest, ?_⟩
  · rw [laidOut_cons, List.append_assoc, List.append_assoc]
    rfl
  · exact List.forall_mem_cons.2 ⟨rfl, hmarks⟩
  · exact fun behind => ⟨hgap, hs, hfits behind⟩

/-- **The statements of pieces fit the places of the pieces**: `q` is what was read and said
nothing, and the pieces follow it. -/
theorem fit_pieces {manual : Bool} {before q : List Char} {ps : List (List Char)}
    (hsettled : ps ≠ [] → Settled q) (hq : normalize q = [])
    (hps : ∀ p ∈ ps.dropLast, Settled p ∧ p.getLast? = some ';')
    (hself : manual = false → ∀ p ∈ ps, SelfContained p)
    (hunmarked : Unmarked [] ('\n' :: (lastLine (before ++ q) ++ ps.flatten))) :
    LaidAs manual before (q ++ ps.flatten) (statementsOf (1 + lineFeeds (before ++ q)) ps) := by
  induction ps generalizing before q with
  | nil =>
    rw [List.flatten_nil, List.append_nil]
    exact LaidAs.nil hq manual before
  | cons p ps ih =>
    have hq' : Settled q := hsettled (List.cons_ne_nil p ps)
    have hp : ps ≠ [] → Settled p ∧ p.getLast? = some ';' := by
      intro hne
      refine hps p ?_
      rw [List.dropLast_cons_of_ne_nil hne]
      exact List.mem_cons_self
    have hrest : ∀ r ∈ ps.dropLast, Settled r ∧ r.getLast? = some ';' := by
      intro r hr
      have hne : ps ≠ [] := by
        rintro rfl
        cases hr
      refine hps r ?_
      rw [List.dropLast_cons_of_ne_nil hne]
      exact List.mem_cons_of_mem _ hr
    have hself' : manual = false → ∀ r ∈ ps, SelfContained r :=
      fun h r hr => hself h r (List.mem_cons_of_mem _ hr)
    rw [List.flatten_cons] at hunmarked ⊢
    rw [statementsOf]
    rcases statementOf?_cases (1 + lineFeeds (before ++ q)) p with ⟨hinert, hnone⟩ | ⟨hsaid, hsome⟩
    · -- the piece goes to the gap
      have hnext := ih (q := q ++ p) (fun hne => hq'.append (hp hne).1)
        (normalize_append_eq_nil hq' hq hinert) hrest hself'
        (by rw [← List.append_assoc]; exact hunmarked.behind_lastLine)
      rw [← List.append_assoc, lineFeeds_append _ p, ← Nat.add_assoc, List.append_assoc] at hnext
      rw [hnone]
      exact hnext
    · -- the piece is a statement, with white space of the gap in front and of the next behind
      obtain ⟨b, hb, hblank⟩ := trim_eq p
      have ha := isBlank_takeWhile p
      have hends : ps ≠ [] → (trim p).getLast? = some ';' :=
        fun hne => trim_ends hsaid hb hblank (hp hne).2
      generalize p.takeWhile isBlank = a at hb ha hsome
      rw [hsome]
      generalize hs : (⟨String.ofList (trim p), some (1 + lineFeeds (before ++ q) + lineFeeds a)⟩
        : Statement) = s
      have hraw : s.raw.toList = trim p := by
        rw [← hs]
        exact String.toList_ofList
      have hshape : q ++ (p ++ ps.flatten) = (q ++ a) ++ (s.raw.toList ++ (b ++ ps.flatten)) := by
        rw [hraw]
        conv_lhs => rw [hb]
        simp only [List.append_assoc]
      have hfeeds : 1 + lineFeeds (before ++ q) + lineFeeds p
          = 1 + lineFeeds (before ++ (q ++ a ++ s.raw.toList) ++ b) := by
        rw [hraw]
        conv_lhs => rw [hb]
        simp only [lineFeeds_append]
        omega
      have hline : Unmarked [] ('\n' :: (lastLine (before ++ (q ++ a))
          ++ (s.raw.toList ++ (b ++ ps.flatten)))) := by
        rw [← List.append_assoc before]
        refine Unmarked.behind_lastLine ?_
        rw [hb] at hunmarked
        rw [hraw]
        simpa only [List.append_assoc] using hunmarked
      rw [hshape, hfeeds]
      refine LaidAs.cons (by rw [normalize_append_right ha]; exact hq) ⟨?_, ?_, ?_⟩ ?_
      · rw [← hs, ← List.append_assoc, lineFeeds_append _ a, Nat.add_assoc]
      · rw [← List.append_assoc (lastLine _), ← List.cons_append] at hline
        refine hline.front ?_
        cases ps with
        | nil =>
          left
          rw [List.flatten_nil, List.append_nil]
          exact atWordEnd_of_blanks hblank
        | cons r ps =>
          right
          rw [hraw, ← List.cons_append, List.getLast?_append, hends (List.cons_ne_nil r ps)]
          rfl
      · intro hmanual
        rw [hraw]
        exact (hself hmanual p List.mem_cons_self).trim
      · refine ih (fun _ => settled_blanks hblank) (normalize_blanks hblank) hrest hself' ?_
        have hbehind : Unmarked [] ('\n' :: (lastLine (before ++ (q ++ a))
            ++ ((s.raw.toList ++ b) ++ ps.flatten))) := by
          rw [List.append_assoc]
          exact hline
        have hlast := hbehind.behind_lastLine
        simpa only [List.append_assoc] using hlast

/-! ## §3. Regions. -/

/-- What a region is cut into. -/
def cutPieces (manual : Bool) (t : List Char) : List (List Char) :=
  if manual then [t] else pieces t

/-- A region that has statements has those of its pieces, and leaves nothing open. -/
theorem statements_eq_ok {manual : Bool} {line : Nat} {t : List Char} {ss : List Statement}
    (h : (Region.mk manual line t).statements = .ok ss) :
    ss = statementsOf line (cutPieces manual t) ∧ (manual = false → unclosed? t = none) := by
  unfold Region.statements at h
  dsimp only at h
  unfold cutPieces
  cases manual with
  | true =>
    rw [if_pos rfl] at h ⊢
    exact ⟨(Except.ok.inj h).symm, fun hm => by cases hm⟩
  | false =>
    rw [if_neg Bool.false_ne_true] at h ⊢
    cases hopen : unclosed? t with
    | some o =>
      rw [hopen] at h
      cases h
    | none =>
      rw [hopen] at h
      exact ⟨(Except.ok.inj h).symm, fun _ => rfl⟩

/-- A line feed in front of the first piece is no part of a statement. -/
theorem statementsOf_feed (line : Nat) (p : List Char) (ps : List (List Char)) :
    statementsOf line (('\n' :: p) :: ps) = statementsOf (line + 1) (p :: ps) := by
  have hfirst : statementOf? line ('\n' :: p) = statementOf? (line + 1) p := by
    have htrim : trim ('\n' :: p) = trim p := by
      unfold trim trimStart
      rw [List.dropWhile_cons, if_pos (by decide)]
    have hfeeds : line + lineFeeds (('\n' :: p).takeWhile isBlank)
        = line + 1 + lineFeeds (p.takeWhile isBlank) := by
      rw [List.takeWhile_cons, if_pos (by decide)]
      unfold lineFeeds
      rw [List.count_cons_self]
      omega
    unfold statementOf?
    rw [htrim, hfeeds]
  have hline : line + lineFeeds ('\n' :: p) = line + 1 + lineFeeds p := by
    unfold lineFeeds
    rw [List.count_cons_self]
    omega
  rw [statementsOf, statementsOf, hfirst, hline]

/-- A line feed in front of a text is one in front of its first piece. -/
theorem pieces_feed (t : List Char) :
    pieces ('\n' :: t) = match pieces t with
      | [] => [['\n']]
      | p :: ps => ('\n' :: p) :: ps := by
  have hfeed : ∀ c ∈ ['\n'], isBlank c = true := forall_chars (by decide)
  have hclassify : classify ('\n' :: t) = ⟨'\n', .code⟩ :: classify t := by
    have h := settled_blanks hfeed t
    rw [classify_blanks hfeed] at h
    exact h
  unfold pieces
  rw [hclassify, splitAfter]
  cases splitAfter (·.isCode ';') (classify t) with
  | nil => rfl
  | cons p ps => rfl

/-- So a line feed in front of a region only counts. -/
theorem cutPieces_feed (manual : Bool) (line : Nat) (t : List Char) :
    statementsOf line (cutPieces manual ('\n' :: t))
      = statementsOf (line + 1) (cutPieces manual t) := by
  cases manual with
  | true => exact statementsOf_feed line t []
  | false =>
    unfold cutPieces
    rw [if_neg Bool.false_ne_true, if_neg Bool.false_ne_true, pieces_feed]
    cases hp : pieces t with
    | nil => rfl
    | cons p ps => exact statementsOf_feed line p ps

theorem unclosed?_feed {t : List Char} (h : unclosed? ('\n' :: t) = none) : unclosed? t = none := by
  have hfeed : ∀ c ∈ ['\n'], isBlank c = true := forall_chars (by decide)
  obtain ⟨-, hfresh⟩ := Lexer.fresh_blanks (q := t) Lexer.fresh_start hfeed
  have hpast := (Lexer.alike_reads (Lexer.alike_start hfresh) t []).2
  rw [Lexer.past_whole, Lexer.past_whole, ← Lexer.after_append] at hpast
  rw [unclosed?_eq_none] at h ⊢
  rw [← hpast.mode]
  exact h

/-- **The statements of a region fit their places in it**, with or without the line feed of a
marker line in front of it. -/
theorem fit_region {manual : Bool} {line : Nat} {before lead t : List Char} {ss : List Statement}
    (hlead : lead = [] ∨ lead = ['\n']) (hline : line = 1 + lineFeeds before)
    (hstart : EndsLine (before ++ lead)) (hlines : ∀ l ∈ lines t, marker? l = none)
    (h : (Region.mk manual line (lead ++ t)).statements = .ok ss) :
    LaidAs manual before (lead ++ t) ss := by
  obtain ⟨hss, hclosed⟩ := statements_eq_ok h
  -- the feed in front of a region says nothing and counts one line
  have hnumber : statementsOf line (cutPieces manual (lead ++ t))
      = statementsOf (1 + lineFeeds (before ++ lead)) (cutPieces manual t) := by
    rw [hline]
    rcases hlead with rfl | rfl
    · rw [List.append_nil]
      rfl
    · rw [show ['\n'] ++ t = '\n' :: t from rfl, cutPieces_feed, lineFeeds_append]
      rfl
  have hclosed' : manual = false → unclosed? t = none := by
    intro hm
    rcases hlead with rfl | rfl
    · exact hclosed hm
    · exact unclosed?_feed (hclosed hm)
  have hblank : ∀ c ∈ lead, isBlank c = true := by
    rcases hlead with rfl | rfl
    · exact List.forall_mem_nil _
    · exact forall_chars (by decide)
  have hflatten : (cutPieces manual t).flatten = t := by
    unfold cutPieces
    split
    · simp
    · exact flatten_pieces t
  have hsettled : ∀ p ∈ (cutPieces manual t).dropLast, Settled p ∧ p.getLast? = some ';' := by
    unfold cutPieces
    split
    · exact List.forall_mem_nil _
    · exact pieces_settled t
  have hself : manual = false → ∀ p ∈ cutPieces manual t, SelfContained p := by
    intro hm
    unfold cutPieces
    rw [hm, if_neg Bool.false_ne_true]
    exact pieces_selfContained (hclosed' hm)
  have hunmarked : Unmarked [] ('\n' :: (lastLine (before ++ lead)
      ++ (cutPieces manual t).flatten)) := by
    rw [lastLine_of_endsLine hstart, hflatten]
    exact (unmarked_iff_lines rfl).2 hlines
  have hlaid := fit_pieces (fun _ => settled_blanks hblank) (normalize_blanks hblank) hsettled
    hself hunmarked
  rw [hflatten] at hlaid
  rw [hss, hnumber]
  exact hlaid

/-! ## §4. Marker lines. -/

/-- The text, which begins in line `number`, has `text` up to its first marker line, and the
marks from there on. -/
inductive Marks : Nat → List Char → List Mark → List Char → Prop where
  | none {number : Nat} {text : List Char} (hlines : ∀ l ∈ lines text, marker? l = none) :
    Marks number text [] text
  /-- The last line is a marker. -/
  | last {number : Nat} {text line : List Char} {m : Marker}
    (hlines : ∀ l ∈ lines text, marker? l = none) (hends : EndsLine text)
    (hline : marker? line = some m) (hfeed : '\n' ∉ line) :
    Marks number text [⟨m, number + lineFeeds text, []⟩] (text ++ line)
  /-- Lines follow a marker. -/
  | line {number : Nat} {text line text' t : List Char} {m : Marker} {marks : List Mark}
    (hlines : ∀ l ∈ lines text, marker? l = none) (hends : EndsLine text)
    (hline : marker? line = some m) (hfeed : '\n' ∉ line)
    (h : Marks (number + lineFeeds text + 1) text' marks t) :
    Marks number text (⟨m, number + lineFeeds text, '\n' :: text'⟩ :: marks)
      (text ++ (line ++ '\n' :: t))

/-- A marker on the first line. -/
theorem Marks.last_first {line : List Char} {m : Marker} (hline : marker? line = some m)
    (hfeed : '\n' ∉ line) (number : Nat) : Marks number [] [⟨m, number, []⟩] line := by
  have hmarks : Marks number [] [⟨m, number + lineFeeds [], []⟩] ([] ++ line) :=
    .last (List.forall_mem_nil _) (Or.inl rfl) hline hfeed
  exact hmarks

theorem Marks.line_first {number : Nat} {line text t : List Char} {m : Marker} {marks : List Mark}
    (hline : marker? line = some m) (hfeed : '\n' ∉ line) (h : Marks (number + 1) text marks t) :
    Marks number [] (⟨m, number, '\n' :: text⟩ :: marks) (line ++ '\n' :: t) := by
  have hmarks : Marks number [] (⟨m, number + lineFeeds [], '\n' :: text⟩ :: marks)
      ([] ++ (line ++ '\n' :: t)) :=
    .line (List.forall_mem_nil _) (Or.inl rfl) hline hfeed h
  exact hmarks

/-- A line that is no marker, in front of a text. -/
theorem Marks.unmarked_line {number : Nat} {a text t : List Char} {marks : List Mark}
    (ha : '\n' ∉ a) (hmarker : marker? (a ++ ['\n']) = Option.none)
    (h : Marks (number + 1) text marks t) :
    Marks number (a ++ '\n' :: text) marks (a ++ '\n' :: t) := by
  have hlines : ∀ {text : List Char}, (∀ l ∈ lines text, marker? l = Option.none) →
      ∀ l ∈ lines (a ++ '\n' :: text), marker? l = Option.none := by
    intro text hlines
    rw [lines_line ha]
    exact List.forall_mem_cons.2 ⟨hmarker, hlines⟩
  have hends : ∀ {text : List Char}, EndsLine text → EndsLine (a ++ '\n' :: text) := by
    intro text hends
    right
    rw [List.getLast?_append, List.getLast?_cons]
    rcases hends with rfl | hends
    · rfl
    · rw [hends]
      rfl
  have hnumber : ∀ text, number + 1 + lineFeeds text = number + lineFeeds (a ++ '\n' :: text) := by
    intro text
    have hzero : lineFeeds a = 0 := List.count_eq_zero.2 ha
    rw [lineFeeds_append, hzero]
    unfold lineFeeds
    rw [List.count_cons_self]
    omega
  -- the line goes to the text in front of the first marker line
  cases h with
  | none h => exact .none (hlines h)
  | @last _ text line m h hend hline hfeed =>
    rw [hnumber, ← List.cons_append, ← List.append_assoc]
    exact .last (hlines h) (hends hend) hline hfeed
  | @line _ text line text' t m marks h hend hline hfeed hrest =>
    rw [hnumber] at hrest ⊢
    rw [← List.cons_append, ← List.append_assoc]
    exact .line (hlines h) (hends hend) hline hfeed hrest

/-- **Every text is cut at its marker lines.** -/
theorem marks_marksFrom (t : List Char) (number : Nat) :
    Marks number (marksFrom number (lines t)).1 (marksFrom number (lines t)).2 t := by
  -- by lines: each goes to the text that is open, or is a marker line of its own
  induction t using lines_rec generalizing number with
  | nil => exact .none (List.forall_mem_nil _)
  | last a ha hne =>
    rw [lines_last ha hne, marksFrom]
    cases hmarker : marker? a with
    | none =>
      dsimp only [marksFrom]
      rw [List.append_nil]
      refine .none ?_
      rw [lines_last ha hne]
      exact List.forall_mem_singleton.2 hmarker
    | some m =>
      have hlast : a.getLast? ≠ some '\n' := fun h => ha (List.mem_of_getLast? h)
      dsimp only [marksFrom]
      rw [if_neg hlast]
      exact Marks.last_first hmarker ha number
  | line a b ha ih =>
    rw [lines_line ha, marksFrom]
    cases hmarker : marker? (a ++ ['\n']) with
    | none =>
      dsimp only
      rw [List.append_assoc]
      exact (ih (number + 1)).unmarked_line ha hmarker
    | some m =>
      dsimp only
      rw [if_pos (List.getLast?_concat ..)]
      rw [marker?_append (breaks_feed [])] at hmarker
      exact Marks.line_first hmarker ha (ih (number + 1))

/-- The marks are those of the marker lines. -/
theorem markers_marksFrom (number : Nat) (ls : List (List Char)) :
    (marksFrom number ls).2.map Mark.marker = ls.filterMap marker? := by
  induction ls generalizing number with
  | nil => rfl
  | cons l ls ih =>
    rw [marksFrom]
    cases hmarker : marker? l with
    | none =>
      rw [List.filterMap_cons_none hmarker]
      exact ih (number + 1)
    | some m =>
      rw [List.filterMap_cons_some hmarker, ← ih (number + 1)]
      rfl

/-! ## §5. Outlines. -/

/-- Where no marker is misplaced, the last region is not manual. -/
theorem outlineFrom_nil_ok {r : Region} {regions : List Region}
    (h : outlineFrom r [] = ⟨regions, none⟩) : r.manual = false ∧ regions = [r] := by
  unfold outlineFrom at h
  cases hm : r.manual with
  | true =>
    rw [hm] at h
    cases h
  | false =>
    rw [hm] at h
    cases h
    exact ⟨rfl, rfl⟩

/-- Where no marker is misplaced, regions take turns in being manual. -/
theorem outlineFrom_cons_ok {r : Region} {m : Mark} {marks : List Mark} {regions : List Region}
    (h : outlineFrom r (m :: marks) = ⟨regions, none⟩) :
    (m.marker = if r.manual then .finish else .start)
      ∧ ∃ rest, regions = r :: rest
        ∧ outlineFrom ⟨!r.manual, m.line, m.text⟩ marks = ⟨rest, none⟩ := by
  unfold outlineFrom at h
  cases hmarker : m.marker with
  | start =>
    cases hm : r.manual with
    | true =>
      rw [hmarker, hm] at h
      cases h
    | false =>
      rw [hmarker, hm] at h
      obtain ⟨hregions, hfault⟩ := Outline.mk.inj h
      exact ⟨rfl, _, hregions.symm, by rw [← hfault]⟩
  | finish =>
    cases hm : r.manual with
    | true =>
      rw [hmarker, hm] at h
      obtain ⟨hregions, hfault⟩ := Outline.mk.inj h
      exact ⟨rfl, _, hregions.symm, by rw [← hfault]⟩
    | false =>
      rw [hmarker, hm] at h
      cases h

theorem splitRegions_cons_ok {r : Region} {rs : List Region} {ss : List Statement} :
    splitRegions (r :: rs) = .ok ss ↔
      ∃ here behind, r.statements = .ok here ∧ splitRegions rs = .ok behind
        ∧ ss = here ++ behind := by
  rw [splitRegions, bind_eq_ok]
  constructor
  · rintro ⟨here, hhere, h⟩
    obtain ⟨behind, hbehind, h⟩ := bind_eq_ok.1 h
    exact ⟨here, behind, hhere, hbehind, (Except.ok.inj h).symm⟩
  · rintro ⟨here, behind, hhere, hbehind, rfl⟩
    exact ⟨here, hhere, bind_eq_ok.2 ⟨behind, hbehind, rfl⟩⟩

/-- A text splits into the statements of its regions, if no marker is misplaced. -/
theorem split_ok {t : List Char} {ss : List Statement} : split t = .ok ss ↔
    (outline t).fault = none ∧ splitRegions (outline t).regions = .ok ss := by
  unfold split
  rw [bind_eq_ok]
  constructor
  · rintro ⟨statements, hregions, h⟩
    split at h
    · cases h
    · next hfault => exact ⟨hfault, hregions.trans h⟩
  · rintro ⟨hfault, hregions⟩
    refine ⟨ss, hregions, ?_⟩
    rw [hfault]

theorem split_eq_ok {t : List Char} {ss : List Statement} (h : split t = .ok ss) :
    ∃ regions, outline t = ⟨regions, none⟩ ∧ splitRegions regions = .ok ss := by
  obtain ⟨hfault, hregions⟩ := split_ok.1 h
  exact ⟨(outline t).regions, by rw [← hfault], hregions⟩

/-- A marker line behind the statements of a region, with items that fit behind it. -/
theorem LaidAs.marker {manual : Bool} {before t line : List Char} {m : Marker}
    {here : List Statement} {ps : List Placed} {rest : List Char}
    (h : LaidAs manual before t here)
    (hmarker : MarkerFits (before ++ t) (laidOut ps ++ rest) m line)
    (hps : AllFit (m = .start) (before ++ (t ++ line)) ps rest) :
    ∃ qs, t ++ (line ++ (laidOut ps ++ rest)) = laidOut qs ++ rest
      ∧ qs.filterMap (·.item.statement?) = here ++ ps.filterMap (·.item.statement?)
      ∧ qs.filterMap (·.item.mark?) = m :: ps.filterMap (·.item.mark?)
      ∧ AllFit manual before qs rest := by
  obtain ⟨xs, gap, rfl, rfl, hmarks, hgap, hfits⟩ := h
  have hnone : xs.filterMap (·.item.mark?) = [] := List.filterMap_eq_nil_iff.2 hmarks
  refine ⟨xs ++ ⟨gap, .marker m line⟩ :: ps, ?_, ?_, ?_, ?_⟩
  · rw [laidOut_append, laidOut_cons, List.append_assoc, List.append_assoc, List.append_assoc,
      List.append_assoc]
    rfl
  · rw [List.filterMap_append]
    rfl
  · rw [List.filterMap_append, hnone]
    rfl
  · refine AllFit.append hmarks (hfits _) ⟨hgap, ?_, ?_⟩
    · rw [← List.append_assoc] at hmarker
      exact hmarker
    · rw [List.append_assoc, ← List.append_assoc before] at hps
      exact hps

/-- **The statements of the regions between marks fit their places**, and so do the marker
lines; `lead` is the line feed of the marker line in front, if there is one. -/
theorem outline_fits {number line : Nat} {text t : List Char} {marks : List Mark}
    (h : Marks number text marks t) {manual : Bool} {before lead : List Char}
    {regions : List Region} {ss : List Statement} (hlead : lead = [] ∨ lead = ['\n'])
    (hline : line = 1 + lineFeeds before) (hnumber : number = 1 + lineFeeds (before ++ lead))
    (hstart : EndsLine (before ++ lead))
    (houtline : outlineFrom ⟨manual, line, lead ++ text⟩ marks = ⟨regions, none⟩)
    (hsplit : splitRegions regions = .ok ss) :
    ∃ ps rest, lead ++ t = laidOut ps ++ rest ∧ ps.filterMap (·.item.statement?) = ss
      ∧ ps.filterMap (·.item.mark?) = marks.map Mark.marker ∧ normalize rest = []
      ∧ AllFit manual before ps rest := by
  induction h generalizing line manual before lead regions ss with
  | none hlines =>
    obtain ⟨-, rfl⟩ := outlineFrom_nil_ok houtline
    obtain ⟨here, behind, hhere, hbehind, rfl⟩ := splitRegions_cons_ok.1 hsplit
    obtain ⟨xs, rest, htext, hss, hmarks, hrest, hfits⟩ :=
      fit_region hlead hline hstart hlines hhere
    rw [← Except.ok.inj hbehind, List.append_nil]
    refine ⟨xs, rest, htext, hss, ?_, hrest, hfits rest⟩
    rw [List.map_nil, List.filterMap_eq_nil_iff]
    exact hmarks
  | @last number text markerLine m hlines hend hmark hfeed =>
    obtain ⟨-, regions, rfl, hbehind⟩ := outlineFrom_cons_ok houtline
    obtain ⟨-, rfl⟩ := outlineFrom_nil_ok hbehind
    obtain ⟨here, ss, hhere, hss, rfl⟩ := splitRegions_cons_ok.1 hsplit
    obtain ⟨nothing, behind, hnothing, hdone, rfl⟩ := splitRegions_cons_ok.1 hss
    have hmarker : MarkerFits (before ++ (lead ++ text)) (laidOut [] ++ []) m markerLine :=
      ⟨hmark, hfeed, hstart.append_lines hend, by simp [laidOut]⟩
    obtain ⟨qs, htext, hstatements, hmarks, hfits⟩ :=
      (fit_region hlead hline hstart hlines hhere).marker hmarker trivial
    -- there is no statement behind the last line
    have hnone : nothing ++ behind = [] := by
      rw [← Except.ok.inj hdone, (statements_eq_ok hnothing).1, List.append_nil]
      unfold cutPieces
      split
      · rfl
      · rfl
    refine ⟨qs, [], ?_, ?_, hmarks, rfl, hfits⟩
    · rw [← htext, List.append_assoc]
      simp [laidOut]
    · rw [hstatements, hnone]
      rfl
  | @line number text markerLine text' t m marks hlines hend hmark hfeed hmore ih =>
    obtain ⟨hm, regions, rfl, hbehind⟩ := outlineFrom_cons_ok houtline
    obtain ⟨here, ss, hhere, hss, rfl⟩ := splitRegions_cons_ok.1 hsplit
    have hopens : decide (m = .start) = !manual := by
      rw [show m = _ from hm]
      cases manual
      · rfl
      · rfl
    have hfeeds : lineFeeds markerLine = 0 := List.count_eq_zero.2 hfeed
    have hline' : number + lineFeeds text
        = 1 + lineFeeds (before ++ (lead ++ text ++ markerLine)) := by
      rw [hnumber]
      simp only [lineFeeds_append]
      omega
    have hnumber' : number + lineFeeds text + 1
        = 1 + lineFeeds (before ++ (lead ++ text ++ markerLine) ++ ['\n']) := by
      rw [hline', lineFeeds_append _ ['\n']]
      rfl
    have hstart' : EndsLine (before ++ (lead ++ text ++ markerLine) ++ ['\n']) :=
      Or.inr (List.getLast?_concat ..)
    obtain ⟨ps, rest, htail, hstatements, hmarks, hinert, hfits⟩ :=
      ih (Or.inr rfl) hline' hnumber' hstart' hbehind hss
    rw [← hopens] at hfits
    obtain ⟨qs, htext, hstatements', hmarks', hfits'⟩ :=
      (fit_region hlead hline hstart hlines hhere).marker
        ⟨hmark, hfeed, hstart.append_lines hend, by rw [← htail]; simp⟩ hfits
    refine ⟨qs, rest, ?_, ?_, ?_, hinert, hfits'⟩
    · rw [← htext, ← htail, List.append_assoc]
      rfl
    · rw [hstatements', hstatements]
    · rw [hmarks', hmarks]
      rfl

/-- A text that splits is laid out as its statements and its marker lines. -/
theorem split_laid {t : List Char} {ss : List Statement} (h : split t = .ok ss) :
    ∃ ps rest, t = laidOut ps ++ rest ∧ ps.filterMap (·.item.statement?) = ss
      ∧ ps.filterMap (·.item.mark?) = (lines t).filterMap marker? ∧ normalize rest = []
      ∧ AllFit false [] ps rest := by
  obtain ⟨regions, houtline, hregions⟩ := split_eq_ok h
  have hline : 1 = 1 + lineFeeds [] := rfl
  have hstart : EndsLine [] := Or.inl rfl
  rw [← markers_marksFrom 1]
  exact outline_fits (marks_marksFrom t 1) (Or.inl rfl) hline hline hstart houtline hregions

/-- The statements that a text splits into stand in it, on lines that are no marker lines. -/
theorem split_fits {t : List Char} {ss : List Statement} (h : split t = .ok ss) {s : Statement}
    (hs : s ∈ ss) : ∃ inside pre post, t = pre ++ (s.raw.toList ++ post)
      ∧ StatementFits inside pre s := by
  obtain ⟨ps, rest, htext, rfl, -, -, hfits⟩ := split_laid h
  obtain ⟨inside, pre, post, hwhole, hfit⟩ := hfits.statement hs
  exact ⟨inside, pre, post, htext.trans hwhole, hfit⟩

/-- **A text that splits into statements is laid out as these and its marker lines, with gaps
between them in which nothing is said.**  In the order of the list each statement stands in
the text as it is, one plus the number of line feeds before it is its line, and unless it
stands in a manual statement nothing is open in it and it has no semicolon in code but as
its last character. -/
theorem split_covers {t : List Char} {ss : List Statement} (h : split t = .ok ss) :
    ∃ ps rest, Covers t ss ps rest := by
  obtain ⟨ps, rest, htext, hss, hmarks, hrest, hfits⟩ := split_laid h
  exact ⟨ps, rest, htext, hss, hmarks, hrest, hfits⟩

/-- Semicolons that are quoted, alone and in comments, and a manual statement that leaves a
literal open. -/
theorem split_covers_manual :
    let text := ("SELECT $$;$$; ;-- x;\n-- sqlsync: startStatement\nBEGIN; 'open\n"
      ++ "-- sqlsync: endStatement: 1\n\tSELECT 2 /* ; */").toList
    let ss : List Statement :=
      [⟨"SELECT $$;$$;", some 1⟩, ⟨"BEGIN; 'open", some 3⟩, ⟨"SELECT 2 /* ; */", some 5⟩]
    split text = .ok ss ∧ ∃ ps rest, Covers text ss ps rest := by
  intro text ss
  have hsplit : split text = .ok ss := toOption_eq_some.1 (by decide +kernel)
  exact ⟨hsplit, split_covers hsplit⟩

end SchemaDrift.Sql
