/-
  SchemaDrift.Proofs.Source.Deletion
  ──────────────────────────────────
  **BLOCK COMMENTS TAKEN OUT OF A FILE.**

  The statements of a plain file count as one, each closed on a line of its own.  A block comment
  that is set apart in the file, or stands right behind the end of a statement, can be taken out
  without changing what any of the statements says (`comment_deleted`): the pieces between the
  semicolons say the same without it, but for what closes the last of them (`sayingRows_delete`).
-/

import SchemaDrift.Proofs.Source.Relaid
import SchemaDrift.Proofs.Sql.Deletion
import SchemaDrift.Proofs.Sql.Exchange

namespace SchemaDrift

open SchemaDrift.Sql SchemaDrift.Text

/-! ## §1. Rows that say the same. -/

theorem not_saying_of_gap {g : Glyph} (hg : g.isGap = true) : g.isSaying = false := by
  unfold Glyph.isSaying
  rw [hg]
  rfl

theorem any_gaps {gs : List Glyph} (h : ∀ g ∈ gs, g.isGap = true) :
    gs.any Glyph.isSaying = false := by
  rw [List.any_eq_false]
  intro g hg hsaying
  rw [not_saying_of_gap (h g hg)] at hsaying
  cases hsaying

theorem any_core (gs : List Glyph) : (core gs).any Glyph.isSaying = gs.any Glyph.isSaying := by
  obtain ⟨a, b, hsplit, ha, hb⟩ := exists_core gs
  conv_rhs => rw [hsplit]
  rw [List.any_append, List.any_append, any_gaps ha, any_gaps hb, Bool.false_or, Bool.or_false]

theorem Sql.Respaced.any_saying {gs hs : List Glyph} (h : Respaced gs hs) :
    gs.any Glyph.isSaying = hs.any Glyph.isSaying := by
  induction h with
  | nil => rfl
  | same _ _ ih => rw [List.any_cons, List.any_cons, ih]
  | gap ha hb _ _ ih => rw [List.any_append, List.any_append, any_gaps ha.gaps, any_gaps hb.gaps, ih]

/-- Pieces that say the same, whatever the gaps around them, make the same rows. -/
theorem sayingRows_congr {row row' : List Glyph}
    (h : List.Forall₂ (fun x y => Respaced (core x) (core y)) (splitAfter (·.isCode ';') row)
      (splitAfter (·.isCode ';') row')) :
    List.Forall₂ Respaced (sayingRows row) (sayingRows row') := by
  unfold sayingRows
  generalize splitAfter (·.isCode ';') row = xs at h ⊢
  generalize splitAfter (·.isCode ';') row' = ys at h ⊢
  induction h with
  | nil => exact .nil
  | @cons x y xs ys hx _ ih =>
    have hany : x.any Glyph.isSaying = y.any Glyph.isSaying := by
      rw [← any_core x, ← any_core y, hx.any_saying]
    rw [List.filter_cons, List.filter_cons, hany]
    split
    · exact .cons hx ih
    · exact ih

/-! ## §2. Cutting behind semicolons. -/

/-- A list is cut where the first part of it ends in an element of the class. -/
theorem splitAfter_append {α : Type} {p : α → Bool} {l : List α} (h : ∀ a ∈ l.getLast?, p a = true)
    (r : List α) : splitAfter p (l ++ r) = splitAfter p l ++ splitAfter p r := by
  induction l with
  | nil => rfl
  | cons a l ih =>
    by_cases hnil : l = []
    · subst hnil
      have ha : p a = true := h a rfl
      rw [List.singleton_append]
      simp only [splitAfter, ha, if_true]
      rfl
    · have hbehind := ih fun b hb => h b (by rwa [List.getLast?_cons_of_ne_nil hnil])
      rw [List.cons_append, splitAfter, splitAfter, hbehind]
      cases hl : splitAfter p l with
      | nil =>
        have hflat := flatten_splitAfter p l
        rw [hl] at hflat
        exact absurd hflat.symm hnil
      | cons piece pieces => split <;> rfl

/-! ## §3. What closes a row. -/

theorem closes_not_saying {hs : List Glyph} (h : Closes hs) : hs.any Glyph.isSaying = false := by
  rw [List.any_eq_false]
  intro g hg hsaying
  unfold Glyph.isSaying at hsaying
  rcases h g hg with hgap | hclosing
  · rw [hgap] at hsaying
    cases hsaying
  · rw [hclosing, Bool.not_true, Bool.and_false] at hsaying
    cases hsaying

/-- A closed row without what closes it. -/
theorem closeRow_closes (m : List Glyph) {e : List Glyph} (he : Closes e) :
    ∃ e', closeRow (m ++ e) = m ++ e' ∧ Closes e' := by
  unfold closeRow
  split
  · exact ⟨e, rfl, he⟩
  · refine ⟨e ++ [⟨';', .code⟩], List.append_assoc .., fun h hh => ?_⟩
    rcases List.mem_append.1 hh with hh | hh
    · exact he h hh
    · rw [List.mem_singleton.1 hh]
      exact Or.inr rfl

/-- The core of a row, up to its last glyph `g` that is no gap and does not close it. -/
theorem core_closes (l : List Glyph) {g : Glyph} (hg : g.isGap = false) {x : List Glyph}
    (hx : Closes x) :
    ∃ e, core (l ++ g :: x) = (l ++ [g]).dropWhile Glyph.isGap ++ e ∧ Closes e := by
  have hfront := List.takeWhile_append_dropWhile (p := Glyph.isGap) (l := l ++ [g])
  have ha : ∀ h ∈ (l ++ [g]).takeWhile Glyph.isGap, h.isGap = true :=
    List.all_eq_true.1 List.all_takeWhile
  have hm := begins_dropWhile (l ++ [g])
  have hne : (l ++ [g]).dropWhile Glyph.isGap ≠ [] := by
    intro hnil
    rw [List.dropWhile_eq_nil_iff.1 hnil g (by simp)] at hg
    cases hg
  generalize (l ++ [g]).takeWhile Glyph.isGap = a at hfront ha
  generalize (l ++ [g]).dropWhile Glyph.isGap = m at hfront hm hne ⊢
  have hlast : m.getLast? = some g := by
    have h := congrArg List.getLast? hfront
    rwa [List.getLast?_append_of_ne_nil _ hne, List.getLast?_concat] at h
  -- the gaps at the end, which the core leaves out
  have hback := List.takeWhile_append_dropWhile (p := Glyph.isGap) (l := x.reverse)
  have hb : ∀ h ∈ x.reverse.takeWhile Glyph.isGap, h.isGap = true :=
    List.all_eq_true.1 List.all_takeWhile
  have he := begins_dropWhile x.reverse
  generalize x.reverse.takeWhile Glyph.isGap = b at hback hb
  generalize x.reverse.dropWhile Glyph.isGap = e at hback he
  have hx' : x = e.reverse ++ b.reverse := by
    rw [← List.reverse_append, hback, List.reverse_reverse]
  refine ⟨e.reverse, ?_, fun h hh => hx h (by rw [hx']; exact List.mem_append_left _ hh)⟩
  have hwhole : l ++ g :: x = a ++ ((m ++ e.reverse) ++ b.reverse) := by
    rw [List.append_cons, ← hfront, hx']
    simp only [List.append_assoc]
  rw [hwhole]
  refine core_eq ha (fun h hh => hb h (List.mem_reverse.1 hh)) ?_ ?_
  · intro h hh
    rw [List.head?_append_of_ne_nil _ hne] at hh
    exact hm h hh
  · rw [List.reverse_append, List.reverse_reverse]
    intro h hh
    cases e with
    | nil =>
      rw [List.nil_append, List.head?_reverse, hlast] at hh
      cases hh
      exact hg
    | cons y e => exact he h hh

/-! ## §4. Rows with and without a comment. -/

/-- The normal form of what a row says. -/
def normalRow (gs : List Glyph) : List Char := trimEndWhile isClosing (squeeze false false gs)

/-- The rows say the same, but for what closes the last of them. -/
def RowsAlike (rows rows' : List (List Glyph)) : Prop :=
  List.Forall₂ Respaced rows rows'
    ∨ ∃ front m e e', rows = front ++ [m ++ e] ∧ rows' = front ++ [m ++ e'] ∧ Closes e ∧ Closes e'

theorem RowsAlike.symm {rows rows' : List (List Glyph)} (h : RowsAlike rows rows') :
    RowsAlike rows' rows := by
  rcases h with h | ⟨front, m, e, e', hrows, hrows', he, he'⟩
  · exact Or.inl (h.flip.imp fun _ _ hx => hx.symm)
  · exact Or.inr ⟨front, m, e', e, hrows', hrows, he', he⟩

theorem RowsAlike.normal {rows rows' : List (List Glyph)} (h : RowsAlike rows rows')
    (hends : ∀ row ∈ rows, Begins row.reverse) : rows.map normalRow = rows'.map normalRow
      ∧ normalRow (joinRows rows) = normalRow (joinRows rows') := by
  rcases h with h | ⟨front, m, e, e', rfl, rfl, he, he'⟩
  · refine ⟨?_, congrArg (trimEndWhile isClosing) ((joinRows_respaced h hends).squeeze_eq _ _)⟩
    clear hends
    induction h with
    | nil => rfl
    | cons hx _ ih =>
      rw [List.map_cons, List.map_cons, ih]
      exact congrArg (· :: _) (congrArg (trimEndWhile isClosing) (hx.squeeze_eq _ _))
  · have hsame : ∀ {x : List Glyph} (l : List Glyph), Closes x → normalRow (l ++ x) = normalRow l :=
      fun _ hx => normal_append hx
    constructor
    · rw [List.map_append, List.map_append, List.map_singleton, List.map_singleton, hsame m he,
        hsame m he']
    · obtain ⟨rest, hrest⟩ := exists_joinRows_concat front
      obtain ⟨x, hx, hclosing⟩ := closeRow_closes m he
      obtain ⟨x', hx', hclosing'⟩ := closeRow_closes m he'
      rw [hrest, hrest, hx, hx', ← List.append_assoc, ← List.append_assoc, hsame _ hclosing,
        hsame _ hclosing']

/-- Gaps in front of a row make no difference to what its pieces say. -/
theorem sayingRows_gaps {ks : List Glyph} (hks : IsRun ks) (qs : List Glyph) :
    sayingRows (ks ++ qs) = sayingRows qs := by
  unfold sayingRows
  rw [splitAfter_append_none (fun g hg => isCode_of_gap (hks.gaps g hg) (by decide)) hks.ne_nil]
  cases splitAfter (·.isCode ';') qs with
  | nil =>
    dsimp only
    rw [List.filter_cons, any_gaps hks.gaps]
    rfl
  | cons piece pieces =>
    dsimp only
    rw [List.filter_cons, List.filter_cons, List.any_append, any_gaps hks.gaps, Bool.false_or]
    split
    · rw [List.map_cons, List.map_cons, ← List.append_nil (ks ++ piece), List.append_assoc,
      core_between hks.gaps (List.forall_mem_nil _)]
    · rfl

/-- A comment that only closing characters follow. -/
theorem sayingRows_closes {ks : List Glyph} (hks : IsRun ks) {l qs : List Glyph} {g : Glyph}
    (hg : g.isGap = false) (hcode : g.isCode ';' = false) (hqs : Closes qs) :
    RowsAlike (sayingRows (l ++ g :: qs)) (sayingRows (l ++ g :: (ks ++ qs))) := by
  have hb : ∀ h ∈ [g], h.isCode ';' = false := fun h hh => List.mem_singleton.1 hh ▸ hcode
  have hb' : ∀ h ∈ g :: ks, h.isCode ';' = false :=
    List.forall_mem_cons.2 ⟨hcode, fun h hh => isCode_of_gap (hks.gaps h hh) (by decide)⟩
  obtain ⟨before, left, right, behind, -, rfl, hcut, hcut'⟩ :=
    splitAfter_exchange hb hb' (List.cons_ne_nil g []) (List.cons_ne_nil g ks) l qs
  rw [List.singleton_append] at hcut
  rw [List.cons_append] at hcut'
  -- what follows the piece that holds the comment says nothing
  have hbehind : behind.filter (·.any Glyph.isSaying) = [] := by
    rw [List.filter_eq_nil_iff]
    intro piece hpiece hany
    rw [closes_not_saying fun h hh => hqs h
      (List.mem_append_right _ (List.mem_flatten_of_mem hpiece hh))] at hany
    cases hany
  have hright : Closes right := fun h hh => hqs h (List.mem_append_left _ hh)
  have hright' : Closes (ks ++ right) := fun h hh =>
    (List.mem_append.1 hh).elim (fun hk => Or.inl (hks.gaps h hk)) (hright h)
  obtain ⟨e, hcore, he⟩ := core_closes left hg hright
  obtain ⟨e', hcore', he'⟩ := core_closes left hg hright'
  unfold sayingRows
  rw [hcut, hcut', List.filter_append, List.filter_append, List.filter_cons, List.filter_cons,
    hbehind, List.singleton_append, List.cons_append, List.any_append,
    List.any_append, List.any_cons, List.any_cons, closes_not_saying hright,
    closes_not_saying hright']
  split
  · rw [List.map_append, List.map_append, List.map_singleton, List.map_singleton, hcore, hcore']
    exact Or.inr ⟨_, _, e, e', rfl, rfl, he, he'⟩
  · exact Or.inl (List.forall₂_same.2 fun x _ => Respaced.refl x)

/-- **Without a comment that is set apart, or stands behind a semicolon, the pieces say the
same.** -/
theorem sayingRows_delete {ps ks qs : List Glyph} (hks : IsRun ks)
    (hapart : SetApart ps qs ∨ ps.getLast? = some ⟨';', .code⟩) :
    RowsAlike (sayingRows (ps ++ qs)) (sayingRows (ps ++ (ks ++ qs))) := by
  -- beside a gap the comments are part of the gap
  have hbeside : ((∃ g ∈ ps.getLast?, g.isGap = true) ∨ ∃ h ∈ qs.head?, h.isGap = true) →
      RowsAlike (sayingRows (ps ++ qs)) (sayingRows (ps ++ (ks ++ qs))) := fun hgap =>
    Or.inl (sayingRows_congr (((respaced_beside hks hgap).pieces
      fun _ hg => isCode_of_gap hg (by decide)).imp fun _ _ h => core_respaced h))
  -- behind a semicolon they begin a piece, in which they say nothing
  have hcut : (∀ g ∈ ps.getLast?, g.isCode ';' = true) →
      RowsAlike (sayingRows (ps ++ qs)) (sayingRows (ps ++ (ks ++ qs))) := by
    intro hcode
    have hsame : sayingRows (ps ++ (ks ++ qs)) = sayingRows (ps ++ qs) := by
      have hbehind := sayingRows_gaps hks qs
      unfold sayingRows at hbehind ⊢
      rw [splitAfter_append hcode, splitAfter_append hcode, List.filter_append, List.filter_append,
        List.map_append, List.map_append, hbehind]
    rw [hsame]
    exact Or.inl (List.forall₂_same.2 fun x _ => Respaced.refl x)
  rcases hapart with (rfl | hgap | hgap | hcloses) | hsemicolon
  · exact hcut fun g hg => by cases hg
  · exact hbeside (Or.inl hgap)
  · exact hbeside (Or.inr hgap)
  · cases hlast : ps.getLast? with
    | none => exact hcut fun g hg => by rw [hlast] at hg; cases hg
    | some g =>
      by_cases hgap : g.isGap = true
      · exact hbeside (Or.inl ⟨g, hlast, hgap⟩)
      by_cases hcode : g.isCode ';' = true
      · refine hcut fun x hx => ?_
        rw [hlast] at hx
        cases hx
        exact hcode
      obtain ⟨l, rfl⟩ : ∃ l, ps = l ++ [g] := ⟨_, (List.dropLast_append_getLast? g hlast).symm⟩
      rw [List.append_assoc, List.append_assoc]
      exact sayingRows_closes hks (by simpa using hgap) (by simpa using hcode) hcloses
  · refine hcut fun g hg => ?_
    rw [hsemicolon] at hg
    cases hg
    decide

/-! ## §5. Files without a comment. -/

/-- Behind a semicolon a text is read afresh. -/
theorem classify_semicolon {p : List Char} (h : (classify p).getLast? = some ⟨';', .code⟩)
    (q : List Char) : classify (p ++ q) = classify p ++ classify q
      ∧ (({} : Lexer).after (p ++ q)).mode = (({} : Lexer).after q).mode := by
  obtain ⟨front, hfront⟩ : ∃ front, classify p = front ++ [⟨';', .code⟩] :=
    ⟨_, (List.dropLast_append_getLast? _ h).symm⟩
  obtain ⟨hclassify, hidle, -⟩ := Lexer.cut_firm Lexer.fresh_start (Lexer.sound_start p) (c := ';')
    (by decide +kernel) hfront
  have hp : p = front.map Glyph.char ++ [';'] := by
    rw [← classify_map_char p, hfront, List.map_append, List.map_singleton]
  obtain ⟨hreads, hfresh⟩ := Lexer.reads_semicolon hidle q
  rw [← hp, hclassify, ← hfront] at hreads
  rw [← hp] at hfresh
  obtain ⟨hglyphs, hmode⟩ := Lexer.glyphs_fresh hfresh q
  refine ⟨?_, by rw [Lexer.after_append, hmode]⟩
  show ({} : Lexer).glyphs _ = _
  rw [Lexer.glyphs_append, hreads, hglyphs]

/-- Statements in the same order with the same normal forms, of which the whole has the same
normal form, too. -/
structure Agree (ss ss' : List Statement) : Prop where
  each : ss.map (fun s => Sql.normalize s.raw.toList) = ss'.map fun s => Sql.normalize s.raw.toList
  whole : Sql.normalize (joined ss).toList = Sql.normalize (joined ss').toList

/-- The statements of two texts whose rows say the same. -/
theorem agree_of_rows {t t' : List Char} (ht : unclosed? t = none) (ht' : unclosed? t' = none)
    (h : RowsAlike (sayingRows (classify t)) (sayingRows (classify t'))) (line : Nat) :
    Agree (statementsOf line (pieces t)) (statementsOf line (pieces t')) := by
  have hnormal : ∀ ss : List Statement, (ss.map fun s => Sql.normalize s.raw.toList)
      = (ss.map Statement.row).map normalRow := by
    intro ss
    rw [List.map_map]
    exact List.map_congr_left fun s _ => (normal_core _).symm
  have hends : ∀ row ∈ sayingRows (classify t), Begins row.reverse := by
    intro row hrow
    obtain ⟨x, -, rfl⟩ := List.mem_map.1 hrow
    exact (begins_core x).2
  obtain ⟨heach, hwhole⟩ := h.normal hends
  refine ⟨?_, ?_⟩
  · rw [hnormal, hnormal, rows_statementsOf ht, rows_statementsOf ht', heach]
  · rw [normalize_joined ht, normalize_joined ht']
    exact hwhole

/-- The content of a file that declares no table is told by the normal forms of its statements. -/
theorem contentOf_agree {t t' : List Char} (hclosed : unclosed? t = none ↔ unclosed? t' = none)
    (hmarker : ∀ l ∈ Text.lines t, marker? l = none)
    (hmarker' : ∀ l ∈ Text.lines t', marker? l = none)
    (h : RowsAlike (sayingRows (classify t)) (sayingRows (classify t'))) {d : Directives}
    (hd : d.declarativeTable = false) : BothHold (contentOf t d) (contentOf t' d) := by
  unfold contentOf
  by_cases hconflict : d.conflicting = true
  · rw [if_pos hconflict, if_pos hconflict]
    exact Or.inr ⟨fun c hc => (nomatch hc), fun c hc => (nomatch hc)⟩
  rw [if_neg hconflict, if_neg hconflict, split_unmarked hmarker, split_unmarked hmarker', hd]
  cases ht : unclosed? t with
  | some fault =>
    cases ht' : unclosed? t' with
    | none =>
      rw [hclosed.2 ht'] at ht
      cases ht
    | some fault' => exact Or.inr ⟨fun c hc => (nomatch hc), fun c hc => (nomatch hc)⟩
  | none =>
    have ht' := hclosed.1 ht
    rw [ht']
    dsimp only
    have hagree := agree_of_rows ht ht' h 1
    generalize statementsOf 1 (pieces t) = ss at hagree ⊢
    generalize statementsOf 1 (pieces t') = ss' at hagree ⊢
    have hlength : ss.length = ss'.length := by
      simpa using congrArg List.length hagree.each
    -- the normal forms tell both whether a statement defines a table and its identity
    have hcreates : ∀ ss : List Statement, ss.any (·.isCreateTable)
        = (ss.map fun s => Sql.normalize s.raw.toList).any fun s => (createTable? s).any atWordEnd :=
      fun ss => by
        rw [List.any_map]
        rfl
    have hhashes : ∀ ss : List Statement, ss.map (·.hash)
        = (ss.map fun s => Sql.normalize s.raw.toList).map fun s => Digest.hashOf (String.ofList s) :=
      fun ss => by
        rw [List.map_map]
        rfl
    rw [hlength, hcreates ss, hcreates ss', hagree.each]
    split
    · exact Or.inr ⟨fun c hc => (nomatch hc), fun c hc => (nomatch hc)⟩
    rw [if_neg Bool.false_ne_true, if_neg Bool.false_ne_true]
    split
    · exact Or.inl ⟨_, _, rfl, rfl, by rw [hhashes ss, hhashes ss', hagree.each], fun _ => rfl⟩
    · refine Or.inl ⟨_, _, rfl, rfl, ?_, fun _ => ?_⟩
      · have hwhole := hagree.whole
        cases ss with
        | nil =>
          rw [List.length_eq_zero_iff.1 hlength.symm]
        | cons s ss =>
          cases ss' with
          | nil => cases hlength
          | cons s' ss' =>
            unfold plainContent Statement.hash Statement.normalized
            rw [List.map_singleton, List.map_singleton, hwhole]
      · cases ss <;> cases ss' <;> rfl

/-- Texts come apart where block comments are set apart or follow a semicolon, with and without
them. -/
theorem parts_without_comments {p k q : List Char} (h : BlockComments p k q)
    (hfuse : ∀ l ∈ p.getLast?, ∀ r ∈ q.head?, fuses l r = false)
    (hapart : SetApart (classify p) (classify q) ∨ (classify p).getLast? = some ⟨';', .code⟩) :
    (unclosed? (p ++ (k ++ q)) = none ↔ unclosed? (p ++ q) = none)
      ∧ RowsAlike (sayingRows (classify (p ++ (k ++ q)))) (sayingRows (classify (p ++ q))) := by
  obtain ⟨-, ⟨ks, hks, hwhole⟩, hmode⟩ := h.classify
  obtain ⟨hdelete, hmode'⟩ : classify (p ++ q) = classify p ++ classify q
      ∧ (({} : Lexer).after (p ++ q)).mode = (({} : Lexer).after q).mode := by
    rcases hapart with hapart | hsemicolon
    · exact h.delete hfuse hapart
    · exact classify_semicolon hsemicolon q
  refine ⟨?_, ?_⟩
  · rw [unclosed?_eq_none, unclosed?_eq_none, hmode, hmode']
  · rw [hdelete, hwhole]
    exact (sayingRows_delete hks hapart).symm

/-- **A block comment can be taken out where it is set apart.**  As long as no two characters fuse
where it was, the normal form of a text is left alone exactly where white space or another comment
stands next to the block comment, nothing in front of it, or nothing but what closes the text
behind it.  A file without marker lines that declares no table keeps the identities of its
statements, be they followed one by one or as one, also where the comment stands right behind a
semicolon. -/
theorem comment_deleted {p k q : List Char} (h : BlockComments p k q)
    (hfuse : ∀ l ∈ p.getLast?, ∀ r ∈ q.head?, fuses l r = false) {t t' : String}
    (ht : t.toList = p ++ (k ++ q)) (ht' : t'.toList = p ++ q) :
    (Sql.normalize t'.toList = Sql.normalize t.toList ↔ SetApart (classify p) (classify q))
      ∧ (SetApart (classify p) (classify q) →
        ∀ line line', (Statement.mk t' line).hash = (Statement.mk t line').hash)
      ∧ (SetApart (classify p) (classify q) ∨ (classify p).getLast? = some ⟨';', .code⟩ →
        (∀ l ∈ lines t.toList, marker? l = none) → (∀ l ∈ lines t'.toList, marker? l = none) →
        ∀ d, d.declarativeTable = false → Sql.directives t.toList = .ok d →
          Sql.directives t'.toList = .ok d → ∀ path, (ReadsWell path t ↔ ReadsWell path t')
            ∧ ∀ f f', SourceFile.read path t = .ok f → f.error? = none →
              SourceFile.read path t' = .ok f' → f'.error? = none →
              f'.statements.map (·.hash) = f.statements.map (·.hash)) := by
  have hiff : Sql.normalize t'.toList = Sql.normalize t.toList ↔ SetApart (classify p) (classify q) := by
    rw [ht, ht']
    exact h.normalize_iff hfuse
  refine ⟨hiff, fun hapart line line' => ?_, ?_⟩
  · unfold Statement.hash Statement.normalized
    rw [hiff.2 hapart]
  · intro hapart hmarker hmarker' d hd hdirectives hdirectives' path
    obtain ⟨hclosed, hrows⟩ := parts_without_comments h hfuse hapart
    rw [← ht, ← ht'] at hclosed hrows
    obtain ⟨hreads, hrelaid⟩ := @readsWell_both t t'
      (fun d' => by rw [hdirectives, hdirectives'])
      (fun d' hd' => by
        rw [hdirectives] at hd'
        cases hd'
        exact contentOf_agree hclosed hmarker hmarker' hrows hd) path
    exact ⟨hreads, fun f f' hf hok hf' hok' => (hrelaid f f' hf hok hf' hok').hashes⟩

/-- A comment between two statements is taken out. -/
theorem comment_deleted_between :
    let t := "SELECT 1;/* it's; */ SELECT 2;"
    let t' := "SELECT 1; SELECT 2;"
    Sql.normalize t'.toList = Sql.normalize t.toList
      ∧ ∃ f f', SourceFile.read "a.sql" t = .ok f ∧ SourceFile.read "a.sql" t' = .ok f'
        ∧ f'.statements.map (·.hash) = f.statements.map (·.hash) ∧ f.statements.length = 1 := by
  intro t t'
  have hcomments : BlockComments "SELECT 1;".toList "/* it's; */".toList " SELECT 2;".toList :=
    ⟨by decide, ⟨by decide +kernel, by decide +kernel⟩, by decide +kernel,
      ⟨by decide +kernel, by decide +kernel⟩⟩
  have hapart : SetApart (classify "SELECT 1;".toList) (classify " SELECT 2;".toList) :=
    Or.inr (Or.inr (Or.inl ⟨⟨' ', .code⟩, by decide +kernel, rfl⟩))
  have hfuse : ∀ l ∈ "SELECT 1;".toList.getLast?, ∀ r ∈ " SELECT 2;".toList.head?,
      fuses l r = false := by
    rintro _ ⟨⟩ _ ⟨⟩
    decide +kernel
  obtain ⟨hnormal, -, hfiles⟩ := comment_deleted hcomments hfuse
    (show t.toList = _ by decide +kernel) (show t'.toList = _ by decide +kernel)
  have hd : Sql.directives t.toList = .ok {} := by decide +kernel
  have hc : contentOf t.toList {} = .ok (.ok
      { statements := [{ raw := "SELECT 1;\n/* it's; */ SELECT 2;", startLine := some 1 }] }) := by
    decide +kernel
  have hread := SourceFile.read_ok "a.sql" hd hc
  obtain ⟨hreads, hboth⟩ := hfiles (Or.inl hapart) (by decide +kernel) (by decide +kernel) {} rfl
    hd (by decide +kernel) "a.sql"
  obtain ⟨f', hf', hok'⟩ := hreads.1 ⟨_, hread, rfl⟩
  exact ⟨hnormal.2 hapart, _, f', hread, hf', hboth _ f' hread rfl hf' hok', rfl⟩

/-- Next to a parenthesis a comment leaves a space where there was none. -/
theorem comment_after_parenthesis :
    let p := "SELECT f(".toList
    let k := "/* a */".toList
    let q := "1)".toList
    BlockComments p k q ∧ unclosed? (p ++ (k ++ q)) = none
      ∧ Sql.normalize (p ++ (k ++ q)) = "SELECT f( 1)".toList
      ∧ Sql.normalize (p ++ q) = "SELECT f(1)".toList
      ∧ (Statement.mk (String.ofList (p ++ q)) none).hash
        ≠ (Statement.mk (String.ofList (p ++ (k ++ q))) none).hash := by
  refine ⟨⟨by decide, ⟨by decide +kernel, by decide +kernel⟩, by decide +kernel,
      ⟨by decide +kernel, by decide +kernel⟩⟩, by decide +kernel, by decide +kernel,
    by decide +kernel, by decide +kernel⟩

end SchemaDrift
