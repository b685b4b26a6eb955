/-
  SchemaDrift.Proofs.Source.Rescanned
  ───────────────────────────────────
  **STATEMENTS AS ONE STAY APART.**

  The statements of a plain file are made one: each is closed by a semicolon and stands on lines
  of its own.  The semicolon ends the statement wherever it was put, also in front of a comment at
  the end, and no other one is code in it.  So the text that is made of them is cut where they
  were put together, into as many statements as there were (`sayingRows_joined`), and each says
  what it said before (`whole_rescanned`).
-/

import SchemaDrift.Proofs.Source.Deletion

namespace SchemaDrift

open SchemaDrift.Sql SchemaDrift.Text

/-! ## §1. One statement, closed. -/

/-- A closed row ends in a semicolon, and has no other one if the row has none but at its end. -/
theorem splitAfter_closeRow {gs : List Glyph}
    (h : ∀ a b, gs = a ++ ⟨';', .code⟩ :: b → b = []) :
    splitAfter (·.isCode ';') (closeRow gs) = [closeRow gs] := by
  obtain ⟨front, hfront⟩ := closeRow_last gs
  have hnone : ∀ g ∈ front, g.isCode ';' = false := by
    intro g hg
    by_contra hcode
    rw [Bool.not_eq_false, Glyph.isCode_iff] at hcode
    subst hcode
    obtain ⟨a, b, rfl⟩ := List.append_of_mem hg
    unfold closeRow at hfront
    split at hfront
    · -- the row ends in a semicolon, and this one is in front of it
      have hb := h a (b ++ [⟨';', .code⟩]) (by rw [hfront, List.append_assoc, List.cons_append])
      exact List.append_ne_nil_of_right_ne_nil b (List.cons_ne_nil _ _) hb
    · next hlast =>
      have hb := h a b (List.append_cancel_right hfront)
      rw [hb] at hfront
      rw [List.append_cancel_right hfront, List.getLast?_concat] at hlast
      exact hlast rfl
  rw [hfront, splitAfter_first hnone (Glyph.isCode_iff.2 rfl)]
  rfl

/-- **A statement that is closed is one row**, whatever gaps and rows follow it. -/
theorem sayingRows_terminate {t : List Char} (ht : SelfContained t) (hsaid : Sql.normalize t ≠ [])
    {ks : List Glyph} (hks : ∀ g ∈ ks, g.isGap = true) (qs : List Glyph) :
    sayingRows (classify (terminate t) ++ (ks ++ qs))
      = closeRow (core (classify t)) :: sayingRows qs := by
  have hcore := core_terminate ht.closed hsaid
  obtain ⟨y, hwhole, -⟩ := (classify_trimEnd ht.closed).2
  obtain ⟨front, g, back, hsplit, -, hback, hterminate⟩ := terminate_saying ht.closed hsaid
  generalize hrow : closeRow (front ++ [g]) = row at hterminate
  have hcut : splitAfter (·.isCode ';') row = [row] := by
    rw [← hrow]
    refine splitAfter_closeRow fun a b hab => ?_
    have hlast := ht.last a (b ++ (back ++ y)) (by rw [hwhole, hsplit, hab]; simp)
    exact (List.append_eq_nil_iff.1 hlast).1
  have hends : ∀ g ∈ row.getLast?, g.isCode ';' = true := by
    obtain ⟨l, hl⟩ := closeRow_last (front ++ [g])
    rw [← hrow, hl, List.getLast?_concat]
    rintro _ ⟨⟩
    rfl
  have hsame : core row = closeRow (core (classify t)) := by
    rw [← hcore, hterminate, ← core_between (List.forall_mem_nil _) hback, List.nil_append]
  have hsaying : row.any Glyph.isSaying = true := by
    have hne : Sql.normalize (terminate t) ≠ [] := by rwa [normalize_terminate]
    obtain ⟨x, hx, hsaying⟩ := normalize_ne_nil.1 hne
    rw [← List.any_eq_true.2 ⟨x, hx, hsaying⟩, hterminate, List.any_append, any_gaps hback,
      Bool.or_false]
  have hbehind : sayingRows ((back ++ ks) ++ qs) = sayingRows qs := by
    by_cases hnil : back ++ ks = []
    · rw [hnil, List.nil_append]
    · exact sayingRows_gaps ⟨hnil, List.forall_mem_append.2 ⟨hback, hks⟩⟩ qs
  rw [← hbehind, hterminate, List.append_assoc, ← List.append_assoc back]
  unfold sayingRows
  rw [splitAfter_append hends, hcut, List.filter_append, List.filter_cons, if_pos hsaying,
    List.filter_nil, List.singleton_append, List.map_cons, hsame]

/-! ## §2. All of them. -/

/-- **Statements as one are cut where they were put together.**  Nothing is open behind them, and
they are rows again, each closed. -/
theorem sayingRows_joined {ss : List Statement} (hself : ∀ s ∈ ss, SelfContained s.raw.toList)
    (hsaid : ∀ s ∈ ss, s.Says) : unclosed? (joined ss).toList = none
      ∧ sayingRows (classify (joined ss).toList) = (ss.map Statement.row).map closeRow := by
  rw [toList_joined]
  induction ss with
  | nil => exact ⟨rfl, rfl⟩
  | cons s ss ih =>
    obtain ⟨hs, hself⟩ := List.forall_mem_cons.1 hself
    obtain ⟨hsaying, hsaid⟩ := List.forall_mem_cons.1 hsaid
    obtain ⟨hclosed, hrows⟩ := ih hself hsaid
    have hfirst := closed_terminate hs.closed
    cases ss with
    | nil =>
      rw [List.map_singleton, List.intercalate_singleton]
      refine ⟨hfirst, ?_⟩
      have hone := sayingRows_terminate hs hsaying (List.forall_mem_nil _) []
      rwa [List.append_nil, List.append_nil] at hone
    | cons x ss =>
      rw [List.map_cons, List.map_cons, List.intercalate_cons_cons, List.append_assoc,
        List.singleton_append]
      rw [List.map_cons] at hclosed hrows
      obtain ⟨hglyphs, hopen⟩ := classify_line hfirst
        (['\n'].intercalate (terminate x.raw.toList :: ss.map fun s => terminate s.raw.toList))
      refine ⟨hopen.2 hclosed, ?_⟩
      rw [hglyphs, ← List.singleton_append (x := (⟨'\n', .code⟩ : Glyph)),
        sayingRows_terminate hs hsaying (List.forall_mem_singleton.2 isGap_feed), hrows]
      rfl

/-- The semicolon that closes a row makes no difference to what it says. -/
theorem normalRow_closeRow (gs : List Glyph) : normalRow (closeRow gs) = normalRow gs := by
  unfold closeRow
  split
  · rfl
  · exact normal_append (List.forall_mem_singleton.2 (Or.inr rfl))

/-- What a statement says can be told from its row. -/
theorem normalized_row (s : Statement) : s.normalized = String.ofList (normalRow s.row) :=
  congrArg String.ofList (normal_core _).symm

/-- The statements of a closed text are closed, and end where one of its semicolons does. -/
theorem selfContained_statementsOf {t : List Char} (ht : unclosed? t = none) (line : Nat) :
    ∀ s ∈ statementsOf line (pieces t), SelfContained s.raw.toList := by
  have hself := pieces_selfContained ht
  have hresaid := statementsOf_resaid (List.forall₂_same.2 fun p _ => Respaced.refl _) hself hself
    line line
  exact ((List.forall₂_and_left _ _).1 (hresaid.imp fun _ _ hs => ⟨hs.left, hs⟩)).1

/-- **The statements of a closed text as one are cut into the same statements again.** -/
theorem statements_joined {t : List Char} (ht : unclosed? t = none) (line line' : Nat) :
    ∃ ss, (Region.mk false line' (joined (statementsOf line (pieces t))).toList).statements = .ok ss
      ∧ ss.map (·.normalized) = (statementsOf line (pieces t)).map (·.normalized) := by
  obtain ⟨hclosed, hrows⟩ := sayingRows_joined (selfContained_statementsOf ht line)
    fun s hs => statementsOf_saying hs
  generalize statementsOf line (pieces t) = ss at hclosed hrows ⊢
  have hread := rows_statementsOf hclosed line'
  rw [hrows] at hread
  generalize hss' : statementsOf line' (pieces (joined ss).toList) = ss' at hread
  refine ⟨ss', ?_, ?_⟩
  · unfold Region.statements
    rw [if_neg Bool.false_ne_true, hclosed, ← hss']
  · have hnormal : ∀ ss : List Statement, ss.map (·.normalized)
        = (ss.map Statement.row).map fun row => String.ofList (normalRow row) := by
      intro ss
      rw [List.map_map]
      exact List.map_congr_left fun s _ => normalized_row s
    rw [hnormal, hnormal, hread, List.map_map]
    exact List.map_congr_left fun row _ => congrArg String.ofList (normalRow_closeRow row)

/-! ## §3. Plain files. -/

/-- The content of a plain file without marker lines is made of the statements of its text. -/
theorem SourceFile.read_plain {path text : String} {f : SourceFile}
    (h : SourceFile.read path text = .ok f) (hok : f.error? = none)
    (hdeclarative : f.isDeclarative = false) (hsplit : f.isSplit = false)
    (hmarker : ∀ l ∈ lines text.toList, marker? l = none) :
    unclosed? text.toList = none
      ∧ f.statements = (plainContent (statementsOf 1 (pieces text.toList))).statements := by
  unfold SourceFile.isDeclarative at hdeclarative
  unfold SourceFile.isSplit at hsplit
  obtain ⟨c, hc⟩ := SourceFile.read_holds h hok
  obtain ⟨-, ss, hss, hcontents⟩ := contentOf_ok_iff.1 hc.content
  rw [hc.statements]
  rw [split_unmarked hmarker] at hss
  cases hclosed : unclosed? text.toList with
  | some fault =>
    rw [hclosed] at hss
    cases hss
  | none =>
    rw [hclosed] at hss
    refine ⟨rfl, ?_⟩
    cases hcontents with
    | declared hd =>
      rw [hdeclarative] at hd
      cases hd
    | separate _ hs =>
      rw [hsplit] at hs
      cases hs
    | plain => rw [← Except.ok.inj hss]

/-- **The one statement of a plain file keeps its statements apart.**  Where a plain file without
marker lines is read, its text is cut at the semicolons into statements, and the file has none
only if they are none.  Else it has one, and the text of that is cut at the semicolons into as
many statements, which say the same one by one. -/
theorem whole_rescanned {path text : String} {f : SourceFile}
    (h : SourceFile.read path text = .ok f) (hok : f.error? = none)
    (hdeclarative : f.isDeclarative = false) (hsplit : f.isSplit = false)
    (hmarker : ∀ l ∈ lines text.toList, marker? l = none) (line line' : Nat) :
    ∃ ss, (Region.mk false line text.toList).statements = .ok ss
      ∧ (f.statements = [] ↔ ss = []) ∧ f.statements.length ≤ 1
      ∧ ∀ s ∈ f.statements, ∃ ss', (Region.mk false line' s.raw.toList).statements = .ok ss'
        ∧ ss'.map (·.normalized) = ss.map (·.normalized) := by
  obtain ⟨hclosed, hstatements⟩ := SourceFile.read_plain h hok hdeclarative hsplit hmarker
  -- the normal forms do not depend on the lines that the statements begin on
  have hnormal : ∀ n, (statementsOf n (pieces text.toList)).map (·.normalized)
      = (rawTexts (pieces text.toList)).map fun raw => (Statement.mk raw none).normalized := by
    intro n
    rw [← statementsOf_raws n, List.map_map]
    rfl
  refine ⟨statementsOf line (pieces text.toList), ?_, ?_, ?_, ?_⟩
  · unfold Region.statements
    rw [if_neg Bool.false_ne_true, hclosed]
  · have hnil : ∀ n, statementsOf n (pieces text.toList) = [] ↔ rawTexts (pieces text.toList) = [] :=
      fun n => by rw [← statementsOf_raws n, List.map_eq_nil_iff]
    rw [hstatements, hnil, ← hnil 1]
    cases statementsOf 1 (pieces text.toList) with
    | nil => exact Iff.rfl
    | cons s ss => exact iff_of_false (List.cons_ne_nil _ _) (List.cons_ne_nil _ _)
  · rw [hstatements]
    exact Nat.le_of_not_lt (length_plainContent _)
  · intro s hs
    obtain ⟨ss', hss', hsame⟩ := statements_joined hclosed 1 line'
    rw [hstatements] at hs
    generalize hfirst : statementsOf 1 (pieces text.toList) = ss at hs hss' hsame
    cases ss with
    | nil => cases hs
    | cons x ss =>
      rw [List.mem_singleton.1 hs]
      refine ⟨ss', hss', ?_⟩
      rw [hsame, hnormal, ← hnormal 1, hfirst]

/-- Two statements of which the first ends in a comment that holds a semicolon, and the second
has no semicolon of its own. -/
theorem whole_rescanned_comment :
    ∃ f s ss', SourceFile.read "a.sql" "SELECT 1 /* ; */; SELECT ';' -- end;" = .ok f
      ∧ f.statements = [s]
      ∧ s.raw = "SELECT 1 /* ; */;\nSELECT ';'; -- end;"
      ∧ (Region.mk false 1 s.raw.toList).statements = .ok ss'
      ∧ ss'.map (·.normalized) = ["SELECT 1", "SELECT ';'"] := by
  have hd : Sql.directives "SELECT 1 /* ; */; SELECT ';' -- end;".toList = .ok {} := by
    decide +kernel
  have hc : contentOf "SELECT 1 /* ; */; SELECT ';' -- end;".toList {} = .ok (.ok
      { statements := [{ raw := "SELECT 1 /* ; */;\nSELECT ';'; -- end;", startLine := some 1 }] }) := by
    decide +kernel
  have hread := SourceFile.read_ok "a.sql" hd hc
  obtain ⟨ss, hss, -, -, hall⟩ := whole_rescanned hread rfl rfl rfl (by decide +kernel) 1 1
  obtain ⟨ss', hss', hsame⟩ := hall _ List.mem_cons_self
  refine ⟨_, _, ss', hread, rfl, rfl, hss', ?_⟩
  have hfirst : (Region.mk false 1 "SELECT 1 /* ; */; SELECT ';' -- end;".toList).statements.map
      (fun ss => ss.map (·.normalized)) = .ok ["SELECT 1", "SELECT ';'"] := by decide +kernel
  rw [hss] at hfirst
  rw [hsame]
  exact Except.ok.inj hfirst

end SchemaDrift
