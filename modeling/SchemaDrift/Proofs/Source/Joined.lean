/-
  SchemaDrift.Proofs.Source.Joined
  ────────────────────────────────
  **THE STATEMENTS OF A FILE AS ONE.**

  Statements that are made one are closed by semicolons and stand on lines of their own, each
  without the gaps around it.  So what they say together can be told from what each of them says
  (`joined_row`), and for a file without marker lines from its glyphs alone (`normalize_joined`):
  cut behind the semicolons, less the pieces that say nothing, each closed, line by line
  (`wholeRow`).
-/

import SchemaDrift.Proofs.Source.Statements
import SchemaDrift.Proofs.Sql.Relaid

namespace SchemaDrift

open SchemaDrift.Sql SchemaDrift.Text

/-! ## §1. Rows on lines of their own. -/

/-- The rows, each closed by a semicolon, on lines of their own. -/
def joinRows (rows : List (List Glyph)) : List Glyph :=
  [⟨'\n', .code⟩].intercalate (rows.map closeRow)

theorem joinRows_cons_cons (x y : List Glyph) (rows : List (List Glyph)) :
    joinRows (x :: y :: rows) = closeRow x ++ (⟨'\n', .code⟩ :: joinRows (y :: rows)) := by
  unfold joinRows
  rw [List.map_cons, List.map_cons, List.intercalate_cons_cons, List.append_assoc]
  rfl

theorem joinRows_singleton (x : List Glyph) : joinRows [x] = closeRow x := by
  unfold joinRows
  rw [List.map_singleton, List.intercalate_singleton]

/-- The last row stands at the end. -/
theorem exists_joinRows_concat (rows : List (List Glyph)) :
    ∃ front, ∀ x, joinRows (rows ++ [x]) = front ++ closeRow x := by
  induction rows with
  | nil => exact ⟨[], joinRows_singleton⟩
  | cons y rows ih =>
    obtain ⟨front, hfront⟩ := ih
    refine ⟨closeRow y ++ ⟨'\n', .code⟩ :: front, fun x => ?_⟩
    show joinRows (y :: (rows ++ [x])) = (closeRow y ++ ⟨'\n', .code⟩ :: front) ++ closeRow x
    rw [List.append_assoc, List.cons_append, ← hfront x]
    cases rows with
    | nil => exact joinRows_cons_cons y x []
    | cons z rows => exact joinRows_cons_cons y z (rows ++ [x])

theorem joinRows_respaced {rows rows' : List (List Glyph)}
    (h : List.Forall₂ Respaced rows rows') (hends : ∀ row ∈ rows, Begins row.reverse) :
    Respaced (joinRows rows) (joinRows rows') := by
  induction h with
  | nil => exact .nil
  | @cons x x' rows rows' hx hrest ih =>
    obtain ⟨hfirst, hends⟩ := List.forall_mem_cons.1 hends
    have hclosed := closeRow_respaced hx hfirst
    cases hrest with
    | nil =>
      rw [joinRows_singleton, joinRows_singleton]
      exact hclosed
    | cons hy hrest =>
      rw [joinRows_cons_cons, joinRows_cons_cons]
      have hfeed := isRun_singleton isGap_feed
      exact hclosed.append (.run hfeed hfeed (ih hends))

/-! ## §2. Statements. -/

/-- A text that says something has glyphs between the gaps. -/
theorem core_ne_nil {s : List Char} (hsaid : Sql.normalize s ≠ []) : core (classify s) ≠ [] := by
  intro hnil
  refine hsaid ?_
  unfold Sql.normalize
  rw [← normal_core, hnil]
  rfl

/-- The glyphs of a statement between the gaps around it. -/
def Sql.Statement.row (s : Statement) : List Glyph := core (classify s.raw.toList)

/-- **Statements as one say what each of them says**, on lines of their own. -/
theorem joined_row {ss : List Statement} (hclosed : ∀ s ∈ ss, unclosed? s.raw.toList = none)
    (hsaid : ∀ s ∈ ss, s.Says) :
    Respaced (core (classify (joined ss).toList)) (joinRows (ss.map Statement.row)) := by
  rw [toList_joined]
  induction ss with
  | nil => exact .nil
  | cons s ss ih =>
    obtain ⟨hs, hclosed⟩ := List.forall_mem_cons.1 hclosed
    obtain ⟨hsaying, hsaid⟩ := List.forall_mem_cons.1 hsaid
    have hrow : core (classify (terminate s.raw.toList)) = closeRow s.row := core_terminate hs hsaying
    cases ss with
    | nil =>
      rw [List.map_singleton, List.map_singleton, joinRows_singleton, List.intercalate_singleton,
        hrow]
      exact .refl _
    | cons x ss =>
      have hbehind := ih hclosed hsaid
      rw [List.map_cons, List.map_cons, List.map_cons, List.map_cons, joinRows_cons_cons,
        List.intercalate_cons_cons, List.append_assoc]
      rw [List.map_cons, List.map_cons] at hbehind
      have hfirst : core (classify (terminate s.raw.toList)) ≠ [] := by
        refine core_ne_nil ?_
        rw [normalize_terminate]
        exact hsaying
      have hjoined : Statement.Says { raw := joined (x :: ss) } :=
        joined_saying (hsaid x List.mem_cons_self) none
      have hrest : core (classify (joined (x :: ss)).toList) ≠ [] := core_ne_nil hjoined
      rw [toList_joined, List.map_cons] at hrest
      obtain ⟨r, hr, hlines⟩ := core_lines (closed_terminate hs) hfirst hrest
      rw [List.singleton_append, hlines, hrow]
      exact (Respaced.refl _).append (.run hr (isRun_singleton isGap_feed) hbehind)

/-- **Statements that say the same say the same as one.** -/
theorem joined_resaid {ss ss' : List Statement} (h : List.Forall₂ Statement.Resaid ss ss')
    (hsaid : ∀ s ∈ ss, s.Says) : SaySame (joined ss).toList (joined ss').toList := by
  have hrows : List.Forall₂ Respaced (ss.map Statement.row) (ss'.map Statement.row) := by
    rw [List.forall₂_map_left_iff, List.forall₂_map_right_iff]
    exact h.imp fun _ _ hs => hs.same
  have hclosed : ∀ s ∈ ss, unclosed? s.raw.toList = none :=
    ((List.forall₂_and_left ss ss').1 (h.imp fun _ _ hs => ⟨hs.left.closed, hs⟩)).1
  have hright : ∀ s' ∈ ss', unclosed? s'.raw.toList = none ∧ s'.Says := by
    have hflip := ((List.forall₂_and_left ss ss').2 ⟨hsaid, h⟩).flip
    refine ((List.forall₂_and_left ss' ss).1 (hflip.imp fun _ _ hs => ⟨?_, hs⟩)).1
    refine ⟨hs.2.right.closed, ?_⟩
    unfold Statement.Says
    rw [← hs.2.same.normalize_eq]
    exact hs.1
  have hends : ∀ row ∈ ss.map Statement.row, Begins row.reverse := by
    intro row hrow
    obtain ⟨s, -, rfl⟩ := List.mem_map.1 hrow
    exact (begins_core _).2
  exact ((joined_row hclosed hsaid).trans (joinRows_respaced hrows hends)).trans
    (joined_row (fun s hs => (hright s hs).1) fun s hs => (hright s hs).2).symm

/-! ## §3. Files without marker lines. -/

/-- The pieces of a row that say something, each without the gaps around it. -/
def sayingRows (row : List Glyph) : List (List Glyph) :=
  ((splitAfter (·.isCode ';') row).filter (·.any Glyph.isSaying)).map core

/-- The statements of a row as one: the pieces that say something, on lines of their own. -/
def wholeRow (row : List Glyph) : List Glyph := joinRows (sayingRows row)

/-- The statements of a closed text, as rows. -/
theorem rows_statementsOf {t : List Char} (ht : unclosed? t = none) (line : Nat) :
    (statementsOf line (pieces t)).map Statement.row = sayingRows (classify t) := by
  have hread := classify_piece t
  have hself := pieces_selfContained ht
  unfold sayingRows
  unfold pieces at hself ⊢
  generalize splitAfter (·.isCode ';') (classify t) = ps at hread hself ⊢
  induction ps generalizing line with
  | nil => rfl
  | cons p ps ih =>
    obtain ⟨hp, hread⟩ := List.forall_mem_cons.1 hread
    rw [List.map_cons] at hself
    obtain ⟨hclosed, hself⟩ := List.forall_mem_cons.1 hself
    have hbehind := ih (line + lineFeeds (p.map Glyph.char)) hread hself
    have hsaying : Sql.normalize (p.map Glyph.char) ≠ [] ↔ p.any Glyph.isSaying = true := by
      rw [normalize_ne_nil, hp, List.any_eq_true]
    rw [List.map_cons, statementsOf, List.map_append, hbehind, List.filter_cons]
    rcases statementOf?_cases line (p.map Glyph.char) with ⟨hnil, hnone⟩ | ⟨hsaid, hsome⟩
    · rw [hnone, if_neg fun hany => hsaying.2 hany hnil]
      rfl
    · rw [hsome, if_pos (hsaying.1 hsaid), List.map_cons]
      unfold Statement.row
      rw [Option.toList_some, List.map_singleton, List.singleton_append, String.toList_ofList,
        core_trim hclosed.closed, hp]

/-- **The normal form of a file without marker lines as one statement** can be told from its
glyphs. -/
theorem normalize_joined {t : List Char} (ht : unclosed? t = none) (line : Nat) :
    Sql.normalize (joined (statementsOf line (pieces t))).toList
      = trimEndWhile isClosing (squeeze false false (wholeRow (classify t))) := by
  have hself := pieces_selfContained ht
  have hresaid := statementsOf_resaid (List.forall₂_same.2 fun p _ => Respaced.refl _) hself hself
    line line
  have hclosed : ∀ s ∈ statementsOf line (pieces t), unclosed? s.raw.toList = none :=
    ((List.forall₂_and_left _ _).1 (hresaid.imp fun _ _ hs => ⟨hs.left.closed, hs⟩)).1
  have hrow := joined_row hclosed fun s hs => statementsOf_saying hs
  rw [rows_statementsOf ht] at hrow
  unfold Sql.normalize
  rw [← normal_core, hrow.squeeze_eq]
  rfl

end SchemaDrift
