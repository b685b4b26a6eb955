/-
  SchemaDrift.Proofs.Sql.Exchange
  ───────────────────────────────
  **A PART OF A TEXT EXCHANGED FOR ANOTHER.**

  Two texts differ in one part only, in which no semicolon is code and no line is a marker.
  Then they are cut in the same places: into the same pieces but one, that which holds the
  part (`splitAfter_exchange`), and into the same regions but one (`marksFrom_exchange`,
  `outlineFrom_exchange`).
-/

import SchemaDrift.Proofs.Sql.Acceptance

namespace SchemaDrift.Sql

open SchemaDrift.Text

/-! ## §1. Cutting a list. -/

/-- Elements in front that are not cut behind belong to the first piece of the rest. -/
theorem splitAfter_append_none {α : Type} {p : α → Bool} {b : List α} (hb : ∀ a ∈ b, p a = false)
    (hne : b ≠ []) (l : List α) : splitAfter p (b ++ l) = match splitAfter p l with
      | [] => [b]
      | piece :: pieces => (b ++ piece) :: pieces := by
  induction b with
  | nil => exact absurd rfl hne
  | cons a b ih =>
    obtain ⟨ha, hb⟩ := List.forall_mem_cons.1 hb
    rw [List.cons_append, splitAfter, ha, if_neg Bool.false_ne_true]
    cases b with
    | nil =>
      rw [List.nil_append]
      cases splitAfter p l with
      | nil => rfl
      | cons piece pieces => rfl
    | cons x b =>
      rw [ih hb (List.cons_ne_nil x b)]
      cases splitAfter p l with
      | nil => rfl
      | cons piece pieces => rfl

/-- **Where nothing is cut, a part can be exchanged** within one piece. -/
theorem splitAfter_exchange {α : Type} {p : α → Bool} {b b' : List α} (hb : ∀ a ∈ b, p a = false)
    (hb' : ∀ a ∈ b', p a = false) (hne : b ≠ []) (hne' : b' ≠ []) (l r : List α) :
    ∃ before left right behind, l = before.flatten ++ left ∧ r = right ++ behind.flatten
      ∧ splitAfter p (l ++ (b ++ r)) = before ++ (left ++ (b ++ right)) :: behind
      ∧ splitAfter p (l ++ (b' ++ r)) = before ++ (left ++ (b' ++ right)) :: behind := by
  induction l with
  | nil =>
    have hwhole := flatten_splitAfter p r
    rw [List.nil_append, List.nil_append, splitAfter_append_none hb hne,
      splitAfter_append_none hb' hne']
    cases hr : splitAfter p r with
    | nil =>
      rw [hr] at hwhole
      exact ⟨[], [], [], [], rfl, hwhole.symm, by simp, by simp⟩
    | cons piece pieces =>
      rw [hr, List.flatten_cons] at hwhole
      exact ⟨[], [], piece, pieces, rfl, hwhole.symm, rfl, rfl⟩
  | cons a l ih =>
    obtain ⟨before, left, right, behind, rfl, rfl, hcut, hcut'⟩ := ih
    rw [List.cons_append, List.cons_append, splitAfter, splitAfter, hcut, hcut']
    by_cases ha : p a = true
    · rw [if_pos ha, if_pos ha]
      exact ⟨[a] :: before, left, right, behind, rfl, rfl, rfl, rfl⟩
    · rw [if_neg ha, if_neg ha]
      cases before with
      | nil => exact ⟨[], a :: left, right, behind, rfl, rfl, rfl, rfl⟩
      | cons piece before =>
        exact ⟨(a :: piece) :: before, left, right, behind, rfl, rfl, rfl, rfl⟩

/-! ## §2. Pieces. -/

/-- The characters of a piece have the classes that they have in the text. -/
theorem classify_piece (t : List Char) : ∀ gs ∈ splitAfter (·.isCode ';') (classify t),
    classify (gs.map Glyph.char) = gs := by
  induction t using pieces_rec with
  | last t hnone _ =>
    rw [splitAfter_none hnone]
    split
    · exact List.forall_mem_nil _
    · rw [List.forall_mem_singleton, classify_map_char]
  | piece p u hnone hidle _ _ ih =>
    obtain ⟨hclassify, hsettled⟩ := settled_semicolon hidle
    have hwhole := hsettled u
    rw [hclassify, List.append_assoc, List.append_assoc, List.singleton_append,
      List.singleton_append] at hwhole
    rw [hwhole, splitAfter_first hnone (Glyph.isCode_iff.2 rfl), List.forall_mem_cons]
    refine ⟨?_, ih⟩
    rw [List.map_append, classify_map_char]
    exact hclassify

/-- The texts of the pieces that say something, without the white space around. -/
def rawTexts (ps : List (List Char)) : List String :=
  (ps.filter fun p => !(normalize p).isEmpty).map fun p => String.ofList (trim p)

theorem rawTexts_append (ps qs : List (List Char)) :
    rawTexts (ps ++ qs) = rawTexts ps ++ rawTexts qs := by
  unfold rawTexts
  rw [List.filter_append, List.map_append]

theorem rawTexts_cons (p : List Char) (ps : List (List Char)) : rawTexts (p :: ps)
    = if normalize p = [] then rawTexts ps else String.ofList (trim p) :: rawTexts ps := by
  unfold rawTexts
  by_cases hp : normalize p = []
  · rw [if_pos hp, List.filter_cons_of_neg (by rw [hp]; decide)]
  · rw [if_neg hp, List.filter_cons_of_pos (by rw [List.isEmpty_eq_false_iff.2 hp]; rfl)]
    rfl

/-- The statements of some pieces have the texts of those that say something. -/
theorem statementsOf_raws (line : Nat) (ps : List (List Char)) :
    (statementsOf line ps).map (·.raw) = rawTexts ps := by
  induction ps generalizing line with
  | nil => rfl
  | cons p ps ih =>
    rw [statementsOf, List.map_append, ih, rawTexts_cons]
    rcases statementOf?_cases line p with ⟨hinert, hnone⟩ | ⟨hsaid, hsome⟩
    · rw [hnone, if_pos hinert]
      rfl
    · rw [hsome, if_neg hsaid]
      rfl

/-! ## §3. Lists that differ in one place. -/

/-- The lists are the same but for one place, at which they are as `R` says. -/
inductive OneOff {α : Type} (S R : α → α → Prop) : List α → List α → Prop where
  | here {a a' : α} {l l' : List α} (h : R a a') (hl : List.Forall₂ S l l') :
      OneOff S R (a :: l) (a' :: l')
  | behind {a a' : α} {l l' : List α} (h : S a a') (hl : OneOff S R l l') :
      OneOff S R (a :: l) (a' :: l')

/-! ## §4. Marks. -/

/-- The marks are the same, the numbers of their lines apart. -/
def Mark.Same (m m' : Mark) : Prop := m.marker = m'.marker ∧ m.text = m'.text

/-- The same marker stands in front of the stretch `s` and of the stretch `s'`. -/
def Mark.Exchanged (s s' : List Char) (m m' : Mark) : Prop :=
  m.marker = m'.marker ∧ ∃ lead, IsLead lead ∧ m.text = lead ++ s ∧ m'.text = lead ++ s'

theorem marksFrom_number (ls : List (List Char)) (number number' : Nat) :
    (marksFrom number ls).1 = (marksFrom number' ls).1
      ∧ List.Forall₂ Mark.Same (marksFrom number ls).2 (marksFrom number' ls).2 := by
  induction ls generalizing number number' with
  | nil => exact ⟨rfl, .nil⟩
  | cons l ls ih =>
    obtain ⟨htext, hmarks⟩ := ih (number + 1) (number' + 1)
    rw [marksFrom, marksFrom]
    cases marker? l with
    | none =>
      dsimp only
      rw [htext]
      exact ⟨rfl, hmarks⟩
    | some m =>
      dsimp only
      rw [htext]
      exact ⟨rfl, .cons ⟨rfl, rfl⟩ hmarks⟩

/-- Lines without a marker, up to a marker line or the end. -/
theorem marksFrom_section {ms rs : List (List Char)} (hms : ∀ l ∈ ms, marker? l = none)
    (hrs : ∀ l ∈ rs.head?, marker? l ≠ none) (number : Nat) :
    (marksFrom number (ms ++ rs)).1 = ms.flatten
      ∧ (marksFrom number (ms ++ rs)).2 = (marksFrom (number + ms.length) rs).2 := by
  have hnone : ∀ number, (marksFrom number rs).1 = [] := by
    intro number
    cases rs with
    | nil => rfl
    | cons l rs =>
      obtain ⟨m, hm⟩ := Option.ne_none_iff_exists'.1 (hrs l rfl)
      rw [marksFrom, hm]
  rw [marksFrom_lines hms, hnone, List.append_nil]
  exact ⟨rfl, rfl⟩

/-- **Exchanged lines are in the text up to the first marker, or behind one of the marks.** -/
theorem marksFrom_exchange {ls ms ms' rs : List (List Char)}
    (hls : ∀ l ∈ ls.getLast?, marker? l ≠ none) (hms : ∀ l ∈ ms, marker? l = none)
    (hms' : ∀ l ∈ ms', marker? l = none) (hrs : ∀ l ∈ rs.head?, marker? l ≠ none) (number : Nat) :
    ((marksFrom number (ls ++ (ms ++ rs))).1 = ms.flatten
        ∧ (marksFrom number (ls ++ (ms' ++ rs))).1 = ms'.flatten
        ∧ List.Forall₂ Mark.Same (marksFrom number (ls ++ (ms ++ rs))).2
          (marksFrom number (ls ++ (ms' ++ rs))).2)
      ∨ (marksFrom number (ls ++ (ms ++ rs))).1 = (marksFrom number (ls ++ (ms' ++ rs))).1
        ∧ OneOff Mark.Same (Mark.Exchanged ms.flatten ms'.flatten)
          (marksFrom number (ls ++ (ms ++ rs))).2 (marksFrom number (ls ++ (ms' ++ rs))).2 := by
  -- in front of a last marker line no text is exchanged
  suffices hbehind : ls ≠ [] →
      (marksFrom number (ls ++ (ms ++ rs))).1 = (marksFrom number (ls ++ (ms' ++ rs))).1
        ∧ OneOff Mark.Same (Mark.Exchanged ms.flatten ms'.flatten)
          (marksFrom number (ls ++ (ms ++ rs))).2 (marksFrom number (ls ++ (ms' ++ rs))).2 by
    by_cases hnil : ls = []
    · obtain ⟨htext, hmarks⟩ := marksFrom_section hms hrs number
      obtain ⟨htext', hmarks'⟩ := marksFrom_section hms' hrs number
      rw [hnil, List.nil_append, List.nil_append, htext, htext', hmarks, hmarks']
      exact Or.inl ⟨rfl, rfl, (marksFrom_number rs _ _).2⟩
    · exact Or.inr (hbehind hnil)
  intro hne
  induction ls generalizing number with
  | nil => exact absurd rfl hne
  | cons l ls ih =>
    rw [List.cons_append, List.cons_append, marksFrom, marksFrom]
    cases ls with
    | nil =>
      obtain ⟨m, hm⟩ := Option.ne_none_iff_exists'.1 (hls l rfl)
      obtain ⟨htext, hmarks⟩ := marksFrom_section hms hrs (number + 1)
      obtain ⟨htext', hmarks'⟩ := marksFrom_section hms' hrs (number + 1)
      rw [hm, List.nil_append, List.nil_append]
      dsimp only
      rw [htext, htext', hmarks, hmarks']
      refine ⟨rfl, .here ⟨rfl, _, ?_, rfl, rfl⟩ (marksFrom_number rs _ _).2⟩
      split
      · exact Or.inr rfl
      · exact Or.inl rfl
    | cons l' ls =>
      rw [List.getLast?_cons_cons] at hls
      obtain ⟨htext, hmarks⟩ := ih hls (number + 1) (List.cons_ne_nil l' ls)
      cases marker? l with
      | none =>
        dsimp only
        rw [htext]
        exact ⟨rfl, hmarks⟩
      | some m =>
        dsimp only
        rw [htext]
        exact ⟨rfl, .behind ⟨rfl, rfl⟩ hmarks⟩

/-! ## §5. Regions. -/

/-- The regions are the same, the numbers of their lines apart. -/
def Region.Same (r r' : Region) : Prop := r.manual = r'.manual ∧ r.text = r'.text

/-- The regions are the stretches `s` and `s'`, both behind the same marker. -/
def Region.Exchanged (s s' : List Char) (r r' : Region) : Prop :=
  r.manual = r'.manual ∧ ∃ lead, IsLead lead ∧ r.text = lead ++ s ∧ r'.text = lead ++ s'

/-- Both outlines have a fault or neither has, and then the regions are as `Q` says. -/
def Outline.Match (Q : List Region → List Region → Prop) (o o' : Outline) : Prop :=
  (o.fault = none ↔ o'.fault = none) ∧ (o.fault = none → Q o.regions o'.regions)

section Outlines

variable {Q Q' : List Region → List Region → Prop} {r r' : Region} {marks marks' : List Mark}
  {s s' : List Char}

/-- Outlines match if they do behind the same marker. -/
theorem Outline.Match.cons {m m' : Mark} (hmanual : r.manual = r'.manual)
    (hm : m.marker = m'.marker) (hQ : ∀ rs rs', Q rs rs' → Q' (r :: rs) (r' :: rs'))
    (h : Outline.Match Q (outlineFrom ⟨!r.manual, m.line, m.text⟩ marks)
      (outlineFrom ⟨!r'.manual, m'.line, m'.text⟩ marks')) :
    Outline.Match Q' (outlineFrom r (m :: marks)) (outlineFrom r' (m' :: marks')) := by
  by_cases hturn : m.marker = if r.manual then .finish else .start
  · rw [outlineFrom_turn marks hturn, outlineFrom_turn marks' (by rw [← hm, ← hmanual, hturn])]
    exact ⟨h.1, fun hfault => hQ _ _ (h.2 hfault)⟩
  · obtain ⟨fault, hstops, -⟩ := outlineFrom_misplaced marks hturn
    obtain ⟨fault', hstops', -⟩ :=
      outlineFrom_misplaced (r := r') marks' (by rw [← hm, ← hmanual]; exact hturn)
    rw [hstops, hstops']
    exact ⟨iff_of_false (Option.some_ne_none _) (Option.some_ne_none _),
      fun hfault => absurd hfault (Option.some_ne_none _)⟩

/-- Where no marker is left, a region that is not manual ends the outline. -/
theorem Outline.Match.last (hmanual : r.manual = r'.manual) (hQ : Q [r] [r']) :
    Outline.Match Q (outlineFrom r []) (outlineFrom r' []) := by
  unfold outlineFrom
  rw [← hmanual]
  cases r.manual with
  | true =>
    exact ⟨iff_of_false (Option.some_ne_none _) (Option.some_ne_none _),
      fun hfault => absurd hfault (Option.some_ne_none _)⟩
  | false => exact ⟨Iff.rfl, fun _ => hQ⟩

/-- Outlines match where the same markers stand between texts that are as `P` says. -/
theorem outlineFrom_forall₂ {P : List Char → List Char → Prop}
    (hr : r.manual = r'.manual ∧ P r.text r'.text)
    (h : List.Forall₂ (fun m m' : Mark => m.marker = m'.marker ∧ P m.text m'.text) marks marks') :
    Outline.Match
      (List.Forall₂ fun r r' : Region => r.manual = r'.manual ∧ P r.text r'.text)
      (outlineFrom r marks) (outlineFrom r' marks') := by
  induction h generalizing r r' with
  | nil => exact .last hr.1 (.cons hr .nil)
  | cons hm _ ih =>
    exact .cons hr.1 hm.1 (fun rs rs' h => .cons hr h)
      (ih ⟨congrArg (!·) hr.1, hm.2⟩)

theorem outlineFrom_same (hr : r.Same r') (h : List.Forall₂ Mark.Same marks marks') :
    Outline.Match (List.Forall₂ Region.Same) (outlineFrom r marks) (outlineFrom r' marks') :=
  outlineFrom_forall₂ hr h

/-- The exchanged stretch is the first region. -/
theorem outlineFrom_first (hr : Region.Exchanged s s' r r') (h : List.Forall₂ Mark.Same marks marks') :
    Outline.Match (OneOff Region.Same (Region.Exchanged s s')) (outlineFrom r marks)
      (outlineFrom r' marks') := by
  cases h with
  | nil => exact .last hr.1 (.here hr .nil)
  | cons hm h =>
    exact .cons hr.1 hm.1 (fun rs rs' h => .here hr h)
      (outlineFrom_same ⟨congrArg (!·) hr.1, hm.2⟩ h)

/-- **An exchanged stretch is one region of the outline.** -/
theorem outlineFrom_exchange (hr : r.Same r')
    (h : OneOff Mark.Same (Mark.Exchanged s s') marks marks') :
    Outline.Match (OneOff Region.Same (Region.Exchanged s s')) (outlineFrom r marks)
      (outlineFrom r' marks') := by
  induction h generalizing r r' with
  | here hm h =>
    exact .cons hr.1 hm.1 (fun rs rs' h => .behind hr h)
      (outlineFrom_first ⟨congrArg (!·) hr.1, hm.2⟩ h)
  | behind hm _ ih =>
    exact .cons hr.1 hm.1 (fun rs rs' h => .behind hr h) (ih ⟨congrArg (!·) hr.1, hm.2⟩)

end Outlines

end SchemaDrift.Sql
