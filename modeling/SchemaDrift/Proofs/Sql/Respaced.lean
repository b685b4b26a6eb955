/-
  SchemaDrift.Proofs.Sql.Respaced
  ───────────────────────────────
  **ROWS OF GLYPHS THAT DIFFER IN THEIR GAPS ONLY.**

  Two rows are respaced if they have the same glyphs in the same order, gaps left aside, and
  gaps in the same places: one may be longer than the other, or a comment where the other is
  white space (`Respaced`).  Nothing that is squeezed sees a difference between them
  (`squeeze_eq`, `spellType_eq`), and they are cut in the same places (`split`, `pieces`).
-/

import SchemaDrift.Proofs.Sql.Exchange
import SchemaDrift.Table.TypeName

namespace SchemaDrift.Sql

open SchemaDrift.Text SchemaDrift.Table

/-! ## §1. Runs of gaps. -/

/-- The glyphs are gaps, at least one. -/
structure IsRun (a : List Glyph) : Prop where
  ne_nil : a ≠ []
  gaps : ∀ g ∈ a, g.isGap = true

theorem IsRun.append {a b : List Glyph} (ha : IsRun a) (hb : IsRun b) : IsRun (a ++ b) := by
  refine ⟨List.append_ne_nil_of_left_ne_nil ha.ne_nil b, fun g hg => ?_⟩
  rcases List.mem_append.1 hg with hg | hg
  · exact ha.gaps g hg
  · exact hb.gaps g hg

theorem IsRun.reverse {a : List Glyph} (ha : IsRun a) : IsRun a.reverse :=
  ⟨fun h => ha.ne_nil (List.reverse_eq_nil_iff.1 h), fun g hg => ha.gaps g (List.mem_reverse.1 hg)⟩

theorem isRun_singleton {g : Glyph} (hg : g.isGap = true) : IsRun [g] :=
  ⟨List.cons_ne_nil g [], List.forall_mem_singleton.2 hg⟩

/-- No gap is in front. -/
def Begins (gs : List Glyph) : Prop := ∀ g ∈ gs.head?, g.isGap = false

theorem begins_nil : Begins [] := fun _ h => nomatch h

theorem begins_cons {g : Glyph} {gs : List Glyph} (hg : g.isGap = false) : Begins (g :: gs) := by
  intro x hx
  rw [← Option.some.inj hx]
  exact hg

/-- Gaps are dropped up to what begins. -/
theorem dropWhile_run {a gs : List Glyph} (ha : ∀ g ∈ a, g.isGap = true) (hgs : Begins gs) :
    (a ++ gs).dropWhile Glyph.isGap = gs := by
  rw [List.dropWhile_append_of_pos ha]
  cases gs with
  | nil => rfl
  | cons g gs => rw [List.dropWhile_cons_of_neg (by rw [hgs g rfl]; exact Bool.false_ne_true)]

/-- There is one way to take the gaps off the front. -/
theorem run_unique {a a' gs gs' : List Glyph} (ha : ∀ g ∈ a, g.isGap = true)
    (ha' : ∀ g ∈ a', g.isGap = true) (hgs : Begins gs) (hgs' : Begins gs')
    (h : a ++ gs = a' ++ gs') : a = a' ∧ gs = gs' := by
  have hbehind : gs = gs' := by rw [← dropWhile_run ha hgs, h, dropWhile_run ha' hgs']
  rw [hbehind] at h
  exact ⟨List.append_cancel_right h, hbehind⟩

/-! ## §2. The relation. -/

/-- The rows differ in their gaps only, and have them in the same places. -/
inductive Respaced : List Glyph → List Glyph → Prop where
  | nil : Respaced [] []
  | same {g : Glyph} {gs hs : List Glyph} (hg : g.isGap = false) (h : Respaced gs hs) :
    Respaced (g :: gs) (g :: hs)
  | gap {a b gs hs : List Glyph} (ha : IsRun a) (hb : IsRun b) (hgs : Begins gs)
      (h : Respaced gs hs) : Respaced (a ++ gs) (b ++ hs)

namespace Respaced

variable {gs hs ks : List Glyph}

/-- The same glyph is in front, if it is no gap. -/
theorem head_eq (h : Respaced gs hs) (hgs : Begins gs) : gs.head? = hs.head? := by
  cases h with
  | nil => rfl
  | same hg h => rfl
  | @gap a b gs hs ha hb _ h =>
    obtain ⟨x, a, rfl⟩ := List.exists_cons_of_ne_nil ha.ne_nil
    have hx := hgs x rfl
    rw [ha.gaps x List.mem_cons_self] at hx
    cases hx

theorem begins (h : Respaced gs hs) (hgs : Begins gs) : Begins hs := by
  unfold Begins
  rw [← h.head_eq hgs]
  exact hgs

/-- Gaps in front, whatever comes behind them. -/
theorem run {a b : List Glyph} (ha : IsRun a) (hb : IsRun b) (h : Respaced gs hs) :
    Respaced (a ++ gs) (b ++ hs) := by
  cases h with
  | nil => exact .gap ha hb begins_nil .nil
  | same hg h => exact .gap ha hb (begins_cons hg) (.same hg h)
  | gap ha' hb' hgs h =>
    rw [← List.append_assoc, ← List.append_assoc]
    exact .gap (ha.append ha') (hb.append hb') hgs h

theorem refl (gs : List Glyph) : Respaced gs gs := by
  induction gs with
  | nil => exact .nil
  | cons g gs ih =>
    by_cases hg : g.isGap = true
    · exact run (isRun_singleton hg) (isRun_singleton hg) ih
    · exact .same (Bool.eq_false_iff.2 hg) ih

theorem symm (h : Respaced gs hs) : Respaced hs gs := by
  induction h with
  | nil => exact .nil
  | same hg _ ih => exact .same hg ih
  | gap ha hb hgs h ih => exact .gap hb ha (h.begins hgs) ih

/-- What a row is respaced to that begins with a glyph that is no gap. -/
theorem of_cons {g : Glyph} (hg : g.isGap = false) (h : Respaced (g :: gs) ks) :
    ∃ hs, ks = g :: hs ∧ Respaced gs hs := by
  generalize hrow : g :: gs = row at h
  cases h with
  | nil => cases hrow
  | same hg' h =>
    obtain ⟨rfl, rfl⟩ := List.cons.inj hrow
    exact ⟨_, rfl, h⟩
  | @gap a b gs' hs' ha hb _ h =>
    obtain ⟨x, a, rfl⟩ := List.exists_cons_of_ne_nil ha.ne_nil
    rw [List.cons_append] at hrow
    rw [(List.cons.inj hrow).1, ha.gaps x List.mem_cons_self] at hg
    cases hg

/-- What a row is respaced to that begins with gaps. -/
theorem of_run {a : List Glyph} (ha : IsRun a) (hgs : Begins gs) (h : Respaced (a ++ gs) ks) :
    ∃ b hs, ks = b ++ hs ∧ IsRun b ∧ Respaced gs hs := by
  generalize hrow : a ++ gs = row at h
  obtain ⟨x, a, rfl⟩ := List.exists_cons_of_ne_nil ha.ne_nil
  cases h with
  | nil => cases hrow
  | same hg h =>
    rw [List.cons_append] at hrow
    rw [← (List.cons.inj hrow).1, ha.gaps x List.mem_cons_self] at hg
    cases hg
  | gap ha' hb hgs' h =>
    obtain ⟨-, rfl⟩ := run_unique ha.gaps ha'.gaps hgs hgs' hrow
    exact ⟨_, _, rfl, hb, h⟩

theorem trans (h : Respaced gs hs) (h' : Respaced hs ks) : Respaced gs ks := by
  induction h generalizing ks with
  | nil => exact h'
  | same hg _ ih =>
    obtain ⟨ks, rfl, hks⟩ := h'.of_cons hg
    exact .same hg (ih hks)
  | gap ha hb hgs h ih =>
    obtain ⟨b, ks, rfl, hb', hks⟩ := h'.of_run hb (h.begins hgs)
    exact .gap ha hb' hgs (ih hks)

theorem append {gs' hs' : List Glyph} (h : Respaced gs hs) (h' : Respaced gs' hs') :
    Respaced (gs ++ gs') (hs ++ hs') := by
  induction h with
  | nil => exact h'
  | same hg _ ih => exact .same hg ih
  | gap ha hb _ _ ih =>
    rw [List.append_assoc, List.append_assoc]
    exact run ha hb ih

theorem reverse (h : Respaced gs hs) : Respaced gs.reverse hs.reverse := by
  induction h with
  | nil => exact .nil
  | same hg _ ih =>
    rw [List.reverse_cons, List.reverse_cons]
    exact ih.append (.same hg .nil)
  | gap ha hb _ _ ih =>
    rw [List.reverse_append, List.reverse_append]
    refine ih.append ?_
    have hrun := Respaced.gap ha.reverse hb.reverse begins_nil .nil
    rwa [List.append_nil, List.append_nil] at hrun

theorem dropGaps (h : Respaced gs hs) :
    Respaced (gs.dropWhile Glyph.isGap) (hs.dropWhile Glyph.isGap) := by
  induction h with
  | nil => exact .nil
  | same hg h _ =>
    rw [List.dropWhile_cons_of_neg (by rw [hg]; exact Bool.false_ne_true),
      List.dropWhile_cons_of_neg (by rw [hg]; exact Bool.false_ne_true)]
    exact .same hg h
  | gap ha hb hgs h _ =>
    rw [dropWhile_run ha.gaps hgs, dropWhile_run hb.gaps (h.begins hgs)]
    exact h

/-- Without gaps there is nothing to respace. -/
theorem eq_of_gapless (h : Respaced gs hs) (hgs : ∀ g ∈ gs, g.isGap = false) : gs = hs := by
  induction h with
  | nil => rfl
  | same _ _ ih => rw [ih (List.forall_mem_cons.1 hgs).2]
  | @gap a b gs hs ha hb _ _ _ =>
    obtain ⟨x, a, rfl⟩ := List.exists_cons_of_ne_nil ha.ne_nil
    have hx := hgs x List.mem_cons_self
    rw [ha.gaps x List.mem_cons_self] at hx
    cases hx

/-- What a row is respaced to that begins without gaps. -/
theorem of_gapless {front behind : List Glyph} (hfront : ∀ g ∈ front, g.isGap = false)
    (h : Respaced (front ++ behind) ks) : ∃ behind', ks = front ++ behind' ∧ Respaced behind behind' := by
  induction front generalizing ks with
  | nil => exact ⟨ks, rfl, h⟩
  | cons g front ih =>
    obtain ⟨hg, hfront⟩ := List.forall_mem_cons.1 hfront
    obtain ⟨hs, rfl, hs'⟩ := h.of_cons hg
    obtain ⟨behind', rfl, hbehind⟩ := ih hfront hs'
    exact ⟨behind', rfl, hbehind⟩

theorem eq_nil_iff (h : Respaced gs hs) : gs = [] ↔ hs = [] := by
  cases h with
  | nil => exact Iff.rfl
  | same hg h => exact iff_of_false (List.cons_ne_nil _ _) (List.cons_ne_nil _ _)
  | gap ha hb _ _ =>
    exact iff_of_false (List.append_ne_nil_of_left_ne_nil ha.ne_nil _)
      (List.append_ne_nil_of_left_ne_nil hb.ne_nil _)

/-! ## §3. Cuts. -/

/-- **Respaced rows are cut in two at the same glyph**, if it is no gap. -/
theorem split {front behind : List Glyph} {g : Glyph} (hg : g.isGap = false)
    (h : Respaced (front ++ g :: behind) ks) : ∃ front' behind', ks = front' ++ g :: behind'
      ∧ Respaced front front' ∧ Respaced behind behind' := by
  generalize hrow : front ++ g :: behind = row at h
  induction h generalizing front with
  | nil => exact absurd hrow (List.append_ne_nil_of_right_ne_nil _ (List.cons_ne_nil _ _))
  | same hx h ih =>
    cases front with
    | nil =>
      obtain ⟨rfl, rfl⟩ := List.cons.inj hrow
      exact ⟨[], _, rfl, .nil, h⟩
    | cons y front =>
      obtain ⟨rfl, hrest⟩ := List.cons.inj hrow
      obtain ⟨front', behind', rfl, hfront, hbehind⟩ := ih hrest
      exact ⟨y :: front', behind', rfl, .same hx hfront, hbehind⟩
  | @gap a b gs hs ha hb hgs h ih =>
    -- the glyph is none of the gaps
    obtain ⟨front', rfl, hrest⟩ : ∃ front', front = a ++ front' ∧ front' ++ g :: behind = gs := by
      rcases List.append_eq_append_iff.1 hrow with ⟨c, rfl, hc⟩ | ⟨c, rfl, hc⟩
      · cases c with
        | nil => exact ⟨[], by simp, hc⟩
        | cons x c =>
          obtain ⟨rfl, -⟩ := List.cons.inj hc
          rw [ha.gaps g (List.mem_append_right _ List.mem_cons_self)] at hg
          cases hg
      · exact ⟨c, rfl, hc.symm⟩
    obtain ⟨front', behind', rfl, hfront, hbehind⟩ := ih hrest
    exact ⟨b ++ front', behind', by rw [List.append_assoc], run ha hb hfront, hbehind⟩

/-- **Respaced rows have respaced pieces**, if they are cut behind no gap. -/
theorem pieces {p : Glyph → Bool} (hp : ∀ g, g.isGap = true → p g = false) (h : Respaced gs hs) :
    List.Forall₂ Respaced (splitAfter p gs) (splitAfter p hs) := by
  have hrun : ∀ {a : List Glyph}, IsRun a → ∀ g ∈ a, p g = false :=
    fun ha g hg => hp g (ha.gaps g hg)
  induction h with
  | nil => exact .nil
  | @same g gs hs hg h ih =>
    rw [splitAfter, splitAfter]
    generalize splitAfter p gs = ps at ih ⊢
    generalize splitAfter p hs = qs at ih ⊢
    split
    · exact .cons (.same hg .nil) ih
    · cases ih with
      | nil => exact .cons (.same hg .nil) .nil
      | cons hpiece hpieces => exact .cons (.same hg hpiece) hpieces
  | @gap a b gs hs ha hb hgs h ih =>
    rw [splitAfter_append_none (hrun ha) ha.ne_nil, splitAfter_append_none (hrun hb) hb.ne_nil]
    generalize splitAfter p gs = ps at ih ⊢
    generalize splitAfter p hs = qs at ih ⊢
    cases ih with
    | nil =>
      refine .cons ?_ .nil
      have hgap := Respaced.gap ha hb begins_nil .nil
      rwa [List.append_nil, List.append_nil] at hgap
    | cons hpiece hpieces => exact .cons (run ha hb hpiece) hpieces

/-! ## §4. What is squeezed. -/

theorem squeeze_run {a : List Glyph} (ha : IsRun a) (started pending : Bool) (gs : List Glyph) :
    squeeze started pending (a ++ gs) = squeeze started true gs := by
  have hgaps : ∀ {a : List Glyph}, (∀ g ∈ a, g.isGap = true) →
      squeeze started true (a ++ gs) = squeeze started true gs := by
    intro a ha
    induction a with
    | nil => rfl
    | cons g a ih =>
      obtain ⟨hg, ha⟩ := List.forall_mem_cons.1 ha
      rw [List.cons_append, squeeze, if_pos hg, ih ha]
  obtain ⟨g, a, rfl⟩ := List.exists_cons_of_ne_nil ha.ne_nil
  obtain ⟨hg, ha⟩ := List.forall_mem_cons.1 ha.gaps
  rw [List.cons_append, squeeze, if_pos hg, hgaps ha]

theorem squeeze_eq (h : Respaced gs hs) (started pending : Bool) :
    squeeze started pending gs = squeeze started pending hs := by
  induction h generalizing started pending with
  | nil => rfl
  | same hg _ ih => simp only [squeeze, ih]
  | gap ha hb _ _ ih => rw [squeeze_run ha, squeeze_run hb, ih]

theorem spellType_run {a : List Glyph} (ha : IsRun a) (last : Option Char) (pending : Bool)
    (gs : List Glyph) : spellType last pending (a ++ gs) = spellType last true gs := by
  have hgaps : ∀ {a : List Glyph}, (∀ g ∈ a, g.isGap = true) →
      spellType last true (a ++ gs) = spellType last true gs := by
    intro a ha
    induction a with
    | nil => rfl
    | cons g a ih =>
      obtain ⟨hg, ha⟩ := List.forall_mem_cons.1 ha
      rw [List.cons_append, spellType, if_pos hg, ih ha]
  obtain ⟨g, a, rfl⟩ := List.exists_cons_of_ne_nil ha.ne_nil
  obtain ⟨hg, ha⟩ := List.forall_mem_cons.1 ha.gaps
  rw [List.cons_append, spellType, if_pos hg, hgaps ha]

theorem spellType_eq (h : Respaced gs hs) (last : Option Char) (pending : Bool) :
    spellType last pending gs = spellType last pending hs := by
  induction h generalizing last pending with
  | nil => rfl
  | same hg _ ih => simp only [spellType, ih]
  | gap ha hb _ _ ih => rw [spellType_run ha, spellType_run hb, ih]

end Respaced

/-- **Respaced texts have one normal form.** -/
theorem normalize_respaced {s s' : List Char} (h : Respaced (classify s) (classify s')) :
    normalize s = normalize s' := by
  unfold normalize
  rw [h.squeeze_eq]

/-- **Respaced texts spell one type.** -/
theorem canonicalType_respaced {s s' : List Char} (h : Respaced (classify s) (classify s')) :
    canonicalType s = canonicalType s' := by
  unfold canonicalType
  rw [h.spellType_eq]

/-! ## §5. What is between the gaps around a row. -/

/-- The row without the gaps around it. -/
def core (gs : List Glyph) : List Glyph :=
  ((gs.dropWhile Glyph.isGap).reverse.dropWhile Glyph.isGap).reverse

theorem core_respaced {gs hs : List Glyph} (h : Respaced gs hs) : Respaced (core gs) (core hs) :=
  h.dropGaps.reverse.dropGaps.reverse

theorem core_eq {a m b : List Glyph} (ha : ∀ g ∈ a, g.isGap = true) (hb : ∀ g ∈ b, g.isGap = true)
    (hbegins : Begins m) (hends : Begins m.reverse) : core (a ++ (m ++ b)) = m := by
  unfold core
  by_cases hnil : m = []
  · have hall : ∀ g ∈ a ++ b, g.isGap = true := by
      intro g hg
      rcases List.mem_append.1 hg with hg | hg
      · exact ha g hg
      · exact hb g hg
    rw [hnil, List.nil_append, List.dropWhile_eq_nil_iff.2 hall]
    rfl
  · have hmb : Begins (m ++ b) := by
      obtain ⟨x, m, rfl⟩ := List.exists_cons_of_ne_nil hnil
      exact begins_cons (hbegins x rfl)
    rw [dropWhile_run ha hmb, List.reverse_append,
      dropWhile_run (fun g hg => hb g (List.mem_reverse.1 hg)) hends, List.reverse_reverse]

/-- What is around the core of a row. -/
theorem exists_core (gs : List Glyph) : ∃ a b, gs = a ++ (core gs ++ b)
    ∧ (∀ g ∈ a, g.isGap = true) ∧ ∀ g ∈ b, g.isGap = true := by
  have hfront := List.takeWhile_append_dropWhile (p := Glyph.isGap) (l := gs)
  have hbehind := List.takeWhile_append_dropWhile (p := Glyph.isGap)
    (l := (gs.dropWhile Glyph.isGap).reverse)
  refine ⟨gs.takeWhile Glyph.isGap, ((gs.dropWhile Glyph.isGap).reverse.takeWhile Glyph.isGap).reverse,
    ?_, List.all_eq_true.1 List.all_takeWhile, fun g hg => ?_⟩
  · unfold core
    rw [← List.reverse_append, hbehind, List.reverse_reverse, hfront]
  · exact List.all_eq_true.1 List.all_takeWhile g (List.mem_reverse.1 hg)

theorem begins_dropWhile (gs : List Glyph) : Begins (gs.dropWhile Glyph.isGap) := by
  intro g hg
  have hnot := List.head?_dropWhile_not Glyph.isGap gs
  rw [Option.mem_def.1 hg] at hnot
  simpa using hnot

/-- A core begins and ends with no gap. -/
theorem begins_core (gs : List Glyph) : Begins (core gs) ∧ Begins (core gs).reverse := by
  constructor
  · obtain ⟨c, hc⟩ := List.dropWhile_suffix (l := (gs.dropWhile Glyph.isGap).reverse) Glyph.isGap
    have hfront : core gs ++ c.reverse = gs.dropWhile Glyph.isGap := by
      rw [core, ← List.reverse_append, hc, List.reverse_reverse]
    intro g hg
    refine begins_dropWhile gs g ?_
    rw [← hfront, List.head?_append, Option.mem_def.1 hg]
    rfl
  · rw [core, List.reverse_reverse]
    exact begins_dropWhile _

/-- Gaps around a row are not of its core. -/
theorem core_between {a b : List Glyph} (ha : ∀ g ∈ a, g.isGap = true) (hb : ∀ g ∈ b, g.isGap = true)
    (gs : List Glyph) : core (a ++ (gs ++ b)) = core gs := by
  obtain ⟨x, y, hgs, hx, hy⟩ := exists_core gs
  obtain ⟨hbegins, hends⟩ := begins_core gs
  have hwhole : a ++ (gs ++ b) = (a ++ x) ++ (core gs ++ (y ++ b)) := by
    conv_lhs => rw [hgs]
    simp only [List.append_assoc]
  rw [hwhole]
  refine core_eq (fun g hg => ?_) (fun g hg => ?_) hbegins hends
  · exact (List.mem_append.1 hg).elim (ha g) (hx g)
  · exact (List.mem_append.1 hg).elim (hy g) (hb g)

/-- A normal form is that of what is between the gaps. -/
theorem normal_core (gs : List Glyph) : trimEndWhile isClosing (squeeze false false (core gs))
    = trimEndWhile isClosing (squeeze false false gs) := by
  obtain ⟨a, b, hgs, ha, hb⟩ := exists_core gs
  conv_rhs => rw [hgs, squeeze_gaps_append ha, normal_append fun g hg => Or.inl (hb g hg)]

/-- The texts have the same glyphs between the gaps around them, gaps left aside, and gaps in the
same places. -/
def SaySame (s s' : List Char) : Prop := Respaced (core (classify s)) (core (classify s'))

/-- **Texts that say the same have one normal form.** -/
theorem SaySame.normalize_eq {s s' : List Char} (h : SaySame s s') : normalize s = normalize s' := by
  unfold normalize
  rw [← normal_core, ← normal_core (classify s'), h.squeeze_eq]

end SchemaDrift.Sql
