/-
  SchemaDrift.Proofs.Table.Restated
  ─────────────────────────────────
  **TEXTS THAT DIFFER IN THEIR WHITE SPACE, AND THEIR PARTS.**

  A definition is read without its comments.  Two of them that are respaced then differ in
  white space only (`Restated`), and so do their parts: those between commas
  (`parts_respaced`), and what is left of these without the white space around
  (`splitTopLevel_restated`).
-/

import SchemaDrift.Proofs.Sql.Stable
import SchemaDrift.Proofs.Table.Parts

namespace SchemaDrift.Table

open SchemaDrift.Sql SchemaDrift.Text

/-! ## §1. Texts without comments. -/

/-- The text has no comments and ends in code. -/
structure Uncommented (t : List Char) : Prop where
  bare : ∀ g ∈ classify t, g.cls ≠ .comment
  complete : Complete t

/-- Two such texts that differ in their gaps only, that is, in white space. -/
structure Restated (t t' : List Char) : Prop where
  respaced : Respaced (classify t) (classify t')
  left : Uncommented t
  right : Uncommented t'

/-- Code that nothing is open behind. -/
theorem complete_of_mode {t : List Char} (h : (({} : Lexer).after t).mode = .code) : Complete t :=
  ⟨h, Lexer.held_after (Lexer.sound_start t)⟩

/-- A text without comments ends in code if nothing quoted is open. -/
theorem complete_of_bare {t : List Char} (hbare : ∀ g ∈ classify t, g.cls ≠ .comment)
    (hclosed : Closed t) : Complete t :=
  idle_of_last hclosed fun g hg => hbare g (List.mem_of_getLast? hg)

theorem Uncommented.closed {t : List Char} (h : Uncommented t) : Closed t := by
  unfold Closed
  rw [Lexer.inside_idle h.complete]
  decide

/-! ## §2. Comments blanked. -/

/-- **A text in which nothing is open reads the same without its comments**, and has other gaps. -/
theorem respaced_uncommented {t : List Char} (ht : unclosed? t = none) :
    Respaced (classify t) (classify (stripComments t)) ∧ Uncommented (stripComments t) := by
  obtain ⟨hrespaced, hbare, hclosed⟩ := respaced_stripComments t
  exact ⟨hrespaced, hbare, complete_of_closed (hclosed ht) hbare⟩

/-! ## §3. Parts. -/

theorem commaParts_gaps {a : List Glyph} (ha : ∀ g ∈ a, g.isGap = true) (parens brackets : Nat)
    (gs : List Glyph) : commaParts parens brackets (a ++ gs)
      = prepend (a.map Glyph.char) (commaParts parens brackets gs) := by
  induction a with
  | nil =>
    obtain ⟨part, parts, h⟩ := commaParts_ne_nil parens brackets gs
    rw [List.nil_append, h]
    rfl
  | cons g a ih =>
    obtain ⟨hg, ha⟩ := List.forall_mem_cons.1 ha
    have hno : ∀ c, isBlank c = false → g.isCode c = false := fun c hc => isCode_of_gap hg hc
    rw [List.cons_append, commaParts_cons fun _ => hno ',' (by decide), hno '(' (by decide),
      hno ')' (by decide), hno '[' (by decide), hno ']' (by decide)]
    rw [if_neg Bool.false_ne_true, if_neg Bool.false_ne_true, if_neg Bool.false_ne_true,
      if_neg Bool.false_ne_true, ih ha, prepend_prepend]
    rfl

/-- **Respaced rows are cut at the same commas.** -/
theorem commaParts_respaced {gs hs : List Glyph} (h : Respaced gs hs) (parens brackets : Nat) :
    commaParts parens brackets gs = [gs.map Glyph.char]
        ∧ commaParts parens brackets hs = [hs.map Glyph.char]
      ∨ ∃ front behind front' behind', gs = front ++ ⟨',', .code⟩ :: behind
        ∧ hs = front' ++ ⟨',', .code⟩ :: behind' ∧ Respaced front front' ∧ Respaced behind behind'
        ∧ commaParts parens brackets gs = front.map Glyph.char :: commaParts 0 0 behind
        ∧ commaParts parens brackets hs = front'.map Glyph.char :: commaParts 0 0 behind' := by
  induction h generalizing parens brackets with
  | nil => exact Or.inl ⟨rfl, rfl⟩
  | @same g gs hs hg h ih =>
    -- a comma outside of all brackets cuts both rows
    by_cases hcut : (g.isCode ',' && parens = 0 && brackets = 0) = true
    · right
      have hcomma : g = ⟨',', .code⟩ := by
        simp only [Bool.and_eq_true] at hcut
        exact Glyph.isCode_iff.1 hcut.1.1
      refine ⟨[], gs, [], hs, by rw [hcomma]; rfl, by rw [hcomma]; rfl, .nil, h, ?_, ?_⟩
      · rw [commaParts, if_pos hcut]
        rfl
      · rw [commaParts, if_pos hcut]
        rfl
    · have hno : parens + brackets = 0 → g.isCode ',' = false := by
        intro hzero
        by_contra hcomma
        rw [Bool.not_eq_false] at hcomma
        refine hcut ?_
        rw [hcomma, decide_eq_true (by omega : parens = 0), decide_eq_true (by omega : brackets = 0)]
        rfl
      rw [commaParts_cons hno, commaParts_cons hno]
      rcases ih _ _ with ⟨hone, hone'⟩ | ⟨front, behind, front', behind', rfl, rfl, hfront, hbehind,
        hmore, hmore'⟩
      · rw [hone, hone']
        exact Or.inl ⟨rfl, rfl⟩
      · rw [hmore, hmore']
        exact Or.inr ⟨g :: front, behind, g :: front', behind', rfl, rfl, .same hg hfront, hbehind,
          rfl, rfl⟩
  | @gap a b gs hs ha hb hgs h ih =>
    rw [commaParts_gaps ha.gaps, commaParts_gaps hb.gaps]
    rcases ih parens brackets with ⟨hone, hone'⟩ | ⟨front, behind, front', behind', rfl, rfl, hfront,
      hbehind, hmore, hmore'⟩
    · rw [hone, hone', List.map_append, List.map_append]
      exact Or.inl ⟨rfl, rfl⟩
    · rw [hmore, hmore', ← List.append_assoc, ← List.append_assoc]
      refine Or.inr ⟨a ++ front, behind, b ++ front', behind', rfl, rfl, .run ha hb hfront, hbehind,
        ?_, ?_⟩
      · rw [List.map_append]
        rfl
      · rw [List.map_append]
        rfl

/-- **What is in front of a firm character in code, and what is behind it, is read by itself.** -/
theorem classify_cut {t : List Char} {c : Char} (hc : IsFirm c) {front behind : List Glyph}
    (h : classify t = front ++ ⟨c, .code⟩ :: behind) :
    classify (front.map Glyph.char) = front ∧ Complete (front.map Glyph.char)
      ∧ classify (behind.map Glyph.char) = behind
      ∧ (Complete t → Complete (behind.map Glyph.char)) := by
  obtain ⟨hfront, hidle, s, hs, -, hbehind, hafter⟩ :=
    Lexer.cut_firm Lexer.fresh_start (Lexer.sound_start t) hc h
  obtain ⟨hclassify, hmode⟩ := Lexer.glyphs_fresh hs (behind.map Glyph.char)
  refine ⟨hfront, hidle, hclassify.symm.trans hbehind, fun ht => complete_of_mode ?_⟩
  rw [← hmode, hafter]
  exact ht.mode

theorem isFirm_comma : IsFirm ',' := by decide +kernel

/-- **The parts of respaced texts are respaced.** -/
theorem parts_respaced {t t' : List Char} (h : Respaced (classify t) (classify t')) :
    List.Forall₂ (fun p p' => Respaced (classify p) (classify p')
        ∧ (Complete t → Complete p) ∧ (Complete t' → Complete p'))
      (commaParts 0 0 (classify t)) (commaParts 0 0 (classify t')) := by
  generalize hn : t.length = n
  induction n using Nat.strongRecOn generalizing t t' with
  | _ n ih =>
    -- both rows are one part, or both are cut at a comma
    rcases commaParts_respaced h 0 0 with ⟨hone, hone'⟩ | ⟨front, behind, front', behind', hsplit,
      hsplit', hfront, hbehind, hmore, hmore'⟩
    · rw [hone, hone', classify_map_char, classify_map_char]
      exact .cons ⟨h, id, id⟩ .nil
    · obtain ⟨hclassify, hcomplete, hrest, hclosed⟩ := classify_cut isFirm_comma hsplit
      obtain ⟨hclassify', hcomplete', hrest', hclosed'⟩ := classify_cut isFirm_comma hsplit'
      rw [hmore, hmore']
      refine .cons ⟨?_, fun _ => hcomplete, fun _ => hcomplete'⟩ ?_
      · rw [hclassify, hclassify']
        exact hfront
      · have hlen : (behind.map Glyph.char).length < n := by
          have htext := (Lexer.glyphs_split hsplit).1
          rw [← hn, htext, List.length_append, List.map_cons, List.length_cons]
          omega
        have hrespaced : Respaced (classify (behind.map Glyph.char))
            (classify (behind'.map Glyph.char)) := by
          rw [hrest, hrest']
          exact hbehind
        have hparts := ih _ hlen hrespaced rfl
        rw [hrest, hrest'] at hparts
        refine hparts.imp fun p p' hp => ?_
        exact ⟨hp.1, fun ht => hp.2.1 (hclosed ht), fun ht => hp.2.2 (hclosed' ht)⟩

/-- The glyphs of a part are glyphs of the text. -/
theorem mem_part {t p : List Char} (hp : p ∈ commaParts 0 0 (classify t)) :
    ∀ g ∈ classify p, g ∈ classify t := by
  generalize hn : t.length = n
  induction n using Nat.strongRecOn generalizing t with
  | _ n ih =>
    rcases commaParts_cases 0 0 (classify t) with hone | ⟨front, behind, hsplit, hmore⟩
    · rw [hone, classify_map_char] at hp
      rw [List.mem_singleton.1 hp]
      exact fun g hg => hg
    · obtain ⟨hclassify, -, hrest, -⟩ := classify_cut isFirm_comma hsplit
      rw [hmore] at hp
      intro g hg
      rw [hsplit]
      rcases List.mem_cons.1 hp with rfl | hp
      · rw [hclassify] at hg
        exact List.mem_append_left _ hg
      · have hlen : (behind.map Glyph.char).length < n := by
          have htext := (Lexer.glyphs_split hsplit).1
          rw [← hn, htext, List.length_append, List.map_cons, List.length_cons]
          omega
        rw [← hrest] at hp
        have hmem := ih _ hlen hp rfl g hg
        rw [hrest] at hmem
        exact List.mem_append_right _ (List.mem_cons_of_mem _ hmem)

/-! ## §4. White space around. -/

/-- A text without the white space around it begins with none. -/
theorem head_trim {t : List Char} {c : Char} (h : (trim t).head? = some c) : isBlank c = false := by
  obtain ⟨r, hr, -⟩ := exists_trimmed isBlank (trimStart t)
  have hhead : (trimStart t).head? = some c := by
    rw [hr, List.head?_append, show trimEndWhile isBlank (trimStart t) = trim t from rfl, h]
    rfl
  have hnot := List.head?_dropWhile_not isBlank t
  rw [show t.dropWhile isBlank = trimStart t from rfl, hhead] at hnot
  simpa using hnot

/-- **Without the white space around it a text has still no comments**, and that is the gaps around it. -/
theorem uncommented_trim {t : List Char} (ht : Uncommented t) :
    Uncommented (trim t) ∧ classify (trim t) = core (classify t)
      ∧ Begins (classify (trim t)) ∧ Begins (classify (trim t)).reverse := by
  obtain ⟨x, y, hsplit, hx, hy⟩ := classify_trim (closed_of_complete ht.complete)
  have hbare : ∀ g ∈ classify (trim t), g.cls ≠ .comment := by
    intro g hg
    refine ht.bare g ?_
    rw [hsplit]
    exact List.mem_append_right _ (List.mem_append_left _ hg)
  -- what is not white, and of no comment, is no gap
  have hgap : ∀ {g : Glyph}, g ∈ classify (trim t) → isBlank g.char = false → g.isGap = false := by
    intro g hg hblank
    by_contra hgap
    rw [(isBlank_of_isGap (Bool.not_eq_false _ ▸ hgap) (hbare g hg)).1] at hblank
    cases hblank
  have hbegins : Begins (classify (trim t)) := by
    intro g hg
    refine hgap (List.mem_of_mem_head? hg) ?_
    have hhead : (trim t).head? = some g.char := by
      rw [← classify_map_char (trim t), List.head?_map, Option.mem_def.1 hg]
      rfl
    exact head_trim hhead
  have hends : Begins (classify (trim t)).reverse := by
    intro g hg
    rw [List.head?_reverse] at hg
    refine hgap (List.mem_of_getLast? hg) ?_
    have hlast : (trim t).getLast? = some g.char := by
      rw [← classify_map_char (trim t), List.getLast?_map, Option.mem_def.1 hg]
      rfl
    exact trimEndWhile_last hlast
  refine ⟨⟨hbare, complete_of_bare hbare (closed_trim ht.closed)⟩, ?_, hbegins, hends⟩
  rw [hsplit, core_eq hx hy hbegins hends]

theorem Restated.trim {t t' : List Char} (h : Restated t t') : Restated (trim t) (trim t') := by
  obtain ⟨hleft, hcore, -⟩ := uncommented_trim h.left
  obtain ⟨hright, hcore', -⟩ := uncommented_trim h.right
  refine ⟨?_, hleft, hright⟩
  rw [hcore, hcore']
  exact core_respaced h.respaced

/-- A restated text is empty if the text is. -/
theorem Restated.isEmpty {t t' : List Char} (h : Restated t t') : t.isEmpty = t'.isEmpty := by
  have hnil : ∀ t : List Char, classify t = [] ↔ t = [] := by
    intro t
    constructor
    · intro ht
      rw [← classify_map_char t, ht]
      rfl
    · rintro rfl
      rfl
  have hiff := h.respaced.eq_nil_iff
  rw [hnil, hnil] at hiff
  rw [Bool.eq_iff_iff, List.isEmpty_iff, List.isEmpty_iff, hiff]

/-- **The entries of restated lists are restated**, and neither begin nor end with a gap. -/
theorem splitTopLevel_restated {t t' : List Char} (h : Restated t t') :
    List.Forall₂ (fun e e' => Restated e e' ∧ Begins (classify e).reverse
      ∧ Begins (classify e').reverse) (splitTopLevel t) (splitTopLevel t') := by
  have hparts := parts_respaced h.respaced
  have hmem : ∀ p ∈ commaParts 0 0 (classify t), ∀ g ∈ classify p, g.cls ≠ .comment :=
    fun p hp g hg => h.left.bare g (mem_part hp g hg)
  have hmem' : ∀ p ∈ commaParts 0 0 (classify t'), ∀ g ∈ classify p, g.cls ≠ .comment :=
    fun p hp g hg => h.right.bare g (mem_part hp g hg)
  unfold splitTopLevel
  generalize commaParts 0 0 (classify t) = ps at hparts hmem
  generalize commaParts 0 0 (classify t') = ps' at hparts hmem'
  induction hparts with
  | nil => exact .nil
  | @cons p p' ps ps' hp hps ih =>
    obtain ⟨hbare, hmem⟩ := List.forall_mem_cons.1 hmem
    obtain ⟨hbare', hmem'⟩ := List.forall_mem_cons.1 hmem'
    have hpart : Restated p p' :=
      ⟨hp.1, ⟨hbare, hp.2.1 h.left.complete⟩, ⟨hbare', hp.2.2 h.right.complete⟩⟩
    have htrim := hpart.trim
    rw [List.map_cons, List.map_cons, List.filter_cons, List.filter_cons, ← htrim.isEmpty]
    by_cases hempty : (Text.trim p).isEmpty = true
    · rw [hempty]
      exact ih hmem hmem'
    · rw [Bool.not_eq_true] at hempty
      rw [hempty]
      exact .cons ⟨htrim, (uncommented_trim hpart.left).2.2.2, (uncommented_trim hpart.right).2.2.2⟩ (ih hmem hmem')

end SchemaDrift.Table
