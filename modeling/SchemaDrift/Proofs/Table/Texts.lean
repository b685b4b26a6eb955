/-
  SchemaDrift.Proofs.Table.Texts
  ──────────────────────────────
  **THE TEXTS OF A COLUMN: ITS TYPE, ITS DEFAULT, THE CONDITION OF ITS CHECK.**

  What a text has to be to stand in a definition: nothing is left open in it, it has no
  comments, its brackets are nested (`Tidy`), and it is spelled as the reader spells it.
  A spelling that does not change has no white space at its ends, so that such a text is a
  part of the definition.

      ends_canonical     a type in its canonical spelling
      ends_normal        an expression in its normal form
      part_grouped       a text in parentheses, which is one token
-/

import SchemaDrift.Proofs.Table.Columns
import SchemaDrift.Proofs.Table.Names

namespace SchemaDrift.Table

open SchemaDrift.Sql SchemaDrift.Text

/-! ## §1. The texts of a column. -/

/-- Nothing is open at the end of the text, it has no comments, and its brackets are
properly nested. -/
structure Tidy (s : List Char) : Prop where
  closed : unclosed? s = none
  uncommented : ∀ g ∈ classify s, g.cls ≠ .comment
  nested : Nested (classify s)

/-- The text is the type of a column of this name. -/
structure IsType (name : String) (t : List Char) : Prop where
  tidy : Tidy t
  uncut : Uncut (classify t)
  nonempty : t ≠ []
  canonical : canonicalType t = t
  clauses : ∀ u ∈ tokenize t, u.beginsClause = false
  /-- The word `exclude` in front of these begins a constraint of the table. -/
  exclude : name = "exclude" → leads "USING" (tokenize t) = false ∧ leadsGroup (tokenize t) = false

/-- The number of `CASE`s that are open behind a token, `depth` being open before it; none if
it is an `END` without one. -/
def caseStep? (depth : Nat) (t : Token) : Option Nat :=
  if t.isKeyword "CASE" then some (depth + 1)
  else if t.isKeyword "END" then
    match depth with
    | 0 => none
    | n + 1 => some n
  else some depth

/-- The number of `CASE`s that are open behind some tokens. -/
def caseDepth? (depth : Nat) (ts : List Token) : Option Nat := ts.foldlM caseStep? depth

theorem caseDepth?_cons (depth : Nat) (t : Token) (ts : List Token) :
    caseDepth? depth (t :: ts) = (caseStep? depth t).bind (caseDepth? · ts) :=
  List.foldlM_cons ..

/-- The text is a default: outside of `CASE … END` no token begins a clause, but the first. -/
structure IsDefault (d : List Char) : Prop where
  tidy : Tidy d
  uncut : Uncut (classify d)
  normal : normalize d = d
  value : isNullWord d = false
  cases : caseDepth? 0 (tokenize d) = some 0
  clauses : ∀ front t behind, tokenize d = front ++ t :: behind → front ≠ [] →
    caseDepth? 0 front = some 0 → t.beginsClause = false

/-- The text is the condition of a check. -/
structure IsCondition (k : List Char) : Prop where
  tidy : Tidy k
  nonempty : k ≠ []
  normal : normalize k = k

theorem Tidy.complete {s : List Char} (h : Tidy s) : Complete s :=
  complete_of_closed h.closed h.uncommented

theorem length_classify (s : List Char) : (classify s).length = s.length := by
  have hlength := congrArg List.length (classify_map_char s)
  rw [List.length_map] at hlength
  exact hlength

/-- Spelling a type makes it longer by at most the space in front. -/
theorem spellType_length (last : Option Char) (pending : Bool) (gs : List Glyph) :
    (spellType last pending gs).length
      ≤ gs.length + if pending && last.isSome then 1 else 0 := by
  induction gs generalizing last pending with
  | nil => exact Nat.zero_le _
  | cons g gs ih =>
    rw [spellType]
    split
    · have hrest := ih last true
      rw [List.length_cons]
      cases last with
      | none =>
        simp only [Option.isSome_none, Bool.and_false, Bool.false_eq_true, if_false] at hrest ⊢
        omega
      | some c =>
        simp only [Option.isSome_some, Bool.and_true, if_true] at hrest
        omega
    · dsimp only
      split
      · -- the space that was pending is spelled in front of the character
        next hspaced =>
        have hlast : (pending && last.isSome) = true := by
          simp only [Bool.and_eq_true] at hspaced ⊢
          obtain ⟨⟨hpending, hany⟩, -⟩ := hspaced
          refine ⟨hpending, ?_⟩
          cases last with
          | none => cases hany
          | some c => rfl
        rw [hlast, List.length_cons, List.length_cons, List.length_cons]
        have hrest := ih (some (if g.cls = .code then g.char.toUpper else g.char)) false
        simp only [Bool.false_and, Bool.false_eq_true, if_false] at hrest
        rw [if_pos rfl]
        omega
      · rw [List.length_cons, List.length_cons]
        have hrest := ih (some (if g.cls = .code then g.char.toUpper else g.char)) false
        simp only [Bool.false_and, Bool.false_eq_true, if_false] at hrest
        omega

/-- A gap at the end is not spelled. -/
theorem spellType_concat (last : Option Char) (pending : Bool) (gs : List Glyph) {g : Glyph}
    (hg : g.isGap = true) : spellType last pending (gs ++ [g]) = spellType last pending gs := by
  induction gs generalizing last pending with
  | nil => simp [spellType, hg]
  | cons x gs ih =>
    rw [List.cons_append, spellType, spellType]
    simp only [ih]

/-- **A type in its canonical spelling neither begins nor ends with a gap.** -/
theorem ends_canonical {t : List Char} (h : canonicalType t = t) :
    (∀ g ∈ (classify t).head?, g.isGap = false) ∧ ∀ g ∈ (classify t).getLast?, g.isGap = false := by
  have hlength : (spellType none false (classify t)).length = (classify t).length := by
    rw [length_classify]
    exact congrArg List.length h
  refine ⟨fun g hg => ?_, fun g hg => ?_⟩
  · by_contra hgap
    rw [Bool.not_eq_false] at hgap
    obtain ⟨gs, hgs⟩ := List.head?_eq_some_iff.1 hg
    rw [hgs, spellType, if_pos hgap, List.length_cons] at hlength
    have hle := spellType_length none true gs
    simp only [Option.isSome_none, Bool.and_false, Bool.false_eq_true, if_false] at hle
    omega
  · by_contra hgap
    rw [Bool.not_eq_false] at hgap
    obtain ⟨gs, hgs⟩ := List.getLast?_eq_some_iff.1 hg
    rw [hgs, spellType_concat none false gs hgap, List.length_append] at hlength
    have hle := spellType_length none false gs
    simp only [Bool.false_and, Bool.false_eq_true, if_false] at hle
    simp only [List.length_singleton] at hlength
    omega

/-- Squeezing makes a row longer by at most the space in front. -/
theorem squeeze_length (started pending : Bool) (gs : List Glyph) :
    (squeeze started pending gs).length ≤ gs.length + if pending && started then 1 else 0 := by
  induction gs generalizing started pending with
  | nil => exact Nat.zero_le _
  | cons g gs ih =>
    rw [squeeze]
    split
    · have hrest := ih started true
      rw [List.length_cons]
      cases started with
      | false =>
        simp only [Bool.and_false, Bool.false_eq_true, if_false] at hrest ⊢
        omega
      | true =>
        simp only [Bool.and_true, if_true] at hrest
        omega
    · have hrest := ih true false
      simp only [Bool.false_and, Bool.false_eq_true, if_false] at hrest
      split
      · simp only [List.length_cons]
        omega
      · simp only [List.length_cons]
        omega

/-- **A text in its normal form neither begins nor ends with a gap.** -/
theorem ends_normal {d : List Char} (hcomment : ∀ g ∈ classify d, g.cls ≠ .comment)
    (h : normalize d = d) :
    (∀ g ∈ (classify d).head?, g.isGap = false) ∧ ∀ g ∈ (classify d).getLast?, g.isGap = false := by
  have hlength := length_classify d
  refine ⟨fun g hg => ?_, fun g hg => ?_⟩
  · by_contra hgap
    rw [Bool.not_eq_false] at hgap
    obtain ⟨gs, hgs⟩ := List.head?_eq_some_iff.1 hg
    obtain ⟨r, hr, -⟩ := exists_trimmed isClosing (squeeze false false (classify d))
    -- a gap in front is dropped, and the text is shorter without it
    have hshorter := congrArg List.length hr
    rw [show trimEndWhile isClosing (squeeze false false (classify d)) = d from h,
      List.length_append, hgs, squeeze, if_pos hgap] at hshorter
    rw [hgs, List.length_cons] at hlength
    have hle := squeeze_length false true gs
    simp only [Bool.and_false, Bool.false_eq_true, if_false] at hle
    omega
  · have hlast : d.getLast? = some g.char := by
      rw [← classify_map_char d, List.getLast?_map, hg]
      rfl
    -- the last character of a text in normal form is not one that is trimmed
    have hclosing : isClosing g.char = false := by
      rw [← h] at hlast
      exact trimEndWhile_last hlast
    obtain ⟨c, cls⟩ := g
    cases cls with
    | comment => exact absurd rfl (hcomment _ (List.mem_of_getLast? hg))
    | quoted => rfl
    | code =>
      by_contra hblank
      rw [isClosing_of_isBlank (by simpa [Glyph.isGap] using hblank)] at hclosing
      cases hclosing

/-- A tidy text that no comma cuts and that has no gaps at its ends is a part. -/
theorem Tidy.part {p : List Char} (h : Tidy p) (huncut : Uncut (classify p)) (hne : p ≠ [])
    (hbegins : ∀ g ∈ (classify p).head?, g.isGap = false)
    (hends : ∀ g ∈ (classify p).getLast?, g.isGap = false) : Part p := by
  refine ⟨h.complete, h.uncommented, h.nested, whole_of_uncut h.nested huncut, ?_, hends⟩
  cases hclassify : classify p with
  | nil =>
    have hnil := classify_map_char p
    rw [hclassify] at hnil
    exact absurd hnil.symm hne
  | cons g gs => exact ⟨g, gs, rfl, hbegins g (by rw [hclassify]; rfl)⟩

theorem IsType.part {name : String} {t : List Char} (h : IsType name t) : Part t :=
  h.tidy.part h.uncut h.nonempty (ends_canonical h.canonical).1 (ends_canonical h.canonical).2

theorem IsDefault.part {d : List Char} (h : IsDefault d) (hne : d ≠ []) : Part d :=
  h.tidy.part h.uncut hne (ends_normal h.tidy.uncommented h.normal).1
    (ends_normal h.tidy.uncommented h.normal).2

/-- A text in parentheses. -/
def grouped (k : List Char) : List Char := '(' :: (k ++ [')'])

theorem complete_nil : Complete [] := Lexer.fresh_start.toIdle

theorem classify_grouped {k : List Char} (hk : Complete k) :
    classify (grouped k) = ⟨'(', .code⟩ :: (classify k ++ [⟨')', .code⟩])
      ∧ Complete (grouped k) := by
  have hopen : IsFirm '(' := isFirm_between (by decide)
  have hclose : IsFirm ')' := isFirm_between (by decide)
  have hinner := classify_join hk hclose []
  have houter := classify_join complete_nil hopen (k ++ [')'])
  rw [List.nil_append, hinner] at houter
  exact ⟨houter, complete_join complete_nil hopen (complete_join hk hclose complete_nil)⟩

/-- **A tidy text in parentheses is a part.** -/
theorem part_grouped {k : List Char} (hcomplete : Complete k)
    (huncommented : ∀ g ∈ classify k, g.cls ≠ .comment) (hnested : Nested (classify k)) :
    Part (grouped k) := by
  obtain ⟨hclassify, hgroup⟩ := classify_grouped hcomplete
  refine ⟨hgroup, ?_, ?_, ?_, ⟨_, _, hclassify, by decide⟩, ?_⟩
  · rw [hclassify]
    intro g hg
    rcases List.mem_cons.1 hg with rfl | hg
    · decide
    · rcases List.mem_append.1 hg with hg | hg
      · exact huncommented g hg
      · rw [List.mem_singleton.1 hg]
        decide
  · rw [hclassify]
    exact .group (Or.inl rfl) hnested .nil
  · intro hs
    -- inside of the parentheses no comma counts
    rw [hclassify, List.cons_append, List.append_assoc, commaParts_cons (fun _ => rfl)]
    show prepend ['('] (commaParts 1 0 (classify k ++ _)) = _
    rw [commaParts_nested hnested (by omega), classify_map_char, List.singleton_append,
      commaParts_cons (fun _ => rfl)]
    show prepend ['('] (prepend k (prepend [')'] (commaParts 0 0 hs))) = _
    rw [prepend_prepend, prepend_prepend]
    rfl
  · rw [hclassify, ← List.cons_append, List.getLast?_concat]
    intro g hg
    rw [← Option.some.inj hg]
    decide

/-- A text in parentheses is one token. -/
theorem tokenize_grouped {k : List Char} (hcomplete : Complete k) (hnested : Nested (classify k)) :
    tokenize (grouped k) = [⟨.group, grouped k, []⟩] := by
  have hstart : Reading.between.role ⟨'(', .code⟩ = .start .group (.group '(' 0) := rfl
  have hrow : (Reading.group '(' 0).row (classify k ++ [⟨')', .code⟩]) = _ :=
    row_matched (Or.inl rfl) (hnested.balanced (Or.inl rfl)) []
  unfold tokenize
  rw [(classify_grouped hcomplete).1, row_cons, hstart]
  dsimp only
  rw [hrow, classify_map_char]
  rfl

/-- Between the parentheses of a group the text is got back. -/
theorem inside_grouped (k gap : List Char) :
    (⟨.group, grouped k, gap⟩ : Token).inside = .ok k := by
  unfold Token.inside grouped
  rw [List.tail_cons, List.getLast?_concat, List.dropLast_concat]
  rfl

end SchemaDrift.Table
