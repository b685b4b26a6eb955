/-
  SchemaDrift.Proofs.Alter.Quoting
  ────────────────────────────────
  **A WRITTEN NAME STANDS FOR THE NAME, AND FOR NOTHING ELSE.**

  Whatever characters a name is made of, its written form is read back as the name, alone or
  behind the name of a schema.  Between two spaces it is one token, and the text in front of it
  (`LeadsIn`) and the text behind are read as they are read alone:

      CHECK (a > '(')  "odd"".name"  int

  So constraints of one table with the same name are one constraint.
-/

import Mathlib.Data.List.Infix
import SchemaDrift.Proofs.Alter.Closed
import SchemaDrift.Proofs.Alter.Modification

namespace SchemaDrift.Table

open SchemaDrift.Sql SchemaDrift.Text

/-! ## §1. Balanced brackets. -/

/-- Of the brackets of one kind in code no more are closed than were opened, wherever the row of
glyphs is cut, and all of them are closed in the end. -/
def BalancedIn (opening : Char) (gs : List Glyph) : Prop :=
  (∀ pre ∈ gs.inits, pre.countP (·.isCode (closing opening)) ≤ pre.countP (·.isCode opening))
    ∧ gs.countP (·.isCode (closing opening)) = gs.countP (·.isCode opening)

instance (opening : Char) (gs : List Glyph) : Decidable (BalancedIn opening gs) :=
  inferInstanceAs (Decidable ((∀ pre ∈ gs.inits, _ ≤ _) ∧ _ = _))

/-- The counter of the brackets of one kind behind a row of glyphs. -/
def countThrough (opening : Char) (gs : List Glyph) (n : Nat) : Nat :=
  gs.foldl (fun n g => countBrackets opening (closing opening) g n) n

/-- A beginning of a row is one of the row with a glyph more. -/
theorem mem_inits_concat {gs pre : List Glyph} (h : pre ∈ gs.inits) (g : Glyph) :
    pre ∈ (gs ++ [g]).inits := by
  rw [List.mem_inits] at h ⊢
  exact h.trans (List.prefix_append _ _)

/-- The counter is what is open, if no more is closed than was opened. -/
theorem countThrough_eq {opening : Char} (hopening : opening = '(' ∨ opening = '[')
    {gs : List Glyph} (h : ∀ pre ∈ gs.inits,
      pre.countP (·.isCode (closing opening)) ≤ pre.countP (·.isCode opening)) :
    countThrough opening gs 0
      = gs.countP (·.isCode opening) - gs.countP (·.isCode (closing opening)) := by
  -- the counter is cut off at nought, so every beginning of the row must be known to be above
  induction gs using List.reverseRecOn with
  | nil => rfl
  | append_singleton gs g ih =>
    have hpre : ∀ pre ∈ gs.inits,
        pre.countP (·.isCode (closing opening)) ≤ pre.countP (·.isCode opening) :=
      fun pre hpre => h pre (mem_inits_concat hpre g)
    have hle := hpre gs ((List.mem_inits _ _).2 (List.prefix_refl gs))
    have hother : g.isCode opening = true → g.isCode (closing opening) = false := by
      intro hopen
      rw [Glyph.isCode_iff] at hopen
      rw [hopen]
      rcases hopening with rfl | rfl
      · rfl
      · rfl
    unfold countThrough at ih ⊢
    rw [List.foldl_append, List.foldl_cons, List.foldl_nil, ih hpre, List.countP_append,
      List.countP_append, List.countP_singleton, List.countP_singleton]
    unfold countBrackets
    by_cases hopen : g.isCode opening = true
    · rw [if_pos hopen, if_pos hopen, hother hopen, if_neg Bool.false_ne_true]
      omega
    · rw [if_neg hopen, if_neg hopen]
      by_cases hclose : g.isCode (closing opening) = true
      · rw [if_pos hclose, if_pos hclose]
        omega
      · rw [if_neg hclose, if_neg hclose]
        omega

/-- The counters stay above the depth of the group that the reader is inside of. -/
theorem below_through {r : Reading} {parens brackets : Nat} (hr : r.Below parens brackets)
    (gs : List Glyph) :
    (r.through gs).Below (countThrough '(' gs parens) (countThrough '[' gs brackets) := by
  induction gs generalizing r parens brackets with
  | nil => exact hr
  | cons g gs ih => exact ih (below_next hr g)

/-- **Behind balanced brackets the reader is outside of groups.** -/
theorem outside_of_balanced {gs : List Glyph} (hparens : BalancedIn '(' gs)
    (hbrackets : BalancedIn '[' gs) : ¬(Reading.between.through gs).InGroup := by
  have hbelow := below_through (below_outside between_outside 0 0) gs
  rw [countThrough_eq (Or.inl rfl) hparens.1, countThrough_eq (Or.inr rfl) hbrackets.1,
    hparens.2, hbrackets.2, Nat.sub_self, Nat.sub_self] at hbelow
  exact hbelow.outside

/-- A glyph that is no bracket does not count. -/
theorem BalancedIn.front {opening : Char} {gs : List Glyph} {g : Glyph}
    (hopen : g.isCode opening = false) (hclose : g.isCode (closing opening) = false)
    (h : BalancedIn opening (gs ++ [g])) : BalancedIn opening gs := by
  refine ⟨fun pre hpre => h.1 pre (mem_inits_concat hpre g), ?_⟩
  have hcount := h.2
  rw [List.countP_append, List.countP_append, List.countP_singleton, List.countP_singleton, hopen,
    hclose] at hcount
  exact hcount

/-! ## §2. A name between two spaces. -/

/-- A text that a name may stand behind: nothing is open at its end, there is no comment in it,
its brackets are balanced, and a space ends it. -/
structure LeadsIn (before : List Char) : Prop where
  closed : unclosed? before = none
  uncommented : ∀ g ∈ classify before, g.cls ≠ .comment
  parens : BalancedIn '(' (classify before)
  brackets : BalancedIn '[' (classify before)
  space : before.getLast? = some ' '

theorem isBlank_space : isBlank ' ' = true := by decide

/-- The space ends the last token of such a text. -/
theorem LeadsIn.front {before : List Char} (h : LeadsIn before) :
    ∃ front, before = front ++ [' '] ∧ Complete front
      ∧ ¬(Reading.between.through (classify front)).InGroup := by
  obtain ⟨front, rfl⟩ := List.getLast?_eq_some_iff.1 h.space
  obtain ⟨gs, cls, hclassify, -⟩ := classify_concat front ' '
  have hgap := gaps_at_end h.closed hclassify (List.forall_mem_singleton.2 isBlank_space)
  have hspace : cls = .code := by
    have hcomment := h.uncommented ⟨' ', cls⟩ (by rw [hclassify]; simp)
    have hgap := List.forall_mem_singleton.1 hgap
    cases cls with
    | code => rfl
    | comment => exact absurd rfl hcomment
    | quoted => cases hgap
  rw [hspace] at hclassify
  have hfront : gs.map Glyph.char = front := by
    have hchars := congrArg (List.map Glyph.char) hclassify
    rw [classify_map_char, List.map_append, List.map_singleton] at hchars
    exact (List.append_cancel_right hchars).symm
  obtain ⟨hgs, hidle, -⟩ :=
    Lexer.cut_firm Lexer.fresh_start (Lexer.sound_start _) isFirm_space hclassify
  rw [hfront] at hgs hidle
  have hparens := h.parens
  have hbrackets := h.brackets
  rw [hclassify] at hparens hbrackets
  refine ⟨front, rfl, hidle, ?_⟩
  rw [hgs]
  exact outside_of_balanced (hparens.front rfl rfl) (hbrackets.front rfl rfl)

/-- **A written name between two spaces is one token**, and nothing else changes: the texts in
front of it and behind it are read as they are read alone. -/
theorem tokenize_name_between {before : List Char} (hbefore : LeadsIn before) (n rest : List Char) :
    tokenize (before ++ quoteChars n ++ ' ' :: rest)
      = tokenize before ++ ⟨nameKind n, quoteChars n,
          (Reading.between.row (classify (' ' :: rest))).gap⟩ :: tokenize (' ' :: rest) := by
  obtain ⟨front, rfl, hcomplete, houtside⟩ := hbefore.front
  have hname := part_quoteChars n
  obtain ⟨g, gs, hbegins, hg⟩ := hname.begins
  have hbehind : tokenize (' ' :: rest) = tokenize rest := by
    unfold tokenize
    rw [classify_space, row_space]
  have hfront : tokenize (front ++ [' ']) = addGap [' '] (tokenize front) := by
    rw [tokenize_join hcomplete houtside, classify_space, row_space]
    exact List.append_nil _
  -- no gap but the space is in front of the name
  have hgap :
      (Reading.between.row (classify (' ' :: (quoteChars n ++ ' ' :: rest)))).gap = [' '] := by
    rw [classify_space, row_space, classify_join hname.complete isFirm_space, hbegins,
      List.cons_append, row_begins hg]
  rw [List.append_assoc, List.append_assoc, List.singleton_append,
    tokenize_join hcomplete houtside, hgap, ← hfront,
    tokenize_join hname.complete (through_nested hname.nested between_outside),
    tokenize_quoteChars, hbehind]
  rfl

end SchemaDrift.Table

namespace SchemaDrift

open SchemaDrift.Sql SchemaDrift.Text SchemaDrift.Table SchemaDrift.Alter

/-! ## §3. The names of constraints. -/

/-- The ending is that of the name of a constraint that a change replaces. -/
def IsEnding (suffix : String) : Prop :=
  ∃ c change definition, Target.constraint? c change = some (suffix, definition)

theorem IsEnding.kind {suffix : String} (h : IsEnding suffix) :
    ∃ k : ConstraintKind, suffix = k.suffix := by
  obtain ⟨c, change, definition, h⟩ := h
  rcases kind_of_change change with ⟨k, rfl⟩ | hnone
  · rw [constraint?_change] at h
    exact ⟨k, (Prod.mk.inj (Option.some.inj h)).1.symm⟩
  · rw [hnone] at h
    cases h

theorem unquoteIdent_quoteIdent (n : String) : unquoteIdent (quoteIdent n).toList = n := by
  unfold quoteIdent
  rw [String.toList_ofList, unquoteIdent_quoteChars, String.ofList_toList]

theorem quoteIdent_injective : Function.Injective quoteIdent := by
  intro n n' h
  rw [← unquoteIdent_quoteIdent n, h, unquoteIdent_quoteIdent]

/-- **The name of a constraint tells its column and what it is.** -/
theorem constraintName_injective {t t' : Target} (htable : t.table.name = t'.table.name)
    {a b s s' : String} (hs : IsEnding s) (hs' : IsEnding s')
    (h : t.constraintName a s = t'.constraintName b s') : a = b ∧ s = s' := by
  obtain ⟨j, rfl⟩ := hs.kind
  obtain ⟨k, rfl⟩ := hs'.kind
  unfold Target.constraintName at h
  rw [← htable] at h
  obtain ⟨hcolumn, rfl⟩ := defaultName_injective (quoteIdent_injective h)
  exact ⟨hcolumn, rfl⟩

/-- It is not the name of the key. -/
theorem constraintName_ne_keyName {t t' : Target} (htable : t.table.name = t'.table.name)
    {s : String} (hs : IsEnding s) (a : String) : t.constraintName a s ≠ t'.keyName := by
  obtain ⟨k, rfl⟩ := hs.kind
  intro h
  unfold Target.constraintName Target.keyName at h
  rw [← htable] at h
  exact defaultName_ne_key t.table.name a k (quoteIdent_injective h)

/-- **A written name stands for the name, and for nothing else.**  It is read back as the name,
nothing is open at its end, it is one token between texts that are read as they are read alone, and
two of them are told apart at the dot between them.  So the names of the constraints of one table
tell these apart. -/
theorem quoteIdent_lossless :
    (∀ n, unquoteIdent (quoteIdent n).toList = n)
      ∧ (∀ n, unclosed? (quoteIdent n).toList = none)
      ∧ (∀ n before rest, LeadsIn before →
        ∃ kind gap, (kind = .word ∨ kind = .quotedIdent)
          ∧ tokenize (before ++ (quoteIdent n).toList ++ ' ' :: rest)
            = tokenize before ++ ⟨kind, (quoteIdent n).toList, gap⟩ :: tokenize (' ' :: rest)
          ∧ gap ++ rowText (tokenize (' ' :: rest)) = ' ' :: rest)
      ∧ (∀ s t, splitQualified (quoteIdent s ++ "." ++ quoteIdent t).toList = [s, t])
      ∧ ∀ t t' : Target, t.table.name = t'.table.name →
        (∀ a b s s', IsEnding s → IsEnding s' →
          t.constraintName a s = t'.constraintName b s' → a = b ∧ s = s')
        ∧ ∀ a s, IsEnding s → t.constraintName a s ≠ t'.keyName := by
  refine ⟨unquoteIdent_quoteIdent, fun n => (fragment_quoteIdent n).closed, ?_, ?_, ?_⟩
  · intro n before rest hbefore
    unfold quoteIdent
    rw [String.toList_ofList]
    -- the name is one token, and the row goes on behind it
    refine ⟨nameKind n.toList, _, ?_, tokenize_name_between hbefore n.toList rest, ?_⟩
    · unfold nameKind
      split
      · exact Or.inl rfl
      · exact Or.inr rfl
    · have htext := row_text .between (classify (' ' :: rest))
      rw [row_between_rest, classify_map_char] at htext
      exact htext
  · intro s t
    have h := splitQualified_qualified (some s.toList) t.toList
    rw [String.ofList_toList] at h
    unfold quoteIdent
    rw [String.toList_append, String.toList_append, String.toList_ofList, String.toList_ofList,
      List.append_assoc]
    simpa [qualified] using h
  · exact fun t t' htable => ⟨fun _ _ _ _ => constraintName_injective htable,
      fun _ _ hs => constraintName_ne_keyName htable hs _⟩

/-- A name of a quote and a dot behind brackets of all sorts, and constraints whose names differ in
one underscore. -/
theorem quoteIdent_lossless_odd :
    let before := "CHECK (a > '(') [1, (2)] \"x]\" ".toList
    let t : Target := ⟨⟨"public", "t", []⟩, false⟩
    LeadsIn before ∧ (∃ kind gap, (kind = .word ∨ kind = .quotedIdent)
        ∧ tokenize (before ++ (quoteIdent "odd\".name").toList ++ " int -- (".toList)
          = tokenize before ++ ⟨kind, "\"odd\"\".name\"".toList, gap⟩
            :: tokenize " int -- (".toList)
      ∧ IsEnding "key" ∧ IsEnding "fkey"
      ∧ t.constraintName "a" "fkey" ≠ t.constraintName "a_f" "key"
      ∧ t.constraintName "" "key" ≠ t.keyName := by
  intro before t
  have hbefore : LeadsIn before :=
    ⟨by decide +kernel, by decide +kernel, by decide +kernel, by decide +kernel, by decide +kernel⟩
  have hkey : IsEnding "key" := ⟨{ name := "a", dataType := "INT" }, .unique, _, rfl⟩
  have hfkey : IsEnding "fkey" := ⟨{ name := "a", dataType := "INT" }, .foreignKey, _, rfl⟩
  obtain ⟨-, -, htokens, -, hnames⟩ := quoteIdent_lossless
  obtain ⟨kind, gap, hkind, htoken, -⟩ := htokens "odd\".name" before "int -- (".toList hbefore
  obtain ⟨hinjective, hother⟩ := hnames t t rfl
  have hwritten : (quoteIdent "odd\".name").toList = "\"odd\"\".name\"".toList := by decide +kernel
  rw [hwritten] at htoken ⊢
  refine ⟨hbefore, ⟨kind, gap, hkind, htoken⟩, hkey, hfkey, ?_, hother "" "key" hkey⟩
  intro h
  exact absurd (hinjective "a" "a_f" "fkey" "key" hfkey hkey h).1 (by decide)

end SchemaDrift
