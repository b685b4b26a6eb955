/-
  SchemaDrift.Proofs.Table.Rereading
  ──────────────────────────────────
  **RESPACED ENTRIES DECLARE THE SAME.**

  Every step that reads an entry goes the same way in a respaced one: it takes as many tokens
  and fails if the other does (`Both`).  What it reads is the same, except where text is taken
  over with its gaps: where a reference has a group for its target, or a list names a column
  by more than one name.  Entries without these are plain (`Entry.Plain`).

      columnList_eq     lists of names
      reference_both    a reference
      column_both       a column
      add_both          a constraint of the table
-/

import SchemaDrift.Proofs.Table.Aligned
import SchemaDrift.Proofs.Table.Breaking
import SchemaDrift.Proofs.Table.Heading

namespace SchemaDrift.Table

open SchemaDrift.Sql SchemaDrift.Text

/-! ## §1. Two runs. -/

/-- Both runs fail, or both give results that are as `R` says. -/
def Both {ε α : Type} (R : α → α → Prop) : Except ε α → Except ε α → Prop
  | .ok a, .ok b => R a b
  | .error _, .error _ => True
  | _, _ => False

section Runs

variable {ε α β : Type} {R : α → α → Prop} {S : β → β → Prop} {x y : Except ε α}

theorem Both.bind (h : Both R x y) {f g : α → Except ε β} (hfg : ∀ a b, R a b → Both S (f a) (g b)) :
    Both S (x >>= f) (y >>= g) := by
  cases x with
  | error e =>
    cases y with
    | error e' => trivial
    | ok b => exact h.elim
  | ok a =>
    cases y with
    | error e' => exact h.elim
    | ok b => exact hfg a b h

theorem Both.map (h : Both R x y) {f g : α → β} (hfg : ∀ a b, R a b → S (f a) (g b)) :
    Both S (x.map f) (y.map g) := by
  cases x with
  | error e =>
    cases y with
    | error e' => trivial
    | ok b => exact h.elim
  | ok a =>
    cases y with
    | error e' => exact h.elim
    | ok b => exact hfg a b h

theorem Both.of_map {f : α → β} (h : Both S (x.map f) (y.map f)) :
    Both (fun a b => S (f a) (f b)) x y := by
  cases x with
  | error e =>
    cases y with
    | error e' => trivial
    | ok b => exact h.elim
  | ok a =>
    cases y with
    | error e' => exact h.elim
    | ok b => exact h

theorem Both.imp {R' : α → α → Prop} (h : Both R x y) (hR : ∀ a b, R a b → R' a b) : Both R' x y := by
  cases x with
  | error e =>
    cases y with
    | error e' => trivial
    | ok b => exact h.elim
  | ok a =>
    cases y with
    | error e' => exact h.elim
    | ok b => exact hR a b h

end Runs

/-! ## §2. Names. -/

/-- The text is a name and nothing else. -/
def isName (s : List Char) : Bool := (ident? s).any (·.2.isEmpty)

/-- The group lists names. -/
def listsNames (g : Token) : Bool :=
  match g.inside with
  | .ok s => (splitTopLevel s).all isName
  | .error _ => true

/-- The target of a reference is no group, and the group behind it, if any, lists names. -/
def namesTarget (ts : List Token) : Bool :=
  ts.head?.all (·.kind ≠ .group) && (targetGroup? ts).all listsNames

/-- Every reference in the row names its target. -/
def namesTargets : List Token → Bool
  | [] => true
  | t :: rest => (!t.isKeyword "REFERENCES" || namesTarget rest) && namesTargets rest

/-- The lists and the targets of the entry are of plain names, and the type of a column does
not look back at its name. -/
structure Entry.Plain (e : Entry) : Prop where
  lists : e.isTableConstraint = true → ∀ g ∈ askedGroups e.constraint, listsNames g = true
  targets : namesTargets e.tokens = true
  detached : e.isTableConstraint = false → ∀ t ∈ e.tokens.head?, Detached t e.tokens.tail

instance (e : Entry) : Decidable e.Plain :=
  decidable_of_iff ((e.isTableConstraint = true → ∀ g ∈ askedGroups e.constraint, listsNames g = true)
      ∧ namesTargets e.tokens = true
      ∧ (e.isTableConstraint = false → ∀ t ∈ e.tokens.head?, Detached t e.tokens.tail))
    ⟨fun h => ⟨h.1, h.2.1, h.2.2⟩, fun h => ⟨h.lists, h.targets, h.detached⟩⟩

theorem namesTargets_drop {ts : List Token} (h : namesTargets ts = true) (n : Nat) :
    namesTargets (ts.drop n) = true := by
  induction ts generalizing n with
  | nil => rw [List.drop_nil]; rfl
  | cons t ts ih =>
    cases n with
    | zero => exact h
    | succ n =>
      rw [namesTargets, Bool.and_eq_true] at h
      exact ih h.2 n

/-! ## §3. Lists of names. -/

/-- A name is read in code among white space as it is read by itself: without gaps. -/
theorem core_name {n a b : List Char} (hn : isName n = true ∨ n = []) (ha : ∀ c ∈ a, isBlank c = true)
    (hb : ∀ c ∈ b, isBlank c = true) : (core (classify (a ++ (n ++ b)))).map Glyph.char = n
      ∧ ∀ g ∈ core (classify (a ++ (n ++ b))), g.isGap = false := by
  obtain ⟨hgaps, hfresh⟩ := Lexer.fresh_blanks (q := n ++ b) Lexer.fresh_start ha
  have hname : (∀ g ∈ (({} : Lexer).past a (n ++ b)).reads n b, g.isGap = false)
      ∧ ((({} : Lexer).past a (n ++ b)).past n b).Idle := by
    rcases hn with hn | rfl
    · unfold isName at hn
      cases hident : ident? n with
      | none =>
        rw [hident] at hn
        cases hn
      | some r =>
        obtain ⟨name, behind⟩ := r
        rw [hident, Option.any_some, List.isEmpty_iff] at hn
        obtain rfl : behind = [] := hn
        obtain ⟨htext, -⟩ := ident?_reads hident
        rw [List.append_nil] at htext
        subst htext
        have hswap := @ident?_swap _ _ _ hident b fun c hc hhead => by
          rw [hb c (List.mem_of_mem_head? hhead)] at hc
          cases hc
        exact (ident?_reads hswap).2 _ hfresh.toIdle
    · exact ⟨List.forall_mem_nil _, hfresh.toIdle⟩
  obtain ⟨hgapless, hidle⟩ := hname
  have hbehind : ∀ g ∈ ((({} : Lexer).past a (n ++ b)).past n b).glyphs b, g.isGap = true := by
    intro g hg
    rw [← Lexer.reads_whole, Lexer.reads_blanks hidle hb] at hg
    obtain ⟨c, hc, rfl⟩ := List.mem_map.1 hg
    exact hb c hc
  -- blanks are all gaps and the name has none, so that the name is what is left
  have hcore : core (classify (a ++ (n ++ b))) = (({} : Lexer).past a (n ++ b)).reads n b := by
    unfold classify
    rw [Lexer.glyphs_append, Lexer.glyphs_append]
    refine core_eq hgaps hbehind ?_ ?_
    · exact fun g hg => hgapless g (List.mem_of_mem_head? hg)
    · exact fun g hg => hgapless g (List.mem_reverse.1 (List.mem_of_mem_head? hg))
  rw [hcore]
  exact ⟨Lexer.reads_map_char _ n b, hgapless⟩

/-- White space around what is left of a text without it. -/
theorem trim_blanks {a b : List Char} (ha : ∀ c ∈ a, isBlank c = true)
    (hb : ∀ c ∈ b, isBlank c = true) (p : List Char) : trim (a ++ (trim p ++ b)) = trim p := by
  have hstart : trimStart (a ++ (trim p ++ b)) = trimStart (trim p ++ b) :=
    List.dropWhile_append_of_pos ha
  have hends := trimEndWhile_append_of_all hb (trim p)
  have htrim : trimEndWhile isBlank (trim p) = trim p := by
    refine List.rdropWhile_eq_self_iff.2 fun hne => ?_
    rw [trimEndWhile_last (List.getLast?_eq_some_getLast hne)]
    decide
  show trimEndWhile isBlank (trimStart (a ++ (trim p ++ b))) = trim p
  rw [hstart]
  cases hcases : trim p with
  | nil =>
    refine trimEndWhile_eq_nil_iff.2 fun c hc => hb c ?_
    rw [List.nil_append] at hc
    exact (List.dropWhile_sublist _).mem hc
  | cons c t =>
    have hc : isBlank c = false := head_trim (by rw [hcases]; rfl)
    rw [List.cons_append, show trimStart (c :: (t ++ b)) = c :: (t ++ b) from
      List.dropWhile_cons_of_neg (by rw [hc]; exact Bool.false_ne_true), ← List.cons_append, ← hcases,
      hends, htrim]

/-- White space around a name is the only difference between two respaced texts. -/
theorem trim_name {p p' : List Char} (h : Respaced (classify p) (classify p'))
    (hbare : ∀ g ∈ classify p', g.cls ≠ .comment) (hname : isName (trim p) = true ∨ trim p = []) :
    trim p' = trim p := by
  obtain ⟨a, b, hsplit, ha, hb⟩ := exists_trim p
  obtain ⟨hchars, hgapless⟩ := core_name hname ha hb
  rw [← hsplit] at hchars hgapless
  have hcore := (core_respaced h).eq_of_gapless hgapless
  obtain ⟨a', b', hsplit', ha', hb'⟩ := exists_core (classify p')
  have htext : p' = a'.map Glyph.char ++ (trim p ++ b'.map Glyph.char) := by
    rw [← hchars, hcore, ← List.map_append, ← List.map_append, ← hsplit', classify_map_char]
  rw [htext]
  refine trim_blanks ?_ ?_ p
  · exact isBlank_of_bare (fun g hg => hbare g (by
      rw [hsplit']
      exact List.mem_append_left _ hg)) ha'
  · exact isBlank_of_bare (fun g hg => hbare g (by
      rw [hsplit']
      exact List.mem_append_right _ (List.mem_append_right _ hg))) hb'

/-- **Lists of names that are respaced list the same names.** -/
theorem columnList_eq {s s' : List Char} (h : Respaced (classify s) (classify s'))
    (hbare : ∀ g ∈ classify s', g.cls ≠ .comment) (hnames : (splitTopLevel s).all isName = true) :
    columnList s = columnList s' := by
  have hparts := parts_respaced h
  have hmem : ∀ p ∈ commaParts 0 0 (classify s'), ∀ g ∈ classify p, g.cls ≠ .comment :=
    fun p hp g hg => hbare g (mem_part hp g hg)
  have hnames' : ∀ p ∈ commaParts 0 0 (classify s), isName (trim p) = true ∨ trim p = [] := by
    intro p hp
    by_cases hempty : trim p = []
    · exact Or.inr hempty
    · refine Or.inl (List.all_eq_true.1 hnames _ ?_)
      exact List.mem_filter.2 ⟨List.mem_map_of_mem hp, by simpa using hempty⟩
  have hmap : (commaParts 0 0 (classify s)).map trim = (commaParts 0 0 (classify s')).map trim := by
    generalize commaParts 0 0 (classify s) = ps at hparts hnames'
    generalize commaParts 0 0 (classify s') = ps' at hparts hmem
    induction hparts with
    | nil => rfl
    | cons hp _ ih =>
      obtain ⟨hname, hnames'⟩ := List.forall_mem_cons.1 hnames'
      obtain ⟨hbare, hmem⟩ := List.forall_mem_cons.1 hmem
      rw [List.map_cons, List.map_cons, trim_name hp.1 hbare hname, ih hnames' hmem]
  unfold columnList splitTopLevel
  rw [hmap]

/-! ## §4. Rows of alike tokens. -/

/-- The tokens in the same places are alike. -/
abbrev RowAlike (ts ts' : List Token) : Prop := List.Forall₂ TokenAlike ts ts'

theorem Aligned.alike {e e' : List Char} (he : Trimmed e) (he' : Trimmed e') {ts ts' : List Token}
    (h : Aligned e e' ts ts') : RowAlike ts ts' := by
  induction ts generalizing ts' with
  | nil =>
    rw [h.of_nil]
    exact .nil
  | cons t ts ih =>
    obtain ⟨u, us, rfl, halike, hrest⟩ := h.of_cons he he'
    exact .cons halike (ih hrest)

namespace RowAlike

variable {ts ts' : List Token}

theorem drop (h : RowAlike ts ts') (n : Nat) : RowAlike (ts.drop n) (ts'.drop n) := by
  induction h generalizing n with
  | nil =>
    rw [List.drop_nil]
    exact .nil
  | cons ht h ih =>
    cases n with
    | zero => exact .cons ht h
    | succ n => exact ih n

theorem tail (h : RowAlike ts ts') : RowAlike ts.tail ts'.tail := by
  rw [← List.drop_one, ← List.drop_one]
  exact h.drop 1

theorem dropTo (h : RowAlike ts ts') :
    RowAlike (ts.dropWhile (·.kind ≠ .group)) (ts'.dropWhile (·.kind ≠ .group)) := by
  induction h with
  | nil => exact .nil
  | @cons t u ts us ht h ih =>
    rw [List.dropWhile_cons, List.dropWhile_cons, ← ht.kind]
    split
    · exact ih
    · exact .cons ht h

theorem isEmpty (h : RowAlike ts ts') : ts.isEmpty = ts'.isEmpty := by
  cases h with
  | nil => rfl
  | cons _ _ => rfl

theorem leadingKeyword? (h : RowAlike ts ts') : leadingKeyword? ts = leadingKeyword? ts' := by
  cases h with
  | nil => rfl
  | cons ht _ => exact ht.keyword?

theorem leads (h : RowAlike ts ts') (k : String) : leads k ts = leads k ts' := by
  cases h with
  | nil => rfl
  | cons ht _ => exact ht.isKeyword k

theorem leadsGroup (h : RowAlike ts ts') : leadsGroup ts = leadsGroup ts' := by
  cases h with
  | nil => rfl
  | cons ht _ =>
    unfold Table.leadsGroup
    rw [List.head?_cons, List.head?_cons, Option.any_some, Option.any_some, ht.kind]

theorem length_eq (h : RowAlike ts ts') : ts.length = ts'.length := List.Forall₂.length_eq h

theorem referentialAction (h : RowAlike ts ts') : referentialAction ts = referentialAction ts' := by
  unfold Table.referentialAction
  rw [h.leadingKeyword?, h.tail.leadingKeyword?, (h.drop 2).leadsGroup]

theorem touching (h : RowAlike ts ts') {t u : Token} (ht : TokenAlike t u) :
    touching t ts = touching u ts' := by
  induction h generalizing t u with
  | nil => rfl
  | cons hx _ ih => rw [Table.touching, Table.touching, ht.gap, hx.kind, ih hx]

theorem upToClause (h : RowAlike ts ts') (allowed : List String) :
    upToClause allowed ts = upToClause allowed ts' := by
  unfold Table.upToClause Token.beginsClause
  induction h with
  | nil => rfl
  | cons hx _ ih =>
    rw [List.takeWhile_cons, List.takeWhile_cons, hx.keyword?]
    split
    · exact congrArg (· + 1) ih
    · rfl

theorem expressionLength (h : RowAlike ts ts') (first : Bool) (depth : Nat) :
    expressionLength first depth ts = expressionLength first depth ts' := by
  induction h generalizing first depth with
  | nil => rfl
  | @cons x y ts us hx _ ih =>
    have hbegins : x.beginsClause = y.beginsClause := by
      unfold Token.beginsClause
      rw [hx.keyword?]
    rw [Table.expressionLength, Table.expressionLength, hbegins, hx.isKeyword, hx.isKeyword]
    split
    · rfl
    · exact congrArg (· + 1) (ih _ _)

/-- The text of tokens that touch, and of which none is a group. -/
theorem span_touching (h : RowAlike ts ts') {t u : Token} (ht : TokenAlike t u)
    (hkind : t.kind ≠ .group) : spanText (t :: ts.take (Table.touching t ts))
      = spanText (u :: ts'.take (Table.touching u ts')) := by
  induction h generalizing t u with
  | nil => exact ht.text hkind
  | @cons x y ts us hx h ih =>
    rw [Table.touching, Table.touching, ← ht.gap, ← hx.kind]
    by_cases htouch : (t.gap.isEmpty && x.kind ≠ .group) = true
    · have hgap := ht.gap
      simp only [Bool.and_eq_true, decide_eq_true_eq] at htouch
      rw [htouch.1] at hgap
      have hspan : ∀ (a b : Token) (cs : List Token),
          spanText (a :: b :: cs) = a.text ++ a.gap ++ spanText (b :: cs) := fun _ _ _ => rfl
      rw [if_pos (by simpa using htouch), if_pos (by simpa using htouch), List.take_succ_cons,
        List.take_succ_cons, hspan, hspan, ih hx htouch.2, ht.text hkind,
        List.isEmpty_iff.1 htouch.1, List.isEmpty_iff.1 hgap.symm]
    · rw [if_neg htouch, if_neg htouch]
      exact ht.text hkind

end RowAlike

/-! ## §5. References. -/

/-- The options of a reference take as many tokens, and say the same. -/
theorem referenceOptions_both {E E' : Entry} {ts ts' : List Token} (h : RowAlike ts ts') (skip : Nat)
    (key key' : ForeignKey) : Both (fun r r' => r.2 = r'.2 ∧ (key = key' → r.1 = r'.1))
      (referenceOptions E skip key ts) (referenceOptions E' skip key' ts') := by
  induction h generalizing skip key key' with
  | nil => exact ⟨rfl, id⟩
  | @cons t u ts us ht h ih =>
    replace h : RowAlike ts us := h
    -- reading on with keys that are the same if those before were
    have hgo : ∀ (skip : Nat) (k k' : ForeignKey), (key = key' → k = k') →
        Both (fun r r' => r.2 = r'.2 ∧ (key = key' → r.1 = r'.1))
          ((referenceOptions E skip k ts).map fun r => (r.1, r.2 + 1))
          ((referenceOptions E' skip k' us).map fun r => (r.1, r.2 + 1)) := by
      intro skip k k' hk
      refine (ih skip k k').map fun a b hab => ?_
      exact ⟨congrArg (· + 1) hab.1, fun hkey => hab.2 (hk hkey)⟩
    unfold referenceOptions
    dsimp only
    rw [ht.isKeyword, ht.isKeyword, ht.isKeyword, ht.isKeyword, ht.isKeyword,
      h.tail.referentialAction, h.leads, h.leads, h.leads]
    cases skip with
    | succ n => exact hgo n key key' id
    | zero =>
      dsimp only
      split
      · split
        · exact hgo _ _ _ fun hkey => by rw [hkey]
        · split
          · exact hgo _ _ _ fun hkey => by rw [hkey]
          · trivial
      · split
        · exact hgo 1 key key' id
        · split
          · exact hgo 0 key key' id
          · split
            · exact hgo 1 key key' id
            · exact ⟨rfl, id⟩

/-- The names that alike groups list are the same, if they list names. -/
theorem columnList_both {g g' : Token} (h : TokenAlike g g') (hkind : g.kind = .group) :
    Both (fun cs cs' => listsNames g = true → cs = cs') (g.inside.map columnList)
      (g'.inside.map columnList) := by
  unfold listsNames
  rcases h.inside hkind with ⟨s, s', hs, hs', hrespaced, -, hbare'⟩ | ⟨⟨x, hx⟩, y, hy⟩
  · rw [hs, hs']
    exact columnList_eq hrespaced hbare'
  · rw [hx, hy]
    trivial

theorem namesTarget_cons {t : Token} {ts : List Token} (h : namesTarget (t :: ts) = true) :
    t.kind ≠ .group ∧ ∀ g ∈ frontGroup? (ts.drop (touching t ts)), listsNames g = true := by
  unfold namesTarget at h
  simp only [Bool.and_eq_true] at h
  obtain ⟨hkind, hall⟩ := h
  refine ⟨by simpa using hkind, fun g hg => ?_⟩
  rw [show targetGroup? (t :: ts) = frontGroup? (ts.drop (touching t ts)) from rfl,
    Option.mem_def.1 hg] at hall
  exact hall

/-- The options behind the first `i` tokens of a reference. -/
theorem referenceOptions_behind (E E' : Entry) {P : Prop} {key key' : ForeignKey}
    (hkey : P → key = key') {ts ts' : List Token} (h : RowAlike ts ts') (i : Nat) :
    Both (fun r r' => r.2 = r'.2 ∧ (P → r.1 = r'.1))
      (referenceOptions E 0 key ts >>= fun r => pure (r.1, i + r.2))
      (referenceOptions E' 0 key' ts' >>= fun r => pure (r.1, i + r.2)) :=
  (referenceOptions_both h 0 key key').bind fun _ _ hr =>
    ⟨congrArg (i + ·) hr.1, fun hp => hr.2 (hkey hp)⟩

/-- **A reference takes as many tokens**, and is the same if it names its target. -/
theorem reference_both {E E' : Entry} {ts ts' : List Token} (h : RowAlike ts ts') :
    Both (fun r r' => r.2 = r'.2 ∧ (namesTarget ts = true → r.1 = r'.1)) (reference E ts)
      (reference E' ts') := by
  cases h with
  | nil => trivial
  | @cons t u ts us ht h =>
    replace h : RowAlike ts us := h
    unfold reference
    dsimp only
    have hspan : t.kind ≠ .group → spanText (t :: ts.take (touching t ts))
        = spanText (u :: us.take (touching u us)) := h.span_touching ht
    cases hparts : (splitQualified (spanText (t :: ts.take (touching t ts)))).reverse with
    | nil => exact absurd (List.reverse_eq_nil_iff.1 hparts) (splitQualified_ne_nil _)
    | cons table before =>
      cases hparts' : (splitQualified (spanText (u :: us.take (touching u us)))).reverse with
      | nil => exact absurd (List.reverse_eq_nil_iff.1 hparts') (splitQualified_ne_nil _)
      | cons table' before' =>
        -- a plain target is spelled the same in both rows
        have hkey : namesTarget (t :: ts) = true → ∀ {column column' : Option String},
            column = column' → ({ schema := before.head?, table, column } : ForeignKey)
              = { schema := before'.head?, table := table', column := column' } := by
          rintro hplain column _ rfl
          rw [hspan (namesTarget_cons hplain).1] at hparts
          obtain ⟨rfl, rfl⟩ := List.cons.inj (hparts.symm.trans hparts')
          rfl
        have htarget : namesTarget (t :: ts) = true →
            ∀ g ∈ frontGroup? (ts.drop (touching t ts)), listsNames g = true :=
          fun hplain => (namesTarget_cons hplain).2
        have hbehind := h.drop (touching t ts)
        rw [← h.touching ht]
        dsimp only
        generalize ts.drop (touching t ts) = vs at hbehind htarget ⊢
        generalize us.drop (touching t ts) = vs' at hbehind ⊢
        cases hbehind with
        | nil => exact referenceOptions_behind E E' (fun hplain => hkey hplain rfl) .nil _
        | @cons g g' vs vs' hg hvs =>
          dsimp only
          rw [← hg.kind]
          by_cases hkind : g.kind = .group
          · rw [if_pos hkind, if_pos hkind]
            rw [frontGroup?_cons, if_pos hkind] at htarget
            refine (columnList_both hg hkind).of_map.bind fun s s' hlist => ?_
            exact referenceOptions_behind E E' (fun hplain => hkey hplain
              (congrArg List.head? (hlist (htarget hplain g rfl)))) (RowAlike.drop (.cons hg hvs) 1) _
          · rw [if_neg hkind, if_neg hkind]
            exact referenceOptions_behind E E' (fun hplain => hkey hplain rfl) (.cons hg hvs) _

/-! ## §6. Columns. -/

/-- A keyword that does not end with an `E` leaves what is behind it alone. -/
theorem detached_keyword {t : Token} {k : String} (h : t.keyword? = some k)
    (hk : 'E' ∉ k.toList.getLast?) (behind : List Token) : t.kind = .word ∧ Detached t behind := by
  unfold Token.keyword? at h
  by_cases hkind : t.kind = .word
  · rw [if_pos hkind] at h
    refine ⟨hkind, fun _ u _ c _ => ⟨fun _ x hx => ?_, fun _ => hkind⟩⟩
    have hlast : x.toUpper ∈ k.toList.getLast? := by
      rw [← Option.some.inj h, String.toList_ofList]
      unfold asciiUpper
      rw [List.getLast?_map, Option.mem_def.1 hx]
      rfl
    constructor
    · rintro rfl
      exact hk hlast
    · rintro rfl
      exact hk hlast
  · rw [if_neg hkind] at h
    cases h

section Rows

variable {E E' : Entry} {e e' : List Char}

/-- **A clause takes as many tokens**, and says the same if a reference in it names its target. -/
theorem readClause_both (he : Trimmed e) (he' : Trimmed e') {t u : Token} {ts us : List Token}
    (h : Aligned e e' (t :: ts) (u :: us)) (c c' : Column) :
    Both (fun r r' => r.2 = r'.2 ∧ (c.name = c'.name → r.1.name = r'.1.name)
        ∧ (c = c' → (t.isKeyword "REFERENCES" = true → namesTarget ts = true) → r.1 = r'.1))
      (readClause E c t ts) (readClause E' c' u us) := by
  obtain ⟨u', us', heq, ht, hrest⟩ := h.of_cons he he'
  obtain ⟨rfl, rfl⟩ := List.cons.inj heq
  have halike : RowAlike ts us := hrest.alike he he'
  unfold readClause
  rw [← ht.keyword?, ← halike.leads, ← halike.leads, ← halike.isEmpty, ← halike.expressionLength,
    ← halike.upToClause]
  -- by the first word, which is the same; a text is taken from a span or a group of both
  split
  · exact ⟨rfl, id, fun h _ => h⟩
  · split
    · exact ⟨rfl, id, fun h _ => by rw [h]⟩
    · exact ⟨rfl, id, fun h _ => h⟩
  · exact ⟨rfl, id, fun h _ => by rw [h]⟩
  · next hdefault =>
    split
    · trivial
    · obtain ⟨hkind, hdetached⟩ := detached_keyword hdefault (by decide) ts
      have hspan := h.span_behind he he' (Or.inl hkind) hdetached (expressionLength true 0 ts)
      refine ⟨rfl, id, fun h _ => ?_⟩
      dsimp only
      rw [h, normalize_respaced hspan]
  · split
    · exact ⟨rfl, id, fun h _ => by rw [h]⟩
    · exact ⟨rfl, id, fun h _ => h⟩
  · exact ⟨rfl, id, fun h _ => by rw [h]⟩
  · next hreferences =>
    refine (reference_both halike).bind fun a b hab => ⟨hab.1, id, fun h hplain => ?_⟩
    rw [h, hab.2 (hplain (by unfold Token.isKeyword; rw [hreferences]; decide))]
  · cases halike with
    | nil => exact ⟨rfl, id, fun h _ => h⟩
    | @cons g g' ts us hg _ =>
      dsimp only
      rw [← hg.kind]
      by_cases hkind : g.kind = .group
      · rw [if_pos hkind, if_pos hkind]
        rcases hg.inside hkind with ⟨s, s', hs, hs', hrespaced, -, -⟩ | ⟨⟨x, hx⟩, y, hy⟩
        · rw [hs, hs']
          refine ⟨rfl, id, fun h _ => ?_⟩
          rw [h, normalize_respaced hrespaced]
        · rw [hx, hy]
          trivial
      · rw [if_neg hkind, if_neg hkind]
        exact ⟨rfl, id, fun h _ => h⟩
  · exact ⟨rfl, id, fun h _ => h⟩
  · exact ⟨rfl, id, fun h _ => h⟩
  · exact ⟨rfl, id, fun h _ => h⟩

/-- **Clauses say the same**, if every reference in them names its target. -/
theorem readClauses_both (he : Trimmed e) (he' : Trimmed e') {ts us : List Token}
    (h : Aligned e e' ts us) (skip : Nat) (c c' : Column) :
    Both (fun d d' => (c.name = c'.name → d.name = d'.name)
        ∧ (c = c' → namesTargets ts = true → d = d'))
      (readClauses E skip c ts) (readClauses E' skip c' us) := by
  induction ts generalizing us skip c c' with
  | nil =>
    rw [h.of_nil]
    exact ⟨id, fun h _ => h⟩
  | cons t ts ih =>
    obtain ⟨u, us, rfl, -, hrest⟩ := h.of_cons he he'
    unfold namesTargets
    simp only [Bool.and_eq_true]
    cases skip with
    | succ n =>
      rw [readClauses, readClauses]
      exact (ih hrest n c c').imp fun d d' hd => ⟨hd.1, fun hc hplain => hd.2 hc hplain.2⟩
    | zero =>
      rw [readClauses, readClauses]
      refine (readClause_both he he' h c c').bind fun a b hab => ?_
      dsimp only
      rw [hab.1]
      refine (ih hrest b.2 a.1 b.1).imp fun d d' hd => ?_
      refine ⟨fun hname => hd.1 (hab.2.1 hname), fun hc hplain => hd.2 (hab.2.2 hc ?_) hplain.2⟩
      intro hkey
      simpa [hkey] using hplain.1

/-- Both columns have the name, whatever key rule there is. -/
theorem name_enforceKey (c : Column) : c.enforceKey.name = c.name := by
  unfold Column.enforceKey
  split
  · rfl
  · rfl

/-- **A column has the same name**, and is the same if its entry is plain. -/
theorem column_both (h : Respaced (classify e) (classify e')) (he : Trimmed e) (he' : Trimmed e') :
    Both (fun c c' => c.name = c'.name ∧ ((Entry.of e).Plain → (Entry.of e).isTableConstraint = false
      → c = c')) (Entry.of e).column (Entry.of e').column := by
  have haligned := aligned_tokenize h
  unfold Entry.column
  have hplain : (Entry.of e).Plain → (Entry.of e).isTableConstraint = false →
      namesTargets (tokenize e) = true
        ∧ ∀ t ∈ (tokenize e).head?, Detached t (tokenize e).tail :=
    fun hplain hcolumn => ⟨hplain.targets, hplain.detached hcolumn⟩
  rw [show (Entry.of e).tokens = tokenize e from rfl, show (Entry.of e').tokens = tokenize e' from rfl]
  generalize tokenize e = ts at haligned hplain
  generalize tokenize e' = us at haligned
  cases ts with
  | nil =>
    rw [haligned.of_nil]
    trivial
  | cons t ts =>
    obtain ⟨u, us, rfl, ht, hrest⟩ := haligned.of_cons he he'
    have halike : RowAlike ts us := hrest.alike he he'
    dsimp only
    rw [← ht.kind, ← halike.upToClause]
    split
    · next hname =>
      have hkind : t.kind = .word ∨ t.kind = .quotedIdent := by simpa using hname
      rw [← ht.text (by rcases hkind with h | h <;> rw [h] <;> decide)]
      split
      · trivial
      · generalize upToClause [] ts = n
        -- the clauses say the same, and the types are spans that say the same
        refine (readClauses_both he he' (hrest.drop n) 0 _ _).map fun d d' hd => ?_
        rw [name_enforceKey, name_enforceKey]
        refine ⟨hd.1 rfl, fun hentry hcolumn => ?_⟩
        obtain ⟨htargets, hdetached⟩ := hplain hentry hcolumn
        have hspan := haligned.span_behind he he' hkind (hdetached t rfl) n
        rw [hd.2 ?_ (namesTargets_drop (n := n + 1) htargets)]
        unfold Column.new
        rw [String.toList_ofList, String.toList_ofList, canonicalType_respaced hspan]
    · trivial

end Rows

end SchemaDrift.Table
