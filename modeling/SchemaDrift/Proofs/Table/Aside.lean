/-
  SchemaDrift.Proofs.Table.Aside
  ──────────────────────────────
  **ENTRIES THAT DECLARE NO COLUMN LEAVE THE TABLE ALONE.**

  A check, an exclusion, a key of several columns and a `LIKE` may stand at any place of a body:
  the table is that of the body without them (`aside_iff`).  There is one exception.  What follows
  `LIKE` is told from the type of a column by the number of tokens, and the name of a table is
  taken for one token; where it is more than one, the entry is read as a column `like`
  (`like_read_column`).

      Aside           the entries
      LikesOneToken   a name behind `LIKE` that is one token
      aside_iff       the table with such an entry put in
-/

import SchemaDrift.Proofs.Table.Complete
import SchemaDrift.Proofs.Table.Entries

namespace SchemaDrift.Table

open SchemaDrift.Sql SchemaDrift.Text

/-! ## §1. The entries. -/

/-- What follows `REFERENCES`, the name of the target being written with gaps or without. -/
inductive Referenced : List Token → Prop where
  | target {ts : List Token} (h : Target ts) : Referenced ts
  /-- The name ends at a gap, and what is behind it is no option. -/
  | gapped {t : Token} {more us : List Token} (htouch : touching t (more ++ us) = more.length)
      (hus : NoOption us) : Referenced (t :: (more ++ us))

/-- The group lists more columns than one. -/
def ListsSeveral (g : Token) : Prop :=
  g.kind = .group ∧ ∃ inside, g.inside = .ok inside ∧ 2 ≤ (columnList inside).length

/-- The tokens of an entry that declares no column, nor anything of a single one. -/
inductive Aside : List Token → Prop where
  | check {t : Token} {rest row : List Token} (ht : t.isKeyword "CHECK" = true)
      (hrow : Named (t :: rest) row) : Aside row
  | exclude {t : Token} {rest row : List Token} (ht : t.isKeyword "EXCLUDE" = true)
      (hrest : leads "USING" rest = true ∨ leadsGroup rest = true) (hrow : Named (t :: rest) row) :
      Aside row
  | unique {t g : Token} {between rest row : List Token} (ht : t.isKeyword "UNIQUE" = true)
      (hbetween : ∀ u ∈ between, u.kind ≠ .group) (hg : ListsSeveral g)
      (hrow : Named (t :: (between ++ g :: rest)) row) : Aside row
  | foreign {t k g r : Token} {target row : List Token} (ht : t.isKeyword "FOREIGN" = true)
      (hk : k.isKeyword "KEY" = true) (hg : ListsSeveral g) (hr : r.isKeyword "REFERENCES" = true)
      (htarget : Referenced target) (hrow : Named (t :: k :: g :: r :: target) row) : Aside row
  | like {t : Token} {name options : List Token} (ht : t.isKeyword "LIKE" = true) (hne : name ≠ [])
      (hname : ∀ u ∈ name, u.kind = .word ∨ u.kind = .quotedIdent)
      (hoptions : options = [] ∨ leads "INCLUDING" options = true ∨ leads "EXCLUDING" options = true) :
      Aside (t :: (name ++ options))

/-- The name of the table behind `LIKE`, if the tokens begin so, is one token: nothing is behind it,
or an option. -/
def LikesOneToken (ts : List Token) : Prop :=
  leads "LIKE" ts = true → ts.drop 2 = [] ∨ leads "INCLUDING" (ts.drop 2) = true
    ∨ leads "EXCLUDING" (ts.drop 2) = true

variable {x : Entry} {keys : KeyClauses}

/-- A target is read, wherever its name ends. -/
theorem Referenced.reads {ts : List Token} (h : Referenced ts) (e : Entry) :
    ∃ key n, reference e ts = .ok (key, n) := by
  cases h with
  | target h =>
    obtain ⟨key, hread⟩ := reads_target h
    have hrow := hread [] e [] (optionsEnd_of_noOption next_nil.options) (Or.inl rfl)
    rw [addGap_nil, List.append_nil] at hrow
    exact ⟨key, _, hrow⟩
  | @gapped t more us htouch hus =>
    obtain ⟨table, before, hparts⟩ := List.exists_cons_of_ne_nil
      (mt List.reverse_eq_nil_iff.1 (splitQualified_ne_nil (spanText (t :: more))))
    have hcolumn : targetColumn us = .ok (none, 0) := by
      cases us with
      | nil => rfl
      | cons u us =>
        have hkind : u.kind ≠ .group := by simpa [leadsGroup] using hus.noGroup
        exact if_neg hkind
    have hread := reference_of (e := e) (k := 0) htouch (by rw [List.take_left]; exact hparts)
      (by rw [List.drop_left]; exact hcolumn)
      (by rw [List.drop_left, List.drop_zero]; exact (optionsEnd_of_noOption hus).2 e _)
    exact ⟨_, _, hread⟩

/-- A constraint that begins with no word of a key adds nothing. -/
theorem add_none {k : String} (hx : leadingKeyword? x.constraint = some k)
    (hk : k ∉ ["PRIMARY", "UNIQUE", "FOREIGN"]) : keys.add x = .ok keys := by
  refine add_eq (.other fun w hw hword => hk ?_)
  rw [Option.some.inj (hx.symm.trans hword)]
  exact hw

theorem ofSingle_several {α : Type} (a : α) (f : String → α) {cs : List String} (h : 2 ≤ cs.length) :
    ofSingle a f cs = .ok a := by
  unfold ofSingle
  split
  · exact absurd h (Nat.not_le_of_lt Nat.one_lt_two)
  · rfl

/-- Where the tokens begin with another word, nothing is said of `LIKE`. -/
theorem likesOneToken_of_leads {k : String} {ts : List Token} (h : leads k ts = true)
    (hk : k ≠ "LIKE") : LikesOneToken ts := by
  intro hlike
  have hsame := (leadingKeyword?_of_leads h).symm.trans (leadingKeyword?_of_leads hlike)
  exact absurd (Option.some.inj hsame) hk

/-- **Such an entry is a constraint of the table**, unless a name behind `LIKE` is more than one
token. -/
theorem Aside.isTableConstraint_iff (h : Aside x.tokens) :
    x.isTableConstraint = true ↔ LikesOneToken x.tokens := by
  -- all but `LIKE` begin with a word of their own, or with the name of the constraint
  have hword : ∀ {k : String} {t : Token} {rest : List Token}, t.isKeyword k = true →
      k ∈ ["CONSTRAINT", "PRIMARY", "FOREIGN", "UNIQUE", "CHECK"] → Named (t :: rest) x.tokens →
      (x.isTableConstraint = true ↔ LikesOneToken x.tokens) := by
    intro k t rest ht hk hrow
    rcases hrow.leads_cases with heq | hnamed
    · have hleads : leads k x.tokens = true := by
        rw [heq]
        exact ht
      refine iff_of_true (isTableConstraint_of_leads hleads hk) (likesOneToken_of_leads hleads ?_)
      rintro rfl
      exact absurd hk (by decide)
    · exact iff_of_true (isTableConstraint_of_leads hnamed (by decide))
        (likesOneToken_of_leads hnamed (by decide))
  generalize htokens : x.tokens = row at h
  cases h with
  | check ht hrow => exact htokens ▸ hword ht (by decide) (htokens ▸ hrow)
  | unique ht _ _ hrow => exact htokens ▸ hword ht (by decide) (htokens ▸ hrow)
  | foreign ht _ _ _ _ hrow => exact htokens ▸ hword ht (by decide) (htokens ▸ hrow)
  | @exclude t rest row ht hrest hrow =>
    rcases hrow.leads_cases with rfl | hnamed
    · refine iff_of_true ?_ (likesOneToken_of_leads (k := "EXCLUDE") ht (by decide))
      unfold Entry.isTableConstraint
      rw [htokens, show leadingKeyword? (t :: rest) = some "EXCLUDE" from keyword?_of_isKeyword ht]
      exact Bool.or_eq_true_iff.2 hrest
    · rw [← htokens] at hnamed ⊢
      exact iff_of_true (isTableConstraint_of_leads hnamed (by decide))
        (likesOneToken_of_leads hnamed (by decide))
  | @like t name options ht hne _ _ =>
    have hlike : leads "LIKE" (t :: (name ++ options)) = true := ht
    have hlength : decide (2 ≤ (t :: (name ++ options)).length) = true := by
      have hpos := List.length_pos_iff.2 hne
      rw [List.length_cons, List.length_append, decide_eq_true_eq]
      omega
    unfold Entry.isTableConstraint LikesOneToken
    rw [htokens, leadingKeyword?_of_leads hlike]
    generalize t :: (name ++ options) = row at hlike hlength ⊢
    show (decide (2 ≤ row.length) && ((row.drop 2).isEmpty || leads "INCLUDING" (row.drop 2)
      || leads "EXCLUDING" (row.drop 2))) = true ↔ _
    rw [hlength, Bool.true_and, Bool.or_eq_true_iff, Bool.or_eq_true_iff, List.isEmpty_iff, or_assoc]
    exact ⟨fun h _ => h, fun h => h hlike⟩

/-- **Such an entry adds nothing.** -/
theorem Aside.add (h : Aside x.tokens) : keys.add x = .ok keys := by
  generalize htokens : x.tokens = row at h
  -- three kinds list no columns, and the lists of the others are not of one column
  cases h with
  | check ht hrow =>
    refine add_none (k := "CHECK") ?_ (by decide)
    rw [(htokens ▸ hrow : Named _ x.tokens).constraint]
    exact keyword?_of_isKeyword ht
  | exclude ht _ hrow =>
    refine add_none (k := "EXCLUDE") ?_ (by decide)
    rw [(htokens ▸ hrow : Named _ x.tokens).constraint]
    exact keyword?_of_isKeyword ht
  | unique ht hbetween hg hrow =>
    obtain ⟨hkind, inside, hinside, hlength⟩ := hg
    rw [add_unique (htokens ▸ hrow : Named _ x.tokens).constraint ht hbetween hkind hinside,
      ofSingle_several _ _ hlength]
  | foreign ht hk hg hr htarget hrow =>
    obtain ⟨hkind, inside, hinside, hlength⟩ := hg
    obtain ⟨key, n, href⟩ := htarget.reads x
    rw [add_foreign (htokens ▸ hrow : Named _ x.tokens).constraint ht hk hkind hinside hr href,
      ofSingle_several _ _ hlength]
  | @like t name options ht _ _ _ =>
    have hkeyword := keyword?_of_isKeyword ht
    have hno : leads "CONSTRAINT" x.tokens = false := by
      rw [htokens]
      show t.isKeyword "CONSTRAINT" = false
      unfold Token.isKeyword
      rw [hkeyword]
      decide
    refine add_none (k := "LIKE") ?_ (by decide)
    unfold Entry.constraint
    rw [hno, if_neg Bool.false_ne_true, htokens]
    exact hkeyword

/-! ## §2. The table. -/

/-- One column is read of each entry. -/
theorem readColumns_length {k : KeyClauses} {before cs : List Column} {es : List Entry}
    (h : readColumns k before es = .ok cs) : cs.length = before.length + es.length := by
  induction es generalizing before with
  | nil =>
    obtain rfl := Except.ok.inj h
    rfl
  | cons e es ih =>
    obtain ⟨c, -, hrest⟩ := bind_eq_ok.1 h
    split at hrest
    · cases hrest
    · rw [ih hrest, List.length_append, List.length_singleton, List.length_cons]
      omega

/-- A table has as many columns as there are entries that are no constraints. -/
theorem columns_length {schema : Option (List Char)} {name : List Char} {xs : List Entry} {t : Table}
    (h : tableOf schema name xs = .ok t) :
    t.columns.length = (xs.filter (!·.isTableConstraint)).length := by
  obtain ⟨keys, -, h⟩ := bind_eq_ok.1 h
  obtain ⟨cs, hcs, h⟩ := bind_eq_ok.1 h
  split at h
  · cases h
  · obtain rfl := Except.ok.inj h
    rw [readColumns_length hcs, List.length_nil, Nat.zero_add]

/-- **A constraint that adds nothing can be left out.** -/
theorem tableOf_aside {schema : Option (List Char)} {name : List Char} (xs ys : List Entry)
    (hx : x.isTableConstraint = true) (hadd : ∀ keys : KeyClauses, keys.add x = .ok keys) :
    tableOf schema name (xs ++ x :: ys) = tableOf schema name (xs ++ ys) := by
  have hfold : ∀ (xs ys : List Entry) (keys : KeyClauses), (xs ++ x :: ys).foldlM KeyClauses.add keys
      = (xs ++ ys).foldlM KeyClauses.add keys := by
    intro xs ys keys
    rw [List.foldlM_append, List.foldlM_append]
    refine congrArg _ (funext fun k => ?_)
    rw [List.foldlM_cons, hadd]
    rfl
  unfold tableOf
  rw [List.filter_append, List.filter_append, List.filter_cons_of_pos hx,
    List.filter_cons_of_neg (by simp [hx]), hfold, ← List.filter_append, ← List.filter_append]

theorem Aside.ne_nil {ts : List Token} (h : Aside ts) : ts ≠ [] := by
  cases h with
  | check _ hrow => exact hrow.ne_nil (List.cons_ne_nil _ _)
  | exclude _ _ hrow => exact hrow.ne_nil (List.cons_ne_nil _ _)
  | unique _ _ _ hrow => exact hrow.ne_nil (List.cons_ne_nil _ _)
  | foreign _ _ _ _ _ hrow => exact hrow.ne_nil (List.cons_ne_nil _ _)
  | like => exact List.cons_ne_nil _ _

/-- **Entries that declare no column leave the table alone.**  Whatever the place where such an entry
is put in, the definition declares the same table as before, exactly if a name behind `LIKE` is one
token; and exactly then the entry is not read as a column. -/
theorem aside_iff {sql : List Char} {t : Table} (h : parse sql = .ok t) :
    (∃ p es q, sql = laid p es q ∧ Defines p es) ∧
    ∀ p front back q, sql = laid p (front ++ back) q → Defines p (front ++ back) →
      (back = [] → ∀ e ∈ front.getLast?, Entire e) →
      ∀ x, Entire x → Aside (entryOf x).tokens →
        ((entryOf x).isTableConstraint = true ↔ LikesOneToken (entryOf x).tokens)
          ∧ (parse (laid p (front ++ x :: back) q) = .ok t ↔ LikesOneToken (entryOf x).tokens) := by
  refine ⟨exists_laid h, fun p front back q hsql hp hlast x hx hx' => ?_⟩
  obtain ⟨⟨schema, name, hhead⟩, hcomplete, hentries⟩ := hp
  have hinserted := entries_insert hentries hx hlast
  have hconstraint := hx'.isTableConstraint_iff
  refine ⟨hconstraint, ?_⟩
  rw [hsql, parse_laid hhead hcomplete hentries, entriesIn_append] at h
  rw [parse_laid hhead hcomplete hinserted, entriesIn_middle hx'.ne_nil, ← hconstraint]
  constructor
  · intro hsame
    by_contra hcolumn
    have hlength := columns_length h
    have hlength' := columns_length hsame
    rw [List.filter_append, List.length_append] at hlength hlength'
    rw [List.filter_cons_of_pos (by simpa using hcolumn), List.length_cons] at hlength'
    omega
  · intro hyes
    rw [tableOf_aside _ _ hyes fun keys => hx'.add, h]

/-- A quoted table behind `LIKE`, with an option, in front of a column. -/
theorem aside_iff_like :
    parse (laid "CREATE TABLE t ".toList ["LIKE \"u\" INCLUDING ALL".toList, "a int".toList] [])
      = .ok ⟨"public", "t", [⟨"a", "INT", true, none, false, false, none, none⟩]⟩ := by
  have hdefines : Defines "CREATE TABLE t ".toList ["a int".toList] :=
    ⟨⟨none, "t".toList, by decide +kernel⟩, complete_of_mode (by decide +kernel),
      .last (complete_of_mode (by decide +kernel)) (show _ = some (0, 0) by decide +kernel)⟩
  have hrow : (entryOf "LIKE \"u\" INCLUDING ALL".toList).tokens = ⟨.word, "LIKE".toList, [' ']⟩
      :: ([⟨.quotedIdent, "\"u\"".toList, [' ']⟩]
        ++ [⟨.word, "INCLUDING".toList, [' ']⟩, ⟨.word, "ALL".toList, []⟩]) := by decide +kernel
  have hlike : Aside (entryOf "LIKE \"u\" INCLUDING ALL".toList).tokens := by
    rw [hrow]
    exact .like (by decide +kernel) (List.cons_ne_nil _ _) (by decide) (Or.inr (Or.inl (by decide +kernel)))
  refine ((@aside_iff (laid "CREATE TABLE t ".toList ["a int".toList] []) _ (by decide +kernel)).2
    "CREATE TABLE t ".toList [] ["a int".toList] [] rfl hdefines nofun _
    ⟨complete_of_mode (by decide +kernel), by decide +kernel⟩ hlike).2.2 fun _ => Or.inr (Or.inl ?_)
  rw [hrow]
  decide +kernel

/-- A table of two quoted names is read as the type of a column. -/
theorem like_read_column :
    parse "CREATE TABLE t (a int)".toList
        = .ok ⟨"public", "t", [⟨"a", "INT", true, none, false, false, none, none⟩]⟩
      ∧ parse "CREATE TABLE t (a int, LIKE \"s\".\"t\")".toList
        = .ok ⟨"public", "t", [⟨"a", "INT", true, none, false, false, none, none⟩,
          ⟨"like", "\"s\".\"t\"", true, none, false, false, none, none⟩]⟩ := by
  decide +kernel

end SchemaDrift.Table
