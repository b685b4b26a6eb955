/-
  SchemaDrift.Proofs.Table.Redeclared
  ───────────────────────────────────
  **RESPACED DEFINITIONS DECLARE ONE TABLE.**

  White space and comments decide neither whether a definition can be read nor which table it
  declares (`parse_both`).  The table is the same where the entries of the definition are
  plain: references and lists are of names, and no type looks back at the name in front of it.

      Entry.Alike       entries that differ in their gaps
      add_both          a constraint of the table
      readColumns_both  the columns
      parse_both        the whole definition
-/

import SchemaDrift.Proofs.Table.Rereading
import SchemaDrift.Proofs.Table.Shell

namespace SchemaDrift.Table

open SchemaDrift.Sql SchemaDrift.Text

/-! ## §1. Constraints of the table. -/

/-- The entries are those of trimmed texts that differ in their gaps only. -/
structure Entry.Alike (x x' : Entry) : Prop where
  respaced : Respaced (classify x.text) (classify x'.text)
  left : Trimmed x.text
  right : Trimmed x'.text
  tokens : x.tokens = tokenize x.text
  tokens' : x'.tokens = tokenize x'.text

theorem Entry.Alike.aligned {x x' : Entry} (h : x.Alike x') :
    Aligned x.text x'.text x.tokens x'.tokens := by
  rw [h.tokens, h.tokens']
  exact aligned_tokenize h.respaced

theorem Entry.Alike.row {x x' : Entry} (h : x.Alike x') : RowAlike x.tokens x'.tokens :=
  h.aligned.alike h.left h.right

theorem Entry.Alike.isTableConstraint {x x' : Entry} (h : x.Alike x') :
    x.isTableConstraint = x'.isTableConstraint := by
  unfold Entry.isTableConstraint
  dsimp only
  rw [h.row.leadingKeyword?, h.row.tail.leads, h.row.tail.leadsGroup, h.row.length_eq,
    (h.row.drop 2).isEmpty, (h.row.drop 2).leads, (h.row.drop 2).leads]

theorem Entry.Alike.constraint {x x' : Entry} (h : x.Alike x') :
    RowAlike x.constraint x'.constraint := by
  unfold Entry.constraint
  rw [h.row.leads]
  split
  · exact h.row.drop 2
  · exact h.row

/-- Both rows ask for a group, and for alike ones, or neither does. -/
def GroupAlike (x x' : Option Token) : Prop :=
  x = none ∧ x' = none ∨ ∃ g g', x = some g ∧ x' = some g' ∧ TokenAlike g g' ∧ g.kind = .group

theorem RowAlike.frontGroup? {ts ts' : List Token} (h : RowAlike ts ts') :
    GroupAlike (frontGroup? ts) (frontGroup? ts') := by
  cases h with
  | nil => exact Or.inl ⟨rfl, rfl⟩
  | @cons g g' ts ts' hg _ =>
    rw [frontGroup?_cons, frontGroup?_cons, ← hg.kind]
    by_cases hkind : g.kind = .group
    · rw [if_pos hkind, if_pos hkind]
      exact Or.inr ⟨g, g', rfl, rfl, hg, hkind⟩
    · rw [if_neg hkind, if_neg hkind]
      exact Or.inl ⟨rfl, rfl⟩

theorem RowAlike.keyGroup? {ts ts' : List Token} (h : RowAlike ts ts') :
    GroupAlike (keyGroup? ts) (keyGroup? ts') := by
  unfold Table.keyGroup?
  rw [h.tail.leads]
  split
  · exact (h.drop 2).frontGroup?
  · exact Or.inl ⟨rfl, rfl⟩

/-- A reference in the row names its target. -/
theorem namesTarget_drop {ts : List Token} (h : namesTargets ts = true) {n : Nat}
    (hleads : leads "REFERENCES" (ts.drop n) = true) : namesTarget (ts.drop (n + 1)) = true := by
  have hdrop := namesTargets_drop h n
  rw [← List.tail_drop]
  cases hrow : ts.drop n with
  | nil =>
    rw [hrow] at hleads
    cases hleads
  | cons t rest =>
    rw [hrow] at hleads hdrop
    rw [namesTargets, show t.isKeyword "REFERENCES" = true from hleads] at hdrop
    simp only [Bool.not_true, Bool.false_or, Bool.and_eq_true] at hdrop
    exact hdrop.1

/-- Lists of names make something, and the same if they are the same. -/
theorem ofSingle_both {α : Type} {P : Prop} {a a' : α} {f f' : String → α} {cs cs' : List String}
    (h : P → a = a' ∧ f = f' ∧ cs = cs') :
    Both (fun d d' => P → d = d') (ofSingle a f cs) (ofSingle a' f' cs') := by
  obtain ⟨d, hd, -⟩ := ofSingle_cases a f cs
  obtain ⟨d', hd', -⟩ := ofSingle_cases a' f' cs'
  rw [hd, hd']
  intro hp
  obtain ⟨rfl, rfl, rfl⟩ := h hp
  exact Except.ok.inj (hd.symm.trans hd')

/-- **A constraint of the table adds the same**, if its lists are of names and its reference names
its target. -/
theorem add_both {x x' : Entry} (h : x.Alike x') (k k' : KeyClauses) :
    Both (fun d d' => k = k' → x.Plain → x.isTableConstraint = true → d = d') (k.add x) (k'.add x') := by
  have hrow := h.constraint
  have hplain : x.Plain → x.isTableConstraint = true →
      (∀ g ∈ askedGroups x.constraint, listsNames g = true) ∧ namesTargets x.constraint = true := by
    intro hx hconstraint
    refine ⟨hx.lists hconstraint, ?_⟩
    unfold Entry.constraint
    split
    · exact namesTargets_drop hx.targets 2
    · exact hx.targets
  unfold KeyClauses.add
  rw [show (if leads "CONSTRAINT" x.tokens then x.tokens.drop 2 else x.tokens) = x.constraint from rfl,
    show (if leads "CONSTRAINT" x'.tokens then x'.tokens.drop 2 else x'.tokens) = x'.constraint from rfl]
  generalize x.constraint = ts at hrow hplain
  generalize x'.constraint = ts' at hrow
  dsimp only
  rw [keyColumns?_eq, keyColumns?_eq, groupColumns?_eq, groupColumns?_eq, ← hrow.leadingKeyword?,
    ← (hrow.drop 3).leads]
  -- by the first word: what is listed is the same, and so is the target of a reference
  unfold askedGroups at hplain
  split
  · next hkey =>
    rw [hkey] at hplain
    rcases hrow.keyGroup? with ⟨hnone, hnone'⟩ | ⟨g, g', hsome, hsome', hg, hkind⟩
    · rw [hnone, hnone']
      exact fun h _ _ => h
    · rw [hsome, hsome']
      rw [hsome] at hplain
      refine (columnList_both hg hkind).bind fun cs cs' hcs hk hx hconstraint => ?_
      rw [hk, hcs ((hplain hx hconstraint).1 g List.mem_cons_self)]
  · next hkey =>
    rw [hkey] at hplain
    rcases hrow.tail.dropTo.frontGroup? with ⟨hnone, hnone'⟩ | ⟨g, g', hsome, hsome', hg, hkind⟩
    · rw [hnone, hnone']
      exact fun h _ _ => h
    · rw [hsome, hsome']
      rw [hsome] at hplain
      refine (columnList_both hg hkind).bind fun cs cs' hcs => ?_
      refine (@ofSingle_both _ (k = k' ∧ x.Plain ∧ x.isTableConstraint = true) k k'
        (fun c => { k with unique := k.unique ++ [c] })
        (fun c => { k' with unique := k'.unique ++ [c] }) _ _ ?_).imp
        fun d d' hd hk hx hconstraint => hd ⟨hk, hx, hconstraint⟩
      rintro ⟨rfl, hx, hconstraint⟩
      exact ⟨rfl, rfl, hcs ((hplain hx hconstraint).1 g List.mem_cons_self)⟩
  · next hkey =>
    rw [hkey] at hplain
    rcases hrow.keyGroup? with ⟨hnone, hnone'⟩ | ⟨g, g', hsome, hsome', hg, hkind⟩
    · rw [hnone, hnone']
      exact fun h _ _ => h
    · rw [hsome, hsome']
      rw [hsome] at hplain
      refine (columnList_both hg hkind).bind fun cs cs' hcs => ?_
      by_cases hreferences : leads "REFERENCES" (ts.drop 3) = true
      · rw [if_pos hreferences, if_pos hreferences]
        refine (reference_both (hrow.drop 4)).bind fun a b hab => ?_
        refine (@ofSingle_both _ (k = k' ∧ x.Plain ∧ x.isTableConstraint = true) k k'
          (fun c => { k with foreignKeys := (c, a.1) :: k.foreignKeys })
          (fun c => { k' with foreignKeys := (c, b.1) :: k'.foreignKeys }) _ _ ?_).imp
          fun d d' hd hk hx hconstraint => hd ⟨hk, hx, hconstraint⟩
        rintro ⟨rfl, hx, hconstraint⟩
        obtain ⟨hlists, htargets⟩ := hplain hx hconstraint
        refine ⟨rfl, ?_, hcs (hlists g List.mem_cons_self)⟩
        rw [hab.2 (namesTarget_drop htargets hreferences)]
      · rw [if_neg hreferences, if_neg hreferences]
        trivial
  · exact fun h _ _ => h

/-! ## §2. Entries. -/

/-- Alike entries, one by one. -/
abbrev EntriesAlike (xs xs' : List Entry) : Prop := List.Forall₂ Entry.Alike xs xs'

theorem filter_alike {xs xs' : List Entry} (h : EntriesAlike xs xs') (wanted : Bool) :
    EntriesAlike (xs.filter (·.isTableConstraint = wanted)) (xs'.filter (·.isTableConstraint = wanted)) := by
  induction h with
  | nil => exact .nil
  | @cons x x' xs xs' hx _ ih =>
    rw [List.filter_cons, List.filter_cons, ← hx.isTableConstraint]
    split
    · exact .cons hx ih
    · exact ih

/-- **The constraints of a table add the same.** -/
theorem addAll_both {xs xs' : List Entry} (h : EntriesAlike xs xs') (k k' : KeyClauses) :
    Both (fun d d' => k = k' → (∀ x ∈ xs, x.Plain ∧ x.isTableConstraint = true) → d = d')
      (xs.foldlM KeyClauses.add k) (xs'.foldlM KeyClauses.add k') := by
  induction h generalizing k k' with
  | nil => exact fun h _ => h
  | cons hx _ ih =>
    rw [List.foldlM_cons, List.foldlM_cons]
    refine (add_both hx k k').bind fun d d' hd => (ih d d').imp fun a a' ha hk hplain => ?_
    obtain ⟨⟨hplain, hconstraint⟩, hrest⟩ := List.forall_mem_cons.1 hplain
    exact ha (hd hk hplain hconstraint) hrest

theorem name_apply (k : KeyClauses) (c : Column) : (k.apply c).name = c.name := name_enforceKey _

/-- **The columns have the same names**, and are the same if their entries are plain. -/
theorem readColumns_both {xs xs' : List Entry} (h : EntriesAlike xs xs') (k k' : KeyClauses)
    (before before' : List Column) (hnames : before.map Column.name = before'.map Column.name) :
    Both (fun cs cs' => cs.map Column.name = cs'.map Column.name
        ∧ (k = k' → before = before' → (∀ x ∈ xs, x.Plain ∧ x.isTableConstraint = false) → cs = cs'))
      (readColumns k before xs) (readColumns k' before' xs') := by
  induction h generalizing before before' with
  | nil => exact ⟨hnames, fun _ h _ => h⟩
  | @cons x x' xs xs' hx _ ih =>
    rw [readColumns, readColumns]
    have hcolumn := column_both hx.respaced hx.left hx.right
    rw [show Entry.of x.text = x from by unfold Entry.of; rw [← hx.tokens],
      show Entry.of x'.text = x' from by unfold Entry.of; rw [← hx.tokens']] at hcolumn
    refine hcolumn.bind fun c c' hc => ?_
    have hany : before.any (·.name = c.name) = before'.any (·.name = c'.name) := by
      have hmap : ∀ cs : List Column, cs.any (·.name = c'.name)
          = (cs.map Column.name).any (· = c'.name) := fun cs => by rw [List.any_map]; rfl
      rw [hc.1, hmap, hmap, hnames]
    rw [hany]
    split
    · trivial
    · refine (ih (before ++ [k.apply c]) (before' ++ [k'.apply c']) ?_).imp fun cs cs' hcs => ?_
      · rw [List.map_append, List.map_append, hnames, List.map_singleton, List.map_singleton,
          name_apply, name_apply, hc.1]
      · refine ⟨hcs.1, fun hk hbefore hplain => ?_⟩
        obtain ⟨⟨hplain, hcol⟩, hrest⟩ := List.forall_mem_cons.1 hplain
        exact hcs.2 hk (by rw [hk, hbefore, hc.2 hplain hcol]) hrest

/-! ## §3. Definitions. -/

/-- The entries of a definition. -/
def entriesOf (sql : List Char) : List Entry :=
  match (shell? (stripComments sql)).bind Shell.body? with
  | none => []
  | some body => (splitTopLevel body).map Entry.of

/-- The entries of the definition are plain. -/
def PlainDefinition (sql : List Char) : Prop := ∀ x ∈ entriesOf sql, x.Plain

instance (sql : List Char) : Decidable (PlainDefinition sql) :=
  inferInstanceAs (Decidable (∀ x ∈ entriesOf sql, x.Plain))

/-- The table in a shell. -/
def Shell.table (shell : Shell) : Except TableError Table :=
  match shell.body? with
  | none => .error .unbalancedParentheses
  | some body => do
    let schema := (shell.schema.map unquoteIdent).getD defaultSchema
    let name := unquoteIdent shell.name
    let entries := (splitTopLevel body).map Entry.of
    let keys ← (entries.filter (·.isTableConstraint)).foldlM KeyClauses.add {}
    let columns ← readColumns keys [] (entries.filter (!·.isTableConstraint))
    if columns.isEmpty then .error (.noColumns (schema ++ "." ++ name))
    else return { schema, name, columns }

/-- A definition is read as its shell. -/
theorem parse_shell (sql : List Char) : parse sql
    = match shell? (stripComments sql) with
      | none => .error .notCreateTable
      | some shell => shell.table := by
  unfold parse shell? Shell.table
  dsimp only
  cases head? (stripComments sql) with
  | none => rfl
  | some head => rfl

/-- The entries of restated bodies are alike. -/
theorem entries_alike {body body' : List Char} (h : Restated body body') :
    EntriesAlike ((splitTopLevel body).map Entry.of) ((splitTopLevel body').map Entry.of) := by
  have hentries := splitTopLevel_restated h
  generalize splitTopLevel body = ps at hentries ⊢
  generalize splitTopLevel body' = ps' at hentries ⊢
  induction hentries with
  | nil => exact .nil
  | cons he _ ih =>
    obtain ⟨hrestated, hends, hends'⟩ := he
    exact .cons ⟨hrestated.respaced, ⟨hrestated.left, hends⟩, ⟨hrestated.right, hends'⟩, rfl, rfl⟩ ih

/-- **Restated shells declare one table**, or neither can be read. -/
theorem table_both {shell shell' : Shell} (h : shell.Restated shell') :
    Both (fun t t' => (∀ body ∈ shell.body?, ∀ x ∈ (splitTopLevel body).map Entry.of, x.Plain) → t = t')
      shell.table shell'.table := by
  unfold Shell.table
  rw [← h.schema, ← h.name]
  rcases h.body with ⟨hnone, hnone'⟩ | ⟨body, body', hbody, hbody', hbodies⟩
  · rw [hnone, hnone']
    trivial
  · rw [hbody, hbody']
    have halike := entries_alike hbodies
    refine Both.imp (R := fun t t' => (∀ x ∈ (splitTopLevel body).map Entry.of, x.Plain) → t = t') ?_
      fun t t' ht hplain => ht (hplain body rfl)
    dsimp only
    generalize (splitTopLevel body).map Entry.of = xs at halike ⊢
    generalize (splitTopLevel body').map Entry.of = xs' at halike ⊢
    have hconstraints := filter_alike halike true
    have hcolumns := filter_alike halike false
    simp only [Bool.decide_eq_true, Bool.decide_eq_false] at hconstraints hcolumns
    refine (addAll_both hconstraints {} {}).bind fun k k' hk => ?_
    refine (readColumns_both hcolumns k k' [] [] rfl).bind fun cs cs' hcs => ?_
    -- columns of the same names are as many
    have hempty : cs.isEmpty = cs'.isEmpty := by
      have hlen := congrArg List.length hcs.1
      rw [List.length_map, List.length_map] at hlen
      rw [Bool.eq_iff_iff, List.isEmpty_iff_length_eq_zero, List.isEmpty_iff_length_eq_zero, hlen]
    rw [hempty]
    split
    · trivial
    · intro hplain
      rw [hcs.2 (hk rfl ?_) rfl ?_]
      · intro x hx
        obtain ⟨hx, hconstraint⟩ := List.mem_filter.1 hx
        exact ⟨hplain x hx, hconstraint⟩
      · intro x hx
        obtain ⟨hx, hconstraint⟩ := List.mem_filter.1 hx
        exact ⟨hplain x hx, by simpa using hconstraint⟩

/-- **Definitions that are respaced, gaps around them left aside, declare one table**, or neither
can be read. -/
theorem parse_both {sql sql' : List Char} (h : Respaced (core (classify sql)) (core (classify sql')))
    (hclosed : unclosed? sql = none) (hclosed' : unclosed? sql' = none) :
    Both (fun t t' => PlainDefinition sql → t = t') (parse sql) (parse sql') := by
  have hcore : ∀ {u : List Char}, unclosed? u = none →
      Uncommented (trim (stripComments u))
        ∧ Respaced (core (classify u)) (classify (trim (stripComments u))) := by
    intro u hu
    obtain ⟨hrespaced, hleft⟩ := respaced_uncommented hu
    obtain ⟨htrim, hclassify, -⟩ := uncommented_trim hleft
    rw [hclassify]
    exact ⟨htrim, core_respaced hrespaced⟩
  obtain ⟨hleft, hrespaced⟩ := hcore hclosed
  obtain ⟨hright, hrespaced'⟩ := hcore hclosed'
  have hrestated : Restated (trim (stripComments sql)) (trim (stripComments sql')) :=
    ⟨(hrespaced.symm.trans h).trans hrespaced', hleft, hright⟩
  have hshells := shell?_restated hrestated
  rw [shell?_trim, shell?_trim] at hshells
  unfold PlainDefinition entriesOf
  rw [parse_shell, parse_shell]
  rcases hshells with ⟨hnone, hnone'⟩ | ⟨shell, shell', hsome, hsome', hshell⟩
  · rw [hnone, hnone']
    trivial
  · rw [hsome, hsome']
    refine (table_both hshell).imp fun t t' ht hplain => ht fun body hbody x hx => hplain x ?_
    rw [Option.bind_some, Option.mem_def.1 hbody]
    exact hx

end SchemaDrift.Table
