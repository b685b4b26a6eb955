/-
  SchemaDrift.Proofs.Source.Relaid
  ────────────────────────────────
  **LAYING OUT A FILE AGAIN CHANGES NOTHING.**

  A file in which one run of white space and comments took the place of another is read to the
  same directives, the same statements and the same table as before (`read_relaid`), in each of
  the three ways of treating a file, so that it is no change against a record of the old one.

      FileContent.Relaid   what two such files hold
      contentOf_relaid     the content for given directives
-/

import SchemaDrift.Proofs.Change.Accepted
import SchemaDrift.Proofs.Source.Joined
import SchemaDrift.Proofs.Table.Redeclared

namespace SchemaDrift

open SchemaDrift.Sql SchemaDrift.Table

/-! ## §1. What a file holds. -/

/-- The definitions among the statements name columns and targets, and have no type that looks
back at the name in front of it. -/
def FileContent.Plain (c : FileContent) : Prop :=
  ∀ s ∈ c.statements, PlainDefinition s.raw.toList

/-- Statements of the same identity in the same order, and the same table from a plain
definition. -/
structure FileContent.Relaid (c c' : FileContent) : Prop where
  hashes : c.statements.map (·.hash) = c'.statements.map (·.hash)
  table : c.Plain → c.table = c'.table

/-- Both are read to a content, and these are related, or neither is. -/
def BothHold (x y : Except Halt (Except FileError FileContent)) : Prop :=
  (∃ c c', x = .ok (.ok c) ∧ y = .ok (.ok c') ∧ c.Relaid c')
    ∨ (∀ c, x ≠ .ok (.ok c)) ∧ ∀ c, y ≠ .ok (.ok c)

theorem hashes_resaid {ss ss' : List Statement} (h : List.Forall₂ Statement.Resaid ss ss') :
    ss.map (·.hash) = ss'.map (·.hash) := by
  induction h with
  | nil => rfl
  | cons hs _ ih => rw [List.map_cons, List.map_cons, hs.hash_eq, ih]

theorem anyCreates_resaid {ss ss' : List Statement} (h : List.Forall₂ Statement.Resaid ss ss') :
    ss.any (·.isCreateTable) = ss'.any (·.isCreateTable) := by
  induction h with
  | nil => rfl
  | cons hs _ ih => rw [List.any_cons, List.any_cons, hs.isCreateTable_eq, ih]

/-- A declaration. -/
theorem declarativeContent_relaid {ss ss' : List Statement}
    (h : List.Forall₂ Statement.Resaid ss ss') :
    BothHold ((declarativeContent ss).mapError fun _ => .cutInsideCharacter)
      ((declarativeContent ss').mapError fun _ => .cutInsideCharacter) := by
  have hfail : ∀ {x : Except TableError (Except FileError FileContent)},
      (∀ c, x ≠ .ok (.ok c)) → ∀ c, (x.mapError fun _ => Halt.cutInsideCharacter) ≠ .ok (.ok c) := by
    intro x hx c hc
    cases x with
    | error e => cases hc
    | ok y => exact hx c (congrArg Except.ok (Except.ok.inj hc))
  cases h with
  | nil => exact Or.inr ⟨fun c hc => (nomatch hc), fun c hc => (nomatch hc)⟩
  | @cons s s' ss ss' hs _ =>
    unfold declarativeContent
    dsimp only
    rw [← hs.isCreateTable_eq]
    by_cases hcreate : s.isCreateTable = true
    · rw [hcreate, Bool.not_true, if_neg Bool.false_ne_true]
      -- the definitions are read to the same table, or both to a fault
      have hboth := parse_both hs.same hs.left.closed hs.right.closed
      cases hparse : Table.parse s.raw.toList with
      | error e =>
        cases hparse' : Table.parse s'.raw.toList with
        | error e' =>
          refine Or.inr ⟨hfail fun c hc => ?_, hfail fun c hc => ?_⟩
          · cases e <;> cases hc
          · cases e' <;> cases hc
        | ok t' =>
          rw [hparse, hparse'] at hboth
          exact hboth.elim
      | ok t =>
        cases hparse' : Table.parse s'.raw.toList with
        | error e' =>
          rw [hparse, hparse'] at hboth
          exact hboth.elim
        | ok t' =>
          rw [hparse, hparse'] at hboth
          refine Or.inl ⟨_, _, rfl, rfl, ?_, fun hplain => ?_⟩
          · rw [List.map_singleton, List.map_singleton, hs.hash_eq]
          · exact congrArg some (hboth (hplain s (List.mem_singleton_self s)))
    · rw [Bool.eq_false_iff.2 hcreate, Bool.not_false, if_pos rfl]
      exact Or.inr ⟨fun c hc => (nomatch hc), fun c hc => (nomatch hc)⟩

/-- A file whose statements are one. -/
theorem plainContent_relaid {ss ss' : List Statement} (h : List.Forall₂ Statement.Resaid ss ss')
    (hsaid : ∀ s ∈ ss, s.Says) : (plainContent ss).Relaid (plainContent ss') := by
  cases h with
  | nil => exact ⟨rfl, fun _ => rfl⟩
  | @cons s s' ss ss' hs hrest =>
    refine ⟨?_, fun _ => rfl⟩
    unfold plainContent Statement.hash Statement.normalized
    rw [List.map_singleton, List.map_singleton, (joined_resaid (.cons hs hrest) hsaid).normalize_eq]

/-- **The content of a file laid out again**, for given directives. -/
theorem contentOf_relaid {t t' : List Char} (h : Exchanged t t')
    (hmarker : ∀ l ∈ Text.lines t, marker? l = none) (d : Directives) :
    BothHold (contentOf t d) (contentOf t' d) := by
  unfold contentOf
  by_cases hconflict : d.conflicting = true
  · rw [if_pos hconflict, if_pos hconflict]
    exact Or.inr ⟨fun c hc => (nomatch hc), fun c hc => (nomatch hc)⟩
  rw [if_neg hconflict, if_neg hconflict]
  rcases split_relaid h hmarker with ⟨⟨e, he⟩, e', he'⟩ | ⟨ss, ss', hss, hss', hresaid⟩
  · rw [he, he']
    exact Or.inr ⟨fun c hc => (nomatch hc), fun c hc => (nomatch hc)⟩
  rw [hss, hss']
  dsimp only
  rw [hresaid.length_eq, anyCreates_resaid hresaid]
  split
  · exact Or.inr ⟨fun c hc => (nomatch hc), fun c hc => (nomatch hc)⟩
  split
  · exact declarativeContent_relaid hresaid
  split
  · exact Or.inl ⟨_, _, rfl, rfl, hashes_resaid hresaid, fun _ => rfl⟩
  · exact Or.inl ⟨_, _, rfl, rfl, plainContent_relaid hresaid (split_saying hss)⟩

/-! ## §2. Files. -/

/-- A file without a new or lost identity has no change of its statements. -/
theorem statementChanges_nil {f : SourceFile} {raw : String} {hashes : List String}
    (h : f.statements.map (·.hash) = hashes) : statementChanges f (.plain raw hashes) = [] := by
  have hmem : ∀ s ∈ f.statements, s.hash ∈ hashes := fun s hs => h ▸ List.mem_map_of_mem hs
  unfold statementChanges Record.statementHashes
  dsimp only
  rw [h, List.append_eq_nil_iff, List.map_eq_nil_iff, List.map_eq_nil_iff, List.filter_eq_nil_iff,
    List.filter_eq_nil_iff]
  exact ⟨fun x hx => by simpa using hx, fun s hs => by simpa using hmem s hs⟩

/-- The file is read without an error. -/
def ReadsWell (path text : String) : Prop :=
  ∃ f, SourceFile.read path text = .ok f ∧ f.error? = none

/-- A file is read without an error if its directives and its content are. -/
theorem readsWell_iff {path text : String} : ReadsWell path text
    ↔ ∃ d c, Sql.directives text.toList = .ok d ∧ contentOf text.toList d = .ok (.ok c) := by
  constructor
  · rintro ⟨f, hf, hok⟩
    obtain ⟨c, hc⟩ := SourceFile.read_holds hf hok
    exact ⟨f.directives, c, hc.directives, hc.content⟩
  · rintro ⟨d, c, hd, hc⟩
    exact ⟨_, SourceFile.read_ok path hd hc, rfl⟩

/-- A table is read only where one is asked for. -/
theorem contentOf_no_table {text : List Char} {d : Directives} {c : FileContent}
    (h : contentOf text d = .ok (.ok c)) (hd : d.declarativeTable = false) : c.table = none := by
  obtain ⟨-, ss, -, hcontents⟩ := contentOf_ok_iff.1 h
  cases hcontents with
  | declared hdeclarative =>
    rw [hd] at hdeclarative
    cases hdeclarative
  | separate => rfl
  | plain => exact table_plainContent ss

/-- What a file laid out again has in common with the old one. -/
structure SourceFile.Relaid (f f' : SourceFile) : Prop where
  directives : f'.directives = f.directives
  hashes : f'.statements.map (·.hash) = f.statements.map (·.hash)
  table : (f.isDeclarative = true → ∀ s ∈ f.statements, PlainDefinition s.raw.toList) →
    f'.table? = f.table?

/-- **A file laid out again is no change against the record of the old one**, or one without any
statement. -/
theorem SourceFile.Relaid.modification? {f f' : SourceFile} (h : f.Relaid f') {path text : String}
    (hread : SourceFile.read path text = .ok f) (hok : f.error? = none)
    (hplain : f.isDeclarative = true → ∀ s ∈ f.statements, PlainDefinition s.raw.toList)
    {r : Record} (hr : Record.ofFile? f = some r) : SchemaDrift.modification? f' r = none
      ∨ f.isDeclarative = false ∧ SchemaDrift.modification? f' r = some (.content []) := by
  have htable := h.table hplain
  have hdirectives : f'.isDeclarative = f.isDeclarative := by
    unfold SourceFile.isDeclarative
    rw [h.directives]
  rcases ofFile_cases hr with ⟨hd, -⟩ | ⟨hd, hash, rfl⟩
  · rw [ofFile_plain hr hd, modification?_plain (hdirectives.trans hd),
      statementChanges_nil h.hashes]
    split
    · exact Or.inl rfl
    · exact Or.inr ⟨hd, rfl⟩
  · obtain ⟨s, t, -, ht, -, hparse⟩ := SourceFile.read_declarative hread hok hd
    left
    rw [@modification?_declarative _ (hdirectives.trans hd) _ t t ht (htable.trans ht),
      if_pos rfl, Alter.diff_self (parse_names_nodup hparse)]
    rfl

/-- Files with the same directives whose contents are related are read alike. -/
theorem readsWell_both {t t' : String}
    (hdirectives : ∀ d, Sql.directives t.toList = .ok d ↔ Sql.directives t'.toList = .ok d)
    (hcontent : ∀ d, Sql.directives t.toList = .ok d →
      BothHold (contentOf t.toList d) (contentOf t'.toList d)) (path : String) :
    (ReadsWell path t ↔ ReadsWell path t')
      ∧ ∀ f f', SourceFile.read path t = .ok f → f.error? = none →
        SourceFile.read path t' = .ok f' → f'.error? = none → f.Relaid f' := by
  constructor
  · rw [readsWell_iff, readsWell_iff]
    constructor
    · rintro ⟨d, c, hd, hc⟩
      rcases hcontent d hd with ⟨-, c', -, hc', -⟩ | ⟨hnone, -⟩
      · exact ⟨d, c', (hdirectives d).1 hd, hc'⟩
      · exact absurd hc (hnone c)
    · rintro ⟨d, c', hd, hc'⟩
      rcases hcontent d ((hdirectives d).2 hd) with ⟨c, -, hc, -, -⟩ | ⟨-, hnone⟩
      · exact ⟨d, c, (hdirectives d).2 hd, hc⟩
      · exact absurd hc' (hnone c')
  · intro f f' hf hok hf' hok'
    obtain ⟨d, c, hd, hc⟩ := readsWell_iff.1 ⟨f, hf, hok⟩
    rcases hcontent d hd with ⟨c₁, c', hc₁, hc', hrelaid⟩ | ⟨hnone, -⟩
    · rw [SourceFile.read_ok path hd hc] at hf
      rw [SourceFile.read_ok path ((hdirectives d).1 hd) hc'] at hf'
      cases hf
      cases hf'
      rw [hc] at hc₁
      cases hc₁
      refine ⟨rfl, hrelaid.hashes.symm, fun hplain => ?_⟩
      cases hdeclarative : d.declarativeTable with
      | true => exact (hrelaid.table (hplain hdeclarative)).symm
      | false =>
        show c'.table = c.table
        rw [contentOf_no_table hc' hdeclarative, contentOf_no_table hc hdeclarative]
    · exact absurd hc (hnone c)

/-- A file laid out again is read without an error if the old one is, and then alike. -/
theorem readsWell_relaid {t t' : String} (h : Sql.Relaid t.toList t'.toList)
    (hmarker : ∀ l ∈ Text.lines t.toList, marker? l = none) (path : String) :
    (ReadsWell path t ↔ ReadsWell path t')
      ∧ ∀ f f', SourceFile.read path t = .ok f → f.error? = none →
        SourceFile.read path t' = .ok f' → f'.error? = none → f.Relaid f' := by
  have hexchanged := h.exchanged
  have hdirectives : ∀ d, Sql.directives t.toList = .ok d ↔ Sql.directives t'.toList = .ok d := by
    intro d
    rw [← toOption_eq_some, hexchanged.directives, toOption_eq_some]
  exact readsWell_both hdirectives (fun d _ => contentOf_relaid hexchanged hmarker d) path

/-- **Laying out a file again changes nothing.**  With one run of white space and comments in the
place of another, a file without marker lines is read without an error as before or not at all,
to the same directives, identities and, where its definition is plain, table; and it is no change
against a snapshot that records the old one, or a change without a statement. -/
theorem relaid_unchanged {t t' : String} (h : Sql.Relaid t.toList t'.toList)
    (hmarker : ∀ l ∈ Text.lines t.toList, marker? l = none) (path : String) :
    (ReadsWell path t ↔ ReadsWell path t')
      ∧ ∀ f f', SourceFile.read path t = .ok f → f.error? = none →
        SourceFile.read path t' = .ok f' → f'.error? = none →
        f'.directives = f.directives ∧ f'.statements.map (·.hash) = f.statements.map (·.hash)
          ∧ ((f.isDeclarative = true → ∀ s ∈ f.statements, PlainDefinition s.raw.toList) →
            f'.table? = f.table? ∧ ∀ s : Snapshot, s.get? path = Record.ofFile? f →
              fileChange? s f' = none ∨ f.isDeclarative = false
                ∧ ∃ r, fileChange? s f' = some (.modified f' r (.content []))) := by
  obtain ⟨hreads, hrelaid⟩ := readsWell_relaid h hmarker path
  refine ⟨hreads, fun f f' hf hok hf' hok' => ?_⟩
  have hboth := hrelaid f f' hf hok hf' hok'
  refine ⟨hboth.directives, hboth.hashes, fun hplain => ⟨hboth.table hplain, fun s hs => ?_⟩⟩
  obtain ⟨r, hr⟩ := exists_ofFile hok
  have hpath : f'.path = path := by
    obtain ⟨d, c, hd, hc⟩ := readsWell_iff.1 ⟨f', hf', hok'⟩
    rw [SourceFile.read_ok path hd hc] at hf'
    cases hf'
    rfl
  unfold fileChange?
  rw [hpath, hs, hr]
  dsimp only
  rcases hboth.modification? hf hok hplain hr with hnone | ⟨hd, hempty⟩
  · rw [hnone]
    exact Or.inl rfl
  · rw [hempty]
    exact Or.inr ⟨hd, r, rfl⟩

/-- A comment that looks like the end of a statement gives way to another one, next to what an `e`
would make a string with escapes. -/
theorem relaid_unchanged_comment :
    let t := "-- sqlsync: declarativeTable=true\nCREATE TABLE t (n text DEFAULT e -- it's;\n'a\\');"
    let t' := "-- sqlsync: declarativeTable=true\nCREATE TABLE t (n text DEFAULT e\n/* it's; */'a\\');"
    ∃ f f', SourceFile.read "t.sql" t = .ok f ∧ SourceFile.read "t.sql" t' = .ok f'
      ∧ f'.statements.map (·.hash) = f.statements.map (·.hash)
      ∧ f'.table? = f.table? ∧ f.table?.isSome = true := by
  intro t t'
  let gs := classify "-- sqlsync: declarativeTable=true\nCREATE TABLE t (n text DEFAULT e".toList
  let a : List Glyph := ⟨' ', .code⟩ :: ("-- it's;".toList.map fun c => ⟨c, .comment⟩)
    ++ [⟨'\n', .code⟩]
  let hs := classify "'a\\');".toList
  let r := "\n/* it's; */".toList
  have hwhole : classify t.toList = gs ++ (a ++ hs) := by decide +kernel
  have hrelaid : Sql.Relaid t.toList (gs.map Glyph.char ++ (r ++ hs.map Glyph.char)) :=
    relaid_between hwhole ⟨by decide, by decide +kernel⟩ (by decide +kernel)
      (show ∀ g ∈ hs.head?, g.isGap = false by decide +kernel) (by decide +kernel)
      ⟨⟨'\n', _, rfl, by decide⟩, by decide +kernel⟩ (by decide +kernel) (by decide +kernel)
  rw [show gs.map Glyph.char ++ (r ++ hs.map Glyph.char) = t'.toList by decide +kernel] at hrelaid
  have hmarker : ∀ l ∈ Text.lines t.toList, marker? l = none := by decide +kernel
  have hread : ∃ f, SourceFile.read "t.sql" t = .ok f ∧ f.error? = none ∧ f.table?.isSome = true
      ∧ ∀ s ∈ f.statements, PlainDefinition s.raw.toList := by
    have hd : Sql.directives t.toList = .ok { declarativeTable := true } := by decide +kernel
    have hc : contentOf t.toList { declarativeTable := true } = .ok (.ok
        { statements := [{ raw := t, startLine := some 1 }]
          table := some { schema := "public", name := "t", columns :=
            [{ name := "n", dataType := "TEXT", defaultExpr := some "e 'a\\'" }] } }) := by
      decide +kernel
    refine ⟨_, SourceFile.read_ok "t.sql" hd hc, rfl, rfl, ?_⟩
    intro s hs
    rw [List.mem_singleton.1 hs]
    decide +kernel
  obtain ⟨f, hf, hok, htable, hplain⟩ := hread
  obtain ⟨hreads, hboth⟩ := relaid_unchanged hrelaid hmarker "t.sql"
  obtain ⟨f', hf', hok'⟩ := hreads.1 ⟨f, hf, hok⟩
  obtain ⟨-, hhashes, hsame⟩ := hboth f f' hf hok hf' hok'
  exact ⟨f, f', hf, hf', hhashes, (hsame fun _ => hplain).1, htable⟩

/-- A type that touches the name in front of it is read again without it, so that a literal that
began behind an `e` ends elsewhere, and a space in code counts as quoted. -/
theorem space_in_type :
    let t := "-- sqlsync: declarativeTable=true\nCREATE TABLE t (e'a\\'b' int);"
    let t' := "-- sqlsync: declarativeTable=true\nCREATE TABLE t (e'a\\'b'  int);"
    Sql.Relaid t.toList t'.toList ∧ (∀ l ∈ Text.lines t.toList, marker? l = none)
      ∧ ∃ f f' old new, SourceFile.read "t.sql" t = .ok f ∧ SourceFile.read "t.sql" t' = .ok f'
        ∧ (∀ s ∈ f.statements, ∀ x ∈ entriesOf s.raw.toList, x.isTableConstraint = false
          ∧ namesTargets x.tokens = true)
        ∧ f.table? = some old ∧ f'.table? = some new ∧ old ≠ new
        ∧ (Alter.diff old new).flatMap (·.sql)
          = ["ALTER TABLE public.t ALTER COLUMN e TYPE 'a\\'B'  int USING e::'a\\'B'  int;"] := by
  intro t t'
  let gs := classify "-- sqlsync: declarativeTable=true\nCREATE TABLE t (e'a\\'b'".toList
  let a : List Glyph := [⟨' ', .code⟩]
  let hs := classify "int);".toList
  have hwhole : classify t.toList = gs ++ (a ++ hs) := by decide +kernel
  let r := "  ".toList
  have hrelaid : Sql.Relaid t.toList (gs.map Glyph.char ++ (r ++ hs.map Glyph.char)) :=
    relaid_between hwhole ⟨by decide, by decide +kernel⟩ (by decide +kernel)
      (show ∀ g ∈ hs.head?, g.isGap = false by decide +kernel) (by decide +kernel)
      (filler_blanks (by decide) (List.all_eq_true.1 (by decide +kernel))) (by decide +kernel)
      (by decide +kernel)
  rw [show gs.map Glyph.char ++ (r ++ hs.map Glyph.char) = t'.toList by decide +kernel] at hrelaid
  let column (type : String) : Table :=
    { schema := "public", name := "t", columns := [{ name := "e", dataType := type }] }
  have hread : ∀ type u, u = t ∧ type = "'a\\'B' int" ∨ u = t' ∧ type = "'a\\'B'  int" →
      SourceFile.read "t.sql" u = .ok ⟨"t.sql", Digest.hashOf u, { declarativeTable := true },
        .ok ⟨[⟨u, some 1⟩], some (column type)⟩⟩ := by
    rintro type u (⟨rfl, rfl⟩ | ⟨rfl, rfl⟩)
    · exact SourceFile.read_ok _ (by decide +kernel) (by decide +kernel)
    · exact SourceFile.read_ok _ (by decide +kernel) (by decide +kernel)
  refine ⟨hrelaid, by decide +kernel, _, _, _, _, hread _ t (Or.inl ⟨rfl, rfl⟩),
    hread _ t' (Or.inr ⟨rfl, rfl⟩), ?_, rfl, rfl, by decide +kernel, ?_⟩
  · intro s hs
    rw [List.mem_singleton.1 hs]
    decide +kernel
  · -- no column is renamed
    have hnone : Alter.renames (column "'a\\'B' int") (column "'a\\'B'  int") = [] := by
      unfold Alter.renames Rename.matching
      rw [List.mergeSort_of_pairwise (by decide +kernel)]
      decide +kernel
    unfold Alter.diff Alter.steps Alter.keyChanges Alter.renamedKey
    rw [hnone]
    decide +kernel

end SchemaDrift
