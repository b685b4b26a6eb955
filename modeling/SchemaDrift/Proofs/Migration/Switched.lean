/-
  SchemaDrift.Proofs.Migration.Switched
  ─────────────────────────────────────
  **A TABLE IS DECLARED, OR NO MORE, AND NOTHING IS TO BE DONE.**

  A file of one statement is redirected so that its table is declared from now on, or is declared
  no more.  The record of the file has the identity of its statement in either case
  (`statementHashes_ofFile`), so the definition counts as unchanged, and the migration is a note:
  there is nothing to execute, nothing to review and nothing to keep.

      changes_replaced       a tree in which one file takes the place of another
      isEmpty_of_switched    the migration of a file that has switched its mode
      switched_unchanged     the whole of it
-/

import SchemaDrift.Proofs.Migration.Accepted
import SchemaDrift.Proofs.Migration.Reported
import SchemaDrift.Proofs.Snapshot.Retention
import SchemaDrift.Proofs.Source.Redirected

namespace SchemaDrift

open SchemaDrift.Sql SchemaDrift.Text SchemaDrift.Digest

/-! ## §1. Records of one statement. -/

/-- A digest has sixty-four digits. -/
theorem length_hashOf (text : String) : (hashOf text).toList.length = 64 := by
  unfold hashOf
  rw [String.toList_ofList]
  rfl

/-- The record of a file of one statement has its identity, declared or not. -/
theorem statementHashes_ofFile {f : SourceFile} {r : Record} (hr : Record.ofFile? f = some r)
    {s : Statement} (hone : f.statements.map (·.hash) = [s.hash]) :
    r.statementHashes = [s.hash] := by
  cases hd : f.isDeclarative with
  | false =>
    rw [ofFile_plain hr hd]
    exact hone
  | true =>
    -- the record of a table counts as one of a statement unless its identity is empty
    have hne : s.hash.isEmpty = false := by
      rw [Bool.eq_false_iff, ne_eq, String.isEmpty_iff]
      intro hempty
      have hlength := length_hashOf s.normalized
      rw [show hashOf s.normalized = s.hash from rfl, hempty] at hlength
      cases hlength
    obtain ⟨st, hst, hhash⟩ := List.map_eq_singleton_iff.1 hone
    rw [(ofFile_eq_some.1 hr).2, if_pos hd, hst]
    show (if st.hash.isEmpty then [] else [st.hash]) = [s.hash]
    rw [hhash, hne, if_neg Bool.false_ne_true]

/-- A file of one statement has it unchanged exactly if it is the one of the record. -/
theorem isUnchanged_one {f : SourceFile} {r : Record} {hash hash' : String}
    (hf : f.statements.map (·.hash) = [hash]) (hr : r.statementHashes = [hash']) :
    isUnchanged f r = true ↔ hash = hash' := by
  obtain ⟨st, hst, rfl⟩ := List.map_eq_singleton_iff.1 hf
  unfold isUnchanged
  rw [hst, hr]
  simp

/-- What the switch of a file to or from a declared table is told as; `old` is the table that was
declared before. -/
def switchDetail (f : SourceFile) (old : Option Table) : Modification :=
  if f.isDeclarative then .becameDeclarative else .declarativeDisabled old

/-- A file that is declared where the old one was not, or the other way, has switched. -/
theorem modification?_switched {f f' : SourceFile} (hmode : f'.isDeclarative ≠ f.isDeclarative)
    {r : Record} (hr : Record.ofFile? f = some r) :
    modification? f' r = some (switchDetail f' f.table?) := by
  unfold modification? switchDetail
  rcases ofFile_cases hr with ⟨hd, hashes, rfl⟩ | ⟨hd, hash, rfl⟩
  · have hd' : f'.isDeclarative = true := by
      rw [hd] at hmode
      simpa using hmode
    rw [hd']
    rfl
  · have hd' : f'.isDeclarative = false := by
      rw [hd] at hmode
      simpa using hmode
    rw [hd']
    rfl

/-! ## §2. A tree with another file in one place. -/

section Trees

variable {f f' : SourceFile} {front back : List SourceFile}

/-- **In a tree in which one file takes the place of another, that file alone has changed.** -/
theorem changes_replaced (hok : ∀ g ∈ front ++ f :: back, g.error? = none)
    (hpaths : ((front ++ f :: back).map (·.path)).Nodup)
    (htables : ∀ g ∈ front ++ back, ∀ t, g.table? = some t → t.columnNames.Nodup)
    (hpath : f'.path = f.path) {r : Record} (hr : Record.ofFile? f = some r) {detail : Modification}
    (hdetail : modification? f' r = some detail) (s : Snapshot) :
    (treeDiff (front ++ f' :: back) (s.advance (front ++ f :: back))).changes
      = [.modified f' r detail] := by
  -- every other file is as the snapshot has it
  have hnone : ∀ g ∈ front ++ back, fileChange? (s.advance (front ++ f :: back)) g = none := by
    intro g hg
    refine fileChange?_advance hok hpaths s ?_ (htables g hg)
    simp only [List.mem_append, List.mem_cons] at hg ⊢
    exact hg.imp_right Or.inr
  have hsome : fileChange? (s.advance (front ++ f :: back)) f' = some (.modified f' r detail) := by
    unfold fileChange?
    rw [hpath, get?_advance hok hpaths s (List.mem_append_right _ List.mem_cons_self), hr]
    dsimp only
    rw [hdetail]
    rfl
  have hpresent : presentChanges (front ++ f' :: back) (s.advance (front ++ f :: back))
      = [(f'.path, .modified f' r detail)] := by
    have hfront := presentChanges_eq_nil fun g hg => hnone g (List.mem_append_left _ hg)
    have hback := presentChanges_eq_nil fun g hg => hnone g (List.mem_append_right _ hg)
    unfold presentChanges at hfront hback ⊢
    rw [List.filterMap_append, hfront, List.filterMap_cons, hsome, hback]
    rfl
  -- no path is lost, for the new file has the path of the old
  have hgone : goneChanges (front ++ f' :: back) (s.advance (front ++ f :: back)) = [] := by
    refine goneChanges_advance hok hpaths s fun g hg => ?_
    rcases List.mem_append.1 hg with hg | hg
    · exact ⟨g, List.mem_append_left _ hg, rfl⟩
    rcases List.mem_cons.1 hg with rfl | hg
    · exact ⟨f', List.mem_append_right _ List.mem_cons_self, hpath⟩
    · exact ⟨g, List.mem_append_right _ (List.mem_cons_of_mem _ hg), rfl⟩
  show (PathMap.ofList (presentChanges _ _ ++ goneChanges _ _)).values = _
  rw [hpresent, hgone]
  rfl

end Trees

/-! ## §3. The migration. -/

/-- A file that has switched its mode is to be reviewed unless its statements are as they were, and
then it is told in notes only. -/
theorem draft_switched (f : SourceFile) (r : Record) (old : Option Table) :
    (draftChange (.modified f r (switchDetail f old))).manualReview
        = (if isUnchanged f r then [] else [f.path])
      ∧ (isUnchanged f r = true →
        (∀ l ∈ (draftChange (.modified f r (switchDetail f old))).lines, l.origin? = none)
          ∧ (FileChange.modified f r (switchDetail f old)).dumped = []) := by
  have hlines : ∀ detail lines, draftDetail f r detail = Draft.ofLines lines →
      (∀ l ∈ lines, l.origin? = none) →
      ∀ l ∈ (draftChange (.modified f r detail)).lines, l.origin? = none := by
    intro detail lines hdetail hnone
    show ∀ l ∈ (draftModified f r detail).lines, _
    unfold draftModified
    rw [hdetail, Draft.append_lines, Draft.append_lines, List.forall_mem_append,
      List.forall_mem_append]
    exact ⟨⟨List.forall_mem_singleton.2 rfl, hnone⟩, List.forall_mem_singleton.2 rfl⟩
  unfold switchDetail
  split
  · refine ⟨?_, fun h => ⟨hlines _ _ (by dsimp only [draftDetail]; rw [if_pos h])
      (List.forall_mem_singleton.2 rfl), ?_⟩⟩
    · dsimp only [draftChange, draftModified, draftDetail]
      split <;> rfl
    · dsimp only [FileChange.dumped, reviewed]
      rw [if_pos h]
      rfl
  · refine ⟨?_, fun h => ⟨hlines _ _ (by dsimp only [draftDetail]; rw [if_pos h]; rfl)
      (List.forall_mem_cons.2 ⟨rfl, List.forall_mem_singleton.2 rfl⟩), ?_⟩⟩
    · dsimp only [draftChange, draftModified, draftDetail]
      split <;> rfl
    · dsimp only [FileChange.dumped, reviewed]
      rw [if_pos h]
      rfl

/-- The migration of one modified file asks for the reviews of that. -/
theorem review_alone {d : TreeDiff} {f : SourceFile} {r : Record} {detail : Modification}
    (hd : d.changes = [.modified f r detail]) (name : String) (createdAt : Stamp) (next : Snapshot) :
    (synthesize name createdAt d next).manualReview
      = (draftChange (.modified f r detail)).manualReview := by
  have hother : ∀ event, event ≠ .modified → (draftSection d.changes event).manualReview = [] := by
    intro event hevent
    have hnone : [FileChange.modified f r detail].filter (·.event = event) = [] := by
      rw [List.filter_eq_nil_iff, List.forall_mem_singleton, decide_eq_true_eq]
      exact hevent.symm
    rw [draftSection_review, hd, hnone]
    rfl
  have hhere : (draftSection d.changes .modified).manualReview
      = (draftChange (.modified f r detail)).manualReview := by
    rw [draftSection_review, hd]
    exact List.append_nil _
  show [] ++ (draftSection d.changes .added).manualReview
    ++ (draftSection d.changes .modified).manualReview
    ++ (draftSection d.changes .deleted).manualReview = _
  rw [hother .added (by decide), hother .deleted (by decide), hhere, List.nil_append,
    List.nil_append, List.append_nil]

/-- **The migration of a file that has switched its mode, with its statements as they were, is
empty, lists no manual review and is not to be persisted.** -/
theorem isEmpty_of_switched {f : SourceFile} {r : Record} (h : isUnchanged f r = true)
    {old : Option Table} (hpath : Inline f.path)
    (hold : ∀ t, old = some t → Inline t.qualifiedName) {d : TreeDiff}
    (hd : d.changes = [.modified f r (switchDetail f old)]) {name : String} (hname : Inline name)
    (createdAt : Stamp) (next : Snapshot) :
    (synthesize name createdAt d next).isEmpty = true
      ∧ (synthesize name createdAt d next).manualReview = []
      ∧ (synthesize name createdAt d next).shouldPersist = false := by
  obtain ⟨hreview, hnotes⟩ := draft_switched f r old
  obtain ⟨hnone, hdumped⟩ := hnotes h
  rw [if_pos h] at hreview
  have hrepeated : ∀ c ∈ d.changes, ∀ x ∈ c.repeated, Inline x := by
    rw [hd, List.forall_mem_singleton]
    refine List.forall_mem_cons.2 ⟨hpath, ?_⟩
    unfold switchDetail
    split
    · exact List.forall_mem_nil _
    · intro x hx
      obtain ⟨t, ht, rfl⟩ := Option.map_eq_some_iff.1 (Option.mem_toList.1 hx)
      exact hold t ht
  have htold := told_synthesize hname createdAt hrepeated next
  rw [hd, List.flatMap_singleton, hdumped] at htold
  have hempty : (synthesize name createdAt d next).isEmpty = true := by
    -- no line stands for a statement: head, headings, and the notes on the one file
    refine isEmpty_of_told htold fun l hl => ?_
    rcases synthesize_cases hl with hl | ⟨event, hl⟩ | ⟨c, hc, hl⟩
    · unfold headLines at hl
      simp only [List.mem_cons, List.not_mem_nil, or_false] at hl
      rcases hl with rfl | rfl | rfl <;> rfl
    · simp only [List.mem_cons, List.not_mem_nil, or_false] at hl
      rcases hl with rfl | rfl <;> rfl
    · rw [hd, List.mem_singleton] at hc
      exact hnone l (hc ▸ hl)
  have hnothing := (review_alone hd name createdAt next).trans hreview
  refine ⟨hempty, hnothing, ?_⟩
  unfold Migration.shouldPersist
  rw [hempty, hnothing]
  rfl

/-! ## §4. Files. -/

/-- **A file of one statement has one identity however it is treated, and to switch it to or from
a declared table asks for nothing.**  Its directives are put in, taken out and exchanged, each in
a line of its own that begins in code in its section.  Then the statement keeps its identity in
every mode; and in a tree with the file, read without an error before and after, nothing but the
switch is told, in a migration that is empty, lists no manual review and is not to be
persisted. -/
theorem switched_unchanged {t t' : String} (h : Redirected t.toList t'.toList) {s : Statement}
    (hs : split t.toList = .ok [s]) :
    ∃ s', split t'.toList = .ok [s'] ∧ s'.hash = s.hash
      ∧ ModesAgree t.toList s ∧ ModesAgree t'.toList s'
      ∧ ∀ path f f', SourceFile.read path t = .ok f → f.error? = none →
        SourceFile.read path t' = .ok f' → f'.error? = none →
        f.statements.map (·.hash) = [s.hash] ∧ f'.statements.map (·.hash) = [s.hash]
          ∧ (f'.isDeclarative ≠ f.isDeclarative → Inline path →
            (∀ table, f.table? = some table → Inline table.qualifiedName) →
            ∀ front back : List SourceFile, ((front ++ f :: back).map (·.path)).Nodup →
            (∀ g ∈ front ++ back, g.error? = none ∧ ∃ text, SourceFile.read g.path text = .ok g) →
            ∀ name, checkMigrationName name = .ok () → ∀ (createdAt : Stamp) (old next : Snapshot),
              ∃ d m r,
                (compareTree (front ++ f' :: back) (old.advance (front ++ f :: back))).1 = .ok d
                ∧ m = synthesize name createdAt d next ∧ Record.ofFile? f = some r
                ∧ d.changes = [.modified f' r (switchDetail f' f.table?)]
                ∧ m.isEmpty = true ∧ m.manualReview = [] ∧ m.shouldPersist = false) := by
  obtain ⟨s', hs', hhash⟩ := h.alone hs
  refine ⟨s', hs', hhash, modesAgree hs, modesAgree hs', fun path f f' hf hok hf' hok' => ?_⟩
  have hone : f.statements.map (·.hash) = [s.hash] := SourceFile.hash_read hs hf hok
  have hone' : f'.statements.map (·.hash) = [s.hash] := by
    rw [SourceFile.hash_read hs' hf' hok', hhash]
  refine ⟨hone, hone',
    fun hmode hinline htable front back hpaths hothers name hname createdAt old next => ?_⟩
  obtain ⟨r, hr⟩ := exists_ofFile hok
  have hfront := SourceFile.path_of_read hf
  have hfront' := SourceFile.path_of_read hf'
  have hall : ∀ {g : SourceFile}, g.error? = none → ∀ x ∈ front ++ g :: back, x.error? = none := by
    intro g hg x hx
    simp only [List.mem_append, List.mem_cons] at hx
    rcases hx with hx | rfl | hx
    · exact (hothers x (List.mem_append_left _ hx)).1
    · exact hg
    · exact (hothers x (List.mem_append_right _ hx)).1
  have hnodup : ∀ g ∈ front ++ back, ∀ table, g.table? = some table → table.columnNames.Nodup := by
    intro g hg table ht
    obtain ⟨-, text, hread⟩ := hothers g hg
    obtain ⟨st, -, hparse⟩ := (SourceFile.read_sound hread).2 table ht
    exact Table.parse_names_nodup hparse
  -- the record has the identity of the old statement, which is that of the new one
  have hchanges := changes_replaced (hall hok) hpaths hnodup (hfront'.trans hfront.symm) hr
    (modification?_switched hmode hr) old
  have hunchanged := (isUnchanged_one hone' (statementHashes_ofFile hr hone)).2 rfl
  obtain ⟨hempty, hreview, hpersist⟩ := isEmpty_of_switched hunchanged (hfront' ▸ hinline) htable
    hchanges (inline_of_checkMigrationName hname) createdAt next
  exact ⟨_, _, r, compareTree_ok (hall hok') _, rfl, hr, hchanges, hempty, hreview, hpersist⟩

/-- A file without a semicolon, whose statements were followed one by one, declares its table from
now on, by a line behind a comment that ended the file. -/
theorem switched_unchanged_comment :
    let body := "CREATE TABLE t (id int) -- it's;".toList
    let off := "-- sqlsync: splitStatements=true".toList
    let on := "-- sqlsync: declarativeTable=yes".toList
    let t := String.ofList (off ++ '\n' :: body)
    let t' := String.ofList (body ++ '\n' :: on)
    let now : Stamp := ⟨2024, 3, 1, 12, 31, 0, 0, by decide⟩
    Redirected t.toList t'.toList
      ∧ ∃ f f', SourceFile.read "t.sql" t = .ok f ∧ SourceFile.read "t.sql" t' = .ok f'
        ∧ f.isDeclarative = false ∧ f'.isDeclarative = true
        ∧ f'.statements.map (·.hash) = f.statements.map (·.hash)
        ∧ ∃ d m r, (compareTree [f'] (Snapshot.advance ⟨{}⟩ [f])).1 = .ok d
          ∧ m = synthesize "on" now d ⟨{}⟩
          ∧ d.changes = [.modified f' r .becameDeclarative]
          ∧ m.isEmpty = true ∧ m.manualReview = [] ∧ m.shouldPersist = false := by
  intro body off on t t' now
  have ht : t.toList = off ++ '\n' :: body := String.toList_ofList
  have ht' : t'.toList = body ++ '\n' :: on := String.toList_ofList
  obtain ⟨hlines, hoff, hon, hends⟩ : ('\n' ∉ off ∧ '\n' ∉ on)
      ∧ (directiveBody? off).isSome = true ∧ (directiveBody? on).isSome = true
      ∧ ¬EndsLine body ∧ ¬EndsLine (body ++ '\n' :: on) := by
    decide +kernel
  obtain ⟨hcode, hcode'⟩ : BeginsInCode (body ++ ['\n'])
      ∧ BeginsInCode ((body ++ '\n' :: on) ++ ['\n']) :=
    ⟨⟨by decide +kernel, by decide +kernel⟩, ⟨by decide +kernel, by decide +kernel⟩⟩
  -- one directive out, the line feed that the file lacks in, the other directive in, and the line
  -- feed out
  have hredirected : Redirected t.toList t'.toList := by
    rw [ht, ht']
    have hout : Drops (off ++ '\n' :: body) body :=
      .line (p := []) (Or.inl rfl) hlines.1 hoff ⟨by decide, by decide⟩
    have hin : Drops ((body ++ '\n' :: on) ++ ['\n']) (body ++ ['\n']) := by
      have h := @Drops.line (body ++ ['\n']) on [] (Or.inr (List.getLast?_concat ..)) hlines.2
        hon hcode
      rwa [List.append_nil, ← List.append_assoc, ← List.append_cons] at h
    exact .trans _ _ _ (.rel _ _ hout) (.trans _ _ _ (.symm _ _ (.rel _ _ (.feed hends.1 hcode)))
      (.trans _ _ _ (.symm _ _ (.rel _ _ hin)) (.rel _ _ (.feed hends.2 hcode'))))
  obtain ⟨hs, hs', hd, hd'⟩ : split (off ++ '\n' :: body) = .ok [⟨t, some 1⟩]
      ∧ split (body ++ '\n' :: on) = .ok [⟨t', some 1⟩]
      ∧ directives (off ++ '\n' :: body) = .ok { splitStatements := true }
      ∧ directives (body ++ '\n' :: on) = .ok { declarativeTable := true } := by
    decide +kernel
  obtain ⟨hcreate, hparse⟩ : (createTable? (Sql.normalize (body ++ '\n' :: on))).any atWordEnd = true
      ∧ (Table.parse (body ++ '\n' :: on)).toBool = true := by
    decide +kernel
  obtain ⟨table, htable⟩ := exists_of_toBool hparse
  rw [← ht] at hs hd
  rw [← ht'] at hs' hd' hcreate htable
  clear_value t t'
  obtain ⟨c, hc, -⟩ := (modesAgree hs).split
  obtain ⟨c', hc', -⟩ := (modesAgree hs').declarative hcreate table htable
  have hf := SourceFile.read_ok "t.sql" hd hc
  have hf' := SourceFile.read_ok "t.sql" hd' hc'
  have hnone : c.table = none := contentOf_no_table hc rfl
  obtain ⟨s', -, -, -, -, hfiles⟩ := switched_unchanged hredirected hs
  obtain ⟨hone, hone', hswitch⟩ := hfiles "t.sql" _ _ hf rfl hf' rfl
  obtain ⟨d, m, r, hdiff, hm, -, hchanges, hempty, hreview, hpersist⟩ :=
    hswitch (fun h => nomatch h) (by decide) (fun table h => nomatch (hnone.symm.trans h)) [] []
      (List.nodup_singleton _) (List.forall_mem_nil _) "on" (by decide +kernel) now ⟨{}⟩ ⟨{}⟩
  exact ⟨hredirected, _, _, hf, hf', rfl, rfl, hone'.trans hone.symm, d, m, r, hdiff, hm, hchanges,
    hempty, hreview, hpersist⟩

/-- **A literal of the statement is code for the directives.**  A manual statement opens a block
comment that the file as a whole closes in the middle of a literal behind it.  A line in that
literal sets a directive, and changes the statement: the file declares its table from now on, and
the migration asks for a review. -/
theorem switched_in_literal :
    let p := "-- sqlsync: startStatement\n/*\n-- sqlsync: endStatement\n".toList
    let b := "CREATE TABLE t (a text DEFAULT '*/\n".toList
    let l := "-- sqlsync: declarativeTable=true".toList
    let q := "');".toList
    let t := String.ofList (p ++ (b ++ q))
    let t' := String.ofList (p ++ (b ++ (l ++ '\n' :: q)))
    let now : Stamp := ⟨2024, 3, 1, 12, 31, 0, 0, by decide⟩
    EndsLine (p ++ b) ∧ '\n' ∉ l ∧ (directiveBody? l).isSome = true
      ∧ (({} : Lexer).after (p ++ b)).Idle
      ∧ checkMigrationName "b" = .ok () ∧ Inline "t.sql"
      ∧ ∃ s f f', split t.toList = .ok [s] ∧ SourceFile.read "t.sql" t = .ok f ∧ f.error? = none
        ∧ SourceFile.read "t.sql" t' = .ok f' ∧ f'.error? = none
        ∧ f.isDeclarative = false ∧ f'.isDeclarative = true
        ∧ f'.statements.map (·.hash) ≠ f.statements.map (·.hash)
        ∧ ∃ d m, (compareTree [f'] (Snapshot.advance ⟨{}⟩ [f])).1 = .ok d
          ∧ m = synthesize "b" now d ⟨{}⟩
          ∧ m.manualReview = ["t.sql"] ∧ m.shouldPersist = true := by
  intro p b l q t t' now
  have ht : t.toList = p ++ (b ++ q) := String.toList_ofList
  have ht' : t'.toList = p ++ (b ++ (l ++ '\n' :: q)) := String.toList_ofList
  obtain ⟨hs, hs', hd, hd'⟩ : split (p ++ (b ++ q)) = .ok [⟨String.ofList (b ++ q), some 4⟩]
      ∧ split (p ++ (b ++ (l ++ '\n' :: q)))
        = .ok [⟨String.ofList (b ++ (l ++ '\n' :: q)), some 4⟩]
      ∧ directives (p ++ (b ++ q)) = .ok {}
      ∧ directives (p ++ (b ++ (l ++ '\n' :: q))) = .ok { declarativeTable := true } := by
    decide +kernel
  obtain ⟨hcreate, hparse, hhash⟩ :
      (createTable? (Sql.normalize (b ++ (l ++ '\n' :: q)))).any atWordEnd = true
        ∧ (Table.parse (b ++ (l ++ '\n' :: q))).toBool = true
        ∧ hashOf (String.ofList (Sql.normalize (b ++ (l ++ '\n' :: q))))
          ≠ hashOf (String.ofList (Sql.normalize (b ++ q))) := by
    decide +kernel
  have hplace : EndsLine (p ++ b) ∧ '\n' ∉ l ∧ (directiveBody? l).isSome = true
      ∧ (({} : Lexer).after (p ++ b)).Idle := by
    refine and_assoc.1 (and_assoc.1 ⟨?_, ?_, ?_⟩) <;> decide +kernel
  obtain ⟨table, htable⟩ := exists_of_toBool hparse
  have hnew : (String.ofList (b ++ (l ++ '\n' :: q))).toList = b ++ (l ++ '\n' :: q) :=
    String.toList_ofList
  have hold : (String.ofList (b ++ q)).toList = b ++ q := String.toList_ofList
  rw [← ht] at hs hd
  rw [← ht'] at hs' hd'
  rw [← hnew] at hcreate htable hhash
  rw [← hold] at hhash
  generalize String.ofList (b ++ (l ++ '\n' :: q)) = new at hs' hcreate htable hhash
  generalize String.ofList (b ++ q) = old at hs hhash
  clear_value t t'
  -- both files are read, and the new one is reviewed since its statement is another one
  obtain ⟨c, hc, -⟩ := (modesAgree hs).plain
  obtain ⟨c', hc', -⟩ := (modesAgree hs').declarative hcreate table htable
  obtain ⟨f, hf, hok, hplain⟩ : ∃ f, SourceFile.read "t.sql" t = .ok f ∧ f.error? = none
      ∧ f.isDeclarative = false := ⟨_, SourceFile.read_ok "t.sql" hd hc, rfl, rfl⟩
  obtain ⟨f', hf', hok', hdeclared⟩ : ∃ f, SourceFile.read "t.sql" t' = .ok f ∧ f.error? = none
      ∧ f.isDeclarative = true := ⟨_, SourceFile.read_ok "t.sql" hd' hc', rfl, rfl⟩
  have hpath := SourceFile.path_of_read hf
  have hpath' := SourceFile.path_of_read hf'
  have hone := SourceFile.hash_read hs hf hok
  have hone' := SourceFile.hash_read hs' hf' hok'
  obtain ⟨r, hr⟩ := exists_ofFile hok
  have hmode : f'.isDeclarative ≠ f.isDeclarative := by
    rw [hplain, hdeclared]
    exact Bool.noConfusion
  have hdetail := modification?_switched hmode hr
  have hchanges := @changes_replaced f f' [] [] (List.forall_mem_singleton.2 hok)
    (List.nodup_singleton _) (List.forall_mem_nil _) (hpath'.trans hpath.symm) r hr _ hdetail ⟨{}⟩
  have hchanged := mt (isUnchanged_one hone' (statementHashes_ofFile hr hone)).1 hhash
  rw [List.nil_append, List.nil_append] at hchanges
  have hreview := review_alone hchanges "b" now ⟨{}⟩
  rw [(draft_switched f' r _).1, if_neg hchanged, hpath'] at hreview
  refine ⟨hplace.1, hplace.2.1, hplace.2.2.1, hplace.2.2.2, by decide +kernel, by decide, _, f, f',
    hs, hf, hok, hf', hok', hplain, hdeclared, ?_, _, _,
    compareTree_ok (List.forall_mem_singleton.2 hok') _, rfl, hreview, ?_⟩
  · rw [hone, hone']
    exact fun h => hhash (List.cons.inj h).1
  · unfold Migration.shouldPersist
    rw [hreview]
    exact Bool.or_true _

end SchemaDrift
