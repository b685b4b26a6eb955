/-
  SchemaDrift.Proofs.Migration.Run
  ────────────────────────────────
  **WHAT IS RECORDED WAS EMITTED.**

  A run goes through releases: each compares its files with the snapshot, makes a migration
  of the difference and takes the snapshot forward.  What the snapshot records is not
  emitted again, so it has to be in a migration already, and that migration has to be kept.

      step     a statement of a file is emitted, or was recorded before (`emitted_or_recorded`)
      run      every recorded statement is in a migration that is to be persisted
               (`recorded_emitted`)

  A migration with a statement is to be persisted as long as paths and names are of one line
  (`shouldPersist_of_statement`); a path of two lines can put a comment around all of them
  (`recorded_not_persisted`).
-/

import SchemaDrift.Proofs.Change.Accepted
import SchemaDrift.Proofs.Migration.Drop
import SchemaDrift.Proofs.Migration.Persisted
import SchemaDrift.Proofs.Migration.Readable

namespace SchemaDrift

open SchemaDrift.Sql SchemaDrift.Text SchemaDrift.Digest

/-! ## §1. Runs. -/

/-- The files of a project when a migration is made of them. -/
structure Release where
  name : String
  createdAt : Stamp
  files : List SourceFile

/-- The migrations of releases that follow each other, and the snapshot behind them. -/
def Snapshot.releases (s : Snapshot) : List Release → Except Fault (List Migration × Snapshot)
  | [] => .ok ([], s)
  | r :: rest => do
    let d ← (compareTree r.files s).1
    let next := s.advance r.files
    let (ms, last) ← next.releases rest
    return (synthesize r.name r.createdAt d next :: ms, last)

/-- The files were read from some of the texts without error and declare no tables; each has
a path of its own, which is of one line like the name. -/
structure Release.Plain (texts : List String) (r : Release) : Prop where
  name : Inline r.name
  inline : ∀ f ∈ r.files, Inline f.path
  paths : (r.files.map (·.path)).Nodup
  read : ∀ f ∈ r.files, ∃ text ∈ texts, SourceFile.read f.path text = .ok f
  ok : ∀ f ∈ r.files, f.error? = none
  plain : ∀ f ∈ r.files, f.isDeclarative = false

/-- Every record is of a file that declares no table and was read from one of the texts. -/
def Snapshot.Traced (texts : List String) (s : Snapshot) : Prop :=
  ∀ path r, s.get? path = some r → Inline path
    ∧ ∃ text ∈ texts, ∃ f, SourceFile.read path text = .ok f ∧ f.isDeclarative = false
      ∧ Record.ofFile? f = some r

/-- A migration that is to be persisted has the statement, as one of the path. -/
def Emitted (ms : List Migration) (path hash : String) : Prop :=
  ∃ m ∈ ms, ⟨hash, path⟩ ∈ m.record.statements ∧ m.shouldPersist = true

/-- Every statement that is recorded is in a migration that is to be persisted. -/
def Snapshot.Backed (ms : List Migration) (s : Snapshot) : Prop :=
  ∀ path r, s.get? path = some r → ∀ hash ∈ r.statementHashes, Emitted ms path hash

/-! ## §2. Files without tables. -/

/-- What a file without a table emits are the statements that the record has not. -/
theorem emittedByModified_plain {f : SourceFile} (hplain : f.isDeclarative = false) (raw : String)
    (hashes : List String) : emittedByModified f (.plain raw hashes)
      = if f.rawHash = raw then []
        else (f.statements.filter (!hashes.contains ·.hash)).map (fileStatement f.path) := by
  unfold emittedByModified
  rw [modification?_plain hplain]
  by_cases h : f.rawHash = raw
  · rw [if_pos h, if_pos h]
  · rw [if_neg h, if_neg h]
    rfl

variable {texts : List String} {s : Snapshot} {r : Release}

/-- A record that is traced is one of statements. -/
theorem Snapshot.Traced.plain (hs : s.Traced texts) {path : String} {previous : Record}
    (h : s.get? path = some previous) : ∃ text ∈ texts, ∃ f, SourceFile.read path text = .ok f
      ∧ previous = .plain (hashOf text) (f.statements.map (·.hash)) := by
  obtain ⟨-, text, htext, f, hread, hplain, hrecord⟩ := hs path previous h
  refine ⟨text, htext, f, hread, ?_⟩
  rw [ofFile_plain hrecord hplain, SourceFile.read_rawHash hread]

/-- What it repeats is of one line. -/
theorem Snapshot.Traced.quotable (hs : s.Traced texts) {path : String} {previous : Record}
    (h : s.get? path = some previous) : previous.Quotable := by
  obtain ⟨text, -, f, -, rfl⟩ := hs.plain h
  refine ⟨?_, ?_⟩
  · intro hash hhash
    obtain ⟨st, -, rfl⟩ := List.mem_map.1 hhash
    exact inline_hashOf _
  · intro t ht
    cases ht

/-- The snapshot behind a release is of its files. -/
theorem traced_advance (hr : r.Plain texts) (s : Snapshot) : (s.advance r.files).Traced texts := by
  intro path record h
  obtain ⟨f, hf, rfl⟩ := mem_advance hr.ok hr.paths s (PathMap.get?_eq_some.1 h)
  rw [get?_advance hr.ok hr.paths s hf] at h
  obtain ⟨text, htext, hread⟩ := hr.read f hf
  exact ⟨hr.inline f hf, text, htext, f, hread, hr.plain f hf, h⟩

/-! ## §3. What the migration of a release says. -/

/-- What changes of such files repeat is of one line, and no statement is only noted. -/
theorem repeated_plain (hs : s.Traced texts) (hr : r.Plain texts) :
    ∀ c ∈ (treeDiff r.files s).changes, (∀ x ∈ c.repeated, Inline x) ∧ c.dumped = [] := by
  intro c hc
  rcases changes_cases hr.paths hc with ⟨f, hf, rfl⟩ | ⟨f, hf, previous, detail, h, hdetail, rfl⟩
    | ⟨path, previous, hgone, rfl⟩
  · exact ⟨List.forall_mem_singleton.2 (hr.inline f hf), rfl⟩
  · have hquotable := hs.quotable h
    obtain ⟨text, -, f', -, rfl⟩ := hs.plain h
    rw [modification?_plain (hr.plain f hf)] at hdetail
    split at hdetail
    · cases hdetail
    · cases hdetail
      exact ⟨List.forall_mem_cons.2 ⟨hr.inline f hf, inline_lost hquotable.hashes⟩, rfl⟩
  · have h := (mem_goneRecords.1 hgone).1
    exact ⟨inline_deleted (hs path previous h).1 (hs.quotable h), rfl⟩

/-- What such files emit are statements of theirs. -/
theorem emitted_plain (hs : s.Traced texts) (hr : r.Plain texts) :
    ∀ l ∈ emitted r.files s, ∃ f ∈ r.files, ∃ st ∈ f.statements, l = fileStatement f.path st := by
  intro l hl
  unfold emitted at hl
  rcases List.mem_append.1 hl with hl | hl
  · rcases List.mem_append.1 hl with hl | hl
    · obtain ⟨f, hf, hl⟩ := List.mem_flatMap.1 hl
      obtain ⟨st, hst, rfl⟩ := List.mem_map.1 hl
      exact ⟨f, mem_byPath.1 (List.mem_filter.1 hf).1, st, hst, rfl⟩
    · obtain ⟨f, hf, hl⟩ := List.mem_flatMap.1 hl
      have hf := mem_byPath.1 hf
      cases h : s.get? f.path with
      | none =>
        rw [h] at hl
        cases hl
      | some previous =>
        rw [h] at hl
        obtain ⟨text, -, f', -, rfl⟩ := hs.plain h
        rw [Option.map_some, Option.getD_some, emittedByModified_plain (hr.plain f hf)] at hl
        split at hl
        · cases hl
        · obtain ⟨st, hst, rfl⟩ := List.mem_map.1 hl
          exact ⟨f, hf, st, (List.mem_filter.1 hst).1, rfl⟩
  · obtain ⟨⟨path, previous⟩, he, hl⟩ := List.mem_flatMap.1 hl
    obtain ⟨text, -, f', -, rfl⟩ := hs.plain (mem_goneRecords.1 he).1
    cases hl

/-- **A migration with a statement is to be persisted.** -/
theorem shouldPersist_of_statement (hs : s.Traced texts) (hr : r.Plain texts) (next : Snapshot)
    {o : StatementOrigin}
    (ho : o ∈ (synthesize r.name r.createdAt (treeDiff r.files s) next).record.statements) :
    (synthesize r.name r.createdAt (treeDiff r.files s) next).shouldPersist = true := by
  generalize hm : synthesize r.name r.createdAt (treeDiff r.files s) next = m at ho
  have htold : ∀ l ∈ m.lines, l.origin? = none → Silent l.render.toList := by
    rw [← hm]
    intro l hl horigin
    have hrepeated := repeated_plain hs hr
    rcases told_synthesize hr.name r.createdAt (fun c hc => (hrepeated c hc).1) next l hl horigin with
      hsilent | ⟨t, ht, -⟩
    · exact hsilent
    · obtain ⟨c, hc, ht⟩ := List.mem_flatMap.1 ht
      rw [(hrepeated c hc).2] at ht
      cases ht
  -- the lines up to the first statement
  obtain ⟨l₀, hl₀, horigin⟩ := List.mem_filterMap.1 ho
  have hfind : (m.lines.find? fun l => l.origin?.isSome).isSome = true :=
    List.find?_isSome.2 ⟨l₀, hl₀, by rw [horigin]; rfl⟩
  obtain ⟨l, hl⟩ := Option.isSome_iff_exists.1 hfind
  obtain ⟨hstatement, front, behind, hlines, hfront⟩ := List.find?_eq_some_iff_append.1 hl
  have hmarked : l ∈ emitted r.files s := by
    rw [← marked_synthesize hr.paths r.name r.createdAt next, hm, hlines]
    exact List.mem_filter.2 ⟨List.mem_append_right _ List.mem_cons_self, hstatement⟩
  obtain ⟨f, hf, st, hst, rfl⟩ := emitted_plain hs hr l hmarked
  obtain ⟨text, -, hread⟩ := hr.read f hf
  have hopens : Opens (String.ofList (terminate st.raw.toList)).toList := by
    rw [String.toList_ofList]
    exact (opens_read hread st hst).terminate
  have hempty : m.isEmpty = false :=
    isEmpty_of_opened hlines
      (fun l' hl' => htold l' (hlines ▸ List.mem_append_left _ hl') (by simpa using hfront l' hl'))
      (inline_hashOf _) hopens
  unfold Migration.shouldPersist
  rw [hempty]
  rfl

/-! ## §4. One release. -/

/-- **A statement of a file is emitted, or was recorded before.** -/
theorem emitted_or_recorded (hdigest : ∀ t ∈ texts, ∀ u ∈ texts, hashOf t = hashOf u → t = u)
    (hs : s.Traced texts) (hr : r.Plain texts) {f : SourceFile} (hf : f ∈ r.files) {st : Statement}
    (hst : st ∈ f.statements) : fileStatement f.path st ∈ emitted r.files s
      ∨ ∃ previous, s.get? f.path = some previous ∧ st.hash ∈ previous.statementHashes := by
  unfold emitted
  rw [List.mem_append, List.mem_append]
  cases h : s.get? f.path with
  | none =>
    left; left; left
    refine List.mem_flatMap.2 ⟨f, List.mem_filter.2 ⟨mem_byPath.2 hf, by rw [h]; rfl⟩, ?_⟩
    exact List.mem_map_of_mem hst
  | some previous =>
    by_cases hold : st.hash ∈ previous.statementHashes
    · exact Or.inr ⟨previous, rfl, hold⟩
    · left; left; right
      obtain ⟨text, htext, f', hread', rfl⟩ := hs.plain h
      obtain ⟨text', htext', hread⟩ := hr.read f hf
      have hchanged : f.rawHash ≠ hashOf text := by
        rw [SourceFile.read_rawHash hread]
        intro hsame
        rw [hdigest text' htext' text htext hsame, hread'] at hread
        rw [Except.ok.inj hread] at hold
        exact hold (List.mem_map_of_mem hst)
      refine List.mem_flatMap.2 ⟨f, mem_byPath.2 hf, ?_⟩
      rw [h, Option.map_some, Option.getD_some, emittedByModified_plain (hr.plain f hf),
        if_neg hchanged]
      refine List.mem_map_of_mem (List.mem_filter.2 ⟨hst, ?_⟩)
      simpa [Record.statementHashes] using hold

theorem Emitted.append {ms : List Migration} {path hash : String} (h : Emitted ms path hash)
    (ms' : List Migration) : Emitted (ms ++ ms') path hash := by
  obtain ⟨m, hm, h⟩ := h
  exact ⟨m, List.mem_append_left _ hm, h⟩

/-- **A release keeps everything backed**: what it records new is in its migration. -/
theorem backed_advance (hdigest : ∀ t ∈ texts, ∀ u ∈ texts, hashOf t = hashOf u → t = u)
    (hs : s.Traced texts) (hr : r.Plain texts) {ms : List Migration} (hbacked : s.Backed ms)
    (next : Snapshot) : (s.advance r.files).Backed
      (ms ++ [synthesize r.name r.createdAt (treeDiff r.files s) next]) := by
  intro path record h hash hhash
  obtain ⟨f, hf, rfl⟩ := mem_advance hr.ok hr.paths s (PathMap.get?_eq_some.1 h)
  rw [get?_advance hr.ok hr.paths s hf] at h
  rw [ofFile_plain h (hr.plain f hf)] at hhash
  obtain ⟨st, hst, rfl⟩ := List.mem_map.1 hhash
  rcases emitted_or_recorded hdigest hs hr hf hst with hnew | ⟨previous, hprevious, hold⟩
  · have horigin : ⟨st.hash, f.path⟩ ∈ (synthesize r.name r.createdAt (treeDiff r.files s)
        next).record.statements := by
      rw [record_statements_eq hr.paths]
      exact List.mem_filterMap.2 ⟨_, hnew, rfl⟩
    exact ⟨_, List.mem_append_right _ (List.mem_singleton_self _), horigin,
      shouldPersist_of_statement hs hr next horigin⟩
  · exact (hbacked f.path previous hprevious st.hash hold).append _

/-! ## §5. Runs of releases. -/

/-- What a run adds keeps everything backed. -/
theorem backed_releases (hdigest : ∀ t ∈ texts, ∀ u ∈ texts, hashOf t = hashOf u → t = u)
    {rs : List Release} (hrs : ∀ r ∈ rs, r.Plain texts) {s : Snapshot} (hs : s.Traced texts)
    {ms : List Migration} (hbacked : s.Backed ms) :
    ∃ ms' last, s.releases rs = .ok (ms', last) ∧ last.Backed (ms ++ ms') := by
  induction rs generalizing s ms with
  | nil => exact ⟨[], s, rfl, by rw [List.append_nil]; exact hbacked⟩
  | cons r rs ih =>
    obtain ⟨hr, hrs⟩ := List.forall_mem_cons.1 hrs
    obtain ⟨ms', last, hrun, hlast⟩ := ih hrs (traced_advance hr s)
      (backed_advance hdigest hs hr hbacked (s.advance r.files))
    refine ⟨synthesize r.name r.createdAt (treeDiff r.files s) (s.advance r.files) :: ms', last, ?_,
      ?_⟩
    · unfold Snapshot.releases
      rw [compareTree_ok hr.ok s]
      show (do
        let (ms, last) ← (s.advance r.files).releases rs
        return (_ :: ms, last)) = _
      rw [hrun]
      rfl
    · rw [List.append_assoc] at hlast
      exact hlast

/-- **Every statement that is recorded was emitted**: whatever releases a run has gone
through, each statement recorded for a path is in one of its migrations, as one of that path,
and that migration is to be persisted. -/
theorem recorded_emitted (hdigest : ∀ t ∈ texts, ∀ u ∈ texts, hashOf t = hashOf u → t = u)
    {rs : List Release} (hrs : ∀ r ∈ rs, r.Plain texts) :
    ∃ ms last, Snapshot.releases {} rs = .ok (ms, last)
      ∧ ∀ path record, last.get? path = some record → ∀ hash ∈ record.statementHashes,
        ∃ m ∈ ms, ⟨hash, path⟩ ∈ m.record.statements ∧ m.shouldPersist = true := by
  have htraced : Snapshot.Traced texts {} := by
    intro path record h
    cases h
  have hbacked : Snapshot.Backed [] {} := by
    intro path record h
    cases h
  exact backed_releases hdigest hrs htraced hbacked

/-- A file is released, and released again with its statements followed one by one. -/
theorem recorded_emitted_split :
    let text := "SELECT 1;"
    let text' := "-- sqlsync: splitStatements=true\nSELECT 2;\nSELECT 1;"
    let f : SourceFile := ⟨"a.sql", hashOf text, ⟨false, false⟩, .ok ⟨[⟨text, some 1⟩], none⟩⟩
    let f' : SourceFile := ⟨"a.sql", hashOf text', ⟨false, true⟩,
      .ok ⟨[⟨"-- sqlsync: splitStatements=true\nSELECT 2;", some 1⟩, ⟨"SELECT 1;", some 3⟩], none⟩⟩
    let now : Stamp := ⟨2024, 2, 29, 23, 59, 59, 0, by decide⟩
    ∃ ms last, Snapshot.releases {} [⟨"one", now, [f]⟩, ⟨"two", now, [f']⟩] = .ok (ms, last)
      ∧ ∀ path record, last.get? path = some record → ∀ hash ∈ record.statementHashes,
        ∃ m ∈ ms, ⟨hash, path⟩ ∈ m.record.statements ∧ m.shouldPersist = true := by
  intro text text' f f' now
  have hread : SourceFile.read "a.sql" text = .ok f :=
    SourceFile.read_ok _ (by decide +kernel) (by decide +kernel)
  have hread' : SourceFile.read "a.sql" text' = .ok f' :=
    SourceFile.read_ok _ (by decide +kernel) (by decide +kernel)
  have hdigest : ∀ t ∈ [text, text'], ∀ u ∈ [text, text'], hashOf t = hashOf u → t = u := by
    decide +kernel
  refine recorded_emitted hdigest ?_
  refine List.forall_mem_cons.2 ⟨⟨by decide, by decide, by decide, ?_, by decide, by decide⟩,
    List.forall_mem_singleton.2 ⟨by decide, by decide, by decide, ?_, by decide, by decide⟩⟩
  · exact List.forall_mem_singleton.2 ⟨text, List.mem_cons_self, hread⟩
  · exact List.forall_mem_singleton.2 ⟨text', List.mem_cons_of_mem _ List.mem_cons_self, hread'⟩

/-- The second line of a path begins a comment, in which the statement of the file and its
markers stand: the statement is recorded, but the migration is not to be persisted. -/
theorem recorded_not_persisted :
    let path := "a\n/*.sql"
    let f : SourceFile := ⟨path, hashOf "SELECT 1;", ⟨false, false⟩,
      .ok ⟨[⟨"SELECT 1;", some 1⟩], none⟩⟩
    let now : Stamp := ⟨2024, 3, 1, 12, 30, 0, 0, by decide⟩
    SourceFile.read path "SELECT 1;" = .ok f ∧ f.error? = none ∧ f.isDeclarative = false
      ∧ ∃ m last, Snapshot.releases {} [⟨"a", now, [f]⟩] = .ok ([m], last)
        ∧ (last.get? path).map Record.statementHashes = some [hashOf "SELECT 1"]
        ∧ m.shouldPersist = false := by
  intro path f now
  have hread : SourceFile.read path "SELECT 1;" = .ok f :=
    SourceFile.read_ok _ (by decide +kernel) (by decide +kernel)
  have hok : ∀ g ∈ [f], g.error? = none := List.forall_mem_singleton.2 rfl
  have hrun : Snapshot.releases {} [⟨"a", now, [f]⟩]
      = .ok ([synthesize "a" now (treeDiff [f] {}) (Snapshot.advance {} [f])],
        Snapshot.advance {} [f]) := by
    unfold Snapshot.releases
    rw [compareTree_ok hok]
    rfl
  exact ⟨hread, rfl, rfl, _, _, hrun, by decide +kernel, by decide +kernel⟩

end SchemaDrift
