/-
  SchemaDrift.Proofs.Change.SameTable
  ───────────────────────────────────
  **WHOSE STRUCTURES ARE COMPARED.**

  The structure of a declared table is compared with the recorded one if both have the same
  qualified name.  That is schema and name with a dot between them, and a dot may stand in
  either as well:

      schema "a.b", table "c"    and    schema "a", table "b.c"

  So the structures are compared if schema and name are the same, and also if one table is
  the other `Shifted` (`qualifiedName_eq_iff`).  But for these, only structures of one table
  are compared (`comparesSame_iff`).
-/

import SchemaDrift.Proofs.Change.Accepted
import SchemaDrift.Proofs.Change.Partition
import SchemaDrift.Proofs.Source.Statements

namespace SchemaDrift

open SchemaDrift.Sql

/-! ## §1. Qualified names. -/

namespace Table

/-- The tables have one name in one schema. -/
def SameName (t t' : Table) : Prop := t.schema = t'.schema ∧ t.name = t'.name

/-- What the table `t` has in its name, up to one of the dots there, `t'` has in its schema. -/
def Shifted (t t' : Table) : Prop :=
  ∃ middle, t'.schema = t.schema ++ "." ++ middle ∧ t.name = middle ++ "." ++ t'.name

variable {t t' : Table}

instance : Decidable (t.SameName t') :=
  inferInstanceAs (Decidable (t.schema = t'.schema ∧ t.name = t'.name))

/-- The name of a shifted table is longer. -/
theorem Shifted.not_sameName (h : t.Shifted t') : ¬t.SameName t' := by
  obtain ⟨middle, -, hname⟩ := h
  rintro ⟨-, hsame⟩
  have hlength := congrArg String.length (hname.symm.trans hsame)
  rw [String.length_append, String.length_append] at hlength
  have hdot : ".".length = 1 := by decide
  omega

/-- Two texts with a dot behind each are the same if their fronts are, or if the one goes on with
the dot of the other. -/
theorem dotted_eq_cases {s s' n n' : List Char} (h : s ++ '.' :: n = s' ++ '.' :: n') :
    (s = s' ∧ n = n') ∨ (∃ middle, s' = s ++ '.' :: middle ∧ n = middle ++ '.' :: n')
      ∨ ∃ middle, s = s' ++ '.' :: middle ∧ n' = middle ++ '.' :: n := by
  rcases List.append_eq_append_iff.1 h with ⟨more, hs, hn⟩ | ⟨more, hs, hn⟩
  · cases more with
    | nil =>
      rw [List.append_nil] at hs
      exact Or.inl ⟨hs.symm, (List.cons.inj hn).2⟩
    | cons c middle =>
      obtain ⟨rfl, hbehind⟩ := List.cons.inj hn
      exact Or.inr (Or.inl ⟨middle, hs, hbehind⟩)
  · cases more with
    | nil =>
      rw [List.append_nil] at hs
      exact Or.inl ⟨hs, (List.cons.inj hn).2.symm⟩
    | cons c middle =>
      obtain ⟨rfl, hbehind⟩ := List.cons.inj hn
      exact Or.inr (Or.inr ⟨middle, hs, hbehind⟩)

theorem Shifted.qualifiedName (h : t.Shifted t') : t.qualifiedName = t'.qualifiedName := by
  obtain ⟨middle, hschema, hname⟩ := h
  unfold Table.qualifiedName
  rw [hschema, hname]
  simp only [String.append_assoc]

/-- **Two tables have one qualified name if they are one table, or one is the other shifted.** -/
theorem qualifiedName_eq_iff : t.qualifiedName = t'.qualifiedName
    ↔ t.SameName t' ∨ t.Shifted t' ∨ t'.Shifted t := by
  constructor
  · intro h
    have hlist := congrArg String.toList h
    unfold Table.qualifiedName at hlist
    simp only [String.toList_append, List.append_assoc] at hlist
    have hshifted : ∀ {s s' n n' : String} {middle : List Char},
        s'.toList = s.toList ++ '.' :: middle → n.toList = middle ++ '.' :: n'.toList →
        s' = s ++ "." ++ String.ofList middle ∧ n = String.ofList middle ++ "." ++ n' := by
      intro s s' n n' middle hs hn
      refine ⟨String.toList_inj.1 ?_, String.toList_inj.1 ?_⟩
      · simp [hs]
      · simp [hn]
    rcases dotted_eq_cases hlist with ⟨hs, hn⟩ | ⟨middle, hs, hn⟩ | ⟨middle, hs, hn⟩
    · exact Or.inl ⟨String.toList_inj.1 hs, String.toList_inj.1 hn⟩
    · exact Or.inr (Or.inl ⟨_, hshifted hs hn⟩)
    · exact Or.inr (Or.inr ⟨_, hshifted hs hn⟩)
  · rintro (⟨hschema, hname⟩ | h | h)
    · unfold Table.qualifiedName
      rw [hschema, hname]
    · exact h.qualifiedName
    · exact h.qualifiedName.symm

end Table

/-! ## §2. A file that declares a table. -/

variable {files : List SourceFile} {s : Snapshot} {f : SourceFile} {r : DeclarativeRecord}
  {old new : Table}

/-- A structure that is not known is not compared. -/
theorem modification?_unknown (hd : f.isDeclarative = true)
    (hunknown : r.table = none ∨ f.table? = none) : modification? f (.declarative r)
      = if f.rawHash = r.rawHash then none else some .tableStructureUnavailable := by
  unfold modification?
  rw [hd]
  by_cases hraw : f.rawHash = r.rawHash
  · rcases hunknown with h | h
    · simp [Record.rawHash, hraw, h]
    · cases hr : r.table <;> simp [Record.rawHash, hraw, h]
  · rcases hunknown with h | h
    · simp [Record.rawHash, hraw, h]
    · cases hr : r.table <;> simp [Record.rawHash, hraw, h]

/-- A file is among the changes with what it differs in from its record. -/
theorem modified_mem_changes (hpaths : (files.map (·.path)).Nodup) {record : Record}
    {detail : Modification} : .modified f record detail ∈ (treeDiff files s).changes
      ↔ f ∈ files ∧ s.get? f.path = some record ∧ modification? f record = some detail := by
  constructor
  · intro h
    rcases changes_cases hpaths h with ⟨g, -, hc⟩ | ⟨g, hg, r', d', hr', hd', hc⟩ | ⟨p, r', -, hc⟩
    · cases hc
    · cases hc
      exact ⟨hg, hr', hd'⟩
    · cases hc
  · rintro ⟨hf, hr, hdetail⟩
    exact mem_changes_modified hpaths hf hr hdetail

/-- A file is among the unmodified ones if it does not differ from its record. -/
theorem path_mem_unmodified (hpaths : (files.map (·.path)).Nodup) (hf : f ∈ files) {record : Record}
    (hr : s.get? f.path = some record) :
    f.path ∈ (treeDiff files s).unmodified ↔ modification? f record = none := by
  rw [mem_unmodified]
  constructor
  · rintro ⟨g, hg, hpath, r', hr', hnone⟩
    obtain rfl : g = f := List.inj_on_of_nodup_map hpaths hg hf hpath
    rw [hr] at hr'
    rw [Option.some.inj hr', hnone]
  · exact fun hnone => ⟨f, hf, rfl, record, hr, hnone⟩

/-- **What is said of a declared table when structures are compared of one table only.** -/
structure TreeDiff.ComparesSame (d : TreeDiff) (f : SourceFile) (r : DeclarativeRecord) : Prop where
  /-- A table that is altered is the recorded one. -/
  altered : ∀ old new operations,
    .modified f (.declarative r) (.tableAltered old new operations) ∈ d.changes →
      r.table = some old ∧ f.table? = some new ∧ operations = Alter.diff old new ∧ old.SameName new
  /-- A text that has changed is passed over only if it declares the recorded table as it was. -/
  unmodified : f.path ∈ d.unmodified → f.rawHash = r.rawHash
    ∨ ∃ old new, r.table = some old ∧ f.table? = some new ∧ Alter.diff old new = []
      ∧ old.SameName new
  /-- A text that has changed and declares another table is not compared with the record. -/
  unavailable : f.rawHash ≠ r.rawHash →
    (∀ old new, r.table = some old → f.table? = some new → ¬old.SameName new) →
    .modified f (.declarative r) .tableStructureUnavailable ∈ d.changes

/-- The file declares the recorded table shifted, and the two are compared with each other. -/
def Confused (f : SourceFile) (r : DeclarativeRecord) : Prop :=
  ∃ old new, r.table = some old ∧ f.table? = some new ∧ (old.Shifted new ∨ new.Shifted old)
    ∧ (f.rawHash ≠ r.rawHash ∨ Alter.diff old new ≠ [])

section

variable (hpaths : (files.map (·.path)).Nodup) (hf : f ∈ files) (hd : f.isDeclarative = true)
  (hr : s.get? f.path = some (.declarative r))

include hpaths hf hr in
/-- What is said of a file is what it differs in from its record. -/
theorem comparesSame_of_modification
    (haltered : ∀ old new operations,
      modification? f (.declarative r) = some (.tableAltered old new operations) →
        r.table = some old ∧ f.table? = some new ∧ operations = Alter.diff old new
          ∧ old.SameName new)
    (hunmodified : modification? f (.declarative r) = none → f.rawHash = r.rawHash
      ∨ ∃ old new, r.table = some old ∧ f.table? = some new ∧ Alter.diff old new = []
        ∧ old.SameName new)
    (hunavailable : f.rawHash ≠ r.rawHash →
      (∀ old new, r.table = some old → f.table? = some new → ¬old.SameName new) →
      modification? f (.declarative r) = some .tableStructureUnavailable) :
    (treeDiff files s).ComparesSame f r := by
  refine ⟨fun old new operations h => ?_, fun h => ?_, fun hraw hother => ?_⟩
  · exact haltered old new operations ((modified_mem_changes hpaths).1 h).2.2
  · exact hunmodified ((path_mem_unmodified hpaths hf hr).1 h)
  · exact (modified_mem_changes hpaths).2 ⟨hf, hr, hunavailable hraw hother⟩

include hpaths hf hd hr in
/-- A table of the recorded name is compared with the record, whatever comes of it. -/
theorem comparesSame_of_sameName (hold : r.table = some old) (hnew : f.table? = some new)
    (hsame : old.SameName new) : (treeDiff files s).ComparesSame f r := by
  have hdetail := modification?_declarative hd hold hnew
  rw [if_pos (Table.qualifiedName_eq_iff.2 (Or.inl hsame))] at hdetail
  refine comparesSame_of_modification hpaths hf hr ?_ ?_ ?_
  · intro old' new' operations h
    rw [hdetail] at h
    split at h
    · cases h
    · cases h
      exact ⟨hold, hnew, rfl, hsame⟩
  · intro h
    rw [hdetail] at h
    split at h
    · next hempty => exact Or.inr ⟨old, new, hold, hnew, List.isEmpty_iff.1 hempty, hsame⟩
    · cases h
  · exact fun _ hother => absurd hsame (hother old new hold hnew)

include hpaths hf hr in
/-- What is not compared is told by its text. -/
theorem comparesSame_of_text (hdetail : modification? f (.declarative r)
      = if f.rawHash = r.rawHash then none else some .tableStructureUnavailable) :
    (treeDiff files s).ComparesSame f r := by
  refine comparesSame_of_modification hpaths hf hr ?_ ?_ ?_
  · intro old new operations h
    rw [hdetail] at h
    split at h <;> cases h
  · intro h
    rw [hdetail] at h
    split at h
    · next hraw => exact Or.inl hraw
    · cases h
  · intro hraw _
    rw [hdetail, if_neg hraw]

include hpaths hf hd hr in
/-- A table that is the recorded one shifted is compared with it all the same. -/
theorem not_comparesSame_of_confused (hconfused : Confused f r) :
    ¬(treeDiff files s).ComparesSame f r := by
  obtain ⟨old, new, hold, hnew, hshifted, hchange⟩ := hconfused
  have hother : ¬old.SameName new := by
    rcases hshifted with h | h
    · exact h.not_sameName
    · exact fun hsame => h.not_sameName ⟨hsame.1.symm, hsame.2.symm⟩
  have hdetail := modification?_declarative hd hold hnew
  rw [if_pos (Table.qualifiedName_eq_iff.2 (Or.inr hshifted))] at hdetail
  intro h
  by_cases hempty : Alter.diff old new = []
  · rw [hempty, if_pos List.isEmpty_nil] at hdetail
    have hraw := hchange.resolve_right (not_not_intro hempty)
    rcases h.unmodified ((path_mem_unmodified hpaths hf hr).2 hdetail) with
      hsame | ⟨old', new', hold', hnew', -, hsame⟩
    · exact hraw hsame
    · rw [hold] at hold'
      rw [hnew] at hnew'
      cases hold'
      cases hnew'
      exact hother hsame
  · rw [if_neg (by rwa [List.isEmpty_iff])] at hdetail
    exact hother (h.altered _ _ _ ((modified_mem_changes hpaths).2 ⟨hf, hr, hdetail⟩)).2.2.2

end

/-- **Structures are compared of one table only, unless a table takes the place of another that is
the same one shifted.**  In a tree without errors every declared table with a declared record is
reported as altered, or passed over although its text has changed, only if it has the schema and the
name of the recorded one, and otherwise a text that has changed is reported without a comparison;
this holds exactly of those that are not confused. -/
theorem comparesSame_iff (hok : ∀ f ∈ files, f.error? = none)
    (hpaths : (files.map (·.path)).Nodup) (hf : f ∈ files) (hd : f.isDeclarative = true)
    (hr : s.get? f.path = some (.declarative r)) :
    ∃ d, (compareTree files s).1 = .ok d ∧ (d.ComparesSame f r ↔ ¬Confused f r) := by
  refine ⟨_, compareTree_ok hok s, ?_⟩
  refine ⟨fun h hconfused => not_comparesSame_of_confused hpaths hf hd hr hconfused h, ?_⟩
  intro hclear
  cases hold : r.table with
  | none => exact comparesSame_of_text hpaths hf hr (modification?_unknown hd (Or.inl hold))
  | some old =>
    cases hnew : f.table? with
    | none => exact comparesSame_of_text hpaths hf hr (modification?_unknown hd (Or.inr hnew))
    | some new =>
      by_cases hsame : old.SameName new
      · exact comparesSame_of_sameName hpaths hf hd hr hold hnew hsame
      · have hdetail := modification?_declarative hd hold hnew
        by_cases hname : old.qualifiedName = new.qualifiedName
        · -- nothing of it shows: the text is the recorded one, and so is the structure
          have hshifted := (Table.qualifiedName_eq_iff.1 hname).resolve_left hsame
          have hquiet : f.rawHash = r.rawHash ∧ Alter.diff old new = [] := by
            by_contra hchange
            refine hclear ⟨old, new, hold, hnew, hshifted, ?_⟩
            by_cases hraw : f.rawHash = r.rawHash
            · exact Or.inr fun hempty => hchange ⟨hraw, hempty⟩
            · exact Or.inl hraw
          refine comparesSame_of_text hpaths hf hr ?_
          rw [hdetail, if_pos hname, hquiet.2, if_pos List.isEmpty_nil, if_pos hquiet.1]
        · rw [if_neg hname] at hdetail
          exact comparesSame_of_text hpaths hf hr hdetail

/-- A file that declares a table by its one statement. -/
def declaring (text : String) (table : Table) : SourceFile :=
  ⟨"t.sql", Digest.hashOf text, { declarativeTable := true }, .ok ⟨[⟨text, some 1⟩], some table⟩⟩

/-- Such a file is remembered with the table. -/
theorem get?_declaring (text : String) (table : Table) :
    ∃ hash, (Snapshot.advance {} [declaring text table]).get? "t.sql"
      = some (.declarative ⟨Digest.hashOf text, hash, some table⟩) := ⟨_, rfl⟩

/-- The table `c` in the schema `a.b`, as it is declared. -/
theorem read_dotted :
    let text := "-- sqlsync: declarativeTable=true\nCREATE TABLE \"a.b\".c (id int);"
    SourceFile.read "t.sql" text
      = .ok (declaring text ⟨"a.b", "c", [{ name := "id", dataType := "INT" }]⟩) :=
  SourceFile.read_ok _ (by decide +kernel) (by decide +kernel)

/-- The table `c` in the schema `a.b` becomes `b.d` in the schema `a`: dots in names alone confuse
nothing. -/
theorem comparesSame_iff_dotted :
    let text := "-- sqlsync: declarativeTable=true\nCREATE TABLE \"a.b\".c (id int);"
    let text' := "-- sqlsync: declarativeTable=true\nCREATE TABLE a.\"b.d\" (id int, email text);"
    ∃ f f' r d, SourceFile.read "t.sql" text = .ok f ∧ SourceFile.read "t.sql" text' = .ok f'
      ∧ (∀ g ∈ [f'], g.error? = none) ∧ ([f'].map (·.path)).Nodup ∧ f'.isDeclarative = true
      ∧ (Snapshot.advance {} [f]).get? f'.path = some (.declarative r)
      ∧ (compareTree [f'] (Snapshot.advance {} [f])).1 = .ok d ∧ ¬Confused f' r
      ∧ d.ComparesSame f' r
      ∧ .modified f' (.declarative r) .tableStructureUnavailable ∈ d.changes := by
  intro text text'
  let old : Table := ⟨"a.b", "c", [{ name := "id", dataType := "INT" }]⟩
  let new : Table := ⟨"a", "b.d",
    [{ name := "id", dataType := "INT" }, { name := "email", dataType := "TEXT" }]⟩
  have hread : SourceFile.read "t.sql" text = .ok (declaring text old) := read_dotted
  have hread' : SourceFile.read "t.sql" text' = .ok (declaring text' new) :=
    SourceFile.read_ok _ (by decide +kernel) (by decide +kernel)
  have hraw : Digest.hashOf text' ≠ Digest.hashOf text := by decide +kernel
  obtain ⟨hash, hr⟩ := get?_declaring text old
  have hname : old.qualifiedName ≠ new.qualifiedName := by decide
  have hclear : ¬Confused (declaring text' new) ⟨Digest.hashOf text, hash, some old⟩ := by
    rintro ⟨old', new', hold, hnew, hshifted, -⟩
    cases hold
    cases hnew
    exact hname (Table.qualifiedName_eq_iff.2 (Or.inr hshifted))
  have hok : ∀ g ∈ [declaring text' new], g.error? = none := List.forall_mem_singleton.2 rfl
  have hpaths : ([declaring text' new].map (·.path)).Nodup := List.nodup_singleton _
  obtain ⟨d, hd, hiff⟩ := comparesSame_iff hok hpaths List.mem_cons_self rfl hr
  have hsame := hiff.2 hclear
  refine ⟨_, _, _, d, hread, hread', hok, hpaths, rfl, hr, hd, hclear, hsame,
    hsame.unavailable hraw ?_⟩
  intro old' new' hold hnew hother
  cases hold
  cases hnew
  exact hname (Table.qualifiedName_eq_iff.2 (Or.inl hother))

/-- **Two tables are taken for one.**  The table `c` in the schema `a.b` becomes `b.c` in the
schema `a`, which has a column more: the column is added to a table that does not exist. -/
theorem dotted_names_confused :
    let text := "-- sqlsync: declarativeTable=true\nCREATE TABLE \"a.b\".c (id int);"
    let text' := "-- sqlsync: declarativeTable=true\nCREATE TABLE a.\"b.c\" (id int, email text);"
    ∃ f f' r d old new operations, SourceFile.read "t.sql" text = .ok f
      ∧ SourceFile.read "t.sql" text' = .ok f' ∧ f'.error? = none ∧ f'.isDeclarative = true
      ∧ (Snapshot.advance {} [f]).get? f'.path = some (.declarative r)
      ∧ f'.rawHash ≠ r.rawHash ∧ ¬old.SameName new
      ∧ (compareTree [f'] (Snapshot.advance {} [f])).1 = .ok d
      ∧ .modified f' (.declarative r) (.tableAltered old new operations) ∈ d.changes
      ∧ operations.flatMap (·.sql) = ["ALTER TABLE a.\"b.c\" ADD COLUMN email TEXT;"]
      ∧ ¬d.ComparesSame f' r := by
  intro text text'
  let old : Table := ⟨"a.b", "c", [{ name := "id", dataType := "INT" }]⟩
  let new : Table := ⟨"a", "b.c",
    [{ name := "id", dataType := "INT" }, { name := "email", dataType := "TEXT" }]⟩
  have hread : SourceFile.read "t.sql" text = .ok (declaring text old) := read_dotted
  have hread' : SourceFile.read "t.sql" text' = .ok (declaring text' new) :=
    SourceFile.read_ok _ (by decide +kernel) (by decide +kernel)
  have hraw : Digest.hashOf text' ≠ Digest.hashOf text := by decide +kernel
  obtain ⟨hash, hr⟩ := get?_declaring text old
  have hother : ¬old.SameName new := by decide
  -- the tables are compared by the name that both are written with
  have hname : old.qualifiedName = new.qualifiedName := by decide
  have hsql : (Alter.diff old new).flatMap (·.sql)
      = ["ALTER TABLE a.\"b.c\" ADD COLUMN email TEXT;"] := by
    have hnone : Alter.renames old new = [] := by
      unfold Alter.renames Rename.matching
      rw [List.mergeSort_of_pairwise (by decide +kernel)]
      decide +kernel
    unfold Alter.diff Alter.steps Alter.keyChanges Alter.renamedKey
    rw [hnone]
    decide +kernel
  have hne : ¬(Alter.diff old new).isEmpty = true := by
    intro hempty
    rw [List.isEmpty_iff.1 hempty] at hsql
    cases hsql
  have hpaths : ([declaring text' new].map (·.path)).Nodup := List.nodup_singleton _
  let record : DeclarativeRecord := ⟨Digest.hashOf text, hash, some old⟩
  have hold : record.table = some old := rfl
  have hnew : (declaring text' new).table? = some new := rfl
  have hdetail := modification?_declarative rfl hold hnew
  rw [if_pos hname, if_neg hne] at hdetail
  refine ⟨_, _, _, _, old, new, _, hread, hread', rfl, rfl, hr, hraw, hother,
    compareTree_ok (List.forall_mem_singleton.2 rfl) _,
    (modified_mem_changes hpaths).2 ⟨List.mem_cons_self, hr, hdetail⟩, hsql, ?_⟩
  have hshifted := (Table.qualifiedName_eq_iff.1 hname).resolve_left hother
  exact not_comparesSame_of_confused hpaths List.mem_cons_self rfl hr
    ⟨old, new, rfl, rfl, hshifted, Or.inl hraw⟩

end SchemaDrift
