/-
  SchemaDrift.Proofs.Snapshot.RoundTrip
  ─────────────────────────────────────
  **THE STATE IS READ BACK FROM ITS TEXT.**

  Every part of the state is written as an object whose names occur once, so that each field
  is found again whatever its value.  Two things are more than copying:

      columns    reading one settles the key rule, so a column has to obey it already
      records    one is held as a whole before it is read, so all of it has to be sound

  Main statement: `ofText_toText`, for every state all of whose tables obey the key rule.
-/

import SchemaDrift.Proofs.Json.RoundTrip
import SchemaDrift.Proofs.Snapshot.Entries
import SchemaDrift.Proofs.Time.RoundTrip
import SchemaDrift.Snapshot.History

namespace SchemaDrift

open SchemaDrift.Json

/-! ## §1. Lists and maps. -/

namespace Json

/-- **The fields of an object whose names occur once are its values.** -/
theorem fields?_object {ms : List (String × Json)} {names : List String}
    {fields : List (Option Json)} (hnames : ms.map (·.1) = names) (h : names.Nodup)
    (hfields : ms.map (fun m => some m.2) = fields) (optional : Nat) :
    (Json.object ms).fields? names optional = some fields := by
  subst hnames hfields
  -- each name is that of one member only
  have hof : ∀ m ∈ ms, ms.filter (·.1 = m.1) = [m] := by
    intro m hm
    obtain ⟨front, rest, rfl⟩ := List.append_of_mem hm
    rw [List.map_append, List.map_cons, List.nodup_append, List.nodup_cons] at h
    obtain ⟨-, ⟨hrest, -⟩, hfront⟩ := h
    have hnone : ∀ l : List (String × Json), (∀ n ∈ l, n.1 ≠ m.1) → l.filter (·.1 = m.1) = [] := by
      intro l hl
      refine List.filter_eq_nil_iff.2 ?_
      intro n hn
      simpa using hl n hn
    rw [List.filter_append, List.filter_cons, if_pos (by simp), hnone front, hnone rest]
    · rfl
    · intro n hn heq
      exact hrest (heq ▸ List.mem_map_of_mem hn)
    · intro n hn heq
      exact hfront n.1 (List.mem_map_of_mem hn) m.1 List.mem_cons_self heq
  unfold fields?
  dsimp only
  rw [if_pos, List.map_map]
  · refine congrArg some (List.map_congr_left ?_)
    intro m hm
    dsimp only [Function.comp]
    rw [hof m hm]
    rfl
  · rw [List.all_eq_true]
    intro name hname
    obtain ⟨m, hm, rfl⟩ := List.mem_map.1 hname
    simp only [hof m hm, List.map_cons, List.map_nil, List.length_singleton, Nat.le_refl,
      decide_true]

theorem required?_string (s : String) : required? asString? (some (.string s)) = some s := rfl

theorem required?_bool (b : Bool) : required? asBool? (some (.bool b)) = some b := rfl

theorem optional?_ofOption (o : Option String) :
    optional? asString? (some (ofOption o)) = some o := by
  cases o with
  | none => rfl
  | some s => rfl

/-- A value that may be missing. -/
def ofMaybe {α : Type} (write : α → Json) : Option α → Json
  | some a => write a
  | none => .null

/-- A value that may be missing is read back, if it is written as an object. -/
theorem optional?_ofMaybe {α : Type} {read : Json → Option α} {write : α → Json} {o : Option α}
    (hobject : ∀ a, ∃ ms, write a = .object ms) (h : ∀ a, o = some a → read (write a) = some a) :
    optional? read (some (ofMaybe write o)) = some o := by
  cases o with
  | none => rfl
  | some a =>
    have hread := h a rfl
    obtain ⟨ms, hms⟩ := hobject a
    rw [hms] at hread
    show optional? read (some (write a)) = _
    rw [hms]
    show (read (.object ms)).map some = _
    rw [hread]
    rfl

/-- A list of values that are read back is read back. -/
theorem asList?_array {α : Type} {read : Json → Option α} {write : α → Json} {l : List α}
    (h : ∀ a ∈ l, read (write a) = some a) : asList? read (.array (l.map write)) = some l := by
  show (l.map write).mapM read = some l
  induction l with
  | nil => rfl
  | cons a l ih =>
    rw [List.map_cons, List.mapM_cons, h a List.mem_cons_self,
      ih fun b hb => h b (List.mem_cons_of_mem _ hb)]
    rfl

/-- Members whose values are read back are read back. -/
theorem asMap?_object {α : Type} {read : Json → Option α} (write : α → Json)
    {l : List (String × α)} (h : ∀ e ∈ l, read (write e.2) = some e.2) :
    asMap? read (.object (l.map fun e => (e.1, write e.2))) = some l := by
  show (l.map fun e => (e.1, write e.2)).mapM (fun m => (read m.2).map fun a => (m.1, a)) = some l
  induction l with
  | nil => rfl
  | cons e l ih =>
    rw [List.map_cons, List.mapM_cons, h e List.mem_cons_self,
      ih fun d hd => h d (List.mem_cons_of_mem _ hd)]
    rfl

theorem areSound_map {α : Type} {write : α → Json} {room : Nat} {l : List α}
    (h : ∀ a ∈ l, (write a).isSound room = true) : areSound room (l.map write) = true := by
  induction l with
  | nil => rw [List.map_nil, areSound]
  | cons a l ih =>
    rw [List.map_cons, areSound, h a List.mem_cons_self,
      ih fun b hb => h b (List.mem_cons_of_mem _ hb)]
    rfl

theorem plain_ofOption (o : Option String) : Plain (ofOption o) := by
  cases o with
  | none => exact .null
  | some s => exact .string s

theorem plain_ofMaybe {α : Type} {write : α → Json} (h : ∀ a, Plain (write a)) (o : Option α) :
    Plain (ofMaybe write o) := by
  cases o with
  | none => exact .null
  | some a => exact h a

theorem isSound_ofMaybe {α : Type} {write : α → Json} {room : Nat}
    (h : ∀ a, (write a).isSound room = true) (o : Option α) :
    (ofMaybe write o).isSound room = true := by
  cases o with
  | none => rw [ofMaybe, isSound] <;> simp
  | some a => exact h a

theorem isSound_ofOption (room : Nat) (o : Option String) : (ofOption o).isSound room = true := by
  cases o with
  | none => rw [ofOption, isSound] <;> simp
  | some s => rw [ofOption, isSound] <;> simp

/-- A row of plain values is plain. -/
theorem plain_array_map {α : Type} {write : α → Json} {l : List α} (h : ∀ a ∈ l, Plain (write a)) :
    Plain (.array (l.map write)) := by
  refine .array ?_
  intro v hv
  obtain ⟨a, ha, rfl⟩ := List.mem_map.1 hv
  exact h a ha

theorem plain_object_map {α : Type} (write : α → Json) {l : List (String × α)}
    (h : ∀ e ∈ l, Plain (write e.2)) : Plain (.object (l.map fun e => (e.1, write e.2))) := by
  refine .object ?_
  intro m hm
  obtain ⟨e, he, rfl⟩ := List.mem_map.1 hm
  exact h e he

end Json

/-! ## §2. Tables. -/

/-- All columns of the table obey the key rule. -/
def Table.ObeysKeyRule (t : Table) : Prop := ∀ c ∈ t.columns, c.ObeysKeyRule

instance (t : Table) : Decidable t.ObeysKeyRule := by unfold Table.ObeysKeyRule; infer_instance

theorem ForeignKey.ofJson?_toJson (k : ForeignKey) : ofJson? k.toJson = some k := by
  obtain ⟨schema, table, column, onDelete, onUpdate⟩ := k
  have hfields : (toJson ⟨schema, table, column, onDelete, onUpdate⟩).fields?
      ["schema", "table", "column", "on_delete", "on_update"] 0
      = some [schema.map .string, some (.string table), some (ofOption column),
        some (ofOption onDelete), some (ofOption onUpdate)] := by
    cases schema with
    | none => simp [toJson, fields?]
    | some s => exact fields?_object (by rfl) (by simp) (by rfl) 0
  have hschema : optional? asString? (schema.map .string) = some schema := by
    cases schema with
    | none => rfl
    | some s => rfl
  unfold ofJson?
  simp only [hfields, hschema, required?_string, optional?_ofOption, Option.bind_eq_bind,
    Option.bind_some, Option.pure_def]

theorem Column.ofJson?_toJson {c : Column} (h : c.ObeysKeyRule) : ofJson? c.toJson = some c := by
  have hfields : c.toJson.fields? ["name", "data_type", "nullable", "default", "primary_key",
      "unique", "foreign_key", "check"] 0
      = some [some (.string c.name), some (.string c.dataType), some (.bool c.nullable),
        some (ofOption c.defaultExpr), some (.bool c.inPrimaryKey), some (.bool c.isUnique),
        some (ofMaybe ForeignKey.toJson c.foreignKey), some (ofOption c.checkExpr)] := by
    obtain ⟨name, dataType, nullable, defaultExpr, inPrimaryKey, isUnique, foreignKey, checkExpr⟩ := c
    cases foreignKey with
    | none => exact fields?_object (by rfl) (by simp) (by rfl) 0
    | some k => exact fields?_object (by rfl) (by simp) (by rfl) 0
  have hkey : optional? ForeignKey.ofJson?
      (some (ofMaybe ForeignKey.toJson c.foreignKey)) = some c.foreignKey :=
    optional?_ofMaybe (fun k => ⟨_, rfl⟩) fun k _ => k.ofJson?_toJson
  unfold ofJson?
  simp only [hfields, hkey, required?_string, required?_bool, optional?_ofOption,
    Option.bind_eq_bind, Option.bind_some, Option.pure_def]
  exact congrArg some (enforceKey_of_obeys h)

theorem Table.ofJson?_toJson {t : Table} (h : t.ObeysKeyRule) : ofJson? t.toJson = some t := by
  have hfields : t.toJson.fields? ["schema", "name", "columns"] 0
      = some [some (.string t.schema), some (.string t.name),
        some (.array (t.columns.map Column.toJson))] := fields?_object (by rfl) (by simp) (by rfl) 0
  have hcolumns : required? (asList? Column.ofJson?)
      (some (.array (t.columns.map Column.toJson))) = some t.columns :=
    asList?_array fun c hc => Column.ofJson?_toJson (h c hc)
  unfold ofJson?
  simp only [hfields, hcolumns, required?_string, Option.bind_eq_bind, Option.bind_some,
    Option.pure_def]

/-! ## §3. Records. -/

theorem DeclarativeRecord.ofJson?_members {r : DeclarativeRecord}
    (h : ∀ t, r.table = some t → t.ObeysKeyRule) : ofJson? (.object r.members) = some r := by
  have hfields : (Json.object r.members).fields? ["raw_hash", "statement_hash", "table"] 0
      = some [some (.string r.rawHash), some (.string r.statementHash),
        some (ofMaybe Table.toJson r.table)] := by
    obtain ⟨rawHash, statementHash, table⟩ := r
    cases table with
    | none => exact fields?_object (by rfl) (by simp) (by rfl) 0
    | some t => exact fields?_object (by rfl) (by simp) (by rfl) 0
  have htable : optional? Table.ofJson?
      (some (ofMaybe Table.toJson r.table)) = some r.table :=
    optional?_ofMaybe (fun t => ⟨_, rfl⟩) fun t ht => Table.ofJson?_toJson (h t ht)
  unfold ofJson?
  simp only [hfields, htable, required?_string, Option.bind_eq_bind, Option.bind_some,
    Option.pure_def]

/-! ### Records are sound. -/

theorem ForeignKey.isSound_toJson (k : ForeignKey) (room : Nat) :
    k.toJson.isSound (room + 1) = true := by
  obtain ⟨schema, table, column, onDelete, onUpdate⟩ := k
  cases schema with
  | none => simp [toJson, isSound, membersSound, isSound_ofOption]
  | some s => simp [toJson, isSound, membersSound, isSound_ofOption]

theorem Column.isSound_toJson (c : Column) (room : Nat) :
    c.toJson.isSound (room + 2) = true := by
  have hkey : (ofMaybe ForeignKey.toJson c.foreignKey).isSound (room + 1) = true :=
    isSound_ofMaybe (fun k => k.isSound_toJson room) c.foreignKey
  obtain ⟨name, dataType, nullable, defaultExpr, inPrimaryKey, isUnique, foreignKey, checkExpr⟩ := c
  simp [toJson, isSound, membersSound, isSound_ofOption]
  cases foreignKey with
  | none => exact hkey
  | some k => exact hkey

theorem Table.isSound_toJson (t : Table) (room : Nat) : t.toJson.isSound (room + 4) = true := by
  have hcolumns : areSound (room + 2) (t.columns.map Column.toJson) = true :=
    areSound_map fun c _ => c.isSound_toJson room
  unfold toJson
  simp [isSound, membersSound, hcolumns]

theorem Record.isSound_toJson (r : Record) : r.toJson.isSound maxRecordDepth = true := by
  cases r with
  | plain rawHash hashes =>
    have hhashes : areSound 122 (hashes.map .string) = true :=
      areSound_map fun s _ => by simp [isSound]
    simp [toJson, isSound, membersSound, maxRecordDepth, hhashes]
  | declarative r =>
    have htable : (ofMaybe Table.toJson r.table).isSound 123 = true :=
      isSound_ofMaybe (fun t => t.isSound_toJson 119) r.table
    obtain ⟨rawHash, statementHash, table⟩ := r
    simp [toJson, DeclarativeRecord.members, isSound, membersSound, maxRecordDepth]
    cases table with
    | none => exact htable
    | some t => exact htable

/-- **A record is read back, its kind being found first.** -/
theorem Record.ofJson?_toJson {r : Record} (h : ∀ t, r.table? = some t → t.ObeysKeyRule) :
    ofJson? r.toJson = some r := by
  unfold ofJson?
  rw [r.isSound_toJson]
  cases r with
  | plain rawHash hashes =>
    have hkind : kindOfRecord? (toJson (.plain rawHash hashes)) = some ("plain",
        .object [("raw_hash", .string rawHash),
          ("statement_hashes", .array (hashes.map .string))]) := by
      simp [toJson, kindOfRecord?]
    have hfields : (Json.object [("raw_hash", .string rawHash),
        ("statement_hashes", .array (hashes.map .string))]).fields?
        ["raw_hash", "statement_hashes"] 0
        = some [some (.string rawHash), some (.array (hashes.map .string))] :=
      fields?_object (by rfl) (by simp) (by rfl) 0
    have hhashes : required? (asList? asString?) (some (.array (hashes.map .string)))
        = some hashes := asList?_array fun s _ => rfl
    simp only [hkind, hfields, hhashes, required?_string, Option.bind_eq_bind, Option.bind_some,
      Option.pure_def]
    rfl
  | declarative r =>
    have hkind : kindOfRecord? (toJson (.declarative r))
        = some ("declarative", .object r.members) := by
      simp [toJson, kindOfRecord?, DeclarativeRecord.members]
    simp only [hkind, DeclarativeRecord.ofJson?_members h, Option.bind_eq_bind, Option.bind_some,
      Option.pure_def]
    rfl

/-! ## §4. The state. -/

/-- The tables that a state holds, those of its history too. -/
def SyncState.tables (s : SyncState) : List Table :=
  s.snapshot.files.values.filterMap Record.table?
    ++ s.history.flatMap fun m => m.declarativeTables.values.filterMap (·.table)

/-- All tables of the state obey the key rule. -/
def SyncState.ObeysKeyRule (s : SyncState) : Prop := ∀ t ∈ s.tables, t.ObeysKeyRule

instance (s : SyncState) : Decidable s.ObeysKeyRule := by
  unfold SyncState.ObeysKeyRule
  infer_instance

theorem Snapshot.ofJson?_toJson {s : Snapshot}
    (h : ∀ t ∈ s.files.values.filterMap Record.table?, t.ObeysKeyRule) :
    ofJson? s.toJson = some s := by
  have hfields : s.toJson.fields? ["files"] 0
      = some [some (.object (s.files.entries.map fun e => (e.1, e.2.toJson)))] :=
    fields?_object (by rfl) (by simp) (by rfl) 0
  have hfiles : required? (asMap? Record.ofJson?)
      (some (.object (s.files.entries.map fun e => (e.1, e.2.toJson))))
      = some s.files.entries := by
    refine asMap?_object Record.toJson ?_
    intro e he
    refine Record.ofJson?_toJson ?_
    intro t ht
    exact h t (List.mem_filterMap.2 ⟨e.2, List.mem_map_of_mem he, ht⟩)
  unfold ofJson?
  simp only [hfields, hfiles, Option.bind_eq_bind, Option.bind_some, Option.pure_def,
    PathMap.ofList_entries]

theorem StatementOrigin.ofJson?_toJson (o : StatementOrigin) : ofJson? o.toJson = some o := by
  have hfields : o.toJson.fields? ["hash", "path"] 0
      = some [some (.string o.hash), some (.string o.path)] :=
    fields?_object (by rfl) (by simp) (by rfl) 0
  unfold ofJson?
  simp only [hfields, required?_string, Option.bind_eq_bind, Option.bind_some, Option.pure_def]

theorem MigrationRecord.ofJson?_toJson {m : MigrationRecord}
    (h : ∀ t ∈ m.declarativeTables.values.filterMap (·.table), t.ObeysKeyRule) :
    ofJson? m.toJson = some m := by
  have hfields : m.toJson.fields? ["name", "created_at", "statements", "declarative_tables"] 0
      = some [some (.string m.name), some (.string m.createdAt.toText),
        some (.array (m.statements.map StatementOrigin.toJson)),
        some (.object (m.declarativeTables.entries.map fun e =>
          (e.1, .object e.2.members)))] :=
    fields?_object (by rfl) (by simp) (by rfl) 0
  have hstatements : required? (asList? StatementOrigin.ofJson?)
      (some (.array (m.statements.map StatementOrigin.toJson))) = some m.statements :=
    asList?_array fun o _ => o.ofJson?_toJson
  have htables : required? (asMap? DeclarativeRecord.ofJson?)
      (some (.object (m.declarativeTables.entries.map fun e => (e.1, .object e.2.members))))
      = some m.declarativeTables.entries := by
    refine asMap?_object (fun r : DeclarativeRecord => .object r.members) ?_
    intro e he
    refine DeclarativeRecord.ofJson?_members ?_
    intro t ht
    exact h t (List.mem_filterMap.2 ⟨e.2, List.mem_map_of_mem he, ht⟩)
  unfold ofJson?
  simp only [hfields, hstatements, htables, required?_string, Option.bind_eq_bind,
    Option.bind_some, Option.pure_def, m.createdAt.ofText?_toText, PathMap.ofList_entries]

/-- **A state is read back from its JSON, with the version it is written in.** -/
theorem SyncState.ofJson?_toJson {s : SyncState} (h : s.ObeysKeyRule) :
    ofJson? s.toJson = some (stateVersion, s) := by
  have hfields : s.toJson.fields? ["version", "snapshot", "history"] 1
      = some [some (.nat stateVersion), some s.snapshot.toJson,
        some (.array (s.history.map MigrationRecord.toJson))] :=
    fields?_object (by rfl) (by simp) (by rfl) 1
  have hversion : required? (asNatBelow? UInt32.size) (some (.nat stateVersion))
      = some stateVersion := by decide
  have hsnapshot : required? Snapshot.ofJson? (some s.snapshot.toJson) = some s.snapshot :=
    Snapshot.ofJson?_toJson fun t ht => h t (List.mem_append_left _ ht)
  have hhistory : orElse? [] (asList? MigrationRecord.ofJson?)
      (some (.array (s.history.map MigrationRecord.toJson))) = some s.history := by
    refine asList?_array ?_
    intro m hm
    refine MigrationRecord.ofJson?_toJson ?_
    intro t ht
    exact h t (List.mem_append_right _ (List.mem_flatMap.2 ⟨m, hm, ht⟩))
  unfold ofJson?
  simp only [hfields, hversion, hsnapshot, hhistory, Option.bind_eq_bind, Option.bind_some,
    Option.pure_def]

/-! ### The state is plain. -/

theorem ForeignKey.plain_toJson (k : ForeignKey) : Plain k.toJson := by
  obtain ⟨schema, table, column, onDelete, onUpdate⟩ := k
  cases schema with
  | none =>
    refine .object ?_
    simp [plain_ofOption, Plain.string]
  | some s =>
    refine .object ?_
    simp [plain_ofOption, Plain.string]

theorem Column.plain_toJson (c : Column) : Plain c.toJson := by
  have hkey : Plain (ofMaybe ForeignKey.toJson c.foreignKey) :=
    plain_ofMaybe ForeignKey.plain_toJson c.foreignKey
  obtain ⟨name, dataType, nullable, defaultExpr, inPrimaryKey, isUnique, foreignKey, checkExpr⟩ := c
  refine .object ?_
  simp only [List.forall_mem_cons]
  refine ⟨.string _, .string _, .bool _, plain_ofOption _, .bool _, .bool _, ?_,
    plain_ofOption _, List.forall_mem_nil _⟩
  cases foreignKey with
  | none => exact hkey
  | some k => exact hkey

theorem Table.plain_toJson (t : Table) : Plain t.toJson := by
  refine .object ?_
  simp only [List.forall_mem_cons]
  exact ⟨.string _, .string _, plain_array_map fun c _ => c.plain_toJson, List.forall_mem_nil _⟩

theorem DeclarativeRecord.plain_members (r : DeclarativeRecord) :
    ∀ m ∈ r.members, Plain m.2 := by
  have htable : Plain (ofMaybe Table.toJson r.table) := plain_ofMaybe Table.plain_toJson r.table
  obtain ⟨rawHash, statementHash, table⟩ := r
  unfold members
  simp only [List.forall_mem_cons]
  refine ⟨.string _, .string _, ?_, List.forall_mem_nil _⟩
  cases table with
  | none => exact htable
  | some t => exact htable

theorem Record.plain_toJson (r : Record) : Plain r.toJson := by
  cases r with
  | plain rawHash hashes =>
    refine .object ?_
    simp only [List.forall_mem_cons]
    exact ⟨.string _, .string _, plain_array_map fun s _ => .string s, List.forall_mem_nil _⟩
  | declarative r =>
    refine .object ?_
    rw [List.forall_mem_cons]
    exact ⟨.string _, r.plain_members⟩

theorem MigrationRecord.plain_toJson (m : MigrationRecord) : Plain m.toJson := by
  refine .object ?_
  simp only [List.forall_mem_cons]
  refine ⟨.string _, .string _, plain_array_map ?_,
    plain_object_map (fun r : DeclarativeRecord => .object r.members) ?_, List.forall_mem_nil _⟩
  · intro o _
    refine .object ?_
    simp only [List.forall_mem_cons]
    exact ⟨.string _, .string _, List.forall_mem_nil _⟩
  · exact fun e _ => .object e.2.plain_members

theorem SyncState.plain_toJson (s : SyncState) : Plain s.toJson := by
  have hfiles : Plain s.snapshot.toJson := by
    refine .object ?_
    simp only [List.forall_mem_cons]
    exact ⟨plain_object_map Record.toJson fun e _ => e.2.plain_toJson, List.forall_mem_nil _⟩
  refine .object ?_
  simp only [List.forall_mem_cons]
  exact ⟨.nat _, hfiles, plain_array_map fun m _ => m.plain_toJson, List.forall_mem_nil _⟩

/-- **A state is read back from its text**, if its tables obey the key rule. -/
theorem SyncState.ofText_toText {s : SyncState} (h : s.ObeysKeyRule) : ofText s.toText = .ok s := by
  unfold ofText toText
  rw [String.toList_ofList, parse?_toText s.plain_toJson, Option.bind_some, ofJson?_toJson h]
  rfl

end SchemaDrift
