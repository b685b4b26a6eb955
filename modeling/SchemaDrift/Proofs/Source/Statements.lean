/-
  SchemaDrift.Proofs.Source.Statements
  ────────────────────────────────────
  **THE STATEMENTS OF A FILE SAY SOMETHING.**

  A piece of a file becomes a statement only if its normal form is not empty
  (`split_saying`).  Statements that are made one are kept apart by line feeds, so that what
  each of them says is still said (`joined_saying`).  What a file holds is made of the statements
  of its text in one of three ways (`Contents`, `contentOf_ok_iff`): the table of a file is read
  from its statement, and a statement that defines a table is alone in its file (`read_alone`).
-/

import SchemaDrift.Proofs.Sql.Coverage
import SchemaDrift.Proofs.Table.Columns
import SchemaDrift.Source.File

namespace SchemaDrift

open SchemaDrift.Sql SchemaDrift.Text

/-- The statement has a normal form. -/
def Sql.Statement.Says (s : Statement) : Prop := Sql.normalize s.raw.toList ≠ []

/-! ## §1. Pieces and regions. -/

namespace Sql

theorem statementOf?_saying {line : Nat} {piece : List Char} {s : Statement}
    (h : statementOf? line piece = some s) : s.Says := by
  rcases statementOf?_cases line piece with ⟨-, hnone⟩ | ⟨hsaid, hsome⟩
  · rw [hnone] at h
    cases h
  · rw [hsome] at h
    rw [← Option.some.inj h]
    unfold Statement.Says
    dsimp only
    rw [String.toList_ofList, normalize_trim]
    exact hsaid

theorem statementsOf_saying {line : Nat} {ps : List (List Char)} {s : Statement}
    (h : s ∈ statementsOf line ps) : s.Says := by
  induction ps generalizing line with
  | nil => cases h
  | cons piece ps ih =>
    rcases List.mem_append.1 h with h | h
    · exact statementOf?_saying (Option.mem_toList.1 h)
    · exact ih h

theorem splitRegions_saying {rs : List Region} {ss : List Statement}
    (h : splitRegions rs = .ok ss) : ∀ s ∈ ss, s.Says := by
  induction rs generalizing ss with
  | nil =>
    rw [← Except.ok.inj h]
    exact List.forall_mem_nil _
  | cons r rs ih =>
    obtain ⟨here, behind, hhere, hbehind, rfl⟩ := splitRegions_cons_ok.1 h
    rw [(statements_eq_ok hhere).1, List.forall_mem_append]
    exact ⟨fun s hs => statementsOf_saying hs, ih hbehind⟩

/-- **Every statement of a text says something.** -/
theorem split_saying {t : List Char} {ss : List Statement} (h : split t = .ok ss) :
    ∀ s ∈ ss, s.Says := by
  obtain ⟨regions, -, hregions⟩ := split_eq_ok h
  exact splitRegions_saying hregions

/-- What is said in front of a line feed is said whatever follows. -/
theorem normalize_feed_ne_nil {p : List Char} (h : normalize p ≠ []) (w : List Char) :
    normalize (p ++ '\n' :: w) ≠ [] := by
  obtain ⟨g, hg, hsaid⟩ := normalize_ne_nil.1 h
  refine normalize_ne_nil.2 ⟨g, ?_, hsaid⟩
  unfold classify at hg ⊢
  rw [Lexer.glyphs_append, (Lexer.reads_firm Lexer.delimited_start (isStop_of_isBlank (by decide))
    (by decide) (by decide) p w).1]
  exact List.mem_append_left _ hg

end Sql

/-! ## §2. Files. -/

theorem toList_joined (ss : List Statement) :
    (joined ss).toList = ['\n'].intercalate (ss.map fun s => terminate s.raw.toList) := by
  unfold joined
  rw [String.toList_intercalate, List.map_map]
  refine congrArg _ (List.map_congr_left ?_)
  intro s _
  exact String.toList_ofList

/-- **Statements made one say what the first of them says.** -/
theorem joined_saying {s : Statement} {ss : List Statement} (hs : s.Says) (line : Option Nat) :
    Statement.Says { raw := joined (s :: ss), startLine := line } := by
  have hfirst : Sql.normalize (terminate s.raw.toList) ≠ [] := by
    rw [normalize_terminate]
    exact hs
  unfold Statement.Says
  dsimp only
  rw [toList_joined, List.map_cons]
  cases ss with
  | nil =>
    rw [List.map_nil, List.intercalate_singleton]
    exact hfirst
  | cons s' ss =>
    rw [List.map_cons, List.intercalate_cons_cons, List.append_assoc]
    exact normalize_feed_ne_nil hfirst _

/-- What is known of the content of a file. -/
structure FileContent.Sound (c : FileContent) : Prop where
  saying : ∀ s ∈ c.statements, s.Says
  /-- A table is read from a statement. -/
  table : ∀ t, c.table = some t → ∃ s ∈ c.statements, Table.parse s.raw.toList = .ok t

/-- A statement that defines a table is alone among the statements. -/
def Alone (ss : List Statement) : Prop := ∀ s ∈ ss, s.isCreateTable = true → ss = [s]

/-- A member of a row of one is all of it. -/
theorem eq_singleton_of_mem {α : Type} {l : List α} {a : α} (ha : a ∈ l) (hl : ¬1 < l.length) :
    l = [a] := by
  obtain ⟨b, hb⟩ := List.length_eq_one_iff.1
    (Nat.le_antisymm (Nat.not_lt.1 hl) (List.length_pos_of_mem ha))
  rw [hb] at ha ⊢
  rw [List.mem_singleton.1 ha]

theorem alone_iff {ss : List Statement} :
    Alone ss ↔ ¬(1 < ss.length && ss.any (·.isCreateTable)) = true := by
  rw [Bool.and_eq_true, decide_eq_true_eq, List.any_eq_true]
  constructor
  · rintro halone ⟨hlength, s, hs, hcreate⟩
    rw [halone s hs hcreate] at hlength
    exact Nat.lt_irrefl 1 hlength
  · exact fun hmany s hs hcreate =>
      eq_singleton_of_mem hs fun hlength => hmany ⟨hlength, s, hs, hcreate⟩

theorem declarativeContent_ok_iff {ss : List Statement} {c : FileContent} :
    declarativeContent ss = .ok (.ok c) ↔ ∃ s rest t, ss = s :: rest ∧ c = ⟨[s], some t⟩
      ∧ s.isCreateTable = true ∧ Table.parse s.raw.toList = .ok t := by
  constructor
  · intro h
    unfold declarativeContent at h
    split at h
    · cases h
    · next s rest =>
      split at h
      · cases h
      · next hcreate =>
        split at h
        · next t ht =>
          cases h
          exact ⟨s, rest, t, rfl, rfl, by simpa using hcreate, ht⟩
        · cases h
        · cases h
  · rintro ⟨s, rest, t, rfl, rfl, hcreate, ht⟩
    unfold declarativeContent
    dsimp only
    rw [hcreate, ht]
    rfl

/-- What the statements of a text are read to under given directives: the table that the only one
of them declares, each of them, or all of them made one. -/
inductive Contents (d : Directives) : List Statement → FileContent → Prop
  | declared {s : Statement} {t : Table} (hd : d.declarativeTable = true)
      (hcreate : s.isCreateTable = true) (ht : Table.parse s.raw.toList = .ok t) :
      Contents d [s] { statements := [s], table := some t }
  | separate {ss : List Statement} (hd : d.declarativeTable = false)
      (hsplit : d.splitStatements = true) (halone : Alone ss) : Contents d ss { statements := ss }
  | plain {ss : List Statement} (hd : d.declarativeTable = false)
      (hsplit : d.splitStatements = false) (halone : Alone ss) : Contents d ss (plainContent ss)

/-- **What the content of a text is made of**: its statements, if the directives do not
contradict each other. -/
theorem contentOf_ok_iff {text : List Char} {d : Directives} {c : FileContent} :
    contentOf text d = .ok (.ok c)
      ↔ d.conflicting = false ∧ ∃ ss, split text = .ok ss ∧ Contents d ss c := by
  constructor
  · -- the faults in the order they are looked for: directives, cutting, a table among others
    intro h
    unfold contentOf at h
    split at h
    · cases h
    · next hconflict =>
      refine ⟨Bool.eq_false_iff.2 hconflict, ?_⟩
      split at h
      · cases h
      · next ss hss =>
        refine ⟨ss, hss, ?_⟩
        split at h
        · cases h
        · next hmany =>
          have halone := alone_iff.2 hmany
          split at h
          · next hd =>
            obtain ⟨s, rest, t, rfl, rfl, hcreate, ht⟩ :=
              declarativeContent_ok_iff.1 (mapError_eq_ok.1 h)
            rw [halone s List.mem_cons_self hcreate]
            exact .declared hd hcreate ht
          · next hd =>
            split at h
            · next hsplit =>
              cases h
              exact .separate (Bool.eq_false_iff.2 hd) hsplit halone
            · next hsplit =>
              cases h
              exact .plain (Bool.eq_false_iff.2 hd) (Bool.eq_false_iff.2 hsplit) halone
  · rintro ⟨hconflict, ss, hss, hcontents⟩
    unfold contentOf
    rw [hconflict, hss, if_neg Bool.false_ne_true]
    cases hcontents with
    | @declared s t hd hcreate ht =>
      dsimp only
      rw [hd, declarativeContent_ok_iff.2 ⟨s, [], t, rfl, rfl, hcreate, ht⟩]
      rfl
    | separate hd hsplit halone =>
      dsimp only
      rw [if_neg (alone_iff.1 halone), hd, hsplit]
      rfl
    | plain hd hsplit halone =>
      dsimp only
      rw [if_neg (alone_iff.1 halone), hd, hsplit]
      rfl

/-- The content of a file that is not followed statement by statement is one statement. -/
theorem length_plainContent (ss : List Statement) : ¬1 < (plainContent ss).statements.length := by
  cases ss with
  | nil => exact Nat.not_lt_zero 1
  | cons first rest => exact Nat.lt_irrefl 1

theorem table_plainContent (ss : List Statement) : (plainContent ss).table = none := by
  cases ss with
  | nil => rfl
  | cons first rest => rfl

theorem plainContent_saying {ss : List Statement} (hss : ∀ s ∈ ss, s.Says) :
    ∀ s ∈ (plainContent ss).statements, s.Says := by
  intro s hs
  cases ss with
  | nil => cases hs
  | cons first rest =>
    rw [List.mem_singleton.1 hs]
    exact joined_saying (hss first List.mem_cons_self) _

theorem contentOf_sound {text : List Char} {d : Directives} {c : FileContent}
    (h : contentOf text d = .ok (.ok c)) : c.Sound := by
  obtain ⟨-, ss, hss, hcontents⟩ := contentOf_ok_iff.1 h
  have hsaid := split_saying hss
  cases hcontents with
  | @declared s t _ _ ht =>
    refine ⟨hsaid, fun t' ht' => ?_⟩
    rw [← Option.some.inj ht']
    exact ⟨s, List.mem_singleton_self s, ht⟩
  | separate => exact ⟨hsaid, fun t ht => (nomatch ht)⟩
  | plain =>
    refine ⟨plainContent_saying hsaid, fun t ht => ?_⟩
    rw [table_plainContent] at ht
    cases ht

/-- A text with directives and a content is read. -/
theorem SourceFile.read_ok (path : String) {text : String} {d : Directives} {c : FileContent}
    (hd : Sql.directives text.toList = .ok d) (hc : contentOf text.toList d = .ok (.ok c)) :
    SourceFile.read path text = .ok ⟨path, Digest.hashOf text, d, .ok c⟩ := by
  unfold SourceFile.read
  rw [hd]
  dsimp only
  rw [hc]
  rfl

/-- The digest of a file that was read is the one of its text. -/
theorem SourceFile.read_rawHash {path text : String} {f : SourceFile}
    (h : SourceFile.read path text = .ok f) : f.rawHash = Digest.hashOf text := by
  unfold SourceFile.read at h
  split at h
  · cases h
    rfl
  · obtain ⟨content, -, h⟩ := bind_eq_ok.1 h
    rw [← Except.ok.inj h]

/-- What a file that was read holds is the content of its text. -/
theorem SourceFile.read_content {path text : String} {f : SourceFile} {c : FileContent}
    (h : SourceFile.read path text = .ok f) (hc : f.content = .ok c) :
    contentOf text.toList f.directives = .ok (.ok c) := by
  unfold SourceFile.read at h
  split at h
  · cases h
    cases hc
  · next d hd =>
    obtain ⟨content, hread, h⟩ := bind_eq_ok.1 h
    rw [← Except.ok.inj h] at hc ⊢
    rw [show content = .ok c from hc] at hread
    exact hread

/-- The directives of a file that holds something are those of its text. -/
theorem SourceFile.read_directives {path text : String} {f : SourceFile} {c : FileContent}
    (h : SourceFile.read path text = .ok f) (hc : f.content = .ok c) :
    Sql.directives text.toList = .ok f.directives := by
  unfold SourceFile.read at h
  split at h
  · cases h
    cases hc
  · next d hd =>
    obtain ⟨content, -, h⟩ := bind_eq_ok.1 h
    rw [← Except.ok.inj h, hd]

/-- The file holds the content `c`, which is that of the text. -/
structure SourceFile.Holds (f : SourceFile) (text : String) (c : FileContent) : Prop where
  noError : f.error? = none
  directives : Sql.directives text.toList = .ok f.directives
  content : contentOf text.toList f.directives = .ok (.ok c)
  statements : f.statements = c.statements
  table : f.table? = c.table

/-- **A file that was read holds the content of its text, or nothing but an error.** -/
theorem SourceFile.read_cases {path text : String} {f : SourceFile}
    (h : SourceFile.read path text = .ok f) :
    (f.error? ≠ none ∧ f.statements = [] ∧ f.table? = none) ∨ ∃ c, f.Holds text c := by
  cases hc : f.content with
  | error e =>
    left
    unfold SourceFile.error? SourceFile.statements SourceFile.table?
    rw [hc]
    exact ⟨Option.some_ne_none e, rfl, rfl⟩
  | ok c =>
    refine Or.inr ⟨c, ?_, SourceFile.read_directives h hc, SourceFile.read_content h hc, ?_, ?_⟩
    · rw [SourceFile.error?, hc]
    · rw [SourceFile.statements, hc]
    · rw [SourceFile.table?, hc]

theorem SourceFile.read_holds {path text : String} {f : SourceFile}
    (h : SourceFile.read path text = .ok f) (hok : f.error? = none) : ∃ c, f.Holds text c :=
  (SourceFile.read_cases h).resolve_left fun herror => herror.1 hok

/-- **What is read of a file is sound**: its statements say something, and its table is that
of one of them. -/
theorem SourceFile.read_sound {path text : String} {f : SourceFile}
    (h : SourceFile.read path text = .ok f) : (∀ s ∈ f.statements, s.Says)
      ∧ ∀ t, f.table? = some t → ∃ s ∈ f.statements, Table.parse s.raw.toList = .ok t := by
  rcases SourceFile.read_cases h with ⟨-, hs, ht⟩ | ⟨c, hc⟩
  · rw [hs, ht]
    exact ⟨List.forall_mem_nil _, fun t ht => nomatch ht⟩
  · rw [hc.statements, hc.table]
    exact ⟨(contentOf_sound hc.content).saying, (contentOf_sound hc.content).table⟩

/-! ## §3. Table definitions. -/

/-- A statement that defines a table is alone in the content of a text. -/
theorem contentOf_alone {text : List Char} {d : Directives} {c : FileContent}
    (h : contentOf text d = .ok (.ok c)) {s : Statement} (hs : s ∈ c.statements)
    (hcreate : s.isCreateTable = true) : c.statements = [s] := by
  obtain ⟨-, ss, -, hcontents⟩ := contentOf_ok_iff.1 h
  cases hcontents with
  | declared => rw [List.mem_singleton.1 hs]
  | separate _ _ halone => exact halone s hs hcreate
  | plain => exact eq_singleton_of_mem hs (length_plainContent ss)

/-- **A statement that defines a table is alone in its file.** -/
theorem SourceFile.read_alone {path text : String} {f : SourceFile}
    (h : SourceFile.read path text = .ok f) {s : Statement} (hs : s ∈ f.statements)
    (hcreate : s.isCreateTable = true) : f.statements = [s] := by
  rcases SourceFile.read_cases h with ⟨-, hnone, -⟩ | ⟨c, hc⟩
  · rw [hnone] at hs
    cases hs
  · rw [hc.statements] at hs ⊢
    exact contentOf_alone hc.content hs hcreate

/-- **A file that declares a table holds the definition of it**, and nothing else. -/
theorem SourceFile.read_declarative {path text : String} {f : SourceFile}
    (h : SourceFile.read path text = .ok f) (hok : f.error? = none)
    (hdeclarative : f.isDeclarative = true) : ∃ s t, f.statements = [s] ∧ f.table? = some t
      ∧ s.isCreateTable = true ∧ Table.parse s.raw.toList = .ok t := by
  obtain ⟨c, hc⟩ := SourceFile.read_holds h hok
  obtain ⟨-, ss, -, hcontents⟩ := contentOf_ok_iff.1 hc.content
  have hd : f.directives.declarativeTable = true := hdeclarative
  rw [hc.statements, hc.table]
  cases hcontents with
  | @declared s t _ hcreate ht => exact ⟨s, t, rfl, rfl, hcreate, ht⟩
  | separate hplain | plain hplain =>
    rw [hd] at hplain
    cases hplain

end SchemaDrift
