/-
  SchemaDrift.Proofs.Source.Reads
  ───────────────────────────────
  **WHICH FILES ARE READ TO AN ANSWER.**

  A file is to be read to an answer whatever it holds: its content, or what is wrong with
  it.  Conflicting directives, text that is never closed, a table that is none are all told
  with the file.  One thing is not, a definition that halts the reader (`Table.Halts`), and
  the reader comes to a definition only in a file that declares a table by one statement:

      contentOf_halts_iff   the content of a text with given directives
      read_iff              a whole file
-/

import SchemaDrift.Proofs.Table.Breaking
import SchemaDrift.Source.File

namespace SchemaDrift

open SchemaDrift.Sql SchemaDrift.Table

/-- The text is one statement that defines a table, and the definition halts the reader. -/
def HoldsHalting (text : List Char) : Prop :=
  ∃ s, split text = .ok [s] ∧ s.isCreateTable = true ∧ Halts s.raw.toList

/-- The file declares a table, with directives that can be read and do not conflict, by a
definition that halts the reader. -/
def ReadingHalts (text : List Char) : Prop :=
  ∃ d, Sql.directives text = .ok d ∧ d.declarativeTable = true ∧ d.conflicting = false
    ∧ HoldsHalting text

/-- The statements of a declaration halt the reader exactly if the first defines a table and
the definition does. -/
theorem declarativeContent_error_iff {ss : List Statement} :
    (∃ e, declarativeContent ss = .error e)
      ↔ ∃ s rest, ss = s :: rest ∧ s.isCreateTable = true ∧ Halts s.raw.toList := by
  cases ss with
  | nil =>
    constructor
    · intro ⟨e, h⟩
      cases h
    · intro ⟨s, rest, h, _⟩
      cases h
  | cons s rest =>
    unfold declarativeContent
    dsimp only
    by_cases hcreate : s.isCreateTable = true
    · rw [hcreate, Bool.not_true, if_neg Bool.false_ne_true]
      by_cases hhalts : Halts s.raw.toList
      · rw [parse_cut_iff.2 hhalts]
        exact ⟨fun _ => ⟨s, rest, rfl, hcreate, hhalts⟩, fun _ => ⟨_, rfl⟩⟩
      · constructor
        · intro ⟨e, h⟩
          split at h
          · cases h
          · next hcut => exact absurd (parse_cut_iff.1 hcut) hhalts
          · cases h
        · intro ⟨s', rest', hss, _, hhalts'⟩
          rw [(List.cons.inj hss).1] at hhalts
          exact absurd hhalts' hhalts
    · rw [Bool.eq_false_iff.2 hcreate, Bool.not_false, if_pos rfl]
      constructor
      · intro ⟨e, h⟩
        cases h
      · intro ⟨s', rest', hss, hcreate', _⟩
        rw [(List.cons.inj hss).1] at hcreate
        exact absurd hcreate' hcreate

/-- **Reading the content of a text halts exactly if a table is asked for and the text is a
definition that halts the reader.** -/
theorem contentOf_halts_iff {text : List Char} {d : Directives} :
    (∃ e, contentOf text d = .error e)
      ↔ d.declarativeTable = true ∧ d.conflicting = false ∧ HoldsHalting text := by
  unfold contentOf HoldsHalting
  by_cases hconflict : d.conflicting = true
  · rw [if_pos hconflict]
    constructor
    · intro ⟨e, h⟩
      cases h
    · intro ⟨_, hnone, _⟩
      rw [hconflict] at hnone
      cases hnone
  · rw [if_neg hconflict]
    cases hsplit : split text with
    | error e =>
      constructor
      · intro ⟨e, h⟩
        cases h
      · intro ⟨_, _, s, hs, _⟩
        cases hs
    | ok ss =>
      dsimp only
      by_cases hmany : (1 < ss.length && ss.any (·.isCreateTable)) = true
      · -- several statements with a table among them are told as an error
        rw [if_pos hmany]
        constructor
        · intro ⟨e, h⟩
          cases h
        · intro ⟨_, _, s, hs, _⟩
          rw [Except.ok.inj hs] at hmany
          cases hmany
      · rw [if_neg hmany]
        by_cases hdeclares : d.declarativeTable = true
        · have hmap : (∃ e, (declarativeContent ss).mapError
              (fun _ => Halt.cutInsideCharacter) = .error e)
              ↔ ∃ e, declarativeContent ss = .error e := by
            constructor
            · intro ⟨halt, h⟩
              obtain ⟨e, he, -⟩ := mapError_eq_error.1 h
              exact ⟨e, he⟩
            · intro ⟨e, he⟩
              exact ⟨_, mapError_eq_error.2 ⟨e, he, rfl⟩⟩
          rw [if_pos hdeclares, hmap, declarativeContent_error_iff]
          constructor
          · intro ⟨s, rest, hss, hcreate, hhalts⟩
            refine ⟨hdeclares, Bool.eq_false_iff.2 hconflict, s, ?_, hcreate, hhalts⟩
            cases rest with
            | nil => rw [hss]
            | cons s' rest =>
              refine absurd ?_ hmany
              rw [hss, List.any_cons, hcreate]
              rfl
          · intro ⟨_, _, s, hss, hcreate, hhalts⟩
            exact ⟨s, [], Except.ok.inj hss, hcreate, hhalts⟩
        · rw [if_neg hdeclares]
          constructor
          · intro ⟨e, h⟩
            split at h
            · cases h
            · cases h
          · intro ⟨hdeclares', _⟩
            exact absurd hdeclares' hdeclares

/-- **Every file is read to an answer, its content or what is wrong with it, except exactly
those whose table definition halts the reader.** -/
theorem read_iff (sql : List Char) (path text : String) :
    (Table.parse sql = .error .cutInsideCharacter ↔ Halts sql)
      ∧ ((∃ f, SourceFile.read path text = .ok f ∧ f.path = path
            ∧ f.rawHash = Digest.hashOf text)
          ↔ ¬ReadingHalts text.toList) := by
  refine ⟨parse_cut_iff, ?_⟩
  unfold SourceFile.read ReadingHalts
  cases hdirectives : Sql.directives text.toList with
  | error e =>
    constructor
    · intro _ ⟨d, hd, _⟩
      cases hd
    · exact fun _ => ⟨_, rfl, rfl, rfl⟩
  | ok d =>
    dsimp only
    have hcontentOf : (∃ e, contentOf text.toList d = .error e)
        ↔ d.declarativeTable = true ∧ d.conflicting = false ∧ HoldsHalting text.toList :=
      contentOf_halts_iff
    constructor
    · intro ⟨f, hf, _⟩ ⟨d', hd', hhalts⟩
      rw [← Except.ok.inj hd'] at hhalts
      obtain ⟨e, he⟩ := hcontentOf.2 hhalts
      rw [he] at hf
      cases hf
    · intro hnone
      cases hcontent : contentOf text.toList d with
      | error e => exact absurd ⟨d, rfl, hcontentOf.1 ⟨e, hcontent⟩⟩ hnone
      | ok content => exact ⟨_, rfl, rfl, rfl⟩

/-- The end of the text, taken for the bracket that is missing, is a character of two
bytes. -/
theorem read_open_bracket :
    ¬∃ f, SourceFile.read "t.sql"
      "-- sqlsync: declarativeTable=true\nCREATE TABLE t (id int CHECK [é);" = .ok f := by
  have hcut : SourceFile.read "t.sql"
      "-- sqlsync: declarativeTable=true\nCREATE TABLE t (id int CHECK [é);"
      = .error .cutInsideCharacter := by decide +kernel
  intro ⟨f, hf⟩
  rw [hcut] at hf
  cases hf

end SchemaDrift
