/-
  SchemaDrift.Proofs.Snapshot.Origin
  ──────────────────────────────────
  **WHAT A SNAPSHOT HOLDS WAS READ FROM SOME TEXT.**

  A snapshot is taken forward by one tree after the other, and a file with an error keeps
  the record it had.  So every record is of a file that was read without error, now or
  before (`recordedFrom_advance`), however many trees there were (`recordedFrom_foldl`).

  What is read of a text depends on the text alone.  As long as no two texts and no two
  normal forms share a digest, a digest stands for what it was taken of: two files of one
  digest are equal (`read_unique`), and two statements of one identity have
  the same normal form (`normalize_unique`).
-/

import SchemaDrift.Proofs.Snapshot.Entries
import SchemaDrift.Proofs.Source.Statements
import SchemaDrift.Snapshot.Basic

namespace SchemaDrift

open SchemaDrift.Sql SchemaDrift.Digest

variable {texts : List String}

/-! ## §1. Records and their files. -/

/-- The files of a tree were read from some of the texts. -/
def ReadFrom (texts : List String) (files : List SourceFile) : Prop :=
  ∀ f ∈ files, ∃ text ∈ texts, SourceFile.read f.path text = .ok f

/-- Every record is of a file that was read from one of the texts. -/
def Snapshot.RecordedFrom (texts : List String) (s : Snapshot) : Prop :=
  ∀ path r, s.get? path = some r → ∃ text ∈ texts, ∃ f, SourceFile.read path text = .ok f
    ∧ Record.ofFile? f = some r

/-- **A tree of files that were read leaves nothing else in the snapshot.** -/
theorem recordedFrom_advance {files : List SourceFile} (hfiles : ReadFrom texts files)
    {s : Snapshot} (hs : s.RecordedFrom texts) : (s.advance files).RecordedFrom texts := by
  intro path r h
  have hentry := PathMap.mem_of_mem_ofList (PathMap.get?_eq_some.1 h)
  obtain ⟨f, hf, hmap⟩ := List.mem_filterMap.1 hentry
  obtain ⟨r', hr', heq⟩ := Option.map_eq_some_iff.1 hmap
  cases heq
  cases hrecord : Record.ofFile? f with
  | none =>
    -- a file with an error keeps the record it had
    rw [hrecord] at hr'
    exact hs f.path r hr'
  | some r'' =>
    rw [hrecord] at hr'
    obtain ⟨text, htext, hread⟩ := hfiles f hf
    exact ⟨text, htext, f, hread, hrecord.trans hr'⟩

/-- **However many trees there were, every record is of a file that was read.** -/
theorem recordedFrom_foldl {trees : List (List SourceFile)}
    (htrees : ∀ tree ∈ trees, ReadFrom texts tree) {s : Snapshot} (hs : s.RecordedFrom texts) :
    (trees.foldl Snapshot.advance s).RecordedFrom texts := by
  induction trees generalizing s with
  | nil => exact hs
  | cons tree trees ih =>
    obtain ⟨htree, htrees⟩ := List.forall_mem_cons.1 htrees
    exact ih htrees (recordedFrom_advance htree hs)

/-- Nothing is recorded at first. -/
theorem recordedFrom_empty : Snapshot.RecordedFrom texts {} := by
  intro path r h
  cases h

/-! ## §2. Texts and their digests. -/

/-- The statements that are read of a text. -/
def statementsOfText (text : String) : List Statement :=
  match SourceFile.read "" text with
  | .ok f => f.statements
  | .error _ => []

/-- All that digests are taken of when texts are read: the texts, and the normal forms of
their statements. -/
def digested (texts : List String) : List String :=
  texts ++ texts.flatMap fun text => (statementsOfText text).map (·.normalized)

/-- What is read of a text does not depend on its path. -/
theorem read_path {path text : String} {f : SourceFile} (h : SourceFile.read path text = .ok f)
    (path' : String) : SourceFile.read path' text = .ok { f with path := path' } := by
  unfold SourceFile.read at h ⊢
  split at h
  · cases h
    rfl
  · obtain ⟨content, hcontent, h⟩ := bind_eq_ok.1 h
    cases h
    rw [hcontent]
    rfl

/-- The normal form of a statement that was read is digested. -/
theorem normalized_mem_digested {path text : String} {f : SourceFile} (htext : text ∈ texts)
    (h : SourceFile.read path text = .ok f) {s : Statement} (hs : s ∈ f.statements) :
    s.normalized ∈ digested texts := by
  refine List.mem_append_right _ (List.mem_flatMap.2 ⟨text, htext, List.mem_map.2 ⟨s, ?_, rfl⟩⟩)
  unfold statementsOfText
  rw [read_path h ""]
  exact hs

section

variable (hdigest : ∀ t ∈ digested texts, ∀ u ∈ digested texts, hashOf t = hashOf u → t = u)
include hdigest

/-- **Two files of one digest have the same content.** -/
theorem read_unique {text text' path : String} {f f' : SourceFile} (htext : text ∈ texts)
    (htext' : text' ∈ texts) (h : SourceFile.read path text = .ok f)
    (h' : SourceFile.read path text' = .ok f') (hhash : f.rawHash = f'.rawHash) : f = f' := by
  rw [SourceFile.read_rawHash h, SourceFile.read_rawHash h'] at hhash
  rw [hdigest text (List.mem_append_left _ htext) text' (List.mem_append_left _ htext') hhash] at h
  exact Except.ok.inj (h.symm.trans h')

/-- **Two statements of one identity have the same normal form.** -/
theorem normalize_unique {text text' path path' : String} {f f' : SourceFile} (htext : text ∈ texts)
    (htext' : text' ∈ texts) (h : SourceFile.read path text = .ok f)
    (h' : SourceFile.read path' text' = .ok f') {s s' : Statement} (hs : s ∈ f.statements)
    (hs' : s' ∈ f'.statements) (hhash : s.hash = s'.hash) :
    normalize s.raw.toList = normalize s'.raw.toList :=
  String.ofList_injective (hdigest s.normalized (normalized_mem_digested htext h hs) s'.normalized
    (normalized_mem_digested htext' h' hs') hhash)

end

end SchemaDrift
