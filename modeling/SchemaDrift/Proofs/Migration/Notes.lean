/-
  SchemaDrift.Proofs.Migration.Notes
  ──────────────────────────────────
  **NOTES SAY NOTHING.**

  A note begins with two hyphens and makes no marker, whatever names, numbers, stamps and
  digests of one line are put into it (`silent_remark`).  The statements of a file are noted
  line by line (`silent_commented`); there a marker could come from the text itself, unless
  no line of that is one behind `-- `.
-/

import SchemaDrift.Migration.Name
import SchemaDrift.Migration.Synthesis
import SchemaDrift.Proofs.Alter.Unmarked
import SchemaDrift.Proofs.Migration.Outline

namespace SchemaDrift

open SchemaDrift.Sql SchemaDrift.Text SchemaDrift.Digest SchemaDrift.Number

/-! ## §1. Names, numbers and stamps. -/

/-- The digits of a number are of one line. -/
theorem feed_not_mem_toDigits (n : Nat) : '\n' ∉ Nat.toDigits 10 n := by
  intro h
  have hdigit := Nat.isDigit_of_mem_toDigits (by decide) (by decide) h
  exact absurd hdigit (by decide)

theorem inline_fixed (places : Nat) (q : Rat) : Inline (fixed places q) := by
  unfold fixed Inline
  simp [feed_not_mem_toDigits]

theorem feed_not_mem_padded (width n : Nat) : '\n' ∉ Stamp.padded width n := by
  unfold Stamp.padded
  simp [feed_not_mem_toDigits]

theorem inline_toProse (t : Stamp) : Inline t.toProse := by
  have hyear : '\n' ∉ Stamp.yearText t.year := by
    unfold Stamp.yearText
    split
    · simp [feed_not_mem_padded]
    · split
      · simp [feed_not_mem_padded]
      · exact feed_not_mem_padded _ _
  unfold Stamp.toProse
  refine inline_append.2 ⟨?_, by decide⟩
  unfold Stamp.joined Inline
  simp [hyear, feed_not_mem_padded]

/-- A name that a migration may have is made of the characters of names. -/
theorem isNameChar_of_checkMigrationName {name : String} (h : checkMigrationName name = .ok ()) :
    ∀ c ∈ name.toList, isNameChar c = true := by
  unfold checkMigrationName at h
  split at h
  · cases h
  · split at h
    · cases h
    · next hall =>
      rw [Bool.not_eq_true, Bool.not_eq_false', List.all_eq_true] at hall
      exact hall

/-- A name that a migration may have is of one line. -/
theorem inline_of_checkMigrationName {name : String} (h : checkMigrationName name = .ok ()) :
    Inline name := by
  intro hmem
  have hfeed : isNameChar '\n' = false := by decide +kernel
  rw [isNameChar_of_checkMigrationName h '\n' hmem] at hfeed
  cases hfeed

/-! ## §2. Remarks. -/

/-- The text begins a comment that is no marker, whatever follows on the line: there are two
hyphens and an indent, and then something that `sqlsync:` does not begin with. -/
def isFront : List Char → Bool
  | '-' :: '-' :: rest =>
    !rest.contains '\n' &&
      match rest.dropWhile isIndent with
      | 's' :: c :: _ => c != 'q'
      | c :: _ => c != 's'
      | [] => false
  | _ => false

/-- What begins so is quiet. -/
theorem quiet_front {front : List Char} (hfront : isFront front = true) {text : List Char}
    (h : '\n' ∉ text) : Quiet (front ++ text) := by
  unfold isFront at hfront
  split at hfront
  · next rest =>
    rw [Bool.and_eq_true, Bool.not_eq_true', List.contains_eq_mem,
      decide_eq_false_iff_not] at hfront
    obtain ⟨hfeed, hbegins⟩ := hfront
    refine ⟨⟨by simp [hfeed, h], Or.inr ⟨rest ++ text, rfl⟩⟩, ?_⟩
    have hhyphens : indented? "--".toList ('-' :: '-' :: rest ++ text) = some (rest ++ text) := rfl
    have hname : indented? "sqlsync:".toList (rest ++ text) = none := by
      unfold indented?
      rw [List.dropWhile_append]
      split at hbegins
      · next c tail heq =>
        rw [heq]
        have hc : c ≠ 'q' := by simpa using hbegins
        simp [literally?, hc]
      · next c tail _ heq =>
        rw [heq]
        have hc : c ≠ 's' := by simpa using hbegins
        simp [literally?, hc]
      · cases hbegins
    rw [marker?_eq, hhyphens, Option.bind_some, hname]
    rfl
  · cases hfront

/-- The text begins a note. -/
def IsFront (front : String) : Prop := isFront front.toList = true

/-- A text that is given by its characters. -/
theorem isFront_ofList {l : List Char} (h : isFront l = true) : IsFront (String.ofList l) := by
  unfold IsFront
  rw [String.toList_ofList]
  exact h

/-- **A note of one line says nothing.** -/
theorem silent_remark (front : String) {text : String} (hfront : IsFront front) (h : Inline text) :
    Silent ((front ++ text).toList ++ ['\n']) := by
  have hquiet : Quiet (front ++ text).toList := by
    rw [String.toList_append]
    exact quiet_front hfront h
  exact Rows.line hquiet Rows.nil

/-- So does one that is fixed. -/
theorem silent_fixed {text : String} (h : IsFront text) : Silent (text.toList ++ ['\n']) := by
  have hempty : Inline "" := by decide
  have hsilent := silent_remark text h hempty
  rwa [String.append_empty] at hsilent

/-- What an operation is described by is of one line. -/
theorem silent_describe {o : Alter.Operation} (h : o.NamesInline) :
    Silent (("-- " ++ o.describe).toList ++ ['\n']) := by
  unfold Alter.Operation.NamesInline at h
  unfold Alter.Operation.describe
  -- by the operation: fixed words, and names of one line each
  cases hkind : o.kind with
  | add column =>
    rw [hkind] at h
    exact silent_remark "-- add column " (isFront_ofList (by decide)) h
  | drop column =>
    rw [hkind] at h
    exact silent_remark "-- drop column " (isFront_ofList (by decide)) h
  | modify column changes =>
    rw [hkind] at h
    have hlabel : ∀ change : Alter.ColumnChange, Inline change.label := by
      intro change
      cases change <;> decide
    have hlabels : Inline (", ".intercalate (changes.map Alter.ColumnChange.label)) := by
      refine inline_intercalate (by decide) ?_
      intro label hmem
      obtain ⟨change, -, rfl⟩ := List.mem_map.1 hmem
      exact hlabel change
    have htext : Inline (column ++ (" (" ++ (", ".intercalate (changes.map Alter.ColumnChange.label)
        ++ ")"))) := by
      simp only [inline_append]
      exact ⟨h, by decide, hlabels, by decide⟩
    have hnote := silent_remark "-- modify column " (isFront_ofList (by decide)) htext
    simp only [String.append_assoc, toString] at hnote ⊢
    exact hnote
  | rename source target confidence unsure =>
    rw [hkind] at h
    have htext : Inline (source ++ (" -> " ++ (target ++ (" (confidence " ++ (fixed 2 confidence
        ++ ")"))))) := by
      simp only [inline_append]
      exact ⟨h.1, by decide, h.2, by decide, inline_fixed 2 confidence, by decide⟩
    have hnote := silent_remark "-- rename column " (isFront_ofList (by decide)) htext
    simp only [String.append_assoc, toString] at hnote ⊢
    exact hnote

/-! ## §3. Texts noted line by line. -/

/-- A line loses nothing but its break. -/
theorem withoutBreak_cases (line : List Char) :
    ∃ r, line = withoutBreak line ++ r ∧ (r = [] ∨ r = ['\n'] ∨ r = ['\r', '\n']) := by
  unfold withoutBreak
  split
  · next rest h =>
    refine ⟨['\r', '\n'], ?_, Or.inr (Or.inr rfl)⟩
    have hline := congrArg List.reverse h
    simpa using hline
  · next rest _ h =>
    refine ⟨['\n'], ?_, Or.inr (Or.inl rfl)⟩
    have hline := congrArg List.reverse h
    simpa using hline
  · exact ⟨[], (List.append_nil line).symm, Or.inl rfl⟩

/-- Behind the break of a line nothing of the line is left. -/
theorem feed_not_mem_withoutBreak {t line : List Char} (h : line ∈ lines t) :
    '\n' ∉ withoutBreak line := by
  -- the only feed of a line is at its end, where it is taken away
  have hlast : ∀ a : List Char, '\n' ∉ a → '\n' ∉ withoutBreak a := by
    intro a ha hmem
    obtain ⟨r, hr, -⟩ := withoutBreak_cases a
    rw [hr] at ha
    exact ha (List.mem_append_left r hmem)
  have hline : ∀ a : List Char, '\n' ∉ a → '\n' ∉ withoutBreak (a ++ ['\n']) := by
    intro a ha
    have hreverse : (a ++ ['\n']).reverse = '\n' :: a.reverse := by simp
    unfold withoutBreak
    rw [hreverse]
    split
    · next rest heq =>
      have hrest : a.reverse = '\r' :: rest := (List.cons.inj heq).2
      intro hmem
      refine ha (List.mem_reverse.1 ?_)
      rw [hrest]
      exact List.mem_cons_of_mem _ (List.mem_reverse.1 hmem)
    · next rest _ heq =>
      rw [← (List.cons.inj heq).2, List.reverse_reverse]
      exact ha
    · next hne =>
      exact absurd rfl (hne a.reverse)
  induction t using lines_rec with
  | nil => cases h
  | last a ha hne =>
    rw [lines_last ha hne, List.mem_singleton] at h
    rw [h]
    exact hlast a ha
  | line a b ha ih =>
    rw [lines_line ha] at h
    rcases List.mem_cons.1 h with rfl | h
    · exact hline a ha
    · exact ih h

/-- Lines one below the other, each with its line feed. -/
theorem intercalate_feed (ls : List (List Char)) :
    ['\n'].intercalate ls ++ ['\n'] = if ls.isEmpty then ['\n'] else ls.flatMap (· ++ ['\n']) := by
  induction ls with
  | nil => rfl
  | cons l ls ih =>
    cases ls with
    | nil => simp
    | cons l' ls =>
      rw [List.intercalate_cons_cons, List.append_assoc, ih]
      simp

/-- A line as it is noted. -/
def noteOf (line : List Char) : List Char :=
  if (withoutBreak line).isEmpty then "--".toList else "-- ".toList ++ withoutBreak line

/-- A text is noted as its lines are, one below the other. -/
theorem toList_commented (t : List Char) : (commented t).toList ++ ['\n']
    = if (lines t).isEmpty then ['\n'] else ((lines t).map noteOf).flatMap (· ++ ['\n']) := by
  have hline : ∀ line : List Char, (if (withoutBreak line).isEmpty then "--"
      else "-- " ++ String.ofList (withoutBreak line)).toList = noteOf line := by
    intro line
    unfold noteOf
    split
    · rfl
    · rw [String.toList_append]
      exact congrArg ("-- ".toList ++ ·) String.toList_ofList
  have hmap : (lines t).map (String.toList ∘ fun line => if (withoutBreak line).isEmpty then "--"
      else "-- " ++ String.ofList (withoutBreak line)) = (lines t).map noteOf :=
    List.map_congr_left fun line _ => hline line
  unfold commented
  rw [String.toList_intercalate, List.map_map, show "\n".toList = ['\n'] from rfl, intercalate_feed,
    hmap, List.isEmpty_map]

/-- What is in a text is in it as it is noted, but for its line breaks. -/
theorem mem_commented {c : Char} {t : List Char} (hc : c ∈ t) (hfeed : c ≠ '\n')
    (hreturn : c ≠ '\r') : c ∈ (commented t).toList := by
  rw [← flatten_splitAfter (· == '\n') t] at hc
  obtain ⟨line, hline, hmem⟩ := List.mem_flatten.1 hc
  obtain ⟨r, hr, hbreak⟩ := withoutBreak_cases line
  have hkept : c ∈ withoutBreak line := by
    rw [hr] at hmem
    refine (List.mem_append.1 hmem).resolve_right ?_
    rcases hbreak with rfl | rfl | rfl
    · exact List.not_mem_nil
    · simpa using hfeed
    · simpa using ⟨hreturn, hfeed⟩
  have hnoted : c ∈ noteOf line := by
    unfold noteOf
    rw [List.isEmpty_eq_false_iff.2 (List.ne_nil_of_mem hkept), if_neg Bool.false_ne_true]
    exact List.mem_append_right _ hkept
  have hall : c ∈ (commented t).toList ++ ['\n'] := by
    have hlines : (lines t).isEmpty = false := List.isEmpty_eq_false_iff.2 (List.ne_nil_of_mem hline)
    rw [toList_commented, hlines, if_neg Bool.false_ne_true]
    exact List.mem_flatMap.2 ⟨noteOf line, List.mem_map_of_mem hline,
      List.mem_append_left _ hnoted⟩
  exact (List.mem_append.1 hall).resolve_right (by simpa using hfeed)

/-- A line as it is noted is a comment. -/
theorem bare_noteOf {t line : List Char} (h : line ∈ lines t) : Bare (noteOf line) := by
  have hfeed := feed_not_mem_withoutBreak h
  unfold noteOf
  split
  · exact ⟨by decide, Or.inr ⟨[], rfl⟩⟩
  · refine ⟨?_, Or.inr ⟨' ' :: withoutBreak line, rfl⟩⟩
    rw [List.mem_append, not_or]
    exact ⟨by decide, hfeed⟩

/-- It is a marker exactly if the line is one behind the hyphens of the note. -/
theorem marker?_noteOf (line : List Char) :
    marker? (noteOf line) = marker? ("-- ".toList ++ line) := by
  obtain ⟨r, hr, hbreak⟩ := withoutBreak_cases line
  have hbreaks : Breaks r := by
    rcases hbreak with rfl | rfl | rfl
    · exact breaks_nil
    · exact breaks_feed []
    · exact breaks_cons (by decide) (by decide) (by decide) (by decide) _
  have hline : marker? ("-- ".toList ++ line) = marker? ("-- ".toList ++ withoutBreak line) := by
    conv_lhs => rw [hr]
    rw [← List.append_assoc, marker?_append hbreaks]
  rw [hline]
  unfold noteOf
  split
  · next hempty =>
    rw [List.isEmpty_iff.1 hempty]
    rfl
  · rfl

/-- A text noted line by line is made of comments. -/
theorem bare_commented (t : List Char) : Rows Bare ((commented t).toList ++ ['\n']) := by
  rw [toList_commented]
  split
  · exact silent_feed.imp fun l hl => hl.toBare
  · refine Rows.flatMap ?_
    intro l hl
    obtain ⟨line, hline, rfl⟩ := List.mem_map.1 hl
    exact bare_noteOf hline

/-- **It has a marker line exactly if a line of the text is one behind the hyphens of a
note.** -/
theorem marker_commented_iff (t : List Char) :
    (∃ l ∈ lines ((commented t).toList ++ ['\n']), marker? l ≠ none)
      ↔ ∃ line ∈ lines t, marker? ("-- ".toList ++ line) ≠ none := by
  rw [toList_commented]
  cases hls : lines t with
  | nil => simp [show lines ['\n'] = [['\n']] from rfl, show marker? ['\n'] = none from rfl]
  | cons line ls =>
    have hfeed : ∀ l ∈ (line :: ls).map noteOf, '\n' ∉ l := by
      intro l hl
      obtain ⟨line', hline', rfl⟩ := List.mem_map.1 hl
      exact (bare_noteOf (by rw [hls]; exact hline')).inline
    rw [List.isEmpty_cons, if_neg Bool.false_ne_true, lines_flatMap hfeed]
    simp only [List.mem_map, exists_exists_and_eq_and, marker?_append (breaks_feed []),
      marker?_noteOf]

/-- **A text noted line by line says nothing**, if none of its lines is a marker behind the
hyphens of the note. -/
theorem silent_commented {t : List Char} (h : Unmarked "-- ".toList ('\n' :: t)) :
    Silent ((commented t).toList ++ ['\n']) := by
  have hlines : ∀ line ∈ lines t, marker? ("-- ".toList ++ line) = none :=
    (unmarked_iff_lines rfl).1 h
  rw [toList_commented]
  split
  · exact silent_feed
  · refine Rows.flatMap ?_
    intro l hl
    obtain ⟨line, hline, rfl⟩ := List.mem_map.1 hl
    exact ⟨bare_noteOf hline, (marker?_noteOf line).trans (hlines line hline)⟩

end SchemaDrift
