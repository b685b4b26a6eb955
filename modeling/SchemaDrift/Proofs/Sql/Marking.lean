/-
  SchemaDrift.Proofs.Sql.Marking
  ──────────────────────────────
  **WHERE A MARKER LINE CAN COME FROM.**

  A line is recognized as a marker by what it begins with.  A text that is put behind it
  makes no marker of it, nor hides one, if it begins with something that no marker goes on
  with (`Breaks`).

      marker?_append       what breaks a line may be put behind it
      marker?_extend       a marker stays one in front of the end of a word
      Unmarked             behind no line feed of the text a marker begins
      Unmarked.append      texts without markers, the second of which breaks the first
      unmarked_iff_lines   a text without markers, line by line
-/

import SchemaDrift.Proofs.Text.Blank
import SchemaDrift.Proofs.Text.Lines
import SchemaDrift.Sql.Split

namespace SchemaDrift.Sql

open SchemaDrift.Text

/-! ## §1. Taking a text off the front. -/

theorem literally?_eq_some {k s r : List Char} : literally? k s = some r ↔ s = k ++ r := by
  induction k generalizing s with
  | nil =>
    rw [literally?, List.nil_append]
    exact ⟨fun h => Option.some.inj h, fun h => congrArg some h⟩
  | cons x k ih =>
    cases s with
    | nil => simp [literally?]
    | cons c s =>
      rw [literally?]
      by_cases hc : c = x
      · rw [if_pos hc, ih, hc]
        simp
      · rw [if_neg hc]
        simp [hc]

/-- A text that begins with none of the characters looked for changes nothing. -/
theorem literally?_append {k q : List Char} (h : ∀ c ∈ q.head?, c ∉ k) (p : List Char) :
    literally? k (p ++ q) = (literally? k p).map (· ++ q) := by
  induction k generalizing p with
  | nil => rfl
  | cons x k ih =>
    cases p with
    | nil =>
      cases q with
      | nil => rfl
      | cons c q =>
        have hc : c ∉ x :: k := h c rfl
        rw [List.mem_cons, not_or] at hc
        simp [literally?, hc.1]
    | cons c p =>
      rw [List.cons_append, literally?, literally?]
      by_cases hc : c = x
      · rw [if_pos hc, if_pos hc]
        exact ih (fun d hd hmem => h d hd (List.mem_cons_of_mem _ hmem)) p
      · rw [if_neg hc, if_neg hc]
        rfl

/-! ## §2. The parts of a marker. -/

/-- Takes the indent, and the text behind it, off the front. -/
def indented? (k s : List Char) : Option (List Char) := literally? k (s.dropWhile isIndent)

/-- A marker is three indented texts, the last of which ends a word. -/
theorem marker?_eq (line : List Char) :
    marker? line
      = ((indented? "--".toList line).bind (indented? "sqlsync:".toList)).bind fun rest =>
      if (indented? Marker.start.word.toList rest).any atWordEnd then some .start
      else if (indented? Marker.finish.word.toList rest).any atWordEnd then some .finish
      else none := by
  unfold marker? Marker.isAt indented?
  cases literally? "--".toList (line.dropWhile isIndent) with
  | none => rfl
  | some rest => rfl

/-- No marker goes on with the text: neither does its first character belong to the parts of
one, nor does one of the parts begin behind its indent. -/
def Breaks (q : List Char) : Prop :=
  (∀ c ∈ q.head?, isWordChar c = false ∧ c ≠ '-' ∧ c ≠ ':')
    ∧ ∀ c ∈ (q.dropWhile isIndent).head?, c ≠ '-' ∧ c ≠ 's' ∧ c ≠ 'e'

theorem breaks_nil : Breaks [] := ⟨by simp, by simp⟩

/-- A character that is of no marker breaks the line. -/
theorem breaks_cons {c : Char} (hword : isWordChar c = false) (hindent : isIndent c = false)
    (hc : c ≠ '-') (hc' : c ≠ ':') (q : List Char) : Breaks (c :: q) := by
  refine ⟨fun d hd => ?_, fun d hd => ?_⟩
  · cases hd
    exact ⟨hword, hc, hc'⟩
  · rw [List.dropWhile_cons, hindent] at hd
    cases hd
    refine ⟨hc, ?_, ?_⟩
    · rintro rfl
      exact absurd hword (by decide)
    · rintro rfl
      exact absurd hword (by decide)

/-- So does a space with something behind it that begins no part of a marker. -/
theorem breaks_space {c : Char} (hindent : isIndent c = false) (hc : c ≠ '-' ∧ c ≠ 's' ∧ c ≠ 'e')
    (q : List Char) : Breaks (' ' :: c :: q) := by
  refine ⟨fun d hd => ?_, fun d hd => ?_⟩
  · cases hd
    decide
  · rw [List.dropWhile_cons, if_pos (by decide), List.dropWhile_cons, hindent] at hd
    cases hd
    exact hc

theorem breaks_feed (q : List Char) : Breaks ('\n' :: q) :=
  breaks_cons (by decide) (by decide) (by decide) (by decide) q

/-- The parts of a marker, behind a text that breaks it. -/
theorem indented?_append {q : List Char} (hq : Breaks q) {x : Char} {k : List Char}
    (hx : x = '-' ∨ x = 's' ∨ x = 'e')
    (hk : ∀ c ∈ x :: k, isWordChar c = true ∨ c = '-' ∨ c = ':') (p : List Char) :
    indented? (x :: k) (p ++ q) = (indented? (x :: k) p).map (· ++ q) := by
  unfold indented?
  rw [List.dropWhile_append]
  by_cases hp : (p.dropWhile isIndent).isEmpty = true
  · rw [if_pos hp, List.isEmpty_iff.1 hp]
    cases hd : q.dropWhile isIndent with
    | nil => rfl
    | cons c r =>
      have hc := hq.2 c (by rw [hd]; rfl)
      have hne : c ≠ x := by
        rintro rfl
        rcases hx with h | h | h
        · exact hc.1 h
        · exact hc.2.1 h
        · exact hc.2.2 h
      simp [literally?, hne]
  · rw [if_neg hp]
    refine literally?_append (fun c hc hmem => ?_) _
    obtain ⟨hword, hhyphen, hcolon⟩ := hq.1 c hc
    rcases hk c hmem with h | h | h
    · rw [hword] at h
      cases h
    · exact hhyphen h
    · exact hcolon h

theorem atWordEnd_append {q : List Char} (hq : atWordEnd q = true) (r : List Char) :
    atWordEnd (r ++ q) = atWordEnd r := by
  cases r with
  | nil => exact hq
  | cons c r => rfl

theorem atWordEnd_of_breaks {q : List Char} (hq : Breaks q) : atWordEnd q = true := by
  cases q with
  | nil => rfl
  | cons c q =>
    have hc := (hq.1 c rfl).1
    show (!isWordChar c) = true
    rw [hc]
    rfl

/-- **What breaks a line may be put behind it.** -/
theorem marker?_append {q : List Char} (hq : Breaks q) (p : List Char) :
    marker? (p ++ q) = marker? p := by
  have hword : ∀ m : Marker, ∀ r, (indented? m.word.toList (r ++ q)).any atWordEnd
      = (indented? m.word.toList r).any atWordEnd := by
    intro m r
    have happend : indented? m.word.toList (r ++ q) = (indented? m.word.toList r).map (· ++ q) := by
      cases m with
      | start => exact indented?_append hq (by decide) (forall_chars (by decide)) r
      | finish => exact indented?_append hq (by decide) (forall_chars (by decide)) r
    rw [happend]
    cases indented? m.word.toList r with
    | none => rfl
    | some x => exact atWordEnd_append (atWordEnd_of_breaks hq) x
  have hhyphens : indented? "--".toList (p ++ q) = (indented? "--".toList p).map (· ++ q) :=
    indented?_append hq (by decide) (forall_chars (by decide)) p
  have hsqlsync : ∀ r, indented? "sqlsync:".toList (r ++ q)
      = (indented? "sqlsync:".toList r).map (· ++ q) :=
    fun r => indented?_append hq (by decide) (forall_chars (by decide)) r
  rw [marker?_eq, marker?_eq, hhyphens]
  cases indented? "--".toList p with
  | none => rfl
  | some r =>
    rw [Option.map_some, Option.bind_some, Option.bind_some, hsqlsync]
    cases indented? "sqlsync:".toList r with
    | none => rfl
    | some r =>
      rw [Option.map_some, Option.bind_some, Option.bind_some, hword, hword]

/-- White space breaks a line. -/
theorem breaks_blanks {b : List Char} (hb : ∀ c ∈ b, isBlank c = true) : Breaks b := by
  have hne : ∀ c ∈ b, ∀ x, isBlank x = false → c ≠ x := by
    intro c hc x hx
    rintro rfl
    rw [hb c hc] at hx
    cases hx
  refine ⟨fun c hc => ?_, fun c hc => ?_⟩
  · have hmem := List.mem_of_mem_head? hc
    exact ⟨isWordChar_of_isBlank (hb c hmem), hne c hmem _ (by decide), hne c hmem _ (by decide)⟩
  · have hmem := (List.dropWhile_sublist _).mem (List.mem_of_mem_head? hc)
    exact ⟨hne c hmem _ (by decide), hne c hmem _ (by decide), hne c hmem _ (by decide)⟩

/-- So white space at the end makes no difference. -/
theorem marker?_trimEnd (s : List Char) : marker? (Text.trimEnd s) = marker? s := by
  obtain ⟨r, hr, hblank⟩ := exists_trimmed isBlank s
  have h := marker?_append (breaks_blanks hblank) (Text.trimEnd s)
  rw [show Text.trimEnd s ++ r = s from hr.symm] at h
  exact h.symm

/-- More of an indent makes no difference either. -/
theorem marker?_indent {i : List Char} (hi : ∀ c ∈ i, isIndent c = true) (v : List Char) :
    marker? (i ++ v) = marker? v := by
  unfold marker?
  rw [List.dropWhile_append_of_pos hi]

/-- A part that is found is found whatever follows. -/
theorem indented?_extend {k p r : List Char} (hk : k ≠ []) (h : indented? k p = some r)
    (q : List Char) : indented? k (p ++ q) = some (r ++ q) := by
  unfold indented? at h ⊢
  have hp := literally?_eq_some.1 h
  have hne : (p.dropWhile isIndent).isEmpty = false := by
    cases hd : p.dropWhile isIndent with
    | nil =>
      rw [hd] at hp
      exact absurd (List.append_eq_nil_iff.1 hp.symm).1 hk
    | cons c t => rfl
  rw [List.dropWhile_append, hne, if_neg Bool.false_ne_true, literally?_eq_some, hp,
    List.append_assoc]

/-- A line is a marker exactly if its parts are found one behind the other. -/
theorem marker?_ne_none {v : List Char} : marker? v ≠ none ↔ ∃ first rest m r,
    indented? "--".toList v = some first ∧ indented? "sqlsync:".toList first = some rest
      ∧ indented? (Marker.word m).toList rest = some r ∧ atWordEnd r = true := by
  rw [marker?_eq]
  constructor
  · intro h
    obtain ⟨m, hm⟩ := Option.ne_none_iff_exists'.1 h
    obtain ⟨rest, hrest, hm⟩ := Option.bind_eq_some_iff.1 hm
    obtain ⟨first, hfirst, hsecond⟩ := Option.bind_eq_some_iff.1 hrest
    -- one of the two words follows the prefix
    have hword : ∃ m : Marker, (indented? m.word.toList rest).any atWordEnd = true := by
      split at hm
      · exact ⟨.start, by assumption⟩
      · split at hm
        · exact ⟨.finish, by assumption⟩
        · cases hm
    obtain ⟨m, hany⟩ := hword
    obtain ⟨r, hr, hend⟩ := (Option.any_eq_true _ _).1 hany
    exact ⟨first, rest, m, r, hfirst, hsecond, hr, hend⟩
  · rintro ⟨first, rest, m, r, hfirst, hrest, hr, hend⟩
    have hany : (indented? m.word.toList rest).any atWordEnd = true := by
      rw [hr]
      exact hend
    rw [hfirst, Option.bind_some, hrest, Option.bind_some]
    cases m with
    | start =>
      rw [if_pos hany]
      exact Option.some_ne_none _
    | finish =>
      split
      · exact Option.some_ne_none _
      · exact Option.some_ne_none _

/-- A marker stays one in front of the end of a word. -/
theorem marker?_extend {p q : List Char} (hp : marker? p ≠ none) (hq : atWordEnd q = true) :
    marker? (p ++ q) ≠ none := by
  obtain ⟨first, rest, m, r, hfirst, hrest, hr, hend⟩ := marker?_ne_none.1 hp
  refine marker?_ne_none.2 ⟨first ++ q, rest ++ q, m, r ++ q, indented?_extend (by decide) hfirst q,
    indented?_extend (by decide) hrest q, indented?_extend ?_ hr q, ?_⟩
  · cases m
    · decide
    · decide
  · rw [atWordEnd_append hq]
    exact hend

/-- The characters that a marker is written with. -/
def isMarkerChar (c : Char) : Bool := isIndent c || c.isAlpha || c == ':' || c == '-'

/-- **What a marker looks like**: two hyphens behind an indent and characters of markers behind
them up to a `t`, which are a marker by themselves, and then the end of a word. -/
theorem marker?_front {v : List Char} (h : marker? v ≠ none) :
    ∃ i w r, v = i ++ '-' :: '-' :: (w ++ r) ∧ (∀ c ∈ i, isIndent c = true)
      ∧ (∀ c ∈ w, isMarkerChar c = true) ∧ w.getLast? = some 't'
      ∧ marker? (i ++ '-' :: '-' :: w) ≠ none ∧ atWordEnd r = true := by
  have hpart : ∀ {k s r : List Char}, indented? k s = some r →
      ∃ i, s = i ++ (k ++ r) ∧ ∀ c ∈ i, isIndent c = true := by
    intro k s r h
    refine ⟨s.takeWhile isIndent, ?_, fun c hc => List.all_eq_true.1 List.all_takeWhile c hc⟩
    rw [← literally?_eq_some.1 h, List.takeWhile_append_dropWhile]
  -- a part behind an indent is found
  have hfound : ∀ {i k r : List Char} {c : Char}, (∀ c ∈ i, isIndent c = true) →
      k.head? = some c → isIndent c = false → indented? k (i ++ (k ++ r)) = some r := by
    intro i k r c hi hk hc
    cases k with
    | nil => cases hk
    | cons d k =>
      obtain rfl := Option.some.inj hk
      unfold indented?
      rw [List.dropWhile_append_of_pos hi, literally?_eq_some]
      exact List.dropWhile_cons_of_neg (by rw [hc]; exact Bool.false_ne_true)
  obtain ⟨first, rest, m, r, hfirst, hrest, hr, hend⟩ := marker?_ne_none.1 h
  obtain ⟨i, rfl, hi⟩ := hpart hfirst
  obtain ⟨i', rfl, hi'⟩ := hpart hrest
  obtain ⟨i'', rfl, hi''⟩ := hpart hr
  refine ⟨i, i' ++ ("sqlsync:".toList ++ (i'' ++ m.word.toList)), r, by simp, hi, ?_, ?_, ?_, hend⟩
  · have hindent : ∀ l : List Char, (∀ c ∈ l, isIndent c = true) →
        ∀ c ∈ l, isMarkerChar c = true := by
      intro l hl c hc
      unfold isMarkerChar
      rw [hl c hc]
      rfl
    have hname : ∀ c ∈ "sqlsync:".toList, isMarkerChar c = true := forall_chars (by decide)
    have hword : ∀ m : Marker, ∀ c ∈ m.word.toList, isMarkerChar c = true := by
      intro m
      cases m
      · exact forall_chars (by decide)
      · exact forall_chars (by decide)
    intro c hc
    rcases List.mem_append.1 hc with hc | hc
    · exact hindent i' hi' c hc
    · rcases List.mem_append.1 hc with hc | hc
      · exact hname c hc
      · rcases List.mem_append.1 hc with hc | hc
        · exact hindent i'' hi'' c hc
        · exact hword m c hc
  · rw [← List.append_assoc, ← List.append_assoc, List.getLast?_append]
    cases m
    · rfl
    · rfl
  · refine marker?_ne_none.2 ⟨i' ++ ("sqlsync:".toList ++ (i'' ++ m.word.toList)),
      i'' ++ m.word.toList, m, [], ?_, ?_, ?_, rfl⟩
    · exact hfound hi rfl (by decide)
    · exact hfound hi' rfl (by decide)
    · cases m with
      | start =>
        have hword := hfound (k := Marker.start.word.toList) (r := []) hi'' rfl (by decide)
        rwa [List.append_nil] at hword
      | finish =>
        have hword := hfound (k := Marker.finish.word.toList) (r := []) hi'' rfl (by decide)
        rwa [List.append_nil] at hword

/-- If something follows a marker, more of it makes no difference. -/
theorem marker?_shape {v : List Char} (h : marker? v ≠ none) :
    ∃ i w r, v = i ++ '-' :: '-' :: (w ++ r) ∧ (∀ c ∈ i, isIndent c = true)
      ∧ (∀ c ∈ w, isMarkerChar c = true) ∧ w.getLast? = some 't'
      ∧ (r ≠ [] → ∀ q, marker? (v ++ q) ≠ none) := by
  obtain ⟨i, w, r, rfl, hi, hw, hlast, hmarker, hend⟩ := marker?_front h
  refine ⟨i, w, r, rfl, hi, hw, hlast, fun hr q => ?_⟩
  rw [show i ++ '-' :: '-' :: (w ++ r) ++ q = (i ++ '-' :: '-' :: w) ++ (r ++ q) by simp]
  refine marker?_extend hmarker ?_
  cases r with
  | nil => exact absurd rfl hr
  | cons c r => exact hend

/-! ## §3. Texts without markers. -/

/-- Behind no line feed of the text a marker begins, `lead` being put in front of the line. -/
def Unmarked (lead t : List Char) : Prop :=
  ∀ u v, t = u ++ '\n' :: v → marker? (lead ++ v) = none

theorem unmarked_of_not_mem {lead t : List Char} (h : '\n' ∉ t) : Unmarked lead t := by
  rintro u v rfl
  exact absurd (by simp) h

/-- An ending of a text without markers is one. -/
theorem Unmarked.right {lead a b : List Char} (h : Unmarked lead (a ++ b)) : Unmarked lead b := by
  rintro u v rfl
  exact h (a ++ u) v (by rw [List.append_assoc])

/-- So is what stands in front of the end of a word. -/
theorem Unmarked.left {lead a b : List Char} (h : Unmarked lead (a ++ b))
    (hb : atWordEnd b = true) : Unmarked lead a := by
  rintro u v rfl
  by_contra hv
  have hmarker := marker?_extend hv hb
  rw [List.append_assoc] at hmarker
  exact hmarker (h u (v ++ b) (by simp))

/-- A text without markers behind one with line feeds, none of which makes a marker with it. -/
theorem Unmarked.of_feeds {lead a b : List Char} (hb : Unmarked lead b)
    (ha : ∀ u c, a = u ++ '\n' :: c → marker? (lead ++ (c ++ b)) = none) :
    Unmarked lead (a ++ b) := by
  intro u v huv
  rcases List.append_eq_append_iff.1 huv with ⟨c, rfl, hbc⟩ | ⟨c, rfl, hc⟩
  · exact hb c v hbc
  · cases c with
    | nil => exact hb [] v hc.symm
    | cons d c =>
      obtain ⟨rfl, rfl⟩ := List.cons.inj hc
      exact ha u c rfl

/-- Two texts without markers, the second of which breaks lines. -/
theorem Unmarked.append {lead a b : List Char} (ha : Unmarked lead a) (hbreaks : Breaks b)
    (hb : Unmarked lead b) : Unmarked lead (a ++ b) := by
  refine hb.of_feeds fun u c hc => ?_
  rw [← List.append_assoc, marker?_append hbreaks]
  exact ha u c hc

/-- A text without markers behind one of one line. -/
theorem Unmarked.behind {lead a b : List Char} (ha : '\n' ∉ a) (hb : Unmarked lead b) :
    Unmarked lead (a ++ b) := by
  refine hb.of_feeds fun u c hc => absurd ?_ ha
  rw [hc]
  exact List.mem_append_right _ List.mem_cons_self

/-- A text behind a line feed, its first line included. -/
theorem unmarked_feed {lead t : List Char} :
    Unmarked lead ('\n' :: t) ↔ marker? (lead ++ t) = none ∧ Unmarked lead t := by
  constructor
  · intro h
    exact ⟨h [] t rfl, Unmarked.right (a := ['\n']) h⟩
  · rintro ⟨hfirst, hrest⟩ u v huv
    cases u with
    | nil =>
      rw [← (List.cons.inj huv).2]
      exact hfirst
    | cons c u => exact hrest u v (List.cons.inj huv).2

/-- **A text makes no marker exactly if none of its lines is one.** -/
theorem unmarked_iff_lines {lead : List Char} (hlead : marker? lead = none) {t : List Char} :
    Unmarked lead ('\n' :: t) ↔ ∀ l ∈ lines t, marker? (lead ++ l) = none := by
  rw [unmarked_feed]
  induction t using lines_rec with
  | nil =>
    have hfirst : marker? (lead ++ []) = none ∧ Unmarked lead [] :=
      ⟨by rw [List.append_nil, hlead], unmarked_of_not_mem (by simp)⟩
    simpa using hfirst
  | last a hfeed hne =>
    rw [lines_last hfeed hne, List.forall_mem_singleton]
    exact ⟨fun h => h.1, fun h => ⟨h, unmarked_of_not_mem hfeed⟩⟩
  | line a b hfeed ih =>
    have hfirst : ∀ c, marker? (lead ++ (a ++ '\n' :: c)) = marker? (lead ++ a) := by
      intro c
      rw [← List.append_assoc, marker?_append (breaks_feed c)]
    rw [lines_line hfeed, List.forall_mem_cons, hfirst b, hfirst []]
    refine and_congr_right fun _ => ?_
    rw [← ih, ← unmarked_feed]
    exact ⟨Unmarked.right, (unmarked_of_not_mem hfeed).append (breaks_feed b)⟩

/-- Lines that are no markers stand in front of the first mark. -/
theorem marksFrom_lines {ms : List (List Char)} (hms : ∀ l ∈ ms, marker? l = none)
    (rs : List (List Char)) (number : Nat) : marksFrom number (ms ++ rs)
      = (ms.flatten ++ (marksFrom (number + ms.length) rs).1,
          (marksFrom (number + ms.length) rs).2) := by
  induction ms generalizing number with
  | nil => rfl
  | cons l ms ih =>
    obtain ⟨hl, hms⟩ := List.forall_mem_cons.1 hms
    rw [List.cons_append, marksFrom, ih hms]
    dsimp only
    rw [hl, List.flatten_cons, List.length_cons, List.append_assoc,
      show number + 1 + ms.length = number + (ms.length + 1) by omega]

/-- Without white space at the end there is no marker in it either. -/
theorem Unmarked.trimEnd {lead t : List Char} (h : Unmarked lead ('\n' :: t)) :
    Unmarked lead ('\n' :: Text.trimEnd t) := by
  obtain ⟨r, hr, hblank⟩ := exists_trimmed isBlank t
  have hsplit : '\n' :: t = ('\n' :: Text.trimEnd t) ++ r := congrArg ('\n' :: ·) hr
  rw [hsplit] at h
  exact h.left (atWordEnd_of_blanks hblank)

/-- No marker begins behind a line feed of the text. -/
def MarkerFree (s : String) : Prop := Unmarked [] s.toList

theorem markerFree_of_inline {s : String} (h : Inline s) : MarkerFree s := unmarked_of_not_mem h

/-- A text behind one of one line. -/
theorem markerFree_behind {a b : String} (ha : Inline a) (hb : MarkerFree b) :
    MarkerFree (a ++ b) := by
  unfold MarkerFree
  rw [String.toList_append]
  exact Unmarked.behind ha hb

/-- The text may be put behind any line and makes no marker of it. -/
structure Part (s : String) : Prop where
  breaks : Breaks s.toList
  free : MarkerFree s

/-- A part behind a text. -/
theorem markerFree_append {a b : String} (ha : MarkerFree a) (hb : Part b) :
    MarkerFree (a ++ b) := by
  unfold MarkerFree
  rw [String.toList_append]
  exact ha.append hb.breaks hb.free

theorem part_of_inline {s : String} (hbreaks : Breaks s.toList) (h : Inline s) : Part s :=
  ⟨hbreaks, markerFree_of_inline h⟩

theorem part_empty : Part "" := part_of_inline breaks_nil (by decide)

/-- The text is a space and a word that no part of a marker begins with. -/
def IsSpaced (k : String) : Prop :=
  ∃ c q, k.toList = ' ' :: c :: q ∧ isIndent c = false ∧ c ≠ '-' ∧ c ≠ 's' ∧ c ≠ 'e'

theorem IsSpaced.append {k : String} (hk : IsSpaced k) (e : String) : IsSpaced (k ++ e) := by
  obtain ⟨c, q, hlist, hc⟩ := hk
  refine ⟨c, q ++ e.toList, ?_, hc⟩
  rw [String.toList_append, hlist]
  rfl

/-- A word behind a space, and what follows it. -/
theorem part_spaced {k e : String} (hk : IsSpaced k) (hinline : Inline k) (he : MarkerFree e) :
    Part (k ++ e) := by
  obtain ⟨c, q, hlist, hindent, hc⟩ := hk
  refine ⟨?_, markerFree_behind hinline he⟩
  rw [String.toList_append, hlist, List.cons_append, List.cons_append]
  exact breaks_space hindent hc _

theorem part_word {k : String} (hk : IsSpaced k) (hinline : Inline k) : Part k := by
  have h := part_spaced hk hinline (e := "") (markerFree_of_inline (by decide))
  rwa [String.append_empty] at h

end SchemaDrift.Sql
