/-
  SchemaDrift.Proofs.Sql.Separator
  ────────────────────────────────
  **A TEXT IS READ IN TWO PARTS AT A SEPARATOR.**

  A separator is a character of code that is neither of a name nor a dollar sign.  What the
  automaton looks ahead for ends at it: a delimiter of a block has no such character, and the
  one character that any other token looks at is the separator itself (`Lexer.reads_same`).
  What it looks back at begins behind it: a separator is no `E`, and no delimiter is kept from
  beginning there.

      Lexer.advance_last_code the separator reads the same at the end of the text
      openingLine_behind      the line in which something is opened is one behind the separator
      classify_separates      the two parts are read by themselves
-/

import SchemaDrift.Proofs.Sql.Offsets
import SchemaDrift.Proofs.Sql.Pieces

namespace SchemaDrift.Sql

open SchemaDrift.Text
open String (utf8Len)

/-- The character between the two texts is code, neither of a name nor a dollar sign. -/
structure Separator (u : List Char) (c : Char) (v : List Char) : Prop where
  code : (classify (u ++ c :: v))[u.length]? = some ⟨c, .code⟩
  ident : isIdentChar c = false
  dollar : c ≠ '$'

namespace Lexer

/-! ## §1. A separator at the end of a text. -/

/-- **A separator reads the same at the end of the text**: two hyphens, or a slash and a star,
would have been no code. -/
theorem advance_last_code {s : Lexer} {c : Char} {rest : List Char} (hs : s.Sound (c :: rest))
    (h : (s.advance c rest).1 = .code) :
    s.advance c [] = s.advance c rest := by
  have hheld : s.held = 0 := by
    by_contra hne
    obtain ⟨n, hn⟩ := Nat.exists_eq_succ_of_ne_zero hne
    rw [advance_held hn] at h
    exact hs.held_class hne h
  rw [advance_decided hheld] at h
  rw [advance_decided hheld, advance_decided hheld,
    decision_alone hs.delimiter ((decision_fits hs.delimiter c rest).code h)]

/-! ## §2. The line in which code is left. -/

variable {s s' : Lexer}

/-- States that are alike leave code in the same lines, counted from wherever. -/
theorem openingLine_alike (h : s.Alike s') (n line opened : Nat) (t : List Char) :
    s.openingLine (line + n) (opened + n) t = s'.openingLine line opened t + n := by
  induction t generalizing s s' line opened with
  | nil => rfl
  | cons c rest ih =>
    obtain ⟨-, hnext⟩ := alike_advance h c rest
    rw [openingLine, openingLine, ← ih hnext, ← h.held, ← h.mode, ← hnext.mode]
    congr 1
    · split
      · omega
      · rfl
    · split
      · rfl
      · rfl

/-- Where a text that begins in code does not end in code, code is left in it. -/
theorem openingLine_left {t : List Char} (hcode : s.mode = .code) (hend : (s.after t).mode ≠ .code)
    (line opened opened' : Nat) : s.openingLine line opened t = s.openingLine line opened' t := by
  induction t generalizing s line opened opened' with
  | nil => exact absurd hcode hend
  | cons c rest ih =>
    rw [openingLine, openingLine]
    by_cases hstays : (s.advance c rest).2.mode = .code
    · exact ih hstays hend _ _ _
    · -- code is left right here, since what is held leaves nothing
      have hheld : s.held = 0 := by
        by_contra hne
        obtain ⟨n, hn⟩ := Nat.exists_eq_succ_of_ne_zero hne
        rw [advance_held hn] at hstays
        exact hstays hcode
      simp [hheld, hcode, hstays]

/-- The line behind a part of a text. -/
theorem openingLine_append (s : Lexer) (p q : List Char) (line opened : Nat) : ∃ opened',
    s.openingLine line opened (p ++ q) = (s.past p q).openingLine (line + lineFeeds p) opened' q := by
  induction p generalizing s line opened with
  | nil => exact ⟨opened, rfl⟩
  | cons c p ih =>
    obtain ⟨opened', hrest⟩ := ih (s.advance c (p ++ q)).2
      (if c = '\n' then line + 1 else line)
      (if s.held = 0 && s.mode = .code && (s.advance c (p ++ q)).2.mode ≠ .code then line else opened)
    refine ⟨opened', ?_⟩
    rw [List.cons_append, openingLine, past_cons, hrest]
    congr 1
    unfold lineFeeds
    by_cases hc : c = '\n'
    · rw [if_pos hc, hc, List.count_cons_self]
      omega
    · rw [if_neg hc, List.count_cons_of_ne hc]

/-- **What is open at the end of a text is opened behind the fresh code that its last part begins
with.** -/
theorem openingLine_behind {p q : List Char} (hfresh : (s.past p q).Fresh)
    (hend : (s.after (p ++ q)).mode ≠ .code) (opened : Nat) :
    s.openingLine 1 opened (p ++ q) = ({} : Lexer).openingLine 1 1 q + lineFeeds p := by
  obtain ⟨opened', hbehind⟩ := s.openingLine_append p q 1 opened
  rw [after_append] at hend
  rw [hbehind, openingLine_left hfresh.mode hend _ _ (1 + lineFeeds p),
    openingLine_alike (alike_start hfresh)]

end Lexer

/-! ## §3. The two parts. -/

/-- The classes and the state at a separator. -/
theorem Separator.reads {u : List Char} {c : Char} {v : List Char} (h : Separator u c v) :
    ({} : Lexer).reads (u ++ [c]) v = classify (u ++ [c])
      ∧ ({} : Lexer).past (u ++ [c]) v = ({} : Lexer).after (u ++ [c])
      ∧ (({} : Lexer).past (u ++ [c]) v).Fresh := by
  have hsound : (({} : Lexer).past u (c :: v)).Sound (c :: v) :=
    Lexer.sound_past (Lexer.sound_start (u ++ c :: v))
  have hcode : ((({} : Lexer).past u (c :: v)).advance c v).1 = .code := by
    have hglyph := h.code
    unfold classify at hglyph
    rw [Lexer.glyphs_append, List.getElem?_append_right (Lexer.reads_length _ _ _).le,
      Lexer.reads_length, Nat.sub_self, Lexer.glyphs, List.getElem?_cons_zero] at hglyph
    exact (Glyph.mk.inj (Option.some.inj hglyph)).2
  obtain ⟨hreads, hpast⟩ := Lexer.reads_same Lexer.delimited_start h.ident u [] v []
  rw [List.nil_append, List.nil_append] at hreads hpast
  have hlast := Lexer.advance_last_code hsound hcode
  have hfresh := Lexer.fresh_advance hsound h.ident h.dollar hcode
  unfold classify
  rw [← Lexer.reads_whole, ← Lexer.past_whole, Lexer.reads_concat, Lexer.reads_concat,
    Lexer.past_concat, Lexer.past_concat, ← hreads, ← hpast, hlast]
  exact ⟨rfl, rfl, hfresh⟩

/-- **A text is read in two parts at a separator**, and nothing is open between them. -/
theorem Separator.classify_eq {u : List Char} {c : Char} {v : List Char} (h : Separator u c v) :
    classify (u ++ c :: v) = classify (u ++ [c]) ++ classify v
      ∧ (({} : Lexer).after (u ++ [c])).Fresh
      ∧ (({} : Lexer).after (u ++ c :: v)).Alike (({} : Lexer).after v) := by
  obtain ⟨hreads, hpast, hfresh⟩ := h.reads
  obtain ⟨hbehind, halike⟩ := Lexer.alike_reads (Lexer.alike_start hfresh) v []
  rw [Lexer.reads_whole, Lexer.reads_whole] at hbehind
  rw [Lexer.past_whole, Lexer.past_whole] at halike
  have htext : u ++ c :: v = u ++ [c] ++ v := List.append_cons u c v
  refine ⟨?_, hpast ▸ hfresh, ?_⟩
  · calc classify (u ++ c :: v)
        = ({} : Lexer).reads (u ++ [c]) v ++ (({} : Lexer).past (u ++ [c]) v).glyphs v := by
          rw [htext]
          exact Lexer.glyphs_append _ _ _
      _ = classify (u ++ [c]) ++ classify v := by rw [hreads, hbehind]; rfl
  · rw [htext, Lexer.after_append]
    exact halike

/-- What is open at the end of a text is open at the end of what follows a separator, and was
opened there. -/
theorem Separator.unclosed?_eq {u : List Char} {c : Char} {v : List Char} (h : Separator u c v) :
    unclosed? (u ++ c :: v)
      = (unclosed? v).map fun (what, line) => (what, line + lineFeeds (u ++ [c])) := by
  obtain ⟨-, -, halike⟩ := h.classify_eq
  unfold unclosed?
  rw [halike.mode]
  cases hopen : (({} : Lexer).after v).mode.enclosure? with
  | none => rfl
  | some what =>
    have hend : (({} : Lexer).after (u ++ [c] ++ v)).mode ≠ .code := by
      intro hcode
      rw [← List.append_cons, halike.mode] at hcode
      rw [hcode] at hopen
      cases hopen
    have hline := Lexer.openingLine_behind h.reads.2.2 hend 1
    rw [List.append_cons, Option.map_some, Option.map_some, Option.map_some, hline]

/-- **Reading is compositional at separators.**  The classes of a text are those of all its
characters, once each and in order, with their byte offsets.  Where a character of code that is
neither of a name nor a dollar sign ends a part of a text, both parts have the classes that they
have by themselves, the second behind the first; nothing is open at the end of the first, and what
is open at the end of the text is what is open at the end of the second, and was opened there. -/
theorem classify_separates :
    (∀ t : List Char, (classifyAt t).map (·.2.char) = t ∧ ∀ front c behind,
        t = front ++ c :: behind → ∃ cls, (classifyAt t)[front.length]?
          = some ((String.ofList front).utf8ByteSize, ⟨c, cls⟩))
      ∧ ∀ (u : List Char) (c : Char) (v : List Char), Separator u c v →
        classifyAt (u ++ c :: v) = classifyAt (u ++ [c])
            ++ (classifyAt v).map (fun p => ((String.ofList (u ++ [c])).utf8ByteSize + p.1, p.2))
          ∧ unclosed? (u ++ [c]) = none
          ∧ unclosed? (u ++ c :: v)
            = (unclosed? v).map fun (what, line) => (what, line + lineFeeds (u ++ [c])) := by
  refine ⟨classifyAt_complete, fun u c v h => ?_⟩
  obtain ⟨hclassify, hfresh, -⟩ := h.classify_eq
  refine ⟨?_, ?_, h.unclosed?_eq⟩
  · unfold classifyAt
    rw [hclassify, placed_append, Nat.zero_add, size_classify, String.utf8ByteSize_ofList,
      ← placed_shift, Nat.add_zero]
  · rw [unclosed?_eq_none, hfresh.mode]
    rfl

/-- The line feed behind a line comment: delimiters begin in front of it, in a comment and in a
block, and behind it, and a comment that is opened there is never closed. -/
theorem classify_separates_feed :
    let u := "SELECT $a$;$é$a$, E'\\'' -- $b$".toList
    let v := "$b$é$b$ /* $b$ - /* */".toList
    Separator u '\n' v
      ∧ classifyAt (u ++ '\n' :: v) = classifyAt (u ++ ['\n'])
          ++ (classifyAt v).map (fun p => ((String.ofList (u ++ ['\n'])).utf8ByteSize + p.1, p.2))
      ∧ unclosed? (u ++ ['\n']) = none
      ∧ unclosed? (u ++ '\n' :: v) = some (.blockComment, 2) := by
  have h : Separator "SELECT $a$;$é$a$, E'\\'' -- $b$".toList '\n'
      "$b$é$b$ /* $b$ - /* */".toList :=
    ⟨by decide +kernel, by decide +kernel, by decide⟩
  obtain ⟨hclassify, hfirst, hsecond⟩ := classify_separates.2 _ _ _ h
  refine ⟨h, hclassify, hfirst, hsecond.trans ?_⟩
  decide +kernel

/-- An `E` and a dollar sign are no separators, although they are code here: what follows is read
otherwise by itself. -/
example : classify "E'\\'';".toList ≠ classify "E".toList ++ classify "'\\'';".toList
    ∧ classify "a$$b$".toList ≠ classify "a$".toList ++ classify "$b$".toList := by
  decide +kernel

end SchemaDrift.Sql
