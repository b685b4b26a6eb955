/-
  SchemaDrift.Proofs.Sql.Enclosing
  ────────────────────────────────
  **WHAT IS ENCLOSED CAN BE EXCHANGED.**

  A literal, a quoted identifier, a dollar-quoted block or a block comment is read from code
  up to the place where it is left again (`Encloses`), and up to any place within it
  (`EnclosedIn`).  No character of it is code, whatever is in it (`EnclosedIn.reads`,
  `Encloses.reads`); what is in front of it is read the same as long as it begins with the same
  character (`reads_same`), and what is behind it is read the same as long as it ends with the
  same one (`alike_of_last`).
-/

import SchemaDrift.Proofs.Sql.Acceptance

namespace SchemaDrift.Sql

open SchemaDrift.Text

namespace Lexer

variable {s : Lexer} {c : Char} {rest : List Char}

/-! ## §1. From code to code. -/

/-- What is ahead is left at the end of it, with `q` behind, and not before. -/
def LeftAt (s : Lexer) : List Char → List Char → Prop
  | [], _ => s.Idle
  | c :: p, q => ¬s.Idle ∧ (s.advance c (p ++ q)).2.LeftAt p q

/-- What is ahead is not left before the end of it, with `q` behind. -/
def Within (s : Lexer) : List Char → List Char → Prop
  | [], _ => True
  | c :: p, q => ¬s.Idle ∧ (s.advance c (p ++ q)).2.Within p q

/-- The text is the beginning of an enclosure, or all of it: it begins in code, with `q` behind, and
is not left before its end. -/
def EnclosedIn (s : Lexer) (what : Enclosure) : List Char → List Char → Prop
  | [], _ => False
  | c :: p, q => s.Idle ∧ (s.advance c (p ++ q)).2.mode.enclosure? = some what
      ∧ (s.advance c (p ++ q)).2.Within p q

/-- The text is an enclosure: it begins in code, with `q` behind, and is left at its end. -/
def Encloses (s : Lexer) (what : Enclosure) : List Char → List Char → Prop
  | [], _ => False
  | c :: p, q => s.Idle ∧ (s.advance c (p ++ q)).2.mode.enclosure? = some what
      ∧ (s.advance c (p ++ q)).2.LeftAt p q

instance (s : Lexer) : Decidable s.Idle :=
  decidable_of_iff (s.mode = .code ∧ s.held = 0) ⟨fun h => ⟨h.1, h.2⟩, fun h => ⟨h.1, h.2⟩⟩

instance decidableLeftAt (s : Lexer) : (p q : List Char) → Decidable (s.LeftAt p q)
  | [], _ => inferInstanceAs (Decidable s.Idle)
  | c :: p, q =>
    have := decidableLeftAt (s.advance c (p ++ q)).2 p q
    inferInstanceAs (Decidable (¬s.Idle ∧ (s.advance c (p ++ q)).2.LeftAt p q))

instance (s : Lexer) (what : Enclosure) : (p q : List Char) → Decidable (s.Encloses what p q)
  | [], _ => inferInstanceAs (Decidable False)
  | c :: p, q => inferInstanceAs (Decidable (s.Idle
      ∧ (s.advance c (p ++ q)).2.mode.enclosure? = some what
      ∧ (s.advance c (p ++ q)).2.LeftAt p q))

/-- A line comment begins in code. -/
theorem lineComment_before (h : (s.advance c rest).2.mode = .lineComment) (hidle : ¬s.Idle) :
    s.mode = .lineComment := by
  cases hn : s.held with
  | succ n =>
    rw [advance_held hn] at h
    exact h
  | zero =>
    rw [advance_decided hn] at h
    have hcode : s.mode ≠ .code := fun hm => hidle ⟨hm, hn⟩
    have hdecides := s.decides c rest
    generalize s.mode = m, s.decision c rest = d at hdecides hcode h ⊢
    cases hdecides with
    | hyphens | slashStar | openLiteral | openIdentifier | openBlock | code =>
      exact absurd rfl hcode
    | lineComment => rfl
    | _ => cases h

/-- Away from code, and in no line comment, a character has the class of what it is in. -/
theorem advance_away (hs : s.Sound (c :: rest)) (hidle : ¬s.Idle) (hline : s.mode ≠ .lineComment) :
    (s.advance c rest).1 = s.inside := by
  unfold inside
  cases hn : s.held with
  | succ n => rw [advance_held hn, if_neg (Nat.succ_ne_zero n)]
  | zero =>
    rw [advance_decided hn, if_pos rfl]
    rcases (decision_fits hs.delimiter c rest).enters with he | ⟨hm, -⟩ | ⟨hm, -⟩
    · exact he
    · exact absurd ⟨hm, hn⟩ hidle
    · exact absurd hm hline

/-- Behind such a character there is more of the same, or code again, if it can close that. -/
theorem away_next (hs : s.Sound (c :: rest)) (hidle : ¬s.Idle) (hline : s.mode ≠ .lineComment) :
    (s.advance c rest).2.inside = s.inside
      ∨ (s.advance c rest).2.Idle ∧ s.inside.closes c = true := by
  rcases advance_leaves hs with hsame | ⟨hcode, hcloses⟩
  · exact Or.inl (hsame.trans (advance_away hs hidle hline))
  · rw [advance_away hs hidle hline] at hcloses
    exact Or.inr ⟨idle_of_inside (sound_advance hs) hcode, hcloses⟩

/-- What is not left before the end is of one class. -/
theorem Within.reads {p q : List Char} (h : s.Within p q) (hs : s.Sound (p ++ q))
    (hline : s.mode ≠ .lineComment) : ∀ g ∈ s.reads p q, g.cls = s.inside := by
  induction p generalizing s with
  | nil => exact List.forall_mem_nil _
  | cons c p ih =>
    rw [List.cons_append] at hs
    obtain ⟨hidle, h⟩ := h
    have hcls := advance_away hs hidle hline
    have hreads := ih h (sound_advance hs) fun hm => hline (lineComment_before hm hidle)
    rw [reads_cons, List.forall_mem_cons]
    refine ⟨hcls, ?_⟩
    rcases away_next hs hidle hline with hsame | ⟨hcode, -⟩
    · rwa [hsame] at hreads
    · -- it is left here, so that nothing is ahead
      cases p with
      | nil => exact List.forall_mem_nil _
      | cons x p => exact absurd hcode h.1

theorem LeftAt.within {p q : List Char} (h : s.LeftAt p q) : s.Within p q := by
  induction p generalizing s with
  | nil => trivial
  | cons c p ih => exact ⟨h.1, ih h.2⟩

theorem LeftAt.idle {p q : List Char} (h : s.LeftAt p q) : (s.past p q).Idle := by
  induction p generalizing s with
  | nil => exact h
  | cons c p ih => exact ih h.2

theorem Within.front {p p' q : List Char} (h : s.Within (p ++ p') q) : s.Within p (p' ++ q) := by
  induction p generalizing s with
  | nil => trivial
  | cons c p ih =>
    rw [List.cons_append] at h
    obtain ⟨hidle, h⟩ := h
    rw [List.append_assoc] at h
    exact ⟨hidle, ih h⟩

end Lexer

/-- The class of what is enclosed. -/
def Enclosure.cls : Enclosure → CharClass
  | .blockComment => .comment
  | .literal | .identifier | .dollarBlock => .quoted

theorem Enclosure.cls_ne_code (what : Enclosure) : what.cls ≠ .code := by
  cases what with
  | literal => exact CharClass.noConfusion
  | identifier => exact CharClass.noConfusion
  | dollarBlock => exact CharClass.noConfusion
  | blockComment => exact CharClass.noConfusion

theorem Mode.cls_of_enclosure {m : Mode} {what : Enclosure} (h : m.enclosure? = some what) :
    m.cls = what.cls := by
  cases m with
  | code => cases h
  | lineComment => cases h
  | literal e => rw [← Option.some.inj h]; rfl
  | identifier => rw [← Option.some.inj h]; rfl
  | dollar d => rw [← Option.some.inj h]; rfl
  | blockComment n => rw [← Option.some.inj h]; rfl

namespace Lexer

variable {s s' : Lexer} {what : Enclosure} {p q : List Char} {c : Char}

/-- In an enclosure one is inside of its class. -/
theorem inside_of_enclosure {t : List Char} (hs : s.Sound t) (h : s.mode.enclosure? = some what) :
    s.inside = what.cls := by
  have hmode := Mode.cls_of_enclosure h
  unfold inside
  cases hn : s.held with
  | zero => exact hmode
  | succ n =>
    rw [if_neg (Nat.succ_ne_zero n)]
    rcases hs.leaves n hn with hcls | ⟨hcode, -⟩
    · exact hcls.symm.trans hmode
    · rw [hcode] at h
      cases h

namespace EnclosedIn

/-- **No character of an enclosure is code**: all are of its class. -/
theorem reads (h : s.EnclosedIn what p q) (hs : s.Sound (p ++ q)) :
    ∀ g ∈ s.reads p q, g.cls = what.cls := by
  cases p with
  | nil => cases h
  | cons c p =>
    rw [List.cons_append] at hs
    obtain ⟨-, hmode, hwithin⟩ := h
    have hsound := sound_advance hs
    have hinside := inside_of_enclosure hsound hmode
    have hline : (s.advance c (p ++ q)).2.mode ≠ .lineComment := by
      intro hm
      rw [hm] at hmode
      cases hmode
    have hreads := hwithin.reads hsound hline
    rw [hinside] at hreads
    rw [reads_cons, List.forall_mem_cons]
    refine ⟨?_, hreads⟩
    rcases advance_leaves hs with hsame | ⟨hcode, -⟩
    · exact hsame.symm.trans hinside
    · exact absurd (hinside.symm.trans hcode) what.cls_ne_code

theorem idle (h : s.EnclosedIn what p q) : s.Idle := by
  cases p with
  | nil => cases h
  | cons c p => exact h.1

/-- An enclosure begins with its opener. -/
theorem head (h : s.EnclosedIn what p q) : ∃ p', p = what.opener :: p' := by
  cases p with
  | nil => cases h
  | cons c p => exact ⟨p, by rw [opener_of_enters h.1 h.2.1]⟩

/-- The front of an enclosure is the beginning of one. -/
theorem front {p' : List Char} (h : s.EnclosedIn what (p ++ p') q) (hp : p ≠ []) :
    s.EnclosedIn what p (p' ++ q) := by
  obtain ⟨c, p, rfl⟩ := List.exists_cons_of_ne_nil hp
  rw [List.cons_append] at h
  obtain ⟨hidle, hmode, hwithin⟩ := h
  rw [List.append_assoc] at hmode hwithin
  exact ⟨hidle, hmode, hwithin.front⟩

end EnclosedIn

namespace Encloses

theorem enclosedIn (h : s.Encloses what p q) : s.EnclosedIn what p q := by
  cases p with
  | nil => cases h
  | cons c p => exact ⟨h.1, h.2.1, h.2.2.within⟩

/-- **An enclosure** is of its class, is left in code, and its last character is one that can close
it. -/
theorem reads (h : s.Encloses what p q) (hs : s.Sound (p ++ q)) :
    (∀ g ∈ s.reads p q, g.cls = what.cls) ∧ (s.past p q).Idle
      ∧ ∀ d ∈ p.getLast?, what.cls.closes d = true := by
  have hreads := h.enclosedIn.reads hs
  have hidle : (s.past p q).Idle := by
    cases p with
    | nil => cases h
    | cons c p => exact h.2.2.idle
  refine ⟨hreads, hidle, fun d hd => ?_⟩
  have hlast : ((s.reads p q).map Glyph.char).getLast? = some d := by
    rw [reads_map_char]
    exact hd
  obtain ⟨g, hg, rfl⟩ := Option.map_eq_some_iff.1 (List.getLast?_map ▸ hlast)
  have hcls := hreads g (List.mem_of_getLast? hg)
  rcases past_leaves hs hg with hsame | ⟨-, hcloses⟩
  · -- it is left in code, and is none
    rw [inside_idle hidle, hcls] at hsame
    exact absurd hsame.symm what.cls_ne_code
  · rwa [hcls] at hcloses

/-- An enclosure begins with its opener. -/
theorem head (h : s.Encloses what p q) : ∃ p', p = what.opener :: p' := h.enclosedIn.head

end Encloses

/-! ## §2. The same enclosure in another state, with another text behind. -/

theorem Alike.idle (h : s.Alike s') : s.Idle ↔ s'.Idle := by
  constructor
  · exact fun hs => ⟨h.mode.symm.trans hs.mode, h.held.symm.trans hs.held⟩
  · exact fun hs => ⟨h.mode.trans hs.mode, h.held.trans hs.held⟩

theorem Alike.leftAt (h : s.Alike s') (p q : List Char) : s.LeftAt p q ↔ s'.LeftAt p q := by
  induction p generalizing s s' with
  | nil => exact h.idle
  | cons c p ih => exact and_congr (not_congr h.idle) (ih (alike_advance h c (p ++ q)).2)

theorem Alike.encloses (h : s.Alike s') : s.Encloses what p q ↔ s'.Encloses what p q := by
  cases p with
  | nil => exact Iff.rfl
  | cons c p =>
    have hnext := (alike_advance h c (p ++ q)).2
    exact and_congr h.idle (and_congr (by rw [hnext.mode]) (hnext.leftAt p q))

theorem leftAt_same (hs : s.Delimited) (hc : isIdentChar c = false) (p l w w' : List Char) :
    s.LeftAt p (l ++ c :: w) ↔ s.LeftAt p (l ++ c :: w') := by
  induction p generalizing s with
  | nil => exact Iff.rfl
  | cons a p ih =>
    rw [LeftAt, LeftAt, advance_same hs hc a p l w w', ih (delimited_advance hs a _)]

/-- Of the text behind an enclosure only what is in front of a name's end matters. -/
theorem encloses_same (hs : s.Delimited) (hc : isIdentChar c = false) (p l w w' : List Char) :
    s.Encloses what p (l ++ c :: w) ↔ s.Encloses what p (l ++ c :: w') := by
  cases p with
  | nil => exact Iff.rfl
  | cons a p =>
    rw [Encloses, Encloses, advance_same hs hc a p l w w', leftAt_same (delimited_advance hs a _) hc]

/-- Code behind the same character is alike, unless that is a letter. -/
theorem alike_of_last (h : s.Idle) (h' : s'.Idle) (hlast : s.last = s'.last)
    (hc : s.last.any isIdentChar = false) : s.Alike s' := by
  have hescapes : ∀ {s : Lexer}, s.last.any isIdentChar = false → s.escapes = false := by
    intro s hs
    unfold escapes
    cases hl : s.last with
    | none => rfl
    | some c =>
      rw [hl] at hs
      have he : ∀ {x : Char}, isIdentChar x = true → c ≠ x := by
        rintro x hx rfl
        exact absurd (hx.symm.trans hs) (by decide)
      simp [he (x := 'e') (by decide), he (x := 'E') (by decide)]
  refine ⟨h.mode.trans h'.mode.symm, h.held.trans h'.held.symm, fun hn => absurd h.held hn, ?_,
    by rw [hlast], by rw [hlast]⟩
  rw [hescapes hc, hescapes (hlast ▸ hc)]

theorem past_last {p : List Char} {d : Char} (hd : p.getLast? = some d) (s : Lexer) (q : List Char) :
    (s.past p q).last = some d := by
  obtain ⟨front, rfl⟩ := List.getLast?_eq_some_iff.1 hd
  rw [past_concat, advance_last]

end Lexer

end SchemaDrift.Sql
