/-
  SchemaDrift.Proofs.Sql.Parting
  ──────────────────────────────
  **A TEXT COMES APART WHERE CODE GOES ON.**

  A part of a text behind which code goes on is read as a text of its own, whatever is behind
  it: a token that is over within the part is decided by the part alone (`decision_within`,
  `reads_part`).  What follows is read afresh, unless its first character looks back at the
  part (`glyphs_behind`).

  The last character of a text can be cut off in any case, and changes the class of no other
  (`reads_dropLast`).
-/

import SchemaDrift.Proofs.Sql.Layout

namespace SchemaDrift.Sql

open SchemaDrift.Text

namespace Lexer

/-! ## §1. A token that is over within a part. -/

/-- A delimiter that is over within a part is one of the part. -/
theorem delimiter?_within {s : Lexer} {p q : List Char}
    (h : ∀ d, s.delimiter? (p ++ q) = some d → d.length - 1 ≤ p.length) :
    s.delimiter? (p ++ q) = s.delimiter? p := by
  cases hwhole : s.delimiter? (p ++ q) with
  | some d =>
    have hlen := h d hwhole
    obtain ⟨hlast, name, behind, htext, hname, hdigit, rfl⟩ := delimiter?_eq_some_iff.1 hwhole
    rw [← List.singleton_append, ← List.append_assoc] at htext
    have hle : (name ++ ['$']).length ≤ p.length := by simpa using hlen
    obtain ⟨behind', hp⟩ : (name ++ ['$']) <+: p := by
      refine List.prefix_of_prefix_length_le ⟨behind, htext.symm⟩ (List.prefix_append p q) hle
    exact (delimiter?_eq_some_iff.2 ⟨hlast, name, behind', by rw [← hp]; simp, hname, hdigit,
      rfl⟩).symm
  | none =>
    cases hpart : s.delimiter? p with
    | none => rfl
    | some d =>
      obtain ⟨hlast, name, behind, rfl, hname, hdigit, rfl⟩ := delimiter?_eq_some_iff.1 hpart
      rw [delimiter?_eq_some_iff.2 ⟨hlast, name, behind ++ q, by simp, hname, hdigit, rfl⟩] at hwhole
      cases hwhole

/-- **A token that is over within a part is decided by the part alone.** -/
theorem decision_within {s : Lexer} (hs : s.Delimited) {c : Char} {p q : List Char}
    (h : (s.decision c (p ++ q)).more ≤ p.length) : s.decision c (p ++ q) = s.decision c p := by
  cases p with
  | nil => exact decision_alone hs (Nat.le_zero.1 h)
  | cons x p =>
    refine decision_congr rfl rfl (fun _ _ => rfl) (fun hm hc => ?_) fun d hm => ?_
    · -- a delimiter that begins here is of the part
      refine delimiter?_within fun d hd => ?_
      rw [decision_eq (.openBlock hc hd) hm] at h
      exact h
    · refine ⟨fun hd => ?_, fun hd => hd.trans (List.prefix_append (c :: x :: p) q)⟩
      rw [decision_eq (.closeBlock hd) hm] at h
      refine List.prefix_of_prefix_length_le hd (List.prefix_append (c :: x :: p) q) ?_
      rw [List.length_cons]
      dsimp only at h
      omega

theorem advance_within {s : Lexer} (hs : s.Delimited) {c : Char} {p q : List Char}
    (h : s.held = 0 → (s.decision c (p ++ q)).more ≤ p.length) :
    s.advance c (p ++ q) = s.advance c p :=
  advance_congr fun hn => decision_within hs (h hn)

/-- What is held behind a part that is shorter. -/
theorem past_held {s : Lexer} {p : List Char} (h : p.length ≤ s.held) (q : List Char) :
    (s.past p q).held = s.held - p.length ∧ (s.past p q).mode = s.mode := by
  induction p generalizing s with
  | nil => exact ⟨rfl, rfl⟩
  | cons c p ih =>
    rw [List.length_cons] at h
    obtain ⟨n, hn⟩ : ∃ n, s.held = n + 1 := ⟨s.held - 1, by omega⟩
    rw [past_cons, advance_held hn]
    obtain ⟨hheld, hmode⟩ :=
      ih (s := ⟨s.mode, n, s.heldClass, some c, s.last⟩) (by dsimp only; omega)
    refine ⟨?_, hmode⟩
    rw [hheld, hn, List.length_cons]
    dsimp only
    omega

/-- **A part behind which code goes on is read as a text of its own.** -/
theorem reads_part {s : Lexer} (hs : s.Delimited) {p q : List Char} (h : (s.past p q).Idle) :
    s.reads p q = s.glyphs p ∧ s.past p q = s.after p := by
  induction p generalizing s with
  | nil => exact ⟨rfl, rfl⟩
  | cons c p ih =>
    rw [past_cons] at h
    have hadvance : s.advance c (p ++ q) = s.advance c p := by
      refine advance_within hs fun hn => ?_
      by_contra hmore
      -- otherwise some of the token is held behind the part
      rw [advance_decided hn] at h
      dsimp only at h
      have hheld := (past_held (p := p) (s := ⟨(s.decision c (p ++ q)).mode,
        (s.decision c (p ++ q)).more, (s.decision c (p ++ q)).cls, some c, s.last⟩)
        (Nat.le_of_lt (Nat.lt_of_not_le hmore)) q).1
      rw [h.held] at hheld
      dsimp only at hheld
      omega
    obtain ⟨hreads, hpast⟩ := ih (delimited_advance hs c (p ++ q)) h
    rw [reads_cons, past_cons, glyphs, after, hreads, hpast, hadvance]
    exact ⟨rfl, rfl⟩

/-! ## §2. What follows. -/

/-- What the character does not look back at: it begins no literal behind an `E`, no block
behind a name or a dollar sign, and no word behind another. -/
structure LooksAhead (s : Lexer) (c : Char) : Prop where
  literal : c = '\'' → s.escapes = false
  block : c = '$' → (s.last.any fun x => isIdentChar x || x == '$') = false
  word : c = 'e' ∨ c = 'E' → s.last.any isIdentChar = false

/-- **Behind code a text is read afresh**, unless its first character looks back. -/
theorem glyphs_behind {s : Lexer} (hs : s.Idle) {t : List Char} (h : ∀ c ∈ t.head?, s.LooksAhead c) :
    s.glyphs t = classify t ∧ (s.after t).mode = (({} : Lexer).after t).mode := by
  cases t with
  | nil => exact ⟨rfl, hs.mode⟩
  | cons c rest =>
    have hc := h c rfl
    have hdecision : s.decision c rest = ({} : Lexer).decision c rest :=
      decision_congr hs.mode rfl (fun _ h => hc.literal h)
        (fun _ h => delimiter?_congr (hc.block h) rest) fun _ _ => Iff.rfl
    have halike : (s.advance c rest).2.Alike (({} : Lexer).advance c rest).2 := by
      rw [advance_decided hs.held, advance_decided rfl, hdecision]
      refine ⟨rfl, rfl, fun _ => rfl, ?_, rfl, rfl⟩
      unfold escapes
      dsimp only
      by_cases hword : c = 'e' ∨ c = 'E'
      · rw [hc.word hword]
        rfl
      · rw [not_or] at hword
        simp [hword.1, hword.2]
    obtain ⟨hreads, hpast⟩ := alike_reads halike rest []
    rw [reads_whole, reads_whole] at hreads
    rw [past_whole, past_whole] at hpast
    refine ⟨?_, hpast.mode⟩
    show _ = ({} : Lexer).glyphs (c :: rest)
    rw [glyphs, glyphs, hreads, advance_decided hs.held, advance_decided rfl, hdecision]

theorem Fresh.looksAhead {s : Lexer} (hs : s.Fresh) (c : Char) : s.LooksAhead c := by
  have halike := alike_start hs
  exact ⟨fun _ => halike.escapes, fun _ => halike.tagged, fun _ => halike.word⟩

/-- Fresh code reads a text like its beginning. -/
theorem glyphs_fresh {s : Lexer} (hs : s.Fresh) (t : List Char) :
    s.glyphs t = classify t ∧ (s.after t).mode = (({} : Lexer).after t).mode :=
  glyphs_behind hs.toIdle fun c _ => hs.looksAhead c

/-! ## §3. The last character. -/

/-- A block whose delimiter is longer than what is ahead goes on. -/
theorem decision_dollar {s : Lexer} {d : List Char} (hmode : s.mode = .dollar d) {c : Char}
    {rest : List Char} (hlen : rest.length + 1 < d.length) :
    s.decision c rest = ⟨.quoted, 0, .dollar d⟩ := by
  refine decision_eq (.block fun hfront => ?_) hmode
  have hle := hfront.length_le
  rw [List.length_cons] at hle
  omega

/-- In such a block everything is quoted, and it is not left. -/
theorem glyphs_dollar {s : Lexer} {d t : List Char} (hmode : s.mode = .dollar d) (hheld : s.held = 0)
    (hlen : t.length < d.length) :
    (∀ g ∈ s.glyphs t, g.cls = .quoted) ∧ (s.after t).mode = .dollar d := by
  induction t generalizing s with
  | nil => exact ⟨List.forall_mem_nil _, hmode⟩
  | cons c rest ih =>
    rw [List.length_cons] at hlen
    rw [glyphs, after, advance_decided hheld, decision_dollar hmode hlen, List.forall_mem_cons]
    obtain ⟨hquoted, hstays⟩ :=
      ih (s := ⟨.dollar d, 0, .quoted, some c, s.last⟩) rfl rfl (by omega)
    exact ⟨⟨rfl, hquoted⟩, hstays⟩

theorem reads_held {s : Lexer} {p : List Char} (h : p.length ≤ s.held) (q : List Char) :
    ∀ g ∈ s.reads p q, g.cls = s.heldClass := by
  induction p generalizing s with
  | nil => exact List.forall_mem_nil _
  | cons c p ih =>
    rw [List.length_cons] at h
    obtain ⟨n, hn⟩ : ∃ n, s.held = n + 1 := ⟨s.held - 1, by omega⟩
    rw [reads_cons, advance_held hn, List.forall_mem_cons]
    exact ⟨rfl, ih (s := ⟨s.mode, n, s.heldClass, some c, s.last⟩) (by dsimp only; omega)⟩

/-- A token of several characters behind which there is code ends a block, if it is of no
comment. -/
theorem decision_closes {s : Lexer} {c : Char} {rest : List Char} (hmore : (s.decision c rest).more ≠ 0)
    (hmode : (s.decision c rest).mode = .code) (hcls : (s.decision c rest).cls ≠ .comment) :
    ∃ d, s.mode = .dollar d ∧ s.decision c rest = ⟨.quoted, d.length - 1, .code⟩ := by
  have h := s.decides c rest
  generalize s.mode = m, s.decision c rest = d at h hmore hmode hcls ⊢
  cases h with
  | closeBlock => exact ⟨_, rfl, rfl⟩
  | closeComment => exact absurd rfl hcls
  | code | lineEnd | closeLiteral | closeIdentifier => exact absurd rfl hmore
  | _ => cases hmode

/-- Glyphs of one class with the same characters. -/
theorem eq_of_cls {gs hs : List Glyph} {k : CharClass} (hgs : ∀ g ∈ gs, g.cls = k)
    (hhs : ∀ h ∈ hs, h.cls = k) (hchars : gs.map Glyph.char = hs.map Glyph.char) : gs = hs := by
  have hmap : ∀ {gs : List Glyph}, (∀ g ∈ gs, g.cls = k) →
      gs = (gs.map Glyph.char).map fun c => ⟨c, k⟩ := by
    intro gs hgs
    rw [List.map_map]
    refine (List.map_id gs).symm.trans (List.map_congr_left fun g hg => ?_)
    rw [← hgs g hg]
    rfl
  rw [hmap hgs, hchars, ← hmap hhs]

/-- **The last character of a text that ends in code changes the class of no other**, if
comments are left aside. -/
theorem reads_dropLast {s : Lexer} (hs : s.Delimited) {p : List Char} {x : Char}
    (hidle : (s.past (p ++ [x]) []).Idle) (hbare : ∀ g ∈ s.reads p [x], g.cls ≠ .comment) :
    s.reads p [x] = s.glyphs p := by
  induction p generalizing s with
  | nil => rfl
  | cons c p ih =>
    rw [List.cons_append, past_cons, List.append_nil] at hidle
    rw [reads_cons, List.forall_mem_cons] at hbare
    rw [reads_cons, glyphs]
    have hsame : s.advance c (p ++ [x]) = s.advance c p →
        (⟨c, (s.advance c (p ++ [x])).1⟩ : Glyph) :: (s.advance c (p ++ [x])).2.reads p [x]
          = ⟨c, (s.advance c p).1⟩ :: (s.advance c p).2.glyphs p := by
      intro hadvance
      rw [ih (delimited_advance hs c (p ++ [x])) hidle hbare.2, hadvance]
    by_cases hwithin : s.held = 0 → (s.decision c (p ++ [x])).more ≤ p.length
    · exact hsame (advance_within hs hwithin)
    · -- the token ends with the last character, and closes a block
      obtain ⟨hn, hmore⟩ := Classical.not_imp.1 hwithin
      rw [advance_decided hn] at hidle hbare ⊢
      dsimp only at hidle hbare ⊢
      have hbound := (decision_fits hs c (p ++ [x])).bound
      rw [List.length_append, List.length_singleton] at hbound
      have hlen : (p ++ [x]).length ≤ (s.decision c (p ++ [x])).more := by
        rw [List.length_append, List.length_singleton]
        omega
      have hmode := (past_held (p := p ++ [x]) (s := ⟨(s.decision c (p ++ [x])).mode,
        (s.decision c (p ++ [x])).more, (s.decision c (p ++ [x])).cls, some c, s.last⟩) hlen []).2
      rw [hidle.mode] at hmode
      obtain ⟨d, hdollar, hdecision⟩ := decision_closes (by omega) hmode.symm hbare.1
      rw [hdecision] at hmore hlen hbare ⊢
      dsimp only at hmore hlen hbare ⊢
      rw [advance_decided hn, decision_dollar hdollar (by omega)]
      refine congrArg _ (eq_of_cls (reads_held (by dsimp only; omega) [x])
        (glyphs_dollar rfl rfl (by omega)).1 ?_)
      rw [reads_map_char, glyphs_map_char]

end Lexer

end SchemaDrift.Sql
