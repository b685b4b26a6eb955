/-
  SchemaDrift.Proofs.Sql.Cutting
  ──────────────────────────────
  **A PART OF A TEXT READ BY ITSELF.**

  A part of a text has the classes in it that it has as a text of its own, if it begins
  where code begins afresh and ends at a character that no token reaches across.

      Alike              two states that no text tells apart
      Fresh              alike to the state at the beginning of a text
      decision_alone     a token of one character is decided without the text ahead
      reads_same         what is in front of a character that is in no name does not depend on
                         what is behind that
      reads_stop         what is read up to a stop does not depend on what follows
      cut_firm           a part up to a character of code that no token reaches across
-/

import SchemaDrift.Proofs.Sql.Reading

namespace SchemaDrift.Sql

open SchemaDrift.Text

namespace Lexer

/-! ## §1. States that read alike. -/

/-- The two states differ in nothing that a decision, now or later, looks at. -/
structure Alike (s s' : Lexer) : Prop where
  mode : s.mode = s'.mode
  held : s.held = s'.held
  held_class : s.held ≠ 0 → s.heldClass = s'.heldClass
  escapes : s.escapes = s'.escapes
  /-- A dollar sign begins a delimiter behind both or behind neither. -/
  tagged : (s.last.any fun c => isIdentChar c || c == '$')
    = s'.last.any fun c => isIdentChar c || c == '$'
  word : s.last.any isIdentChar = s'.last.any isIdentChar

variable {s s' : Lexer}

theorem alike_decision (h : s.Alike s') (c : Char) (rest : List Char) :
    s.decision c rest = s'.decision c rest := by
  refine decision_congr h.mode rfl (fun _ _ => h.escapes) (fun _ _ => ?_) fun _ _ => Iff.rfl
  exact delimiter?_congr h.tagged rest

theorem alike_advance (h : s.Alike s') (c : Char) (rest : List Char) :
    (s.advance c rest).1 = (s'.advance c rest).1
      ∧ (s.advance c rest).2.Alike (s'.advance c rest).2 := by
  cases hn : s.held with
  | zero =>
    have hn' : s'.held = 0 := h.held.symm.trans hn
    rw [advance_decided hn, advance_decided hn', alike_decision h c rest]
    refine ⟨rfl, rfl, rfl, fun _ => rfl, ?_, rfl, rfl⟩
    unfold escapes
    dsimp only
    rw [h.word]
  | succ n =>
    have hn' : s'.held = n + 1 := h.held.symm.trans hn
    rw [advance_held hn, advance_held hn']
    have hcls := h.held_class (by omega)
    refine ⟨hcls, h.mode, rfl, fun _ => hcls, ?_, rfl, rfl⟩
    unfold escapes
    dsimp only
    rw [h.word]

/-- States that are alike read a text alike. -/
theorem alike_reads (h : s.Alike s') (p q : List Char) :
    s.reads p q = s'.reads p q ∧ (s.past p q).Alike (s'.past p q) := by
  induction p generalizing s s' with
  | nil => exact ⟨rfl, h⟩
  | cons c p ih =>
    obtain ⟨hcls, hnext⟩ := alike_advance h c (p ++ q)
    obtain ⟨hreads, hpast⟩ := ih hnext
    rw [reads_cons, reads_cons, hcls, hreads]
    exact ⟨rfl, hpast⟩

/-- The state is in code, and a token begins. -/
structure Idle (s : Lexer) : Prop where
  mode : s.mode = .code
  held : s.held = 0

/-- The state is in code, behind a character that no name goes on from. -/
structure Fresh (s : Lexer) : Prop extends Idle s where
  last : (s.last.any fun c => isIdentChar c || c == '$') = false

theorem fresh_start : ({} : Lexer).Fresh := ⟨⟨rfl, rfl⟩, rfl⟩

/-- Fresh code is read like the beginning of a text. -/
theorem alike_start (h : s.Fresh) : s.Alike {} := by
  have hlast : ∀ c, s.last = some c → isIdentChar c = false ∧ c ≠ '$' := by
    intro c hc
    have hany := h.last
    rw [hc] at hany
    simpa using hany
  have hword : s.last.any isIdentChar = false := by
    cases hc : s.last with
    | none => rfl
    | some c => exact (hlast c hc).1
  refine ⟨h.mode, h.held, fun hn => absurd h.held hn, ?_, h.last, hword⟩
  have hescapes : s.escapes = false := by
    unfold escapes
    cases hc : s.last with
    | none => rfl
    | some c =>
      have hident := (hlast c hc).1
      have he : c ≠ 'e' := by
        rintro rfl
        exact absurd hident (by decide)
      have hE : c ≠ 'E' := by
        rintro rfl
        exact absurd hident (by decide)
      simp [he, hE]
  rw [hescapes]
  rfl

/-! ## §2. Looking ahead. -/

end Lexer

/-- No token reaches across the character, unless it is a comment that it ends or begins. -/
def isStop (c : Char) : Bool :=
  !isIdentChar c && c != '$' && c != '\'' && c != '"' && c != '*'

theorem isStop_iff {c : Char} : isStop c = true ↔
    isIdentChar c = false ∧ c ≠ '$' ∧ c ≠ '\'' ∧ c ≠ '"' ∧ c ≠ '*' := by
  unfold isStop
  simp only [Bool.and_eq_true, Bool.not_eq_true', bne_iff_ne, and_assoc]

/-- What has the character at its end, if anywhere, is found without a look behind it. -/
theorem prefix_upTo {d : List Char} {c : Char} (hc : c ∉ d.dropLast) (l w : List Char) :
    d <+: l ++ c :: w ↔ d <+: l ++ [c] := by
  have hpart : l ++ [c] <+: l ++ c :: w := ⟨w, by simp⟩
  refine ⟨fun h => ?_, fun h => h.trans hpart⟩
  by_contra hshort
  -- otherwise it would go on behind the character
  have hlen : (l ++ [c]).length < d.length := by
    by_contra hle
    exact hshort (List.prefix_of_prefix_length_le h hpart (Nat.le_of_not_lt hle))
  obtain ⟨r, rfl⟩ := List.prefix_of_prefix_length_le hpart h hlen.le
  have hr : r ≠ [] := by
    rintro rfl
    simp at hlen
  rw [List.dropLast_append_of_ne_nil hr] at hc
  simp at hc

/-- What the character is not in at all is found in front of it. -/
theorem prefix_append_cons {d : List Char} {c : Char} (hc : c ∉ d) (l w : List Char) :
    d <+: l ++ c :: w ↔ d <+: l := by
  rw [prefix_upTo (fun h => hc (List.dropLast_subset d h)), List.prefix_concat_iff, or_iff_right]
  rintro rfl
  simp at hc

namespace Lexer

/-- Of the text ahead a decision sees no more than what is in front of a stop, and whether
the stop is next. -/
theorem decision_append_cons {s : Lexer} (hs : s.Delimited) {c : Char}
    (hc : isIdentChar c = false) (hc' : c ≠ '$') (a x : Char) (p w : List Char) :
    s.decision a (x :: p ++ c :: w) = s.decision a (x :: p) := by
  refine decision_congr rfl rfl (fun _ _ => rfl) (fun _ _ => ?_) fun d hm => ?_
  · exact delimiter?_append_cons s hc hc' (x :: p) w
  · exact prefix_append_cons (not_mem_delimiter (hs d hm) hc hc') (a :: x :: p) w

/-- **A decision sees no more of the text ahead than the first character that is in no name.** -/
theorem decision_same {s : Lexer} (hs : s.Delimited) {c : Char} (hc : isIdentChar c = false)
    (a : Char) (p w w' : List Char) : s.decision a (p ++ c :: w) = s.decision a (p ++ c :: w') := by
  have hnext : (p ++ c :: w).head? = (p ++ c :: w').head? := by
    cases p with
    | nil => rfl
    | cons x p => rfl
  refine decision_congr rfl hnext (fun _ _ => rfl) (fun _ _ => delimiter?_same s hc p w w') ?_
  intro d hm
  obtain ⟨name, rfl, hname⟩ := hs d hm
  have hlast : c ∉ (name ++ ['$']).dropLast := by
    rw [List.dropLast_concat]
    intro hmem
    rw [hname c hmem] at hc
    cases hc
  rw [List.cons_prefix_cons, List.cons_prefix_cons, prefix_upTo hlast p w, prefix_upTo hlast p w']

theorem advance_same {s : Lexer} (hs : s.Delimited) {c : Char} (hc : isIdentChar c = false)
    (a : Char) (p l w w' : List Char) :
    s.advance a (p ++ (l ++ c :: w)) = s.advance a (p ++ (l ++ c :: w')) := by
  rw [← List.append_assoc, ← List.append_assoc]
  exact advance_congr fun _ => decision_same hs hc a (p ++ l) w w'

/-- **What is in front of a character that is in no name is read the same, whatever is behind
that.** -/
theorem reads_same {s : Lexer} (hs : s.Delimited) {c : Char} (hc : isIdentChar c = false)
    (p l w w' : List Char) : s.reads p (l ++ c :: w) = s.reads p (l ++ c :: w')
      ∧ s.past p (l ++ c :: w) = s.past p (l ++ c :: w') := by
  induction p generalizing s with
  | nil => exact ⟨rfl, rfl⟩
  | cons a p ih =>
    obtain ⟨hreads, hpast⟩ := ih (delimited_advance hs a (p ++ (l ++ c :: w')))
    rw [reads_cons, reads_cons, past_cons, past_cons, advance_same hs hc a p l w w', hreads, hpast]
    exact ⟨rfl, rfl⟩

/-- **A token of one character is decided without the text ahead.** -/
theorem decision_alone {s : Lexer} (hs : s.Delimited) {c : Char} {rest : List Char}
    (h : (s.decision c rest).more = 0) : s.decision c rest = s.decision c [] := by
  have hdecides := s.decides c rest
  unfold Delimited at hs
  generalize hm : s.mode = m, s.decision c rest = d at hs hdecides h ⊢
  symm
  cases hdecides with
  | openBlock hc hd =>
    have hlen := two_le_delimiter (delimiter?_eq_some hd).1
    dsimp only at h
    omega
  | closeBlock hd =>
    have hlen := two_le_delimiter (hs _ rfl)
    dsimp only at h
    omega
  | hyphens | slashStar | closeComment | closeInner | openInner | escape | doubledSingle
  | doubledDouble => cases h
  -- what was seen ahead was only that nothing comes of it
  | openLiteral hc => exact decision_eq (.openLiteral hc) hm
  | openIdentifier hc => exact decision_eq (.openIdentifier hc) hm
  | code hhyphen hslash hsingle hdouble hdollar =>
    exact decision_eq (.code (by simp) (by simp) hsingle hdouble (by simp)) hm
  | lineEnd hc => exact decision_eq (.lineEnd hc) hm
  | lineComment hc => exact decision_eq (.lineComment hc) hm
  | blockComment => exact decision_eq (.blockComment (by simp) (by simp)) hm
  | closeLiteral hc => exact decision_eq (.closeLiteral hc (by simp)) hm
  | literal hescape hc => exact decision_eq (.literal (fun _ _ => rfl) hc) hm
  | closeIdentifier hc => exact decision_eq (.closeIdentifier hc (by simp)) hm
  | identifier hc => exact decision_eq (.identifier hc) hm
  | block hd =>
    refine decision_eq (.block fun hfront => hd (hfront.trans ?_)) hm
    exact List.prefix_append [c] rest

/-- A stop right behind a character is no part of what is decided there, unless that is a
comment or a backslash takes it. -/
theorem decision_stop {s : Lexer} (hs : s.Delimited) {a c : Char} {w : List Char}
    (hc : isStop c = true)
    (hsoft : c = '-' ∨ c = '/' → (s.decision a (c :: w)).cls ≠ .comment) :
    s.decision a (c :: w) = s.decision a []
      ∨ s.decision a (c :: w) = { s.decision a [] with more := 1 }
        ∧ (s.decision a []).mode.cls = .quoted := by
  obtain ⟨hident, hdollar, hsingle, hdouble, hstar⟩ := isStop_iff.1 hc
  by_cases hmore : (s.decision a (c :: w)).more = 0
  · exact Or.inl (decision_alone hs hmore)
  have hdecides := s.decides a (c :: w)
  unfold Delimited at hs
  generalize hm : s.mode = m, s.decision a (c :: w) = d at hs hdecides hsoft hmore ⊢
  -- what takes two characters needs one that is no stop, but for an escape, which takes any
  cases hdecides with
  | hyphens ha hnext => exact absurd rfl (hsoft (Or.inl (Option.some.inj hnext)))
  | closeComment ha hnext | closeInner ha hnext =>
    exact absurd rfl (hsoft (Or.inr (Option.some.inj hnext)))
  | slashStar ha hnext | openInner ha hnext => exact absurd (Option.some.inj hnext) hstar
  | doubledSingle ha hnext => exact absurd (Option.some.inj hnext) hsingle
  | doubledDouble ha hnext => exact absurd (Option.some.inj hnext) hdouble
  | openBlock ha hd =>
    have hdelim := delimiter?_append_cons s hident hdollar [] w
    rw [List.nil_append, hd, delimiter?_nil] at hdelim
    cases hdelim
  | closeBlock hd =>
    have hlen := two_le_delimiter (hs _ rfl)
    have hshort := ((prefix_append_cons (not_mem_delimiter (hs _ rfl) hident hdollar) [a] w).1
      hd).length_le
    rw [List.length_singleton] at hshort
    omega
  | escape ha hnext =>
    have hlast : s.decision a [] = ⟨.quoted, 0, .literal true⟩ :=
      decision_eq (.literal (fun _ _ => rfl) (by rw [ha]; decide)) hm
    rw [hlast]
    exact Or.inr ⟨rfl, rfl⟩
  | _ => exact absurd rfl hmore

/-- **What is read up to a stop does not depend on what follows**, unless a comment leads up
to it.  Nor does the state there, if nothing is quoted. -/
theorem reads_stop {s : Lexer} (hs : s.Delimited) {c : Char} (hc : isStop c = true)
    (p w : List Char)
    (hsoft : c = '-' ∨ c = '/' → ∀ g ∈ (s.reads p (c :: w)).getLast?, g.cls ≠ .comment) :
    s.reads p (c :: w) = s.glyphs p ∧ (s.past p (c :: w)).mode = (s.after p).mode
      ∧ ((s.after p).mode.cls ≠ .quoted → s.past p (c :: w) = s.after p) := by
  obtain ⟨hident, hdollar, -⟩ := isStop_iff.1 hc
  -- only the last character of `p` has the stop next to it
  induction p generalizing s with
  | nil => exact ⟨rfl, rfl, fun _ => rfl⟩
  | cons a p ih =>
    rw [reads_cons, past_cons, glyphs, after]
    rw [reads_cons] at hsoft
    cases p with
    | nil =>
      rw [List.nil_append] at hsoft ⊢
      cases h : s.held with
      | zero =>
        rw [advance_decided h] at hsoft
        rw [advance_decided h, advance_decided h]
        rcases decision_stop hs hc fun hcc => hsoft hcc _ rfl with heq | ⟨heq, hquoted⟩
        · rw [heq]
          exact ⟨rfl, rfl, fun _ => rfl⟩
        · rw [heq]
          exact ⟨rfl, rfl, fun hne => absurd hquoted hne⟩
      | succ n =>
        rw [advance_held h, advance_held h]
        exact ⟨rfl, rfl, fun _ => rfl⟩
    | cons x p =>
      have hadvance : s.advance a (x :: p ++ c :: w) = s.advance a (x :: p) := by
        cases h : s.held with
        | zero =>
          rw [advance_decided h, advance_decided h, decision_append_cons hs hident hdollar]
        | succ n => rw [advance_held h, advance_held h]
      rw [hadvance] at hsoft ⊢
      obtain ⟨hreads, hpast⟩ := ih (delimited_advance hs a (x :: p)) hsoft
      rw [hreads]
      exact ⟨rfl, hpast⟩

/-- A stop that can be no part of a comment either. -/
theorem reads_firm {s : Lexer} (hs : s.Delimited) {c : Char} (hc : isStop c = true)
    (hhyphen : c ≠ '-') (hslash : c ≠ '/') (p w : List Char) :
    s.reads p (c :: w) = s.glyphs p ∧ (s.past p (c :: w)).mode = (s.after p).mode
      ∧ ((s.after p).mode.cls ≠ .quoted → s.past p (c :: w) = s.after p) := by
  refine reads_stop hs hc p w ?_
  rintro (h | h)
  · exact absurd h hhyphen
  · exact absurd h hslash

/-! ## §3. Parts. -/

theorem delimited_start : ({} : Lexer).Delimited := by
  intro t h
  cases h

theorem delimited_past {s : Lexer} (hs : s.Delimited) (p q : List Char) :
    (s.past p q).Delimited := by
  induction p generalizing s with
  | nil => exact hs
  | cons c p ih => exact ih (delimited_advance hs c _)

/-- Inside of code nothing is held. -/
theorem idle_of_inside {s : Lexer} {t : List Char} (hs : s.Sound t) (h : s.inside = .code) :
    s.Idle := by
  have hheld : s.held = 0 := by
    by_contra hne
    rw [inside, if_neg hne] at h
    exact hs.held_class hne h
  rw [inside, if_pos hheld] at h
  refine ⟨?_, hheld⟩
  cases hm : s.mode with
  | code => rfl
  | literal e => rw [hm] at h; cases h
  | identifier => rw [hm] at h; cases h
  | dollar d => rw [hm] at h; cases h
  | lineComment => rw [hm] at h; cases h
  | blockComment n => rw [hm] at h; cases h

theorem inside_idle {s : Lexer} (h : s.Idle) : s.inside = .code := by
  rw [inside, if_pos h.held, h.mode]
  rfl

theorem advance_last (s : Lexer) (c : Char) (rest : List Char) :
    (s.advance c rest).2.last = some c := by
  cases h : s.held with
  | zero => rw [advance_decided h]
  | succ n => rw [advance_held h]

variable {s : Lexer} {c : Char} {rest : List Char}

/-- Behind code there is code. -/
theorem idle_advance (hs : s.Sound (c :: rest)) (h : (s.advance c rest).1 = .code) :
    (s.advance c rest).2.Idle := by
  refine idle_of_inside (sound_advance hs) ?_
  rcases advance_leaves hs with hl | ⟨hl, -⟩
  · exact hl.trans h
  · exact hl

/-- Behind code there is fresh code, unless a name could go on. -/
theorem fresh_advance (hs : s.Sound (c :: rest)) (hc : isIdentChar c = false) (hc' : c ≠ '$')
    (h : (s.advance c rest).1 = .code) : (s.advance c rest).2.Fresh := by
  refine ⟨idle_advance hs h, ?_⟩
  rw [advance_last]
  simp [hc, hc']

/-- Before code there is code, or the end of a line comment. -/
theorem idle_before (hs : s.Sound (c :: rest)) (hc : c ≠ '\n')
    (h : (s.advance c rest).1 = .code) : s.Idle := by
  refine idle_of_inside hs ?_
  rcases advance_enters hs with he | ⟨he, -⟩ | ⟨-, he⟩
  · exact he.symm.trans h
  · exact he
  · exact absurd (Glyph.mk.inj he).1 hc

/-- In code, a character that begins nothing is code. -/
theorem advance_plain (h : s.Idle) (hc : isQuote c = false) (hhyphen : c ≠ '-') (hslash : c ≠ '/')
    (rest : List Char) : (s.advance c rest).1 = .code ∧ (s.advance c rest).2.Idle := by
  have hsingle : c ≠ '\'' := by
    rintro rfl
    cases hc
  have hdouble : c ≠ '"' := by
    rintro rfl
    cases hc
  have hdollar : c ≠ '$' := by
    rintro rfl
    cases hc
  have hdecision : s.decision c rest = ⟨.code, 0, .code⟩ :=
    decision_eq (.code (fun hc => hhyphen hc.1) (fun hc => hslash hc.1) hsingle hdouble
      fun hc => absurd hc hdollar) h.mode
  rw [advance_decided h.held, hdecision]
  exact ⟨rfl, rfl, rfl⟩

/-- What a name consists of is no quote and begins no comment. -/
theorem plain_of_isIdentChar (hc : isIdentChar c = true) :
    isQuote c = false ∧ c ≠ '-' ∧ c ≠ '/' := by
  refine ⟨?_, ?_, ?_⟩
  · by_contra hquote
    rcases isQuote_iff.1 (Bool.not_eq_false _ ▸ hquote) with rfl | rfl | rfl
    · exact absurd hc (by decide)
    · exact absurd hc (by decide)
    · exact absurd hc (by decide)
  · rintro rfl
    exact absurd hc (by decide)
  · rintro rfl
    exact absurd hc (by decide)

/-- In code a name goes on in code, dollar signs included. -/
theorem advance_name (hs : s.Idle)
    (hlast : c = '$' → (s.last.any fun c => isIdentChar c || c == '$') = true)
    (hc : isIdentChar c = true ∨ c = '$') (rest : List Char) :
    (s.advance c rest).1 = .code ∧ (s.advance c rest).2.Idle := by
  rcases hc with hc | rfl
  · obtain ⟨hquote, hhyphen, hslash⟩ := plain_of_isIdentChar hc
    exact advance_plain hs hquote hhyphen hslash rest
  · have hdecision : s.decision '$' rest = ⟨.code, 0, .code⟩ :=
      decision_eq (.code (by simp) (by simp) (by decide) (by decide)
        fun _ => delimiter?_tagged (hlast rfl) rest) hs.mode
    rw [advance_decided hs.held, hdecision]
    exact ⟨rfl, rfl, rfl⟩

theorem reads_name {p : List Char} (hp : ∀ c ∈ p, isIdentChar c = true ∨ c = '$')
    (rest : List Char) (hs : s.Idle)
    (hlast : (s.last.any fun c => isIdentChar c || c == '$') = true) :
    s.reads p rest = p.map (⟨·, .code⟩) ∧ (s.past p rest).Idle := by
  induction p generalizing s with
  | nil => exact ⟨rfl, hs⟩
  | cons c p ih =>
    have hc := hp c List.mem_cons_self
    obtain ⟨hcode, hidle⟩ := advance_name hs (fun _ => hlast) hc (p ++ rest)
    have hnext : ((s.advance c (p ++ rest)).2.last.any fun c => isIdentChar c || c == '$')
        = true := by
      rw [advance_last]
      rcases hc with h | rfl
      · simp [h]
      · rfl
    obtain ⟨hreads, hpast⟩ := ih (fun d hd => hp d (List.mem_cons_of_mem _ hd)) hidle hnext
    rw [reads_cons, hcode, hreads, past_cons]
    exact ⟨rfl, hpast⟩

/-- **A name is read as code.** -/
theorem reads_ident (hc : isIdentChar c = true) {p : List Char}
    (hp : ∀ d ∈ p, isIdentChar d = true ∨ d = '$') (rest : List Char) (hs : s.Idle) :
    s.reads (c :: p) rest = (c :: p).map (⟨·, .code⟩) ∧ (s.past (c :: p) rest).Idle := by
  have hdollar : c ≠ '$' := by
    rintro rfl
    cases hc
  obtain ⟨hcode, hidle⟩ := advance_name hs (fun h => absurd h hdollar) (Or.inl hc) (p ++ rest)
  obtain ⟨hreads, hpast⟩ := reads_name hp rest hidle (by
    rw [advance_last]
    simp [hc])
  rw [reads_cons, hcode, hreads, past_cons]
  exact ⟨rfl, hpast⟩

/-- What is quoted goes on over a character that closes nothing. -/
theorem advance_quoted (hs : s.Sound (c :: rest)) (h : s.inside = .quoted)
    (hc : isQuote c = false) :
    (s.advance c rest).1 = .quoted ∧ (s.advance c rest).2.inside = .quoted := by
  have hcls : (s.advance c rest).1 = .quoted := by
    rcases advance_enters hs with he | ⟨he, -⟩ | ⟨he, -⟩
    · exact he.trans h
    · rw [h] at he
      cases he
    · rw [h] at he
      cases he
  refine ⟨hcls, ?_⟩
  rcases advance_leaves hs with hl | ⟨-, hl⟩
  · exact hl.trans hcls
  · rw [hcls] at hl
    exact absurd hl (by rw [CharClass.closes, hc]; decide)

theorem past_quoted {s : Lexer} {p q : List Char} (hs : s.Sound (p ++ q)) (h : s.inside = .quoted)
    (hp : ∀ c ∈ p, isQuote c = false) :
    (∀ g ∈ s.reads p q, g.cls = .quoted) ∧ (s.past p q).inside = .quoted := by
  induction p generalizing s with
  | nil => exact ⟨by simp, h⟩
  | cons c p ih =>
    obtain ⟨hcls, hinside⟩ := advance_quoted hs h (hp c List.mem_cons_self)
    obtain ⟨hreads, hpast⟩ := ih (sound_advance hs) hinside
      fun c hc => hp c (List.mem_cons_of_mem _ hc)
    refine ⟨?_, hpast⟩
    rw [reads_cons]
    intro g hg
    rcases List.mem_cons.1 hg with rfl | hg
    · exact hcls
    · exact hreads g hg

/-- Code reads alike behind a character that no name goes on from. -/
theorem alike_behind {s' : Lexer} (h : s.Idle) (h' : s'.Idle) (hc : isIdentChar c = false)
    (hc' : isQuote c = false) (rest : List Char) :
    (s.advance c rest).1 = (s'.advance c rest).1
      ∧ (s.advance c rest).2.Alike (s'.advance c rest).2 := by
  have hsingle : c ≠ '\'' := by
    rintro rfl
    cases hc'
  have hdollar : c ≠ '$' := by
    rintro rfl
    cases hc'
  have he : c ≠ 'e' := by
    rintro rfl
    exact absurd hc (by decide)
  have hE : c ≠ 'E' := by
    rintro rfl
    exact absurd hc (by decide)
  have hdecision : s.decision c rest = s'.decision c rest := by
    refine decision_congr (h.mode.trans h'.mode.symm) rfl (fun _ hc => absurd hc hsingle)
      (fun _ hc => absurd hc hdollar) fun _ _ => Iff.rfl
  have hbegins : (some c == some 'e' || some c == some 'E') = false := by simp [he, hE]
  rw [advance_decided h.held, advance_decided h'.held, hdecision]
  refine ⟨rfl, rfl, rfl, fun _ => rfl, ?_, rfl, rfl⟩
  unfold escapes
  dsimp only
  rw [hbegins, Bool.false_and, Bool.false_and]

/-- A line comment goes on up to the end of its line. -/
theorem reads_lineComment {s : Lexer} (hmode : s.mode = .lineComment) (hheld : s.held = 0)
    {l : List Char} (hl : '\n' ∉ l) (w : List Char) : (∀ g ∈ s.reads l w, g.cls = .comment)
      ∧ (s.past l w).mode = .lineComment ∧ (s.past l w).held = 0 := by
  induction l generalizing s with
  | nil => exact ⟨by simp, hmode, hheld⟩
  | cons c l ih =>
    rw [List.mem_cons, not_or] at hl
    have hdecision : s.decision c (l ++ w) = ⟨.comment, 0, .lineComment⟩ :=
      decision_eq (.lineComment (Ne.symm hl.1)) hmode
    rw [reads_cons, past_cons, advance_decided hheld, hdecision]
    obtain ⟨hcomment, hpast⟩ :=
      ih (s := ⟨.lineComment, 0, .comment, some c, s.last⟩) rfl rfl hl.2
    exact ⟨List.forall_mem_cons.2 ⟨rfl, hcomment⟩, hpast⟩

/-- Two hyphens in code begin a line comment. -/
theorem reads_hyphens {s : Lexer} (hs : s.Idle) {l : List Char} (hl : '\n' ∉ l) (w : List Char) :
    (∀ g ∈ s.reads ('-' :: '-' :: l) w, g.cls = .comment)
      ∧ (s.past ('-' :: '-' :: l) w).mode = .lineComment
      ∧ (s.past ('-' :: '-' :: l) w).held = 0 := by
  -- the first hyphen decides for both
  have hfirst : s.advance '-' ('-' :: (l ++ w))
      = (.comment, ⟨.lineComment, 1, .comment, some '-', s.last⟩) := by
    rw [advance_decided hs.held, decision_eq (.hyphens rfl rfl) hs.mode]
  obtain ⟨hcomment, hpast⟩ :=
    reads_lineComment (s := ⟨.lineComment, 0, .comment, some '-', some '-'⟩) rfl rfl hl w
  rw [reads_cons, past_cons, reads_cons, past_cons, List.cons_append, hfirst]
  exact ⟨List.forall_mem_cons.2 ⟨rfl, List.forall_mem_cons.2 ⟨rfl, hcomment⟩⟩, hpast⟩

end Lexer

/-! ## §4. Cuts. -/

/-- No token reaches across the character, and it ends no comment. -/
structure IsFirm (c : Char) : Prop where
  stop : isStop c = true
  hyphen : c ≠ '-'
  slash : c ≠ '/'
  feed : c ≠ '\n'

instance (c : Char) : Decidable (IsFirm c) :=
  decidable_of_iff (isStop c = true ∧ c ≠ '-' ∧ c ≠ '/' ∧ c ≠ '\n')
    ⟨fun h => ⟨h.1, h.2.1, h.2.2.1, h.2.2.2⟩, fun h => ⟨h.stop, h.hyphen, h.slash, h.feed⟩⟩

namespace Lexer

/-- Behind a character of code that is of no name what follows is read afresh. -/
theorem fresh_behind {s : Lexer} {t : List Char} (hsound : s.Sound t) {gs rest : List Glyph}
    {c : Char} (hident : isIdentChar c = false) (hdollar : c ≠ '$')
    (h : s.glyphs t = gs ++ ⟨c, .code⟩ :: rest) :
    ∃ s' : Lexer, s'.Fresh ∧ s'.Sound (rest.map Glyph.char) ∧ s'.glyphs (rest.map Glyph.char) = rest
      ∧ s'.after (rest.map Glyph.char) = s.after t := by
  obtain ⟨ht, -, hglyphs⟩ := glyphs_split h
  rw [List.map_cons] at ht hglyphs
  rw [ht] at hsound
  have hsound' := sound_past hsound
  rw [glyphs] at hglyphs
  obtain ⟨hg, hrest⟩ := List.cons.inj hglyphs
  refine ⟨_, fresh_advance hsound' hident hdollar (Glyph.mk.inj hg).2, sound_advance hsound',
    hrest, ?_⟩
  rw [ht, after_append]
  rfl

/-- **A text up to a firm character in code is read by itself as it is read there**: code
goes on behind it, and what follows that character is read afresh. -/
theorem cut_firm {s : Lexer} {t : List Char} (hs : s.Fresh) (hsound : s.Sound t)
    {gs rest : List Glyph} {c : Char} (hc : IsFirm c) (h : s.glyphs t = gs ++ ⟨c, .code⟩ :: rest) :
    classify (gs.map Glyph.char) = gs ∧ (({} : Lexer).after (gs.map Glyph.char)).Idle
      ∧ ∃ s' : Lexer, s'.Fresh ∧ s'.Sound (rest.map Glyph.char)
        ∧ s'.glyphs (rest.map Glyph.char) = rest
        ∧ s'.after (rest.map Glyph.char) = s.after t := by
  obtain ⟨hident, hdollar, -⟩ := isStop_iff.1 hc.stop
  obtain ⟨ht, hreads, hglyphs⟩ := glyphs_split h
  rw [List.map_cons] at ht hreads hglyphs
  obtain ⟨halike, hpast⟩ :=
    alike_reads (alike_start hs) (gs.map Glyph.char) (c :: rest.map Glyph.char)
  obtain ⟨hfirm, hmode, hstate⟩ := reads_firm delimited_start hc.stop hc.hyphen hc.slash
    (gs.map Glyph.char) (rest.map Glyph.char)
  refine ⟨hfirm.symm.trans (halike.symm.trans hreads), ?_, fresh_behind hsound hident hdollar h⟩
  rw [glyphs] at hglyphs
  have hidle : (s.past (gs.map Glyph.char) (c :: rest.map Glyph.char)).Idle :=
    idle_before (sound_past (ht ▸ hsound)) hc.feed (Glyph.mk.inj (List.cons.inj hglyphs).1).2
  have hcode : (({} : Lexer).after (gs.map Glyph.char)).mode = .code :=
    hmode.symm.trans (hpast.mode.symm.trans hidle.mode)
  rw [← hstate (by rw [hcode]; decide)]
  exact ⟨hpast.mode.symm.trans hidle.mode, hpast.held.symm.trans hidle.held⟩

end Lexer

end SchemaDrift.Sql
