/-
  SchemaDrift.Proofs.Table.Head
  ─────────────────────────────
  **THE HEAD OF A TABLE DEFINITION IS READ IN CODE.**

  The head is taken off the front of a definition letter by letter, the classes of its
  characters left aside.  All the same its readers agree with the automaton: each of them
  begins in code and stops in code (`Arrives`), so that the parenthesis they find is one
  (`head?_arrives`).
-/

import SchemaDrift.Proofs.Sql.Layout
import SchemaDrift.Table.Parse

namespace SchemaDrift.Table

open SchemaDrift.Sql SchemaDrift.Text

/-! ## §1. From code to code. -/

/-- The rest is an ending of the text, and read in code if the text is. -/
def Arrives (t rest : List Char) : Prop :=
  ∃ p, t = p ++ rest ∧ ∀ s : Lexer, s.Idle → (s.past p rest).Idle

theorem arrives_refl (t : List Char) : Arrives t t := ⟨[], rfl, fun _ h => h⟩

theorem Arrives.trans {t u v : List Char} (h : Arrives t u) (h' : Arrives u v) : Arrives t v := by
  obtain ⟨p, rfl, hp⟩ := h
  obtain ⟨q, rfl, hq⟩ := h'
  refine ⟨p ++ q, (List.append_assoc ..).symm, fun s hs => ?_⟩
  rw [Lexer.past_append]
  exact hq _ (hp s hs)

/-- The character begins nothing but code. -/
def IsPlain (c : Char) : Prop := isQuote c = false ∧ c ≠ '-' ∧ c ≠ '/'

instance (c : Char) : Decidable (IsPlain c) := by unfold IsPlain; infer_instance

theorem past_plain {p : List Char} (hp : ∀ c ∈ p, IsPlain c) (rest : List Char) {s : Lexer}
    (hs : s.Idle) : (s.past p rest).Idle := by
  induction p generalizing s with
  | nil => exact hs
  | cons c p ih =>
    obtain ⟨hquote, hhyphen, hslash⟩ := hp c List.mem_cons_self
    exact ih (fun d hd => hp d (List.mem_cons_of_mem _ hd))
      (Lexer.advance_plain hs hquote hhyphen hslash _).2

theorem arrives_plain {p : List Char} (hp : ∀ c ∈ p, IsPlain c) (rest : List Char) :
    Arrives (p ++ rest) rest := ⟨p, rfl, fun _ hs => past_plain hp rest hs⟩

theorem arrives_cons {c : Char} (hc : IsPlain c) (rest : List Char) : Arrives (c :: rest) rest :=
  arrives_plain (p := [c]) (by simpa using hc) rest

theorem isPlain_of_isBlank {c : Char} (hc : isBlank c = true) : IsPlain c :=
  ⟨isQuote_of_isBlank hc, ne_of_isBlank hc (by decide), ne_of_isBlank hc (by decide)⟩

/-- A character is plain if it is none of the five that are not. -/
theorem isPlain_of_ne {c : Char} (h : c ∉ ['\'', '"', '$', '-', '/']) : IsPlain c := by
  simp only [List.mem_cons, List.not_mem_nil, or_false, not_or] at h
  obtain ⟨hsingle, hdouble, hdollar, hhyphen, hslash⟩ := h
  refine ⟨?_, hhyphen, hslash⟩
  unfold isQuote
  simp [hsingle, hdouble, hdollar]

/-! ## §2. Keywords. -/

/-- What folds to a letter is plain. -/
theorem isPlain_of_foldLetter {c : Char} (h : (foldLetter c).isAlpha = true) : IsPlain c := by
  refine isPlain_of_ne fun hc => ?_
  have hnone : ∀ d ∈ ['\'', '"', '$', '-', '/'], (foldLetter d).isAlpha = false :=
    forall_chars (by decide)
  rw [hnone c hc] at h
  cases h

theorem keyword?_arrives {k s rest : List Char} (hk : ∀ c ∈ k, c.isAlpha = true)
    (h : keyword? k s = some rest) : Arrives s rest := by
  induction k generalizing s with
  | nil =>
    rw [show s = rest from Option.some.inj h]
    exact arrives_refl rest
  | cons x k ih =>
    cases s with
    | nil => cases h
    | cons c s =>
      unfold keyword? at h
      split at h
      · next hc =>
        have halpha : (foldLetter c).isAlpha = true := by
          rw [hc]
          exact hk x List.mem_cons_self
        exact (arrives_cons (isPlain_of_foldLetter halpha) s).trans
          (ih (fun d hd => hk d (List.mem_cons_of_mem _ hd)) h)
      · cases h

theorem trimStart_arrives (s : List Char) : Arrives s (trimStart s) := by
  have hsplit := List.takeWhile_append_dropWhile (p := isBlank) (l := s)
  have harrives := arrives_plain (p := s.takeWhile isBlank)
    (fun c hc => isPlain_of_isBlank (List.all_eq_true.1 List.all_takeWhile c hc)) (trimStart s)
  rwa [show s.takeWhile isBlank ++ trimStart s = s from hsplit] at harrives

theorem blanks?_arrives {s rest : List Char} (h : blanks? s = some rest) : Arrives s rest := by
  cases s with
  | nil => cases h
  | cons c s =>
    dsimp only [blanks?] at h
    by_cases hc : isBlank c = true
    · rw [if_pos hc] at h
      rw [← Option.some.inj h]
      exact (arrives_cons (isPlain_of_isBlank hc) s).trans (trimStart_arrives s)
    · rw [if_neg hc] at h
      cases h

theorem keywordBlanks?_arrives {k : String} {s rest : List Char}
    (hk : ∀ c ∈ k.toList, c.isAlpha = true) (h : keywordBlanks? k s = some rest) :
    Arrives s rest := by
  obtain ⟨behind, hkeyword, hblanks⟩ := Option.bind_eq_some_iff.1 h
  exact (keyword?_arrives hk hkeyword).trans (blanks?_arrives hblanks)

theorem skipOneOf_arrives {ks : List String} (hks : ∀ k ∈ ks, k.toList.all Char.isAlpha = true)
    (s : List Char) : Arrives s (skipOneOf ks s) := by
  unfold skipOneOf
  cases h : ks.findSome? (keywordBlanks? · s) with
  | none => exact arrives_refl s
  | some rest =>
    obtain ⟨k, hk, hkeyword⟩ := List.exists_of_findSome?_eq_some h
    exact keywordBlanks?_arrives (List.all_eq_true.1 (hks k hk)) hkeyword

theorem createTable?_arrives {s rest : List Char} (h : createTable? s = some rest) :
    Arrives s rest := by
  obtain ⟨behind, hcreate, htable⟩ := Option.bind_eq_some_iff.1 h
  exact (keywordBlanks?_arrives (forall_chars (by decide)) hcreate).trans
    ((skipOneOf_arrives (by decide) behind).trans
      ((skipOneOf_arrives (by decide) _).trans
        (keyword?_arrives (forall_chars (by decide)) htable)))

/-! ## §3. Identifiers. -/

/-- The character begins a name without quotes. -/
def beginsName (c : Char) : Bool := isFoldedAlpha c || c == '_'

/-- The character is of a name without quotes. -/
def isOfName (c : Char) : Bool := beginsName c || c.isDigit || c == '$'

/-- What folds to a letter is of a name. -/
theorem isIdentChar_of_isFoldedAlpha {c : Char} (h : isFoldedAlpha c = true) :
    isIdentChar c = true := by
  unfold isFoldedAlpha foldLetter at h
  split at h
  · next hc =>
    rw [hc]
    decide +kernel
  · split at h
    · next hc =>
      rw [hc]
      decide +kernel
    · have hupper : c.isAlpha = true := by
        unfold Char.toUpper at h
        split at h
        · next hlower =>
          have hislower : c.isLower = true := by
            unfold Char.isLower
            rw [decide_eq_true hlower.1, decide_eq_true hlower.2]
            rfl
          unfold Char.isAlpha
          rw [hislower, Bool.or_true]
        · exact h
      unfold isIdentChar
      rw [isAlphanumeric_of_isAlphanum c (by unfold Char.isAlphanum; rw [hupper, Bool.true_or])]
      rfl

theorem isIdentChar_of_beginsName {c : Char} (h : beginsName c = true) : isIdentChar c = true := by
  rcases Bool.or_eq_true_iff.1 h with h | h
  · exact isIdentChar_of_isFoldedAlpha h
  · rw [beq_iff_eq.1 h]
    decide

theorem isOfName_cases {c : Char} (h : isOfName c = true) : isIdentChar c = true ∨ c = '$' := by
  rcases Bool.or_eq_true_iff.1 h with h | h
  · left
    rcases Bool.or_eq_true_iff.1 h with h | h
    · exact isIdentChar_of_beginsName h
    · unfold isIdentChar
      rw [isAlphanumeric_of_isAlphanum c (by unfold Char.isAlphanum; rw [h, Bool.or_true])]
      rfl
  · exact Or.inr (beq_iff_eq.1 h)

/-- A character of a name is not white. -/
theorem isBlank_of_name {c : Char} (hc : isIdentChar c = true ∨ c = '$') : isBlank c = false := by
  by_contra hblank
  rw [Bool.not_eq_false] at hblank
  rcases hc with hc | hc
  · rw [isIdentChar_of_isBlank hblank] at hc
    cases hc
  · exact ne_of_isBlank hblank (by decide) hc

/-- A name is in double quotes, and not empty there, or goes on as far as it can. -/
theorem ident?_cases {t name behind : List Char} (h : ident? t = some (name, behind)) :
    (∃ inside rest, t = '"' :: rest ∧ inside ≠ [] ∧ quotedIdentEnd? rest = some (inside, behind)
        ∧ name = '"' :: inside ++ ['"'])
      ∨ ∃ c rest, t = c :: rest ∧ c ≠ '"' ∧ beginsName c = true
        ∧ name = c :: rest.takeWhile isOfName ∧ behind = rest.dropWhile isOfName := by
  cases t with
  | nil => cases h
  | cons c rest =>
    dsimp only [ident?] at h
    by_cases hc : c = '"'
    · subst hc
      rw [if_pos rfl] at h
      split at h
      · cases h
      · cases h
      · next inside behind' hne hend =>
        obtain ⟨rfl, rfl⟩ := Prod.mk.inj (Option.some.inj h)
        exact Or.inl ⟨inside, rest, rfl, hne, hend, rfl⟩
    · rw [if_neg hc] at h
      split at h
      · next hbegins =>
        obtain ⟨rfl, rfl⟩ := Prod.mk.inj (Option.some.inj h)
        exact Or.inr ⟨c, rest, rfl, hc, hbegins, rfl, rfl⟩
      · cases h

/-- In a quoted identifier a character that is no quote is one of it. -/
theorem advance_identifier {s : Lexer} {c : Char} (hs : s.mode = .identifier) (hheld : s.held = 0)
    (hc : c ≠ '"') (rest : List Char) : (s.advance c rest).1 = .quoted
      ∧ (s.advance c rest).2.mode = .identifier ∧ (s.advance c rest).2.held = 0 := by
  rw [Lexer.advance_decided hheld, Lexer.decision_eq (.identifier hc) hs]
  exact ⟨rfl, rfl, rfl⟩

/-- A quoted identifier is quoted, and ends in code. -/
theorem quotedIdentEnd?_reads {t inside behind : List Char}
    (h : quotedIdentEnd? t = some (inside, behind)) :
    t = inside ++ '"' :: behind ∧ ∀ s : Lexer, s.mode = .identifier → s.held = 0 →
      (∀ g ∈ s.reads (inside ++ ['"']) behind, g.cls = .quoted)
        ∧ (s.past (inside ++ ['"']) behind).Idle := by
  -- a doubled quote goes on with the name, a single one ends it
  induction t using quotedIdentEnd?.induct generalizing inside with
  | case1 rest ih =>
    rw [quotedIdentEnd?] at h
    obtain ⟨⟨inside', behind'⟩, hrest, heq⟩ := Option.map_eq_some_iff.1 h
    obtain ⟨rfl, rfl⟩ := Prod.mk.inj heq
    obtain ⟨rfl, hreads⟩ := ih hrest
    refine ⟨rfl, fun s hs hheld => ?_⟩
    obtain ⟨hquoted, hidle⟩ := hreads ⟨.identifier, 0, .quoted, some '"', some '"'⟩ rfl rfl
    show (∀ g ∈ s.reads ('"' :: '"' :: (inside' ++ ['"'])) behind', g.cls = .quoted)
      ∧ (s.past ('"' :: '"' :: (inside' ++ ['"'])) behind').Idle
    rw [Lexer.reads_cons, Lexer.reads_cons, Lexer.past_cons, Lexer.past_cons,
      Lexer.advance_decided hheld, List.cons_append, Lexer.decision_eq (.doubledDouble rfl rfl) hs,
      Lexer.advance_held (n := 0) rfl]
    exact ⟨List.forall_mem_cons.2 ⟨rfl, List.forall_mem_cons.2 ⟨rfl, hquoted⟩⟩, hidle⟩
  | case2 rest hne =>
    rw [quotedIdentEnd?.eq_2 rest hne] at h
    obtain ⟨rfl, rfl⟩ := Prod.mk.inj (Option.some.inj h)
    refine ⟨rfl, fun s hs hheld => ?_⟩
    have hnext : rest.head? ≠ some '"' := by
      intro hnext
      obtain ⟨rest', hrest⟩ := List.head?_eq_some_iff.1 hnext
      exact hne rest' (by rw [hrest])
    show (∀ g ∈ s.reads ['"'] rest, g.cls = .quoted) ∧ (s.past ['"'] rest).Idle
    rw [Lexer.reads_cons, Lexer.past_cons, List.nil_append, Lexer.advance_decided hheld,
      Lexer.decision_eq (.closeIdentifier rfl hnext) hs]
    exact ⟨List.forall_mem_singleton.2 rfl, rfl, rfl⟩
  | case3 c rest hne hc ih =>
    rw [quotedIdentEnd?.eq_3 c rest hne hc] at h
    obtain ⟨⟨inside', behind'⟩, hrest, heq⟩ := Option.map_eq_some_iff.1 h
    obtain ⟨rfl, rfl⟩ := Prod.mk.inj heq
    obtain ⟨rfl, hreads⟩ := ih hrest
    refine ⟨rfl, fun s hs hheld => ?_⟩
    obtain ⟨hcls, hmode, hheld'⟩ := advance_identifier hs hheld hc (inside' ++ ['"'] ++ behind')
    obtain ⟨hquoted, hidle⟩ := hreads _ hmode hheld'
    exact ⟨List.forall_mem_cons.2 ⟨hcls, hquoted⟩, hidle⟩
  | case4 => cases h

/-- **A name has no gaps, and ends in code.** -/
theorem ident?_reads {t name behind : List Char} (h : ident? t = some (name, behind)) :
    t = name ++ behind ∧ ∀ s : Lexer, s.Idle →
      (∀ g ∈ s.reads name behind, g.isGap = false) ∧ (s.past name behind).Idle := by
  rcases ident?_cases h with ⟨inside, rest, rfl, -, hend, rfl⟩ | ⟨c, rest, rfl, -, hc, rfl, rfl⟩
  · obtain ⟨rfl, hreads⟩ := quotedIdentEnd?_reads hend
    refine ⟨by simp, fun s hs => ?_⟩
    obtain ⟨hquoted, hidle⟩ := hreads ⟨.identifier, 0, .quoted, some '"', s.last⟩ rfl rfl
    rw [List.cons_append, Lexer.reads_cons, Lexer.past_cons, Lexer.advance_decided hs.held,
      Lexer.decision_eq (.openIdentifier rfl) hs.mode]
    exact ⟨List.forall_mem_cons.2 ⟨rfl, fun g hg => isGap_quoted (hquoted g hg)⟩, hidle⟩
  · have hrest : ∀ d ∈ rest.takeWhile isOfName, isIdentChar d = true ∨ d = '$' :=
      fun d hd => isOfName_cases (List.all_eq_true.1 List.all_takeWhile d hd)
    refine ⟨by rw [List.cons_append, List.takeWhile_append_dropWhile], fun s hs => ?_⟩
    obtain ⟨hreads, hidle⟩ := Lexer.reads_ident (isIdentChar_of_beginsName hc) hrest
      (rest.dropWhile isOfName) hs
    refine ⟨fun g hg => ?_, hidle⟩
    rw [hreads] at hg
    obtain ⟨d, hd, rfl⟩ := List.mem_map.1 hg
    refine isBlank_of_name ?_
    rcases List.mem_cons.1 hd with rfl | hd
    · exact Or.inl (isIdentChar_of_beginsName hc)
    · exact hrest d hd

theorem ident?_arrives {t name behind : List Char} (h : ident? t = some (name, behind)) :
    Arrives t behind := by
  obtain ⟨rfl, hreads⟩ := ident?_reads h
  exact ⟨name, rfl, fun s hs => (hreads s hs).2⟩

/-! ## §4. The head. -/

/-- **The parenthesis that a head ends with is read in code.** -/
theorem head?_arrives {t : List Char} {head : Head} (h : head? t = some head) :
    Arrives t ('(' :: head.body) := by
  unfold head? at h
  obtain ⟨a, htable, h⟩ := Option.bind_eq_some_iff.1 h
  obtain ⟨b, hblanks, h⟩ := Option.bind_eq_some_iff.1 h
  obtain ⟨⟨first, behind⟩, hfirst, h⟩ := Option.bind_eq_some_iff.1 h
  have hfront : Arrives t behind := by
    refine (trimStart_arrives t).trans ((createTable?_arrives htable).trans
      ((blanks?_arrives hblanks).trans (Arrives.trans ?_ (ident?_arrives hfirst))))
    -- the words in front of the name may be there or not
    cases hexists : ((keywordBlanks? "IF" b).bind (keywordBlanks? "NOT")).bind
        (keywordBlanks? "EXISTS") with
    | none => exact arrives_refl b
    | some c =>
      obtain ⟨x, hx, hc⟩ := Option.bind_eq_some_iff.1 hexists
      obtain ⟨y, hy, hx⟩ := Option.bind_eq_some_iff.1 hx
      exact (keywordBlanks?_arrives (forall_chars (by decide)) hy).trans
        ((keywordBlanks?_arrives (forall_chars (by decide)) hx).trans (keywordBlanks?_arrives (forall_chars (by decide)) hc))
  have hopen : ∀ {u body : List Char}, trimStart u = '(' :: body → Arrives u ('(' :: body) := by
    intro u body hu
    have harrives := trimStart_arrives u
    rwa [hu] at harrives
  dsimp only at h
  split at h
  · next body hbody =>
    cases h
    exact hfront.trans (hopen hbody)
  · next behind' hdot =>
    obtain ⟨⟨name, last⟩, hname, h⟩ := Option.bind_eq_some_iff.1 h
    have hsecond : Arrives behind last := by
      have harrives := trimStart_arrives behind
      rw [hdot] at harrives
      exact harrives.trans ((arrives_cons (by decide) behind').trans
        ((trimStart_arrives behind').trans (ident?_arrives hname)))
    dsimp only at h
    split at h
    · next body hbody =>
      cases h
      exact hfront.trans (hsecond.trans (hopen hbody))
    · cases h
  · cases h

end SchemaDrift.Table
