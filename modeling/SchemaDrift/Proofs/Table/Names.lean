/-
  SchemaDrift.Proofs.Table.Names
  ──────────────────────────────
  **A WRITTEN NAME IN A DEFINITION IS READ AS THE NAME.**

  Whatever characters a name is made of, its written form is a single token of code without
  gaps and brackets (`tokenize_quoteChars`), and the name is got back from it
  (`unquoteIdent_quoteChars`).  Names with dots between them are cut at these dots only.

      Solid              a glyph that goes on with a word, or is quoted
      part_of_solid      a text of such glyphs is a part
      dotParts_name      the dots inside of quotes do not count
-/

import SchemaDrift.Proofs.Alter.Clause
import SchemaDrift.Proofs.Table.Parts

namespace SchemaDrift.Table

open SchemaDrift.Sql SchemaDrift.Text
open SchemaDrift.Alter (isNameChar)

/-! ## §1. The characters of a name. -/

/-- What holds of a character of names without quotes. -/
structure NameLetter (c : Char) : Prop where
  ident : isIdentChar c = true ∨ c = '$'
  token : isTokenChar c = true
  notBlank : isBlank c = false
  lower : c ≠ 'Σ' ∧ c ≠ 'İ' ∧ lowerChar c = c
  /-- It is got back from its capital. -/
  capital : c.toUpper.toLower = c
  notDot : c ≠ '.'
  notQuote : c ≠ '"'

theorem nameLetter {c : Char} (hc : isNameChar c = true) : NameLetter c := by
  have hlt : c.toNat < 128 := by
    unfold isNameChar at hc
    simp only [Bool.or_eq_true, beq_iff_eq] at hc
    rcases hc with ((hc | hc) | rfl) | rfl
    · unfold Char.isLower at hc
      simp only [Bool.and_eq_true, decide_eq_true_eq] at hc
      have hhigh : c.val.toNat ≤ 122 := UInt32.le_iff_toNat_le.1 hc.2
      show c.val.toNat < 128
      omega
    · unfold Char.isDigit at hc
      simp only [Bool.and_eq_true, decide_eq_true_eq] at hc
      have hhigh : c.val.toNat ≤ 57 := UInt32.le_iff_toNat_le.1 hc.2
      show c.val.toNat < 128
      omega
    · decide
    · decide
  -- one by one
  have hall : ∀ n < 128, isNameChar (Char.ofNat n) = true →
      (isIdentChar (Char.ofNat n) = true ∨ Char.ofNat n = '$')
        ∧ isTokenChar (Char.ofNat n) = true ∧ isBlank (Char.ofNat n) = false
        ∧ (Char.ofNat n ≠ 'Σ' ∧ Char.ofNat n ≠ 'İ' ∧ lowerChar (Char.ofNat n) = Char.ofNat n)
        ∧ (Char.ofNat n).toUpper.toLower = Char.ofNat n
        ∧ Char.ofNat n ≠ '.' ∧ Char.ofNat n ≠ '"' := by
    decide +kernel
  have hof := hall c.toNat hlt
  rw [Char.ofNat_toNat] at hof
  obtain ⟨hident, htoken, hblank, hlower, hcapital, hdot, hquote⟩ := hof hc
  exact ⟨hident, htoken, hblank, hlower, hcapital, hdot, hquote⟩

/-- A name without quotes begins with a letter and goes on with characters of names; it is
no reserved word. -/
theorem plain_cases {n : List Char} (h : isPlainIdent n = true) :
    ∃ c rest, n = c :: rest ∧ (c.isLower = true ∨ c = '_') ∧ (∀ d ∈ n, isNameChar d = true)
      ∧ String.ofList n ∉ reservedWords := by
  cases n with
  | nil => cases h
  | cons c rest =>
    unfold isPlainIdent at h
    simp only [Bool.and_eq_true, Bool.or_eq_true, beq_iff_eq, Bool.not_eq_true'] at h
    obtain ⟨⟨hc, hrest⟩, hreserved⟩ := h
    refine ⟨c, rest, rfl, hc, ?_, ?_⟩
    · refine List.forall_mem_cons.2 ⟨?_, fun d hd => List.all_eq_true.1 hrest d hd⟩
      unfold isNameChar
      rcases hc with hc | rfl
      · simp [hc]
      · rfl
    · intro hmem
      rw [List.contains_iff_mem.2 hmem] at hreserved
      cases hreserved

/-! ## §2. How a name is classified. -/

/-- **A name without quotes is code.** -/
theorem classify_plain {n : List Char} (h : isPlainIdent n = true) :
    classify n = n.map (⟨·, .code⟩) ∧ Complete n := by
  obtain ⟨c, rest, rfl, hc, hall, -⟩ := plain_cases h
  have hident : isIdentChar c = true := by
    rcases (nameLetter (hall c List.mem_cons_self)).ident with h | rfl
    · exact h
    · rcases hc with hc | hc
      · cases hc
      · cases hc
  obtain ⟨hreads, hpast⟩ := Lexer.reads_ident hident
    (fun d hd => (nameLetter (hall d (List.mem_cons_of_mem _ hd))).ident) []
    Lexer.fresh_start.toIdle
  rw [Lexer.reads_whole] at hreads
  rw [Lexer.past_whole] at hpast
  exact ⟨hreads, hpast⟩

/-- In double quotes all is quoted up to a quote that stands alone. -/
theorem reads_doubleQuotes (n : List Char) {s : Lexer} (hmode : s.mode = .identifier)
    (hheld : s.held = 0) : s.glyphs (doubleQuotes n ++ ['"'])
        = (doubleQuotes n ++ ['"']).map (⟨·, .quoted⟩)
      ∧ (s.after (doubleQuotes n ++ ['"'])).Idle := by
  induction n generalizing s with
  | nil =>
    rw [doubleQuotes, List.nil_append, Lexer.glyphs, Lexer.after, Lexer.advance_decided hheld,
      Lexer.decision_eq (.closeIdentifier rfl (by simp)) hmode]
    exact ⟨rfl, rfl, rfl⟩
  | cons c n ih =>
    unfold doubleQuotes
    by_cases hc : c = '"'
    · rw [if_pos hc]
      rw [List.cons_append, List.cons_append, Lexer.glyphs, Lexer.glyphs, Lexer.after, Lexer.after,
        Lexer.advance_decided hheld, Lexer.decision_eq (.doubledDouble rfl rfl) hmode,
        Lexer.advance_held (n := 0) rfl]
      obtain ⟨hglyphs, hidle⟩ :=
        ih (s := ⟨.identifier, 0, .quoted, some '"', some '"'⟩) rfl rfl
      rw [hglyphs]
      exact ⟨rfl, hidle⟩
    · rw [if_neg hc]
      rw [List.cons_append, Lexer.glyphs, Lexer.after, Lexer.advance_decided hheld,
        Lexer.decision_eq (.identifier hc) hmode]
      obtain ⟨hglyphs, hidle⟩ := ih (s := ⟨.identifier, 0, .quoted, some c, s.last⟩) rfl rfl
      rw [hglyphs]
      exact ⟨rfl, hidle⟩

/-- **A name in quotes is quoted.** -/
theorem classify_quoted (n : List Char) :
    classify ('"' :: doubleQuotes n ++ ['"']) = ('"' :: doubleQuotes n ++ ['"']).map (⟨·, .quoted⟩)
      ∧ Complete ('"' :: doubleQuotes n ++ ['"']) := by
  obtain ⟨hglyphs, hidle⟩ :=
    reads_doubleQuotes n (s := ⟨.identifier, 0, .quoted, some '"', none⟩) rfl rfl
  unfold classify Complete
  rw [List.cons_append, Lexer.glyphs, Lexer.after, Lexer.advance_decided rfl,
    Lexer.decision_eq (.openIdentifier rfl) rfl, hglyphs]
  exact ⟨rfl, hidle⟩

/-! ## §3. Solid texts. -/

/-- The glyph goes on with a word, or is quoted. -/
def Solid (g : Glyph) : Prop := g.cls = .quoted ∨ g.cls = .code ∧ isTokenChar g.char = true

theorem Solid.not_isGap {g : Glyph} (h : Solid g) : g.isGap = false := by
  rcases h with h | ⟨h, hword⟩
  · exact isGap_quoted h
  · rw [isGap_code h]
    by_contra hblank
    rw [isTokenChar_of_isBlank (by simpa using hblank)] at hword
    cases hword

theorem Solid.not_isCode {g : Glyph} (h : Solid g) {c : Char} (hc : isTokenChar c = false) :
    g.isCode c = false := by
  by_contra hcode
  rw [Bool.not_eq_false, Glyph.isCode_iff] at hcode
  subst hcode
  rcases h with h | ⟨-, hword⟩
  · cases h
  · rw [show isTokenChar c = true from hword] at hc
    cases hc

theorem Solid.not_isBracket {g : Glyph} (h : Solid g) : isBracket g = false := by
  unfold isBracket
  rw [h.not_isCode (isTokenChar_bracket (c := '(') (by decide)),
    h.not_isCode (isTokenChar_bracket (c := ')') (by decide)),
    h.not_isCode (isTokenChar_bracket (c := '[') (by decide)),
    h.not_isCode (isTokenChar_bracket (c := ']') (by decide))]
  rfl

/-- What has no comma in code is not cut. -/
theorem uncut_of_none {gs : List Glyph} (h : ∀ g ∈ gs, g.isCode ',' = false) : Uncut gs := by
  rintro pre post rfl -
  have hcomma := h ⟨',', .code⟩ (by simp)
  cases hcomma

/-- What nested brackets without commas outside of them are to the cut at commas. -/
theorem whole_of_uncut {p : List Char} (hnested : Nested (classify p)) (huncut : Uncut (classify p))
    (hs : List Glyph) : commaParts 0 0 (classify p ++ hs) = prepend p (commaParts 0 0 hs) := by
  rw [commaParts_nested hnested fun _ => huncut, classify_map_char]

/-- **A text of solid glyphs that ends in code is a part.** -/
theorem part_of_solid {p : List Char} (hne : p ≠ []) (hcomplete : Complete p)
    (hsolid : ∀ g ∈ classify p, Solid g) : Part p := by
  have hnested : Nested (classify p) :=
    nested_of_none fun g hg => (hsolid g hg).not_isBracket
  refine ⟨hcomplete, ?_, hnested, whole_of_uncut hnested ?_, ?_, ?_⟩
  · intro g hg hcomment
    rcases hsolid g hg with h | ⟨h, -⟩
    · rw [h] at hcomment
      cases hcomment
    · rw [h] at hcomment
      cases hcomment
  · exact uncut_of_none fun g hg => (hsolid g hg).not_isCode
      (isTokenChar_bracket (c := ',') (by decide))
  · cases hclassify : classify p with
    | nil =>
      have hnil := classify_map_char p
      rw [hclassify] at hnil
      exact absurd hnil.symm hne
    | cons g gs =>
      refine ⟨g, gs, rfl, (hsolid g ?_).not_isGap⟩
      rw [hclassify]
      exact List.mem_cons_self
  · exact fun g hg => (hsolid g (List.mem_of_getLast? hg)).not_isGap

/-- The tokens of solid glyphs touch, and none of them is a group. -/
theorem row_solid {gs : List Glyph} (h : ∀ g ∈ gs, Solid g) {r : Reading} (hr : ¬r.InGroup) :
    (r.row gs).gap = [] ∧ ∀ t ∈ (r.row gs).tokens, t.gap = [] ∧ t.kind ≠ .group := by
  induction gs generalizing r with
  | nil => exact ⟨rfl, List.forall_mem_nil _⟩
  | cons g gs ih =>
    have hg := h g List.mem_cons_self
    have hout := next_outside hr hg.not_isBracket
    unfold Reading.next at hout
    have ih := ih (fun g hg => h g (List.mem_cons_of_mem _ hg)) hout
    rw [row_cons]
    cases hrole : r.role g with
    | more r' =>
      rw [hrole] at ih
      exact ih
    | gap =>
      have hgap := isGap_of_role hrole
      rw [hg.not_isGap] at hgap
      cases hgap
    | start kind r' =>
      rw [hrole] at ih hout
      refine ⟨rfl, List.forall_mem_cons.2 ⟨⟨ih.1, ?_⟩, ih.2⟩⟩
      rintro rfl
      -- a group would begin with a bracket
      rcases role_outside hr g with hfresh | ⟨r'', hmore, -⟩
      · rcases freshRole_group g with hgap | ⟨kind, r'', hstart, hgroup, -⟩
        · rw [hfresh, hgap] at hrole
          cases hrole
        · rw [hfresh, hstart] at hrole
          obtain ⟨rfl, rfl⟩ := Role.start.inj hrole
          exact hout ⟨g.char, 0, (hgroup rfl).1⟩
      · rw [hmore] at hrole
        cases hrole

/-! ## §4. Names. -/

/-- A word goes on to its end. -/
theorem row_word {p : List Char} (hp : ∀ c ∈ p, isTokenChar c = true) :
    Reading.word.row (p.map (⟨·, .code⟩)) = ⟨p, [], []⟩ := by
  induction p with
  | nil => rfl
  | cons c p ih =>
    have hrole : Reading.word.role ⟨c, .code⟩ = .more .word := by
      unfold Reading.role
      simp [hp c List.mem_cons_self]
    rw [List.map_cons, row_cons, hrole]
    dsimp only
    rw [ih fun d hd => hp d (List.mem_cons_of_mem _ hd)]

/-- What is quoted goes on to its end. -/
theorem row_quoted (p : List Char) :
    Reading.quoted.row (p.map (⟨·, .quoted⟩)) = ⟨p, [], []⟩ := by
  induction p with
  | nil => rfl
  | cons c p ih =>
    rw [List.map_cons, row_cons, show Reading.quoted.role ⟨c, .quoted⟩ = .more .quoted from rfl]
    dsimp only
    rw [ih]

/-- The kind of token that a written name is. -/
def nameKind (n : List Char) : TokenKind := if isPlainIdent n then .word else .quotedIdent

/-- **A written name is one token.** -/
theorem tokenize_quoteChars (n : List Char) :
    tokenize (quoteChars n) = [⟨nameKind n, quoteChars n, []⟩] := by
  unfold tokenize quoteChars nameKind
  by_cases hplain : isPlainIdent n = true
  · rw [if_pos hplain, if_pos hplain, (classify_plain hplain).1]
    obtain ⟨c, rest, rfl, -, hall, -⟩ := plain_cases hplain
    have hword : ∀ d ∈ c :: rest, isTokenChar d = true :=
      fun d hd => (nameLetter (hall d hd)).token
    have hc := hword c List.mem_cons_self
    have hblank : isBlank c = false := by
      by_contra hblank
      rw [isTokenChar_of_isBlank (by simpa using hblank)] at hc
      cases hc
    have hbracket : c ≠ '(' ∧ c ≠ '[' := by
      refine ⟨?_, ?_⟩
      · rintro rfl
        rw [isTokenChar_bracket (c := '(') (by decide)] at hc
        cases hc
      · rintro rfl
        rw [isTokenChar_bracket (c := '[') (by decide)] at hc
        cases hc
    -- a plain name begins a word, and is all of it
    have hrole : Reading.between.role ⟨c, .code⟩ = .start .word .word := by
      unfold Reading.role freshRole
      simp [hblank, hbracket.1, hbracket.2, hc]
    rw [List.map_cons, row_cons, hrole]
    dsimp only
    rw [row_word fun d hd => hword d (List.mem_cons_of_mem _ hd)]
  · rw [if_neg hplain, if_neg hplain, (classify_quoted n).1, List.cons_append, List.map_cons,
      row_cons, show Reading.between.role ⟨'"', .quoted⟩ = .start .quotedIdent .quoted from rfl]
    dsimp only
    rw [row_quoted]

/-- The glyphs of a written name. -/
theorem solid_quoteChars (n : List Char) : Complete (quoteChars n)
    ∧ ∀ g ∈ classify (quoteChars n), Solid g := by
  unfold quoteChars
  by_cases hplain : isPlainIdent n = true
  · obtain ⟨hclassify, hcomplete⟩ := classify_plain hplain
    obtain ⟨c, rest, rfl, -, hall, -⟩ := plain_cases hplain
    rw [if_pos hplain, hclassify]
    refine ⟨hcomplete, fun g hg => ?_⟩
    obtain ⟨d, hd, rfl⟩ := List.mem_map.1 hg
    exact Or.inr ⟨rfl, (nameLetter (hall d hd)).token⟩
  · obtain ⟨hclassify, hcomplete⟩ := classify_quoted n
    rw [if_neg hplain, hclassify]
    refine ⟨hcomplete, fun g hg => ?_⟩
    obtain ⟨d, -, rfl⟩ := List.mem_map.1 hg
    exact Or.inl rfl

theorem quoteChars_ne_nil (n : List Char) : quoteChars n ≠ [] := by
  unfold quoteChars
  split
  · next hplain =>
    rintro rfl
    cases hplain
  · exact List.cons_ne_nil _ _

theorem part_quoteChars (n : List Char) : Part (quoteChars n) :=
  part_of_solid (quoteChars_ne_nil n) (solid_quoteChars n).1 (solid_quoteChars n).2

/-- A text without white space at its ends is left as it is by a trim. -/
theorem trim_of_ends {s : List Char} (hfirst : ∀ c ∈ s.head?, isBlank c = false)
    (hlast : ∀ c ∈ s.getLast?, isBlank c = false) : trim s = s := by
  have hstart : trimStart s = s := by
    cases s with
    | nil => rfl
    | cons c s => exact List.dropWhile_cons_of_neg (by simp [hfirst c rfl])
  unfold trim
  rw [hstart]
  refine List.rdropWhile_eq_self_iff.2 fun hne => ?_
  rw [hlast _ (List.getLast?_eq_some_getLast hne)]
  decide

/-- A written name has no white space at its ends. -/
theorem ends_quoteChars (n : List Char) : (∀ c ∈ (quoteChars n).head?, isBlank c = false)
    ∧ ∀ c ∈ (quoteChars n).getLast?, isBlank c = false := by
  unfold quoteChars
  by_cases hplain : isPlainIdent n = true
  · obtain ⟨c, rest, rfl, -, hall, -⟩ := plain_cases hplain
    rw [if_pos hplain]
    exact ⟨fun d hd => (nameLetter (hall d (List.mem_of_head? hd))).notBlank,
      fun d hd => (nameLetter (hall d (List.mem_of_getLast? hd))).notBlank⟩
  · rw [if_neg hplain]
    refine ⟨fun d hd => ?_, fun d hd => ?_⟩
    · obtain rfl := Option.some.inj hd
      decide
    · rw [List.cons_append, ← List.cons_append, List.getLast?_concat] at hd
      obtain rfl := Option.some.inj hd
      decide

/-- Letters of names are in lower case. -/
theorem lowercase_name {n : List Char} (hn : ∀ c ∈ n, isNameChar c = true) : lowercase n = n := by
  have hafter : ∀ (n before : List Char), (∀ c ∈ n, isNameChar c = true) →
      lowercaseAfter before n = n := by
    intro n
    induction n with
    | nil => exact fun _ _ => rfl
    | cons c n ih =>
      intro before hn
      obtain ⟨hsigma, hdotted, hlower⟩ := (nameLetter (hn c List.mem_cons_self)).lower
      rw [lowercaseAfter, if_neg hsigma, if_neg hdotted, hlower,
        ih _ fun d hd => hn d (List.mem_cons_of_mem _ hd)]
      rfl
  exact hafter n [] hn

/-- **The name is got back from its written form.** -/
theorem unquoteIdent_quoteChars (n : List Char) :
    unquoteIdent (quoteChars n) = String.ofList n := by
  unfold unquoteIdent unquoteChars
  rw [trim_of_ends (ends_quoteChars n).1 (ends_quoteChars n).2]
  unfold quoteChars
  by_cases hplain : isPlainIdent n = true
  · obtain ⟨c, rest, rfl, -, hall, -⟩ := plain_cases hplain
    have hquote : c ≠ '"' := by
      rintro rfl
      exact absurd (hall '"' List.mem_cons_self) (by decide)
    have hnone : quotedInside? (c :: rest) = none := by
      unfold quotedInside?
      split
      · next he => exact absurd (List.cons.inj he).1 hquote
      · rfl
    rw [if_pos hplain]
    dsimp only
    rw [hnone]
    exact congrArg String.ofList (lowercase_name hall)
  · have hinside : quotedInside? ('"' :: doubleQuotes n ++ ['"']) = some (doubleQuotes n) := by
      rw [List.cons_append]
      unfold quotedInside?
      simp only [List.getLast?_concat, List.dropLast_concat]
    rw [if_neg hplain]
    dsimp only
    rw [hinside]
    exact congrArg String.ofList (halveQuotes_doubleQuotes n)

/-- A character that is no dot, or inside of quotes, goes to the part that follows. -/
theorem dotParts_cons {inQuotes : Bool} {c : Char} (hc : (c = '.' && !inQuotes) = false)
    (rest : List Char) : dotParts inQuotes (c :: rest)
      = prepend [c] (dotParts (if c = '"' then !inQuotes else inQuotes) rest) := by
  rw [dotParts, hc, if_neg (by decide)]
  cases dotParts (if c = '"' then !inQuotes else inQuotes) rest with
  | nil => rfl
  | cons part parts => rfl

/-- The dots inside of quotes do not cut a text. -/
theorem dotParts_quoted (n w : List Char) : dotParts true (doubleQuotes n ++ '"' :: w)
    = prepend (doubleQuotes n ++ ['"']) (dotParts false w) := by
  induction n with
  | nil => exact dotParts_cons rfl w
  | cons c n ih =>
    unfold doubleQuotes
    by_cases hc : c = '"'
    · rw [if_pos hc, List.cons_append, List.cons_append, dotParts_cons rfl]
      show prepend ['"'] (dotParts false ('"' :: _)) = _
      rw [dotParts_cons rfl]
      show prepend ['"'] (prepend ['"'] (dotParts true _)) = _
      rw [ih, prepend_prepend, prepend_prepend]
      rfl
    · rw [if_neg hc, List.cons_append, dotParts_cons (by simp), if_neg hc, ih, prepend_prepend]
      rfl

/-- **A written name is not cut at dots**, whatever follows. -/
theorem dotParts_name (n w : List Char) :
    dotParts false (quoteChars n ++ w) = prepend (quoteChars n) (dotParts false w) := by
  unfold quoteChars
  by_cases hplain : isPlainIdent n = true
  · obtain ⟨-, -, -, -, hall, -⟩ := plain_cases hplain
    rw [if_pos hplain]
    -- no letter of a plain name is a dot or a quote
    clear hplain
    induction n with
    | nil =>
      obtain ⟨part, parts, hparts⟩ : ∃ part parts, dotParts false w = part :: parts := by
        cases w with
        | nil => exact ⟨[], [], rfl⟩
        | cons c w =>
          rw [dotParts]
          split
          · exact ⟨_, _, rfl⟩
          · split
            · exact ⟨_, _, rfl⟩
            · exact ⟨_, _, rfl⟩
      rw [List.nil_append, hparts]
      rfl
    | cons c n ih =>
      have hc := nameLetter (hall c List.mem_cons_self)
      rw [List.cons_append, dotParts_cons (by simp [hc.notDot]), if_neg hc.notQuote,
        ih fun d hd => hall d (List.mem_cons_of_mem _ hd), prepend_prepend]
      rfl
  · rw [if_neg hplain, List.append_assoc, List.cons_append, dotParts_cons rfl]
    show prepend ['"'] (dotParts true (doubleQuotes n ++ '"' :: w)) = _
    rw [dotParts_quoted, prepend_prepend]
    rfl

/-- A name with the name of its schema in front, if there is one, as it is written. -/
def qualified (schema : Option (List Char)) (n : List Char) : List Char :=
  match schema with
  | some s => quoteChars s ++ '.' :: quoteChars n
  | none => quoteChars n

/-- **A qualified name is cut at its dot**, if it has one. -/
theorem splitQualified_qualified (schema : Option (List Char)) (n : List Char) :
    splitQualified (qualified schema n)
      = (schema.map String.ofList).toList ++ [String.ofList n] := by
  have hone : ∀ n, dotParts false (quoteChars n) = [quoteChars n] := by
    intro n
    have h := dotParts_name n []
    rw [List.append_nil] at h
    rw [h]
    simp [dotParts, prepend]
  unfold splitQualified qualified
  cases schema with
  | none =>
    dsimp only
    rw [hone, List.map_singleton, unquoteIdent_quoteChars]
    rfl
  | some s =>
    have hdot : dotParts false ('.' :: quoteChars n) = [[], quoteChars n] := by
      rw [dotParts, if_pos (by decide), hone]
    dsimp only
    rw [dotParts_name, hdot, prepend, List.append_nil, List.map_cons, List.map_singleton,
      unquoteIdent_quoteChars, unquoteIdent_quoteChars]
    rfl

/-- A qualified name is a part, and its tokens touch. -/
theorem qualified_solid (schema : Option (List Char)) (n : List Char) :
    Part (qualified schema n)
      ∧ ∀ t ∈ tokenize (qualified schema n), t.gap = [] ∧ t.kind ≠ .group := by
  have hsolid : Complete (qualified schema n) ∧ ∀ g ∈ classify (qualified schema n), Solid g := by
    obtain ⟨hname, hglyphs⟩ := solid_quoteChars n
    unfold qualified
    cases schema with
    | none => exact ⟨hname, hglyphs⟩
    | some s =>
      obtain ⟨hschema, hglyphs'⟩ := solid_quoteChars s
      have hfirm : IsFirm '.' := isFirm_between (by decide)
      refine ⟨complete_join hschema hfirm hname, ?_⟩
      dsimp only
      rw [classify_join hschema hfirm]
      intro g hg
      rcases List.mem_append.1 hg with hg | hg
      · exact hglyphs' g hg
      · rcases List.mem_cons.1 hg with rfl | hg
        · exact Or.inr ⟨rfl, by decide +kernel⟩
        · exact hglyphs g hg
  have hne : qualified schema n ≠ [] := by
    unfold qualified
    cases schema with
    | none => exact quoteChars_ne_nil n
    | some s => simp
  exact ⟨part_of_solid hne hsolid.1 hsolid.2, (row_solid hsolid.2 between_outside).2⟩

/-- A text that does not begin with a gap does not begin with white space. -/
theorem isBlank_first {p : List Char} {g : Glyph} {gs : List Glyph} (hp : classify p = g :: gs)
    (hg : g.isGap = false) : ∀ c ∈ p.head?, isBlank c = false := by
  cases p with
  | nil => cases hp
  | cons c p =>
    intro d hd
    obtain rfl := Option.some.inj hd
    have henters := Lexer.advance_enters (Lexer.sound_start (c :: p))
    rw [show (⟨c, (({} : Lexer).advance c p).1⟩ : Glyph) = g from (List.cons.inj hp).1] at henters
    obtain rfl : g.char = c := congrArg Glyph.char (List.cons.inj hp).1.symm
    obtain ⟨c, cls⟩ := g
    cases cls with
    | comment => cases hg
    | code => exact hg
    | quoted =>
      -- what is quoted begins with a quote
      rcases henters with hcls | ⟨-, hopens⟩ | ⟨hcls, -⟩
      · cases hcls
      · by_contra hblank
        rw [Bool.not_eq_false] at hblank
        rw [show CharClass.quoted.opens c = isQuote c from rfl, isQuote_of_isBlank hblank] at hopens
        cases hopens
      · cases hcls

/-- **A part is a list of one.** -/
theorem splitTopLevel_part {p : List Char} (hp : Part p) : splitTopLevel p = [p] := by
  obtain ⟨g, gs, hclassify, hg⟩ := hp.begins
  have hwhole := hp.whole []
  rw [List.append_nil] at hwhole
  have hparts : commaParts 0 0 (classify p) = [p] := by
    rw [hwhole]
    simp [commaParts, prepend]
  have hne : p.isEmpty = false := by
    cases p with
    | nil => cases hclassify
    | cons c p => rfl
  unfold splitTopLevel
  rw [hparts, List.map_singleton,
    trim_of_ends (isBlank_first hclassify hg) (isBlank_last hp.complete hp.ends),
    List.filter_singleton, hne]
  rfl

/-- The list of one name. -/
theorem columnList_quoteChars (n : List Char) : columnList (quoteChars n) = [String.ofList n] := by
  unfold columnList
  rw [splitTopLevel_part (part_quoteChars n), List.map_singleton, unquoteIdent_quoteChars]

end SchemaDrift.Table
