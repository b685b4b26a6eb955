/-
  SchemaDrift.Proofs.Json.RoundTrip
  ─────────────────────────────────
  **WHAT IS WRITTEN AS JSON IS READ BACK.**

  A PLAIN value is made of texts, truth values, numbers that count, and nothing else.  The
  reader takes the written form of a plain value off the front of any text that does not go
  on with a number (`value?_render`), however deep the value stands, and so a text that is
  nothing but a written value is read as that value (`parse?_toText`).

  The induction is on how the value is made; arrays and objects are rows of values that are
  read back each (`elements?_render`, `members?_render`).  The number of steps is counted
  in characters: every step takes one off the front, and the brackets of an array and its
  line breaks pay for the steps that are spent between elements.
-/

import Mathlib.Data.List.Basic
import SchemaDrift.Json.Parse
import SchemaDrift.Json.Render

namespace SchemaDrift.Json

/-! ## §1. Blanks. -/

theorem skipBlanks_cons {c : Char} (hc : isBlank c = false) (s : List Char) :
    skipBlanks (c :: s) = c :: s := by
  unfold skipBlanks
  rw [List.dropWhile_cons, hc, if_neg Bool.false_ne_true]

theorem skipBlanks_append {ws : List Char} (hws : ∀ c ∈ ws, isBlank c = true) (s : List Char) :
    skipBlanks (ws ++ s) = skipBlanks s :=
  List.dropWhile_append_of_pos hws

theorem isBlank_newLine (depth : Nat) : ∀ c ∈ newLine depth, isBlank c = true := by
  intro c hc
  rcases List.mem_cons.1 hc with rfl | hc
  · rfl
  · rw [List.eq_of_mem_replicate hc]
    rfl

theorem skipBlanks_newLine (depth : Nat) (s : List Char) :
    skipBlanks (newLine depth ++ s) = skipBlanks s :=
  skipBlanks_append (isBlank_newLine depth) s

/-- Blanks in front of a value are skipped. -/
theorem value?_newLine (fuel depth : Nat) (s : List Char) :
    value? fuel (newLine depth ++ s) = value? fuel s := by
  cases fuel with
  | zero => rw [value?, value?]
  | succ fuel => rw [value?, value?, skipBlanks_newLine]

/-! ## §2. Strings. -/

/-- The four digits behind `\u` of a control character name it. -/
theorem unit?_control {n : Nat} (hn : n < 0x20) :
    unit? '0' '0' (Nat.digitChar (n / 16)) (Nat.digitChar (n % 16)) = some n := by
  have hall : ∀ n < 0x20,
      unit? '0' '0' (Nat.digitChar (n / 16)) (Nat.digitChar (n % 16)) = some n := by decide
  exact hall n hn

/-- A character is written with a backslash and one other, as a `\u` escape, or as itself. -/
theorem escapeChar_cases (c : Char) :
    (∃ e, e ≠ 'u' ∧ escaped? e = some c ∧ escapeChar c = ['\\', e])
      ∨ (c.toNat < 0x20 ∧ escapeChar c
          = ['\\', 'u', '0', '0', Nat.digitChar (c.toNat / 16), Nat.digitChar (c.toNat % 16)])
      ∨ (c ≠ '"' ∧ c ≠ '\\' ∧ ¬c.toNat < 0x20 ∧ escapeChar c = [c]) := by
  by_cases hquote : c = '"'
  · subst hquote
    exact Or.inl ⟨'"', by decide, rfl, rfl⟩
  by_cases hslash : c = '\\'
  · subst hslash
    exact Or.inl ⟨'\\', by decide, rfl, rfl⟩
  by_cases hback : c = '\x08'
  · subst hback
    exact Or.inl ⟨'b', by decide, rfl, rfl⟩
  by_cases hpage : c = '\x0c'
  · subst hpage
    exact Or.inl ⟨'f', by decide, rfl, rfl⟩
  by_cases hfeed : c = '\n'
  · subst hfeed
    exact Or.inl ⟨'n', by decide, rfl, rfl⟩
  by_cases hreturn : c = '\r'
  · subst hreturn
    exact Or.inl ⟨'r', by decide, rfl, rfl⟩
  by_cases htab : c = '\t'
  · subst htab
    exact Or.inl ⟨'t', by decide, rfl, rfl⟩
  unfold escapeChar
  rw [if_neg hquote, if_neg hslash, if_neg hback, if_neg hpage, if_neg hfeed, if_neg hreturn,
    if_neg htab]
  by_cases hcontrol : c.toNat < 0x20
  · rw [if_pos hcontrol]
    exact Or.inr (Or.inl ⟨hcontrol, rfl⟩)
  · rw [if_neg hcontrol]
    exact Or.inr (Or.inr ⟨hquote, hslash, hcontrol, rfl⟩)

/-- A unit that is no half of a pair stands for the character of its number. -/
theorem text?_unit {n : Nat} (hn : n < 0x20) (ps : List Piece) :
    text? (.unit n :: ps) = (text? ps).map (Char.ofNat n :: ·) := by
  have htrail : isTrail n = false := by
    unfold isTrail
    rw [Bool.and_eq_false_iff, decide_eq_false_iff_not]
    omega
  have hlead : isLead n = false := by
    unfold isLead
    rw [Bool.and_eq_false_iff, decide_eq_false_iff_not]
    omega
  conv_lhs => unfold text?
  rw [htrail, hlead]
  rfl

/-- **A character is read back from its written form**, as a piece that stands for it. -/
theorem pieces?_escapeChar (c : Char) (s : List Char) :
    ∃ p, pieces? (escapeChar c ++ s) = (pieces? s).map (fun r => (p :: r.1, r.2))
      ∧ ∀ ps, text? (p :: ps) = (text? ps).map (c :: ·) := by
  rcases escapeChar_cases c with ⟨e, he, hescaped, h⟩ | ⟨hcontrol, h⟩ | ⟨hquote, hslash, hlarge, h⟩
  · refine ⟨.char c, ?_, fun _ => rfl⟩
    rw [h]
    show pieces? ('\\' :: e :: s) = _
    rw [pieces?.eq_4 e s (fun _ _ _ _ _ hu _ => he hu), hescaped]
    rfl
  · refine ⟨.unit c.toNat, ?_, ?_⟩
    · rw [h]
      show pieces? ('\\' :: 'u' :: '0' :: '0' :: _ :: _ :: s) = _
      rw [pieces?, unit?_control hcontrol]
      rfl
    · intro ps
      rw [text?_unit hcontrol, Char.ofNat_toNat]
  · refine ⟨.char c, ?_, fun _ => rfl⟩
    rw [h]
    show pieces? (c :: s) = _
    rw [pieces?.eq_5 c s hquote (fun _ _ _ _ _ hc _ => hslash hc) (fun _ _ hc _ => hslash hc),
      if_neg hlarge]

/-- **A string is read back from its written form.** -/
theorem pieces?_string (s : List Char) (rest : List Char) :
    ∃ ps, pieces? (s.flatMap escapeChar ++ '"' :: rest) = some (ps, rest)
      ∧ text? ps = some s := by
  induction s with
  | nil => exact ⟨[], rfl, rfl⟩
  | cons c s ih =>
    obtain ⟨ps, hps, htext⟩ := ih
    obtain ⟨p, hp, hpiece⟩ := pieces?_escapeChar c (s.flatMap escapeChar ++ '"' :: rest)
    refine ⟨p :: ps, ?_, ?_⟩
    · rw [List.flatMap_cons, List.append_assoc, hp, hps]
      rfl
    · rw [hpiece, htext]
      rfl

theorem pieces?_renderString (s : String) (rest : List Char) :
    ∃ ps, renderString s ++ rest = '"' :: (s.toList.flatMap escapeChar ++ '"' :: rest)
      ∧ pieces? (s.toList.flatMap escapeChar ++ '"' :: rest) = some (ps, rest)
      ∧ textOf? ps = some s := by
  obtain ⟨ps, hps, htext⟩ := pieces?_string s.toList rest
  refine ⟨ps, ?_, hps, ?_⟩
  · unfold renderString
    simp
  · unfold textOf?
    rw [htext, Option.map_some, String.ofList_toList]

/-! ## §3. Numbers. -/

/-- What a number is not followed by. -/
def EndsNumber (rest : List Char) : Prop :=
  ∀ c ∈ rest.head?, c.isDigit = false ∧ c ≠ '.' ∧ c ≠ 'e' ∧ c ≠ 'E'

theorem endsNumber_newLine (depth : Nat) (rest : List Char) :
    EndsNumber (newLine depth ++ rest) := by
  intro c hc
  obtain rfl := Option.some.inj hc
  decide

/-- Only nought begins with the digit nought. -/
theorem digitsOfNat_zero {n : Nat} {rest : List Char} (h : digitsOfNat n = '0' :: rest) :
    rest = [] := by
  induction n using Nat.strongRecOn generalizing rest with
  | ind n ih =>
    unfold digitsOfNat at h ih
    by_cases hlt : n < 10
    · rw [Nat.toDigits_of_lt_base hlt] at h
      exact (List.cons.inj h).2.symm
    · rw [Nat.toDigits_of_base_le (by decide) (Nat.le_of_not_lt hlt)] at h
      rcases List.append_eq_cons_iff.1 h with ⟨hnil, -⟩ | ⟨more, hmore, -⟩
      · exact absurd hnil Nat.toDigits_ne_nil
      · -- the digits in front are those of a smaller number that is not nought
        have hsmall := ih (n / 10) (by omega) hmore
        rw [hsmall] at hmore
        have hvalue := congrArg (Nat.ofDigitChars 10 · 0) hmore
        simp only [Nat.ofDigitChars_toDigits (b := 10) (n := n / 10) (by decide) (by decide)]
          at hvalue
        have hzero : Nat.ofDigitChars 10 ['0'] 0 = 0 := by decide
        omega

theorem isDigit_digitsOfNat (n : Nat) : ∀ c ∈ digitsOfNat n, c.isDigit = true := by
  intro c hc
  exact Nat.isDigit_of_mem_toDigits (by decide) (by decide) hc

/-- Digits are taken up to what follows. -/
theorem takeWhile_digits {ds rest : List Char} (hds : ∀ c ∈ ds, c.isDigit = true)
    (hrest : EndsNumber rest) : (ds ++ rest).takeWhile Char.isDigit = ds
      ∧ (ds ++ rest).dropWhile Char.isDigit = rest := by
  have hhead : ∀ c ∈ rest.head?, ¬c.isDigit = true := by
    intro c hc
    rw [(hrest c hc).1]
    exact Bool.false_ne_true
  rw [List.takeWhile_append_of_pos hds, List.dropWhile_append_of_pos hds]
  cases rest with
  | nil => exact ⟨List.append_nil ds, rfl⟩
  | cons c rest =>
    rw [List.takeWhile_cons_of_neg (hhead c rfl), List.dropWhile_cons_of_neg (hhead c rfl)]
    exact ⟨List.append_nil ds, rfl⟩

/-- Neither a fraction nor an exponent is behind a number that ends. -/
theorem fraction?_ends {rest : List Char} (hrest : EndsNumber rest) :
    fraction? rest = some ([], rest) := by
  unfold fraction?
  split
  · next more => exact absurd rfl (hrest '.' rfl).2.1
  · rfl

theorem exponent?_ends {rest : List Char} (hrest : EndsNumber rest) :
    exponent? rest = some ([], rest) := by
  unfold exponent?
  split
  · next c more =>
    obtain ⟨-, -, he, hE⟩ := hrest c rfl
    have hnot : ¬(c = 'e' ∨ c = 'E') := by
      intro h
      rcases h with h | h
      · exact he h
      · exact hE h
    rw [if_neg (by simpa using hnot)]
  · rfl

/-- The whole part of a number that counts is all of it. -/
theorem whole?_digitsOfNat (n : Nat) {rest : List Char} (hrest : EndsNumber rest) :
    whole? (digitsOfNat n ++ rest) = some (digitsOfNat n, rest) := by
  unfold whole?
  split
  · next more hzero =>
    -- a number that begins with nought is nought
    rcases List.append_eq_cons_iff.1 hzero with ⟨hnil, -⟩ | ⟨ds, hds, rfl⟩
    · exact absurd hnil Nat.toDigits_ne_nil
    · obtain rfl := digitsOfNat_zero hds
      have hnone : rest.head?.any Char.isDigit = false := by
        cases rest with
        | nil => rfl
        | cons c rest => exact (hrest c rfl).1
      rw [List.nil_append, hnone, hds]
      rfl
  · obtain ⟨htake, hdrop⟩ := takeWhile_digits (isDigit_digitsOfNat n) hrest
    unfold digits?
    rw [htake, hdrop]
    split
    · next hnil => exact absurd hnil Nat.toDigits_ne_nil
    · rfl

/-- **A number that counts is read back.** -/
theorem number?_digitsOfNat (n : Nat) {rest : List Char} (hrest : EndsNumber rest) :
    number? (digitsOfNat n ++ rest) = some (digitsOfNat n, rest) := by
  unfold number?
  split
  next sign behind hsign =>
  split at hsign
  · next more hminus =>
    rcases List.append_eq_cons_iff.1 hminus with ⟨hnil, -⟩ | ⟨ds, hds, -⟩
    · exact absurd hnil Nat.toDigits_ne_nil
    · have hdigit := isDigit_digitsOfNat n '-' (by rw [hds]; exact List.mem_cons_self)
      exact absurd hdigit (by decide)
  · obtain ⟨rfl, rfl⟩ := Prod.mk.inj hsign
    rw [whole?_digitsOfNat n hrest]
    show (do
      let x ← fraction? rest
      let y ← exponent? x.2
      pure ([] ++ digitsOfNat n ++ x.1 ++ y.1, y.2)) = _
    rw [fraction?_ends hrest]
    show (do
      let y ← exponent? rest
      pure ([] ++ digitsOfNat n ++ [] ++ y.1, y.2)) = _
    rw [exponent?_ends hrest]
    simp

/-! ## §4. Values. -/

/-- The value is made of texts, truth values, null and numbers that count. -/
inductive Plain : Json → Prop where
  | null : Plain .null
  | bool (b : Bool) : Plain (.bool b)
  | nat (n : Nat) : Plain (.nat n)
  | string (s : String) : Plain (.string s)
  | array {vs : List Json} (h : ∀ v ∈ vs, Plain v) : Plain (.array vs)
  | object {ms : List (String × Json)} (h : ∀ m ∈ ms, Plain m.2) : Plain (.object ms)

/-- The value is taken off the front of its written form, whatever stands behind it. -/
def ReadsBack (v : Json) : Prop :=
  ∀ depth fuel rest, EndsNumber rest → (render depth v).length ≤ fuel →
    value? fuel (render depth v ++ rest) = some (v, rest)

/-! ### Written forms. -/

theorem render_null (depth : Nat) : render depth .null = 'n' :: "ull".toList := by
  rfl

theorem render_true (depth : Nat) : render depth (.bool true) = 't' :: "rue".toList := by
  rfl

theorem render_false (depth : Nat) : render depth (.bool false) = 'f' :: "alse".toList := by
  rfl

theorem render_nat (depth n : Nat) : render depth (.nat n) = digitsOfNat n := by
  rfl

theorem render_string (depth : Nat) (s : String) : render depth (.string s) = renderString s := by
  rfl

theorem render_array_nil (depth : Nat) : render depth (.array []) = ['[', ']'] := by
  rfl

theorem render_object_nil (depth : Nat) : render depth (.object []) = ['{', '}'] := by
  rfl

theorem render_array_cons (depth : Nat) (v : Json) (vs : List Json) :
    render depth (.array (v :: vs)) = '[' :: (newLine (depth + 1) ++ render (depth + 1) v
      ++ renderElements (depth + 1) vs ++ newLine depth ++ [']']) := by
  show '[' :: newLine (depth + 1) ++ render (depth + 1) v ++ renderElements (depth + 1) vs
    ++ newLine depth ++ [']'] = _
  simp only [List.cons_append, List.append_assoc]

theorem render_object_cons (depth : Nat) (m : String × Json) (ms : List (String × Json)) :
    render depth (.object (m :: ms)) = '{' :: (newLine (depth + 1) ++ renderMember (depth + 1) m
      ++ renderMembers (depth + 1) ms ++ newLine depth ++ ['}']) := by
  show '\x7b' :: newLine (depth + 1) ++ renderMember (depth + 1) m ++ renderMembers (depth + 1) ms
    ++ newLine depth ++ ['\x7d'] = _
  simp only [List.cons_append, List.append_assoc]

theorem ne_of_isDigit {c d : Char} (hc : c.isDigit = true) (hd : d.isDigit = false) : c ≠ d := by
  intro h
  rw [h, hd] at hc
  cases hc

/-- A digit is no blank. -/
theorem isBlank_digit {c : Char} (hc : c.isDigit = true) : isBlank c = false := by
  unfold isBlank
  rw [beq_false_of_ne (ne_of_isDigit hc (by decide)),
    beq_false_of_ne (ne_of_isDigit hc (by decide)),
    beq_false_of_ne (ne_of_isDigit hc (by decide)),
    beq_false_of_ne (ne_of_isDigit hc (by decide))]
  rfl

/-- A written value begins with a character that is neither blank nor the end of a list. -/
theorem render_head {v : Json} (h : Plain v) (depth : Nat) :
    ∃ c s, render depth v = c :: s ∧ isBlank c = false ∧ c ≠ ']' := by
  cases h with
  | null => exact ⟨'n', _, render_null depth, rfl, by decide⟩
  | bool b =>
    cases b with
    | true => exact ⟨'t', _, render_true depth, rfl, by decide⟩
    | false => exact ⟨'f', _, render_false depth, rfl, by decide⟩
  | nat n =>
    rw [render_nat]
    cases hds : digitsOfNat n with
    | nil => exact absurd hds Nat.toDigits_ne_nil
    | cons c ds =>
      have hdigit := isDigit_digitsOfNat n c (by rw [hds]; exact List.mem_cons_self)
      exact ⟨c, ds, rfl, isBlank_digit hdigit, ne_of_isDigit hdigit (by decide)⟩
  | string s => exact ⟨'"', _, render_string depth s, rfl, by decide⟩
  | @array vs _ =>
    cases vs with
    | nil => exact ⟨'[', _, render_array_nil depth, rfl, by decide⟩
    | cons v vs => exact ⟨'[', _, render_array_cons depth v vs, rfl, by decide⟩
  | @object ms _ =>
    cases ms with
    | nil => exact ⟨'{', _, render_object_nil depth, rfl, by decide⟩
    | cons m ms => exact ⟨'{', _, render_object_cons depth m ms, rfl, by decide⟩

/-- As many steps as characters are at least one. -/
theorem exists_fuel {v : Json} (h : Plain v) {depth fuel : Nat}
    (hfuel : (render depth v).length ≤ fuel) : ∃ n, fuel = n + 1 := by
  obtain ⟨c, s, hhead, -⟩ := render_head h depth
  rw [hhead, List.length_cons] at hfuel
  exact ⟨fuel - 1, by omega⟩

theorem length_newLine (depth : Nat) : (newLine depth).length = 2 * depth + 1 := by
  unfold newLine
  rw [List.length_cons, List.length_replicate]

theorem endsNumber_cons {c : Char} (hc : c = ',' ∨ c = ']' ∨ c = '}') (rest : List Char) :
    EndsNumber (c :: rest) := by
  intro d hd
  obtain rfl := Option.some.inj hd
  rcases hc with rfl | rfl | rfl
  · decide
  · decide
  · decide

/-! ### Rows. -/

theorem elements?_last {fuel : Nat} {s rest behind : List Char} {v : Json}
    (hvalue : value? fuel s = some (v, rest)) (hend : skipBlanks rest = ']' :: behind) :
    elements? (fuel + 1) s = some ([v], behind) := by
  rw [elements?, hvalue]
  simp only [Option.bind_some, hend]

theorem elements?_more {fuel : Nat} {s rest behind : List Char} {v : Json}
    (hvalue : value? fuel s = some (v, rest)) (hcomma : skipBlanks rest = ',' :: behind) :
    elements? (fuel + 1) s = (elements? fuel behind).map fun r => (v :: r.1, r.2) := by
  rw [elements?, hvalue]
  simp only [Option.bind_some, hcomma]

/-- A row of values is read back, up to the bracket that ends it. -/
theorem elements?_render {v : Json} {vs : List Json} (hv : ReadsBack v)
    (hvs : ∀ w ∈ vs, ReadsBack w) {depth fuel : Nat}
    (hfuel : (render depth v).length + (renderElements depth vs).length < fuel)
    (depth' : Nat) (rest : List Char) :
    elements? fuel (newLine depth ++ (render depth v ++ (renderElements depth vs
      ++ (newLine depth' ++ ']' :: rest)))) = some (v :: vs, rest) := by
  induction vs generalizing v fuel with
  | nil =>
    cases fuel with
    | zero => exact absurd hfuel (Nat.not_lt_zero _)
    | succ fuel =>
      rw [renderElements, List.nil_append]
      have hvalue : value? fuel (newLine depth ++ (render depth v ++ (newLine depth' ++ ']' :: rest)))
          = some (v, newLine depth' ++ ']' :: rest) := by
        rw [value?_newLine]
        exact hv depth fuel _ (endsNumber_newLine _ _) (by omega)
      refine elements?_last hvalue ?_
      rw [skipBlanks_newLine, skipBlanks_cons rfl]
  | cons w vs ih =>
    cases fuel with
    | zero => exact absurd hfuel (Nat.not_lt_zero _)
    | succ fuel =>
      rw [renderElements] at hfuel ⊢
      simp only [List.cons_append, List.length_cons, List.length_append, length_newLine] at hfuel
      simp only [List.cons_append, List.append_assoc]
      have hvalue := hv depth fuel (',' :: (newLine depth ++ (render depth w
        ++ (renderElements depth vs ++ (newLine depth' ++ ']' :: rest)))))
        (endsNumber_cons (Or.inl rfl) _) (by omega)
      rw [← value?_newLine fuel depth] at hvalue
      rw [elements?_more hvalue (skipBlanks_cons rfl _), ih (hvs w List.mem_cons_self)
        (fun w' hw' => hvs w' (List.mem_cons_of_mem _ hw')) (by omega)]
      rfl

theorem members?_last {fuel : Nat} {s named behind rest end_ : List Char} {ps : List Piece}
    {v : Json} (hquote : skipBlanks s = '"' :: named) (hname : pieces? named = some (ps, ':' :: behind))
    (hvalue : value? fuel behind = some (v, rest)) (hend : skipBlanks rest = '}' :: end_) :
    members? (fuel + 1) s = some ([(textOf? ps, v)], end_) := by
  rw [members?, hquote]
  simp only [hname, Option.bind_some, skipBlanks_cons (c := ':') rfl, hvalue, hend]

theorem members?_more {fuel : Nat} {s named behind rest more : List Char} {ps : List Piece}
    {v : Json} (hquote : skipBlanks s = '"' :: named) (hname : pieces? named = some (ps, ':' :: behind))
    (hvalue : value? fuel behind = some (v, rest)) (hcomma : skipBlanks rest = ',' :: more) :
    members? (fuel + 1) s
      = (members? fuel more).map fun r => ((textOf? ps, v) :: r.1, r.2) := by
  rw [members?, hquote]
  simp only [hname, Option.bind_some, skipBlanks_cons (c := ':') rfl, hvalue, hcomma]

/-- The name of a member and its value are read back. -/
theorem member_render {m : String × Json} (hm : ReadsBack m.2) {depth fuel : Nat}
    (hfuel : (renderMember depth m).length ≤ fuel) {rest : List Char} (hrest : EndsNumber rest)
    (blanks : Nat) :
    ∃ named behind ps, skipBlanks (newLine blanks ++ (renderMember depth m ++ rest)) = '"' :: named
      ∧ pieces? named = some (ps, ':' :: behind) ∧ textOf? ps = some m.1
      ∧ value? fuel behind = some (m.2, rest) := by
  obtain ⟨name, v⟩ := m
  obtain ⟨ps, htext, hpieces, hname⟩ :=
    pieces?_renderString name (':' :: ' ' :: (render depth v ++ rest))
  have hmember : renderMember depth (name, v) ++ rest
      = renderString name ++ ':' :: ' ' :: (render depth v ++ rest) := by
    rw [renderMember]
    simp only [List.append_assoc, List.cons_append]
  have hlength : (render depth v).length ≤ fuel := by
    rw [renderMember] at hfuel
    simp only [List.length_append, List.length_cons] at hfuel
    omega
  refine ⟨_, ' ' :: (render depth v ++ rest), ps, ?_, hpieces, hname, ?_⟩
  · rw [skipBlanks_newLine, hmember, htext, skipBlanks_cons rfl]
  · -- the blank in front of the value
    have hblank : value? fuel (' ' :: (render depth v ++ rest))
        = value? fuel (render depth v ++ rest) := by
      cases fuel with
      | zero => rw [value?, value?]
      | succ fuel => rw [value?, value?]; rfl
    rw [hblank]
    exact hm depth fuel rest hrest hlength

/-- A row of members is read back, up to the brace that ends it. -/
theorem members?_render {m : String × Json} {ms : List (String × Json)} (hm : ReadsBack m.2)
    (hms : ∀ n ∈ ms, ReadsBack n.2) {depth fuel : Nat}
    (hfuel : (renderMember depth m).length + (renderMembers depth ms).length < fuel)
    (depth' : Nat) (rest : List Char) :
    members? fuel (newLine depth ++ (renderMember depth m ++ (renderMembers depth ms
      ++ (newLine depth' ++ '}' :: rest))))
      = some ((m :: ms).map fun m => (some m.1, m.2), rest) := by
  induction ms generalizing m fuel with
  | nil =>
    cases fuel with
    | zero => exact absurd hfuel (Nat.not_lt_zero _)
    | succ fuel =>
      rw [renderMembers, List.nil_append]
      have hfits : (renderMember depth m).length ≤ fuel := by omega
      obtain ⟨named, behind, ps, hquote, hname, htext, hvalue⟩ :=
        member_render hm hfits (endsNumber_newLine depth' ('}' :: rest)) depth
      rw [members?_last hquote hname hvalue
        (by rw [skipBlanks_newLine]; exact skipBlanks_cons rfl rest), htext]
      rfl
  | cons n ms ih =>
    cases fuel with
    | zero => exact absurd hfuel (Nat.not_lt_zero _)
    | succ fuel =>
      rw [renderMembers] at hfuel ⊢
      simp only [List.cons_append, List.length_cons, List.length_append, length_newLine] at hfuel
      simp only [List.cons_append, List.append_assoc]
      have hfits : (renderMember depth m).length ≤ fuel := by omega
      obtain ⟨named, behind, ps, hquote, hname, htext, hvalue⟩ := member_render hm hfits
        (endsNumber_cons (Or.inl rfl) (newLine depth ++ (renderMember depth n
          ++ (renderMembers depth ms ++ (newLine depth' ++ '}' :: rest))))) depth
      rw [members?_more hquote hname hvalue (skipBlanks_cons rfl _), htext,
        ih (hms n List.mem_cons_self) (fun n' hn' => hms n' (List.mem_cons_of_mem _ hn'))
        (by omega)]
      rfl

/-! ### All values. -/

/-- An object with names that are texts. -/
theorem ofMembers_named (ms : List (String × Json)) :
    ofMembers (ms.map fun m => (some m.1, m.2)) = .object ms := by
  have hall : (ms.map fun m => (some m.1, m.2)).mapM
      (fun (m : Option String × Json) => m.1.map fun name => (name, m.2)) = some ms := by
    induction ms with
    | nil => rfl
    | cons m ms ih =>
      rw [List.map_cons, List.mapM_cons, ih]
      rfl
  unfold ofMembers
  rw [hall]

theorem value?_string {fuel : Nat} {s rest behind : List Char} {ps : List Piece} {text : String}
    (hquote : skipBlanks s = '"' :: rest) (hpieces : pieces? rest = some (ps, behind))
    (htext : textOf? ps = some text) : value? (fuel + 1) s = some (.string text, behind) := by
  rw [value?, hquote]
  simp only [hpieces, Option.map_some, htext, Option.getD_some]

theorem value?_array {fuel : Nat} {s rest behind : List Char} {vs : List Json} {c : Char}
    {more : List Char} (hbracket : skipBlanks s = '[' :: rest)
    (hfirst : skipBlanks rest = c :: more) (hc : c ≠ ']')
    (helements : elements? fuel rest = some (vs, behind)) :
    value? (fuel + 1) s = some (.array vs, behind) := by
  rw [value?, hbracket]
  simp only [hfirst]
  split
  · next hend => exact absurd (List.cons.inj hend).1 hc
  · rw [helements]
    rfl

theorem value?_object {fuel : Nat} {s rest behind more : List Char} {ms : List (String × Json)}
    (hbrace : skipBlanks s = '{' :: rest) (hfirst : skipBlanks rest = '"' :: more)
    (hmembers : members? fuel rest = some (ms.map fun m => (some m.1, m.2), behind)) :
    value? (fuel + 1) s = some (.object ms, behind) := by
  rw [value?, hbrace]
  simp only [hfirst, hmembers, Option.map_some, ofMembers_named]
  rfl

/-- A word of a constant is read back. -/
theorem value?_constant {fuel : Nat} {c : Char} {word rest : List Char} {v : Json}
    (hblank : isBlank c = false) (hc : c ≠ '"' ∧ c ≠ '[' ∧ c ≠ '{')
    (hnumber : (c = '-' || c.isDigit) = false) (hword : constant? (c :: word ++ rest) = some (v, rest)) :
    value? (fuel + 1) (c :: word ++ rest) = some (v, rest) := by
  rw [value?, List.cons_append, skipBlanks_cons hblank]
  split
  · next h => cases h
  · next h => exact absurd (List.cons.inj h).1 hc.1
  · next h => exact absurd (List.cons.inj h).1 hc.2.1
  · next h => exact absurd (List.cons.inj h).1 hc.2.2
  · next d rest' _ _ _ h =>
    obtain ⟨rfl, rfl⟩ := List.cons.inj h
    rw [hnumber, if_neg Bool.false_ne_true]
    exact hword

theorem value?_nat {fuel : Nat} (n : Nat) {rest : List Char} (hrest : EndsNumber rest) :
    value? (fuel + 1) (digitsOfNat n ++ rest) = some (.nat n, rest) := by
  have hnumber := number?_digitsOfNat n hrest
  cases hds : digitsOfNat n with
  | nil => exact absurd hds Nat.toDigits_ne_nil
  | cons c ds =>
    have hdigit := isDigit_digitsOfNat n c (by rw [hds]; exact List.mem_cons_self)
    rw [hds, List.cons_append] at hnumber
    rw [value?, List.cons_append, skipBlanks_cons (isBlank_digit hdigit)]
    split
    · next h => cases h
    · next h => exact absurd (List.cons.inj h).1 (ne_of_isDigit hdigit (by decide))
    · next h => exact absurd (List.cons.inj h).1 (ne_of_isDigit hdigit (by decide))
    · next h => exact absurd (List.cons.inj h).1 (ne_of_isDigit hdigit (by decide))
    · next d rest' _ _ _ h =>
      obtain ⟨rfl, rfl⟩ := List.cons.inj h
      rw [hdigit, Bool.or_true, if_pos rfl, hnumber, Option.map_some]
      unfold Json.nat
      rw [hds]

/-- **Every plain value is read back from its written form.** -/
theorem value?_render {v : Json} (h : Plain v) : ReadsBack v := by
  -- a value takes one unit of fuel for itself and leaves the rest to what it holds
  induction h with
  | null =>
    intro depth fuel rest _ hfuel
    obtain ⟨fuel, rfl⟩ := exists_fuel .null hfuel
    rw [render_null]
    exact value?_constant rfl (by decide) rfl rfl
  | bool b =>
    intro depth fuel rest _ hfuel
    obtain ⟨fuel, rfl⟩ := exists_fuel (.bool b) hfuel
    cases b with
    | true =>
      rw [render_true]
      exact value?_constant rfl (by decide) rfl rfl
    | false =>
      rw [render_false]
      exact value?_constant rfl (by decide) rfl rfl
  | nat n =>
    intro depth fuel rest hrest hfuel
    obtain ⟨fuel, rfl⟩ := exists_fuel (.nat n) hfuel
    rw [render_nat]
    exact value?_nat n hrest
  | string s =>
    intro depth fuel rest _ hfuel
    obtain ⟨fuel, rfl⟩ := exists_fuel (.string s) hfuel
    obtain ⟨ps, htext, hpieces, hs⟩ := pieces?_renderString s rest
    rw [render_string, htext]
    exact value?_string (skipBlanks_cons rfl _) hpieces hs
  | @array vs hvs ih =>
    intro depth fuel rest _ hfuel
    obtain ⟨fuel, rfl⟩ := exists_fuel (.array hvs) hfuel
    cases vs with
    | nil =>
      rw [render_array_nil, value?]
      rfl
    | cons v vs =>
      rw [render_array_cons] at hfuel ⊢
      simp only [List.length_cons, List.length_append, length_newLine] at hfuel
      obtain ⟨c, s, hhead, hblank, hc⟩ := render_head (hvs v List.mem_cons_self) (depth + 1)
      simp only [List.cons_append, List.append_assoc, List.nil_append]
      have hfirst : ∀ more, skipBlanks (newLine (depth + 1) ++ (render (depth + 1) v ++ more))
          = c :: (s ++ more) := by
        intro more
        rw [skipBlanks_newLine, hhead, List.cons_append]
        exact skipBlanks_cons hblank _
      exact value?_array (skipBlanks_cons rfl _) (hfirst _) hc (elements?_render
        (ih v List.mem_cons_self) (fun w hw => ih w (List.mem_cons_of_mem _ hw)) (by omega)
        depth rest)
  | @object ms hms ih =>
    intro depth fuel rest _ hfuel
    obtain ⟨fuel, rfl⟩ := exists_fuel (.object hms) hfuel
    cases ms with
    | nil =>
      rw [render_object_nil, value?]
      rfl
    | cons m ms =>
      rw [render_object_cons] at hfuel ⊢
      simp only [List.length_cons, List.length_append, length_newLine] at hfuel
      simp only [List.cons_append, List.append_assoc, List.nil_append]
      have hfirst : ∀ more, skipBlanks (newLine (depth + 1) ++ (renderMember (depth + 1) m ++ more))
          = '"' :: ((renderMember (depth + 1) m).tail ++ more) := by
        intro more
        rw [skipBlanks_newLine, renderMember]
        exact skipBlanks_cons rfl _
      exact value?_object (skipBlanks_cons rfl _) (hfirst _) (members?_render
        (ih m List.mem_cons_self) (fun n hn => ih n (List.mem_cons_of_mem _ hn)) (by omega)
        depth rest)

/-- **A text that is a written value is read as that value.** -/
theorem parse?_toText {v : Json} (h : Plain v) : parse? v.toText = some v := by
  unfold parse? toText
  have hvalue := value?_render h 0 (2 * (render 0 v).length + 2) [] (fun c hc => by cases hc)
    (by omega)
  rw [List.append_nil] at hvalue
  rw [hvalue]
  rfl

end SchemaDrift.Json
