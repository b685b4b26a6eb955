/-
  SchemaDrift.Proofs.Sql.Decisions
  ────────────────────────────────
  **WHAT IS DECIDED WHERE A TOKEN BEGINS.**

  In each mode there are a few kinds of tokens, and for each kind one thing is decided.

      Decides            the kinds of tokens, with what is decided for each
      decides            whatever is decided is decided for one of them
      decision_eq        … and that kind tells what it is
      decision_congr     what of the state, and of the text ahead, a decision looks at

  All that is known of the automaton rests on these four: no other proof opens `decision`.
-/

import Mathlib.Data.List.TakeWhile
import SchemaDrift.Sql.Lexical

namespace SchemaDrift.Sql

open SchemaDrift.Text

namespace Lexer

/-! ## §1. The kinds of tokens. -/

/-- The kinds of tokens that can begin at `c`, with `rest` behind it: the mode that each is found
in, and what is decided for it. -/
inductive Decides (s : Lexer) (c : Char) (rest : List Char) : Mode → Decision → Prop
  | hyphens (hc : c = '-') (hnext : rest.head? = some '-') :
      Decides s c rest .code ⟨.comment, 1, .lineComment⟩
  | slashStar (hc : c = '/') (hnext : rest.head? = some '*') :
      Decides s c rest .code ⟨.comment, 1, .blockComment 0⟩
  | openLiteral (hc : c = '\'') : Decides s c rest .code ⟨.quoted, 0, .literal s.escapes⟩
  | openIdentifier (hc : c = '"') : Decides s c rest .code ⟨.quoted, 0, .identifier⟩
  | openBlock {d : List Char} (hc : c = '$') (hd : s.delimiter? rest = some d) :
      Decides s c rest .code ⟨.quoted, d.length - 1, .dollar d⟩
  | code (hhyphen : ¬(c = '-' ∧ rest.head? = some '-')) (hslash : ¬(c = '/' ∧ rest.head? = some '*'))
      (hsingle : c ≠ '\'') (hdouble : c ≠ '"') (hdollar : c = '$' → s.delimiter? rest = none) :
      Decides s c rest .code ⟨.code, 0, .code⟩
  | lineEnd (hc : c = '\n') : Decides s c rest .lineComment ⟨.code, 0, .code⟩
  | lineComment (hc : c ≠ '\n') : Decides s c rest .lineComment ⟨.comment, 0, .lineComment⟩
  | closeComment (hc : c = '*') (hnext : rest.head? = some '/') :
      Decides s c rest (.blockComment 0) ⟨.comment, 1, .code⟩
  | closeInner {n : Nat} (hc : c = '*') (hnext : rest.head? = some '/') :
      Decides s c rest (.blockComment (n + 1)) ⟨.comment, 1, .blockComment n⟩
  | openInner {n : Nat} (hc : c = '/') (hnext : rest.head? = some '*') :
      Decides s c rest (.blockComment n) ⟨.comment, 1, .blockComment (n + 1)⟩
  | blockComment {n : Nat} (hstar : ¬(c = '*' ∧ rest.head? = some '/'))
      (hslash : ¬(c = '/' ∧ rest.head? = some '*')) :
      Decides s c rest (.blockComment n) ⟨.comment, 0, .blockComment n⟩
  | escape (hc : c = '\\') (hnext : rest ≠ []) :
      Decides s c rest (.literal true) ⟨.quoted, 1, .literal true⟩
  | doubledSingle {e : Bool} (hc : c = '\'') (hnext : rest.head? = some '\'') :
      Decides s c rest (.literal e) ⟨.quoted, 1, .literal e⟩
  | closeLiteral {e : Bool} (hc : c = '\'') (hnext : rest.head? ≠ some '\'') :
      Decides s c rest (.literal e) ⟨.quoted, 0, .code⟩
  | literal {e : Bool} (hescape : e = true → c = '\\' → rest = []) (hc : c ≠ '\'') :
      Decides s c rest (.literal e) ⟨.quoted, 0, .literal e⟩
  | doubledDouble (hc : c = '"') (hnext : rest.head? = some '"') :
      Decides s c rest .identifier ⟨.quoted, 1, .identifier⟩
  | closeIdentifier (hc : c = '"') (hnext : rest.head? ≠ some '"') :
      Decides s c rest .identifier ⟨.quoted, 0, .code⟩
  | identifier (hc : c ≠ '"') : Decides s c rest .identifier ⟨.quoted, 0, .identifier⟩
  | closeBlock {d : List Char} (hd : d <+: c :: rest) :
      Decides s c rest (.dollar d) ⟨.quoted, d.length - 1, .code⟩
  | block {d : List Char} (hd : ¬d <+: c :: rest) :
      Decides s c rest (.dollar d) ⟨.quoted, 0, .dollar d⟩

variable {s : Lexer} {c : Char} {rest : List Char}

/-- **Whatever is decided is decided for one of these tokens.** -/
theorem decides (s : Lexer) (c : Char) (rest : List Char) :
    s.Decides c rest s.mode (s.decision c rest) := by
  unfold decision
  -- mode by mode, in the order in which the decision asks
  cases s.mode with
  | code =>
    simp only [Bool.and_eq_true, decide_eq_true_eq, beq_iff_eq]
    split_ifs with hhyphen hslash hsingle hdouble hdollar
    · exact .hyphens hhyphen.1 hhyphen.2
    · exact .slashStar hslash.1 hslash.2
    · exact .openLiteral hsingle
    · exact .openIdentifier hdouble
    · cases hd : s.delimiter? rest with
      | some d => exact .openBlock hdollar hd
      | none => exact .code hhyphen hslash hsingle hdouble fun _ => hd
    · exact .code hhyphen hslash hsingle hdouble fun hc => absurd hc hdollar
  | lineComment =>
    dsimp only
    split_ifs with hfeed
    · exact .lineEnd hfeed
    · exact .lineComment hfeed
  | blockComment n =>
    simp only [Bool.and_eq_true, decide_eq_true_eq, beq_iff_eq]
    split_ifs with hstar hslash
    · cases n with
      | zero => exact .closeComment hstar.1 hstar.2
      | succ n => exact .closeInner hstar.1 hstar.2
    · exact .openInner hslash.1 hslash.2
    · exact .blockComment hstar hslash
  | literal e =>
    simp only [Bool.and_eq_true, decide_eq_true_eq, beq_iff_eq, List.isSome_head?]
    split_ifs with hescape hquote hnext
    · obtain ⟨⟨rfl, hc⟩, hnext⟩ := hescape
      exact .escape hc (by simpa using hnext)
    · exact .doubledSingle hquote hnext
    · exact .closeLiteral hquote hnext
    · refine .literal (fun he hc => ?_) hquote
      by_contra hne
      exact hescape ⟨⟨he, hc⟩, by simpa using hne⟩
  | identifier =>
    simp only [beq_iff_eq]
    split_ifs with hquote hnext
    · exact .doubledDouble hquote hnext
    · exact .closeIdentifier hquote hnext
    · exact .identifier hquote
  | dollar d =>
    dsimp only
    split_ifs with hd
    · exact .closeBlock (List.isPrefixOf_iff_prefix.1 hd)
    · exact .block fun h => hd (List.isPrefixOf_iff_prefix.2 h)

/-- **The kind of the token tells what is decided for it.** -/
theorem decision_eq {m : Mode} {d : Decision} (h : s.Decides c rest m d) (hm : s.mode = m) :
    s.decision c rest = d := by
  unfold decision
  rw [hm]
  cases h with
  | code hhyphen hslash hsingle hdouble hdollar =>
    simp only [Bool.and_eq_true, decide_eq_true_eq, beq_iff_eq, hhyphen, hslash, hsingle, hdouble,
      if_false]
    split_ifs with hc
    · rw [hdollar hc]
    · rfl
  | blockComment hstar hslash =>
    simp only [Bool.and_eq_true, decide_eq_true_eq, beq_iff_eq, hstar, hslash, if_false]
  | escape hc hnext =>
    have hsome : rest.head?.isSome = true := by simpa using hnext
    simp [hc, hsome]
  | literal hescape hc => simpa [hc] using hescape
  | _ => simp_all

/-- **What a decision looks at**: the mode and the next character; in code, what is behind when
a literal or a block begins; in a block, whether it ends here. -/
theorem decision_congr {s' : Lexer} {rest' : List Char} (hmode : s.mode = s'.mode)
    (hnext : rest.head? = rest'.head?)
    (hescapes : s.mode = .code → c = '\'' → s.escapes = s'.escapes)
    (hopens : s.mode = .code → c = '$' → s.delimiter? rest = s'.delimiter? rest')
    (hcloses : ∀ d, s.mode = .dollar d → (d <+: c :: rest ↔ d <+: c :: rest')) :
    s.decision c rest = s'.decision c rest' := by
  unfold decision
  rw [← hmode, hnext]
  cases hm : s.mode with
  | code =>
    by_cases hquote : c = '\''
    · rw [hescapes hm hquote]
      simp [hquote]
    by_cases hdollar : c = '$'
    · rw [hopens hm hdollar]
      simp [hdollar]
    · simp [hquote, hdollar]
  | dollar d =>
    have hfront : d.isPrefixOf (c :: rest) = d.isPrefixOf (c :: rest') := by
      rw [Bool.eq_iff_iff, List.isPrefixOf_iff_prefix, List.isPrefixOf_iff_prefix]
      exact hcloses d hm
    dsimp only
    rw [hfront]
  | literal e => rfl
  | identifier => rfl
  | lineComment => rfl
  | blockComment n => rfl

end Lexer

/-! ## §3. Delimiters. -/

/-- A delimiter of a block: a name between dollar signs. -/
def IsDelimiter (d : List Char) : Prop :=
  ∃ name, d = '$' :: (name ++ ['$']) ∧ ∀ c ∈ name, isIdentChar c = true

/-- A delimiter has two dollar signs. -/
theorem two_le_delimiter {d : List Char} (hd : IsDelimiter d) : 2 ≤ d.length := by
  obtain ⟨name, rfl, -⟩ := hd
  simp

/-- What is neither of a name nor a dollar sign is in no delimiter. -/
theorem not_mem_delimiter {d : List Char} {c : Char} (hd : IsDelimiter d)
    (hc : isIdentChar c = false) (hc' : c ≠ '$') : c ∉ d := by
  obtain ⟨name, rfl, hname⟩ := hd
  intro hmem
  rcases List.mem_cons.1 hmem with h | hmem
  · exact hc' h
  · rcases List.mem_append.1 hmem with hmem | hmem
    · rw [hname c hmem] at hc
      cases hc
    · exact hc' (List.mem_singleton.1 hmem)

/-- A delimiter that stands in front ends with a dollar sign. -/
theorem delimiter_in_front {d : List Char} {c : Char} {rest : List Char} (hd : IsDelimiter d)
    (h : d <+: c :: rest) :
    d.length - 1 ≤ rest.length ∧ (c :: rest)[d.length - 1]? = some '$' := by
  obtain ⟨name, rfl, -⟩ := hd
  obtain ⟨behind, hbehind⟩ := h
  rw [← hbehind]
  have hlen := congrArg List.length hbehind
  simp only [List.length_cons, List.length_append, List.length_nil] at hlen ⊢
  constructor
  · omega
  · rw [show name.length + (0 + 1) + 1 - 1 = name.length + 1 by omega, List.cons_append,
      List.getElem?_cons_succ, List.append_assoc, List.getElem?_append_right (Nat.le_refl _)]
    simp

theorem takeWhile_append_cons {f : Char → Bool} {c : Char} (hc : f c = false) (p w : List Char) :
    (p ++ c :: w).takeWhile f = p.takeWhile f := by
  induction p with
  | nil => rw [List.nil_append, List.takeWhile_cons, hc]; rfl
  | cons x p ih => rw [List.cons_append, List.takeWhile_cons, List.takeWhile_cons, ih]

theorem dropWhile_append_cons {f : Char → Bool} {c : Char} (hc : f c = false) (p w : List Char) :
    (p ++ c :: w).dropWhile f = p.dropWhile f ++ c :: w := by
  induction p with
  | nil => rw [List.nil_append, List.dropWhile_cons, hc]; rfl
  | cons x p ih =>
    rw [List.cons_append, List.dropWhile_cons, List.dropWhile_cons, ih]
    split
    · rfl
    · rfl

namespace Lexer

variable {s : Lexer} {rest : List Char}

/-- A delimiter is a name between dollar signs, and begins behind nothing that it could go on
from. -/
theorem delimiter?_eq_some_iff {s : Lexer} {rest d : List Char} : s.delimiter? rest = some d ↔
    (s.last.any fun c => isIdentChar c || c == '$') = false
      ∧ ∃ name behind, rest = name ++ '$' :: behind ∧ (∀ c ∈ name, isIdentChar c = true)
        ∧ name.head?.any Char.isDigit = false ∧ d = '$' :: name ++ ['$'] := by
  unfold delimiter?
  by_cases hlast : (s.last.any fun c => isIdentChar c || c == '$') = true
  · rw [if_pos hlast, hlast]
    constructor
    · intro h
      cases h
    · intro h
      cases h.1
  · rw [if_neg hlast]
    rw [Bool.not_eq_true] at hlast
    have hsplit := List.takeWhile_append_dropWhile (p := isIdentChar) (l := rest)
    dsimp only
    constructor
    · intro h
      refine ⟨hlast, ?_⟩
      split at h
      · next behind hdrop =>
        split at h
        · cases h
        · next hdigit =>
          rw [hdrop] at hsplit
          exact ⟨_, behind, hsplit.symm, fun c hc => List.all_eq_true.1 List.all_takeWhile c hc,
            Bool.eq_false_iff.2 hdigit, (Option.some.inj h).symm⟩
      · cases h
    · -- the name ends at the dollar sign, which is no character of a name
      rintro ⟨-, name, behind, rfl, hname, hdigit, rfl⟩
      have htake : (name ++ '$' :: behind).takeWhile isIdentChar = name := by
        rw [takeWhile_append_cons (by decide), List.takeWhile_eq_self_iff.2 hname]
      have hdrop : (name ++ '$' :: behind).dropWhile isIdentChar = '$' :: behind := by
        rw [dropWhile_append_cons (by decide), List.dropWhile_eq_nil_iff.2 hname]
        rfl
      rw [htake, hdrop, hdigit]
      rfl

/-- A delimiter that begins at a dollar sign is there. -/
theorem delimiter?_eq_some {d : List Char} (h : s.delimiter? rest = some d) :
    IsDelimiter d ∧ d.length - 1 ≤ rest.length := by
  obtain ⟨-, name, behind, rfl, hname, -, rfl⟩ := delimiter?_eq_some_iff.1 h
  exact ⟨⟨name, rfl, hname⟩, by simp⟩

@[simp] theorem delimiter?_nil (s : Lexer) : s.delimiter? [] = none := by
  unfold delimiter?
  split
  · rfl
  · rfl

/-- No delimiter begins behind a name or a dollar sign. -/
theorem delimiter?_tagged (h : (s.last.any fun c => isIdentChar c || c == '$') = true)
    (rest : List Char) : s.delimiter? rest = none := by
  unfold delimiter?
  rw [if_pos h]

/-- Of what is behind, no more than that is looked at. -/
theorem delimiter?_congr {s' : Lexer} (h : (s.last.any fun c => isIdentChar c || c == '$')
    = s'.last.any fun c => isIdentChar c || c == '$') (rest : List Char) :
    s.delimiter? rest = s'.delimiter? rest := by
  unfold delimiter?
  rw [h]

/-- No delimiter begins that reaches across a stop. -/
theorem delimiter?_append_cons (s : Lexer) {c : Char} (hc : isIdentChar c = false) (hc' : c ≠ '$')
    (p w : List Char) : s.delimiter? (p ++ c :: w) = s.delimiter? p := by
  unfold delimiter?
  rw [takeWhile_append_cons hc, dropWhile_append_cons hc]
  cases p.dropWhile isIdentChar with
  | nil => simp [hc']
  | cons x q =>
    by_cases hx : x = '$'
    · rw [hx]
      rfl
    · simp [hx]

/-- A dollar sign is the only character behind which a delimiter may end. -/
theorem delimiter?_same (s : Lexer) {c : Char} (hc : isIdentChar c = false) (p w w' : List Char) :
    s.delimiter? (p ++ c :: w) = s.delimiter? (p ++ c :: w') := by
  unfold delimiter?
  rw [takeWhile_append_cons hc, dropWhile_append_cons hc, takeWhile_append_cons hc,
    dropWhile_append_cons hc]
  cases p.dropWhile isIdentChar with
  | nil =>
    by_cases hdollar : c = '$'
    · rw [hdollar]
      rfl
    · simp [hdollar]
  | cons x q =>
    by_cases hx : x = '$'
    · rw [hx]
      rfl
    · simp [hx]

end Lexer

end SchemaDrift.Sql
