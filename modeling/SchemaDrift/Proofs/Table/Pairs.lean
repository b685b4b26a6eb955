/-
  SchemaDrift.Proofs.Table.Pairs
  ──────────────────────────────
  **WHICH BRACKETS BELONG TOGETHER.**

  The library never looks for the bracket that closes another one: it counts.  Here the two
  are brackets of one kind, in code, with brackets of that kind between them that belong
  together in the same way (`Balanced`).  What is counted says where such pairs are:

      noneOpen_iff      the counter is at nought where every bracket that opens is closed
      row_matched       a group is read up to the bracket that belongs to its first one
      row_unmatched     without such a bracket it is read to the end
-/

import SchemaDrift.Proofs.Table.Brackets

namespace SchemaDrift.Table

open SchemaDrift.Sql SchemaDrift.Text

/-! ## §1. Pairs. -/

/-- The brackets of a kind that stand in code belong together, each that opens with one behind it
that closes.  Nothing else counts, brackets of the other kind included. -/
inductive Balanced (opening : Char) : List Glyph → Prop where
  | nil : Balanced opening []
  | plain {g : Glyph} {gs : List Glyph} (hopen : g.isCode opening = false)
    (hclose : g.isCode (closing opening) = false) (h : Balanced opening gs) :
    Balanced opening (g :: gs)
  | pair {inside behind : List Glyph} (hinside : Balanced opening inside)
    (hbehind : Balanced opening behind) :
    Balanced opening (⟨opening, .code⟩ :: (inside ++ ⟨closing opening, .code⟩ :: behind))

/-- A bracket that opens in front of the row is closed in it. -/
def Matched (opening : Char) (gs : List Glyph) : Prop :=
  ∃ inside behind, gs = inside ++ ⟨closing opening, .code⟩ :: behind ∧ Balanced opening inside

/-- Every bracket of the kind that opens in the row is closed in it. -/
def NoneOpen (opening : Char) (gs : List Glyph) : Prop :=
  ∀ front behind, gs = front ++ ⟨opening, .code⟩ :: behind → Matched opening behind

/-- What follows the row is outside of all brackets that open in it. -/
def OutsideBrackets (gs : List Glyph) : Prop := NoneOpen '(' gs ∧ NoneOpen '[' gs

variable {opening : Char} {g : Glyph} {gs : List Glyph}

theorem isCode_self (c : Char) : (⟨c, .code⟩ : Glyph).isCode c = true := Glyph.isCode_iff.2 rfl

/-- A bracket that closes opens nothing. -/
theorem isCode_closing (hopening : opening = '(' ∨ opening = '[') :
    (⟨closing opening, .code⟩ : Glyph).isCode opening = false := by
  rcases hopening with rfl | rfl
  · rfl
  · rfl

/-- A glyph opens a bracket of the kind, closes one, or counts for nothing. -/
theorem bracket_cases (opening : Char) (g : Glyph) : g = ⟨opening, .code⟩
    ∨ g = ⟨closing opening, .code⟩
    ∨ g.isCode opening = false ∧ g.isCode (closing opening) = false := by
  cases hopen : g.isCode opening with
  | true => exact Or.inl (Glyph.isCode_iff.1 hopen)
  | false =>
    cases hclose : g.isCode (closing opening) with
    | true => exact Or.inr (Or.inl (Glyph.isCode_iff.1 hclose))
    | false => exact Or.inr (Or.inr ⟨rfl, rfl⟩)

theorem Balanced.append {hs : List Glyph} (h : Balanced opening gs) (h' : Balanced opening hs) :
    Balanced opening (gs ++ hs) := by
  induction h with
  | nil => exact h'
  | plain hopen hclose _ ih => exact .plain hopen hclose ih
  | pair hinside _ _ ih =>
    rw [List.cons_append, List.append_assoc, List.cons_append]
    exact .pair hinside ih

theorem matched_closing (opening : Char) (gs : List Glyph) :
    Matched opening (⟨closing opening, .code⟩ :: gs) := ⟨[], gs, rfl, .nil⟩

theorem Matched.plain (h : Matched opening gs) (hopen : g.isCode opening = false)
    (hclose : g.isCode (closing opening) = false) : Matched opening (g :: gs) := by
  obtain ⟨inside, behind, rfl, hinside⟩ := h
  exact ⟨g :: inside, behind, rfl, .plain hopen hclose hinside⟩

/-- A pair in front changes nothing. -/
theorem Matched.pair {inside behind : List Glyph} (hinside : Balanced opening inside)
    (h : Matched opening behind) :
    Matched opening (⟨opening, .code⟩ :: (inside ++ ⟨closing opening, .code⟩ :: behind)) := by
  obtain ⟨inside', behind', rfl, hinside'⟩ := h
  exact ⟨⟨opening, .code⟩ :: (inside ++ ⟨closing opening, .code⟩ :: inside'), behind', by simp,
    .pair hinside hinside'⟩

theorem NoneOpen.tail (front : List Glyph) (h : NoneOpen opening (front ++ gs)) :
    NoneOpen opening gs := by
  rintro before behind rfl
  exact h (front ++ before) behind (List.append_assoc _ _ _).symm

/-! ## §2. Counting. -/

/-- The brackets of the kind of `opening` that are counted behind a row, `n` being counted in front
of it. -/
def depth (opening : Char) (n : Nat) (gs : List Glyph) : Nat :=
  gs.foldl (fun n g => countBrackets opening (closing opening) g n) n

theorem depth_cons (opening : Char) (n : Nat) (g : Glyph) (gs : List Glyph) :
    depth opening n (g :: gs)
      = depth opening (countBrackets opening (closing opening) g n) gs := rfl

theorem depth_append (opening : Char) (n : Nat) (gs hs : List Glyph) :
    depth opening n (gs ++ hs) = depth opening (depth opening n gs) hs := List.foldl_append

theorem depth_opening (n : Nat) (gs : List Glyph) :
    depth opening n (⟨opening, .code⟩ :: gs) = depth opening (n + 1) gs := by
  rw [depth_cons, countBrackets, if_pos (isCode_self opening)]

theorem depth_closing (hopening : opening = '(' ∨ opening = '[') (n : Nat) (gs : List Glyph) :
    depth opening n (⟨closing opening, .code⟩ :: gs) = depth opening (n - 1) gs := by
  rw [depth_cons, countBrackets, isCode_closing hopening, if_neg Bool.false_ne_true,
    if_pos (isCode_self _)]

theorem depth_plain (hopen : g.isCode opening = false) (hclose : g.isCode (closing opening) = false)
    (n : Nat) (gs : List Glyph) : depth opening n (g :: gs) = depth opening n gs := by
  rw [depth_cons, countBrackets, hopen, hclose, if_neg Bool.false_ne_true,
    if_neg Bool.false_ne_true]

/-- Brackets that belong together leave the counter as it was. -/
theorem depth_balanced (hopening : opening = '(' ∨ opening = '[') (h : Balanced opening gs)
    (n : Nat) : depth opening n gs = n := by
  induction h generalizing n with
  | nil => rfl
  | plain hopen hclose _ ih => rw [depth_plain hopen hclose, ih]
  | pair _ _ ihinside ihbehind =>
    rw [depth_opening, depth_append, ihinside, depth_closing hopening, Nat.add_sub_cancel, ihbehind]

/-- No more than one bracket belongs to one in front of the row. -/
theorem balanced_unique (hopening : opening = '(' ∨ opening = '[') {inside inside' : List Glyph}
    (h : Balanced opening inside) (h' : Balanced opening inside') {behind behind' : List Glyph}
    (hsame : inside ++ ⟨closing opening, .code⟩ :: behind
      = inside' ++ ⟨closing opening, .code⟩ :: behind') : inside = inside' := by
  -- a row with a bracket too many leaves nothing of a counter that is at one
  have hshort : ∀ {gs hs : List Glyph}, Balanced opening gs →
      ¬Balanced opening (gs ++ ⟨closing opening, .code⟩ :: hs) := by
    intro gs hs hgs hmore
    have hzero := depth_balanced hopening hmore 0
    have hone := depth_balanced hopening hmore 1
    rw [depth_append, depth_balanced hopening hgs, depth_closing hopening] at hzero hone
    exact Nat.zero_ne_one (hzero.symm.trans hone)
  rcases List.append_eq_append_iff.1 hsame with ⟨more, rfl, hmore⟩ | ⟨more, rfl, hmore⟩
  · cases more with
    | nil => exact (List.append_nil _).symm
    | cons g more =>
      obtain ⟨rfl, -⟩ := List.cons.inj hmore
      exact absurd h' (hshort h)
  · cases more with
    | nil => exact List.append_nil _
    | cons g more =>
      obtain ⟨rfl, -⟩ := List.cons.inj hmore
      exact absurd h (hshort h')

/-- **Where the counter falls below what it was, a bracket that opened in front is closed.** -/
theorem matched_of_depth (hopening : opening = '(' ∨ opening = '[') {n : Nat}
    (h : depth opening (n + 1) gs ≤ n) : Matched opening gs := by
  generalize hlen : gs.length = len
  induction len using Nat.strongRecOn generalizing gs n with
  | _ len ih =>
    cases gs with
    | nil => exact absurd h (Nat.not_succ_le_self n)
    | cons g gs =>
      rcases bracket_cases opening g with rfl | rfl | ⟨hopen, hclose⟩
      · -- the counter falls to what it was behind the bracket, and below that once more
        rw [depth_opening] at h
        rw [List.length_cons] at hlen
        obtain ⟨inside, behind, rfl, hinside⟩ := ih gs.length (by omega) (n := n + 1) (by omega) rfl
        rw [depth_append, depth_balanced hopening hinside, depth_closing hopening,
          Nat.add_sub_cancel] at h
        rw [List.length_append, List.length_cons] at hlen
        exact .pair hinside (ih behind.length (by omega) h rfl)
      · exact matched_closing opening gs
      · rw [depth_plain hopen hclose] at h
        rw [List.length_cons] at hlen
        exact (ih gs.length (by omega) h rfl).plain hopen hclose

/-- Where every bracket that opens is closed, the counter does not rise. -/
theorem NoneOpen.depth_le (hopening : opening = '(' ∨ opening = '[') (h : NoneOpen opening gs)
    (n : Nat) : depth opening n gs ≤ n := by
  generalize hlen : gs.length = len
  induction len using Nat.strongRecOn generalizing gs n with
  | _ len ih =>
    cases gs with
    | nil => exact Nat.le_refl n
    | cons g gs =>
      have htail : NoneOpen opening gs := NoneOpen.tail [g] h
      rw [List.length_cons] at hlen
      rcases bracket_cases opening g with rfl | rfl | ⟨hopen, hclose⟩
      · obtain ⟨inside, behind, rfl, hinside⟩ := h [] gs rfl
        rw [List.length_append, List.length_cons] at hlen
        rw [depth_opening, depth_append, depth_balanced hopening hinside, depth_closing hopening,
          Nat.add_sub_cancel]
        rw [List.append_cons] at htail
        exact ih behind.length (by omega) (htail.tail _) n rfl
      · rw [depth_closing hopening]
        exact (ih gs.length (by omega) htail (n - 1) rfl).trans (Nat.sub_le n 1)
      · rw [depth_plain hopen hclose]
        exact ih gs.length (by omega) htail n rfl

/-- **The counter is at nought exactly where every bracket that opens is closed.** -/
theorem noneOpen_iff (hopening : opening = '(' ∨ opening = '[') :
    NoneOpen opening gs ↔ depth opening 0 gs = 0 := by
  constructor
  · exact fun h => Nat.le_zero.1 (h.depth_le hopening 0)
  · rintro h front behind rfl
    rw [depth_append, depth_opening] at h
    exact matched_of_depth hopening (h.le.trans (Nat.zero_le _))

/-! ## §3. Groups. -/

/-- Inside of a group every glyph goes on with it. -/
theorem row_group {depth : Nat} {r : Reading} (h : (Reading.group opening depth).next g = r)
    (gs : List Glyph) : (Reading.group opening depth).row (g :: gs)
      = { r.row gs with rest := g.char :: (r.row gs).rest } := by
  obtain ⟨r', hmore, -⟩ := role_group opening depth g
  unfold Reading.next at h
  rw [row_cons]
  rw [hmore] at h ⊢
  rw [← h]

theorem next_group_opening (d : Nat) :
    (Reading.group opening d).next ⟨opening, .code⟩ = .group opening (d + 1) := by
  unfold Reading.next Reading.role
  simp only [isCode_self, if_true]

theorem next_group_closing (hopening : opening = '(' ∨ opening = '[') (d : Nat) :
    (Reading.group opening (d + 1)).next ⟨closing opening, .code⟩ = .group opening d := by
  unfold Reading.next Reading.role
  simp only [isCode_closing hopening, isCode_self, Bool.false_eq_true, if_false, if_true]

/-- A closing bracket ends a group with nothing open inside. -/
theorem next_closing (hopening : opening = '(' ∨ opening = '[') :
    (Reading.group opening 0).next ⟨closing opening, .code⟩ = .between := by
  unfold Reading.next Reading.role
  simp only [isCode_closing hopening, isCode_self, Bool.false_eq_true, if_false, if_true]

/-- A group goes on over a glyph that is none of its brackets. -/
theorem next_group {depth : Nat} (hopen : g.isCode opening = false)
    (hclose : g.isCode (closing opening) = false) :
    (Reading.group opening depth).next g = .group opening depth := by
  unfold Reading.next Reading.role
  simp only [hopen, hclose, Bool.false_eq_true, if_false]

/-- A group goes on over brackets of its kind that belong together. -/
theorem row_balanced (hopening : opening = '(' ∨ opening = '[') (h : Balanced opening gs) (d : Nat)
    (hs : List Glyph) : (Reading.group opening d).row (gs ++ hs)
      = { (Reading.group opening d).row hs with
          rest := gs.map Glyph.char ++ ((Reading.group opening d).row hs).rest } := by
  induction h generalizing d hs with
  | nil => rfl
  | plain hopen hclose _ ih =>
    rw [List.cons_append, row_group (next_group hopen hclose), ih]
    rfl
  | pair _ _ ihinside ihbehind =>
    rw [List.cons_append, List.append_assoc, List.cons_append, row_group (next_group_opening d),
      ihinside, row_group (next_group_closing hopening d), ihbehind]
    simp

theorem through_balanced (hopening : opening = '(' ∨ opening = '[') (h : Balanced opening gs)
    (d : Nat) : (Reading.group opening d).through gs = .group opening d := by
  induction h generalizing d with
  | nil => rfl
  | plain hopen hclose _ ih => rw [through_cons, next_group hopen hclose, ih]
  | pair _ _ ihinside ihbehind =>
    rw [through_cons, next_group_opening, through_append, ihinside, through_cons,
      next_group_closing hopening, ihbehind]

/-- **A group is read up to the bracket that belongs to its first one.** -/
theorem row_matched (hopening : opening = '(' ∨ opening = '[') (h : Balanced opening gs)
    (hs : List Glyph) : (Reading.group opening 0).row (gs ++ ⟨closing opening, .code⟩ :: hs)
      = { Reading.between.row hs with rest := gs.map Glyph.char ++ [closing opening] } := by
  rw [row_balanced hopening h, row_group (next_closing hopening), row_between_rest]

/-- **A group whose first bracket is not closed is read to the end**, however many more are open
inside. -/
theorem row_unmatched (hopening : opening = '(' ∨ opening = '[') (h : ¬Matched opening gs)
    (d : Nat) : (Reading.group opening d).row gs = ⟨gs.map Glyph.char, [], []⟩ := by
  generalize hlen : gs.length = len
  induction len using Nat.strongRecOn generalizing gs d with
  | _ len ih =>
    cases gs with
    | nil => rfl
    | cons g gs =>
      rw [List.length_cons] at hlen
      rcases bracket_cases opening g with rfl | rfl | ⟨hopen, hclose⟩
      · rw [row_group (next_group_opening d)]
        by_cases hmatched : Matched opening gs
        · -- behind the pair it goes on as before
          obtain ⟨inside, behind, rfl, hinside⟩ := hmatched
          rw [List.length_append, List.length_cons] at hlen
          rw [row_balanced hopening hinside, row_group (next_group_closing hopening d),
            ih behind.length (by omega) (fun hbehind => h (hbehind.pair hinside)) d rfl]
          simp
        · rw [ih gs.length (by omega) hmatched (d + 1) rfl]
          rfl
      · exact absurd (matched_closing opening gs) h
      · rw [row_group (next_group hopen hclose),
          ih gs.length (by omega) (fun htail => h (htail.plain hopen hclose)) d rfl]
        rfl

end SchemaDrift.Table
