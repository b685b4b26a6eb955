/-
  SchemaDrift.Proofs.Source.Shape
  ───────────────────────────────
  **THE SHAPE OF A FILE THAT WAS READ.**

  A file that was read without an error is of one of three kinds, as its directives ask, and
  what it holds is fixed by its kind (`SourceFile.Shape`).  Whatever its kind, a statement that
  defines a table is all that the text was split into:

      declared, split    the statement is the one of the text
      neither            the statements of the text are made one, which is classified again

  In the last case the statement defines a table only if the first of those it is made of does
  (`isCreateTable_joined`): the head of a definition is made of letters and white space, and
  the semicolon behind the first statement stops whatever reads it.
-/

import SchemaDrift.Proofs.Source.Statements
import SchemaDrift.Proofs.Table.Heading

namespace SchemaDrift

open SchemaDrift.Sql SchemaDrift.Text SchemaDrift.Table

/-! ## §1. Heads that are stopped. -/

/-- No letter stands in front. -/
def Halts (r : List Char) : Prop := ∀ c ∈ r.head?, (foldLetter c).isAlpha = false

/-- No letter stands in front, and none behind the white space in front. -/
structure Stops (z : List Char) : Prop where
  halts : Halts z
  behind : Halts (trimStart z)

theorem halts_cons {c : Char} (hc : isClosing c = true) (r : List Char) : Halts (c :: r) := by
  intro d hd
  obtain rfl := Option.some.inj hd
  by_contra halpha
  rw [Bool.not_eq_false] at halpha
  rcases Bool.or_eq_true_iff.1 hc with h | h
  · rw [beq_iff_eq.1 h] at halpha
    exact absurd halpha (by decide)
  · rw [isBlank_of_foldLetter halpha] at h
    cases h

/-- What begins with closing characters up to a semicolon stops the reader of a head. -/
theorem stops_of_append {u t r w : List Char} (h : u ++ t = r ++ ';' :: w)
    (hr : ∀ c ∈ r, isClosing c = true) : Stops u := by
  have hfirst : ∀ {u r : List Char}, u ++ t = r ++ ';' :: w → (∀ c ∈ r, isClosing c = true) →
      Halts u := by
    intro u r h hr
    cases u with
    | nil => exact fun c hc => nomatch hc
    | cons c u =>
      cases r with
      | nil =>
        rw [(List.cons.inj h).1]
        exact halts_cons (by decide) u
      | cons d r =>
        rw [(List.cons.inj h).1]
        exact halts_cons (hr d List.mem_cons_self) u
  refine ⟨hfirst h hr, ?_⟩
  induction u generalizing r with
  | nil => exact fun c hc => nomatch hc
  | cons c u ih =>
    by_cases hc : isBlank c = true
    · rw [trimStart, List.dropWhile_cons_of_pos hc]
      cases r with
      | nil =>
        rw [(List.cons.inj h).1] at hc
        exact absurd hc (by decide)
      | cons d r => exact ih (List.cons.inj h).2 fun c hc => hr c (List.mem_cons_of_mem d hc)
    · rw [trimStart, List.dropWhile_cons_of_neg hc]
      exact hfirst h hr

theorem keyword?_halts {k : Char} {ks r : List Char} (hk : k.isAlpha = true) (h : Halts r) :
    keyword? (k :: ks) r = none := by
  cases r with
  | nil => rfl
  | cons c r =>
    rw [keyword?, if_neg]
    rintro rfl
    rw [h c rfl] at hk
    cases hk

/-- A keyword is found in front of a stop, or not at all. -/
theorem keyword?_append {k z : List Char} (hk : ∀ c ∈ k, c.isAlpha = true) (hz : Halts z)
    (p : List Char) : keyword? k (p ++ z) = (keyword? k p).map (· ++ z) := by
  induction k generalizing p with
  | nil => rfl
  | cons y k ih =>
    cases p with
    | nil => exact keyword?_halts (hk y List.mem_cons_self) hz
    | cons c p =>
      rw [List.cons_append, keyword?, keyword?]
      split
      · exact ih (fun d hd => hk d (List.mem_cons_of_mem y hd)) p
      · rfl

/-- The text `r'` is `r` with the stop `z` behind it, or can be read no further. -/
def Overruns (z r r' : List Char) : Prop := r' = r ++ z ∨ Halts r'

/-- Whatever is left behind the stop overruns what is left without it. -/
def Overruns? (z : List Char) (x x' : Option (List Char)) : Prop :=
  match x, x' with
  | some r, some r' => Overruns z r r'
  | none, some r' => Halts r'
  | none, none => True
  | some _, none => False

variable {z : List Char}

theorem blanks?_overruns (hz : Stops z) (p : List Char) :
    Overruns? z (blanks? p) (blanks? (p ++ z)) := by
  have htrim : ∀ p : List Char, Overruns z (trimStart p) (trimStart (p ++ z)) := by
    intro p
    unfold trimStart
    rw [List.dropWhile_append]
    split
    · exact Or.inr hz.behind
    · exact Or.inl rfl
  rw [blanks?_eq, blanks?_eq]
  cases p with
  | nil =>
    rw [List.nil_append, if_neg (show ¬([] : List Char).head?.any isBlank = true from nofun)]
    split
    · exact hz.behind
    · trivial
  | cons c p =>
    rw [List.cons_append, List.head?_cons, List.head?_cons]
    split
    · exact htrim (c :: p)
    · trivial

theorem keywordBlanks?_overruns (hz : Stops z) {k : String} (hk : ∀ c ∈ k.toList, c.isAlpha = true)
    (p : List Char) : Overruns? z (keywordBlanks? k p) (keywordBlanks? k (p ++ z)) := by
  unfold keywordBlanks?
  rw [keyword?_append hk hz.halts]
  cases keyword? k.toList p with
  | none => trivial
  | some r => exact blanks?_overruns hz r

/-- No keyword is skipped where no letter stands. -/
theorem skipOneOf_halts {ks : List String}
    (hks : ∀ k ∈ ks, k ≠ "" ∧ k.toList.all Char.isAlpha = true) {r : List Char} (h : Halts r) :
    skipOneOf ks r = r := by
  have hnone : ks.findSome? (keywordBlanks? · r) = none := by
    rw [List.findSome?_eq_none_iff]
    intro k hk
    obtain ⟨hne, halpha⟩ := hks k hk
    unfold keywordBlanks?
    cases hlist : k.toList with
    | nil => exact absurd (String.toList_eq_nil_iff.1 hlist) hne
    | cons c cs =>
      rw [hlist] at halpha
      rw [keyword?_halts (List.all_eq_true.1 halpha c List.mem_cons_self) h]
      rfl
  rw [skipOneOf, hnone, Option.getD_none]

/-- Of two readings the first that succeeds. -/
theorem Overruns?.or {x x' y y' : Option (List Char)} (hx : Overruns? z x x')
    (hy : Overruns? z y y') : Overruns? z (x.or y) (x'.or y') := by
  cases x with
  | some r =>
    cases x' with
    | some r' => exact hx
    | none => exact hx.elim
  | none =>
    cases x' with
    | some r' =>
      -- whatever the second reading leaves, the first has left no letter
      cases y with
      | some u => exact Or.inr hx
      | none => exact hx
    | none => exact hy

theorem skipOneOf_overruns (hz : Stops z) {ks : List String}
    (hks : ∀ k ∈ ks, k ≠ "" ∧ k.toList.all Char.isAlpha = true) {r r' : List Char}
    (h : Overruns z r r') : Overruns z (skipOneOf ks r) (skipOneOf ks r') := by
  rcases h with rfl | h
  · -- the first keyword that is found is the same for both, unless the longer text overruns
    have hfirst : Overruns? z (ks.findSome? (keywordBlanks? · r))
        (ks.findSome? (keywordBlanks? · (r ++ z))) := by
      induction ks with
      | nil => trivial
      | cons k ks ih =>
        obtain ⟨⟨-, hk⟩, hks⟩ := List.forall_mem_cons.1 hks
        have hor := (keywordBlanks?_overruns hz (List.all_eq_true.1 hk) r).or (ih hks)
        rw [List.findSome?_cons, List.findSome?_cons]
        generalize keywordBlanks? k r = x at hor ⊢
        generalize keywordBlanks? k (r ++ z) = x' at hor ⊢
        cases x with
        | some u =>
          cases x' with
          | some u' => exact hor
          | none => exact hor
        | none =>
          cases x' with
          | some u' => exact hor
          | none => exact hor
    unfold skipOneOf
    cases hx : ks.findSome? (keywordBlanks? · r) with
    | some u =>
      cases hx' : ks.findSome? (keywordBlanks? · (r ++ z)) with
      | some u' =>
        rw [hx, hx'] at hfirst
        exact hfirst
      | none =>
        rw [hx, hx'] at hfirst
        exact hfirst.elim
    | none =>
      cases hx' : ks.findSome? (keywordBlanks? · (r ++ z)) with
      | some u' =>
        rw [hx, hx'] at hfirst
        exact Or.inr hfirst
      | none => exact Or.inl rfl
  · rw [skipOneOf_halts hks h]
    exact Or.inr h

/-- The text begins with the head of a table definition. -/
def definesTable (s : List Char) : Bool := (createTable? s).any atWordEnd

/-- **A stop makes no table definition**: what defines a table with a stop behind it does
without. -/
theorem definesTable_of_append (hz : Stops z) {p : List Char}
    (h : definesTable (p ++ z) = true) : definesTable p = true := by
  unfold definesTable createTable? create? at *
  obtain ⟨behind, hbehind, hend⟩ := Option.any_eq_true _ _ |>.1 h
  obtain ⟨rest', hcreate', htable⟩ := Option.bind_eq_some_iff.1 hbehind
  have hcreate := keywordBlanks?_overruns hz (k := "CREATE") (forall_chars (by decide)) p
  rw [hcreate'] at hcreate
  -- the keyword is not read where no letter stands
  have hletter : ∀ {r : List Char}, Halts r → keyword? "TABLE".toList r ≠ some behind := by
    intro r hr hsome
    rw [show "TABLE".toList = 'T' :: "ABLE".toList from rfl, keyword?_halts (by decide) hr] at hsome
    cases hsome
  cases hrest : keywordBlanks? "CREATE" p with
  | none =>
    rw [hrest] at hcreate
    rw [skipOneOf_halts (by decide) hcreate, skipOneOf_halts (by decide) hcreate] at htable
    exact absurd htable (hletter hcreate)
  | some rest =>
    rw [hrest] at hcreate
    have hskipped : Overruns z
        (skipOneOf ["TEMPORARY", "TEMP", "UNLOGGED"] (skipOneOf ["GLOBAL", "LOCAL"] rest))
        (skipOneOf ["TEMPORARY", "TEMP", "UNLOGGED"] (skipOneOf ["GLOBAL", "LOCAL"] rest')) :=
      skipOneOf_overruns hz (by decide) (skipOneOf_overruns hz (by decide) hcreate)
    rcases hskipped with heq | hhalts
    · rw [heq, keyword?_append (forall_chars (by decide)) hz.halts] at htable
      obtain ⟨r, hr, rfl⟩ := Option.map_eq_some_iff.1 htable
      rw [Option.bind_some, hr, Option.any_some]
      cases r with
      | nil => rfl
      | cons c r => exact hend
    · exact absurd htable (hletter hhalts)

/-! ## §2. Statements made one. -/

namespace Sql

/-- Glyphs up to one that is no gap are squeezed by themselves, with a space at most behind. -/
theorem squeeze_cut {g : Glyph} (hg : g.isGap = false) (gs rest : List Glyph)
    (started pending : Bool) : ∃ b w, squeeze started pending (gs ++ g :: rest)
      = squeeze started pending gs ++ (b ++ g.char :: w) ∧ ∀ c ∈ b, isClosing c = true := by
  induction gs generalizing started pending with
  | nil =>
    simp only [List.nil_append, squeeze, hg, Bool.false_eq_true, if_false]
    split
    · exact ⟨[' '], _, rfl, List.forall_mem_singleton.2 (by decide)⟩
    · exact ⟨[], _, rfl, List.forall_mem_nil _⟩
  | cons x gs ih =>
    rw [List.cons_append, squeeze, squeeze]
    split
    · exact ih started true
    · obtain ⟨b, w, heq, hb⟩ := ih true false
      rw [heq]
      split
      · exact ⟨b, w, rfl, hb⟩
      · exact ⟨b, w, rfl, hb⟩

/-- A trim of the end leaves what it leaves of the front, and more of the text behind that. -/
theorem exists_trimmed_append (p : Char → Bool) (a z : List Char) : ∃ u t r,
    trimEndWhile p (a ++ z) = trimEndWhile p a ++ u ∧ u ++ t = r ++ z ∧ ∀ c ∈ r, p c = true := by
  obtain ⟨r, ha, hr⟩ := exists_trimmed p a
  by_cases hall : ∀ c ∈ z, p c = true
  · refine ⟨[], z, [], ?_, rfl, List.forall_mem_nil _⟩
    rw [trimEndWhile_append_of_all hall, List.append_nil]
  · obtain ⟨t, hz, ht⟩ := exists_trimmed p z
    refine ⟨r ++ trimEndWhile p z, t, r, ?_, by rw [List.append_assoc, ← hz], hr⟩
    have hkept : trimEndWhile p (a ++ z) = a ++ trimEndWhile p z := by
      have hne : (z.reverse.dropWhile p).isEmpty = false := by
        rw [List.isEmpty_eq_false_iff, ne_eq, List.dropWhile_eq_nil_iff]
        exact fun h => hall fun c hc => h c (List.mem_reverse.2 hc)
      unfold trimEndWhile
      rw [List.reverse_append, List.dropWhile_append, hne, if_neg Bool.false_ne_true,
        List.reverse_append, List.reverse_reverse]
    rw [hkept]
    conv_lhs => rw [ha]
    rw [List.append_assoc]

/-- **A text that says something, with its semicolon**: nothing but gaps follows the semicolon, and
the text says what stands in front of it. -/
theorem classify_terminate {s : List Char} (h : normalize s ≠ []) : ∃ gs cls hs,
    classify (terminate s) = gs ++ ⟨';', cls⟩ :: hs ∧ cls ≠ .comment
      ∧ normalize s = trimEndWhile isClosing (squeeze false false gs) := by
  rw [← normalize_trimEnd] at h
  obtain ⟨gs, g, hs, hsplit, hg, hall⟩ := exists_last h
  -- what is trailing behind the last glyph that is not says nothing
  have hsays : ∀ {gs : List Glyph} {cls : CharClass} {hs : List Glyph},
      classify (terminate s) = gs ++ ⟨';', cls⟩ :: hs → (∀ x ∈ hs, x.isGap = true) →
      normalize s = trimEndWhile isClosing (squeeze false false gs) := by
    intro gs cls hs hrow hgaps
    rw [← normalize_terminate, normalize, hrow]
    refine normal_append fun x hx => ?_
    rcases List.mem_cons.1 hx with rfl | hx
    · exact Or.inr rfl
    · exact Or.inl (hgaps x hx)
  have hterminate := terminate_last hsplit hg hall
  by_cases hcode : g.isCode ';' = true
  · rw [if_pos hcode] at hterminate
    obtain ⟨hcls, hchar⟩ : g.cls = .code ∧ g.char = ';' := by
      unfold Glyph.isCode at hcode
      simpa [and_comm] using hcode
    have hrow : classify (terminate s) = gs ++ ⟨';', .code⟩ :: hs := by
      rw [hterminate, hsplit, ← hchar, ← hcls]
    refine ⟨gs, .code, hs, hrow, nofun, hsays hrow fun x hx => ?_⟩
    cases hs with
    | nil => cases hx
    | cons y hs => exact (trailing_gaps hsplit hg hall).1 x hx
  · rw [if_neg hcode] at hterminate
    obtain ⟨hgaps, cls, hrow⟩ := classify_semicolon hsplit hg hall
    rw [← hterminate] at hrow
    refine ⟨gs ++ [g], cls, hs, hrow, ?_, hsays hrow hgaps⟩
    -- a comment behind what is none begins with another character
    rintro rfl
    have hchain := classify_neighbours (terminate s)
    rw [hrow, List.append_assoc] at hchain
    have hnext : Neighbours g ⟨';', .comment⟩ :=
      (List.isChain_cons_cons.1 (List.isChain_append.1 hchain).2.1).1
    rcases hnext.opens_comment (not_comment_of_isTrailing hg) rfl with h | h
    · exact absurd h (by decide)
    · exact absurd h (by decide)

/-- **A row of statements begins with the first**: its normal form is that of the first, and
behind that there is nothing or a stop. -/
theorem normalize_joined {s : Statement} (hs : s.Says) (ss : List Statement) :
    ∃ z, normalize (joined (s :: ss)).toList = normalize s.raw.toList ++ z ∧ Stops z := by
  obtain ⟨gs, cls, hs', hterminate, hcls, hnormal⟩ := classify_terminate hs
  have hgap : (⟨';', cls⟩ : Glyph).isGap = false := by
    cases cls with
    | comment => exact absurd rfl hcls
    | code => decide
    | quoted => rfl
  obtain ⟨rest, hrow⟩ : ∃ rest, classify (joined (s :: ss)).toList = gs ++ ⟨';', cls⟩ :: rest := by
    rw [toList_joined, List.map_cons]
    cases ss with
    | nil => exact ⟨hs', by rw [List.map_nil, List.intercalate_singleton, hterminate]⟩
    | cons s' ss =>
      -- the line feed behind the first statement leaves its glyphs as they are
      have hfirst : ∀ w, ({} : Lexer).reads (terminate s.raw.toList) ('\n' :: w)
          = gs ++ ⟨';', cls⟩ :: hs' := fun w => by
        rw [(Lexer.reads_firm Lexer.delimited_start (isStop_of_isBlank (by decide)) (by decide)
          (by decide) (terminate s.raw.toList) w).1]
        exact hterminate
      rw [List.map_cons, List.intercalate_cons_cons, List.append_assoc, List.singleton_append]
      unfold classify
      rw [Lexer.glyphs_append, hfirst, List.append_assoc, List.cons_append]
      exact ⟨_, rfl⟩
  obtain ⟨b, w, hsqueeze, hb⟩ := squeeze_cut hgap gs rest false false
  obtain ⟨z, t, r, htrim, hz, hr⟩ :=
    exists_trimmed_append isClosing (squeeze false false gs) (b ++ ';' :: w)
  refine ⟨z, ?_, ?_⟩
  · rw [normalize, hrow, hsqueeze, hnormal]
    exact htrim
  · rw [← List.append_assoc] at hz
    exact stops_of_append hz (List.forall_mem_append.2 ⟨hr, hb⟩)

/-- **Statements made one define a table only if the first of them does.** -/
theorem isCreateTable_joined {s : Statement} (hs : s.Says) {ss : List Statement} {line : Option Nat}
    (h : (⟨joined (s :: ss), line⟩ : Statement).isCreateTable = true) : s.isCreateTable = true := by
  obtain ⟨z, hnormal, hz⟩ := normalize_joined hs ss
  refine definesTable_of_append hz ?_
  rw [← hnormal]
  exact h

end Sql

/-! ## §3. Files. -/

/-- What is fixed of a file with the text `text`. -/
structure SourceFile.Shape (text : String) (f : SourceFile) : Prop where
  /-- Its directives are those of the text. -/
  directives : Sql.directives text.toList = .ok f.directives
  /-- Its directives ask for one thing at most. -/
  one : ¬(f.isDeclarative = true ∧ f.isSplit = true)
  /-- It has a table exactly if it declares one. -/
  table : f.table?.isSome = f.isDeclarative
  /-- A declared table is that of the one statement, which defines a table. -/
  declared : ∀ t, f.table? = some t → ∃ s, f.statements = [s] ∧ s.isCreateTable = true
    ∧ Table.parse s.raw.toList = .ok t
  /-- A file that is not split has one statement at most. -/
  single : f.isSplit = false → f.statements.length ≤ 1
  /-- A statement that defines a table is the only one, and the text was split into it alone. -/
  alone : ∀ s ∈ f.statements, s.isCreateTable = true → f.statements = [s]
    ∧ ∃ s', split text.toList = .ok [s'] ∧ s'.isCreateTable = true ∧ s'.normalized = s.normalized
      ∧ (s = s' ∨ s.raw = joined [s'])
  /-- Every statement says something. -/
  saying : ∀ s ∈ f.statements, s.normalized ≠ ""

theorem Sql.Statement.Says.normalized {s : Statement} (h : s.Says) : s.normalized ≠ "" :=
  fun hempty => h (String.ofList_eq_empty_iff.1 hempty)

/-- A statement that defines a table in the content of a file that is neither declared nor split
is made of that statement alone. -/
theorem plainContent_alone {ss : List Statement} (hsaid : ∀ s ∈ ss, s.Says) (halone : Alone ss)
    {s : Statement} (hs : s ∈ (plainContent ss).statements) (hcreate : s.isCreateTable = true) :
    ∃ s', ss = [s'] ∧ s'.isCreateTable = true ∧ s'.normalized = s.normalized
      ∧ s.raw = joined [s'] := by
  cases ss with
  | nil => cases hs
  | cons first rest =>
    obtain rfl := List.mem_singleton.1 hs
    have hfirst := isCreateTable_joined (hsaid first List.mem_cons_self) hcreate
    obtain rfl := (List.cons.inj (halone first List.mem_cons_self hfirst)).2
    refine ⟨first, rfl, hfirst, ?_, rfl⟩
    unfold Statement.normalized
    rw [toList_joined, List.map_singleton, List.intercalate_singleton, normalize_terminate]

/-- **The shape of a file**: whatever its text, a file that is read without an error has it. -/
theorem SourceFile.read_shape {path text : String} {f : SourceFile}
    (h : SourceFile.read path text = .ok f) (hok : f.error? = none) : f.Shape text := by
  obtain ⟨c, hc⟩ := SourceFile.read_holds h hok
  have hstatements : f.statements = c.statements := hc.statements
  have htable : f.table? = c.table := hc.table
  have hcontent := hc.content
  obtain ⟨hone, ss, hss, hcontents⟩ := contentOf_ok_iff.1 hcontent
  have hsaid := split_saying hss
  -- field by field, and by the way the file is treated where that matters
  refine ⟨hc.directives, ?_, ?_, ?_, ?_, ?_, ?_⟩
  · rintro ⟨hd, hs⟩
    rw [Directives.conflicting, show f.directives.declarativeTable = true from hd,
      show f.directives.splitStatements = true from hs] at hone
    cases hone
  · rw [htable]
    cases hcontents with
    | declared hd | separate hd => exact hd.symm
    | plain hd =>
      rw [table_plainContent]
      exact hd.symm
  · intro t ht
    rw [htable] at ht
    rw [hstatements]
    cases hcontents with
    | @declared s _ _ hcreate hparse =>
      obtain rfl := Option.some.inj ht
      exact ⟨s, rfl, hcreate, hparse⟩
    | separate => cases ht
    | plain =>
      rw [table_plainContent] at ht
      cases ht
  · intro hwhole
    rw [hstatements]
    cases hcontents with
    | declared => exact le_refl 1
    | separate _ hsplit =>
      rw [show f.directives.splitStatements = false from hwhole] at hsplit
      cases hsplit
    | plain => exact Nat.not_lt.1 (length_plainContent ss)
  · intro s hs hcreate
    rw [hstatements] at hs ⊢
    refine ⟨contentOf_alone hcontent hs hcreate, ?_⟩
    rw [hss]
    cases hcontents with
    | declared =>
      obtain rfl := List.mem_singleton.1 hs
      exact ⟨s, rfl, hcreate, rfl, Or.inl rfl⟩
    | separate _ _ halone => exact ⟨s, by rw [halone s hs hcreate], hcreate, rfl, Or.inl rfl⟩
    | plain _ _ halone =>
      obtain ⟨s', rfl, hcreate', hnormal, hraw⟩ := plainContent_alone hsaid halone hs hcreate
      exact ⟨s', rfl, hcreate', hnormal, Or.inr hraw⟩
  · intro s hs
    rw [hstatements] at hs
    exact ((contentOf_sound hcontent).saying s hs).normalized

/-- A table definition in a file without directives, with a note behind it. -/
theorem SourceFile.read_shape_note :
    SourceFile.Shape "CREATE TABLE t (a int) -- note" ⟨"t.sql",
      Digest.hashOf "CREATE TABLE t (a int) -- note", {},
      .ok ⟨[⟨"CREATE TABLE t (a int); -- note", some 1⟩], none⟩⟩ :=
  SourceFile.read_shape (SourceFile.read_ok "t.sql" (by decide +kernel) (by decide +kernel)) rfl

end SchemaDrift
