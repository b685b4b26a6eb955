/-
  SchemaDrift.Proofs.Table.Breaking
  ─────────────────────────────────
  **WHICH TABLE DEFINITIONS HALT THE READER.**

  Cutting out the inside of a group is the only step of the reader without an answer.  The
  reader asks for it in few places:

      CHECK (…)                          the condition of a column
      REFERENCES name (…)                the column that a reference names
      PRIMARY KEY (…), UNIQUE (…),
      FOREIGN KEY (…)                    the columns of a constraint of the table

  A definition halts the reader exactly if one of these groups is broken (`Token.Broken`)
  and the reader comes to it: the group is then at the very end of the body, and everything
  in front of its entry is read without a fault (`parse_cut_iff`).
-/

import SchemaDrift.Proofs.Table.Brackets
import SchemaDrift.Proofs.Table.ClauseKinds
import SchemaDrift.Table.Parse

namespace SchemaDrift.Table

open SchemaDrift.Sql SchemaDrift.Text

/-! ## §1. References. -/

/-- The group behind the name that a row of tokens begins with. -/
def targetGroup? : List Token → Option Token
  | [] => none
  | t :: rest => frontGroup? (rest.drop (touching t rest))

/-- The options of a reference have no fault but one of the whole entry. -/
theorem referenceOptions_error {e : Entry} {skip : Nat} {key : ForeignKey} {ts : List Token}
    {x : TableError} (h : referenceOptions e skip key ts = .error x) : x = e.malformed := by
  induction ts generalizing skip key with
  | nil => cases h
  | cons t ts ih =>
    have hgo : ∀ {skip : Nat} {key : ForeignKey},
        (referenceOptions e skip key ts).map (fun r => (r.1, r.2 + 1)) = .error x →
        x = e.malformed := by
      intro skip key h
      exact ih (map_eq_error.1 h)
    -- its only fault of its own is that of the entry; where it reads on, it fails as the rest
    unfold referenceOptions at h
    dsimp only at h
    split at h
    · exact hgo h
    · split at h
      · split at h
        · exact hgo h
        · split at h
          · exact hgo h
          · exact (Except.error.inj h).symm
      · split at h
        · exact hgo h
        · split at h
          · exact hgo h
          · split at h
            · exact hgo h
            · cases h

/-- A name has at least one part. -/
theorem splitQualified_ne_nil (s : List Char) : splitQualified s ≠ [] := by
  have hparts : ∀ (s : List Char) (inQuotes : Bool), dotParts inQuotes s ≠ [] := by
    intro s inQuotes
    cases s with
    | nil => exact List.cons_ne_nil _ _
    | cons c rest =>
      unfold dotParts
      split
      · exact List.cons_ne_nil _ _
      · split
        · exact List.cons_ne_nil _ _
        · exact List.cons_ne_nil _ _
  unfold splitQualified
  intro h
  exact hparts s false (List.map_eq_nil_iff.1 h)

/-- **A reference breaks exactly if the group behind its name is broken.** -/
theorem reference_cut_iff {e : Entry} {ts : List Token} :
    reference e ts = .error .cutInsideCharacter
      ↔ ∃ g, targetGroup? ts = some g ∧ g.Broken := by
  cases ts with
  | nil =>
    constructor
    · intro h
      cases h
    · intro ⟨g, hg, _⟩
      cases hg
  | cons t rest =>
    -- what is left once the column of the reference is read
    have hoptions : ∀ (key : ForeignKey) (us : List Token) (i : Nat),
        (referenceOptions e 0 key us >>= fun r => pure (r.1, i + r.2))
          ≠ Except.error TableError.cutInsideCharacter := by
      intro key us i h
      rcases bind_eq_error.1 h with h | ⟨r, -, h⟩
      · cases referenceOptions_error h
      · cases h
    unfold reference targetGroup?
    dsimp only
    cases hparts : (splitQualified (spanText (t :: rest.take (touching t rest)))).reverse with
    | nil => exact absurd (List.reverse_eq_nil_iff.1 hparts) (splitQualified_ne_nil _)
    | cons table before =>
      dsimp only
      cases hbehind : rest.drop (touching t rest) with
      | nil =>
        constructor
        · exact fun h => absurd h (hoptions ⟨before.head?, table, none, none, none⟩ []
            (1 + touching t rest + 0))
        · intro ⟨g, hg, _⟩
          cases hg
      | cons g behind =>
        by_cases hkind : g.kind = .group
        · have hfront : frontGroup? (g :: behind) = some g := frontGroup?_eq_some.2 ⟨rfl, hkind⟩
          rw [hfront]
          dsimp only
          rw [if_pos hkind]
          rcases inside_cases g with ⟨inside, hinside⟩ | hinside
          · rw [hinside]
            constructor
            · exact fun h => absurd h (hoptions
                ⟨before.head?, table, (columnList inside).head?, none, none⟩ behind
                (1 + touching t rest + 1))
            · intro ⟨g', hg', hbroken⟩
              rw [← Option.some.inj hg', ← inside_cut_iff hkind, hinside] at hbroken
              cases hbroken
          · rw [hinside]
            constructor
            · exact fun _ => ⟨g, rfl, (inside_cut_iff hkind).1 hinside⟩
            · exact fun _ => rfl
        · dsimp only
          rw [if_neg hkind]
          constructor
          · exact fun h => absurd h (hoptions ⟨before.head?, table, none, none, none⟩
              (g :: behind) (1 + touching t rest + 0))
          · intro ⟨g', hg', _⟩
            obtain ⟨hhead, hkind'⟩ := frontGroup?_eq_some.1 hg'
            rw [← Option.some.inj hhead] at hkind'
            exact absurd hkind' hkind

/-! ## §2. Columns. -/

/-- The group that a clause beginning with the token `t` asks for the inside of. -/
def clauseGroup? (t : Token) (rest : List Token) : Option Token :=
  match t.keyword? with
  | some "REFERENCES" => targetGroup? rest
  | some "CHECK" => frontGroup? rest
  | _ => none

/-- **A clause breaks exactly if the group it asks for is broken.** -/
theorem readClause_cut_iff {e : Entry} {c : Column} {t : Token} {rest : List Token} :
    readClause e c t rest = .error .cutInsideCharacter
      ↔ ∃ g, clauseGroup? t rest = some g ∧ g.Broken := by
  constructor
  · intro h
    have hkind := clauseKind e c t rest
    rw [h] at hkind
    -- reading breaks off in a reference or in a check, if anywhere
    unfold clauseGroup?
    generalize hfault : TableError.cutInsideCharacter = x at hkind
    cases hkind with
    | noDefault => cases hfault
    | noReference ht hkey =>
      rw [ht]
      exact reference_cut_iff.1 (hkey.trans (congrArg _ hfault.symm))
    | noCheck ht hrest hgroup hinside =>
      rw [ht, hrest]
      exact ⟨_, frontGroup?_eq_some.2 ⟨rfl, hgroup⟩,
        (inside_cut_iff hgroup).1 (hinside.trans (congrArg _ hfault.symm))⟩
  · rintro ⟨g, hg, hbroken⟩
    unfold clauseGroup? at hg
    split at hg
    · next ht => exact readClause_eq (.noReference ht (reference_cut_iff.2 ⟨g, hg, hbroken⟩))
    · next ht =>
      obtain ⟨hhead, hgroup⟩ := frontGroup?_eq_some.1 hg
      obtain ⟨behind, hrest⟩ := List.head?_eq_some_iff.1 hhead
      exact readClause_eq (.noCheck ht hrest hgroup ((inside_cut_iff hgroup).2 hbroken))
    · cases hg

/-- Reading the clauses of a column goes on from the column `c` and the tokens `ts` to the
column `c'` and the tokens `ts'`. -/
inductive Reaches (e : Entry) : Column → List Token → Column → List Token → Prop where
  | here (c : Column) (ts : List Token) : Reaches e c ts c ts
  | clause {c c' c'' : Column} {t : Token} {rest ts : List Token} {n : Nat}
      (hread : readClause e c t rest = .ok (c', n))
      (hmore : Reaches e c' (rest.drop n) c'' ts) : Reaches e c (t :: rest) c'' ts

/-- **The clauses of a column break exactly if they are read up to one that does.** -/
theorem readClauses_cut_iff {e : Entry} {skip : Nat} {c : Column} {ts : List Token} :
    readClauses e skip c ts = .error .cutInsideCharacter
      ↔ ∃ c' t rest, Reaches e c (ts.drop skip) c' (t :: rest)
        ∧ readClause e c' t rest = .error .cutInsideCharacter := by
  induction ts generalizing skip c with
  | nil =>
    rw [List.drop_nil]
    constructor
    · intro h
      cases h
    · intro ⟨c', t, rest, hreach, _⟩
      cases hreach
  | cons t ts ih =>
    cases skip with
    | succ n =>
      show readClauses e n c ts = _ ↔ _
      rw [ih, List.drop_succ_cons]
    | zero =>
      show (readClause e c t ts >>= fun r => readClauses e r.2 r.1 ts) = _ ↔ _
      -- the clause in front breaks, or one that is reached behind it
      rw [bind_eq_error, List.drop_zero]
      constructor
      · intro h
        rcases h with h | ⟨r, hread, h⟩
        · exact ⟨c, t, ts, .here _ _, h⟩
        · obtain ⟨c', t', rest, hreach, hcut⟩ := ih.1 h
          exact ⟨c', t', rest, .clause hread hreach, hcut⟩
      · intro ⟨c', t', rest, hreach, hcut⟩
        cases hreach with
        | here => exact Or.inl hcut
        | @clause _ c'' _ _ _ _ n hread hmore =>
          exact Or.inr ⟨(c'', n), hread, ih.2 ⟨c', t', rest, hmore, hcut⟩⟩

/-- Reading the entry as a column comes to a clause that asks for the inside of the group. -/
def Entry.ColumnAsks (e : Entry) (g : Token) : Prop :=
  ∃ t rest c k behind, e.tokens = t :: rest ∧ (t.kind = .word ∨ t.kind = .quotedIdent)
    ∧ upToClause [] rest ≠ 0
    ∧ Reaches e (Column.new (unquoteIdent t.text)
        (String.ofList (spanText (rest.take (upToClause [] rest)))))
      (rest.drop (upToClause [] rest)) c (k :: behind)
    ∧ clauseGroup? k behind = some g

/-- **An entry that is read as a column breaks exactly if it comes to a broken group.** -/
theorem column_cut_iff {e : Entry} :
    e.column = .error .cutInsideCharacter ↔ ∃ g, e.ColumnAsks g ∧ g.Broken := by
  unfold Entry.column Entry.ColumnAsks
  cases htokens : e.tokens with
  | nil =>
    constructor
    · intro h
      cases h
    · intro ⟨g, ⟨t, rest, c, k, behind, hnil, _⟩, _⟩
      cases hnil
  | cons t rest =>
    dsimp only
    by_cases hkind : t.kind = .word ∨ t.kind = .quotedIdent
    · rw [if_pos (by simpa using hkind)]
      -- an entry without a name or a type fails before it asks for a group
      by_cases hn : upToClause [] rest = 0
      · rw [if_pos hn]
        constructor
        · intro h
          cases h
        · intro ⟨g, ⟨t', rest', c, k, behind, hcons, _, hne, _⟩, _⟩
          obtain ⟨rfl, rfl⟩ := List.cons.inj hcons
          exact absurd hn hne
      · rw [if_neg hn]
        have hmap : ∀ x : Except TableError Column,
            x.map Column.enforceKey = .error .cutInsideCharacter
              ↔ x = .error .cutInsideCharacter := by
          intro x
          cases x with
          | error y => exact ⟨fun h => congrArg Except.error (Except.error.inj h),
              fun h => congrArg Except.error (Except.error.inj h)⟩
          | ok c =>
            constructor
            · intro h
              cases h
            · intro h
              cases h
        rw [hmap, readClauses_cut_iff, List.drop_zero]
        constructor
        · intro ⟨c, k, behind, hreach, hcut⟩
          obtain ⟨g, hg, hbroken⟩ := readClause_cut_iff.1 hcut
          exact ⟨g, ⟨t, rest, c, k, behind, rfl, hkind, hn, hreach, hg⟩, hbroken⟩
        · intro ⟨g, ⟨t', rest', c, k, behind, hcons, _, _, hreach, hg⟩, hbroken⟩
          obtain ⟨rfl, rfl⟩ := List.cons.inj hcons
          exact ⟨c, k, behind, hreach, readClause_cut_iff.2 ⟨g, hg, hbroken⟩⟩
    · rw [if_neg (by simpa using hkind)]
      constructor
      · intro h
        cases h
      · intro ⟨g, ⟨t', rest', c, k, behind, hcons, hkind', _⟩, _⟩
        obtain ⟨rfl, rfl⟩ := List.cons.inj hcons
        exact absurd hkind' hkind

/-! ## §3. Constraints of the table. -/

/-- The groups that a constraint of the table asks for the inside of, the constraint being
the row `ts`. -/
def askedGroups (ts : List Token) : List Token :=
  match leadingKeyword? ts with
  | some "PRIMARY" => (keyGroup? ts).toList
  | some "UNIQUE" => (frontGroup? (ts.tail.dropWhile (·.kind ≠ .group))).toList
  | some "FOREIGN" =>
    match keyGroup? ts with
    | some g =>
      g :: if leads "REFERENCES" (ts.drop 3) then (targetGroup? (ts.drop 4)).toList else []
    | none => []
  | _ => []

/-- **A constraint asks for its list**, and a foreign key with a list for the group behind the
name of its target too. -/
theorem mem_askedGroups {ts : List Token} {g : Token} :
    g ∈ askedGroups ts ↔
      ((∃ w ∈ keyWords, leadingKeyword? ts = some w) ∧ listGroup? ts = some g)
      ∨ (leadingKeyword? ts = some "FOREIGN" ∧ (∃ l, listGroup? ts = some l)
        ∧ leads "REFERENCES" (ts.drop 3) = true ∧ targetGroup? (ts.drop 4) = some g) := by
  unfold askedGroups
  split
  · next hw =>
    rw [← listGroup?_key hw (by decide), hw, Option.mem_toList]
    simp [keyWords]
  · next hw =>
    rw [← listGroup?_unique hw, hw, Option.mem_toList]
    simp [keyWords]
  · next hw =>
    rw [← listGroup?_key hw (by decide), hw]
    cases hlist : listGroup? ts with
    | none => simp
    | some l => by_cases htarget : leads "REFERENCES" (ts.drop 3) <;> simp [keyWords, htarget, eq_comm]
  · next hprimary hunique hforeign =>
    have hword : ∀ w ∈ keyWords, leadingKeyword? ts ≠ some w := by
      unfold keyWords
      simp_all
    refine iff_of_false List.not_mem_nil ?_
    rintro (⟨⟨w, hkey, hw⟩, -⟩ | ⟨hw, -⟩)
    · exact hword w hkey hw
    · exact hforeign hw

/-- **A constraint of the table breaks exactly if a group it asks for is broken.** -/
theorem add_cut_iff {k : KeyClauses} {e : Entry} :
    k.add e = .error .cutInsideCharacter ↔ ∃ g ∈ askedGroups e.constraint, g.Broken := by
  constructor
  · intro h
    have hkind := constraintKind k e
    rw [h] at hkind
    generalize hadd : (.error .cutInsideCharacter : Except TableError KeyClauses) = r at hkind
    have hsingle : ∀ (f : String → KeyClauses) (cs : List String),
        (.error .cutInsideCharacter : Except TableError KeyClauses) ≠ ofSingle k f cs := by
      intro f cs h
      obtain ⟨d, hd, -⟩ := ofSingle_cases k f cs
      cases h.trans hd
    -- adding breaks off in the list or in the reference, if anywhere
    cases hkind with
    | other | noList | primaryKey | noTarget => cases hadd
    | unique | foreignKey => exact absurd hadd (hsingle _ _)
    | @broken w g x hw hkey hlist hinside =>
      obtain rfl := Except.error.inj hadd
      exact ⟨g, mem_askedGroups.2 (Or.inl ⟨⟨w, hkey, hw⟩, hlist⟩),
        (inside_cut_iff (listGroup?_kind hlist)).1 hinside⟩
    | @noReference g inside x hw hlist hinside htarget href =>
      obtain rfl := Except.error.inj hadd
      obtain ⟨g', hg', hbroken⟩ := reference_cut_iff.1 href
      exact ⟨g', mem_askedGroups.2 (Or.inr ⟨hw, ⟨g, hlist⟩, htarget, hg'⟩), hbroken⟩
  · rintro ⟨g, hg, hbroken⟩
    rcases mem_askedGroups.1 hg with ⟨⟨w, hkey, hw⟩, hlist⟩ | ⟨hw, ⟨l, hlist⟩, htarget, hg⟩
    · exact add_eq (.broken hw hkey hlist ((inside_cut_iff (listGroup?_kind hlist)).2 hbroken))
    · rcases inside_cases l with ⟨inside, hinside⟩ | hinside
      · exact add_eq (.noReference hw hlist hinside htarget
          (reference_cut_iff.2 ⟨g, hg, hbroken⟩))
      · exact add_eq (.broken hw (by decide) hlist hinside)

/-! ## §4. What is asked for is a token of the entry. -/

theorem frontGroup?_mem {ts : List Token} {g : Token} (h : frontGroup? ts = some g) : g ∈ ts :=
  List.mem_of_head? (frontGroup?_eq_some.1 h).1

theorem targetGroup?_mem {ts : List Token} {g : Token} (h : targetGroup? ts = some g) :
    g ∈ ts := by
  cases ts with
  | nil => cases h
  | cons t rest => exact List.mem_cons_of_mem t (List.mem_of_mem_drop (frontGroup?_mem h))

theorem listGroup?_mem {ts : List Token} {g : Token} (h : listGroup? ts = some g) : g ∈ ts := by
  unfold listGroup? keyGroup? at h
  split at h
  · exact List.mem_of_mem_tail ((List.dropWhile_sublist _).mem (frontGroup?_mem h))
  · split at h
    · exact List.mem_of_mem_drop (frontGroup?_mem h)
    · cases h

theorem clauseGroup?_mem {t : Token} {rest : List Token} {g : Token}
    (h : clauseGroup? t rest = some g) : g ∈ rest := by
  unfold clauseGroup? at h
  split at h
  · exact targetGroup?_mem h
  · exact frontGroup?_mem h
  · cases h

theorem askedGroups_mem {ts : List Token} {g : Token} (h : g ∈ askedGroups ts) : g ∈ ts := by
  rcases mem_askedGroups.1 h with ⟨-, hlist⟩ | ⟨-, -, -, htarget⟩
  · exact listGroup?_mem hlist
  · exact List.mem_of_mem_drop (targetGroup?_mem htarget)

/-- The tokens that reading the clauses comes to are the last of those it begins with. -/
theorem Reaches.suffix {e : Entry} {c c' : Column} {ts ts' : List Token}
    (h : Reaches e c ts c' ts') : ts' <:+ ts := by
  induction h with
  | here => exact List.suffix_refl _
  | clause _ _ ih => exact (ih.trans (List.drop_suffix _ _)).trans (List.suffix_cons _ _)

theorem Entry.ColumnAsks.mem {e : Entry} {g : Token} (h : e.ColumnAsks g) : g ∈ e.tokens := by
  obtain ⟨t, rest, c, k, behind, htokens, -, -, hreach, hg⟩ := h
  rw [htokens]
  have hmem : g ∈ k :: behind := List.mem_cons_of_mem k (clauseGroup?_mem hg)
  exact List.mem_cons_of_mem t (List.mem_of_mem_drop (hreach.suffix.mem hmem))

/-! ## §5. Whole definitions. -/

/-- The reader asks for the inside of the group when it comes to the entry. -/
def Entry.Asks (e : Entry) (g : Token) : Prop :=
  if e.isTableConstraint then g ∈ askedGroups e.constraint else e.ColumnAsks g

theorem Entry.Asks.mem {e : Entry} {g : Token} (h : e.Asks g) : g ∈ e.tokens := by
  unfold Entry.Asks at h
  split at h
  · exact e.constraint_subset (askedGroups_mem h)
  · exact h.mem

/-- What the entries of a body say of the table is read without a fault: the constraints,
and behind them the columns if `withColumns` holds. -/
def ReadsTo (withColumns : Bool) (entries : List Entry) : Prop :=
  ∃ keys, (entries.filter (·.isTableConstraint)).foldlM KeyClauses.add {} = .ok keys
    ∧ (withColumns → ∃ columns,
        readColumns keys [] (entries.filter (!·.isTableConstraint)) = .ok columns)

/-- The definition halts the reader: the last entry of its body asks for the inside of a
broken group, and the reader comes to that entry. -/
def Halts (sql : List Char) : Prop :=
  ∃ head body front e g, head? (stripComments sql) = some head
    ∧ enclosed? 0 ((classify (stripComments sql)).drop
        ((stripComments sql).length - head.body.length)) = some body
    ∧ (splitTopLevel body).map Entry.of = front ++ [e]
    ∧ ReadsTo (!e.isTableConstraint) front ∧ e.Asks g ∧ g.Broken

/-- Reading a column behind others breaks exactly if reading it does. -/
theorem addColumn_cut_iff {k : KeyClauses} {cs : List Column} {e : Entry} :
    addColumn k cs e = .error .cutInsideCharacter ↔ e.column = .error .cutInsideCharacter := by
  unfold addColumn
  rw [bind_eq_error]
  refine or_iff_left ?_
  rintro ⟨c, -, h⟩
  split at h
  · cases h
  · cases h

/-- The columns break exactly if they are read up to one that does. -/
theorem readColumns_cut_iff {k : KeyClauses} {cs : List Column} {es : List Entry} :
    readColumns k cs es = .error .cutInsideCharacter
      ↔ ∃ before e behind cs', es = before ++ e :: behind
        ∧ readColumns k cs before = .ok cs' ∧ e.column = .error .cutInsideCharacter := by
  rw [readColumns_foldlM, foldlM_eq_error]
  simp only [addColumn_cut_iff, readColumns_foldlM]

/-- The entries of a body break if the constraints do, or if the columns do behind them. -/
theorem parse_cut_steps {sql : List Char} :
    parse sql = .error .cutInsideCharacter
      ↔ ∃ head body, head? (stripComments sql) = some head
        ∧ enclosed? 0 ((classify (stripComments sql)).drop
            ((stripComments sql).length - head.body.length)) = some body
        ∧ ((((splitTopLevel body).map Entry.of).filter (·.isTableConstraint)).foldlM
              KeyClauses.add {} = .error .cutInsideCharacter
          ∨ ∃ keys, (((splitTopLevel body).map Entry.of).filter (·.isTableConstraint)).foldlM
              KeyClauses.add {} = .ok keys
            ∧ readColumns keys [] (((splitTopLevel body).map Entry.of).filter
                (!·.isTableConstraint)) = .error .cutInsideCharacter) := by
  unfold parse
  dsimp only
  cases hhead : head? (stripComments sql) with
  | none =>
    constructor
    · intro h
      cases h
    · intro ⟨head, body, hsome, _⟩
      cases hsome
  | some head =>
    dsimp only
    cases hbody : enclosed? 0 ((classify (stripComments sql)).drop
        ((stripComments sql).length - head.body.length)) with
    | none =>
      constructor
      · intro h
        cases h
      · intro ⟨head', body, hsome, hbody', _⟩
        rw [← Option.some.inj hsome, hbody] at hbody'
        cases hbody'
    | some body =>
      dsimp only
      rw [bind_eq_error]
      -- a table without columns is a fault of another kind
      have hlast : ∀ (columns : List Column) (x : TableError) (t : Table),
          x ≠ .cutInsideCharacter →
          (if columns.isEmpty then Except.error x else pure t)
            ≠ Except.error TableError.cutInsideCharacter := by
        intro columns x t hx h
        split at h
        · exact hx (Except.error.inj h)
        · cases h
      constructor
      · intro h
        refine ⟨head, body, rfl, hbody, ?_⟩
        rcases h with h | ⟨keys, hkeys, h⟩
        · exact Or.inl h
        · rcases bind_eq_error.1 h with h | ⟨columns, -, h⟩
          · exact Or.inr ⟨keys, hkeys, h⟩
          · exact absurd h (hlast _ _ _ TableError.noConfusion)
      · intro ⟨head', body', hsome, hbody', h⟩
        obtain rfl := Option.some.inj hsome
        obtain rfl := Option.some.inj (hbody.symm.trans hbody')
        rcases h with h | ⟨keys, hkeys, h⟩
        · exact Or.inl h
        · exact Or.inr ⟨keys, hkeys, bind_eq_error.2 (Or.inl h)⟩

/-- An entry with a broken group stands at the end of its body. -/
theorem broken_end {sql body : List Char} {head : Head}
    (hhead : head? (stripComments sql) = some head)
    (hbody : enclosed? 0 ((classify (stripComments sql)).drop
      ((stripComments sql).length - head.body.length)) = some body)
    {before behind : List Entry} {e : Entry} {g : Token}
    (hentries : (splitTopLevel body).map Entry.of = before ++ e :: behind)
    (hg : g ∈ e.tokens) (hbroken : g.Broken) : behind = [] := by
  obtain ⟨texts, texts', hsplit, -, hmore⟩ := List.map_eq_append_iff.1 hentries
  obtain ⟨text, behind', rfl, rfl, rfl⟩ := List.map_eq_cons_iff.1 hmore
  have hmem : text ∈ splitTopLevel body := by
    rw [hsplit]
    exact List.mem_append_right _ List.mem_cons_self
  obtain ⟨⟨front, hfront, hnew⟩, -, -⟩ := broken_entry hhead hbody hmem hg hbroken
  rw [List.map_eq_nil_iff]
  by_contra hne
  -- were there more behind it, it would stand in front of the last too
  refine hnew ?_
  obtain ⟨init, last, rfl⟩ := (List.eq_nil_or_concat behind').resolve_left hne
  have hsame : front ++ [text] = (texts ++ text :: init) ++ [last] := by
    rw [← hfront, hsplit]
    simp
  obtain ⟨rfl, -⟩ := List.append_inj' hsame rfl
  exact List.mem_append_right _ List.mem_cons_self

/-- What is kept of a list, cut in two at a member, cuts the list there too. -/
theorem filter_cut {α : Type} {p : α → Bool} {l before behind : List α} {a : α}
    (h : l.filter p = before ++ a :: behind) :
    ∃ front rest, l = front ++ a :: rest ∧ front.filter p = before ∧ p a = true := by
  obtain ⟨l₁, l₂, rfl, hbefore, h₂⟩ := List.filter_eq_append_iff.1 h
  obtain ⟨l₃, l₄, rfl, hnone, ha, -⟩ := List.filter_eq_cons_iff.1 h₂
  refine ⟨l₁ ++ l₃, l₄, by rw [List.append_assoc], ?_, ha⟩
  rw [List.filter_append, hbefore, List.filter_eq_nil_iff.2 hnone, List.append_nil]

/-- **A definition of a table has no answer exactly if it halts the reader.** -/
theorem parse_cut_iff {sql : List Char} :
    parse sql = .error .cutInsideCharacter ↔ Halts sql := by
  rw [parse_cut_steps]
  constructor
  · intro ⟨head, body, hhead, hbody, h⟩
    rcases h with h | ⟨keys, hkeys, h⟩
    · -- a constraint breaks
      obtain ⟨before, e, behind, keys, hes, hbefore, hcut⟩ := foldlM_eq_error.1 h
      obtain ⟨front, rest, hentries, hfront, he⟩ := filter_cut hes
      obtain ⟨g, hg, hbroken⟩ := add_cut_iff.1 hcut
      have hasks : e.Asks g := by
        unfold Entry.Asks
        rw [if_pos he]
        exact hg
      obtain rfl := broken_end hhead hbody hentries hasks.mem hbroken
      refine ⟨head, body, front, e, g, hhead, hbody, hentries, ⟨keys, ?_, ?_⟩, hasks, hbroken⟩
      · rw [hfront]
        exact hbefore
      · intro hcolumn
        rw [he] at hcolumn
        cases hcolumn
    · -- a column does, and all constraints are in front of it
      obtain ⟨before, e, behind, columns, hes, hbefore, hcut⟩ := readColumns_cut_iff.1 h
      obtain ⟨front, rest, hentries, hfront, he⟩ := filter_cut hes
      obtain ⟨g, hg, hbroken⟩ := column_cut_iff.1 hcut
      have hnot : e.isTableConstraint = false := by simpa using he
      have hasks : e.Asks g := by
        unfold Entry.Asks
        rw [if_neg (by rw [hnot]; exact Bool.false_ne_true)]
        exact hg
      obtain rfl := broken_end hhead hbody hentries hasks.mem hbroken
      refine ⟨head, body, front, e, g, hhead, hbody, hentries, ⟨keys, ?_, ?_⟩, hasks, hbroken⟩
      · rw [hentries, List.filter_append, List.filter_singleton, hnot, cond_false,
          List.append_nil] at hkeys
        exact hkeys
      · intro _
        rw [hfront]
        exact ⟨columns, hbefore⟩
  · intro ⟨head, body, front, e, g, hhead, hbody, hentries, ⟨keys, hkeys, hcolumns⟩, hasks,
      hbroken⟩
    refine ⟨head, body, hhead, hbody, ?_⟩
    rw [hentries, List.filter_append, List.filter_append]
    unfold Entry.Asks at hasks
    by_cases he : e.isTableConstraint = true
    · rw [if_pos he] at hasks
      refine Or.inl (foldlM_eq_error.2
        ⟨_, e, [], keys, ?_, hkeys, add_cut_iff.2 ⟨g, hasks, hbroken⟩⟩)
      rw [List.filter_singleton, he, cond_true]
    · rw [if_neg he] at hasks
      have hcolumn : (!e.isTableConstraint) = true := by simpa using he
      obtain ⟨columns, hcolumns⟩ := hcolumns hcolumn
      refine Or.inr ⟨keys, ?_, readColumns_cut_iff.2
        ⟨_, e, [], columns, ?_, hcolumns, column_cut_iff.2 ⟨g, hasks, hbroken⟩⟩⟩
      · rw [List.filter_singleton, Bool.eq_false_iff.2 he, cond_false, List.append_nil]
        exact hkeys
      · rw [List.filter_singleton, hcolumn, cond_true]

end SchemaDrift.Table
