/-
  SchemaDrift.Proofs.Table.Complete
  ─────────────────────────────────
  **ENTRIES THAT A CLAUSE CAN BE APPENDED TO.**

  The clauses of a column are read one behind the other, with no mark between them.  Where each of
  them is complete (`Clauses`), with as many tokens as it asks for, nothing that follows is taken
  for a part of them: they say the same of the column whatever clause is appended (`reads_clauses`),
  and so does the entry that they stand in (`column_append`).

      Target      what follows REFERENCES: a name, a column, options
      Clauses     complete clauses, one behind the other
      IsColumn    the entry of a column: a name, a type, complete clauses
-/

import SchemaDrift.Proofs.Table.Breaking
import SchemaDrift.Proofs.Table.Clauses

namespace SchemaDrift.Table

open SchemaDrift.Sql SchemaDrift.Text

/-! ## §1. Rows and the gap behind them. -/

theorem keyword?_of_isKeyword {t : Token} {k : String} (h : t.isKeyword k = true) :
    t.keyword? = some k := of_decide_eq_true h

/-- A gap behind two rows is one behind the second, or behind the first if there is no other. -/
theorem addGap_append (gap : List Char) (ts us : List Token) :
    addGap gap (ts ++ us) = addGap (if us = [] then gap else []) ts ++ addGap gap us := by
  by_cases hus : us = []
  · rw [if_pos hus, hus, List.append_nil]
    exact (List.append_nil _).symm
  · rw [if_neg hus, addGap_nil]
    induction ts with
    | nil => rfl
    | cons t ts ih =>
      rw [List.cons_append, addGap_cons _ _ (List.append_ne_nil_of_right_ne_nil ts hus), ih]
      rfl

theorem length_addGap (gap : List Char) (ts : List Token) : (addGap gap ts).length = ts.length := by
  induction ts with
  | nil => rfl
  | cons t ts ih =>
    cases ts with
    | nil => rfl
    | cons t' ts =>
      rw [addGap_cons _ _ (List.cons_ne_nil t' ts), List.length_cons, ih]
      rfl

/-- The tokens of a row with another gap behind it spell the same keywords. -/
theorem mem_addGap {gap : List Char} {ts : List Token} {t : Token} (h : t ∈ addGap gap ts) :
    ∃ t' ∈ ts, t.keyword? = t'.keyword? := by
  obtain ⟨front, behind, hsplit⟩ := List.append_of_mem h
  obtain ⟨t', behind', rfl, hkeyword⟩ := addGap_split hsplit
  exact ⟨t', List.mem_append_right _ List.mem_cons_self, hkeyword⟩

theorem getLast?_addGap (gap : List Char) (ts : List Token) :
    (addGap gap ts).getLast? = ts.getLast?.map fun t => { t with gap := t.gap ++ gap } := by
  induction ts with
  | nil => rfl
  | cons t ts ih =>
    cases ts with
    | nil => rfl
    | cons t' ts =>
      rw [addGap_cons _ _ (List.cons_ne_nil t' ts), List.getLast?_cons_cons,
        List.getLast?_cons_of_ne_nil (addGap_ne_nil (List.cons_ne_nil t' ts)), ih]

/-- What follows the row does not touch it: a gap is between them, or a bracket. -/
def Apart (ts : List Token) : Prop := ∀ t ∈ ts.getLast?, t.gap ≠ [] ∨ t.kind = .group

/-- The gap behind the last of some tokens does not decide which of them touch. -/
theorem touching_addGap (gap : List Char) (ts : List Token) (t : Token) :
    touching t (addGap gap ts) = touching t ts := by
  induction ts generalizing t with
  | nil => rfl
  | cons u ts ih =>
    cases ts with
    | nil => rfl
    | cons v ts => rw [addGap_cons _ _ (List.cons_ne_nil v ts), touching, touching, ih]

/-- Tokens that touch, with something behind them that does not. -/
theorem touching_append {ts us : List Token} {t : Token} (hts : touching t ts = ts.length)
    (hus : ∀ u ∈ us.head?, u.kind = .group ∨ ∀ l ∈ (t :: ts).getLast?, l.gap ≠ []) :
    touching t (ts ++ us) = ts.length := by
  induction ts generalizing t with
  | nil =>
    cases us with
    | nil => rfl
    | cons u us =>
      rw [List.nil_append, touching, if_neg]
      · rfl
      · rcases hus u rfl with hgroup | hgap
        · simp [hgroup]
        · simp [hgap t rfl]
  | cons u ts ih =>
    rw [touching] at hts
    rw [List.cons_append, touching]
    split at hts
    · next htouch =>
      rw [if_pos htouch, ih (Nat.succ.inj hts) fun x hx => ?_]
      · rfl
      · rw [List.getLast?_cons_cons] at hus
        exact hus x hx
    · cases hts

/-! ## §2. References. -/

/-- The tokens of an action behind `ON DELETE` or `ON UPDATE`. -/
inductive IsAction : List Token → Prop where
  | word {t : Token} {k : String} (ht : t.keyword? = some k) (hno : k ≠ "NO") (hset : k ≠ "SET") :
      IsAction [t]
  | no {t u : Token} (ht : t.isKeyword "NO" = true) : IsAction [t, u]
  | set {t u : Token} (ht : t.isKeyword "SET" = true) : IsAction [t, u]
  | setList {t u g : Token} (ht : t.isKeyword "SET" = true) (hg : g.kind = .group) :
      IsAction [t, u, g]

/-- An option behind the target of a reference. -/
inductive IsOption : List Token → Prop where
  | on {t event : Token} {ts : List Token} (ht : t.isKeyword "ON" = true)
      (hevent : event.isKeyword "DELETE" = true ∨ event.isKeyword "UPDATE" = true)
      (hts : IsAction ts) : IsOption (t :: event :: ts)
  | pair {t u : Token} (ht : t.isKeyword "MATCH" = true ∨ t.isKeyword "INITIALLY" = true) :
      IsOption [t, u]
  | deferrable {t : Token} (ht : t.isKeyword "DEFERRABLE" = true) : IsOption [t]
  | notDeferrable {t u : Token} (ht : t.isKeyword "NOT" = true)
      (hu : u.isKeyword "DEFERRABLE" = true) : IsOption [t, u]

/-- Options, one behind the other. -/
inductive Options : List Token → Prop where
  | nil : Options []
  | cons {ts us : List Token} (h : IsOption ts) (hs : Options us) : Options (ts ++ us)

/-- **An action is read**, whatever follows it that is no group. -/
theorem reads_action {ts : List Token} (h : IsAction ts) : ∃ a, ∀ gap us, leadsGroup us = false →
    referentialAction (addGap gap ts ++ us) = (some a, ts.length) := by
  cases h with
  | @word t k ht hno hset =>
    refine ⟨k, fun gap us _ => ?_⟩
    unfold referentialAction leadingKeyword?
    have hkeyword : ({ t with gap := t.gap ++ gap } : Token).keyword? = some k := ht
    simp [addGap, hkeyword]
  | @no t u ht =>
    refine ⟨"NO ACTION", fun gap us _ => ?_⟩
    unfold referentialAction leadingKeyword?
    simp [addGap, keyword?_of_isKeyword ht]
  | @set t u ht =>
    refine ⟨"SET " ++ (u.keyword?).getD "", fun gap us hus => ?_⟩
    have hkeyword : ({ u with gap := u.gap ++ gap } : Token).keyword? = u.keyword? := rfl
    unfold referentialAction leadingKeyword?
    simp [addGap, keyword?_of_isKeyword ht, hus, hkeyword]
  | @setList t u g ht hg =>
    refine ⟨"SET " ++ (u.keyword?).getD "", fun gap us _ => ?_⟩
    unfold referentialAction leadingKeyword? leadsGroup
    simp [addGap, keyword?_of_isKeyword ht, hg]

variable {e : Entry} {c : Column}

/-- Behind the first token of an option, those that it takes. -/
theorem referenceOptions_more (key : ForeignKey) (ts us : List Token) :
    (referenceOptions e ts.length key (ts ++ us)).map (fun (key, n) => (key, n + 1))
      = (referenceOptions e 0 key us).map fun (key, n) => (key, n + (ts.length + 1)) := by
  rw [referenceOptions_skip]
  cases referenceOptions e 0 key us with
  | error f => rfl
  | ok r => rfl

/-- **An option is read**, and what follows it after that. -/
theorem reads_option {ts : List Token} (h : IsOption ts) : ∃ f : ForeignKey → ForeignKey,
    ∀ gap e key us, leadsGroup us = false → referenceOptions e 0 key (addGap gap ts ++ us)
      = (referenceOptions e 0 (f key) us).map fun (key, n) => (key, n + ts.length) := by
  -- by the option: what it makes of the key, with all of its tokens taken
  cases h with
  | @on t event ts ht hevent hts =>
    obtain ⟨a, haction⟩ := reads_action hts
    refine ⟨fun key => if event.isKeyword "DELETE" then { key with onDelete := some a }
      else { key with onUpdate := some a }, fun gap e key us hus => ?_⟩
    have hne : ts ≠ [] := by cases hts <;> exact List.cons_ne_nil _ _
    have hmore := fun key => referenceOptions_more (e := e) key (event :: addGap gap ts) us
    rw [List.length_cons, length_addGap] at hmore
    rw [addGap_cons _ _ (List.cons_ne_nil event ts), addGap_cons _ _ hne, List.cons_append,
      List.cons_append, referenceOptions, if_pos ht, List.tail_cons, haction gap us hus]
    dsimp only
    by_cases hdelete : event.isKeyword "DELETE" = true
    · rw [if_pos (show leads "DELETE" (event :: _) = true from hdelete), if_pos hdelete]
      exact hmore _
    · have hupdate := hevent.resolve_left hdelete
      rw [if_neg (show ¬leads "DELETE" (event :: _) = true from hdelete), if_neg hdelete,
        if_pos (show leads "UPDATE" (event :: _) = true from hupdate)]
      exact hmore _
  | @pair t u ht =>
    refine ⟨id, fun gap e key us _ => ?_⟩
    have hon : t.isKeyword "ON" = false := by
      rcases ht with ht | ht <;>
        (unfold Token.isKeyword; rw [keyword?_of_isKeyword ht]; decide)
    show referenceOptions e 0 key (t :: { u with gap := u.gap ++ gap } :: us) = _
    rw [referenceOptions, hon, if_neg Bool.false_ne_true, if_pos (Bool.or_eq_true_iff.2 ht)]
    exact referenceOptions_more key [_] us
  | @deferrable t ht =>
    refine ⟨id, fun gap e key us _ => ?_⟩
    have hkeyword : ∀ k, ({ t with gap := t.gap ++ gap } : Token).isKeyword k
        = decide (k = "DEFERRABLE") := by
      intro k
      unfold Token.isKeyword
      rw [show ({ t with gap := t.gap ++ gap } : Token).keyword? = some "DEFERRABLE" from
        keyword?_of_isKeyword ht]
      simp [eq_comm]
    show referenceOptions e 0 key ({ t with gap := t.gap ++ gap } :: us) = _
    rw [referenceOptions]
    simp only [hkeyword]
    exact referenceOptions_more key [] us
  | @notDeferrable t u ht hu =>
    refine ⟨id, fun gap e key us _ => ?_⟩
    have hkeyword : ∀ k, t.isKeyword k = decide (k = "NOT") := by
      intro k
      unfold Token.isKeyword
      rw [keyword?_of_isKeyword ht]
      simp [eq_comm]
    have hleads : leads "DEFERRABLE" ({ u with gap := u.gap ++ gap } :: us) = true := hu
    show referenceOptions e 0 key (t :: { u with gap := u.gap ++ gap } :: us) = _
    rw [referenceOptions, hleads]
    simp only [hkeyword]
    exact referenceOptions_more key [_] us

theorem leadsGroup_option {ts : List Token} (h : IsOption ts) (gap : List Char) (us : List Token) :
    leadsGroup (addGap gap ts ++ us) = false := by
  have hword : ∀ {t : Token} {k : String}, t.isKeyword k = true → decide (t.kind = .group) = false := by
    intro t k ht
    rw [decide_eq_false_iff_not]
    intro hgroup
    have hnone := keyword?_of_isKeyword ht
    unfold Token.keyword? at hnone
    rw [hgroup] at hnone
    cases hnone
  cases h with
  | @on t event ts ht _ _ =>
    rw [addGap_cons _ _ (List.cons_ne_nil event ts)]
    exact hword ht
  | pair ht => exact ht.elim hword hword
  | deferrable ht => exact hword ht
  | notDeferrable ht _ => exact hword ht

/-- **Options are read**, as long as no other follows them. -/
theorem reads_options {ts : List Token} (h : Options ts) : ∃ f : ForeignKey → ForeignKey,
    ∀ gap e key us, OptionsEnd us → leadsGroup (addGap gap ts ++ us) = false
      ∧ referenceOptions e 0 key (addGap gap ts ++ us) = .ok (f key, ts.length) := by
  induction h with
  | nil => exact ⟨id, fun _ e key us hus => ⟨hus.1, hus.2 e key⟩⟩
  | @cons ts us h _ ih =>
    obtain ⟨f, hf⟩ := reads_option h
    obtain ⟨f', hf'⟩ := ih
    refine ⟨f' ∘ f, fun gap e key vs hvs => ?_⟩
    obtain ⟨hgroup, hrest⟩ := hf' gap e (f key) vs hvs
    rw [addGap_append, List.append_assoc, hf _ e key _ hgroup, hrest]
    refine ⟨leadsGroup_option h _ _, ?_⟩
    rw [List.length_append, Nat.add_comm]
    rfl

/-- What follows `REFERENCES`: a name, the column of it if one is named, and options. -/
inductive Target : List Token → Prop where
  | mk {t : Token} {more column options : List Token} (hkind : t.kind ≠ .group)
      (htouch : touching t more = more.length)
      (hcolumn : column = [] ∨ ∃ g inside, column = [g] ∧ g.kind = .group ∧ g.inside = .ok inside)
      (hoptions : Options options)
      (hend : column = [] → options ≠ [] → ∀ l ∈ (t :: more).getLast?, l.gap ≠ []) :
      Target (t :: (more ++ (column ++ options)))

/-- The first of some tokens with another gap behind them. -/
theorem addGap_first (gap : List Char) (t : Token) (ts : List Token) : ∃ t' ts',
    addGap gap (t :: ts) = t' :: ts' ∧ t'.kind = t.kind ∧ touching t' ts' = touching t ts
      ∧ ts'.length = ts.length := by
  cases ts with
  | nil => exact ⟨_, [], rfl, rfl, rfl, rfl⟩
  | cons u ts =>
    exact ⟨t, _, addGap_cons _ _ (List.cons_ne_nil u ts), rfl, touching_addGap _ _ _,
      length_addGap _ _⟩

/-- Tokens that touch are no groups. -/
theorem kind_of_touching {t : Token} {ts : List Token} (h : touching t ts = ts.length) :
    ∀ u ∈ ts, u.kind ≠ .group := by
  induction ts generalizing t with
  | nil => exact List.forall_mem_nil _
  | cons u ts ih =>
    rw [touching] at h
    split at h
    · next htouch =>
      simp only [Bool.and_eq_true, decide_eq_true_eq] at htouch
      exact List.forall_mem_cons.2 ⟨htouch.2, ih (Nat.succ.inj h)⟩
    · cases h

/-- A list of columns is read, or that there is none. -/
theorem reads_targetColumn {column : List Token}
    (hcolumn : column = [] ∨ ∃ g inside, column = [g] ∧ g.kind = .group ∧ g.inside = .ok inside) :
    ∃ name?, ∀ gap us, leadsGroup us = false →
      targetColumn (addGap gap column ++ us) = .ok (name?, column.length) := by
  rcases hcolumn with rfl | ⟨g, inside, rfl, hg, hinside⟩
  · refine ⟨none, fun gap us hus => ?_⟩
    cases us with
    | nil => rfl
    | cons u us =>
      have hkind : u.kind ≠ .group := by simpa [leadsGroup] using hus
      exact if_neg hkind
  · refine ⟨(columnList inside).head?, fun gap us _ => ?_⟩
    show targetColumn ({ g with gap := g.gap ++ gap } :: us) = _
    unfold targetColumn
    dsimp only
    rw [if_pos hg, show ({ g with gap := g.gap ++ gap } : Token).inside = g.inside from rfl, hinside]
    rfl

/-- A gap is behind the name of a target without a list of columns, if anything is. -/
theorem gap_behind_name {t : Token} {more options us : List Token} {gap : List Char}
    (hkind : t.kind ≠ .group) (htouch : touching t more = more.length)
    (hend : options ≠ [] → ∀ l ∈ (t :: more).getLast?, l.gap ≠ [])
    (hapart : us = [] ∨ gap ≠ [] ∨ Apart (t :: (more ++ options))) (hbehind : options ++ us ≠ []) :
    ∀ l ∈ (addGap (if options = [] then gap else []) (t :: more)).getLast?, l.gap ≠ [] := by
  rw [getLast?_addGap]
  intro l hl
  obtain ⟨l', hl', rfl⟩ := Option.map_eq_some_iff.1 hl
  by_cases hnone : options = []
  · -- the row ends with the name
    subst hnone
    rw [if_pos rfl]
    rcases hapart with rfl | hne | hapart
    · exact absurd rfl hbehind
    · exact List.append_ne_nil_of_right_ne_nil _ hne
    · refine List.append_ne_nil_of_left_ne_nil
        ((hapart l' (by simpa using hl')).resolve_right fun hgroup => ?_) _
      rcases List.mem_cons.1 (List.mem_of_getLast? hl') with rfl | hmore
      · exact hkind hgroup
      · exact kind_of_touching htouch l' hmore hgroup
  · exact List.append_ne_nil_of_left_ne_nil (hend hnone l' hl') _

/-- **What follows `REFERENCES` is read to its end**, if neither an option follows nor anything
that touches the name. -/
theorem reads_target {ts : List Token} (h : Target ts) : ∃ key, ∀ gap e us, OptionsEnd us →
    (us = [] ∨ gap ≠ [] ∨ Apart ts) → reference e (addGap gap ts ++ us) = .ok (key, ts.length) := by
  cases h with
  | @mk t more column options hkind htouch hcolumn hoptions hend =>
    obtain ⟨f, hf⟩ := reads_options hoptions
    obtain ⟨table, before, hparts⟩ := List.exists_cons_of_ne_nil
      (mt List.reverse_eq_nil_iff.1 (splitQualified_ne_nil (spanText (t :: more))))
    obtain ⟨name?, hname?⟩ := reads_targetColumn hcolumn
    refine ⟨f ⟨before.head?, table, name?, none, none⟩, fun gap e us hus hapart => ?_⟩
    obtain ⟨hgroup, hread⟩ := hf gap e ⟨before.head?, table, name?, none, none⟩ us hus
    rw [show t :: (more ++ (column ++ options)) = (t :: more) ++ (column ++ options) from rfl,
      addGap_append, addGap_append, List.append_assoc, List.append_assoc]
    generalize hgap' : (if column ++ options = [] then gap else []) = gap'
    generalize (if options = [] then gap else []) = gap''
    obtain ⟨t', more', hname, -, htouch', hlength⟩ := addGap_first gap' t more
    have hspan : spanText (t' :: more') = spanText (t :: more) := by
      rw [← hname, spanText_addGap]
    -- the name ends at a group, or at a token that does not touch it
    have htouching : touching t' (more' ++ (addGap gap'' column ++ (addGap gap options ++ us)))
        = more'.length := by
      refine touching_append (by rw [htouch', htouch, hlength]) fun u hu => ?_
      rcases hcolumn with rfl | ⟨g, inside, rfl, hg, -⟩
      · right
        rw [← hname, ← hgap']
        refine gap_behind_name hkind htouch (hend rfl) hapart ?_
        intro hnil
        obtain ⟨rfl, rfl⟩ := List.append_eq_nil_iff.1 hnil
        cases hu
      · left
        rw [← Option.some.inj hu]
        exact hg
    rw [hname, List.cons_append]
    have hrow := reference_of (e := e) (n := more'.length) htouching
      (by rw [List.take_left, hspan]; exact hparts)
      (by rw [List.drop_left]; exact hname? gap'' _ hgroup)
      (by
        rw [List.drop_left, ← length_addGap gap'' column, List.drop_left]
        exact hread)
    rw [hrow]
    simp only [List.length_append, List.length_cons]
    exact congrArg (fun n => Except.ok (_, n)) (by omega)

/-! ## §3. Clauses. -/

/-- A clause that takes so many tokens, whatever follows it. -/
inductive Fixed : Token → List Token → Prop where
  | named {t n : Token} (ht : t.isKeyword "CONSTRAINT" = true ∨ t.isKeyword "COLLATE" = true) :
      Fixed t [n]
  | notNull {t n : Token} (ht : t.isKeyword "NOT" = true) (hn : n.isKeyword "NULL" = true) :
      Fixed t [n]
  | null {t : Token} (ht : t.isKeyword "NULL" = true) : Fixed t []
  | primaryKey {t k : Token} (ht : t.isKeyword "PRIMARY" = true) (hk : k.isKeyword "KEY" = true) :
      Fixed t [k]
  | unique {t : Token} (ht : t.isKeyword "UNIQUE" = true) : Fixed t []
  | check {t g : Token} {inside : List Char} (ht : t.isKeyword "CHECK" = true)
      (hg : g.kind = .group) (hinside : g.inside = .ok inside) : Fixed t [g]

/-- The tokens are no option of a reference. -/
structure NoOption (us : List Token) : Prop where
  noGroup : leadsGroup us = false
  noWord : ∀ k ∈ ["ON", "MATCH", "INITIALLY", "DEFERRABLE"], leads k us = false
  noNot : leads "NOT" us = true → leads "DEFERRABLE" us.tail = false

/-- Complete clauses, one behind the other, and tokens between them that say nothing. -/
inductive Clauses : List Token → Prop where
  | nil : Clauses []
  | other {t : Token} {us : List Token} (ht : t.beginsClause = false) (hus : Clauses us) :
      Clauses (t :: us)
  | fixed {t : Token} {ts us : List Token} (h : Fixed t ts) (hus : Clauses us) :
      Clauses (t :: (ts ++ us))
  | default {t : Token} {ts us : List Token} (ht : t.isKeyword "DEFAULT" = true) (hne : ts ≠ [])
      (hcases : caseDepth? 0 ts = some 0)
      (hclauses : ∀ front u behind, ts = front ++ u :: behind → front ≠ [] →
        caseDepth? 0 front = some 0 → u.beginsClause = false)
      (hus : Clauses us) (hfollow : ClausesFollow us) : Clauses (t :: (ts ++ us))
  | generated {t : Token} {ts us : List Token} (ht : t.isKeyword "GENERATED" = true)
      (hts : ∀ u ∈ ts, u.beginsClause = true → u.isKeyword "DEFAULT" = true) (hus : Clauses us)
      (hfollow : ClausesFollow us) (hdefault : leads "DEFAULT" us = false) :
      Clauses (t :: (ts ++ us))
  | references {t : Token} {ts us : List Token} (ht : t.isKeyword "REFERENCES" = true)
      (h : Target ts) (hus : Clauses us) (hoption : NoOption us) (hapart : us = [] ∨ Apart ts) :
      Clauses (t :: (ts ++ us))

/-- The tokens begin with a clause that goes on with none in front of it. -/
structure Next (us : List Token) : Prop where
  clauses : ClausesFollow us
  options : NoOption us
  noDefault : leads "DEFAULT" us = false

theorem next_nil : Next [] := ⟨nofun, ⟨rfl, fun _ _ => rfl, nofun⟩, rfl⟩

theorem optionsEnd_of_noOption {us : List Token} (h : NoOption us) : OptionsEnd us := by
  refine ⟨h.noGroup, fun e key => ?_⟩
  cases us with
  | nil => rfl
  | cons u us =>
    have hword : ∀ k ∈ ["ON", "MATCH", "INITIALLY", "DEFERRABLE"], u.isKeyword k = false :=
      fun k hk => by simpa [leads] using h.noWord k hk
    have hnot : (u.isKeyword "NOT" && leads "DEFERRABLE" us) = false := by
      rw [Bool.and_eq_false_iff, or_iff_not_imp_left]
      exact fun hu => h.noNot (by simpa [leads] using hu)
    rw [referenceOptions, hword "ON" (by decide), hword "MATCH" (by decide),
      hword "INITIALLY" (by decide), hword "DEFERRABLE" (by decide), hnot]
    rfl

theorem clausesFollow_addGap {us vs : List Token} (hus : ClausesFollow us) (hvs : ClausesFollow vs)
    (gap : List Char) : ClausesFollow (addGap gap us ++ vs) := by
  cases us with
  | nil => exact hvs
  | cons u us =>
    cases us with
    | nil =>
      intro t ht
      rw [← Option.some.inj ht]
      exact hus u rfl
    | cons u' us => exact hus

theorem leads_next {us vs : List Token} {k : String} (hus : leads k us = false)
    (hvs : leads k vs = false) (gap : List Char) : leads k (addGap gap us ++ vs) = false := by
  by_cases hne : us = []
  · rw [hne]
    exact hvs
  · rw [(leads_addGap hne gap vs).1, hus]

theorem noOption_addGap {us vs : List Token} (hus : NoOption us) (hvs : NoOption vs)
    (gap : List Char) : NoOption (addGap gap us ++ vs) := by
  cases us with
  | nil => exact hvs
  | cons u us =>
    have hleads := leads_addGap (List.cons_ne_nil u us) gap vs
    refine ⟨hleads.2.trans hus.noGroup, fun k hk => (hleads.1 k).trans (hus.noWord k hk),
      fun hnot => ?_⟩
    have hdeferrable := hus.noNot ((hleads.1 "NOT").symm.trans hnot)
    cases us with
    | nil => exact hvs.noWord "DEFERRABLE" (by decide)
    | cons u' us =>
      exact @leads_next (u' :: us) _ _ hdeferrable (hvs.noWord "DEFERRABLE" (by decide)) gap

/-- The first of some tokens spells the same word with another gap behind them. -/
theorem addGap_front (gap : List Char) (t : Token) (ts : List Token) :
    ∃ t', addGap gap (t :: ts) = t' :: addGap gap ts ∧ t'.keyword? = t.keyword? := by
  cases ts with
  | nil => exact ⟨_, rfl, rfl⟩
  | cons u ts => exact ⟨t, addGap_cons _ _ (List.cons_ne_nil u ts), rfl⟩

/-- A clause is read, and what is behind it after that. -/
theorem readClauses_clause {t : Token} {ts us vs : List Token} {gap : List Char} {c' : Column}
    (h : ∀ t' : Token, t'.keyword? = t.keyword? → ∀ gap', (us = [] → gap' = gap) →
      readClause e c t' (addGap gap' ts ++ (addGap gap us ++ vs)) = .ok (c', ts.length)) :
    readClauses e 0 c (addGap gap (t :: (ts ++ us)) ++ vs)
      = readClauses e 0 c' (addGap gap us ++ vs) := by
  obtain ⟨t', hrow, hkeyword⟩ := addGap_front (if us = [] then gap else []) t ts
  rw [← List.cons_append, addGap_append, hrow, List.append_assoc, List.cons_append, readClauses,
    h t' hkeyword _ fun hus => if_pos hus, ← length_addGap (if us = [] then gap else []) ts]
  exact readClauses_skip _ _

/-- A clause of so many tokens is read. -/
theorem reads_fixed {t : Token} {ts : List Token} (h : Fixed t ts) : ∃ f : Column → Column,
    (∀ c, (f c).name = c.name) ∧ ∀ (t' : Token), t'.keyword? = t.keyword? → ∀ gap e c us,
      readClause e c t' (addGap gap ts ++ us) = .ok (f c, ts.length) := by
  have hword : ∀ {w : String} {t' : Token}, t.isKeyword w = true → t'.keyword? = t.keyword? →
      t'.keyword? = some w := fun ht hkeyword => hkeyword.trans (keyword?_of_isKeyword ht)
  -- by the clause: what it says of the column does not depend on what is around it
  cases h with
  | @named n ht =>
    refine ⟨id, fun _ => rfl, fun t' hkeyword gap e c us => ?_⟩
    rcases ht with ht | ht
    · exact readClause_eq (.constraint (hword ht hkeyword))
    · exact readClause_eq (.collate (hword ht hkeyword))
  | @notNull n ht hn =>
    refine ⟨fun c => { c with nullable := false }, fun _ => rfl, fun t' hkeyword gap e c us => ?_⟩
    have hleads : leads "NULL" (addGap gap [n] ++ us) = true :=
      ((leads_addGap (List.cons_ne_nil n []) gap us).1 "NULL").trans hn
    exact readClause_eq (.notNull (hword ht hkeyword) hleads)
  | null ht =>
    exact ⟨fun c => { c with nullable := true }, fun _ => rfl, fun t' hkeyword gap e c us =>
      readClause_eq (.null (hword ht hkeyword))⟩
  | @primaryKey k ht hk =>
    refine ⟨fun c => { c with inPrimaryKey := true }, fun _ => rfl,
      fun t' hkeyword gap e c us => ?_⟩
    have hleads : leads "KEY" (addGap gap [k] ++ us) = true :=
      ((leads_addGap (List.cons_ne_nil k []) gap us).1 "KEY").trans hk
    exact readClause_eq (.primaryKey (hword ht hkeyword) hleads)
  | unique ht =>
    exact ⟨fun c => { c with isUnique := true }, fun _ => rfl, fun t' hkeyword gap e c us =>
      readClause_eq (.unique (hword ht hkeyword))⟩
  | @check g inside ht hg hinside =>
    exact ⟨fun c => { c with checkExpr := some (String.ofList (normalize inside)) },
      fun _ => rfl, fun t' hkeyword gap e c us =>
        readClause_eq (.check (hword ht hkeyword) rfl hg hinside)⟩

/-- A token that begins no clause says nothing. -/
theorem readClause_other {t : Token} (ht : t.beginsClause = false) (us : List Token) :
    readClause e c t us = .ok (c, 0) := by
  refine readClause_eq (.other fun k hk hkeyword => ?_)
  unfold Token.beginsClause at ht
  rw [hkeyword, Option.any_some, List.contains_iff_mem.2 hk] at ht
  cases ht

/-- A default is read up to the next clause. -/
theorem reads_default {t : Token} {ts : List Token} (ht : t.isKeyword "DEFAULT" = true)
    (hne : ts ≠ []) (hcases : caseDepth? 0 ts = some 0)
    (hclauses : ∀ front u behind, ts = front ++ u :: behind → front ≠ [] →
      caseDepth? 0 front = some 0 → u.beginsClause = false) :
    ∃ f : Column → Column, (∀ c, (f c).name = c.name) ∧ ∀ (t' : Token), t'.keyword? = t.keyword? →
      ∀ gap e c us, ClausesFollow us →
        readClause e c t' (addGap gap ts ++ us) = .ok (f c, ts.length) := by
  refine ⟨fun c => { c with defaultExpr := defaultValue (normalize (spanText ts)) }, fun _ => rfl,
    fun t' hkeyword gap e c us hus => ?_⟩
  have hne' : addGap gap ts ≠ [] := addGap_ne_nil hne
  have hlength : expressionLength true 0 (addGap gap ts ++ us) = (addGap gap ts).length := by
    refine expressionLength_upTo (fun _ => hne') ((caseDepth?_addGap _ _ _).trans hcases) ?_ hus
    rintro front u behind hsplit (hfirst | hfront) hdepth
    · cases hfirst
    · obtain ⟨u', behind', hts, hword⟩ := addGap_split hsplit
      unfold Token.beginsClause
      rw [hword]
      exact hclauses front u' behind' hts hfront hdepth
  rw [readClause_eq (.default (hkeyword.trans (keyword?_of_isKeyword ht))
    (List.append_ne_nil_of_left_ne_nil hne' us) hlength rfl), List.take_left, spanText_addGap,
    length_addGap]

/-- What a column is generated by goes on up to the next clause. -/
theorem upToClause_generated {ts us : List Token} (gap : List Char)
    (hts : ∀ u ∈ ts, u.beginsClause = true → u.isKeyword "DEFAULT" = true)
    (hfollow : ClausesFollow us) (hdefault : leads "DEFAULT" us = false) :
    upToClause ["DEFAULT"] (addGap gap ts ++ us) = ts.length := by
  -- no token of the expression begins another clause
  have hallowed : ∀ t : Token, t.keyword?.any ["DEFAULT"].contains = t.isKeyword "DEFAULT" := by
    intro t
    unfold Token.isKeyword
    cases t.keyword? with
    | none => rfl
    | some k => simp
  have hall : ∀ t ∈ addGap gap ts,
      (!(t.beginsClause && !t.keyword?.any ["DEFAULT"].contains)) = true := by
    intro t ht
    obtain ⟨t', ht', hkeyword⟩ := mem_addGap ht
    rw [hallowed]
    unfold Token.beginsClause Token.isKeyword
    rw [hkeyword]
    by_cases hbegins : t'.beginsClause = true
    · have hword := hts t' ht' hbegins
      unfold Token.isKeyword at hword
      rw [hword]
      simp
    · unfold Token.beginsClause at hbegins
      simp [hbegins]
  unfold upToClause
  rw [List.takeWhile_append_of_pos hall, List.length_append, length_addGap]
  cases us with
  | nil => rfl
  | cons u us =>
    have hword : u.isKeyword "DEFAULT" = false := hdefault
    rw [List.takeWhile_cons_of_neg (by rw [hallowed, hfollow u rfl, hword]; decide)]
    rfl

/-- **Complete clauses say the same of a column, whatever clause follows them.** -/
theorem reads_clauses {ts : List Token} (h : Clauses ts) : ∃ f : Column → Column,
    (∀ c, (f c).name = c.name) ∧ ∀ gap e c vs, Next vs → (vs = [] ∨ gap ≠ []) →
      readClauses e 0 c (addGap gap ts ++ vs) = readClauses e 0 (f c) vs := by
  -- what the first clause makes of the column, then what the rest does
  induction h with
  | nil => exact ⟨id, fun _ => rfl, fun _ _ _ _ _ _ => rfl⟩
  | @other t us ht _ ih =>
    obtain ⟨f, hname, hread⟩ := ih
    refine ⟨f, hname, fun gap e c vs hvs hgap => ?_⟩
    have hother : ∀ t' : Token, t'.keyword? = t.keyword? → t'.beginsClause = false := by
      intro t' hkeyword
      unfold Token.beginsClause at ht ⊢
      rw [hkeyword, ht]
    have hclause := @readClauses_clause e c t [] us vs gap c fun t' hkeyword _ _ =>
      readClause_other (hother t' hkeyword) _
    exact hclause.trans (hread gap e c vs hvs hgap)
  | @fixed t ts us h _ ih =>
    obtain ⟨f, hname, hread⟩ := ih
    obtain ⟨f', hname', hread'⟩ := reads_fixed h
    refine ⟨f ∘ f', fun c => (hname _).trans (hname' c), fun gap e c vs hvs hgap => ?_⟩
    rw [readClauses_clause fun t' hkeyword gap' _ => hread' t' hkeyword gap' e c _,
      hread gap e _ vs hvs hgap]
    rfl
  | @default t ts us ht hne hcases hclauses _ hfollow ih =>
    obtain ⟨f, hname, hread⟩ := ih
    obtain ⟨f', hname', hread'⟩ := reads_default ht hne hcases hclauses
    refine ⟨f ∘ f', fun c => (hname _).trans (hname' c), fun gap e c vs hvs hgap => ?_⟩
    rw [readClauses_clause fun t' hkeyword gap' _ =>
        hread' t' hkeyword gap' e c _ (clausesFollow_addGap hfollow hvs.clauses gap),
      hread gap e _ vs hvs hgap]
    rfl
  | @generated t ts us ht hts _ hfollow hdefault ih =>
    obtain ⟨f, hname, hread⟩ := ih
    refine ⟨f, hname, fun gap e c vs hvs hgap => ?_⟩
    rw [@readClauses_clause _ _ _ _ _ _ _ c fun t' hkeyword gap' _ => ?_, hread gap e _ vs hvs hgap]
    exact readClause_eq (.generated (hkeyword.trans (keyword?_of_isKeyword ht))
      (upToClause_generated gap' hts (clausesFollow_addGap hfollow hvs.clauses gap)
        (leads_next hdefault hvs.noDefault gap)))
  | @references t ts us ht h _ hoption hapart ih =>
    obtain ⟨f, hname, hread⟩ := ih
    obtain ⟨key, htarget⟩ := reads_target h
    refine ⟨fun c => f { c with foreignKey := some key }, fun c => hname _,
      fun gap e c vs hvs hgap => ?_⟩
    rw [@readClauses_clause _ _ _ _ _ _ _ { c with foreignKey := some key }
      fun t' hkeyword gap' hgap' => ?_, hread gap e _ vs hvs hgap]
    have hbehind : addGap gap us ++ vs = [] ∨ gap' ≠ [] ∨ Apart ts := by
      rcases hapart with rfl | hapart
      · rcases hgap with rfl | hgap
        · exact Or.inl rfl
        · exact Or.inr (Or.inl (hgap' rfl ▸ hgap))
      · exact Or.inr (Or.inr hapart)
    exact readClause_eq (.references (hkeyword.trans (keyword?_of_isKeyword ht))
      (htarget gap' e _ (optionsEnd_of_noOption (noOption_addGap hoption hvs.options gap)) hbehind))

/-! ## §4. Columns. -/

/-- The tokens are those of a column: a name, a type, complete clauses. -/
inductive IsColumn (name : String) : List Token → Prop where
  | mk {t : Token} {type clauses : List Token} (hkind : t.kind = .word ∨ t.kind = .quotedIdent)
      (hname : unquoteIdent t.text = name) (hne : type ≠ [])
      (htype : ∀ u ∈ type, u.beginsClause = false) (hclauses : Clauses clauses)
      (hfollow : ClausesFollow clauses) : IsColumn name (t :: (type ++ clauses))

/-- **A clause that is appended to a column is read behind its own clauses**, which say what they
say without it. -/
theorem column_append {name : String} {ts : List Token} (h : IsColumn name ts) :
    ∃ c : Column, c.name = name ∧ ∀ gap text vs, Next vs → (vs = [] ∨ gap ≠ []) →
      Entry.column ⟨text, addGap gap ts ++ vs⟩
        = (readClauses ⟨text, addGap gap ts ++ vs⟩ 0 c vs).map Column.enforceKey := by
  cases h with
  | @mk t type clauses hkind hname hne htype hclauses hfollow =>
    obtain ⟨f, hf, hread⟩ := reads_clauses hclauses
    refine ⟨f (Column.new name (String.ofList (spanText type))), hf _, fun gap text vs hvs hgap => ?_⟩
    have hrow : addGap gap (t :: (type ++ clauses)) ++ vs
        = t :: (addGap (if clauses = [] then gap else []) type ++ (addGap gap clauses ++ vs)) := by
      rw [addGap_cons _ _ (List.append_ne_nil_of_left_ne_nil hne clauses), addGap_append,
        List.cons_append, List.append_assoc]
    generalize (if clauses = [] then gap else []) = gap' at hrow
    have hlength : upToClause [] (addGap gap' type ++ (addGap gap clauses ++ vs)) = type.length := by
      rw [upToClause_type _ (clausesFollow_addGap hfollow hvs.clauses gap), length_addGap]
      intro u hu
      obtain ⟨u', hu', hkeyword⟩ := mem_addGap hu
      have hno := htype u' hu'
      unfold Token.beginsClause at hno ⊢
      rw [hkeyword, hno]
    have hnone : ¬type.length = 0 := mt List.length_eq_zero_iff.1 hne
    generalize hentry : (⟨text, addGap gap (t :: (type ++ clauses)) ++ vs⟩ : Entry) = e
    have htokens : e.tokens = addGap gap (t :: (type ++ clauses)) ++ vs := by
      rw [← hentry]
    unfold Entry.column
    rw [htokens, hrow]
    dsimp only
    rw [if_pos (by simpa using hkind), hlength, if_neg hnone, hname, ← length_addGap gap' type,
      List.take_left, List.drop_left, spanText_addGap, hread gap e _ vs hvs hgap]

theorem IsColumn.ne_nil {name : String} {ts : List Token} (h : IsColumn name ts) : ts ≠ [] := by
  cases h with
  | mk => exact List.cons_ne_nil _ _

/-- A column with something appended to it is no constraint of the table. -/
theorem isTableConstraint_append {name : String} {ts : List Token} (h : IsColumn name ts)
    {text : List Char} (hcolumn : Entry.isTableConstraint ⟨text, ts⟩ = false)
    (gap text' : List Char) (vs : List Token) :
    Entry.isTableConstraint ⟨text', addGap gap ts ++ vs⟩ = false := by
  cases h with
  | @mk t type clauses _ _ hne _ _ _ =>
    have hrest : type ++ clauses ≠ [] := List.append_ne_nil_of_left_ne_nil hne clauses
    generalize type ++ clauses = rest at hrest hcolumn ⊢
    obtain ⟨hword, hgroup⟩ := leads_addGap hrest gap vs
    rw [addGap_cons _ _ hrest, List.cons_append]
    unfold Entry.isTableConstraint at hcolumn ⊢
    dsimp only at hcolumn ⊢
    rw [show leadingKeyword? (t :: (addGap gap rest ++ vs)) = leadingKeyword? (t :: rest) from rfl]
    generalize leadingKeyword? (t :: rest) = keyword at hcolumn ⊢
    split at hcolumn
    · rw [List.tail_cons] at hcolumn ⊢
      rw [hword, hgroup]
      exact hcolumn
    · -- the row goes on behind its second token, with the same word
      obtain ⟨u, behind, rfl⟩ := List.exists_cons_of_ne_nil hrest
      have hbehind : behind ≠ [] := by
        rintro rfl
        cases hcolumn
      obtain ⟨hword, -⟩ := leads_addGap hbehind gap vs
      have hempty : (addGap gap behind ++ vs).isEmpty = behind.isEmpty := by
        rw [List.isEmpty_eq_false_iff.2 hbehind, List.isEmpty_eq_false_iff]
        exact List.append_ne_nil_of_left_ne_nil (addGap_ne_nil hbehind) vs
      rw [addGap_cons _ _ hbehind, List.cons_append]
      show (_ && ((addGap gap behind ++ vs).isEmpty || leads "INCLUDING" (addGap gap behind ++ vs)
        || leads "EXCLUDING" (addGap gap behind ++ vs))) = false
      rw [hempty, hword, hword]
      simpa using hcolumn
    · exact hcolumn
    · rfl

end SchemaDrift.Table
