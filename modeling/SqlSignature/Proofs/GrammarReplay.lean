import SqlSignature.Grammar.Knot
import SqlSignature.Proofs.ExpressionReplay
/-!
# SqlSignature.Proofs.GrammarReplay

The rules for queries are replayed, and with them the grammar. The depth of the first grammar bounds
the run; for the second one, the depth that is taken for the number of its tokens suffices, since
fewer than sixteen rules are entered before a token is passed.
-/

namespace SqlSignature

/-- How many rules can be entered before a token is passed, from a tier on. -/
def Tier.rank : Tier → Nat
  | .disjunction => 14
  | .exclusion => 13
  | .conjunction => 12
  | .negation => 11
  | .predicate => 10
  | .bitOr => 9
  | .bitAnd => 8
  | .shift => 7
  | .sum => 6
  | .product => 5
  | .bitXor => 4
  | .unary => 3

namespace Grammar

open SqlSignature.Parser Passage

/-! ### Queries -/

section

variable {s : Passage} {lo : Nat} {g h : Grammar}

/-- Whether the columns of one table are asked for. -/
theorem foreseen_allOfTableAt {c d : Cursor} :
    Foreseen s 3 1 c d (allOfTableAt c = true) (allOfTableAt d = true) := by
  have hname : s.Level c d → s.Reaches (c.position + 1) →
      d.current.any Token.isIdentifier = c.current.any Token.isIdentifier := fun hlevel hend =>
    hlevel.any_peek (fun _ _ htu => htu.isIdentifier) (k := 0) hend
  simp only [allOfTableAt, Bool.and_eq_true]
  constructor
  · rintro hlevel hend ⟨⟨hfirst, hpoint⟩, hstar⟩
    exact ⟨⟨(hname hlevel (hend.mono (by omega))).trans hfirst,
      (foreseen_peek (blind_isSymbol ".") 1).forth hlevel (hend.mono (by omega)) hpoint⟩,
      (foreseen_peek (blind_isSymbol "*") 2).forth hlevel hend hstar⟩
  · rintro hlevel hend ⟨⟨hfirst, hpoint⟩, hstar⟩
    have hend' : s.Reaches (c.position + 2) :=
      hend.imp_left fun hend => (hlevel.of_copy (blind_isSymbol ".") hend hpoint).2
    exact ⟨⟨(hname hlevel hend).symm.trans hfirst,
      (foreseen_peek (blind_isSymbol ".") 1).back hlevel hend hpoint⟩,
      (foreseen_peek (blind_isSymbol "*") 2).back hlevel hend' hstar⟩

theorem replays_selectItem (hg : Repeats s lo g h) :
    Replays s 1 s.slack lo (selectItem g) (selectItem h) := by
  have hslack := s.slack_le
  refine replays_get fun c d => ((announces_acceptSymbol "*").ite ?_ ?_) c d
  · exact replays_getPure (by omega) fun _ _ => rfl
  refine replays_get fun c d => .ite foreseen_allOfTableAt (by omega) (fun hall => ?_) fun _ => ?_
  · -- the three tokens of `t.*`
    simp only [allOfTableAt, Bool.and_eq_true, Option.any_eq_true] at hall
    obtain ⟨⟨⟨t, ht, -⟩, u, hu, -⟩, v, hv, -⟩ := hall
    have hnext := Cursor.next_position ht
    have hu' : c.next.current = some u := by
      rw [Cursor.current, Cursor.next_tokens, hnext]
      exact hu
    have hv' : c.next.next.current = some v := by
      rw [Cursor.current, Cursor.next_tokens, Cursor.next_tokens, Cursor.next_position hu', hnext]
      exact hv
    refine ReplaysAt.weaken (n := 3) (m := 0) ?_ ⟨by omega, Nat.zero_le _, Nat.le_refl lo⟩
    exact replaysAt_identifierThen fun _ _ htable => replaysAt_advanceThen hu' <|
      replaysAt_advanceThen hv' <|
        replays_getPure rfl (fun _ _ => by exact congrArg (SelectItem.allOf · ⟨0, 0⟩) htable) _ _
  · exact (hg.expr c d).bind fun _ _ hvalue => (replays_aliasName true).bind fun _ _ hlabel =>
      replays_getPure (by omega) fun _ _ => congrArg₂ (SelectItem.expr · · ⟨0, 0⟩) hvalue hlabel

theorem replays_factor (hg : Repeats s (lo + 1) g h) :
    Replays s 1 0 lo (factor g) (factor h) := by
  have hslack := s.slack_le
  refine replays_get fun c d => ((announces_acceptSymbol "(").ite ?_ ?_) c d
  · refine replays_get fun c d => .ite (foreseen_isWord "SELECT" rfl) (by omega) (fun _ => ?_)
      fun _ => replays_failThen (by simp) c d
    refine (hg.query c d).bind fun _ _ hquery => (replays_expectSymbol ")").bind fun _ _ _ =>
      (replays_aliasName false).bind fun label label' hlabel => ?_
    match label, label', hlabel with
    | none, none, _ => exact replays_fail (by simp)
    | some _, some _, hlabel =>
      exact replays_getPure (by omega) fun _ _ =>
        congrArg₂ (TableFactor.derived · · ⟨0, 0⟩) hquery (Option.some.inj hlabel)
  · exact (replays_tableName true).bind fun _ _ htable => replays_getPure (by omega) fun _ _ =>
      congrArg (fun t : TableName => TableFactor.table t.schema t.name t.label ⟨0, 0⟩) htable

theorem rounds_joinKind : Rounds s 0 0 joinKind? joinKind? :=
  .ite (announces_acceptWords Phrase.innerJoin rfl rfl) (replays_pure rfl rfl) <|
  .ite (announces_acceptWord "JOIN" rfl) (replays_pure rfl rfl) <|
  .ite (announces_acceptWord "STRAIGHT_JOIN" rfl) (replays_pure rfl rfl) <|
  .ite (announces_acceptWords Phrase.crossJoin rfl rfl) (replays_pure rfl rfl) <|
  .ite (announces_acceptWords Phrase.leftJoin rfl rfl) (replays_pure rfl rfl) <|
  .ite (announces_acceptWords Phrase.rightJoin rfl rfl) (replays_pure rfl rfl) <|
  .ite (announces_acceptWords Phrase.fullJoin rfl rfl) (replays_pure rfl rfl) rounds_none

theorem replays_joinConstraint (hg : Repeats s (lo + 1) g h) :
    Replays s 0 s.slack lo (joinConstraint g) (joinConstraint h) := by
  have hslack := s.slack_le
  have hshared : Announces s 1 (acceptPhrase Phrase.sharedColumns)
      (acceptPhrase Phrase.sharedColumns) := announces_acceptPhrase Phrase.sharedColumns rfl
  refine (announces_acceptWord "ON" rfl).ite ?_ (hshared.ite ?_ (replays_pure (by rfl) (by omega)))
  · exact hg.expr.bind fun _ _ hagree =>
      replays_pure (congrArg JoinConstraint.on hagree) (by omega)
  · exact (replays_expectSymbol "(").bind fun _ _ _ =>
      (replays_commaSeparated replays_identifier).bind fun _ _ hcolumns =>
        (replays_expectSymbol ")").bind fun _ _ _ =>
          replays_pure (congrArg JoinConstraint.shared hcolumns) (by omega)

theorem rounds_join (hg : Repeats s (lo + 1) g h) :
    Rounds s s.slack lo (join? g) (join? h) := by
  have hslack := s.slack_le
  have hkind : Rounds s s.slack lo joinKind? joinKind? := rounds_joinKind.weaken (by omega)
  refine rounds_get fun c d => hkind.bindSome (fun kind kind' hkind => ?_) (by rfl) (by rfl) c d
  obtain rfl : kind' = kind := hkind
  exact (replays_factor (hg.weaken (Nat.le_succ _))).bind fun _ _ hjoined =>
    (replays_joinConstraint (hg.weaken (Nat.le_add_right _ 2))).bind fun _ _ hconstraint =>
      replays_getPure (by omega) fun _ _ =>
        congrArg₂ (fun j k => some (Join.mk kind' j k ⟨0, 0⟩)) hjoined hconstraint

theorem replays_tableRef (hg : Repeats s (lo + 1) g h) :
    Replays s 1 s.slack lo (tableRef g) (tableRef h) := by
  have hslack := s.slack_le
  exact replays_get fun c d => (replays_factor hg c d).bind fun _ _ hfirst =>
    (replays_collect (rounds_join hg)).bind fun _ _ hjoins =>
      replays_getPure (by omega) fun _ _ => congrArg₂ (TableRef.mk · · ⟨0, 0⟩) hfirst hjoins

theorem replays_groupKeys (hg : Repeats s lo g h) :
    Replays s 1 s.slack lo (groupKeys g) (groupKeys h) := by
  refine (replays_commaSeparated hg.expr).bind fun _ _ hkeys =>
    (announces_acceptWord "WITH" rfl).ite ?_ (replays_pure hkeys (by omega))
  exact (replays_expectWord "ROLLUP").bind fun _ _ _ => replays_pure hkeys (by omega)

/-- A specification: a clause is looked for where the one before it ends. -/
theorem replays_specRule (hg : Repeats s (lo + 1) g h) :
    Replays s 1 s.slack lo (specRule g) (specRule h) := by
  have hslack := s.slack_le
  have hitems := replays_commaSeparated (replays_selectItem hg)
  have htables := rounds_afterAccepted (announces_acceptWord "FROM" rfl)
    (replays_commaSeparated (replays_tableRef hg))
  have hfilter := rounds_afterAccepted (announces_acceptWord "WHERE" rfl) hg.expr
  have hgroupBy := rounds_afterAccepted (announces_acceptWords Phrase.groupBy rfl rfl)
    (replays_groupKeys hg)
  have hhaving := rounds_afterAccepted (announces_acceptWord "HAVING" rfl) hg.expr
  refine (announces_acceptSymbol "(").ite ?_ (replays_get fun c d => ?_)
  · exact hg.spec.bind fun _ _ hspec => (replays_expectSymbol ")").bind fun _ _ _ =>
      replays_pure hspec (by omega)
  refine (replays_expectWord "SELECT" c d).bind fun _ _ _ =>
    (announces_acceptAnyWord ["DISTINCT", "DISTINCTROW"] rfl).bind fun distinct =>
      (announces_acceptWord "ALL" rfl).bind fun _ =>
        (announces_acceptWord "SQL_CALC_FOUND_ROWS" rfl).bind fun _ => hitems.bind fun _ _ hitems =>
          htables.replays.bind fun _ _ htables => hfilter.replays.bind fun _ _ hfilter =>
            hgroupBy.replays.bind fun _ _ hgroupBy => hhaving.replays.bind fun _ _ hhaving =>
              replays_getPure (by omega) fun _ _ => ?_
  show QuerySpec.mk _ _ _ _ _ _ _ = QuerySpec.mk _ _ _ _ _ _ _
  congr 1
  · exact htables.getD
  · exact hgroupBy.getD

theorem replays_unionBranch (hg : Repeats s lo g h) :
    Replays s 1 s.slack lo (unionBranch g) (unionBranch h) := by
  refine (announces_acceptWord "ALL" rfl).bind fun all => ?_
  have ending : Replays s 1 s.slack lo (do let spec ← g.spec; return (all, spec))
      (do let spec ← h.spec; return (all, spec)) :=
    hg.spec.bind fun _ _ hspec => replays_pure (congrArg (all, ·) hspec) (by omega)
  exact .ite Iff.rfl (ending.weaken (by omega))
    ((announces_acceptWord "DISTINCT" rfl).bind fun _ => ending.weaken (by omega))

theorem replays_sortKey (hg : Repeats s lo g h) :
    Replays s 1 s.slack lo (sortKey g) (sortKey h) := by
  refine hg.expr.bind fun _ _ hexpr => (announces_acceptWord "DESC" rfl).ite ?_ ?_
  · exact replays_pure (congrArg (SortKey.mk · true) hexpr) (by omega)
  · exact (announces_acceptWord "ASC" rfl).bind fun _ =>
      replays_pure (congrArg (SortKey.mk · false) hexpr) (by omega)

theorem replays_limit (hg : Repeats s lo g h) : Replays s 1 0 lo (limit g) (limit h) := by
  have hoffset := rounds_afterAccepted (announces_acceptWord "OFFSET" rfl) hg.primary
  refine hg.primary.bind fun _ _ hfirst => (announces_acceptSymbol ",").ite ?_ ?_
  · exact hg.primary.bind fun _ _ hcount =>
      replays_pure (congrArg₂ Limit.mk hcount hfirst.some) (by omega)
  · exact hoffset.replays.bind fun _ _ hoffset =>
      replays_pure (congrArg₂ Limit.mk hfirst hoffset) (by omega)

theorem replays_queryRule (hg : Repeats s (lo + 1) g h)
    (hspec : Replays s 1 s.slack lo g.spec h.spec) :
    Replays s 1 s.slack lo (queryRule g) (queryRule h) := by
  have hslack := s.slack_le
  have hothers := replays_collect
    (rounds_afterAccepted (announces_acceptWords Phrase.union rfl rfl) (replays_unionBranch hg))
  have horderBy := rounds_afterAccepted (announces_acceptWords Phrase.orderBy rfl rfl)
    (replays_commaSeparated (replays_sortKey hg))
  have hlimit := rounds_afterAccepted (announces_acceptWord "LIMIT" rfl) (replays_limit hg)
  exact replays_get fun c d => (hspec c d).bind fun _ _ hfirst => hothers.bind fun _ _ hothers =>
    horderBy.replays.bind fun _ _ horderBy => hlimit.replays.bind fun _ _ hlimit =>
      replays_getPure (by omega) fun _ _ => agree_query hfirst hothers horderBy.getD hlimit _ _

end

/-! ### The grammar -/

/-- A depth that suffices for what is left of the copy. -/
def Suffices (s : Passage) (lo rank depth : Nat) : Prop :=
  lo ≤ s.copy.size → 16 * (s.copy.size - lo) + rank ≤ depth

/-- The grammars of two depths, where the second one suffices. -/
structure RepeatsUpTo (s : Passage) (lo depth depth' : Nat) : Prop where
  tier : ∀ tier, Suffices s lo (tier.rank) depth' →
    Replays s 1 (s.margin tier) lo ((upTo depth).tier tier) ((upTo depth').tier tier)
  primary : Suffices s lo 2 depth' →
    Replays s 1 0 lo (upTo depth).primary (upTo depth').primary
  spec : Suffices s lo 1 depth' →
    Replays s 1 s.slack lo (upTo depth).spec (upTo depth').spec
  query : Suffices s lo 2 depth' →
    Replays s 1 s.slack lo (upTo depth).query (upTo depth').query

section

variable {s : Passage} {lo depth depth' rank : Nat}

theorem Suffices.next (h : Suffices s lo rank (depth' + 1)) {rank' : Nat} (hrank : rank' ≤ 14) :
    Suffices s (lo + 1) rank' depth' := by
  intro hlo
  have := h (by omega)
  omega

/-- Further on, one level less suffices for everything. -/
theorem Repeats.late (ih : ∀ lo, RepeatsUpTo s lo depth depth')
    (h : Suffices s lo rank (depth' + 1)) :
    Repeats s (lo + 1) (upTo depth) (upTo depth') where
  tier tier := (ih (lo + 1)).tier tier (h.next (by cases tier <;> simp [Tier.rank]))
  primary := (ih (lo + 1)).primary (h.next (by omega))
  spec := (ih (lo + 1)).spec (h.next (by omega))
  query := (ih (lo + 1)).query (h.next (by omega))

theorem RepeatsUpTo.succ (ih : ∀ lo, RepeatsUpTo s lo depth depth') :
    RepeatsUpTo s lo (depth + 1) (depth' + 1) where
  tier tier h := by
    refine replays_tierRule (.late ih h) tier (fun htier => ?_) fun htier => ?_
    · refine (ih lo).tier tier.next fun hlo => ?_
      have := h hlo
      have : tier.next.rank + 1 ≤ tier.rank := by
        cases tier <;> first | exact absurd rfl htier | decide
      omega
    · refine (ih lo).primary fun hlo => ?_
      have := h hlo
      subst htier
      simp only [Tier.rank] at this
      omega
  primary h := replays_primaryRule (.late ih h)
  spec h := replays_specRule (.late ih h)
  query h := replays_queryRule (.late ih h) ((ih lo).spec fun hlo => by
    have := h hlo
    omega)

/-- The induction is on the depth of the first grammar; that the second depth suffices is lost only
behind the end of the copy. For whole texts both depths are the same, so that neither is used up. -/
theorem repeats_upTo (s : Passage) (depth depth' lo : Nat) (hdepth : s.Whole → depth' = depth) :
    RepeatsUpTo s lo depth depth' := by
  induction depth generalizing depth' lo with
  | zero =>
    have failed : ∀ {α : Type} [Viewed α] {n m rank : Nat} {q : Parser α}, 0 < rank →
        Suffices s lo rank depth' → Replays s n m lo (failHere .nestingTooDeep) q :=
      fun hrank h c d => .exhausted rfl fun hs hlevel hd => by
        have hle := h (Nat.le_trans hd (hlevel.position_le hs))
        rw [hdepth hs] at hle
        omega
    exact ⟨fun tier => failed (by cases tier <;> decide), failed (by decide), failed (by decide),
      failed (by decide)⟩
  | succ depth ih =>
    cases depth' with
    | succ depth' => exact .succ fun lo => ih depth' lo fun hs => Nat.succ.inj (hdepth hs)
    | zero =>
      have hs : ¬s.Whole := fun hs => absurd (hdepth hs) (Nat.succ_ne_zero depth).symm
      have hlast : RepeatsUpTo s lo (depth + 1) 1 := .succ fun lo => ih 0 lo fun h => absurd h hs
      have beyond : ∀ {rank}, Suffices s lo rank 0 → s.copy.size ≤ lo := fun h => by
        refine Nat.not_lt.1 fun hlo => ?_
        have := h (Nat.le_of_lt hlo)
        omega
      have weaken : ∀ {rank}, Suffices s lo rank 0 → Suffices s lo rank 1 := fun h hlo =>
        Nat.le_succ_of_le (h hlo)
      exact ⟨fun tier h => (hlast.tier tier (weaken h)).beyond (beyond h) (Nat.le_refl 1) hs _,
        fun h => (hlast.primary (weaken h)).beyond (beyond h) (Nat.le_refl 1) hs _,
        fun h => (hlast.spec (weaken h)).beyond (beyond h) (Nat.le_refl 1) hs _,
        fun h => (hlast.query (weaken h)).beyond (beyond h) (Nat.le_refl 1) hs _⟩

/-- What a tier reads within a stretch, it reads in the copy. -/
theorem replay_tier (tier : Tier) {c c' d : Cursor} {e : Expr} (hs : ¬s.Whole)
    (hdepth : 16 * s.copy.size + tier.rank ≤ depth') (hlevel : s.Level c d)
    (hrun : (upTo depth).tier tier c = .ok e c') (hend : c'.position + s.margin tier ≤ s.stop) :
    ∃ e' d', (upTo depth').tier tier d = .ok e' d' ∧ s.Agrees e e' ∧ s.Level c' d' :=
  have hrepeats := repeats_upTo s depth depth' 0 fun h => absurd h hs
  (hrepeats.tier tier (fun _ => hdepth) c d).replays hlevel (Nat.zero_le _) e c' hrun hend

end

end Grammar

end SqlSignature
