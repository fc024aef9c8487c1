import SqlSignature.Grammar.Expression
import SqlSignature.Proofs.TokenReplay
/-!
# SqlSignature.Proofs.ExpressionReplay

The rules for names and expressions are replayed. Only the tier of conjunctions looks for `AND`, so
that the tiers below it, and everything that ends with a symbol or a word of its own, may reach the
end of a stretch; the tiers from it on, and what ends with an expression, stop before `AND`.
-/

namespace SqlSignature

/-- How many tokens before the end of a stretch a tier has to stop. -/
def Passage.margin (s : Passage) : Tier → Nat
  | .disjunction | .exclusion | .conjunction => s.slack
  | _ => 0

namespace Grammar

open SqlSignature.Parser Passage

/-! ### Names -/

section

variable {s : Passage}

theorem canBeAlias_alike {t u : Token} (h : t.Alike u) (explicit allowString : Bool) :
    canBeAlias u explicit allowString = canBeAlias t explicit allowString := by
  simp only [canBeAlias, h.kind, isReserved, Text.sameName, h.lower_text]

/-- `AND` is no alias, unless `AS` stands before it. -/
theorem canBeAlias_and {u : Token} (h : u.isWord "AND" = true) (allowString : Bool) :
    canBeAlias u false allowString = false := by
  have hreserved : isReserved u.text = true := by
    simp only [Token.isWord, Bool.and_eq_true] at h
    exact List.any_eq_true.2 ⟨"AND", by decide, by rw [Text.sameName_comm]; exact h.2⟩
  simp [canBeAlias, u.kind_of_isWord h, hreserved]

/-- The alias that a token is. -/
def aliasOf? (explicit allowString : Bool) (token : Token) : Option String :=
  if canBeAlias token explicit allowString then some token.text else none

theorem aliasName_eq (allowString : Bool) :
    aliasName allowString = (do
      let explicit ← acceptWord "AS"
      match (← get).current.bind (aliasOf? explicit allowString) with
      | some label => do
        advance
        return some label
      | none => if explicit then failHere .expectedAlias else return none) := by
  unfold aliasName
  refine congrArg _ (funext fun explicit => congrArg _ (funext fun c => ?_))
  cases c.current with
  | none => rfl
  | some token => cases hname : canBeAlias token explicit allowString <;> simp [aliasOf?, hname]

theorem replays_aliasName (allowString : Bool) :
    Replays s 0 0 0 (aliasName allowString) (aliasName allowString) := by
  rw [aliasName_eq]
  refine (announces_acceptWord "AS" rfl).bind fun explicit => replays_get fun c d => ?_
  have hsame : ∀ t u, s.Matches t u →
      s.Agrees (aliasOf? explicit allowString t) (aliasOf? explicit allowString u) := by
    intro t u htu
    rw [aliasOf?, aliasOf?, canBeAlias_alike htu.toAlike]
    split
    · exact htu.name.some
    · exact agree_none
  have hpass : ∀ label label' (t : Token), s.Agrees label label' → c.current = some t →
      ReplaysAt s 1 0 0 c d (do advance; return some label : Parser (Option String))
        (do advance; return some label') := fun _ _ _ hlabel hcur =>
    (replaysAt_advance hcur).bind fun _ _ _ => replays_pure hlabel.some (by omega)
  generalize hx : c.current.bind (aliasOf? explicit allowString) = x
  generalize hy : d.current.bind (aliasOf? explicit allowString) = y
  cases explicit with
  | false =>
    apply ReplaysAt.look hx hy hsame (.inr fun u hu => ?_)
    · exact fun label label' t hlabel hcur => (hpass label label' t hlabel hcur).weaken (by omega)
    · exact replays_pure agree_none rfl c d
    · rw [aliasOf?, canBeAlias_and hu]
      rfl
  | true =>
    -- after `AS` an alias has to follow, and so lies in the stretch
    refine ReplaysAt.weaken (n := 1) (m := 0) ?_ ⟨Nat.zero_le 1, Nat.le_refl 0, Nat.zero_le _⟩
    apply ReplaysAt.look hx hy hsame (.inl s.slack_le)
    · exact fun label label' t hlabel hcur => (hpass label label' t hlabel hcur).weaken (by omega)
    · exact replays_failHere (by simp) c d

/-- A name after a point. -/
theorem rounds_member : Rounds s 0 0 (afterAccepted (acceptSymbol ".") identifier)
    (afterAccepted (acceptSymbol ".") identifier) :=
  rounds_afterAccepted (announces_acceptSymbol ".") replays_identifier

theorem replays_tableName (withAlias : Bool) :
    Replays s 1 0 0 (tableName withAlias) (tableName withAlias) := by
  have ending : ∀ {n lo : Nat} {schema schema' : Option String} {name name' : String},
      s.Agrees schema schema' → s.Agrees name name' → n = 0 → Replays s n 0 lo
        (tableNameRest withAlias schema name) (tableNameRest withAlias schema' name') := by
    intro n lo schema schema' name name' hschema hname hn
    have hresult : ∀ {label label' : Option String}, s.Agrees label label' →
        s.Agrees (TableName.mk schema name label) (TableName.mk schema' name' label') := by
      intro label label' hlabel
      show TableName.mk _ _ _ = TableName.mk _ _ _
      congr 1
    exact .ite Iff.rfl
      ((replays_aliasName false).bind fun _ _ hlabel => replays_pure (hresult hlabel) (by omega))
      (replays_pure (hresult agree_none) (by omega))
  refine replays_identifier.bind fun _ _ hfirst => (announces_acceptSymbol ".").ite ?_ ?_
  · exact replays_identifier.bind fun _ _ hname => ending hfirst.some hname (by omega)
  · exact ending agree_none hfirst (by omega)

/-- The column that the parts of a name are. -/
def columnRef? : (first : String) → (rest : List String) → Option ColumnRef
  | name, [] => some { schema := none, table := none, name }
  | table, [name] => some { schema := none, table := some table, name }
  | schema, [table, name] => some { schema := some schema, table := some table, name }
  | _, _ => none

theorem column_eq : column = (do
    let c ← get
    let first ← identifier
    let rest ← collect (afterAccepted (acceptSymbol ".") identifier)
    match columnRef? first rest with
    | some ref => finish (c.tokenStart c.position) (.column ref)
    | none => fail .invalidColumn c.position) := by
  unfold column
  congr 1; funext c; congr 1; funext first; congr 1; funext rest
  match rest with
  | [] | [_] | [_, _] | _ :: _ :: _ :: _ => rfl

theorem view_columnRef? (v : View) (first : String) (rest : List String) :
    (columnRef? first rest).map (ColumnRef.view v) =
      columnRef? (v.name first) (rest.map v.name) := by
  match rest with
  | [] | [_] | [_, _] | _ :: _ :: _ :: _ => rfl

theorem replays_column : Replays s 1 0 0 column column := by
  rw [column_eq]
  refine replays_get fun c d => (replays_identifier c d).bind fun first first' hfirst =>
    (replays_collect rounds_member).bind fun rest rest' hrest => ?_
  have href : s.Agrees (columnRef? first rest) (columnRef? first' rest') :=
    (view_columnRef? _ first' rest').trans
      ((congrArg₂ columnRef? hfirst hrest).trans (view_columnRef? _ first rest).symm)
  match columnRef? first rest, columnRef? first' rest', href with
  | none, none, _ => exact replays_fail (by simp)
  | some _, some _, href =>
    exact replays_finish (congrArg ExprForm.column (Option.some.inj href)) (by omega)

theorem replays_castTarget (name : String) :
    Replays s 0 0 0 (castTarget name) (castTarget name) := by
  unfold castTarget
  split
  case h_1 | h_2 =>
    exact (announces_acceptWord "INTEGER" rfl).bind fun _ =>
      (announces_acceptWord "INT" rfl).bind fun _ => replays_pure (by rfl) (by omega)
  case h_6 =>
    exact (announces_acceptWord "PRECISION" rfl).bind fun _ => replays_pure (by rfl) (by omega)
  all_goals exact replays_pure (by rfl) (by omega)

theorem replays_typeName : Replays s 1 0 0 typeName typeName := by
  refine replays_identifier.bind fun name name' hname => ?_
  rw [s.fits.capitals hname]
  refine (replays_castTarget _).bind fun target target' htarget => ?_
  refine (announces_acceptSymbol "(").ite ?_ (replays_pure htarget (by omega))
  exact (replays_skipTo ")").bind fun _ _ _ =>
    (replays_expectSymbol ")").bind fun _ _ _ => replays_pure htarget (by omega)

end

/-- The parsers for what lies inside are replayed, from a place on. -/
structure Repeats (s : Passage) (lo : Nat) (g h : Grammar) : Prop where
  tier : ∀ tier, Replays s 1 (s.margin tier) lo (g.tier tier) (h.tier tier)
  primary : Replays s 1 0 lo g.primary h.primary
  spec : Replays s 1 s.slack lo g.spec h.spec
  query : Replays s 1 s.slack lo g.query h.query

theorem Repeats.weaken {s : Passage} {lo lo' : Nat} {g h : Grammar} (hg : Repeats s lo g h)
    (hlo : lo ≤ lo') : Repeats s lo' g h :=
  ⟨fun tier => (hg.tier tier).weaken (by omega), hg.primary.weaken (by omega),
    hg.spec.weaken (by omega), hg.query.weaken (by omega)⟩

theorem Repeats.expr {s : Passage} {lo : Nat} {g h : Grammar} (hg : Repeats s lo g h) :
    Replays s 1 s.slack lo g.expr h.expr :=
  hg.tier .disjunction

/-- The operands of predicates. -/
theorem Repeats.operand {s : Passage} {lo : Nat} {g h : Grammar} (hg : Repeats s lo g h) :
    Replays s 1 0 lo (g.tier .bitOr) (h.tier .bitOr) :=
  hg.tier .bitOr

/-! ### Operators -/

theorem margin_next (s : Passage) (tier : Tier) : s.margin tier.next ≤ s.margin tier := by
  cases tier <;> simp [margin, Tier.next]

theorem operator?_alike (tier : Tier) {t u : Token} (h : t.Alike u) :
    tier.operator? u = tier.operator? t := by
  simp only [Tier.operator?, h.isWord, h.isSymbol]

/-- `AND` is an operator of one tier only. -/
theorem operator?_and {tier : Tier} (htier : tier ≠ .conjunction) {u : Token}
    (hu : u.isWord "AND" = true) : tier.operator? u = none := by
  have hother : ∀ word ∈ ["OR", "XOR", "DIV", "MOD"], Text.sameName word "AND" = false :=
    ne_and_of_lackAnd (by decide)
  have hword : ∀ word ∈ ["OR", "XOR", "DIV", "MOD"], u.isWord word = false :=
    fun word hmem => (blind_isWord (hother word hmem)).and u hu
  have hsymbol : ∀ symbol, u.isSymbol symbol = false :=
    fun symbol => (blind_isSymbol symbol).and u hu
  cases tier with
  | conjunction => exact absurd rfl htier
  | _ => simp [Tier.operator?, Tier.words, Tier.symbols, hsymbol, hword]

section

variable {s : Passage} {n m lo : Nat} {g h : Grammar} (hg : Repeats s (lo + 1) g h)

include hg

theorem rounds_operation (tier : Tier) {left left' : Expr} (hleft : s.Agrees left left') :
    Rounds s (s.margin tier) lo (operation? g tier left) (operation? h tier left') := by
  have hnext := margin_next s tier
  have hand : s.slack ≤ s.margin tier ∨
      ∀ u : Token, u.isWord "AND" = true → tier.operator? u = none := by
    by_cases htier : tier = .conjunction
    · exact .inl (by rw [htier]; exact Nat.le_refl _)
    · exact .inr fun u hu => operator?_and htier hu
  refine rounds_get fun c d => ?_
  generalize hx : c.current.bind tier.operator? = x
  generalize hy : d.current.bind tier.operator? = y
  apply RoundsAt.look hx hy
    (fun _ _ htu => congrArg (Option.map id) (operator?_alike tier htu.toAlike)) hand
  · rintro _ op t rfl hcur
    exact (replaysAt_advance hcur).bind fun _ _ _ => (hg.tier tier.next).bind fun _ _ hright =>
      (replays_combine op hleft hright).bind fun _ _ hagree => replays_pure hagree.some (by omega)
  · exact rounds_none c d

omit hg in
theorem replays_truthTest {start start' : Nat} {operand operand' : Expr}
    (hoperand : s.Agrees operand operand') :
    Replays s 1 0 0 (truthTest start operand) (truthTest start' operand') := by
  refine (announces_acceptWord "NOT" rfl).bind fun negated =>
    (announces_acceptAnyWord ["NULL", "UNKNOWN"] rfl).ite ?_ <|
      (announces_acceptWord "TRUE" rfl).ite ?_ <|
        (announces_acceptWord "FALSE" rfl).ite ?_ (replays_failHere (by simp))
  · exact replays_finish (congrArg (ExprForm.isNull · negated) hoperand) (by omega)
  · exact replays_finish (congrArg (ExprForm.isTruth · true negated) hoperand) (by omega)
  · exact replays_finish (congrArg (ExprForm.isTruth · false negated) hoperand) (by omega)

theorem replays_membership {start start' : Nat} {operand operand' : Expr}
    (hoperand : s.Agrees operand operand') (negated : Bool) :
    Replays s 3 0 lo (membership g start operand negated)
      (membership h start' operand' negated) := by
  have hslack := s.slack_le
  refine (replays_expectSymbol "(").bind fun _ _ _ => replays_get fun c d =>
    .ite (foreseen_isWord "SELECT" rfl) (by omega) (fun _ => ?_) fun _ => ?_
  · exact (hg.query c d).bind fun _ _ hquery => (replays_expectSymbol ")").bind fun _ _ _ =>
      replays_finish (congrArg₂ (ExprForm.inQuery · · negated) hoperand hquery) (by omega)
  · exact (replays_commaSeparated hg.expr c d).bind fun _ _ hlist =>
      (replays_expectSymbol ")").bind fun _ _ _ =>
        replays_finish (agree_inList hoperand hlist negated) (by omega)

omit hg in
/-- What a negated predicate looks at. -/
theorem foreseen_negatedPredicateAt {c d : Cursor} : Foreseen s 3 0 c d
    (negatedPredicateAt c = true) (negatedPredicateAt d = true) := by
  have stands : ∀ phrase : KeywordPhrase, phrase.endsPlainly = true → phrase.optional = [] →
      phrase.words.length + phrase.delimiter.isSome.toNat ≤ 3 →
        Foreseen s 3 0 c d (phrase.standsAt c = true) (phrase.standsAt d = true) :=
    fun phrase hplain hoptional hle =>
      (phrase.foreseen_standsAt hplain hoptional).mono hle (Nat.le_refl 0)
  exact (((stands Phrase.notIn (by decide) rfl (by decide)).or
    (stands Phrase.notBetween (by decide) rfl (by decide))).or
    (stands Phrase.notLike (by decide) rfl (by decide))).or
    (stands Phrase.notRegexp (by decide) rfl (by decide))

variable {start start' : Nat} {operand operand' : Expr}
  (hoperand : s.Agrees operand operand')

include hoperand

section

variable (negated : Bool)

include negated

theorem replays_between : Replays s 1 0 (lo + 1)
    (do
      let low ← g.tier .bitOr
      expectWord "AND"
      let high ← g.tier .bitOr
      return some (← finish start (.between operand low high negated)))
    (do
      let low ← h.tier .bitOr
      expectWord "AND"
      let high ← h.tier .bitOr
      return some (← finish start' (.between operand' low high negated))) :=
  hg.operand.bind fun low low' hlow => (replays_expectWord "AND").bind fun _ _ _ =>
    hg.operand.bind fun high high' hhigh => replays_someFinish (by
      show ExprForm.between _ _ _ _ = ExprForm.between _ _ _ _
      congr 1) (by omega)

theorem replays_like : Replays s 1 0 (lo + 1)
    (do
      let pattern ← g.tier .bitOr
      let escape ← afterAccepted (acceptWord "ESCAPE") g.primary
      return some (← finish start (.like operand pattern escape negated)))
    (do
      let pattern ← h.tier .bitOr
      let escape ← afterAccepted (acceptWord "ESCAPE") h.primary
      return some (← finish start' (.like operand' pattern escape negated))) := by
  have hescape := rounds_afterAccepted (announces_acceptWord "ESCAPE" rfl) hg.primary
  exact hg.operand.bind fun _ _ hpattern => hescape.replays.bind fun _ _ hescape =>
    replays_someFinish (agree_like hoperand hpattern hescape negated) (by omega)

theorem replays_regexp : Replays s 1 0 (lo + 1)
    (do
      let right ← g.tier .bitOr
      let test ← combine .regexp operand right
      if negated then return some (← finish start (.unary .not test)) else return some test)
    (do
      let right ← h.tier .bitOr
      let test ← combine .regexp operand' right
      if negated then return some (← finish start' (.unary .not test)) else return some test) :=
  hg.operand.bind fun right right' hright =>
    (replays_combine .regexp hoperand hright).bind fun test test' htest =>
      .ite Iff.rfl (replays_someFinish (congrArg (ExprForm.unary .not) htest) (by omega))
        (replays_pure htest.some (by omega))

theorem replays_someMembership : Replays s 3 0 (lo + 1)
    (do return some (← membership g start operand negated))
    (do return some (← membership h start' operand' negated)) :=
  (replays_membership (hg.weaken (Nat.le_succ _)) hoperand negated).bind fun _ _ hagree =>
    replays_pure hagree.some (by omega)

theorem rounds_worded :
    Rounds s 0 lo (worded g start operand negated) (worded h start' operand' negated) :=
  .ite (announces_acceptWord "IN" rfl)
    ((replays_someMembership hg hoperand negated).weaken (by omega)) <|
  .ite (announces_acceptWord "BETWEEN" rfl)
    ((replays_between hg hoperand negated).weaken (by omega)) <|
  .ite (announces_acceptWord "LIKE" rfl) ((replays_like hg hoperand negated).weaken (by omega)) <|
  .ite (announces_acceptAnyWord ["REGEXP", "RLIKE"] rfl)
    ((replays_regexp hg hoperand negated).weaken (by omega)) rounds_none

/-- Where one of the words stands, the predicate is read, and its first tokens are passed. -/
theorem replaysAt_worded {c d : Cursor} {t : Token} (hcur : c.current = some t)
    (ht : ["IN", "BETWEEN", "LIKE", "REGEXP"].any t.isWord = true) :
    ReplaysAt s 2 0 lo c d (worded g start operand negated) (worded h start' operand' negated) := by
  have hwords : ∀ word ∈ ["IN", "BETWEEN", "LIKE"], Text.sameName word "AND" = false :=
    ne_and_of_lackAnd (by decide)
  refine (accepts_word "IN").iteAt (blind_isWord (hwords _ (by simp)))
    (fun _ => (replays_someMembership hg hoperand negated).weaken (by omega)) fun hin => ?_
  refine (accepts_word "BETWEEN").iteAt (blind_isWord (hwords _ (by simp)))
    (fun _ => (replays_between hg hoperand negated).weaken (by omega)) fun hbetween => ?_
  refine (accepts_word "LIKE").iteAt (blind_isWord (hwords _ (by simp)))
    (fun _ => (replays_like hg hoperand negated).weaken (by omega)) fun hlike => ?_
  refine (accepts_anyWord ["REGEXP", "RLIKE"]).iteAt (blind_anyWord (by decide))
    (fun _ => (replays_regexp hg hoperand negated).weaken (by omega)) fun hregexp => ?_
  rw [hcur] at hin hbetween hlike hregexp
  simp only [Option.any_some, List.any_cons, List.any_nil, Bool.or_false, Bool.or_eq_false_iff,
    Bool.or_eq_true] at hin hbetween hlike hregexp ht
  simp [hin, hbetween, hlike, hregexp] at ht

end

theorem rounds_wordPredicate :
    Rounds s 0 lo (wordPredicate? g operand) (wordPredicate? h operand') := by
  rw [wordPredicate?_eq, wordPredicate?_eq]
  refine rounds_get fun c d => ?_
  have hforeseen := foreseen_negatedPredicateAt (s := s) (c := c) (d := d)
  cases hx : negatedPredicateAt c with
  | false =>
    have hrest : RoundsAt s 0 lo c d (worded g operand.span.start operand false)
        (worded h operand'.span.start operand' false) := rounds_worded hg hoperand false c d
    refine RoundsAt.of_level hrest fun hlevel => ?_
    have hy : negatedPredicateAt d = false := Bool.eq_false_iff.2 fun hd =>
      Bool.eq_false_iff.1 hx (hforeseen.back hlevel (.inl hlevel.inside) hd)
    rw [hy]
    rfl
  | true =>
    -- a negated predicate passes the tokens that were looked at
    obtain ⟨t, u, ht, -, hu, hword⟩ := word_of_negatedPredicateAt hx
    have hrest : ReplaysAt s 2 0 (lo + 1) c.next d.next (worded g operand.span.start operand true)
        (worded h operand'.span.start operand' true) :=
      replaysAt_worded (hg.weaken (Nat.le_succ _)) hoperand true hu hword
    have hthen := replaysAt_advanceThen (n := 3) ht hrest
    refine .of_pos (.of_level hthen.moves fun hlevel hend => hthen.congr rfl ?_) (by decide)
    rw [hforeseen.forth hlevel hend hx]
    rfl

/-- What extends an operand to a predicate. -/
theorem rounds_predicate : Rounds s 0 lo (predicate? g operand) (predicate? h operand') :=
  .ite (announces_acceptWord "IS" rfl)
    ((replays_truthTest hoperand).bind fun _ _ hagree => replays_pure hagree.some (by omega))
    (.orElse (rounds_wordPredicate hg hoperand) (fun _ => rfl) (fun _ => rfl)
      (rounds_operation hg .predicate hoperand))

end

theorem signOf?_alike {t u : Token} (h : t.Alike u) : signOf? u = signOf? t := by
  simp only [signOf?, h.isSymbol]

section

variable {s : Passage} {lo : Nat} {g h : Grammar} (hg : Repeats s (lo + 1) g h)

include hg

theorem replays_signed (hprimary : Replays s 1 0 lo g.primary h.primary) :
    Replays s 1 0 lo (signed g) (signed h) := by
  have hunary : Replays s 1 0 (lo + 1) (g.tier .unary) (h.tier .unary) := hg.tier .unary
  refine replays_get fun c d => ?_
  generalize hx : c.current.bind signOf? = x
  generalize hy : d.current.bind signOf? = y
  have hand : ∀ u : Token, u.isWord "AND" = true → signOf? u = none := fun u hu => by
    simp [signOf?, (blind_isSymbol _).and u hu]
  apply ReplaysAt.look hx hy
    (fun _ _ htu => congrArg (Option.map id) (signOf?_alike htu.toAlike)) (.inr hand)
  · rintro _ op t rfl hcur
    exact (replaysAt_advance hcur).bind fun _ _ _ => hunary.bind fun _ _ hoperand =>
      replays_finish (congrArg (ExprForm.unary op) hoperand) (by omega)
  · refine (hprimary c d).bind fun _ _ hoperand => (announces_acceptWord "COLLATE" rfl).ite ?_
      (replays_pure hoperand (by omega))
    exact replays_identifier.bind fun _ _ _ => replays_pure hoperand (by omega)

theorem replays_negation (hpredicate : Replays s 1 0 lo (g.tier .predicate) (h.tier .predicate)) :
    Replays s 1 0 lo (negation g) (negation h) := by
  have hnegation : Replays s 1 0 (lo + 1) (g.tier .negation) (h.tier .negation) := hg.tier .negation
  refine replays_get fun c d =>
    .ite (foreseen_isWord "NOT" rfl) (by omega) (fun hnot => ?_) fun _ => hpredicate c d
  obtain ⟨t, hcur, -⟩ := (Option.any_eq_true _ _).1 hnot
  exact (replaysAt_advance hcur).bind fun _ _ _ => hnegation.bind fun _ _ hoperand =>
    replays_finish (congrArg (ExprForm.unary .not) hoperand) (by omega)

/-- The operand of a tier is looked for where the expression starts, and everything else further
on. -/
theorem replays_tierRule (tier : Tier)
    (hfirst : tier ≠ .unary →
      Replays s 1 (s.margin tier.next) lo (g.tier tier.next) (h.tier tier.next))
    (hprimary : tier = .unary → Replays s 1 0 lo g.primary h.primary) :
    Replays s 1 (s.margin tier) lo (tierRule g tier) (tierRule h tier) := by
  have hmargin := margin_next s tier
  have operations : tier ≠ .unary → Replays s 1 (s.margin tier) lo
      (g.tier tier.next >>= extend (operation? g tier))
      (h.tier tier.next >>= extend (operation? h tier)) := fun htier =>
    (hfirst htier).bind fun _ _ hleft =>
      replays_extend (fun _ _ hleft => (rounds_operation hg tier hleft).weaken (by omega)) hleft
        (by omega)
  cases tier with
  | negation => exact replays_negation hg (hfirst nofun)
  | unary => exact replays_signed hg (hprimary rfl)
  | predicate =>
    exact (hfirst nofun).bind fun _ _ hleft =>
      replays_extend (fun _ _ hleft => (rounds_predicate hg hleft).weaken (by omega)) hleft
        (by omega)
  | _ => exact operations nofun

end

/-! ### Primary expressions -/

section

variable {s : Passage} {lo : Nat} {g h : Grammar}

theorem replays_branch (hg : Repeats s lo g h) :
    Replays s 1 s.slack lo (branch g) (branch h) := by
  have hslack := s.slack_le
  exact hg.expr.bind fun _ _ hcondition => (replays_expectWord "THEN").bind fun _ _ _ =>
    hg.expr.bind fun _ _ hresult =>
      replays_pure (congrArg₂ Branch.mk hcondition hresult) (by omega)

theorem replays_choice (hg : Repeats s (lo + 1) g h) {start start' : Nat} :
    Replays s 1 0 lo (choice g start) (choice h start') := by
  have hslack := s.slack_le
  have hbranches := rounds_afterAccepted (announces_acceptWord "WHEN" rfl) (replays_branch hg)
  have hotherwise := rounds_afterAccepted (announces_acceptWord "ELSE" rfl) hg.expr
  have ending : ∀ {operand operand' : Option Expr}, s.Agrees operand operand' →
      Replays s 1 0 (lo + 1) (choiceRest g start operand) (choiceRest h start' operand') := by
    intro operand operand' hoperand
    refine (replays_collect hbranches).bind fun branches branches' hagree =>
      .ite (by rw [hagree.isEmpty]) (replays_failHereThen (by simp)) ?_
    exact hotherwise.replays.bind fun _ _ hother => (replays_expectWord "END").bind fun _ _ _ =>
      replays_finish (agree_choice hoperand hagree hother) (by omega)
  refine (replays_expectWord "CASE").bind fun _ _ _ => replays_get fun c d =>
    .ite (foreseen_isWord "WHEN" rfl) (by omega)
      (fun _ => (ending agree_none c d).weaken (by omega)) fun _ => ?_
  exact ((hg.expr.map fun _ _ hagree => hagree.some) c d).bind fun _ _ hagree =>
    (ending hagree).weaken (by omega)

section

variable (hg : Repeats s (lo + 1) g h) {c d : Cursor} {t : Token} (hcur : c.current = some t)
  {start start' : Nat}

include hg hcur

theorem replaysAt_castCall : ReplaysAt s 2 0 lo c d (castCall g start) (castCall h start') := by
  have hslack := s.slack_le
  exact (replaysAt_advance hcur).bind fun _ _ _ => (replays_expectSymbol "(").bind fun _ _ _ =>
    hg.expr.bind fun _ _ hoperand => (replays_expectWord "AS").bind fun _ _ _ =>
      replays_typeName.bind fun _ _ htarget => (replays_expectSymbol ")").bind fun _ _ _ =>
        replays_finish (congrArg₂ ExprForm.cast hoperand htarget) (by omega)

theorem replaysAt_convertCall :
    ReplaysAt s 2 0 lo c d (convertCall g start) (convertCall h start') := by
  have hslack := s.slack_le
  refine (replaysAt_advance hcur).bind fun _ _ _ => (replays_expectSymbol "(").bind fun _ _ _ =>
    hg.expr.bind fun operand operand' hoperand => ?_
  have ending : ∀ {target target' : SqlType}, s.Agrees target target' →
      Replays s 1 0 0 (do expectSymbol ")"; finish start (.cast operand target))
        (do expectSymbol ")"; finish start' (.cast operand' target')) := fun htarget =>
    (replays_expectSymbol ")").bind fun _ _ _ =>
      replays_finish (congrArg₂ ExprForm.cast hoperand htarget) (by omega)
  refine (announces_acceptWord "USING" rfl).ite ?_ ?_
  · exact replays_identifier.bind fun _ _ _ => (ending rfl).weaken (by omega)
  · exact (replays_expectSymbol ",").bind fun _ _ _ => replays_typeName.bind fun _ _ htarget =>
      (ending htarget).weaken (by omega)

end

theorem replays_unitArgument : Replays s 1 0 0 unitArgument unitArgument := by
  refine replays_get fun c d => (replays_identifier c d).bind fun unit unit' hunit => ?_
  rw [s.fits.capitals hunit]
  exact replays_finish (by rfl) (by omega)

theorem replays_plainArguments (hg : Repeats s lo g h) :
    Replays s 1 s.slack lo (plainArguments g) (plainArguments h) := by
  have hslack := s.slack_le
  have hexprs := replays_commaSeparated hg.expr
  have hkeys : Replays s 1 s.slack lo (argumentKeys g) (argumentKeys h) :=
    hexprs.bind fun _ _ hkeys => (announces_acceptAnyWord ["ASC", "DESC"] rfl).bind fun _ =>
      replays_pure hkeys (by omega)
  have horderBy := rounds_afterAccepted (announces_acceptWords Phrase.orderBy rfl rfl) hkeys
  have hseparator := rounds_afterAccepted (announces_acceptWord "SEPARATOR" rfl) hg.primary
  refine (announces_acceptSymbol "*").ite (replays_pure (by rfl) (by omega)) ?_
  exact (announces_acceptWord "DISTINCT" rfl).bind fun distinct => hexprs.bind fun _ _ hargs =>
    horderBy.replays.bind fun _ _ hkeys => hseparator.replays.bind fun _ _ hseparator =>
      replays_pure (congrArg₂ (Arguments.mk · distinct false ·) hargs
        (hkeys.getD.append hseparator.toList)) (by omega)

theorem replays_arguments (hg : Repeats s lo g h) (name : String) :
    Replays s 1 s.slack lo (arguments g name) (arguments h name) := by
  have hslack := s.slack_le
  have hexprs := replays_commaSeparated hg.expr
  have plain : ∀ {args args' : List Expr}, s.Agrees args args' →
      s.Agrees ({ args } : Arguments) { args := args' } := fun h =>
    congrArg (Arguments.mk · false false []) h
  unfold arguments
  split
  case h_1 | h_2 =>
    exact replays_unitArgument.bind fun _ _ hunit => (replays_expectSymbol ",").bind fun _ _ _ =>
      hexprs.bind fun _ _ hrest => replays_pure (plain (hunit.cons hrest)) (by omega)
  case h_3 =>
    exact replays_unitArgument.bind fun _ _ hunit => (replays_expectWord "FROM").bind fun _ _ _ =>
      hg.expr.bind fun _ _ hoperand =>
        replays_pure (plain (hunit.cons (hoperand.cons agree_nil))) (by omega)
  case h_4 =>
    exact hg.operand.bind fun _ _ hpart => (replays_expectWord "IN").bind fun _ _ _ =>
      hg.expr.bind fun _ _ hwhole =>
        replays_pure (plain (hpart.cons (hwhole.cons agree_nil))) (by omega)
  case h_5 | h_6 =>
    have hlength := rounds_afterAccepted (announces_acceptWord "FOR" rfl) hg.expr
    have hmore := rounds_afterAccepted (announces_acceptSymbol ",") hg.expr
    refine hg.expr.bind fun _ _ hwhole => (announces_acceptWord "FROM" rfl).ite ?_ ?_
    · exact hg.expr.bind fun _ _ hstart => hlength.replays.bind fun _ _ hlength =>
        replays_pure (plain (hwhole.cons (hstart.cons hlength.toList))) (by omega)
    · exact (replays_collect hmore).bind fun _ _ hrest =>
        replays_pure (plain (hwhole.cons hrest)) (by omega)
  case h_7 => exact replays_plainArguments hg

section

variable (hg : Repeats s (lo + 1) g h) {start start' : Nat}

include hg

theorem replays_call : Replays s 2 0 lo (call g start) (call h start') := by
  have hslack := s.slack_le
  refine replays_identifier.bind fun name name' hname => ?_
  rw [s.fits.lower hname]
  refine (replays_expectSymbol "(").bind fun _ _ _ => (announces_acceptSymbol ")").ite ?_ ?_
  · exact replays_finish (by rfl) (by omega)
  · exact (replays_arguments hg _).bind fun _ _ hagree => (replays_expectSymbol ")").bind
      fun _ _ _ => replays_finish (agree_call _ hagree) (by omega)

variable {c d : Cursor} {t : Token} (hcur : c.current = some t)

include hcur

theorem replaysAt_plainWord (word : String) {isCall isCall' : Bool}
    (hcall : Foreseen s 2 1 c d (isCall = true) (isCall' = true)) :
    ReplaysAt s 1 0 lo c d (plainWord g word start isCall) (plainWord h word start' isCall') := by
  refine .ite hcall (by omega) (fun _ => replays_call hg c d) fun _ => .iteSame Iff.rfl ?_ <|
    .iteSame Iff.rfl (replays_failHere (by simp) c d) ((replays_column c d).weaken (by omega))
  exact (replaysAt_advance hcur).bind fun _ _ _ => replays_finish (by rfl) (by omega)

theorem replaysAt_word {u : Token} (htu : s.Matches t u) :
    ReplaysAt s 1 0 lo c d (word g t) (word h u) := by
  have hslack := s.slack_le
  have hcall := foreseen_peek (s := s) (c := c) (d := d) (blind_isSymbol "(") 1
  have hstring : Foreseen s 2 1 c d ((c.peek 1).any (·.kind == .string) = true)
      ((d.peek 1).any (·.kind == .string) = true) :=
    foreseen_peek ⟨fun t u htu => by rw [htu.kind], fun u hu => by rw [u.kind_of_isWord hu]; rfl⟩ 1
  refine ReplaysAt.get ?_
  dsimp only
  rw [s.fits.capitals htu.name]
  generalize Text.capitals t.text = w
  generalize (c.peek 1).any (·.isSymbol "(") = isCall at hcall ⊢
  generalize (d.peek 1).any (·.isSymbol "(") = isCall' at hcall ⊢
  have hplain : ∀ word, ReplaysAt s 1 0 lo c d (plainWord g word t.start isCall)
      (plainWord h word u.start isCall') := fun word => replaysAt_plainWord hg hcur word hcall
  have hadvance := replaysAt_advance (s := s) (d := d) hcur
  split
  case h_1 | h_2 | h_3 => exact hadvance.bind fun _ _ _ => replays_finish (by rfl) (by omega)
  case h_4 => exact replays_choice hg c d
  case h_5 => exact .ite hcall (by omega) (fun _ => replaysAt_castCall hg hcur) fun _ => hplain _
  case h_6 => exact .ite hcall (by omega) (fun _ => replaysAt_convertCall hg hcur) fun _ => hplain _
  case h_7 =>
    refine .ite hcall (by omega) (fun _ => ?_) fun _ => hplain _
    exact hadvance.bind fun _ _ _ => (replays_expectSymbol "(").bind fun _ _ _ =>
      hg.query.bind fun _ _ hquery => (replays_expectSymbol ")").bind fun _ _ _ =>
        replays_finish (congrArg ExprForm.existence hquery) (by omega)
  case h_8 =>
    refine hadvance.bind fun _ _ _ => hg.operand.bind fun _ _ hoperand =>
      replays_identifier.bind fun unit unit' hunit => ?_
    rw [s.fits.capitals hunit]
    exact replays_finish (congrArg (ExprForm.interval · _) hoperand) (by omega)
  case h_9 | h_10 | h_11 =>
    refine .ite hstring (by omega) (fun _ => ?_) fun _ => hplain _
    exact hadvance.bind fun _ _ _ => hg.primary.bind fun _ _ hoperand =>
      replays_finish (congrArg (ExprForm.cast · _) hoperand) (by omega)
  case h_12 => exact hplain _

theorem replaysAt_parenthesized :
    ReplaysAt s 1 0 lo c d (parenthesized g start) (parenthesized h start') := by
  have hslack := s.slack_le
  refine (replaysAt_advance hcur).bind fun _ _ _ => replays_get fun c d =>
    .ite (foreseen_isWord "SELECT" rfl) (by omega) (fun _ => ?_) fun _ => ?_
  · exact (hg.query c d).bind fun _ _ hquery => (replays_expectSymbol ")").bind fun _ _ _ =>
      replays_finish (congrArg ExprForm.subquery hquery) (by omega)
  · exact (hg.expr c d).bind fun _ _ hinner => (replays_expectSymbol ")").bind fun _ _ _ =>
      replays_pure hinner (by omega)

end

theorem replays_primaryRule (hg : Repeats s (lo + 1) g h) :
    Replays s 1 0 lo (primaryRule g) (primaryRule h) := by
  refine replays_get fun c d => ?_
  generalize hx : c.current = x
  generalize hy : d.current = y
  apply ReplaysAt.current hx hy (Nat.le_refl 1)
  · exact replays_failHere (by simp) c d
  · intro t u htu hcur
    have hadvance := replaysAt_advance (s := s) (d := d) hcur
    dsimp only
    rw [htu.kind]
    cases hkind : t.kind with
    | number =>
      rw [htu.text (by rw [hkind]; decide)]
      cases hread : Literal.ofNumber? t.text with
      | some literal => exact hadvance.bind fun _ _ _ => replays_finish (by rfl) (by omega)
      | none =>
        exact .failed rfl ⟨c.next, _, _, rfl, c.next_text, c.next_tokens, by decide, fun _ =>
          ⟨t, Array.mem_of_getElem? hcur, hkind, hread⟩⟩ fun _ _ => ⟨_, _, rfl, rfl⟩
    | string =>
      rw [htu.text (by rw [hkind]; decide)]
      exact hadvance.bind fun _ _ _ => replays_finish (by rfl) (by omega)
    | placeholder =>
      exact hadvance.bind fun _ _ _ => replays_freshPlaceholder.bind fun _ _ hordinal =>
        replays_finish (congrArg ExprForm.placeholder hordinal) (by omega)
    | symbol =>
      rw [htu.text (by rw [hkind]; decide)]
      exact .iteSame Iff.rfl (replaysAt_parenthesized hg hcur) (replays_failHere (by simp) c d)
    | quotedName => exact (replays_column c d).weaken (by omega)
    | word => exact replaysAt_word hg hcur htu

end

end Grammar

end SqlSignature
