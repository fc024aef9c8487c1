import SqlSignature.Proofs.Lexing
import SqlSignature.Proofs.NodesBuilt
/-!
# SqlSignature.Proofs.GrammarBuilt

Every rule of the grammar builds the nodes of its result and reads its result from the tokens it
passes, if the rules for what lies inside do. By induction on the nesting this holds of the grammar
itself, hence of statements: `Statement.parse_built`.
-/

open List

namespace SqlSignature

namespace Parser

open Cursor

/-! ### Lists -/

variable {α : Type} {p : Parser α} {parts : α → List Expr}

theorem yields_afterAccepted {announced : Parser Bool} (ha : Passes announced)
    (hp : Yields p parts) :
    Yields (afterAccepted announced p) fun o => o.toList.flatMap parts :=
  yields_of fun _ => ha.bind fun _ =>
    .ite (fun _ => hp.bind fun _ => .yield (by simp)) fun _ => .yield (by simp)

theorem yields_collect {p : Parser (Option α)} (hp : Yields p fun o => o.toList.flatMap parts) :
    Yields (collect p) fun l => l.flatMap parts := by
  have bounded : ∀ n, Yields (collectUpTo p n) fun l => l.flatMap parts := by
    intro n
    induction n with
    | zero => exact yields_of fun _ => .failHere _
    | succ n ih =>
      refine yields_of fun c => hp.bind fun first => ?_
      cases first with
      | some first => exact ih.bind fun _ => .yield (by simp)
      | none => exact .yield (by simp)
  exact yields_of fun c => .getThen fun d hd =>
    (bounded (d.tokens.size + 1)).step.imp (fun _ he => he ▸ hd) fun _ _ h => by simpa using h

theorem yields_commaSeparated (hp : Yields p parts) :
    Yields (commaSeparated p) fun l => l.flatMap parts :=
  yields_of fun _ => hp.bind fun _ =>
    (yields_collect (yields_afterAccepted (passes_acceptSymbol (by decide)) hp)).bind fun _ =>
      .yield (by simp)

end Parser

namespace Grammar

open SqlSignature.Cursor SqlSignature.Parser

/-- The parsers of a grammar build the nodes of what they read. -/
structure Builds (g : Grammar) : Prop where
  tier : ∀ t, Reads (g.tier t)
  primary : Reads g.primary
  spec : Yields g.spec QuerySpec.nodes
  query : Yields g.query Query.nodes

variable {g : Grammar} {c d c' : Cursor} {start : Nat} {tier : Tier} {token : Token}
  {left operand : Expr}

theorem Builds.expr (hg : g.Builds) : Reads g.expr := hg.tier _

/-! ### Operators -/

theorem symbols_ne_point (tier : Tier) : ∀ entry ∈ tier.symbols, entry.1 ≠ "." := by
  cases tier <;> decide

theorem passable_of_operator {op : BinaryOp} (h : tier.operator? token = some op) :
    token.Passable := by
  obtain ⟨⟨w, o⟩, hfind, _⟩ := Option.map_eq_some_iff.1 h
  rcases Option.or_eq_some_iff.1 hfind with hword | ⟨_, hsymbol⟩
  · have hw : token.isWord w = true := by simpa using find?_some hword
    exact token.passable_of_isWord hw
  · have hs : token.isSymbol w = true := by simpa using find?_some hsymbol
    exact token.passable_of_isSymbol hs (symbols_ne_point tier _ (mem_of_find?_eq_some hsymbol))

theorem not_group_of_kind (hkind : token.kind ≠ .symbol) : token.isSymbol "(" = false := by
  simp [Token.isSymbol, hkind]

theorem groupAt_of_current (hcur : c.current = some token)
    (hgroup : token.isSymbol "(" = false) : c.groupAt c.position = false := by
  have hat : c.tokens[c.position]? = some token := hcur
  simp [groupAt, hat, hgroup]

/-- Passing the first token of an expression. -/
theorem advance_begins (hc : c.Sound) (hcur : c.current = some token)
    (hpass : token.Passable) (hgroup : token.isSymbol "(" = false) :
    Ensures (· = c) advance fun _ => Begun c (c.tokenStart c.position) [] :=
  (advance_consumes hcur hpass).post fun _ _ => .ofPassed hc (groupAt_of_current hcur hgroup)

/-- What an expression that was read from `c` up to `d` is extended to by one more operator: an
operation whose right operand is of the next tier, or a node that reaches up to the last token. -/
inductive Grows (g : Grammar) (tier : Tier) (c d : Cursor) (left : Expr) : Expr → Cursor → Prop
  | ended {e : Expr} {c' : Cursor} (h : Ended c left.span.start left.nodes e c') :
      Grows g tier c d left e c'
  | combined {op : BinaryOp} {right : Expr} {c₁ c₂ : Cursor} (passed : Passed d c₁)
      (operator : op.isConnective = true → c₁ = d.next ∧ d.current.bind tier.operator? = some op)
      (right_run : g.tier tier.next c₁ = .ok right c₂) :
      Grows g tier c d left (.node c₂.nodes (left.span.join right.span) (.binary op left right))
        { c₂ with nodes := c₂.nodes + 1 }

/-- What one attempt to extend an expression gives. -/
def Grown (g : Grammar) (tier : Tier) (c d : Cursor) (left : Expr) : Option Expr → Cursor → Prop
  | some e, c' => Grows g tier c d left e c'
  | none, c' => c' = d

/-- Reading the right operand of an operation whose left operand was read. -/
theorem reads_combined (hg : g.Builds) {op : BinaryOp} {right test : Expr} {c₁ c₂ : Cursor}
    (hleft : Read c left d) (hpassed : Passed d c₁) (hright : g.tier tier c₁ = .ok right c₂)
    (hrun : combine op left right c₂ = .ok test c') :
    Read c test c' ∧ test.span.start = left.span.start :=
  have hread := hleft.pass hpassed
  reads_combine ⟨c₁, hread, hg.tier _ hread.built.sound_right hright⟩ hrun

theorem Grown.read (hg : g.Builds) {longer : Option Expr} (hleft : Read c left d)
    (h : Grown g tier c d left longer c') : Read c (longer.getD left) c' := by
  cases longer with
  | none => exact h.symm ▸ hleft
  | some e =>
    cases h with
    | ended h => exact h.toRead
    | combined passed _ right_run => exact (reads_combined hg hleft passed right_run rfl).1

theorem run_operation (tier : Tier) (left : Expr) (c : Cursor) : operation? g tier left c =
    (match c.current.bind tier.operator? with
      | some op => do
        advance
        let right ← g.tier tier.next
        return some (← combine op left right)
      | none => return none : Parser (Option Expr)) c := rfl

theorem operation?_eq_none (h : operation? g tier left c = .ok none c') :
    c' = c ∧ c.current.bind tier.operator? = none := by
  rw [run_operation] at h
  cases hop : c.current.bind tier.operator? with
  | some op =>
    simp only [hop] at h
    obtain ⟨_, _, _, h⟩ := bind_eq_ok.1 h
    obtain ⟨_, _, _, h⟩ := bind_eq_ok.1 h
    obtain ⟨_, _, _, h⟩ := bind_eq_ok.1 h
    cases h
  | none =>
    simp only [hop] at h
    cases h
    exact ⟨rfl, rfl⟩

theorem operation?_eq_some {e : Expr} (h : operation? g tier left c = .ok (some e) c') :
    ∃ op right c₂, c.current.bind tier.operator? = some op ∧
      g.tier tier.next c.next = .ok right c₂ ∧
      e = .node c₂.nodes (left.span.join right.span) (.binary op left right) ∧
      c' = { c₂ with nodes := c₂.nodes + 1 } := by
  rw [run_operation] at h
  cases hop : c.current.bind tier.operator? with
  | some op =>
    simp only [hop] at h
    obtain ⟨_, _, hadvance, h⟩ := bind_eq_ok.1 h
    cases hadvance
    obtain ⟨right, c₂, hright, h⟩ := bind_eq_ok.1 h
    obtain ⟨_, _, hcombine, h⟩ := bind_eq_ok.1 h
    cases hcombine
    cases h
    exact ⟨op, right, c₂, rfl, hright, rfl, rfl⟩
  | none =>
    simp only [hop] at h
    cases h

theorem operation?_of_operator {op : BinaryOp} {right : Expr} {c₂ : Cursor}
    (hop : c.current.bind tier.operator? = some op)
    (hright : g.tier tier.next c.next = .ok right c₂) :
    operation? g tier left c =
      .ok (some (.node c₂.nodes (left.span.join right.span) (.binary op left right)))
        { c₂ with nodes := c₂.nodes + 1 } := by
  rw [run_operation]
  simp only [hop]
  exact bind_eq_ok.2 ⟨(), c.next, rfl, bind_eq_ok.2 ⟨right, c₂, hright, rfl⟩⟩

theorem operation?_of_none (hop : c.current.bind tier.operator? = none) :
    operation? g tier left c = .ok none c := by
  rw [run_operation]
  simp only [hop]
  rfl

theorem grown_operation (tier : Tier) (left : Expr) (d : Cursor) :
    Ensures (· = d) (operation? g tier left) (Grown g tier c d left) := by
  rintro d longer c' rfl hrun
  cases longer with
  | some e =>
    obtain ⟨op, right, c₂, hop, hright, rfl, rfl⟩ := operation?_eq_some hrun
    obtain ⟨t, hcur, ht⟩ := Option.bind_eq_some_iff.1 hop
    exact .combined (.next hcur (passable_of_operator ht)) (fun _ => ⟨rfl, hop⟩) hright
  | none => exact (operation?_eq_none hrun).1

theorem ended_truthTest (operand : Expr) :
    Ensures (Begun c start operand.nodes) (truthTest start operand)
      (Ended c start operand.nodes) := by
  have hfinish {form : ExprForm} (hplain : form.isPlain = true)
      (hform : form.nodes = operand.nodes) :
      Ensures (Begun c start operand.nodes) (finish start form) (Ended c start operand.nodes) :=
    ended_finish hplain (hform ▸ .refl _) (hform ▸ List.Subset.refl _)
  exact (passes_acceptWord _).begun.bind fun _ => (passes_acceptAnyWord _).begun.bind fun _ =>
    .ite (fun _ => hfinish rfl rfl) fun _ => (passes_acceptWord _).begun.bind fun _ =>
      .ite (fun _ => hfinish rfl rfl) fun _ => (passes_acceptWord _).begun.bind fun _ =>
        .ite (fun _ => hfinish rfl rfl) fun _ => .failHere _

theorem ended_membership (hg : g.Builds) (operand : Expr) (negated : Bool) :
    Ensures (Begun c start operand.nodes) (membership g start operand negated)
      (Ended c start operand.nodes) := by
  refine (passes_expectSymbol (by decide)).begun.bind fun _ => .getThen fun d hd => ?_
  refine .of (P := Begun c start operand.nodes) ?_ fun _ he => he ▸ hd
  refine .ite (fun _ => ?_) fun _ => ?_
  · exact hg.query.begun.bind fun _ => (passes_expectSymbol (by decide)).begun.bind fun _ =>
      ended_finish rfl (by simp [ExprForm.nodes]) (subset_append_left _ _)
  · exact (yields_commaSeparated hg.expr.yields).begun.bind fun _ =>
      (passes_expectSymbol (by decide)).begun.bind fun _ =>
        ended_finish rfl (by simp [ExprForm.nodes]) (subset_append_left _ _)

/-- What a predicate that starts with one of the words gives, perhaps behind `NOT`. Where none of
the words stands, nothing is passed. -/
def WordGrown (g : Grammar) (c d₀ : Cursor) (operand : Expr) (d : Cursor) :
    Option Expr → Cursor → Prop
  | some e, c' => Grows g .predicate c d₀ operand e c'
  | none, c' => c' = d ∧
      d.current.any (fun t => ["IN", "BETWEEN", "LIKE", "REGEXP"].any t.isWord) = false

theorem grown_worded (hg : g.Builds) (negated : Bool) {d₀ : Cursor} (hleft : Read c operand d₀)
    (hp : Passed d₀ d) :
    Ensures (· = d) (worded g operand.span.start operand negated)
      (WordGrown g c d₀ operand d) := by
  rintro d longer c' rfl hrun
  have hread := hleft.pass hp
  -- what follows one of the words ends a node
  have behind : ∀ {p : Parser (Option Expr)} {word : String}, d.current.any (·.isWord word) = true →
      p d.next = .ok longer c' → Ensures (Begun c operand.span.start operand.nodes) p
        (WordGrown g c d₀ operand d) → WordGrown g c d₀ operand d longer c' := by
    intro p word hany hrun hp
    obtain ⟨t, hcur, hword⟩ := (Option.any_eq_true _ _).1 hany
    exact hp (.ofRead (hread.pass (.next hcur (t.passable_of_isWord hword)))) hrun
  unfold worded at hrun
  rw [run_iteAccepts (accepts_word "IN")] at hrun
  split at hrun
  case isTrue hin =>
    exact behind hin hrun ((ended_membership hg operand negated).bind fun _ =>
      .pure fun _ h => .ended h)
  case isFalse hin =>
  rw [run_iteAccepts (accepts_word "BETWEEN")] at hrun
  split at hrun
  case isTrue hbetween =>
    exact behind hbetween hrun ((hg.tier _).yields.begun.bind fun _ =>
      (consumes_expectWord _).passes.begun.bind fun _ => (hg.tier _).yields.begun.bind fun _ =>
        (ended_finish rfl (by simp [ExprForm.nodes]) (by simp [ExprForm.nodes])).bind fun _ =>
          .pure fun _ h => .ended h)
  case isFalse hbetween =>
  rw [run_iteAccepts (accepts_word "LIKE")] at hrun
  split at hrun
  case isTrue hlike =>
    exact behind hlike hrun ((hg.tier _).yields.begun.bind fun _ =>
      (yields_afterAccepted (passes_acceptWord _) hg.primary.yields).begun.bind fun _ =>
        (ended_finish rfl (by simp [ExprForm.nodes]) (by simp [ExprForm.nodes])).bind fun _ =>
          .pure fun _ h => .ended h)
  case isFalse hlike =>
  rw [run_iteAccepts (accepts_anyWord ["REGEXP", "RLIKE"])] at hrun
  split at hrun
  case isTrue hregexp =>
    obtain ⟨t, hcur, hany⟩ := (Option.any_eq_true _ _).1 hregexp
    obtain ⟨word, -, hword⟩ := any_eq_true.1 hany
    have hpassed : Passed d d.next := .next hcur (t.passable_of_isWord hword)
    obtain ⟨right, c₂, hright, hrun⟩ := bind_eq_ok.1 hrun
    obtain ⟨test, c₃, hcombine, hrun⟩ := bind_eq_ok.1 hrun
    obtain ⟨htest, hstart⟩ := reads_combined hg hread hpassed hright hcombine
    cases hcombine
    cases negated with
    | true =>
      obtain ⟨e, c₄, hfinish, hrun⟩ := bind_eq_ok.1 hrun
      cases hrun
      have hplain : ∀ e, (ExprForm.unary .not e).isPlain = true := fun _ => rfl
      refine .ended (ended_finish (hplain _) (.refl _) (fun n hn => ?_)
        (hstart ▸ .ofRead htest) hfinish)
      exact mem_cons_of_mem _ (mem_append_left _ hn)
    | false =>
      cases hrun
      exact .combined (hp.trans hpassed) nofun hright
  case isFalse hregexp =>
    cases hrun
    refine ⟨rfl, ?_⟩
    cases hcur : d.current with
    | none => rfl
    | some t => simp_all

/-- After `NOT` one of the words stands. -/
theorem grown_wordPredicate (hg : g.Builds) (hleft : Read c operand d) :
    Ensures (· = d) (wordPredicate? g operand) (Grown g .predicate c d operand) := by
  rintro d longer c' rfl hrun
  rw [wordPredicate?_eq] at hrun
  replace hrun : (if negatedPredicateAt d = true then
      (do advance; worded g operand.span.start operand (negatedPredicateAt d) : Parser _)
    else worded g operand.span.start operand (negatedPredicateAt d)) d = .ok longer c' := hrun
  split at hrun
  case isTrue hnegated =>
    obtain ⟨t, u, hcur, hnot, hnext, hword⟩ := word_of_negatedPredicateAt hnegated
    have hgrown := grown_worded hg _ hleft (.next hcur (t.passable_of_isWord hnot)) rfl hrun
    cases longer with
    | some e => exact hgrown
    | none =>
      rw [WordGrown, hnext, Option.any_some, hword] at hgrown
      cases hgrown.2
  case isFalse =>
    have hgrown := grown_worded hg _ hleft (.refl d) rfl hrun
    cases longer with
    | some e => exact hgrown
    | none => exact hgrown.1

theorem grown_predicate (hg : g.Builds) (hleft : Read c operand d) :
    Ensures (· = d) (predicate? g operand) (Grown g .predicate c d operand) := by
  rintro d longer c' rfl hrun
  unfold predicate? at hrun
  rw [run_iteAccepts (accepts_word "IS")] at hrun
  split at hrun
  case isTrue his =>
    obtain ⟨t, hcur, hword⟩ := (Option.any_eq_true _ _).1 his
    obtain ⟨e, _, htest, hrun⟩ := bind_eq_ok.1 hrun
    cases hrun
    exact .ended (ended_truthTest operand
      (.ofRead (hleft.pass (.next hcur (t.passable_of_isWord hword)))) htest)
  case isFalse =>
    obtain ⟨found, c₁, hword, hnext⟩ := bind_eq_ok.1 hrun
    have hgrown := grown_wordPredicate hg hleft rfl hword
    cases found with
    | some e =>
      cases hnext
      exact hgrown
    | none =>
      obtain rfl : c₁ = d := hgrown
      exact grown_operation .predicate operand c₁ rfl hnext

/-- A sign can be passed, and opens no group. -/
theorem passable_of_signOf {op : UnaryOp} (h : signOf? token = some op) :
    token.Passable ∧ token.isSymbol "(" = false := by
  have : ∃ symbol, token.isSymbol symbol = true ∧ symbol ≠ "." ∧ symbol ≠ "(" := by
    unfold signOf? at h
    grind
  obtain ⟨symbol, hsymbol, hpoint, hgroup⟩ := this
  refine ⟨token.passable_of_isSymbol hsymbol hpoint, ?_⟩
  simp only [Token.isSymbol, Bool.and_eq_true, beq_iff_eq] at hsymbol
  simp [Token.isSymbol, hsymbol.2, hgroup]

/-- An expression of the tightest tier has a sign, or is a primary expression, perhaps with a
collation. -/
theorem signed_cases (hg : g.Builds) (hc : c.Sound) {e : Expr} (h : signed g c = .ok e c') :
    Whole c e c' ∨ g.primary c = .ok e c' ∨
      ∃ d, g.primary c = .ok e d ∧ d.isWord "COLLATE" = true ∧ Passed d c' := by
  unfold signed at h
  replace h := of_get h
  cases hsign : c.current.bind signOf? with
  | some op =>
    obtain ⟨token, hcur, hop⟩ := Option.bind_eq_some_iff.1 hsign
    obtain ⟨hpass, hgroup⟩ := passable_of_signOf hop
    rw [hsign] at h
    exact .inl ((advance_begins hc hcur hpass hgroup).bind (fun _ =>
      (hg.tier _).yields.begun.bind fun _ => whole_finish rfl (by simp [ExprForm.nodes])) rfl h)
  | none =>
    rw [hsign] at h
    obtain ⟨operand, d, hoperand, h⟩ := bind_eq_ok.1 h
    rw [run_iteAccepts (accepts_word "COLLATE")] at h
    split at h
    case isTrue hcollate =>
      obtain ⟨name, d', hname, h⟩ := bind_eq_ok.1 h
      cases h
      obtain ⟨t, hcur, hword⟩ := (Option.any_eq_true _ _).1 hcollate
      exact .inr (.inr ⟨d, hoperand, hcollate, (Passed.next hcur (t.passable_of_isWord hword)).trans
        (consumes_identifier.passes d.next rfl hname)⟩)
    case isFalse =>
      cases h
      exact .inr (.inl hoperand)

theorem reads_signed (hg : g.Builds) : Reads (signed g) := by
  intro c e c' hc hrun
  rcases signed_cases hg hc hrun with hwhole | hoperand | ⟨d, hoperand, -, hpassed⟩
  · exact hwhole.toRead
  · exact hg.primary hc hoperand
  · exact (hg.primary hc hoperand).pass hpassed

theorem negation_cases (hg : g.Builds) (hc : c.Sound) {e : Expr} (h : negation g c = .ok e c') :
    Whole c e c' ∨ g.tier .predicate c = .ok e c' := by
  unfold negation at h
  replace h := of_get h
  split at h
  case isTrue hnot =>
    obtain ⟨token, hcur, hword⟩ := (Option.any_eq_true _ _).1 hnot
    exact .inl ((advance_begins hc hcur (token.passable_of_isWord hword)
      (not_group_of_kind (by rw [token.kind_of_isWord hword]; nofun))).bind (fun _ =>
        (hg.tier _).yields.begun.bind fun _ => whole_finish rfl (by simp [ExprForm.nodes])) rfl h)
  case isFalse => exact .inr h

theorem reads_negation (hg : g.Builds) : Reads (negation g) := by
  intro c e c' hc hrun
  rcases negation_cases hg hc hrun with hwhole | hoperand
  · exact hwhole.toRead
  · exact hg.tier _ hc hoperand

/-- A step that extends expressions of the next tier. -/
def Extends (g : Grammar) (tier : Tier) (step : Expr → Parser (Option Expr)) : Prop :=
  ∀ ⦃c e d⦄, Read c e d → Ensures (· = d) (step e) (Grown g tier c d e)

theorem reads_extend (hg : g.Builds) {step : Expr → Parser (Option Expr)}
    (hstep : Extends g tier step) : Reads (do extend step (← g.tier tier.next)) :=
  reads_of fun c hc => ((hg.tier _).at_start hc).bind fun e =>
    .extend (P := Read c) (fun _ _ _ _ hread hrun => (hstep hread rfl hrun).read hg hread) e

theorem reads_tierRule (hg : g.Builds) (tier : Tier) : Reads (tierRule g tier) := by
  cases tier
  case negation => exact reads_negation hg
  case unary => exact reads_signed hg
  case predicate => exact @reads_extend g .predicate hg _ fun _ _ _ => grown_predicate hg
  all_goals exact reads_extend hg fun _ e d _ => grown_operation _ e d

/-! ### Primary expressions -/

theorem yields_branch (hg : g.Builds) : Yields (branch g) Branch.nodes :=
  yields_of fun _ => hg.expr.yields.bind fun _ =>
    (consumes_expectWord _).passes.bind fun _ => hg.expr.yields.bind fun _ =>
      .yield (by simp [Branch.nodes])

theorem whole_choice (hg : g.Builds) (hc : c.Sound) (hgroup : c.groupAt c.position = false) :
    Ensures (· = c) (choice g (c.tokenStart c.position)) (Whole c) := by
  refine ((consumes_expectWord _).begin hc hgroup).bind fun _ => .getThen fun d hd => ?_
  have rest : ∀ operand : Option Expr,
      Ensures (Begun c (c.tokenStart c.position) (operand.toList.flatMap Expr.nodes))
        (choiceRest g (c.tokenStart c.position) operand) (Whole c) := by
    intro operand
    refine (yields_collect (yields_afterAccepted (passes_acceptWord _)
      (yields_branch hg))).begun.bind fun branches => ?_
    refine .ite (fun _ => .failHereThen _) fun _ => ?_
    exact (yields_afterAccepted (passes_acceptWord _) hg.expr.yields).begun.bind fun _ =>
      (consumes_expectWord _).passes.begun.bind fun _ => whole_finish rfl (by simp [ExprForm.nodes])
  refine .of (P := Begun c (c.tokenStart c.position) []) ?_ fun _ he => he ▸ hd
  refine .ite (fun _ => ?_) fun _ => ?_
  · exact rest none
  · refine Ensures.bind (Ensures.map (hg.expr.yields.begun.post fun e _ h => ?_)) rest
    simpa using h

/-- The operand of a cast was read, and since then the cursor has moved. -/
def CastOperand (c : Cursor) (operand : Expr) (d : Cursor) : Prop :=
  ∃ c₁, Read c operand c₁ ∧ Begun c (c.tokenStart c.position) operand.nodes c₁ ∧ Moved c₁ d

theorem reads_castOperand {p : Parser Expr} (hp : Reads p) (hc : c.Sound)
    (hgroup : c.groupAt c.position = false) :
    Ensures (fun d => Passed c d ∧ c.position < d.position) p
      fun operand d => CastOperand c operand d ∧ d.afterPoint = false := by
  intro d operand d' hd hrun
  have hread := hp (Built.ofPassed hc hd.1).sound_right hrun
  have hbegun : Begun c (c.tokenStart c.position) operand.nodes d' := by
    simpa using (Begun.ofPassed hc hgroup hd).trans hread.built
  exact ⟨⟨d', hread.before hc hd.1, hbegun, .refl d'⟩, hbegun.built.closed hbegun.position_lt⟩

theorem moves_castOperand {α : Type} {p : Parser α}
    (hp : ∀ c, Ensures (Moved c) p fun _ => Moved c) :
    Ensures (CastOperand c operand) p fun _ => CastOperand c operand :=
  fun _ _ _ ⟨c₁, hread, hbegun, hmoved⟩ hrun => ⟨c₁, hread, hbegun, hp c₁ hmoved hrun⟩

/-- The closing parenthesis of a cast. -/
theorem closes_castOperand :
    Ensures (CastOperand c operand) (expectSymbol ")")
      fun _ d => CastOperand c operand d ∧ d.afterPoint = false := by
  rintro d _ d' ⟨c₁, hread, hbegun, hmoved⟩ hrun
  obtain ⟨hpassed, hlt⟩ := consumes_expectSymbol (by decide) d rfl hrun
  exact ⟨⟨c₁, hread, hbegun, hmoved.trans hpassed.toMoved⟩, hpassed.closed hlt⟩

section Word

variable (hg : g.Builds) (hc : c.Sound) (hcur : c.current = some token)
  (hpass : token.Passable) (hgroup : token.isSymbol "(" = false)
include hg hc hcur hpass hgroup

theorem whole_castCall : Ensures (· = c) (castCall g (c.tokenStart c.position)) (Whole c) :=
  (advance_consumes hcur hpass).bind fun _ =>
    ((passes_expectSymbol (by decide)).onward c).bind fun _ =>
      (reads_castOperand hg.expr hc (groupAt_of_current hcur hgroup)).bind fun _ =>
        ((moves_castOperand (consumes_expectWord "AS").passes.moved).of fun _ h => h.1).bind
          fun _ => (moves_castOperand moved_typeName).bind fun _ =>
            closes_castOperand.bind fun _ => whole_finishCast

theorem whole_convertCall :
    Ensures (· = c) (convertCall g (c.tokenStart c.position)) (Whole c) := by
  refine (advance_consumes hcur hpass).bind fun _ =>
    ((passes_expectSymbol (by decide)).onward c).bind fun _ =>
      (reads_castOperand hg.expr hc (groupAt_of_current hcur hgroup)).bind fun operand =>
        ((moves_castOperand (passes_acceptWord "USING").moved).of fun _ h => h.1).bind fun _ => ?_
  have closing : ∀ target, Ensures (CastOperand c operand) (do
      expectSymbol ")"
      finish (c.tokenStart c.position) (.cast operand target)) (Whole c) := fun target =>
    closes_castOperand.bind fun _ => whole_finishCast
  refine .ite (fun _ => ?_) fun _ => ?_
  · exact (moves_castOperand consumes_identifier.passes.moved).bind fun _ => closing _
  · exact (moves_castOperand (passes_expectSymbol (by decide)).moved).bind fun _ =>
      (moves_castOperand moved_typeName).bind closing

end Word

/-- A name opens no group. -/
theorem identifier_begins (hc : c.Sound) :
    Ensures (· = c) identifier fun _ => Begun c (c.tokenStart c.position) [] := by
  intro d name d' hd hrun
  subst hd
  obtain ⟨token, hcur, hname⟩ := (Option.any_eq_true _ _).1 (identifier_next d rfl hrun).2
  refine .ofPassed hc (groupAt_of_current hcur (not_group_of_kind fun hkind => ?_))
    (consumes_identifier d rfl hrun)
  simp [Token.isIdentifier, hkind] at hname

theorem reads_unitArgument : Reads unitArgument := by
  refine reads_of fun c hc => .getThen ?_
  rintro d rfl
  refine (identifier_begins hc).bind fun _ => .post (Q := Whole d) ?_ fun _ _ h => h.toRead
  exact whole_finish rfl (.refl _)

/-- The nodes of the arguments of a call. -/
def Arguments.nodes (a : Arguments) : List Expr :=
  a.args.flatMap Expr.nodes ++ a.extras.flatMap Expr.nodes

theorem yields_plainArguments (hg : g.Builds) : Yields (plainArguments g) Arguments.nodes := by
  refine yields_of fun c => (passes_acceptSymbol (by decide)).bind fun _ =>
    .ite (fun _ => .yield (.refl _)) fun _ => ?_
  have keys : Yields (argumentKeys g) fun keys => keys.flatMap Expr.nodes :=
    yields_of fun _ => (yields_commaSeparated hg.expr.yields).bind fun _ =>
      (passes_acceptAnyWord _).bind fun _ => .yield (.refl _)
  refine (passes_acceptWord _).bind fun _ =>
    (yields_commaSeparated hg.expr.yields).bind fun args =>
      (yields_afterAccepted (passes_acceptPhrase _) keys).bind fun keys =>
        (yields_afterAccepted (passes_acceptWord _) hg.primary.yields).bind fun separator => ?_
  refine .yield (.of_eq ?_)
  cases keys <;> cases separator <;> simp [Arguments.nodes]

theorem yields_arguments (hg : g.Builds) (name : String) :
    Yields (arguments g name) Arguments.nodes := by
  unfold arguments
  split
  case h_1 | h_2 =>
    exact yields_of fun _ => reads_unitArgument.yields.bind fun _ =>
      (passes_expectSymbol (by decide)).bind fun _ =>
        (yields_commaSeparated hg.expr.yields).bind fun _ => .yield (by simp [Arguments.nodes])
  case h_3 =>
    exact yields_of fun _ => reads_unitArgument.yields.bind fun _ =>
      (consumes_expectWord _).passes.bind fun _ => hg.expr.yields.bind fun _ =>
        .yield (by simp [Arguments.nodes])
  case h_4 =>
    exact yields_of fun _ => (hg.tier _).yields.bind fun _ =>
      (consumes_expectWord _).passes.bind fun _ => hg.expr.yields.bind fun _ =>
        .yield (by simp [Arguments.nodes])
  case h_5 | h_6 =>
    refine yields_of fun _ => hg.expr.yields.bind fun _ =>
      (passes_acceptWord _).bind fun _ => .ite (fun _ => ?_) fun _ => ?_
    · exact hg.expr.yields.bind fun _ =>
        (yields_afterAccepted (passes_acceptWord _) hg.expr.yields).bind fun _ =>
          .yield (by simp [Arguments.nodes])
    · exact (yields_collect (yields_afterAccepted (passes_acceptSymbol (by decide))
        hg.expr.yields)).bind fun _ => .yield (by simp [Arguments.nodes])
  case h_7 => exact yields_plainArguments hg

theorem whole_call (hg : g.Builds) (hc : c.Sound) :
    Ensures (· = c) (call g (c.tokenStart c.position)) (Whole c) := by
  refine (identifier_begins hc).bind fun name =>
    (passes_expectSymbol (by decide)).begun.bind fun _ =>
      (passes_acceptSymbol (by decide)).begun.bind fun _ => .ite (fun _ => ?_) fun _ => ?_
  · exact whole_finish rfl (.refl _)
  · exact (yields_arguments hg _).begun.bind fun a =>
      (passes_expectSymbol (by decide)).begun.bind fun _ =>
        whole_finish rfl (by simp [ExprForm.nodes, Arguments.nodes])

theorem whole_column (hc : c.Sound) : Ensures (· = c) column (Whole c) := by
  refine .getThen ?_
  rintro d rfl
  refine (identifier_begins hc).bind fun first => (passes_collect passes_member).begun.bind
    fun rest => ?_
  match rest with
  | [] | [_] | [_, _] => exact whole_finish rfl (.refl _)
  | _ :: _ :: _ :: _ => exact .fail _ _

/-- An expression that was read in a group, and the run that read it. -/
structure Enclosed (g : Grammar) (c : Cursor) (e : Expr) (c' : Cursor) : Prop where
  opens : c.isSymbol "(" = true
  group : c.groupAt c.position = true
  inner : ∃ c₂, g.expr c.next = .ok e c₂ ∧ c₂.isSymbol ")" = true ∧ c' = c₂.next

/-- A primary expression is a node that was read with all tokens that were passed, or stands in a
group. -/
inductive Primary (g : Grammar) (c : Cursor) (e : Expr) (c' : Cursor) : Prop
  | whole (h : Whole c e c')
  | enclosed (read : Read c e c') (h : Enclosed g c e c')

theorem Primary.read {e : Expr} {c' : Cursor} (h : Primary g c e c') : Read c e c' := by
  cases h with
  | whole h => exact h.toRead
  | enclosed read h => exact read

section Primary

variable (hg : g.Builds) (hc : c.Sound) (hcur : c.current = some token)
include hg hc hcur

/-- What a word that is neither a literal nor opens a form of its own reads. -/
theorem whole_plainWord (hkind : token.kind = .word) (word : String) (isCall : Bool) :
    Ensures (· = c) (plainWord g word (c.tokenStart c.position) isCall) (Whole c) := by
  refine .ite (fun _ => whole_call hg hc) fun _ => .ite (fun _ => ?_) fun _ =>
    .ite (fun _ => .failHere _) fun _ => whole_column hc
  have hpass := token.passable_of_kind (by rw [hkind]; nofun) (by rw [hkind]; nofun)
  exact (advance_begins hc hcur hpass (not_group_of_kind (by rw [hkind]; nofun))).bind fun _ =>
    whole_finish rfl (.refl _)

theorem whole_word (hkind : token.kind = .word) : Ensures (· = c) (word g token) (Whole c) := by
  refine .getThen ?_
  rintro d rfl
  have hpass := token.passable_of_kind (by rw [hkind]; nofun) (by rw [hkind]; nofun)
  have hgroup : token.isSymbol "(" = false := not_group_of_kind (by rw [hkind]; nofun)
  have hbegin := advance_begins hc hcur hpass hgroup
  have hplain := whole_plainWord hg hc hcur hkind
  rw [← tokenStart_of_some hcur]
  dsimp only
  split
  case h_1 | h_2 | h_3 => exact hbegin.bind fun _ => whole_finish rfl (.refl _)
  case h_4 => exact whole_choice hg hc (groupAt_of_current hcur hgroup)
  case h_5 => exact .ite (fun _ => whole_castCall hg hc hcur hpass hgroup) fun _ => hplain _ _
  case h_6 => exact .ite (fun _ => whole_convertCall hg hc hcur hpass hgroup) fun _ => hplain _ _
  case h_7 =>
    refine .ite (fun _ => ?_) fun _ => hplain _ _
    exact hbegin.bind fun _ => (passes_expectSymbol (by decide)).begun.bind fun _ =>
      hg.query.begun.bind fun _ => (passes_expectSymbol (by decide)).begun.bind fun _ =>
        whole_finish rfl (.refl _)
  case h_8 =>
    exact hbegin.bind fun _ => (hg.tier _).yields.begun.bind fun _ =>
      consumes_identifier.passes.begun.bind fun _ => whole_finish rfl (.refl _)
  case h_9 | h_10 | h_11 =>
    refine .ite (fun _ => ?_) fun _ => hplain _ _
    exact (advance_consumes hcur hpass).bind fun _ =>
      (reads_castOperand hg.primary hc (groupAt_of_current hcur hgroup)).bind fun _ =>
        whole_finishCast
  case h_12 => exact hplain _ _

theorem primary_parenthesized (hsymbol : token.isSymbol "(" = true) :
    Ensures (· = c) (parenthesized g (c.tokenStart c.position)) (Primary g c) := by
  have hpass := token.passable_of_isSymbol hsymbol (by decide)
  refine Ensures.bind (Q := fun _ d => d = c.next) ?_ fun _ => .getThen ?_
  · rintro d _ d' rfl hrun
    cases hrun
    rfl
  rintro d rfl
  have hpassed : Passed c c.next ∧ c.position < c.next.position :=
    advance_consumes hcur hpass rfl rfl
  have hat : c.tokens[c.position]? = some token := hcur
  have hnext : c.tokens[c.position + 1]?.any (·.isWord "SELECT") = c.next.isWord "SELECT" := by
    simp [isWord, current, next_position hcur]
  refine .ite (fun hselect => ?_) fun hselect => ?_
  · have hgroup : c.groupAt c.position = false := by simp [groupAt, hnext, hselect]
    refine Ensures.imp (P := Begun c (c.tokenStart c.position) []) (Q := Whole c) ?_
      (fun _ he => he ▸ .ofPassed hc hgroup hpassed) fun _ _ => .whole
    exact hg.query.begun.bind fun _ => (passes_expectSymbol (by decide)).begun.bind fun _ =>
      whole_finish rfl (.refl _)
  · rintro d e d' rfl hrun
    obtain ⟨inner, c₂, hinner, hrun⟩ := bind_eq_ok.1 hrun
    obtain ⟨_, c₃, hclose, hrun⟩ := bind_eq_ok.1 hrun
    cases hrun
    have hread := (hg.expr (Built.ofPassed hc hpassed.1).sound_right hinner).before hc hpassed.1
    refine .enclosed (hread.pass ((passes_expectSymbol (by decide)) c₂ rfl hclose)) ?_
    obtain ⟨rfl, hsymbol'⟩ := (accepts_symbol ")").expect_next _ c₂ rfl hclose
    exact ⟨by simp [isSymbol, hcur, hsymbol], by simp [groupAt, hat, hsymbol, hnext, hselect], c₂,
      hinner, hsymbol', rfl⟩

end Primary

theorem primary_primaryRule (hg : g.Builds) (hc : c.Sound) :
    Ensures (· = c) (primaryRule g) (Primary g c) := by
  refine .getThen ?_
  rintro d rfl
  cases hcur : d.current with
  | none => exact .failHere _
  | some token =>
    have hbegin : token.kind ≠ .placeholder → token.kind ≠ .symbol →
        Ensures (· = d) advance fun _ => Begun d (d.tokenStart d.position) [] :=
      fun hplaceholder hsymbol => advance_begins hc hcur
        (token.passable_of_kind hplaceholder hsymbol) (not_group_of_kind hsymbol)
    have hwhole : ∀ {p : Parser Expr}, Ensures (· = d) p (Whole d) →
        Ensures (· = d) p (Primary g d) := fun h => h.post fun _ _ => .whole
    dsimp only
    rw [← tokenStart_of_some hcur]
    split
    case h_1 hkind =>
      refine hwhole ((hbegin (by rw [hkind]; nofun) (by rw [hkind]; nofun)).bind fun _ => ?_)
      cases Literal.ofNumber? token.text with
      | some literal => exact whole_finish rfl (.refl _)
      | none => exact .fail _ _
    case h_2 hkind =>
      exact hwhole ((hbegin (by rw [hkind]; nofun) (by rw [hkind]; nofun)).bind fun _ =>
        whole_finish rfl (.refl _))
    case h_3 hkind => exact hwhole (whole_placeholder hc hcur hkind)
    case h_4 hkind =>
      exact .ite (fun htext =>
        primary_parenthesized hg hc hcur (by simp [Token.isSymbol, hkind, htext])) fun _ =>
          .failHere _
    case h_5 => exact hwhole (whole_column hc)
    case h_6 hkind => exact hwhole (whole_word hg hc hcur hkind)

/-! ### Queries -/

/-- The three tokens of `t.*`. -/
theorem passed_allOf (h : allOfTableAt c = true) : Passed c c.next.next.next := by
  simp only [allOfTableAt, Bool.and_eq_true, Option.any_eq_true] at h
  obtain ⟨⟨⟨t, hcur, ht⟩, ⟨u, hpoint, hu⟩⟩, ⟨v, hstar, hv⟩⟩ := h
  have hnext : c.next.position = c.position + 1 := next_position hcur
  have hcur' : c.next.current = some u := by
    rw [current, next_tokens, hnext]
    exact hpoint
  have hnext' : c.next.next.position = c.position + 2 := by rw [next_position hcur', hnext]
  have hcur'' : c.next.next.current = some v := by
    rw [current, next_tokens, next_tokens, hnext']
    exact hstar
  have hslipped : Slipped c c.next.next := (Slipped.next hcur (passable_of_isIdentifier ht).1).trans
    (.next hcur' (by rw [u.kind_of_isSymbol hu]; decide))
  exact .of_slipped hslipped ⟨.next hcur'' (v.passable_of_isSymbol hv (by decide)), by
    rw [next_position hcur'']; exact Nat.lt_succ_self _⟩

theorem passes_joinKind : Passes joinKind? := by
  have hchoose {p : Parser Bool} {q : Parser (Option JoinKind)} {kind : JoinKind} (hp : Passes p)
      (hq : Passes q) : Passes (do if ← p then return some kind else q) :=
    passes_of fun c => (hp.step c).bind fun _ =>
      .ite (fun _ => .pure fun _ h => h) fun _ => hq.step c
  exact hchoose (passes_acceptPhrase _) <| hchoose (passes_acceptWord _) <|
    hchoose (passes_acceptWord _) <| hchoose (passes_acceptPhrase _) <|
    hchoose (passes_acceptPhrase _) <| hchoose (passes_acceptPhrase _) <|
    hchoose (passes_acceptPhrase _) <| passes_of fun _ => .pure fun _ h => h

theorem passes_insertColumns : Passes insertColumns :=
  passes_of fun c => ((passes_acceptSymbol (by decide)).step c).bind fun _ => .ite
    (fun _ => ((passes_commaSeparated consumes_identifier.passes).step c).bind fun _ =>
      ((passes_expectSymbol (by decide)).step c).bind fun _ => .pure fun _ h => h)
    fun _ => .pure fun _ h => h

theorem flatMap_getD {α β : Type} (f : α → List β) (o : Option (List α)) :
    (o.getD []).flatMap f = o.toList.flatMap fun l => l.flatMap f := by
  cases o <;> simp

theorem advance_word {word : String} (h : c.isWord word = true) {built : List Expr} {c₀ : Cursor}
    (hc : Built c₀ built c) : Ensures (· = c) advance fun _ => Built c₀ built := by
  obtain ⟨t, hcur, ht⟩ := (Option.any_eq_true _ _).1 h
  exact (advance_consumes hcur (t.passable_of_isWord ht)).post fun _ _ hp => hc.pass hp.1

section Clauses

variable (hg : g.Builds)
include hg

theorem yields_selectItem : Yields (selectItem g) SelectItem.nodes := by
  refine yields_of fun c => .getAny fun d => ?_
  refine (passes_acceptSymbol (by decide)).bind fun _ => .ite (fun _ => ?_) fun _ => ?_
  · exact .yieldHere fun _ => .refl _
  refine .getThen fun e he => .ite (fun hall => ?_) fun _ => ?_
  · refine ((identifier_next e).post fun _ _ h => h.1).bind fun _ =>
      (advance_next _).bind fun _ => (advance_next _).bind fun _ => ?_
    exact .of (P := Built c []) (.yieldHere fun _ => .refl _)
      fun _ hd => hd ▸ he.pass (passed_allOf hall)
  · refine .of (P := Built c []) ?_ fun _ h => h ▸ he
    exact hg.expr.yields.bind fun _ => (passes_aliasName _).bind fun _ =>
      .yieldHere fun _ => .refl _

theorem yields_factor : Yields (factor g) TableFactor.nodes := by
  refine yields_of fun c => .getAny fun d => ?_
  refine (passes_acceptSymbol (by decide)).bind fun _ => .ite (fun _ => ?_) fun _ => ?_
  · refine .getAny fun _ => .ite (fun _ => ?_) fun _ => .failThen _ _
    refine hg.query.bind fun _ => (passes_expectSymbol (by decide)).bind
      fun _ => (passes_aliasName _).bind fun label => ?_
    cases label with
    | some label => exact .yieldHere fun _ => .refl _
    | none => exact .fail _ _
  · exact (passes_tableName _).bind fun _ =>
      .yieldHere fun _ => .refl _

theorem yields_joinConstraint : Yields (joinConstraint g) JoinConstraint.nodes := by
  refine yields_of fun c => (passes_acceptWord _).bind fun _ => .ite (fun _ => ?_)
    fun _ => (passes_acceptPhrase _).bind fun _ => .ite (fun _ => ?_) fun _ => ?_
  · exact hg.expr.yields.bind fun _ => .yield (.refl _)
  · exact (passes_expectSymbol (by decide)).bind fun _ =>
      (passes_commaSeparated consumes_identifier.passes).bind fun _ =>
        (passes_expectSymbol (by decide)).bind fun _ => .yield (.refl _)
  · exact .yield (.refl _)

theorem yields_join : Yields (join? g) fun o => o.toList.flatMap Join.nodes := by
  refine yields_of fun c => .getAny fun d => ?_
  refine passes_joinKind.bind fun kind => ?_
  cases kind with
  | none => exact .yield (.refl _)
  | some kind =>
    exact (yields_factor hg).bind fun _ => (yields_joinConstraint hg).bind fun _ =>
      .yieldHere fun _ => by simp [Join.nodes]

theorem yields_tableRef : Yields (tableRef g) TableRef.nodes :=
  yields_of fun c => .getAny fun _ => (yields_factor hg).bind fun _ =>
    (yields_collect (yields_join hg)).bind fun _ =>
      .yieldHere fun _ => by simp [TableRef.nodes]

theorem yields_groupKeys : Yields (groupKeys g) fun keys => keys.flatMap Expr.nodes :=
  yields_of fun _ => (yields_commaSeparated hg.expr.yields).bind fun _ =>
    (passes_acceptWord _).bind fun _ => .ite
      (fun _ => (consumes_expectWord _).passes.bind fun _ => .yield (.refl _))
      fun _ => .yield (.refl _)

theorem yields_specRule : Yields (specRule g) QuerySpec.nodes := by
  refine yields_of fun c => (passes_acceptSymbol (by decide)).bind fun _ =>
    .ite (fun _ => ?_) fun _ => ?_
  · exact hg.spec.bind fun _ => (passes_expectSymbol (by decide)).bind
      fun _ => .yield (.refl _)
  refine .getAny fun d => ?_
  refine (consumes_expectWord _).passes.bind fun _ =>
    (passes_acceptAnyWord _).bind fun _ => (passes_acceptWord _).bind fun _ =>
    (passes_acceptWord _).bind fun _ =>
    (yields_commaSeparated (yields_selectItem hg)).bind fun _ =>
    (yields_afterAccepted (passes_acceptWord _)
      (yields_commaSeparated (yields_tableRef hg))).bind fun _ =>
    (yields_afterAccepted (passes_acceptWord _) hg.expr.yields).bind fun _ =>
    (yields_afterAccepted (passes_acceptPhrase _) (yields_groupKeys hg)).bind fun _ =>
    (yields_afterAccepted (passes_acceptWord _) hg.expr.yields).bind fun _ =>
    .yieldHere fun _ => .of_eq ?_
  simp [QuerySpec.nodes, flatMap_getD]

theorem yields_unionBranch : Yields (unionBranch g) fun branch => branch.2.nodes := by
  refine yields_of fun c => (passes_acceptWord _).bind fun _ => ?_
  refine .ite (fun _ => ?_) fun _ => ?_
  · exact hg.spec.bind fun _ => .yield (.refl _)
  · exact (passes_acceptWord _).bind fun _ => hg.spec.bind fun _ => .yield (.refl _)

theorem yields_sortKey : Yields (sortKey g) SortKey.nodes :=
  yields_of fun _ => hg.expr.yields.bind fun _ => (passes_acceptWord _).bind fun _ =>
    .ite (fun _ => .yield (.refl _)) fun _ => (passes_acceptWord _).bind fun _ =>
      .yield (.refl _)

theorem yields_limit : Yields (limit g) Limit.nodes := by
  refine yields_of fun c => hg.primary.yields.bind fun first =>
    (passes_acceptSymbol (by decide)).bind fun _ => .ite (fun _ => ?_) fun _ => ?_
  · refine hg.primary.yields.bind fun count => .yield ?_
    -- the offset was read before the count
    simpa [Limit.nodes] using perm_append_comm
  · exact (yields_afterAccepted (passes_acceptWord _) hg.primary.yields).bind fun _ =>
      .yield (by simp [Limit.nodes])

theorem yields_queryRule : Yields (queryRule g) Query.nodes := by
  refine yields_of fun c => .getAny fun d => ?_
  refine hg.spec.bind fun _ =>
    (yields_collect (yields_afterAccepted (passes_acceptPhrase _)
      (yields_unionBranch hg))).bind fun _ =>
    (yields_afterAccepted (passes_acceptPhrase _)
      (yields_commaSeparated (yields_sortKey hg))).bind fun _ =>
    (yields_afterAccepted (passes_acceptWord _) (yields_limit hg)).bind fun _ =>
    .yieldHere fun _ => .of_eq ?_
  simp [Query.nodes, flatMap_getD, flatMap_map]

/-! ### Statements -/

theorem yields_assignment : Yields (assignment g) Assignment.nodes := by
  refine yields_of fun c => .getAny fun d => consumes_identifier.passes.bind fun first => ?_
  have rest : ∀ table column, Ensures (Built c []) (assignmentRest g d.position table column)
      fun a => Built c a.nodes := fun _ _ =>
    (passes_expectSymbol (by decide)).bind fun _ =>
      hg.expr.yields.bind fun _ => .yieldHere fun _ => .refl _
  refine Ensures.bind
    (Q := fun b d => if b then ∃ c₁, Built c [] c₁ ∧ Slipped c₁ d else Built c [] d)
    ?_ fun qualified => ?_
  · intro e b e' he hrun
    have := acceptPoint e (Passed.refl e) hrun
    cases b with
    | true => exact ⟨e, he, this⟩
    | false => exact he.pass this
  · cases qualified with
    | true =>
      refine Ensures.bind (Q := fun _ => Built c []) ?_ (rest (some first))
      rintro e name e' ⟨c₁, hbuilt, hslipped⟩ hrun
      exact hbuilt.pass (consumes_identifier.after_point c₁ hslipped hrun)
    | false => exact rest none first

theorem yields_row : Yields (row g) fun values => values.flatMap Expr.nodes :=
  yields_of fun _ => (passes_expectSymbol (by decide)).bind fun _ =>
    (passes_acceptSymbol (by decide)).bind fun _ => .ite (fun _ => .yield (.refl _))
      fun _ => (yields_commaSeparated hg.expr.yields).bind fun _ =>
        (passes_expectSymbol (by decide)).bind fun _ => .yield (.refl _)

theorem yields_insertSource (columns : List String) :
    Yields (insertSource g columns) fun target => target.2.nodes := by
  refine yields_of fun c => (passes_acceptAnyWord _).bind fun _ =>
    .ite (fun _ => ?_) fun _ => (passes_acceptWord _).bind fun _ =>
      .ite (fun _ => ?_) fun _ => .getAny fun _ => .getAny fun _ =>
        .ite (fun _ => ?_) fun _ => .failHere _
  · exact (yields_commaSeparated (yields_row hg)).bind fun _ =>
      .yield (by simp [InsertSource.nodes])
  · refine (yields_commaSeparated (yields_assignment hg)).bind fun _ => .yield (.of_eq ?_)
    simp only [InsertSource.nodes, flatMap_map, flatMap_singleton, nil_append]
    rfl
  · exact hg.query.bind fun _ => .yield (.refl _)

theorem yields_statementKind : Yields (statementKind g) StatementKind.nodes := by
  refine yields_of fun c => .getThen fun d hd => .ite (fun _ => ?_) fun _ =>
    .ite (fun hinsert => ?_) fun _ => .ite (fun hupdate => ?_) fun _ =>
      .ite (fun hdelete => ?_) fun _ => .failHere _
  · exact (hg.query.step.of fun _ he => he ▸ hd).bind fun _ => .yield (.refl _)
  · have hadvance : Ensures (· = d) advance fun _ => Built c [] := by
      rcases Bool.or_eq_true_iff.1 hinsert with h | h
      · exact advance_word h hd
      · exact advance_word h hd
    refine Ensures.bind (Q := fun i => Built c (StatementKind.nodes (.insert i))) ?_
      fun _ => .yield (.refl _)
    refine hadvance.bind fun _ => (passes_acceptWord _).bind fun _ =>
      (passes_acceptWord _).bind fun _ => (passes_tableName _).bind fun _ =>
      passes_insertColumns.bind fun named =>
      (yields_insertSource hg named).bind fun _ =>
      (yields_afterAccepted (passes_acceptPhrase _)
        (yields_commaSeparated (yields_assignment hg))).bind fun _ => .yield (.of_eq ?_)
    simp [StatementKind.nodes, flatMap_getD]
  · refine Ensures.bind (Q := fun u => Built c (StatementKind.nodes (.update u))) ?_
      fun _ => .yield (.refl _)
    refine (advance_word hupdate hd).bind fun _ => (passes_acceptWord _).bind fun _ =>
      (passes_acceptWord _).bind fun _ =>
      (yields_commaSeparated (yields_tableRef hg)).bind fun _ =>
      (consumes_expectWord _).passes.bind fun _ =>
      (yields_commaSeparated (yields_assignment hg)).bind fun _ =>
      (yields_afterAccepted (passes_acceptWord _) hg.expr.yields).bind fun _ => .yield ?_
    simp [StatementKind.nodes]
  · refine Ensures.bind (Q := fun u => Built c (StatementKind.nodes (.delete u))) ?_
      fun _ => .yield (.refl _)
    refine (advance_word hdelete hd).bind fun _ => (passes_acceptWord _).bind fun _ =>
      (passes_acceptWord _).bind fun _ => (passes_acceptWord _).bind fun _ =>
      (consumes_expectWord _).passes.bind fun _ =>
      (passes_tableName _).bind fun _ =>
      (yields_afterAccepted (passes_acceptWord _) hg.expr.yields).bind fun _ => .yield ?_
    simp [StatementKind.nodes]

end Clauses

/-! ### The grammar -/

theorem builds_upTo (depth : Nat) : (upTo depth).Builds := by
  induction depth with
  | zero =>
    exact ⟨fun _ => reads_of fun _ _ => .failHere _, reads_of fun _ _ => .failHere _,
      yields_of fun _ => .failHere _, yields_of fun _ => .failHere _⟩
  | succ depth ih =>
    exact ⟨reads_tierRule ih, fun _ _ _ hc hrun => (primary_primaryRule ih hc rfl hrun).read,
      yields_specRule ih, yields_queryRule ih⟩

theorem built_wholeStatement (c : Cursor) :
    Ensures (Built c []) wholeStatement fun kind d => Built c kind.nodes d ∧ d.atEnd = true := by
  refine .getAny fun d => (yields_statementKind (builds_upTo _)).bind fun kind =>
    (passes_collect (passes_afterAccepted (passes_acceptSymbol (by decide))
      (passes_of fun _ => .pure fun _ h => h))).bind fun _ =>
    .getThen fun e he => .ite (fun hend => .pure fun _ h => h ▸ ⟨he, hend⟩) fun _ => ?_
  rintro d' kind' d'' rfl hrun
  obtain ⟨_, _, _, hrun⟩ := bind_eq_ok.1 hrun
  exact (Ensures.failThen (P := fun _ => True) (R := fun _ _ => False) _ _ trivial hrun).elim

end Grammar

namespace Statement

open SqlSignature.Cursor

variable {text : String} {statement : Statement}

section

variable (h : parse text = .ok statement)

include h

/-- A statement is what the rule for whole statements reads from the start of the text. -/
theorem run_of_parse :
    ∃ start stop : Cursor, Cursor.ofText text = .ok start ∧
      Grammar.wholeStatement start = .ok statement.kind stop ∧
      statement.nodes = stop.nodes ∧ statement.placeholders = stop.placeholders := by
  cases hstart : Cursor.ofText text with
  | error e => rw [parse, hstart] at h; cases h
  | ok start =>
    rw [parse, hstart] at h
    replace h : (if start.atEnd then _ else _) = Except.ok statement := h
    split at h
    · cases h
    cases hrun : Grammar.wholeStatement.run start with
    | error e _ => rw [hrun] at h; cases h
    | ok kind stop =>
      rw [hrun] at h
      cases h
      exact ⟨start, stop, rfl, hrun, rfl, rfl⟩

/-- A statement was built from its first token to its last. -/
theorem parse_built :
    ∃ start stop : Cursor, Cursor.ofText text = .ok start ∧ start.position = 0 ∧
      start.nodes = 0 ∧ start.placeholders = 0 ∧ Built start statement.kind.nodes stop ∧
      stop.position = start.tokens.size ∧ statement.nodes = stop.nodes ∧
      statement.placeholders = stop.placeholders := by
  obtain ⟨start, stop, hstart, hrun, hnodes, hplaceholders⟩ := run_of_parse h
  obtain ⟨hbuilt, hend⟩ := Grammar.built_wholeStatement start (.refl (sound_ofText hstart)) hrun
  have hzero : start.position = 0 ∧ start.nodes = 0 ∧ start.placeholders = 0 := by
    obtain ⟨tokens, -, rfl⟩ := ofText_eq_ok_iff.1 hstart
    exact ⟨rfl, rfl, rfl⟩
  refine ⟨start, stop, hstart, hzero.1, hzero.2.1, hzero.2.2, hbuilt, ?_, hnodes, hplaceholders⟩
  have hle : stop.tokens.size ≤ stop.position := by simpa [atEnd] using hend
  rw [hbuilt.tokens] at hle
  exact Nat.le_antisymm hbuilt.inside hle

/-- The nodes of a statement carry the numbers below their count, each once. -/
theorem ids_perm : (statement.kind.nodes.map Expr.id).Perm (List.range statement.nodes) := by
  obtain ⟨start, stop, _, _, hnodes, _, hbuilt, _, hcount, _⟩ := parse_built h
  rw [hcount, hbuilt.nodes, hnodes, Nat.zero_add, range_eq_range', ← hnodes]
  exact hbuilt.ids

/-- The nodes of a statement that was read have numbers of their own. -/
theorem nodup_ids : (statement.kind.nodes.map Expr.id).Nodup :=
  (ids_perm h).nodup_iff.2 nodup_range

/-- The placeholders of a statement carry the ordinals below their count, each once. -/
theorem ordinals_perm :
    (statement.kind.nodes.filterMap Expr.ordinal?).Perm (List.range statement.placeholders) := by
  obtain ⟨start, stop, _, _, _, hzero, hbuilt, _, _, hcount⟩ := parse_built h
  rw [Expr.filterMap_ordinal?, hcount, hbuilt.placeholders, hzero, Nat.zero_add, range_eq_range']
  refine (hbuilt.marks.map Prod.snd).trans (.of_eq ?_)
  rw [zipIdx_map_snd, hzero]

end

/-- Whether a text is read as a statement that passes a test. -/
def isRead (text : String) (test : Statement → Bool) : Bool :=
  match parse text with
  | .ok statement => test statement
  | .error _ => false

theorem exists_of_isRead {test : Statement → Bool} (h : isRead text test = true) :
    ∃ statement, parse text = .ok statement ∧ test statement = true := by
  unfold isRead at h
  split at h
  next statement hparse => exact ⟨statement, hparse, h⟩
  next => cases h

end Statement

end SqlSignature
