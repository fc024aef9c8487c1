import SqlSignature.Proofs.ExpressionEdges
/-!
# SqlSignature.Proofs.ConjunctRuns

The runs that read the conjuncts of a predicate. The tiers of the connectives extend what the next
tier reads, operand by operand (`Extended`); below them, an expression with a connective stands in a
group (`inGroup_of_connective`). So the conjuncts of a predicate are read one after the other
(`chained_conjuncts`), and each that keeps its edges is a `Piece`: its own tier reads it from
exactly the tokens of its text.
-/

namespace SqlSignature

/-- The connective of a tier. -/
def Tier.connective? : Tier → Option BinaryOp
  | .disjunction => some .or
  | .exclusion => some .xor
  | .conjunction => some .and
  | _ => none

theorem Expr.ne_and_of_mem_conjuncts {e conjunct : Expr} (h : conjunct ∈ e.conjuncts) :
    conjunct.connective? ≠ some .and := by
  fun_induction Expr.conjuncts e with
  | case1 id span left right ihleft ihright =>
    rcases List.mem_append.1 h with h | h
    · exact ihleft h
    · exact ihright h
  | case2 e hne =>
    obtain rfl := List.mem_singleton.1 h
    intro hand
    obtain ⟨id, span, form⟩ := conjunct
    cases form with
    | binary op left right =>
      simp only [connective?, Expr.form, ExprForm.connective?, Option.ite_none_right_eq_some,
        Option.some.injEq] at hand
      exact hne id span left right (hand.2 ▸ rfl)
    | _ => cases hand

/-- The tier that reads an expression without a group around it. -/
def Expr.ownTier (e : Expr) : Tier :=
  if e.connective?.isSome then .disjunction else .negation

/-- The connectives have a tier each, with no other operators. -/
theorem Tier.connective?_of_operator? {tier : Tier} {op : BinaryOp} {t : Token}
    (h : tier.operator? t = some op) :
    tier.connective? = if op.isConnective then some op else none := by
  obtain ⟨entry, hfind, rfl⟩ := Option.map_eq_some_iff.1 h
  have hmem : entry ∈ tier.words ++ tier.symbols := by
    rcases Option.or_eq_some_iff.1 hfind with hword | ⟨_, hsymbol⟩
    · exact List.mem_append_left _ (List.mem_of_find?_eq_some hword)
    · exact List.mem_append_right _ (List.mem_of_find?_eq_some hsymbol)
  have htable : ∀ entry ∈ tier.words ++ tier.symbols,
      tier.connective? = if entry.2.isConnective then some entry.2 else none := by
    cases tier <;> decide
  exact htable entry hmem

namespace Grammar

open SqlSignature.Cursor SqlSignature.Parser

variable {g : Grammar} {tier : Tier} {op : BinaryOp} {c c₁ c' : Cursor} {e first : Expr}
  {depth : Nat}

/-! ### Connectives -/

/-- Extending an expression step by step. -/
inductive Extended (step : Expr → Parser (Option Expr)) : Expr → Cursor → Expr → Cursor → Prop
  | done {e : Expr} {c c' : Cursor} (last : step e c = .ok none c') : Extended step e c e c'
  | more {e longer longest : Expr} {c c₁ c' : Cursor} (first : step e c = .ok (some longer) c₁)
      (others : Extended step longer c₁ longest c') : Extended step e c longest c'

theorem extended_of_extendUpTo {step : Expr → Parser (Option Expr)} {n : Nat}
    (h : extendUpTo step n first c = .ok e c') : Extended step first c e c' := by
  induction n generalizing first c with
  | zero => cases h
  | succ n ih =>
    obtain ⟨longer, c₁, hstep, h⟩ := bind_eq_ok.1 h
    cases longer with
    | some longer => exact .more hstep (ih h)
    | none =>
      cases h
      exact .done hstep

theorem upTo_connective (htier : tier.connective? = some op) (depth : Nat) :
    (upTo (depth + 1)).tier tier =
      (do extend (operation? (upTo depth) tier) (← (upTo depth).tier tier.next) : Parser Expr) := by
  cases tier <;> first | rfl | cases htier

/-- A run of the tier of a connective. -/
theorem run_connective (tier : Tier) (htier : tier.connective? = some op)
    (h : (upTo depth).tier tier c = .ok e c') :
    ∃ d first c₁, depth = d + 1 ∧ (upTo d).tier tier.next c = .ok first c₁ ∧
      Extended (operation? (upTo d) tier) first c₁ e c' := by
  cases depth with
  | zero => cases h
  | succ d =>
    rw [upTo_connective htier] at h
    obtain ⟨first, c₁, hfirst, h⟩ := bind_eq_ok.1 h
    exact ⟨d, first, c₁, rfl, hfirst, extended_of_extendUpTo (n := c₁.tokens.size + 1) h⟩

/-- What a step that finds an operator does to the cursor. -/
structure Stepped (c c' : Cursor) : Prop where
  sound : c'.Sound
  tokens : c'.tokens = c.tokens
  text : c'.text = c.text
  lt : c.position < c'.position

theorem stepped_operation (hc : c.Sound)
    (h : operation? (upTo depth) tier first c = .ok (some e) c') : Stepped c c' := by
  obtain ⟨op, right, c₂, hop, hright, rfl, rfl⟩ := operation?_eq_some h
  obtain ⟨t, hcur, ht⟩ := Option.bind_eq_some_iff.1 hop
  have hpassed : Passed c c.next := .next hcur (passable_of_operator ht)
  have hbuilt := ((builds_upTo depth).tier _ (Built.ofPassed hc hpassed).sound_right hright).built
  have hle := hbuilt.le
  have hnext := next_position hcur
  exact ⟨⟨hbuilt.sound_right.ordered, hbuilt.sound_right.proper, hbuilt.sound_right.inside⟩,
    hbuilt.tokens.trans hpassed.tokens, hbuilt.text.trans hpassed.text,
    show c.position < c₂.position by omega⟩

theorem Extended.connective? (htier : tier.connective? = some op)
    (h : Extended (operation? g tier) first c e c') :
    e = first ∧ c' = c ∧ c.current.bind tier.operator? = none ∨
      c.current.bind tier.operator? = some op ∧ e.connective? = some op := by
  induction h with
  | done last =>
    obtain ⟨rfl, hnone⟩ := operation?_eq_none last
    exact .inl ⟨rfl, rfl, hnone⟩
  | more first others ih =>
    obtain ⟨op', right, c₂, hop, -, rfl, rfl⟩ := operation?_eq_some first
    obtain ⟨t, -, ht⟩ := Option.bind_eq_some_iff.1 hop
    rw [Tier.connective?_of_operator? ht, Option.ite_none_right_eq_some] at htier
    obtain ⟨hconn, ⟨⟩⟩ := htier
    refine .inr ⟨hop, ?_⟩
    rcases ih with ⟨rfl, -, -⟩ | ⟨-, hconnective⟩
    · simp [Expr.connective?, ExprForm.connective?, hconn]
    · exact hconnective

/-- An expression with a connective that a run reads in a group, and the run inside. -/
def InGroup (depth : Nat) (c : Cursor) (e : Expr) (c' : Cursor) : Prop :=
  c.groupAt c.position = true ∧ Passed c c.next ∧
    ∃ depth' c₂, depth' < depth ∧ (upTo depth').expr c.next = .ok e c₂ ∧ Passed c₂ c'

theorem InGroup.mono {depth' : Nat} {c'' : Cursor} (h : InGroup depth c e c') (hle : depth ≤ depth')
    (hp : Passed c' c'') : InGroup depth' c e c'' := by
  obtain ⟨hgroup, hpassed, d, c₂, hlt, hrun, hclose⟩ := h
  exact ⟨hgroup, hpassed, d, c₂, by omega, hrun, hclose.trans hp⟩

theorem inGroup_of_enclosed (h : Enclosed (upTo depth) c e c') : InGroup (depth + 1) c e c' := by
  obtain ⟨t, hcur, hopen⟩ := (Option.any_eq_true _ _).1 h.opens
  obtain ⟨c₂, hrun, hclose, rfl⟩ := h.inner
  obtain ⟨u, hu, hsymbol⟩ := (Option.any_eq_true _ _).1 hclose
  exact ⟨h.group, .next hcur (t.passable_of_isSymbol hopen (by decide)), depth, c₂,
    Nat.lt_succ_self _, hrun, .next hu (u.passable_of_isSymbol hsymbol (by decide))⟩

/-- A tier without a connective gives an operand, or extends one without a connective. -/
theorem extend_plain {step : Expr → Parser (Option Expr)} (hg : g.Builds) (hc : c.Sound)
    (htier : tier.connective? = none) (hstep : Extends g tier step)
    (h : (do extend step (← g.tier tier.next) : Parser Expr) c = .ok e c') :
    g.tier tier.next c = .ok e c' ∨ e.connective? = none := by
  obtain ⟨first, c₁, hfirst, h⟩ := bind_eq_ok.1 h
  refine (Ensures.extend (P := fun e d => Read c e d ∧
    (g.tier tier.next c = .ok e d ∨ e.connective? = none)) (fun e => ?_) first
    ⟨hg.tier _ hc hfirst, .inl hfirst⟩ h).2
  rintro d longer d' ⟨hread, hd⟩ hrun
  have hgrown := hstep hread rfl hrun
  refine ⟨hgrown.read hg hread, ?_⟩
  cases longer with
  | none => exact hgrown ▸ hd
  | some longer =>
    refine .inr ?_
    cases hgrown with
    | ended h => exact h.plain
    | @combined op right c₁ c₂ passed operator right_run =>
      cases hop : op.isConnective with
      | false => simp [Expr.connective?, ExprForm.connective?, hop]
      | true =>
        obtain ⟨t, -, ht⟩ := Option.bind_eq_some_iff.1 (operator hop).2
        rw [Tier.connective?_of_operator? ht, if_pos hop] at htier
        cases htier

/-- Below the connectives, an expression with a connective stands in a group. -/
theorem inGroup_of_connective (depth : Nat) :
    (∀ tier : Tier, tier.connective? = none → ∀ c e c', c.Sound →
      (upTo depth).tier tier c = .ok e c' → e.connective? ≠ none → InGroup depth c e c') ∧
    ∀ c e c', c.Sound → (upTo depth).primary c = .ok e c' → e.connective? ≠ none →
      InGroup depth c e c' := by
  induction depth with
  | zero =>
    refine ⟨fun tier _ c e c' _ hrun => ?_, fun c e c' _ hrun => ?_⟩
    · cases hrun
    · cases hrun
  | succ depth ih =>
    constructor
    · intro tier htier c e c' hc hrun hconn
      have lower : ∀ (tier : Tier) {step : Expr → Parser (Option Expr)}, tier.connective? = none →
          tier.next.connective? = none → Extends (upTo depth) tier step →
          (do extend step (← (upTo depth).tier tier.next) : Parser Expr) c = .ok e c' →
          InGroup (depth + 1) c e c' := by
        intro tier step htier hnext hstep hrun
        rcases extend_plain (builds_upTo depth) hc htier hstep hrun with hfirst | hplain
        · exact (ih.1 _ hnext c e c' hc hfirst hconn).mono (Nat.le_succ _) (.refl c')
        · exact absurd hplain hconn
      cases tier
      case negation =>
        rcases negation_cases (builds_upTo depth) hc hrun with hwhole | hoperand
        · exact absurd hwhole.plain hconn
        · exact (ih.1 _ rfl c e c' hc hoperand hconn).mono (Nat.le_succ _) (.refl c')
      case unary =>
        rcases signed_cases (builds_upTo depth) hc hrun with
          hwhole | hoperand | ⟨d, hoperand, -, hpassed⟩
        · exact absurd hwhole.plain hconn
        · exact (ih.2 c e c' hc hoperand hconn).mono (Nat.le_succ _) (.refl c')
        · exact (ih.2 c e d hc hoperand hconn).mono (Nat.le_succ _) hpassed
      case predicate =>
        exact lower .predicate rfl rfl (fun _ _ _ => grown_predicate (builds_upTo depth)) hrun
      case disjunction | exclusion | conjunction => cases htier
      all_goals exact lower _ rfl rfl (fun _ e d _ => grown_operation _ e d) hrun
    · intro c e c' hc hrun hconn
      rcases primary_primaryRule (builds_upTo depth) hc rfl hrun with hwhole | ⟨-, henclosed⟩
      · exact absurd hwhole.plain hconn
      · exact inGroup_of_enclosed henclosed

/-! ### Runs that span their result -/

/-- An expression reaches over all tokens between two places. -/
def Spans (c : Cursor) (e : Expr) (c' : Cursor) : Prop :=
  e.span.start = c.tokenStart c.position ∧ e.span.stop = c'.previousStop

/-- An expression that keeps its edges is read without a token too many: in the run at hand, or in a
group inside it. -/
theorem exists_spans (hc : c.Sound) (h : (upTo depth).tier tier c = .ok e c')
    (hkeeps : e.KeepsEdges c.tokens.toList) :
    ∃ tier' depth' c₁ c₂, (tier' = tier ∨ tier' = .disjunction) ∧
      (upTo depth').tier tier' c₁ = .ok e c₂ ∧ Passed c c₁ ∧ Passed c₂ c' ∧ Spans c₁ e c₂ := by
  induction hn : c'.position - c.position using Nat.strongRecOn generalizing tier depth c c' with
  | ind n ih =>
    subst hn
    rcases ((frames_upTo depth).1 tier hc h).edges with hgroup | ⟨hleft, hright⟩
    · obtain ⟨c₁, c₂, depth', hopen, hlt, hrun, hclose⟩ := hgroup.inner
      have hsound := (Built.ofPassed hc hopen).sound_right
      have hle := ((builds_upTo depth').expr hsound hrun).built.le
      have hle' := hclose.le
      obtain ⟨tier', depth'', c₃, c₄, htier, hinner, hbefore, hafter, hspans⟩ :=
        ih _ (by omega) hsound hrun (hopen.tokens ▸ hkeeps) rfl
      exact ⟨tier', depth'', c₃, c₄, .inr (htier.elim id id), hinner, hopen.trans hbefore,
        hafter.trans hclose, hspans⟩
    · refine ⟨tier, depth, c, c', .inl rfl, h, .refl c, .refl c', hleft hkeeps.left, ?_⟩
      refine (hright hkeeps.right).resolve_right fun hcollates => ?_
      rw [hkeeps.last] at hcollates
      cases hcollates

/-- No expression starts with the opening of a group. -/
theorem groupAt_of_spans (hread : Read c e c') (h : Spans c e c') :
    c.groupAt c.position = false := by
  obtain ⟨i, j, hi, hij, hj, hstart, -, hgroup, -⟩ := hread.edge
  have hinside := hread.built.inside
  have hsound := hread.built.sound
  obtain rfl : i = c.position := by
    rcases Nat.eq_or_lt_of_le hi with heq | hlt
    · exact heq.symm
    · have hsame := h.1.symm.trans hstart
      have hproper := hsound.start_lt_stop (i := c.position) (by omega)
      have hle := hsound.tokenStop_le_tokenStart (i := c.position) (by omega) hlt
      omega
  exact hgroup

/-- What the tier of a connective reads without that connective, the next tier reads. -/
theorem run_next (tier : Tier) (htier : tier.connective? = some op)
    (hne : e.connective? ≠ some op) (h : (upTo depth).tier tier c = .ok e c') :
    ∃ d, depth = d + 1 ∧ (upTo d).tier tier.next c = .ok e c' := by
  obtain ⟨d, first, c₁, rfl, hfirst, hextended⟩ := run_connective tier htier h
  rcases hextended.connective? htier with ⟨rfl, rfl, -⟩ | ⟨-, hsome⟩
  · exact ⟨d, rfl, hfirst⟩
  · exact absurd hsome hne

/-- An expression without a connective is read by the tier below the connectives. -/
theorem exists_negation (h : (upTo depth).expr c = .ok e c') (hconn : e.connective? = none) :
    ∃ depth', (upTo depth').tier .negation c = .ok e c' := by
  have hne : ∀ op, e.connective? ≠ some op := by rw [hconn]; nofun
  obtain ⟨d₁, -, h₁⟩ := run_next .disjunction rfl (hne _) h
  obtain ⟨d₂, -, h₂⟩ := run_next .exclusion rfl (hne _) h₁
  obtain ⟨d₃, -, h₃⟩ := run_next .conjunction rfl (hne _) h₂
  exact ⟨d₃, h₃⟩

/-! ### Conjuncts -/

/-- Things in a row, of which each goes on with the count that the one before has come to. -/
inductive Chained {α : Type} (R : α → Nat → Nat → Prop) : Nat → List α → Nat → Prop
  | nil (n : Nat) : Chained R n [] n
  | cons {a b n : Nat} {x : α} {xs : List α} (first : R x a b) (others : Chained R b xs n) :
      Chained R a (x :: xs) n

section

variable {α β : Type} {R : α → Nat → Nat → Prop} {S : β → Nat → Nat → Prop} {a b n : Nat}

theorem Chained.of_cons {x : α} {xs : List α} (h : Chained R a (x :: xs) n) :
    ∃ b, R x a b ∧ Chained R b xs n := by
  cases h with
  | cons first others => exact ⟨_, first, others⟩

theorem Chained.append {xs ys : List α} (h : Chained R a xs b) (h' : Chained R b ys n) :
    Chained R a (xs ++ ys) n := by
  induction h with
  | nil => exact h'
  | cons first others ih => exact .cons first (ih h')

/-- Where each has a description, they have descriptions in a row. -/
theorem Chained.exists_map {f : β → α} {xs : List α} (h : Chained R a xs b)
    (hdescribe : ∀ x ∈ xs, ∀ a b, R x a b → ∃ y, f y = x ∧ S y a b) :
    ∃ ys, ys.map f = xs ∧ Chained S a ys b := by
  induction h with
  | nil n => exact ⟨[], rfl, .nil n⟩
  | cons first others ih =>
    obtain ⟨y, rfl, hy⟩ := hdescribe _ List.mem_cons_self _ _ first
    obtain ⟨ys, rfl, hys⟩ := ih fun x hx => hdescribe x (List.mem_cons_of_mem _ hx)
    exact ⟨y :: ys, rfl, .cons hy hys⟩

end

/-- A part of a predicate among the tokens of `origin`, read by a tier. -/
def HasRun (origin : Cursor) (e : Expr) (a b : Nat) : Prop :=
  ∃ tier depth c c', (tier = .disjunction ∨ tier = .negation) ∧ c.Sound ∧
    c.tokens = origin.tokens ∧ c.text = origin.text ∧ (upTo depth).tier tier c = .ok e c' ∧
    c.placeholders = a ∧ c'.placeholders = b

theorem conjuncts_of_ne_and (h : e.connective? ≠ some .and) : e.conjuncts = [e] := by
  fun_cases Expr.conjuncts e with
  | case1 => exact absurd rfl h
  | case2 => rfl

section

variable {origin : Cursor} (hc : c.Sound) (htokens : c.tokens = origin.tokens)
  (htext : c.text = origin.text)

include hc htokens htext

theorem chained_single (htier : tier = .disjunction ∨ tier = .negation)
    (h : (upTo depth).tier tier c = .ok e c') (hand : e.connective? ≠ some .and) :
    Chained (HasRun origin) c.placeholders e.conjuncts c'.placeholders := by
  rw [conjuncts_of_ne_and hand]
  exact .cons ⟨tier, depth, c, c', htier, hc, htokens, htext, h, rfl, rfl⟩ (.nil _)

end

/-- A conjunction is read operand by operand. -/
theorem run_and (h : (upTo depth).expr c = .ok e c') (hand : e.connective? = some .and) :
    ∃ d first c₁, depth = d + 3 ∧ (upTo d).tier .negation c = .ok first c₁ ∧
      Extended (operation? (upTo d) .conjunction) first c₁ e c' := by
  obtain ⟨d₁, rfl, h₁⟩ := run_next .disjunction rfl (by rw [hand]; nofun) h
  obtain ⟨d₂, rfl, h₂⟩ := run_next .exclusion rfl (by rw [hand]; nofun) h₁
  obtain ⟨d, first, c₁, rfl, hfirst, hextended⟩ := run_connective .conjunction rfl h₂
  exact ⟨d, first, c₁, rfl, hfirst, hextended⟩

/-- One more conjunct after another. -/
theorem Extended.chained {origin : Cursor} {a : Nat}
    (hoperand : ∀ c right c', c.Sound → c.tokens = origin.tokens → c.text = origin.text →
      (upTo depth).tier .negation c = .ok right c' →
        Chained (HasRun origin) c.placeholders right.conjuncts c'.placeholders)
    (h : Extended (operation? (upTo depth) .conjunction) first c e c')
    (hc : c.Sound) (htokens : c.tokens = origin.tokens) (htext : c.text = origin.text)
    (hfirst : Chained (HasRun origin) a first.conjuncts c.placeholders) :
    Chained (HasRun origin) a e.conjuncts c'.placeholders := by
  induction h with
  | done last => exact (operation?_eq_none last).1 ▸ hfirst
  | @more left longer longest c c₁ c' step others ih =>
    obtain ⟨op, right, c₂, hop, hright, rfl, rfl⟩ := operation?_eq_some step
    obtain ⟨t, hcur, ht⟩ := Option.bind_eq_some_iff.1 hop
    obtain ⟨-, ⟨⟩⟩ := Option.ite_none_right_eq_some.1 (Tier.connective?_of_operator? ht).symm
    have hpassed : Passed c c.next := .next hcur (passable_of_operator ht)
    have hchained := hoperand c.next right c₂ (Built.ofPassed hc hpassed).sound_right
      (hpassed.tokens.trans htokens) (hpassed.text.trans htext) hright
    rw [hpassed.placeholders] at hchained
    have hstepped := stepped_operation hc step
    exact ih hstepped.sound (hstepped.tokens.trans htokens) (hstepped.text.trans htext)
      (hfirst.append hchained)

/-- The conjuncts of a predicate are read one after the other. -/
theorem chained_conjuncts {origin : Cursor} (hc : c.Sound) (htokens : c.tokens = origin.tokens)
    (htext : c.text = origin.text) (h : (upTo depth).expr c = .ok e c') :
    Chained (HasRun origin) c.placeholders e.conjuncts c'.placeholders := by
  induction depth using Nat.strongRecOn generalizing c e c' with
  | ind depth ih =>
    by_cases hand : e.connective? = some .and
    case neg => exact chained_single hc htokens htext (.inl rfl) h hand
    obtain ⟨d, first, c₁, rfl, hfirst, hextended⟩ := run_and h hand
    have hoperand : ∀ c right c', c.Sound → c.tokens = origin.tokens → c.text = origin.text →
        (upTo d).tier .negation c = .ok right c' →
          Chained (HasRun origin) c.placeholders right.conjuncts c'.placeholders := by
      intro c right c' hc htokens htext hrun
      by_cases hand : right.connective? = some .and
      case neg => exact chained_single hc htokens htext (.inr rfl) hrun hand
      -- a conjunction that is an operand stands in a group
      obtain ⟨-, hopen, d', c₂, hlt', hinner, hclose⟩ :=
        (inGroup_of_connective d).1 .negation rfl c right c' hc hrun (by rw [hand]; nofun)
      have hchained := ih d' (by omega) (Built.ofPassed hc hopen).sound_right
        (hopen.tokens.trans htokens) (hopen.text.trans htext) hinner
      rwa [hopen.placeholders, ← hclose.placeholders] at hchained
    have hread := (builds_upTo d).tier _ hc hfirst
    exact hextended.chained hoperand hread.built.sound_right (hread.built.tokens.trans htokens)
      (hread.built.text.trans htext) (hoperand c first c₁ hc htokens htext hfirst)

/-! ### Conjuncts that stand for themselves -/

/-- An expression whose text is what its own tier reads among the tokens of `origin`, with a run
that reads it. -/
structure Piece (origin : Cursor) where
  expr : Expr
  depth : Nat
  start : Cursor
  stop : Cursor
  sound : start.Sound
  tokens : start.tokens = origin.tokens
  text : start.text = origin.text
  run : (upTo depth).tier expr.ownTier start = .ok expr stop
  spans : Spans start expr stop

/-- How many bound values there are before a piece, and how many up to its end. -/
def Piece.Numbered {origin : Cursor} (p : Piece origin) (a b : Nat) : Prop :=
  p.start.placeholders = a ∧ p.stop.placeholders = b

theorem HasRun.exists_piece {origin : Cursor} {a b : Nat} (h : HasRun origin e a b)
    (hkeeps : e.KeepsEdges origin.tokens.toList) :
    ∃ p : Piece origin, p.expr = e ∧ p.Numbered a b := by
  obtain ⟨tier, depth, c, c', htier, hc, htokens, htext, hrun, rfl, rfl⟩ := h
  obtain ⟨tier', depth', c₁, c₂, htier', hrun', hbefore, hafter, hspans⟩ :=
    exists_spans hc hrun (htokens ▸ hkeeps)
  have hsound := (Built.ofPassed hc hbefore).sound_right
  have htiers : tier' = .disjunction ∨ tier' = .negation := by
    rcases htier' with rfl | rfl
    · exact htier
    · exact .inl rfl
  have own : ∃ depth, (upTo depth).tier e.ownTier c₁ = .ok e c₂ := by
    unfold Expr.ownTier
    cases hconn : e.connective? with
    | none =>
      rcases htiers with rfl | rfl
      · exact exists_negation hrun' hconn
      · exact ⟨depth', hrun'⟩
    | some op =>
      rcases htiers with rfl | rfl
      · exact ⟨depth', hrun'⟩
      · -- the tier below the connectives reads it in a group only, with which no text starts
        have hgroup := ((inGroup_of_connective depth').1 .negation rfl c₁ e c₂ hsound hrun'
          (by rw [hconn]; nofun)).1
        rw [groupAt_of_spans ((builds_upTo depth').tier _ hsound hrun') hspans] at hgroup
        cases hgroup
  obtain ⟨depth'', hown⟩ := own
  exact ⟨⟨e, depth'', c₁, c₂, hsound, hbefore.tokens.trans htokens, hbefore.text.trans htext, hown,
    hspans⟩, rfl, hbefore.placeholders, hafter.placeholders.symm⟩

/-! ### Runs from their parts -/

section

variable (h : Extended (operation? (upTo depth) tier) first c e c') (hc : c.Sound)

include h hc

/-- Where an operator follows, tokens are passed. -/
theorem Extended.position_le : c.position ≤ c'.position ∧
      ∀ op, c.current.bind tier.operator? = some op → c.position < c'.position := by
  induction h with
  | done last =>
    obtain ⟨rfl, hnone⟩ := operation?_eq_none last
    exact ⟨Nat.le_refl _, fun op hop => by rw [hnone] at hop; cases hop⟩
  | more step others ih =>
    have hstepped := stepped_operation hc step
    have hle := (ih hstepped.sound).1
    have hlt := hstepped.lt
    exact ⟨by omega, fun _ _ => by omega⟩

/-- The rounds that there are suffice. -/
theorem Extended.extendUpTo {n : Nat} (hn : c.tokens.size < c.position + n) :
    Parser.extendUpTo (operation? (upTo depth) tier) n first c = .ok e c' := by
  have hinside := hc.inside
  obtain ⟨m, rfl⟩ : ∃ m, n = m + 1 := ⟨n - 1, by omega⟩
  induction h generalizing m with
  | done last => exact bind_eq_ok.2 ⟨none, _, last, rfl⟩
  | @more left longer longest c c₁ c' step others ih =>
    have hstepped := stepped_operation hc step
    have hlt := hstepped.lt
    have hinside₁ := hstepped.sound.inside
    rw [hstepped.tokens] at hinside₁
    obtain ⟨l, rfl⟩ : ∃ l, m = l + 1 := ⟨m - 1, by omega⟩
    refine bind_eq_ok.2 ⟨some longer, c₁, step, ih hstepped.sound hstepped.sound.inside l ?_⟩
    rw [hstepped.tokens]
    omega

end

/-- The converse of `run_connective`. -/
theorem run_of_extended (tier : Tier) (htier : tier.connective? = some op)
    (hc : c.Sound) (hfirst : (upTo depth).tier tier.next c = .ok first c₁)
    (h : Extended (operation? (upTo depth) tier) first c₁ e c') :
    (upTo (depth + 1)).tier tier c = .ok e c' := by
  have hsound := ((builds_upTo depth).tier _ hc hfirst).built.sound_right
  rw [upTo_connective htier]
  exact bind_eq_ok.2 ⟨first, c₁, hfirst, h.extendUpTo hsound (by omega)⟩

/-- At the end of the tokens, what is read is not extended. -/
theorem run_of_atEnd (tier : Tier) (htier : tier.connective? = some op) (hc : c.Sound)
    (h : (upTo depth).tier tier.next c = .ok e c') (hend : c'.atEnd = true) :
    (upTo (depth + 1)).tier tier c = .ok e c' := by
  have hnone : c'.current.bind tier.operator? = none := by
    rw [atEnd, decide_eq_true_eq] at hend
    simp [current, hend]
  exact run_of_extended tier htier hc h (.done (operation?_of_none hnone))

/-! ### Conjunctions at the front of other predicates -/

/-- A predicate that is a disjunction or an exclusion, and not in a group, starts with a conjunction
that stops before it. -/
theorem exists_conjunction (hc : c.Sound) (h : (upTo depth).expr c = .ok e c')
    (hgroup : c.groupAt c.position = false) {op : BinaryOp} (hconn : e.connective? = some op)
    (hand : op ≠ .and) :
    ∃ d first c₁ front c₂, (upTo d).tier .negation c = .ok first c₁ ∧
      Extended (operation? (upTo d) .conjunction) first c₁ front c₂ ∧
      c₂.position < c'.position := by
  obtain ⟨d₁, excluded, c₁, rfl, hexcluded, hors⟩ := run_connective .disjunction rfl h
  obtain ⟨d₂, conjoined, c₂, rfl, hconjoined, hxors⟩ := run_connective .exclusion rfl hexcluded
  obtain ⟨d₃, first, c₃, rfl, hfirst, hands⟩ := run_connective .conjunction rfl hconjoined
  have hsound₁ := ((builds_upTo _).tier _ hc hexcluded).built.sound_right
  have hsound₂ := ((builds_upTo _).tier _ hc hconjoined).built.sound_right
  refine ⟨d₃, first, c₃, conjoined, c₂, hfirst, hands, ?_⟩
  have hle := hors.position_le hsound₁
  have hle' := hxors.position_le hsound₂
  rcases hors.connective? rfl with ⟨rfl, rfl, -⟩ | ⟨hor, -⟩
  · rcases hxors.connective? rfl with ⟨rfl, rfl, -⟩ | ⟨hxor, -⟩
    · -- without an operator of its own, it would be a conjunction or stand in a group
      rcases hands.connective? rfl with ⟨rfl, rfl, -⟩ | ⟨-, hisAnd⟩
      · have hopen := ((inGroup_of_connective d₃).1 .negation rfl _ _ _ hc hfirst
          (by rw [hconn]; nofun)).1
        rw [hgroup] at hopen
        cases hopen
      · exact absurd (Option.some.inj (hconn.symm.trans hisAnd)) hand
    · exact hle'.2 _ hxor
  · have hlt := hle.2 _ hor
    omega

end Grammar

end SqlSignature
