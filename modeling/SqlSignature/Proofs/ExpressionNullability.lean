import SqlSignature.Analysis.Outline
/-!
# SqlSignature.Proofs.ExpressionNullability

What it means that an expression is certainly not null. An evaluation gives every expression a value
or null. It respects what an analysis has found if columns and bound values that are taken to be not
null have values (`AnalysisState.Respects`), and if every other expression is null only where its
form admits it (`ExprForm.Admits`) and calls follow the rules of their functions
(`NullRule.Admits`). Then an expression is found to be not null exactly if it has a value in every
such evaluation (`Expr.notNull_iff_present`): nothing is promised that can fail, and nothing more
could be promised.
-/

open List

namespace SqlSignature

open NullFacts

variable {V : Type}

/-! ### Evaluations -/

/-- Whether a function with a rule can have a value, or null, for the values of its arguments. -/
def NullRule.Admits (rule : NullRule) (args : List (Option V)) (v : Option V) : Prop :=
  match rule with
  | allArgs => (∀ a ∈ args, a ≠ none) → v ≠ none
  | always => v ≠ none
  | never => True
  | anyArg => (∃ a ∈ args, a ≠ none) → v ≠ none
  -- positions past the last argument do not matter
  | argsAt positions => (∀ i ∈ positions, ∀ a, args[i]? = some a → a ≠ none) → v ≠ none

/-- Whether an expression of a form can have a value, or null, for the values of its operands.
Columns and bound values, queries in the place of a value and calls of functions that are not known
can be anything. -/
def ExprForm.Admits (value : Expr → Option V) (v : Option V) : ExprForm → Prop
  | .literal l => v = none ↔ l.isNull = true
  | .column _ | .placeholder _ => True
  | .unary _ operand | .cast operand _ | .interval operand _ => value operand ≠ none → v ≠ none
  | .binary op left right =>
    op = .nullSafeEq ∨ (value left ≠ none ∧ value right ≠ none) → v ≠ none
  | .isNull _ _ | .isTruth _ _ _ | .existence _ => v ≠ none
  | .inList operand list _ =>
    value operand ≠ none ∧ (∀ e ∈ list, value e ≠ none) → v ≠ none
  | .inQuery _ _ _ | .subquery _ => True
  | .between operand low high _ =>
    value operand ≠ none ∧ value low ≠ none ∧ value high ≠ none → v ≠ none
  | .like operand pattern _ _ => value operand ≠ none ∧ value pattern ≠ none → v ≠ none
  | .choice _ branches otherwise =>
    (∃ b ∈ branches, v = value b.result) ∨ v = otherwise.bind value
  | .call name args _ _ _ =>
    ∀ signature, Function.signature? name = some signature →
      signature.notNull.Admits (args.map value) v

/-- An evaluation respects what an analysis has found of columns and bound values, and the forms of
expressions. -/
structure AnalysisState.Respects (s : AnalysisState) (value : Expr → Option V) : Prop where
  column : ∀ id span ref bound scope, s.references.lookup id = some (.column bound) →
    s.scopes[bound.scope]? = some scope →
    scope.columnNotNull bound.source bound.column = true →
    value (.node id span (.column ref)) ≠ none
  label : ∀ id span ref var, s.references.lookup id = some (.label var true) →
    value (.node id span (.column ref)) ≠ none
  placeholder : ∀ id span ordinal facts, s.parameters[ordinal]? = some facts →
    facts.notNull = true → value (.node id span (.placeholder ordinal)) ≠ none
  form : ∀ id span form, ExprForm.Admits value (value (.node id span form)) form

/-- Whether an expression can be null whatever its operands are: a query in the place of a value,
`IN` with a query, or a call of a function that is not known. -/
def Expr.isOpen (e : Expr) : Bool :=
  match e.form with
  | .inQuery _ _ _ | .subquery _ => true
  | .call name _ _ _ _ => (Function.signature? name).isNone
  | _ => false

/-! ### Lists of expressions -/

variable {facts : NullFacts}

theorem Expr.notNullList_eq_map (facts : NullFacts) (es : List Expr) :
    Expr.notNullList facts es = es.map (Expr.notNull facts) := by
  induction es with
  | nil => rfl
  | cons e rest ih => rw [Expr.notNullList, ih, map_cons]

theorem notNullList_all_iff {es : List Expr} :
    (Expr.notNullList facts es).all id = true ↔ ∀ e ∈ es, e.notNull facts = true := by
  rw [Expr.notNullList_eq_map, all_map, all_eq_true]
  rfl

theorem Branch.notNullAll_iff {branches : List Branch} :
    Branch.notNullAll facts branches = true ↔
      ∀ b ∈ branches, b.result.notNull facts = true := by
  induction branches with
  | nil => simp [Branch.notNullAll]
  | cons b rest ih =>
    cases b
    rw [Branch.notNullAll, Bool.and_eq_true, ih, forall_mem_cons]

theorem Expr.notNullOption_iff {o : Option Expr} :
    Expr.notNullOption facts o = true ↔ ∃ e, o = some e ∧ e.notNull facts = true := by
  cases o <;> simp [Expr.notNullOption]

/-- A rule that holds for what is known of the arguments holds for their values. -/
theorem NullRule.Admits.present {rule : NullRule} {es : List Expr} {fact : Expr → Bool}
    {value : Expr → Option V} {v : Option V} (h : rule.Admits (es.map value) v)
    (hfact : ∀ e ∈ es, fact e = true → value e ≠ none)
    (hrule : rule.evaluate (es.map fact) = true) : v ≠ none := by
  cases rule with
  | allArgs =>
    refine h fun a ha => ?_
    obtain ⟨e, he, rfl⟩ := mem_map.1 ha
    exact hfact e he (all_eq_true.1 hrule _ (mem_map_of_mem he))
  | always => exact h
  | never => cases hrule
  | anyArg =>
    obtain ⟨b, hb, htrue⟩ := any_eq_true.1 hrule
    obtain ⟨e, he, rfl⟩ := mem_map.1 hb
    exact h ⟨value e, mem_map_of_mem he, hfact e he htrue⟩
  | argsAt positions =>
    refine h fun i hi a ha => ?_
    rw [getElem?_map] at ha
    obtain ⟨e, he, rfl⟩ := Option.map_eq_some_iff.1 ha
    have htrue := all_eq_true.1 hrule i hi
    rw [getElem?_map, he] at htrue
    exact hfact e (mem_of_getElem? he) htrue

/-! ### What is promised holds -/

section

variable {s : AnalysisState} {value : Expr → Option V}

theorem AnalysisState.Respects.column_present (h : s.Respects value) {id : Nat} (span : Span)
    (ref : ColumnRef) (hnotNull : s.nullFacts.column id = true) :
    value (.node id span (.column ref)) ≠ none := by
  obtain ⟨reference, hreference, hfact⟩ := (Option.any_eq_true _ _).1 hnotNull
  cases reference with
  | column bound =>
    obtain ⟨scope, hscope, hfact⟩ := (Option.any_eq_true _ _).1 hfact
    exact h.column id span ref bound scope hreference hscope hfact
  | label var notNull =>
    obtain rfl : notNull = true := hfact
    exact h.label id span ref var hreference

mutual

theorem Expr.present (h : s.Respects value) : ∀ e : Expr, e.notNull s.nullFacts = true →
    value e ≠ none
  | .node id span form, hnotNull => ExprForm.present h id span form hnotNull

theorem ExprForm.present (h : s.Respects value) (id : Nat) (span : Span) : ∀ form : ExprForm,
    form.notNull s.nullFacts id = true → value (.node id span form) ≠ none
  | .literal l, hnotNull => by
    have hnull := h.form id span (.literal l)
    rw [ExprForm.Admits] at hnull
    rw [ne_eq, hnull]
    simpa [ExprForm.notNull] using hnotNull
  | .column ref, hnotNull => h.column_present span ref hnotNull
  | .placeholder ordinal, hnotNull => by
    obtain ⟨facts, hfacts, htrue⟩ := (Option.any_eq_true _ _).1 hnotNull
    exact h.placeholder id span ordinal facts hfacts htrue
  | .unary op operand, hnotNull => h.form id span (.unary op operand) (operand.present h hnotNull)
  | .cast operand target, hnotNull =>
    h.form id span (.cast operand target) (operand.present h hnotNull)
  | .interval operand unit, hnotNull =>
    h.form id span (.interval operand unit) (operand.present h hnotNull)
  | .binary op left right, hnotNull => by
    refine h.form id span (.binary op left right) ?_
    rw [ExprForm.notNull, Bool.or_eq_true, decide_eq_true_eq, Bool.and_eq_true] at hnotNull
    exact hnotNull.imp_right fun hboth => ⟨left.present h hboth.1, right.present h hboth.2⟩
  | .isNull operand negated, _ => h.form id span (.isNull operand negated)
  | .isTruth operand truth negated, _ => h.form id span (.isTruth operand truth negated)
  | .existence query, _ => h.form id span (.existence query)
  | .inList operand list negated, hnotNull => by
    rw [ExprForm.notNull, Bool.and_eq_true] at hnotNull
    exact h.form id span (.inList operand list negated) ⟨operand.present h hnotNull.1,
      fun e he => Expr.presentEach h list e he (notNullList_all_iff.1 hnotNull.2 e he)⟩
  | .inQuery _ _ _, hnotNull => by cases hnotNull
  | .subquery _, hnotNull => by cases hnotNull
  | .between operand low high negated, hnotNull => by
    rw [ExprForm.notNull, Bool.and_eq_true, Bool.and_eq_true] at hnotNull
    exact h.form id span (.between operand low high negated)
      ⟨operand.present h hnotNull.1.1, low.present h hnotNull.1.2, high.present h hnotNull.2⟩
  | .like operand pattern escape negated, hnotNull => by
    rw [ExprForm.notNull, Bool.and_eq_true] at hnotNull
    exact h.form id span (.like operand pattern escape negated)
      ⟨operand.present h hnotNull.1, pattern.present h hnotNull.2⟩
  | .choice operand branches otherwise, hnotNull => by
    rw [ExprForm.notNull, Bool.and_eq_true] at hnotNull
    rcases h.form id span (.choice operand branches otherwise) with ⟨b, hb, heq⟩ | heq
    · rw [heq]
      exact Branch.presentEach h branches b hb (Branch.notNullAll_iff.1 hnotNull.1 b hb)
    · obtain ⟨e, he, hresult⟩ := Expr.notNullOption_iff.1 hnotNull.2
      rw [heq, he]
      exact Expr.presentOption h otherwise e he hresult
  | .call name args distinct star extras, hnotNull => by
    obtain ⟨signature, hsignature, hrule⟩ := (Option.any_eq_true _ _).1 hnotNull
    rw [Expr.notNullList_eq_map] at hrule
    exact (h.form id span (.call name args distinct star extras) signature hsignature).present
      (Expr.presentEach h args) hrule

theorem Expr.presentEach (h : s.Respects value) : ∀ es : List Expr, ∀ e ∈ es,
    e.notNull s.nullFacts = true → value e ≠ none
  | [], _, hmem => by cases hmem
  | first :: rest, e, hmem => by
    rcases mem_cons.1 hmem with heq | hrest
    · rw [heq]
      exact first.present h
    · exact Expr.presentEach h rest e hrest

theorem Expr.presentOption (h : s.Respects value) : ∀ o : Option Expr, ∀ e, o = some e →
    e.notNull s.nullFacts = true → value e ≠ none
  | none, _, heq => by cases heq
  | some only, e, heq => by
    rw [← Option.some.inj heq]
    exact only.present h

theorem Branch.presentEach (h : s.Respects value) : ∀ branches : List Branch, ∀ b ∈ branches,
    b.result.notNull s.nullFacts = true → value b.result ≠ none
  | [], _, hmem => by cases hmem
  | ⟨_, result⟩ :: rest, b, hmem => by
    rcases mem_cons.1 hmem with heq | hrest
    · rw [heq]
      exact result.present h
    · exact Branch.presentEach h rest b hrest

end

end

/-! ### Nothing more could be promised -/

/-- The evaluation with the fewest values: what is not certain to have a value is null. -/
def NullFacts.fewest (facts : NullFacts) (e : Expr) : Option Unit :=
  if e.notNull facts then some () else none

theorem NullFacts.fewest_ne_none {e : Expr} : facts.fewest e ≠ none ↔ e.notNull facts = true := by
  simp [NullFacts.fewest]

theorem NullFacts.fewest_congr {e e' : Expr} (h : e.notNull facts = e'.notNull facts) :
    facts.fewest e = facts.fewest e' := by
  rw [NullFacts.fewest, h, NullFacts.fewest]

theorem NullRule.admits_fewest (rule : NullRule) {e : Expr} {es : List Expr}
    (h : e.notNull facts = rule.evaluate (es.map (Expr.notNull facts))) :
    rule.Admits (es.map facts.fewest) (facts.fewest e) := by
  cases rule with
  | allArgs =>
    intro hargs
    rw [fewest_ne_none, h]
    refine all_eq_true.2 (forall_mem_map.2 fun arg harg => ?_)
    exact NullFacts.fewest_ne_none.1 (hargs _ (mem_map_of_mem harg))
  | always => exact NullFacts.fewest_ne_none.2 h
  | never => trivial
  | anyArg =>
    rintro ⟨_, hmem, hvalue⟩
    obtain ⟨arg, harg, rfl⟩ := mem_map.1 hmem
    rw [fewest_ne_none, h]
    exact any_eq_true.2
      ⟨_, mem_map_of_mem harg, NullFacts.fewest_ne_none.1 hvalue⟩
  | argsAt positions =>
    intro hargs
    rw [fewest_ne_none, h]
    refine all_eq_true.2 fun i hi => ?_
    have harg := hargs i hi
    rw [getElem?_map] at harg ⊢
    cases hat : es[i]? with
    | none => rfl
    | some arg =>
      rw [hat] at harg
      exact NullFacts.fewest_ne_none.1 (harg _ rfl)

theorem ExprForm.admits_fewest (facts : NullFacts) (id : Nat) (span : Span) (form : ExprForm) :
    form.Admits facts.fewest (facts.fewest (.node id span form)) := by
  cases form with
  | literal l => simp [ExprForm.Admits, NullFacts.fewest, Expr.notNull, ExprForm.notNull]
  | choice operand branches otherwise =>
    have hchoice : (Expr.node id span (.choice operand branches otherwise)).notNull facts =
      (Branch.notNullAll facts branches && Expr.notNullOption facts otherwise) := rfl
    by_cases hresults : Branch.notNullAll facts branches = true
    · refine .inr ?_
      rw [hresults, Bool.true_and] at hchoice
      cases otherwise with
      | none => exact if_neg (by simp [hchoice, Expr.notNullOption])
      | some result => exact fewest_congr hchoice
    · -- a result that can be null is null here, and so is the choice
      rw [Bool.eq_false_iff.2 hresults, Bool.false_and] at hchoice
      simp only [Branch.notNullAll_iff, Classical.not_forall] at hresults
      obtain ⟨b, hb, hnull⟩ := hresults
      exact .inl ⟨b, hb, fewest_congr (hchoice.trans (Bool.eq_false_iff.2 hnull).symm)⟩
  | call name args distinct star extras =>
    intro signature hsignature
    refine signature.notNull.admits_fewest ?_
    rw [Expr.notNull, ExprForm.notNull, hsignature, Option.any_some, Expr.notNullList_eq_map]
  | _ =>
    simp only [ExprForm.Admits, fewest_ne_none, Expr.notNull, ExprForm.notNull,
      Bool.and_eq_true, Bool.or_eq_true, decide_eq_true_eq, notNullList_all_iff, and_assoc,
      imp_self]

theorem AnalysisState.respects_fewest (s : AnalysisState) : s.Respects s.nullFacts.fewest where
  column id span ref bound scope hreference hscope hfact := by
    rw [fewest_ne_none]
    simp [Expr.notNull, ExprForm.notNull, nullFacts, hreference, referenceNotNull, hscope, hfact]
  label id span ref var hreference := by
    rw [fewest_ne_none]
    simp [Expr.notNull, ExprForm.notNull, nullFacts, hreference, referenceNotNull]
  placeholder id span ordinal facts hfacts hfact := by
    rw [fewest_ne_none]
    simp [Expr.notNull, ExprForm.notNull, nullFacts, parameterNotNull, hfacts, hfact]
  form := ExprForm.admits_fewest s.nullFacts

theorem Expr.notNull_eq_false_of_isOpen {e : Expr} (h : e.isOpen = true) :
    e.notNull facts = false := by
  obtain ⟨id, span, form⟩ := e
  cases form with
  | inQuery _ _ _ => rfl
  | subquery _ => rfl
  | call name args distinct star extras =>
    have hunknown : Function.signature? name = none := Option.isNone_iff_eq_none.1 h
    rw [Expr.notNull, ExprForm.notNull, hunknown, Option.any_none]
  | _ => cases h

/-- An expression is found to be not null exactly if it has a value in every evaluation that
respects what is found of columns and bound values, the forms of expressions and the rules of
functions. A query in the place of a value, `IN` with a query and a call of a function that is not
known are null in such an evaluation. -/
theorem Expr.notNull_iff_present (s : AnalysisState) (e : Expr) :
    (e.notNull s.nullFacts = true ↔
      ∀ (V : Type) (value : Expr → Option V), s.Respects value → value e ≠ none) ∧
    (e.isOpen = true → ∃ value : Expr → Option Unit, s.Respects value ∧ value e = none) := by
  refine ⟨⟨fun hnotNull V value h => e.present h hnotNull, fun hall => ?_⟩, fun hopen => ?_⟩
  · exact NullFacts.fewest_ne_none.1 (hall Unit s.nullFacts.fewest s.respects_fewest)
  · exact ⟨s.nullFacts.fewest, s.respects_fewest,
      if_neg (Bool.eq_false_iff.1 (notNull_eq_false_of_isOpen hopen))⟩

end SqlSignature
