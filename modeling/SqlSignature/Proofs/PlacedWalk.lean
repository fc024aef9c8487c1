import SqlSignature.Proofs.PlacedSteps
/-!
# SqlSignature.Proofs.PlacedWalk

The walk over a query that starts where another walk has ended. It succeeds if it does by itself,
and finds the same but for moved variables (`Analysis.carries_walkQuery`).
-/

open List

namespace SqlSignature

namespace Analysis

variable {input : AnalysisInput} {base : Solver} {own : Nat → Prop}

/-- All nodes have numbers that are `own`. -/
abbrev Within (own : Nat → Prop) (nodes : List Expr) : Prop := ∀ n ∈ nodes, own n.id

theorem Within.append {nodes more : List Expr} (h : Within own (nodes ++ more)) :
    Within own nodes ∧ Within own more :=
  List.forall_mem_append.1 h

/-- The conditions that the tables of a specification leave are made of own nodes. -/
abbrev OwnPredicates (own : Nat → Prop) (shape : TablesShape) : Prop :=
  ∀ e ∈ shape.predicates, Within own e.nodes

theorem OwnPredicates.addJoin {shape : TablesShape} (h : OwnPredicates own shape) (kind : JoinKind)
    (kept : Nat) (text : String) : OwnPredicates own (shape.addJoin kind kept text) := by
  unfold TablesShape.addJoin
  dsimp only
  split
  · exact fun e he => h e (mem_of_mem_take he)
  · exact h

theorem OwnPredicates.addCondition {shape : TablesShape} (h : OwnPredicates own shape)
    (kind : JoinKind) (joined : Nat) {condition : Expr} (hcondition : Within own condition.nodes) :
    OwnPredicates own (shape.addCondition kind joined condition) := by
  unfold TablesShape.addCondition
  intro e he
  dsimp only at he
  split at he
  · exact h e he
  · rcases List.mem_append.1 he with he | he
    · exact h e he
    · exact List.mem_singleton.1 he ▸ hcondition

theorem sortScope_rename {first first' : SpecShape} {branches branches' : List SpecShape}
    (hfirst : MovedSpec base first first')
    (hbranches : List.Forall₂ (MovedSpec base) branches branches') (columns : List ShapeColumn) :
    sortScope first' branches' (columns.map (·.rename base.shift)) =
      (sortScope first branches columns).rename base.shift := by
  cases hbranches with
  | nil =>
    unfold sortScope
    rw [hfirst.scope]
    rfl
  | cons _ _ =>
    have haliases : (columns.map (·.rename base.shift)).map ShapeColumn.toAlias =
        (columns.map ShapeColumn.toAlias).map (·.rename base.shift) := by
      rw [map_map, map_map]
      rfl
    unfold sortScope
    rw [haliases]
    rfl

theorem derivedSource_rename (label : String) (columns : List ShapeColumn) :
    derivedSource label (columns.map (·.rename base.shift)) =
      (derivedSource label columns).rename base.shift := by
  unfold derivedSource Source.rename
  simp only [map_map]
  rfl

theorem map_head?_columns {shape shape' : QueryShape}
    (h : MovedColumns base shape.columns shape'.columns) :
    shape'.columns.head?.toList.map ShapeColumn.var =
      (shape.columns.head?.toList.map ShapeColumn.var).map base.shift := by
  rw [h]
  cases shape.columns <;> rfl

variable (hn : input.resolver = none)

include hn

-- uses by the other members of the block are not seen
set_option linter.unusedSectionVars false in
mutual

theorem carries_walk : ∀ e : Expr, Within own e.nodes →
    Carries base own (walk input e) (walk input e) (Moved base)
  | .node id span form, h => by
    obtain ⟨he, hform⟩ := List.forall_mem_cons.1 h
    exact carries_walkForm id span form he hform

theorem carries_walkForm (id : Nat) (span : Span) :
    ∀ form : ExprForm, own id → Within own form.nodes →
      Carries base own (walkForm input (.node id span form) form)
        (walkForm input (.node id span form) form) (Moved base)
  | .literal value, he, _ => carries_fixed he _
  | .column column, _, _ => carries_bindColumn column
  | .placeholder ordinal, he, _ => carries_varOf he
  | .unary op operand, he, h => (carries_walk operand h).then fun v =>
    (isRule_unaryRule op (List.Subset.refl _)).carries hn he
  | .binary op left right, he, h => by
    refine (carries_walk left h.append.1).then fun l =>
      (carries_walk right h.append.2).then fun r => ?_
    split
    · exact (isRule_shiftRule _ (List.Subset.refl _)).carries hn he
    · exact (isRule_binaryRule op (List.Subset.refl _)).carries hn he
  | .isNull operand _, he, h => (carries_walk operand h).bind fun _ _ _ =>
    (@speaks_markNullableExpr _ [] operand).carries.bind fun _ _ _ => carries_fixed he _
  | .isTruth operand _ _, he, h => (carries_walk operand h).bind fun _ _ _ => carries_fixed he _
  | .inList operand list _, he, h => by
    refine (carries_walk operand h.append.1).then fun v =>
      (carries_walkElements v list h.append.2).bind fun _ _ _ => ?_
    dsimp only
    split
    · exact (@speaks_markList _ [] _).carries.bind fun _ _ _ => carries_fixed he _
    · exact carries_fixed he _
  | .inQuery operand query _, he, h => by
    refine (carries_walk operand h.append.1).then fun v =>
      (carries_walkQuery query h.append.2).bind fun shape shape' hshape => ?_
    rw [map_head?_columns hshape]
    exact (speaks_equateAll mem_cons_self (subset_cons_self _ _)).carries.bind
      fun _ _ _ => carries_fixed he _
  | .between operand low high _, he, h => by
    obtain ⟨hpair, hhigh⟩ := h.append
    exact (carries_walk operand hpair.append.1).then fun v =>
      (carries_walk low hpair.append.2).then fun l =>
        (carries_walk high hhigh).then fun k =>
          (speaks_equateAll mem_cons_self (subset_cons_self _ _)).carries.bind
            fun _ _ _ => carries_fixed he _
  | .like operand pattern escape _, he, h => by
    obtain ⟨hpair, hescape⟩ := h.append
    refine (carries_walk operand hpair.append.1).then fun v =>
      (carries_walk pattern hpair.append.2).then fun p =>
        (speaks_expectAll _ (List.Subset.refl [v, p])).carries.bind fun _ _ _ =>
          (carries_walkOption escape hescape).then fun w => ?_
    rw [Option.toList_map]
    exact (speaks_expectAll _ (List.Subset.refl w.toList)).carries.bind fun _ _ _ =>
      carries_fixed he _
  | .choice operand branches otherwise, he, h => by
    obtain ⟨hpair, hotherwise⟩ := h.append
    refine (carries_walkOption operand hpair.append.1).then fun value =>
      (carries_walkBranches value branches hpair.append.2).then fun results =>
        (carries_walkOption otherwise hotherwise).then fun other => ?_
    rw [Option.toList_map, ← map_append]
    exact carries_widened he _
  | .call name args _ _ _, he, h => (carries_walkList args h.append.1).then fun vars =>
    (isRule_callRule name args (List.Subset.refl _)).carries hn he
  | .cast operand target, he, h => (carries_walk operand h).bind fun _ _ _ => carries_fixed he _
  | .interval operand _, he, h => (carries_walk operand h).then fun v =>
    (carries_constrain (.expect v .bigInt)).bind fun _ _ _ => carries_fixed he _
  | .existence query, he, h => (carries_walkQuery query h).bind fun _ _ _ => carries_fixed he _
  | .subquery query, he, h => by
    refine (carries_walkQuery query h).bind fun shape shape' hshape => ?_
    rw [map_head?_columns hshape]
    exact carries_widened he _

theorem carries_walkList : ∀ es : List Expr,
    Within own (Expr.nodesList es) →
      Carries base own (walkList input es) (walkList input es) (MovedAll base)
  | [], _ => carries_pure rfl
  | e :: rest, h => (carries_walk e h.append.1).then fun _ =>
    (carries_walkList rest h.append.2).then fun _ => carries_pure rfl

theorem carries_walkOption : ∀ e : Option Expr,
    Within own (Expr.nodesOption e) →
      Carries base own (walkOption input e) (walkOption input e) fun a b => b = a.map base.shift
  | none, _ => carries_pure rfl
  | some e, h => (carries_walk e h).then fun _ => carries_pure rfl

theorem carries_walkElements (value : TypeVar) :
    ∀ es : List Expr, Within own (Expr.nodesList es) →
      Carries base own (walkElements input value es)
        (walkElements input (base.shift value) es) Any
  | [], _ => carries_pure trivial
  | e :: rest, h => (carries_walk e h.append.1).then fun v =>
    (carries_constrain (.equal value v)).bind fun _ _ _ =>
      carries_walkElements value rest h.append.2

theorem carries_walkBranches (value : Option TypeVar) :
    ∀ branches : List Branch, Within own (Branch.nodesList branches) →
      Carries base own (walkBranches input value branches)
        (walkBranches input (value.map base.shift) branches) (MovedAll base)
  | [], _ => carries_pure rfl
  | ⟨condition, result⟩ :: rest, h => by
    obtain ⟨hpair, hrest⟩ := h.append
    refine (carries_walk condition hpair.append.1).then fun c => ?_
    have htail : Carries base own (do
        let resultVar ← walk input result
        let vars ← walkBranches input value rest
        pure (resultVar :: vars)) (do
        let resultVar ← walk input result
        let vars ← walkBranches input (value.map base.shift) rest
        pure (resultVar :: vars)) (MovedAll base) :=
      (carries_walk result hpair.append.2).then fun r =>
        (carries_walkBranches value rest hrest).then fun vars => carries_pure rfl
    cases value with
    | some value => exact (carries_constrain (.equal value c)).bind fun _ _ _ => htail
    | none => exact htail

theorem carries_walkQuery : ∀ q : Query, Within own q.nodes →
    Carries base own (walkQuery input q) (walkQuery input q)
      fun a b => MovedColumns base a.columns b.columns
  | ⟨specs, _, orderBy, limit, _⟩, h => by
    obtain ⟨hpair, hlimit⟩ := h.append
    refine (carries_walkSpecs specs hpair.append.1).bind fun shapes shapes' hshapes => ?_
    cases hshapes with
    | nil => exact carries_throw _
    | cons hfirst hbranches =>
      refine (carries_unionColumns hfirst.columns hbranches).then fun columns => ?_
      rw [sortScope_rename hfirst hbranches]
      exact (carries_walkSortKeys orderBy hpair.append.2).inScope.bind fun _ _ _ =>
        (carries_walkLimit limit hlimit).bind fun _ _ _ => carries_pure rfl

theorem carries_walkSpecs : ∀ specs : List QuerySpec,
    Within own (QuerySpec.nodesList specs) →
      Carries base own (walkSpecs input specs) (walkSpecs input specs)
        (List.Forall₂ (MovedSpec base))
  | [], _ => carries_pure .nil
  | ⟨_, items, tables, filter, groupBy, having, _⟩ :: rest, h => by
    obtain ⟨hspec, hrest⟩ := h.append
    obtain ⟨hspec, hhaving⟩ := hspec.append
    obtain ⟨hspec, hgroupBy⟩ := hspec.append
    obtain ⟨hspec, hfilter⟩ := hspec.append
    obtain ⟨hitems, htables⟩ := hspec.append
    have hscope {step step' : Analysis (List ShapeColumn × Layout × Bool)}
        (h : Carries base own step step' fun a b => MovedColumns base a.1 b.1) :
        Carries base own (inScope {} step) (inScope {} step') fun r r' =>
          MovedColumns base r.1.1 r'.1.1 ∧ r'.2 = r.2.rename base.shift := h.inScope
    refine (hscope ?_).bind fun found found' hfound =>
      (carries_walkSpecs rest hrest).bind fun shapes shapes' hshapes =>
        carries_pure (.cons ⟨hfound.1, hfound.2⟩ hshapes)
    refine (carries_noteClause input tables).bind fun _ _ _ => ?_
    have hnone : OwnPredicates own {} := nofun
    refine (carries_walkTables tables hnone htables).bind ?_
    rintro joined _ ⟨rfl, hjoined⟩
    refine (carries_walkOption filter hfilter).bind fun _ _ _ => ?_
    refine (carries_noteProven ?_).bind fun _ _ _ => ?_
    · intro e he
      rcases List.mem_append.1 he with he | he
      · exact hjoined e he
      · rw [Option.mem_toList] at he
        rw [he] at hfilter
        exact hfilter
    have hempty : MovedColumns base ({} : SelectionShape).columns ({} : SelectionShape).columns :=
      rfl
    refine (carries_walkItems items hempty hitems).bind fun _ _ hselected => ?_
    refine Carries.bind (carries_modifyScope ?_) fun _ _ _ => ?_
    · exact fun _ => rfl
    refine (carries_walkList groupBy hgroupBy).bind fun _ _ _ =>
      (carries_walkOption having hhaving).bind fun _ _ _ =>
        carries_get fun _ _ _ => carries_pure hselected

theorem carries_walkItems :
    ∀ (items : List SelectItem) {shape shape' : SelectionShape},
      MovedColumns base shape.columns shape'.columns → Within own (SelectItem.nodesList items) →
        Carries base own (walkItems input shape items) (walkItems input shape' items)
          fun a b => MovedColumns base a.columns b.columns
  | [], _, _, hshape, _ => carries_pure hshape
  | .all span :: rest, _, _, hshape, h =>
    (carries_selectBound input hshape Scopes.expandAll_rename span).bind fun _ _ hshape =>
      carries_walkItems rest hshape h
  | .allOf table span :: rest, _, _, hshape, h =>
    (carries_selectBound input hshape (Scopes.expandTable_rename · table) span).bind
      fun _ _ hshape => carries_walkItems rest hshape h
  | .expr value label span :: rest, _, _, hshape, h =>
    (carries_walk value h.append.1).then fun v =>
      (carries_selectExpr input hshape h.append.1 v label span).bind fun _ _ hshape =>
        carries_walkItems rest hshape h.append.2

theorem carries_walkTables :
    ∀ (tables : List TableRef) {shape : TablesShape}, OwnPredicates own shape →
      Within own (TableRef.nodesList tables) →
        Carries base own (walkTables input shape tables) (walkTables input shape tables)
          fun a b => b = a ∧ OwnPredicates own a
  | [], _, hshape, _ => carries_pure ⟨rfl, hshape⟩
  | ⟨factor, joins, _⟩ :: rest, shape, hshape, h => by
    obtain ⟨hpair, hrest⟩ := h.append
    have hitem : OwnPredicates own (shape.addItem (factor.span.text input.text)) := hshape
    refine (carries_walkFactor factor hpair.append.1).then fun source =>
      (carries_pushSource source).then fun first => ?_
    refine (carries_walkJoins first _ joins hitem hpair.append.2).bind ?_
    rintro shape _ ⟨rfl, hshape⟩
    exact carries_walkTables rest hshape hrest

theorem carries_walkJoins (first kept : Nat) :
    ∀ (joins : List Join) {shape : TablesShape}, OwnPredicates own shape →
      Within own (Join.nodesList joins) →
        Carries base own (walkJoins input first kept shape joins)
          (walkJoins input first kept shape joins) fun a b => b = a ∧ OwnPredicates own a
  | [], _, hshape, _ => carries_pure ⟨rfl, hshape⟩
  | ⟨kind, factor, constraint, _⟩ :: rest, shape, hshape, h => by
    obtain ⟨hpair, hrest⟩ := h.append
    refine (carries_walkFactor factor hpair.append.1).then fun source =>
      (carries_pushSource source).then fun joined => ?_
    refine (carries_pad kind first joined).bind fun _ _ _ => ?_
    refine (carries_walkConstraint kind joined constraint ?_ hpair.append.2).bind ?_
    · exact hshape.addJoin kind kept _
    · rintro shape _ ⟨rfl, hshape⟩
      exact carries_walkJoins first kept rest hshape hrest

theorem carries_walkConstraint (kind : JoinKind) (joined : Nat) :
    ∀ (constraint : JoinConstraint) {shape : TablesShape}, OwnPredicates own shape →
      Within own constraint.nodes →
        Carries base own (walkConstraint input kind joined shape constraint)
          (walkConstraint input kind joined shape constraint) fun a b => b = a ∧ OwnPredicates own a
  | .on condition, _, hshape, h => (carries_walk condition h).bind fun _ _ _ =>
    carries_pure ⟨rfl, hshape.addCondition kind joined h⟩
  | .shared columns, _, hshape, _ => (carries_shareColumns joined columns).bind fun _ _ _ =>
    carries_pure ⟨rfl, hshape⟩
  | .none, _, hshape, _ => carries_pure ⟨rfl, hshape⟩

theorem carries_walkFactor : ∀ factor : TableFactor,
    Within own factor.nodes →
      Carries base own (walkFactor input factor) (walkFactor input factor)
        fun a b => b = a.rename base.shift
  | .table schema name label _, _ => carries_tableSource input schema name label
  | .derived query label _, h => (carries_walkQuery query h).isolated.bind
      fun shape shape' hshape => carries_pure (by rw [hshape, derivedSource_rename])

theorem carries_walkSortKeys : ∀ keys : List SortKey,
    Within own (SortKey.nodesList keys) →
      Carries base own (walkSortKeys input keys) (walkSortKeys input keys) Any
  | [], _ => carries_pure trivial
  | ⟨expr, _⟩ :: rest, h => (carries_walk expr h.append.1).bind fun _ _ _ =>
    carries_walkSortKeys rest h.append.2

theorem carries_walkLimit : ∀ limit : Option Limit,
    Within own (Limit.nodesOption limit) →
      Carries base own (walkLimit input limit) (walkLimit input limit) Any
  | none, _ => carries_pure trivial
  | some ⟨count, offset⟩, h => by
    refine (carries_walk count h.append.1).then fun v =>
      (carries_constrain (.expect v .bigInt)).bind fun _ _ _ =>
        (carries_walkOption offset h.append.2).then fun w => ?_
    rw [Option.toList_map]
    exact (speaks_expectAll _ (List.Subset.refl w.toList)).carries

end

end Analysis

end SqlSignature
