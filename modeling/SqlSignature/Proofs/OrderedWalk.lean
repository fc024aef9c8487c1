import SqlSignature.Proofs.ParameterSlots
import SqlSignature.Proofs.TracedStatement
import SqlSignature.Proofs.WalkOrder
/-!
# SqlSignature.Proofs.OrderedWalk

Walks over whole trees keep the order of constraints. The walk over an expression goes through its
nodes, operands first, and gives out the variable of the expression; that over a query gives out the
variables of its columns. So the constraints of a statement that was read are ordered, and without a
resolver no set of types is noted (`Statement.orderly_of_walked`).
-/

open List

namespace SqlSignature

namespace Analysis

variable {Θ : Terms} {needs : List TypeVar} {nodes : List Expr}

variable {α : Type} {step : Analysis α} {out : α → List TypeVar}

/-- A node comes after those below it. -/
theorem Orders.last {e : Expr} (h : Orders Θ needs (nodes ++ [e]) step out) :
    Orders Θ needs (e :: nodes) step out :=
  h.perm (perm_append_singleton e nodes)

/-- What a step gives is put together. -/
theorem Orders.map {β : Type} {out' : β → List TypeVar} {f : α → β}
    (h : Orders Θ needs nodes step out) (hf : ∀ a, out' (f a) ⊆ needs ++ out a) :
    Orders Θ needs nodes (step >>= fun a => pure (f a)) out' := by
  have hbind := h.bind fun a => orders_pure (a := f a) (hf a)
  rwa [append_nil] at hbind

/-- A quiet step comes last. -/
theorem Orders.quiet {next : α → Analysis Unit} (h : Orders Θ needs nodes step out)
    (hnext : ∀ a, Quiet Θ (needs ++ out a) (next a)) :
    Orders Θ needs nodes (step >>= next) fun _ => [] := by
  have hbind := h.bind fun a => (hnext a).orders
  rwa [append_nil] at hbind

/-- The variable of the first column. -/
theorem firstColumn_subset (shape : QueryShape) :
    shape.columns.head?.toList.map ShapeColumn.var ⊆ shape.columns.map ShapeColumn.var := by
  refine map_subset _ ?_
  cases shape.columns with
  | nil => exact nil_subset _
  | cons first rest => exact cons_subset.2 ⟨mem_cons_self, nil_subset _⟩

theorem sortScope_vars {first : SpecShape} {branches : List SpecShape} {columns : List ShapeColumn}
    (hfirst : first.vars ⊆ needs) (hcolumns : columns.map ShapeColumn.var ⊆ needs) :
    (sortScope first branches columns).vars ⊆ needs := by
  unfold sortScope
  dsimp only
  split
  · exact fun v hv => hfirst (mem_append_right _ hv)
  · intro v hv
    simp only [Scope.vars, flatMap_nil, nil_append, map_map] at hv
    exact hcolumns hv

mutual

/-- The walk over an expression goes through its nodes and gives out its variable. -/
theorem orders_walk : ∀ (e : Expr) {needs : List TypeVar},
    Orders Θ needs e.nodes (walk Θ.input e) fun v => [v]
  | .node id span form, _ => orders_walkForm id span form

theorem orders_walkForm (id : Nat) (span : Span) : ∀ (form : ExprForm) {needs : List TypeVar},
    Orders Θ needs (.node id span form :: form.nodes)
      (walkForm Θ.input (.node id span form) form) fun v => [v]
  | .literal value, _ => orders_fixed rfl _
  | .column column, _ => orders_bindColumn column
  | .placeholder ordinal, _ => orders_varOf_placeholder id span ordinal
  | .unary op operand, _ => .last ((orders_walk operand).bind fun v =>
    (isRule_unaryRule op (subset_append_right _ _)).orders rfl)
  | .binary op left right, _ => by
    refine .last ?_
    rw [ExprForm.nodes, append_assoc]
    refine (orders_walk left).bind fun l => (orders_walk right).bind fun r => ?_
    split
    · exact (isRule_shiftRule _ (by simp)).orders rfl
    · exact (isRule_binaryRule op (by simp)).orders rfl
  | .isNull operand _, _ => .last ((orders_walk operand).bind fun _ =>
    (speaks_markNullableExpr operand).quiet.then fun _ => orders_fixed rfl _)
  | .isTruth operand _ _, _ => .last ((orders_walk operand).bind fun _ => orders_fixed rfl _)
  | .inList operand list _, _ => by
    refine .last ?_
    rw [ExprForm.nodes, append_assoc]
    refine (orders_walk operand).bind fun v =>
      (orders_walkElements v list (mem_append_right _ mem_cons_self)).bind fun _ => ?_
    dsimp only
    split
    · exact (speaks_markList _).quiet.then fun _ => orders_fixed rfl _
    · exact orders_fixed rfl _
  | .inQuery operand query _, _ => by
    refine .last ?_
    rw [ExprForm.nodes, append_assoc]
    refine (orders_walk operand).bind fun v => (orders_walkQuery query).bind fun shape => ?_
    refine (speaks_equateAll (by simp) ?_).quiet.then fun _ => orders_fixed rfl _
    exact subset_append_of_subset_right _ (firstColumn_subset shape)
  | .between operand low high _, _ => by
    refine .last ?_
    rw [ExprForm.nodes, append_assoc, append_assoc]
    refine (orders_walk operand).bind fun v => (orders_walk low).bind fun l =>
      (orders_walk high).bind fun h => ?_
    exact (speaks_equateAll (by simp) (by simp)).quiet.then fun _ => orders_fixed rfl _
  | .like operand pattern escape _, _ => by
    refine .last ?_
    rw [ExprForm.nodes, append_assoc, append_assoc]
    refine (orders_walk operand).bind fun v => (orders_walk pattern).bind fun p => ?_
    refine (speaks_expectAll _ (by simp)).quiet.then fun _ =>
      (orders_walkOption escape).bind fun w => ?_
    exact (speaks_expectAll _ (subset_append_right _ _)).quiet.then fun _ => orders_fixed rfl _
  | .choice operand branches otherwise, _ => by
    refine .last ?_
    rw [ExprForm.nodes, append_assoc, append_assoc]
    refine (orders_walkOption operand).bind fun value =>
      (orders_walkBranches value branches (subset_append_right _ _)).bind fun results =>
        (orders_walkOption otherwise).bind fun other => orders_widened rfl ?_
    exact append_subset.2 ⟨subset_append_of_subset_left _ (subset_append_right _ _),
      subset_append_right _ _⟩
  | .call name args _ _ extras, _ => by
    -- the sort keys and the separator are passed over
    refine .last ?_
    rw [ExprForm.nodes, append_assoc]
    refine Orders.perm ?_ (perm_append_comm.append_left _)
    rw [← append_assoc]
    exact .passing _ ((orders_walkList args).bind fun vars =>
      (isRule_callRule name args (subset_append_right _ _)).orders rfl)
  | .cast operand target, _ => .last ((orders_walk operand).bind fun _ => orders_fixed rfl target)
  | .interval operand _, _ => .last ((orders_walk operand).bind fun v =>
    (quiet_expect _ (mem_append_right _ mem_cons_self)).then fun _ =>
      orders_fixed rfl _)
  | .existence query, _ => .last ((orders_walkQuery query).bind fun _ => orders_fixed rfl _)
  | .subquery query, _ => .last ((orders_walkQuery query).bind fun shape => orders_widened rfl
      (subset_append_of_subset_right _ (firstColumn_subset shape)))

theorem orders_walkList : ∀ (es : List Expr) {needs : List TypeVar},
    Orders Θ needs (Expr.nodesList es) (walkList Θ.input es) fun vars => vars
  | [], _ => orders_pure (nil_subset _)
  | e :: rest, _ => (orders_walk e).bind fun v => (orders_walkList rest).map fun vars =>
    cons_subset.2 ⟨by simp, subset_append_right _ _⟩

theorem orders_walkOption : ∀ (e : Option Expr) {needs : List TypeVar},
    Orders Θ needs (Expr.nodesOption e) (walkOption Θ.input e) Option.toList
  | none, _ => orders_pure (nil_subset _)
  | some e, _ => (orders_walk e).map fun _ => subset_append_right _ _

theorem orders_walkElements (value : TypeVar) : ∀ (es : List Expr) {needs : List TypeVar},
    value ∈ needs →
      Orders Θ needs (Expr.nodesList es) (walkElements Θ.input value es) fun _ => []
  | [], _, _ => orders_pure (nil_subset _)
  | e :: rest, _, hvalue => (orders_walk e).bind fun v =>
    (quiet_equate (mem_append_left _ hvalue) (by simp)).then fun _ =>
      orders_walkElements value rest (mem_append_left _ hvalue)

theorem orders_walkBranches (value : Option TypeVar) :
    ∀ (branches : List Branch) {needs : List TypeVar}, value.toList ⊆ needs →
      Orders Θ needs (Branch.nodesList branches) (walkBranches Θ.input value branches)
        fun vars => vars
  | [], _, _ => orders_pure (nil_subset _)
  | ⟨condition, result⟩ :: rest, needs, hvalue => by
    rw [Branch.nodesList, append_assoc]
    refine (orders_walk condition).bind fun c => ?_
    have hrest : Orders Θ (needs ++ [c]) _ (do
        let resultVar ← walk Θ.input result
        let vars ← walkBranches Θ.input value rest
        pure (resultVar :: vars)) (fun vars => vars) :=
      (orders_walk result).bind fun r => (orders_walkBranches value rest
        (subset_append_of_subset_left _ (subset_append_of_subset_left _ hvalue))).map
          fun vars => cons_subset.2 ⟨by simp, subset_append_right _ _⟩
    cases value with
    | some value =>
      have hmem := (cons_subset.1 hvalue).1
      exact (quiet_equate (mem_append_left _ hmem) (by simp)).then fun _ => hrest
    | none => exact hrest

/-- The walk over a query goes through its nodes and gives out the variables of its columns. -/
theorem orders_walkQuery : ∀ (q : Query) {needs : List TypeVar},
    Orders Θ needs q.nodes (walkQuery Θ.input q) fun shape =>
      shape.columns.map ShapeColumn.var
  | ⟨specs, _, orderBy, limit, _⟩, needs => by
    rw [Query.nodes, append_assoc]
    refine (orders_walkSpecs specs).bind fun shapes => ?_
    cases shapes with
    | nil => exact orders_throw _
    | cons first branches =>
      have hfirst : first.vars ⊆ needs ++ (first :: branches).flatMap SpecShape.vars :=
        subset_append_of_subset_right _ (subset_append_left _ _)
      have hbranches : branches.flatMap SpecShape.vars ⊆
          needs ++ (first :: branches).flatMap SpecShape.vars :=
        subset_append_of_subset_right _ (subset_append_right _ _)
      refine Orders.andThen (orders_unionColumns
        (fun v hv => hfirst (mem_append_left _ hv)) hbranches) fun columns => ?_
      refine ((orders_walkSortKeys orderBy).inScope (sortScope_vars
        (subset_append_of_subset_left _ hfirst) (subset_append_right _ _))).bind fun _ =>
          (orders_walkLimit limit).map fun _ => ?_
      exact subset_append_of_subset_left _ (subset_append_of_subset_left _
        (subset_append_right _ _))

theorem orders_walkSpecs : ∀ (specs : List QuerySpec) {needs : List TypeVar},
    Orders Θ needs (QuerySpec.nodesList specs) (walkSpecs Θ.input specs)
      (List.flatMap SpecShape.vars)
  | [], _ => orders_pure (nil_subset _)
  | ⟨_, items, tables, filter, groupBy, having, _⟩ :: rest, needs => by
    -- the tables and the filter come before the select list
    have horder : (TableRef.nodesList tables ++ (Expr.nodesOption filter ++
        (SelectItem.nodesList items ++ (Expr.nodesList groupBy ++ Expr.nodesOption having)))).Perm
        (SelectItem.nodesList items ++ TableRef.nodesList tables ++ Expr.nodesOption filter ++
          Expr.nodesList groupBy ++ Expr.nodesOption having) := by
      simp only [append_assoc]
      exact ((perm_append_comm_assoc ..).append_left _).trans (perm_append_comm_assoc ..)
    have hscope {step : Analysis (List ShapeColumn × Layout × Bool)} {nodes : List Expr}
        (h : Orders Θ needs nodes step fun found => found.1.map ShapeColumn.var) :
        Orders Θ needs nodes (inScope {} step) fun found =>
          found.1.1.map ShapeColumn.var ++ found.2.vars := h.inScope (nil_subset _)
    refine (hscope (Orders.perm ?_ horder)).bind fun found =>
      (orders_walkSpecs rest).map fun shapes => ?_
    · refine (quiet_noteClause tables).then fun _ => ?_
      refine (orders_walkTables {} tables).bind fun joined => ?_
      refine (orders_walkOption filter).bind fun _ => ?_
      refine (quiet_noteProven _).then fun _ => ?_
      refine (orders_walkItems items {} (nil_subset _)).bind fun selected => ?_
      refine Quiet.then (quiet_modifyScope_of_eq ?_ ?_) fun _ => ?_
      · exact fun _ => rfl
      · exact fun _ => rfl
      refine (orders_walkList groupBy).bind fun _ => ?_
      rw [← append_nil (Expr.nodesOption having)]
      refine (orders_walkOption having).bind fun _ => quiet_get.then fun s => orders_pure ?_
      exact subset_append_of_subset_left _ (subset_append_of_subset_left _
        (subset_append_right _ _))
    · rw [flatMap_cons]
      exact append_subset.2 ⟨subset_append_of_subset_left _
        (subset_append_right _ _), subset_append_right _ _⟩

theorem orders_walkItems : ∀ (items : List SelectItem) (shape : SelectionShape)
    {needs : List TypeVar}, shape.vars ⊆ needs →
      Orders Θ needs (SelectItem.nodesList items) (walkItems Θ.input shape items)
        SelectionShape.vars
  | [], _, _, hshape => orders_pure hshape
  | .all span :: rest, _, _, hshape => Orders.andThen
      (orders_selectBound span Scopes.expands_expandAll hshape) fun shape =>
        orders_walkItems rest shape (subset_append_right _ _)
  | .allOf table span :: rest, _, _, hshape => Orders.andThen
      (orders_selectBound span (Scopes.expands_expandTable table) hshape) fun shape =>
        orders_walkItems rest shape (subset_append_right _ _)
  | .expr value label span :: rest, _, _, hshape => (orders_walk value).bind fun v =>
    Orders.andThen (orders_selectExpr label span
      (subset_append_of_subset_left _ hshape) (by simp)) fun shape =>
        orders_walkItems rest shape (subset_append_right _ _)

theorem orders_walkTables (shape : TablesShape) : ∀ (tables : List TableRef)
    {needs : List TypeVar}, Orders Θ needs (TableRef.nodesList tables)
      (walkTables Θ.input shape tables) fun _ => []
  | [], _ => orders_pure (nil_subset _)
  | ⟨factor, joins, _⟩ :: rest, _ => by
    rw [TableRef.nodesList, append_assoc]
    exact (orders_walkFactor factor).bind fun source =>
      (quiet_pushSource (subset_append_right _ _)).then fun first =>
        (orders_walkJoins first _ joins _).bind fun shape => orders_walkTables shape rest

theorem orders_walkJoins (first kept : Nat) : ∀ (joins : List Join) (shape : TablesShape)
    {needs : List TypeVar}, Orders Θ needs (Join.nodesList joins)
      (walkJoins Θ.input first kept shape joins) fun _ => []
  | [], _, _ => orders_pure (nil_subset _)
  | ⟨kind, factor, constraint, _⟩ :: rest, _, _ => by
    rw [Join.nodesList, append_assoc]
    exact (orders_walkFactor factor).bind fun source =>
      (quiet_pushSource (subset_append_right _ _)).then fun joined =>
        (quiet_pad kind first joined).then fun _ =>
          (orders_walkConstraint kind joined _ constraint).bind fun shape =>
            orders_walkJoins first kept rest shape

theorem orders_walkConstraint (kind : JoinKind) (joined : Nat) (shape : TablesShape) :
    ∀ (constraint : JoinConstraint) {needs : List TypeVar},
      Orders Θ needs constraint.nodes
        (walkConstraint Θ.input kind joined shape constraint) fun _ => []
  | .on condition, _ => (orders_walk condition).map fun _ => nil_subset _
  | .shared columns, _ => (quiet_shareColumns joined columns).then fun _ =>
    orders_pure (nil_subset _)
  | .none, _ => orders_pure (nil_subset _)

theorem orders_walkFactor : ∀ (factor : TableFactor) {needs : List TypeVar},
    Orders Θ needs factor.nodes (walkFactor Θ.input factor) Source.vars
  | .table schema name label _, _ => orders_tableSource schema name label
  | .derived query label _, _ => (orders_walkQuery query).isolated.map fun shape => by
    rw [Source.vars, derivedSource, map_map]
    exact subset_append_right _ _

theorem orders_walkSortKeys : ∀ (keys : List SortKey) {needs : List TypeVar},
    Orders Θ needs (SortKey.nodesList keys) (walkSortKeys Θ.input keys) fun _ => []
  | [], _ => orders_pure (nil_subset _)
  | ⟨expr, _⟩ :: rest, _ => (orders_walk expr).bind fun _ => orders_walkSortKeys rest

theorem orders_walkLimit : ∀ (limit : Option Limit) {needs : List TypeVar},
    Orders Θ needs (Limit.nodesOption limit) (walkLimit Θ.input limit) fun _ => []
  | none, _ => orders_pure (nil_subset _)
  | some ⟨count, offset⟩, _ => (orders_walk count).bind fun v =>
    (quiet_expect _ (by simp)).then fun _ => (orders_walkOption offset).quiet fun _ =>
      (speaks_expectAll _ (subset_append_right _ _)).quiet

end

/-! ### Modifications -/

variable {needs : List TypeVar} {targets : List Target}

theorem orders_assignValue (hmay : Θ.mayHint) {target : Target} (htarget : target.var ∈ needs)
    (value : Expr) : Orders Θ needs value.nodes (assignValue Θ.input target value) fun _ => [] := by
  have hmem : ∀ {v : TypeVar}, target.var ∈ needs ++ [v] := mem_append_left _ htarget
  rw [← append_nil value.nodes]
  refine (orders_walk value).bind fun v => ?_
  have hslots : Orders Θ (needs ++ [v]) [] (do
      let s ← get
      pure { parameters := value.ordinals.map (parameterSlot s) } : Analysis Slots) fun _ => [] :=
    quiet_get.then fun _ => orders_pure (nil_subset _)
  dsimp only
  split
  · exact (quiet_equate (by simp) hmem).then fun _ => orders_pure (nil_subset _)
  · refine (quiet_hint hmay (by simp) hmem).then fun _ => ?_
    split
    · exact hslots
    · exact (speaks_markNullableOrdinals _).quiet.then fun _ => hslots

theorem orders_assignRow (hmay : Θ.mayHint) (htargets : targets.map Target.var ⊆ needs)
    (values : List Expr) :
    Orders Θ needs (values.flatMap Expr.nodes) (assignRow Θ.input targets values)
      fun _ => [] := by
  induction targets generalizing values needs with
  | nil =>
    rw [← nil_append (values.flatMap _)]
    exact .passing _ (orders_pure (nil_subset _))
  | cons target targets ih =>
    obtain ⟨htarget, hrest⟩ := cons_subset.1 htargets
    cases values with
    | nil => exact orders_pure (nil_subset _)
    | cons value values =>
      rw [flatMap_cons]
      exact (orders_assignValue hmay htarget value).bind fun _ =>
        (ih (subset_append_of_subset_left _ hrest) values).map fun _ => nil_subset _

theorem orders_assignRows (hmay : Θ.mayHint) (htargets : targets.map Target.var ⊆ needs)
    (rows : List (List Expr)) :
    Orders Θ needs (rows.flatMap fun row => row.flatMap Expr.nodes)
      (assignRows Θ.input targets rows) fun _ => [] := by
  induction rows generalizing needs with
  | nil => exact orders_pure (nil_subset _)
  | cons row rest ih =>
    rw [flatMap_cons]
    exact (orders_assignRow hmay htargets row).bind fun _ =>
      (ih (subset_append_of_subset_left _ htargets)).map fun _ => nil_subset _

theorem orders_assignmentTarget (a : Assignment) :
    Orders Θ needs [] (assignmentTarget a) fun target => [target.var] := by
  intro done uses hneeds hnodup s target s' hs hrun
  obtain ⟨bound, hresolve, hvar, rfl⟩ := assignmentTarget_eq_ok hrun
  obtain ⟨scope, hscope, hmem⟩ := (Scopes.offers_resolve hresolve).mem_vars
  rw [map_nil, append_nil]
  refine hs.extend _ fun v hv => ?_
  rw [mem_singleton.1 hv, hvar]
  exact hs.offered scope hscope _ hmem

theorem quiet_assignColumns {columns : List ShapeColumn} (htargets : targets.map Target.var ⊆ needs)
    (hcolumns : columns.map ShapeColumn.var ⊆ needs) :
    Quiet Θ needs (assignColumns targets columns) := by
  induction targets generalizing columns with
  | nil => exact quiet_pure ()
  | cons target targets ih =>
    obtain ⟨htarget, hrest⟩ := cons_subset.1 htargets
    cases columns with
    | nil => exact quiet_pure ()
    | cons column columns =>
      obtain ⟨hcolumn, hothers⟩ := cons_subset.1 hcolumns
      refine (quiet_equate hcolumn htarget).bind fun _ => ?_
      dsimp only
      split
      · exact ih hrest hothers
      · split
        · exact (speaks_markNullableExpr _).quiet.bind fun _ => ih hrest hothers
        · exact ih hrest hothers

theorem orders_assignSource (hmay : Θ.mayHint) (htargets : targets.map Target.var ⊆ needs)
    (source : InsertSource) :
    Orders Θ needs source.nodes (assignSource Θ.input targets source) fun _ => [] := by
  cases source with
  | values rows => exact orders_assignRows hmay htargets rows
  | query q =>
    rw [InsertSource.nodes, ← append_nil q.nodes]
    refine (orders_walkQuery q).isolated.bind fun shape => ?_
    exact (quiet_assignColumns (subset_append_of_subset_left _ htargets)
      (subset_append_right _ _)).then fun _ => quiet_get.then fun _ =>
        orders_pure (nil_subset _)

theorem orders_assignDuplicates (hmay : Θ.mayHint) (as : List Assignment) :
    Orders Θ needs (as.flatMap Assignment.nodes) (assignDuplicates Θ.input as)
      fun _ => [] := by
  induction as generalizing needs with
  | nil => exact orders_pure (nil_subset _)
  | cons a rest ih =>
    rw [flatMap_cons]
    exact Orders.andThen (orders_assignmentTarget a) fun target =>
      (orders_assignValue hmay (by simp) a.value).bind fun _ => ih.map fun _ => nil_subset _

theorem orders_updateColumn (hmay : Θ.mayHint) (a : Assignment) :
    Orders Θ needs a.nodes (updateColumn Θ.input a) fun _ => [] := by
  refine Orders.andThen (orders_assignmentTarget a) fun target => ?_
  split
  · exact orders_assignValue hmay (by simp) a.value
  · show Orders Θ _ a.value.nodes _ _
    rw [← append_nil a.value.nodes]
    exact (orders_walk a.value).bind fun v => (quiet_hint hmay (by simp) (by simp)).then fun _ =>
      quiet_get.then fun _ => orders_pure (nil_subset _)

theorem orders_updateColumns (hmay : Θ.mayHint) (as : List Assignment) :
    Orders Θ needs (as.flatMap Assignment.nodes) (updateColumns Θ.input as)
      fun _ => [] := by
  induction as generalizing needs with
  | nil => exact orders_pure (nil_subset _)
  | cons a rest ih =>
    rw [flatMap_cons]
    exact (orders_updateColumn hmay a).bind fun _ => ih.map fun _ => nil_subset _

theorem orders_walkFilter (filter : Option Expr) :
    Orders Θ needs (Expr.nodesOption filter) (walkFilter Θ.input filter) fun _ => [] := by
  cases filter with
  | none => exact orders_pure (nil_subset _)
  | some e =>
    rw [Expr.nodesOption, ← append_nil e.nodes]
    exact (orders_walk e).bind fun _ => quiet_get.then fun _ => orders_pure (nil_subset _)

theorem namedTargets_vars {source : Source} {names : List String}
    (h : namedTargets source names = .ok targets) : targets.map Target.var ⊆ source.vars := by
  induction names generalizing targets with
  | nil => cases h; exact nil_subset _
  | cons name names ih =>
    rw [namedTargets] at h
    split at h
    next index column hcolumn =>
      cases hrest : namedTargets source names with
      | error e => rw [hrest] at h; cases h
      | ok rest =>
        rw [hrest] at h
        cases h
        exact cons_subset.2 ⟨mem_map_of_mem
          (mem_of_getElem? (Source.column?_eq_some_iff.1 hcolumn).1), ih hrest⟩
    next => cases h

theorem insertionTargets_vars {source : Source} {names : List String}
    (h : insertionTargets source names = .ok targets) : targets.map Target.var ⊆ source.vars := by
  unfold insertionTargets at h
  split at h
  · cases h
    rw [map_map]
    exact List.Subset.refl _
  · exact namedTargets_vars h

theorem orders_ofExcept {x : Except AnalysisError α} (h : ∀ a, x = .ok a → out a ⊆ needs) :
    Orders Θ needs [] (ofExcept x) out := by
  cases x with
  | ok a => exact orders_pure (h a rfl)
  | error e => exact orders_throw e

/-- The walk over a modification, in the scope of its tables. -/
theorem orders_modification {body : Analysis Slots} {type : StatementType} {merge : MergeRule}
    (h : Orders Θ needs nodes body fun _ => []) :
    Orders Θ needs nodes (do
      let (slots, _) ← inScope {} body
      return { type, slots, merge } : Analysis ModificationShape) fun _ => [] :=
  (h.inScope (nil_subset _)).map fun _ => nil_subset _

theorem orders_insertionTargets (source : Source) (names : List String)
    (hsource : source.vars ⊆ needs) :
    Orders Θ needs [] (ofExcept (insertionTargets source names))
      (List.map Target.var) :=
  orders_ofExcept fun _ h _ hv => hsource (insertionTargets_vars h hv)

theorem orders_walkInsertion (hmay : Θ.mayHint) (i : Insertion) :
    Orders Θ needs (i.source.nodes ++ i.onDuplicate.flatMap Assignment.nodes)
      (walkInsertion Θ.input i) fun _ => [] := by
  refine orders_modification ?_
  refine Orders.andThen (orders_tableSource _ _ _) fun source => ?_
  refine (quiet_pushSource (subset_append_right _ _)).then fun _ => ?_
  refine Orders.andThen (orders_insertionTargets source _ (subset_append_right _ _))
    fun targets => ?_
  exact (orders_assignSource hmay (subset_append_right _ _) i.source).bind fun _ =>
    (orders_assignDuplicates hmay i.onDuplicate).map fun _ => nil_subset _

theorem orders_walkUpdate (hmay : Θ.mayHint) (u : Update) :
    Orders Θ needs (TableRef.nodesList u.tables ++
      u.assignments.flatMap Assignment.nodes ++ Expr.nodesOption u.filter)
      (walkUpdate Θ.input u) fun _ => [] := by
  refine orders_modification ?_
  rw [append_assoc]
  refine (quiet_noteClause u.tables).then fun _ => (orders_walkTables {} u.tables).bind fun _ => ?_
  exact (orders_updateColumns hmay u.assignments).bind fun _ =>
    (orders_walkFilter u.filter).map fun _ => nil_subset _

theorem orders_walkDeletion (d : Deletion) :
    Orders Θ needs (Expr.nodesOption d.filter) (walkDeletion Θ.input d) fun _ => [] := by
  refine orders_modification ?_
  have htable : Orders Θ needs [] (addTable Θ.input d.table.schema
      d.table.name d.table.label) fun _ => [] :=
    (orders_tableSource _ _ _).andThen fun source =>
      (quiet_pushSource (subset_append_right _ _)).orders
  exact htable.andThen fun _ => orders_walkFilter d.filter

end Analysis

/-! ### Statements -/

namespace AnalysisState

/-- A walk starts without constraints. -/
theorem constraints_initial (input : AnalysisInput) (placeholders : Nat) :
    (initial input placeholders).solver.constraints = #[] :=
  (@allotted_addParameters ((List.range placeholders).map input.name?) [] .empty nofun).constraints

theorem orderly_initial (input : AnalysisInput) (mayHint : Prop) (placeholders : Nat) :
    Analysis.Orderly ⟨input, mayHint⟩ [] [] [] (initial input placeholders) := by
  have hconstraints := constraints_initial input placeholders
  have hparams := (traced_initial input placeholders fun _ => false).1.params_free
  refine ⟨?_, ?_, ?_, ?_, nofun, ?_, nofun, nofun, fun _ => rfl, nofun, nofun⟩
  · rw [hconstraints]
    exact List.Pairwise.nil
  · rw [hconstraints]
    nofun
  · rw [hconstraints]
    nofun
  · rw [hconstraints]
    nofun
  · exact fun facts hfacts => (hparams facts.var (mem_map_of_mem hfacts)).1

end AnalysisState

namespace Statement

open Analysis

variable {statement : Statement} {input : AnalysisInput} {s : AnalysisState}

/-- The walk over a statement whose nodes have numbers of their own keeps the order of constraints.
Only modifications give hints. -/
theorem orderly_of_walked (hnodup : (statement.kind.nodes.map Expr.id).Nodup)
    (hwalked : statement.walked input = .ok s) :
    Orderly ⟨input, statement.kind.isModification = true⟩ (statement.kind.nodes.map Expr.id) [] []
      s := by
  have hrun : ∀ {α : Type} {step : Analysis α} {nodes : List Expr} {out : α → List TypeVar},
      Orders ⟨input, statement.kind.isModification = true⟩ [] nodes step out →
      (nodes.map Expr.id).Nodup → stateAfter step (.initial input statement.placeholders) = .ok s →
      Orderly ⟨input, statement.kind.isModification = true⟩ (nodes.map Expr.id) [] [] s := by
    intro α step nodes out horders hnodup hafter
    obtain ⟨a, hrun⟩ := run_of_stateAfter hafter
    exact (horders [] [] (nil_subset _) hnodup
      (AnalysisState.orderly_initial input _ _) hrun).restrict (nil_subset _)
  unfold walked at hwalked
  cases hkind : statement.kind with
  | select q =>
    rw [hkind] at hwalked hnodup hrun
    exact hrun (orders_walkQuery q) hnodup hwalked
  | insert i =>
    rw [hkind] at hwalked hnodup hrun
    exact hrun (orders_walkInsertion rfl i) hnodup hwalked
  | update u =>
    rw [hkind] at hwalked hnodup hrun
    exact hrun (orders_walkUpdate rfl u) hnodup hwalked
  | delete d =>
    rw [hkind] at hwalked hnodup hrun
    exact hrun (orders_walkDeletion d) hnodup hwalked

end Statement

end SqlSignature
