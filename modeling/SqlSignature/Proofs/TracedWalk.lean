import SqlSignature.Proofs.WalkSelection
/-!
# SqlSignature.Proofs.TracedWalk

The walk over a tree meets the trace of the tree. This is shown for all walks together, by the
recursion of the walk: a walk that starts in a state that has met a trace and succeeds ends in one
that has met that trace and then the trace of the tree (`Analysis.learns_walk`,
`Analysis.meets_walkQuery`).
-/

open List

namespace SqlSignature

namespace Analysis

variable {Γ : Setting} {frames : Frames}
  {t u : Trace} {s s' : AnalysisState} {v : TypeVar} {frame : List TableFactor}

/-! ### Single walks -/

theorem inner_of_follows {α : Type} {step : Analysis α} {a : α} (h : Follows Kept step)
    (hrun : step s = .ok a s') : s'.inner = s.inner :=
  inner_eq_of_kept (after_of_ok hrun ▸ h s)

theorem Suits.plain {e : Expr} {nodes : List Expr} (h : Suits Γ (e :: nodes))
    (hordinal : e.ordinal? = none) (hcolumn : e.isColumnName = false) : Plain Γ e :=
  ⟨hordinal, h.head.1.trans hcolumn⟩

/-- The walk over a column name. -/
theorem gives_walk_column {e : Expr} {ref : ColumnRef} (hform : e.form = .column ref)
    (hsuits : Suits Γ e.nodes) (h : Traced Γ s frames t) (hrun : walk Γ.input e s = .ok v s') :
    Gives Γ frames (t ++ { columns := [e.id] }) s v s' ∧
      ∃ r, (e.id, r) ∈ s'.references ∧ r.var = v ∧ ∀ bound T, r = .column bound →
        bound.declaredType Γ.input.catalog frames = some T → DeclaredIn s' v T := by
  obtain ⟨id, span, form⟩ := e
  cases hform
  have hid : Γ.isColumn (Expr.node id span (.column ref)).id = true := hsuits.head.1
  rw [walk, walkForm] at hrun
  obtain ⟨hmeets, hknown, hnames⟩ := meets_bindColumn h hid hrun
  exact ⟨⟨hmeets, hknown⟩, hnames⟩

/-- The walk over a bound value changes nothing. -/
theorem walk_placeholder {e : Expr} {i : Nat} (hform : e.form = .placeholder i)
    (hsuits : Suits Γ e.nodes) (h : Traced Γ s frames t) (hrun : walk Γ.input e s = .ok v s') :
    s' = s ∧ Γ.params[i]? = some v := by
  obtain ⟨id, span, form⟩ := e
  cases hform
  rw [walk, walkForm] at hrun
  exact varOf_placeholder h rfl (hsuits.head.2 i rfl) hrun

/-- What the walk over an item of a select list gives, if the item is a column name. -/
theorem names_walk {e : Expr} (hsuits : Suits Γ e.nodes)
    (h : Traced Γ s frames t) (hrun : walk Γ.input e s = .ok v s') :
    NamesColumn Γ s' frames e v := by
  intro hcolumn
  unfold Expr.isColumnName at hcolumn
  split at hcolumn
  next ref hform => exact (gives_walk_column hform hsuits h hrun).2
  next => cases hcolumn

/-- A comparison of a bound value with a column name meets a use. -/
theorem gives_walk_comparison {op : BinaryOp} {left right : Expr} {ordinal column id : Nat}
    {span : Span} (hcomparison : Expr.comparison? op left right = some (ordinal, column))
    (hsuits : Suits Γ (.node id span (.binary op left right) ::
      (left.nodes ++ right.nodes)))
    (h : Traced Γ s frames t)
    (hrun : walkForm Γ.input (.node id span (.binary op left right)) (.binary op left right) s =
      .ok v s') :
    Gives Γ frames
      (t ++ { uses := [.compared ordinal column frames], columns := [column] }) s v s' := by
  obtain ⟨hop, hsides⟩ := Expr.comparison?_eq_some hcomparison
  have hplain : Plain Γ (.node id span (.binary op left right)) := hsuits.plain rfl rfl
  have hleftSuits := hsuits.tail.left
  have hrightSuits := hsuits.tail.right
  rw [walkForm] at hrun
  obtain ⟨leftVar, s₁, hleft, hafterLeft⟩ := bind_eq_ok.1 hrun
  obtain ⟨rightVar, s₂, hright, hrule⟩ := bind_eq_ok.1 hafterLeft
  have hnoShift : ((op == .add || op == .sub) && (left.isInterval || right.isInterval)) = false :=
    by
    cases op <;> first | rfl | cases hop
  rw [hnoShift] at hrule
  have htrace : t ++ ({ columns := [column] } : Trace) ++
      ({ uses := [.compared ordinal column frames] } : Trace) =
      t ++ { uses := [.compared ordinal column frames], columns := [column] } :=
    Trace.append_assoc _ _ _
  rw [← htrace]
  rcases hsides with ⟨ref, hleftForm, hrightForm, rfl⟩ | ⟨ref, hleftForm, hrightForm, rfl⟩
  · obtain ⟨rfl, hp⟩ := walk_placeholder hleftForm hleftSuits h hleft
    obtain ⟨hgives, hnames⟩ := gives_walk_column hrightForm hrightSuits h hright
    exact hgives.toMeets.gives (gives_comparison hgives.traced hplain hop hp hgives.known hnames
      (.inl ⟨rfl, rfl⟩) hrule)
  · obtain ⟨hgives, hnames⟩ := gives_walk_column hleftForm hleftSuits h hleft
    obtain ⟨rfl, hp⟩ := walk_placeholder hrightForm hrightSuits hgives.traced hright
    exact hgives.toMeets.gives (gives_comparison hgives.traced hplain hop hp hgives.known hnames
      (.inr ⟨rfl, rfl⟩) hrule)

/-! ### Steps inside of a scope -/

section

variable (Γ frames frame)

/-- A step inside of the scope of a frame. It meets a trace and takes the scope from one number of
tables to another. -/
def Fills {α : Type} (n m : Nat) (u : Trace) (step : Analysis α) : Prop :=
  ∀ ⦃t s a s'⦄, Traced Γ s (frames ++ [frame]) t →
    s.inner.sources.length = n → step s = .ok a s' →
      Meets Γ (frames ++ [frame]) (t ++ u) s s' ∧
        s'.inner.sources.length = m

end

section

variable {α β : Type} {step : Analysis α} {next : α → Analysis β} {n m k : Nat} {u' : Trace}

theorem Fills.bind (h : Fills Γ frames frame n m u step)
    (hnext : ∀ a, Fills Γ frames frame m k u' (next a)) :
    Fills Γ frames frame n k (u ++ u') (step >>= next) := by
  intro t s b s' ht hcount hrun
  obtain ⟨a, s₁, hstep, hrun⟩ := bind_eq_ok.1 hrun
  obtain ⟨hfirst, hcount₁⟩ := h ht hcount hstep
  obtain ⟨hrest, hcount₂⟩ := hnext a hfirst.traced hcount₁ hrun
  rw [← Trace.append_assoc]
  exact ⟨hfirst.trans hrest, hcount₂⟩

/-- A step that meets nothing comes last. -/
theorem Fills.last (h : Fills Γ frames frame n m u step)
    (hnext : ∀ a, Fills Γ frames frame m k {} (next a)) :
    Fills Γ frames frame n k u (step >>= next) :=
  Trace.append_empty u ▸ h.bind hnext

/-- A step that meets nothing comes first. -/
theorem Fills.then (h : Fills Γ frames frame n m {} step)
    (hnext : ∀ a, Fills Γ frames frame m k u (next a)) :
    Fills Γ frames frame n k u (step >>= next) :=
  show Fills Γ frames frame n k ({} ++ u) (step >>= next) from h.bind hnext

theorem Learns.fills {out : α → List TypeVar} (h : Learns Γ (frames ++ [frame]) [] [] u step out)
    (hkept : Follows Kept step) : Fills Γ frames frame n n u step :=
  fun _ _ _ _ ht hcount hrun =>
    ⟨(h.run ht hrun).1, by rw [inner_of_follows hkept hrun, hcount]⟩

theorem fills_pure (a : α) : Fills Γ frames frame n n {} (pure a) := by
  intro t s _ s' ht hcount hrun
  cases hrun
  rw [Trace.append_empty]
  exact ⟨ht.meets_refl, hcount⟩

theorem fills_modifyScope {f : Scope → Scope}
    (hf : ∀ {s t scope}, ScopeMet Γ s t frame scope →
      ScopeMet Γ s t frame (f scope))
    (hsources : ∀ scope, (f scope).sources.length = scope.sources.length) :
    Fills Γ frames frame n n {} (modifyScope f) := by
  intro t s _ s' ht hcount hrun
  obtain ⟨hs, -, hinner⟩ := ht.inner_met
  rw [Trace.append_empty]
  refine ⟨meets_modifyScope ht (hf hinner) hrun, ?_⟩
  rw [(modifyScope_inner hs hrun).1, hsources, hcount]

end

section

variable {n : Nat}

theorem fills_noteClause (tables : List TableRef) :
    Fills Γ frames frame n n {} (noteClause Γ.input tables) := by
  unfold noteClause
  split
  · exact fills_modifyScope (fun h => h.of_eq rfl rfl) fun _ => rfl
  · exact fills_pure ()

theorem fills_noteProven (predicates : List Expr) :
    Fills Γ frames frame n n {} (noteProven predicates) :=
  fun _ s _ _ ht hcount hrun => fills_modifyScope
    (f := fun scope => { scope with proven := scope.proven ++ s.provenColumns predicates })
    (fun h => h.of_eq rfl rfl) (fun _ => rfl) ht hcount hrun

theorem fills_shareColumns (joined : Nat) : ∀ columns : List String,
    Fills Γ frames frame n n {} (shareColumns joined columns)
  | [] => fills_pure ()
  | column :: rest => by
    intro t s _ s' ht hcount hrun
    obtain ⟨scope, _, hscope, hrun⟩ := bind_eq_ok.1 hrun
    cases hscope
    split at hrun
    · have hshared : Fills Γ frames frame n n {}
          (modifyScope fun scope => { scope with shared := scope.shared ++ [column] }) :=
        fills_modifyScope (fun h => h.of_eq rfl rfl) fun _ => rfl
      exact hshared.then (fun _ => fills_shareColumns joined rest) ht hcount hrun
    · cases hrun

/-- The next table of the frame is added to the scope. -/
theorem fills_pushSource {read : Analysis Source} {factor : TableFactor}
    (hread : ∀ {t s source s'}, Traced Γ s (frames ++ [frame]) t →
      read s = .ok source s' → Meets Γ (frames ++ [frame]) (t ++ u) s s' ∧
        SourceMet Γ s' (t ++ u) factor source)
    (hkept : Follows Kept read) (hfactor : frame[n]? = some factor) :
    Fills Γ frames frame n (n + 1) u (read >>= pushSource) := by
  intro t s index s' ht hcount hrun
  obtain ⟨source, s₁, hsource, hpush⟩ := bind_eq_ok.1 hrun
  obtain ⟨hmeets, hmet⟩ := hread ht hsource
  rw [← inner_of_follows hkept hsource] at hcount
  refine ⟨hmeets.trans (meets_pushSource hmeets.traced (hcount ▸ hfactor) hmet hpush), ?_⟩
  obtain ⟨-, hinner, -⟩ := pushSource_inner hmeets.traced.inner_met.1 hpush
  rw [hinner, length_append, hcount]
  rfl

/-- The tables and the filter of a specification. -/
theorem fills_walkSources {tables : List TableRef} {filter : Option Expr} {m : Nat} {u' : Trace}
    (htables : Fills Γ frames frame n m u (walkTables Γ.input {} tables))
    (hfilter : Learns Γ (frames ++ [frame]) [] [] u' (walkOption Γ.input filter)
      Option.toList) :
    Fills Γ frames frame n m (u ++ u') (walkSources Γ.input tables filter) :=
  (fills_noteClause tables).then fun _ => htables.bind fun _ =>
    (hfilter.fills (follows_walkOption Γ.input filter)).last fun _ =>
      (fills_noteProven _).then fun _ => fills_pure _

end

theorem getElem?_of_prefix_drop {α : Type} {a : α} {as frame : List α} {n : Nat}
    (h : a :: as <+: frame.drop n) : frame[n]? = some a := by
  obtain ⟨behind, hbehind⟩ := h
  rw [← Nat.add_zero n, ← getElem?_drop, ← hbehind]
  rfl

theorem prefix_drop_of_append {α : Type} {as bs frame : List α} {n : Nat}
    (h : as ++ bs <+: frame.drop n) : as <+: frame.drop n ∧ bs <+: frame.drop (n + as.length) := by
  obtain ⟨behind, hbehind⟩ := h
  refine ⟨⟨bs ++ behind, by rw [← hbehind, append_assoc]⟩, behind, ?_⟩
  rw [← drop_drop, ← hbehind, append_assoc, drop_left]

/-! ### Specifications -/

/-- The columns that items of a select list add to some columns, and what is known of them. -/
def ItemsMet (Γ : Setting) (s : AnalysisState) (t : Trace)
    (frames : Frames) (frame : List TableFactor) (items : List SelectItem)
    (columns columns' : List ShapeColumn) : Prop :=
  ∃ groups : List (List ShapeColumn), columns' = columns ++ groups.flatten ∧
    List.Forall₂ (ItemMet Γ s frames frame) items groups ∧
    ∀ c ∈ groups.flatten, Known Γ s t c.var

theorem ItemsMet.cons {item : SelectItem} {items : List SelectItem}
    {columns own columns' : List ShapeColumn}
    (h : ItemsMet Γ s t frames frame items (columns ++ own) columns')
    (hitem : ItemMet Γ s frames frame item own) (hknown : ∀ c ∈ own, Known Γ s t c.var) :
    ItemsMet Γ s t frames frame (item :: items) columns columns' := by
  obtain ⟨groups, rfl, hitems, hothers⟩ := h
  exact ⟨own :: groups, by rw [flatten_cons, append_assoc], .cons hitem hitems,
    forall_mem_append.2 ⟨hknown, hothers⟩⟩

/-- What a specification gives. -/
structure SpecMet (Γ : Setting) (s : AnalysisState) (t : Trace)
    (frames : Frames) (spec : QuerySpec) (shape : SpecShape) : Prop where
  known : ∀ c ∈ shape.columns, Known Γ s t c.var
  scope : ScopeMet Γ s t (TableRef.factors spec.tables) shape.scope
  selected : Selected Γ s frames (TableRef.factors spec.tables) spec.items shape.columns

theorem SpecMet.after {spec : QuerySpec} {shape : SpecShape}
    (h : SpecMet Γ s t frames spec shape) (he : Extends s s') :
    SpecMet Γ s' (t ++ u) frames spec shape :=
  ⟨fun c hc => (h.known c hc).after he, h.scope.after he, h.selected.after he⟩

theorem SpecMet.in_state {spec : QuerySpec} {shape : SpecShape}
    (h : SpecMet Γ s t frames spec shape) (he : Extends s s') : SpecMet Γ s' t frames spec shape :=
  Trace.append_empty t ▸ h.after he

/-- The names that sort keys can speak of. -/
theorem met_sortScope {specs : List QuerySpec} {first : SpecShape} {branches : List SpecShape}
    {columns : List ShapeColumn}
    (hspecs : List.Forall₂ (SpecMet Γ s t frames) specs (first :: branches))
    (hcolumns : ∀ c ∈ columns, Known Γ s t c.var) :
    ScopeMet Γ s t (QuerySpec.sortFrame specs) (sortScope first branches columns) := by
  cases hspecs with
  | @cons spec _ rest _ hfirst hrest =>
    cases hrest with
    | nil => exact hfirst.scope.of_eq rfl rfl
    | @cons second _ more _ _ _ =>
      refine ⟨fun j source hsource => by simp [sortScope] at hsource, ?_⟩
      intro a ha
      obtain ⟨c, hc, rfl⟩ := mem_map.1 ha
      exact hcolumns c hc

/-! ### Walks -/

/-- A query in an expression gives out the variable of its first column. -/
theorem learns_query {q : Query} {needs : List TypeVar}
    (h : ∀ {t : Trace} {s s' : AnalysisState} {shape : QueryShape},
      Traced Γ s frames t → walkQuery Γ.input q s = .ok shape s' →
      Meets Γ frames (t ++ q.trace frames) s s' ∧
        (∀ c ∈ shape.columns, Known Γ s' (t ++ q.trace frames) c.var) ∧
        ∀ spec, q.specs = [spec] →
          Selected Γ s' frames (TableRef.factors spec.tables) spec.items shape.columns) :
    Learns Γ frames [] needs (q.trace frames) (walkQuery Γ.input q)
      fun shape => shape.columns.head?.toList.map ShapeColumn.var := by
  intro t s shape s' ht _ _ hrun
  obtain ⟨hmeets, hcolumns, -⟩ := h ht hrun
  refine ⟨hmeets, fun w hw => ?_⟩
  obtain ⟨c, hc, rfl⟩ := mem_map.1 hw
  exact hcolumns c (mem_of_mem_head? (Option.mem_toList.1 hc))

mutual

/-- The walk over an expression meets its trace and gives out a known variable. -/
theorem learns_walk : (e : Expr) → ∀ {frames : Frames} {needs : List TypeVar}, Suits Γ e.nodes →
    Learns Γ frames [] needs (e.trace frames) (walk Γ.input e) fun v => [v]
  | .node id span form, _, _, hsuits => learns_walkForm id span form hsuits

theorem learns_walkForm (id : Nat) (span : Span) : (form : ExprForm) → ∀ {frames : Frames}
    {needs : List TypeVar}, Suits Γ (.node id span form :: form.nodes) →
    Learns Γ frames [] needs (form.trace frames id)
      (walkForm Γ.input (.node id span form) form) fun v => [v]
  | .literal value, _, _, hsuits => learns_fixed (hsuits.plain rfl rfl)
  | .column ref, _, _, hsuits => learns_of_gives fun _ _ _ _ h hrun =>
    (gives_walk_column (e := .node id span (.column ref)) rfl hsuits h hrun).1
  | .placeholder i, _, _, hsuits => by
    refine learns_of_gives fun t s v s' h hrun => ?_
    obtain ⟨rfl, hp⟩ := walk_placeholder (e := .node id span (.placeholder i)) rfl hsuits h hrun
    exact ⟨⟨h.loosen i, .refl _⟩, h.known_loosen hp⟩
  | .unary op operand, _, _, hsuits =>
    (learns_walk operand hsuits.tail).last fun _ =>
      (isRule_unaryRule op (subset_append_right _ _)).learns (hsuits.plain rfl rfl)
  | .binary op left right, frames, needs, hsuits => by
    rw [ExprForm.trace]
    cases hcomparison : Expr.comparison? op left right with
    | some pair =>
      exact learns_of_gives fun _ _ _ _ h hrun => gives_walk_comparison hcomparison hsuits h hrun
    | none =>
      refine (learns_walk left hsuits.tail.left).bind fun leftVar =>
        (learns_walk right hsuits.tail.right).last fun rightVar => ?_
      have hargs : [leftVar, rightVar] ⊆ needs ++ [leftVar] ++ [rightVar] := by simp
      split
      · exact (isRule_shiftRule _ hargs).learns (hsuits.plain rfl rfl)
      · exact (isRule_binaryRule op hargs).learns (hsuits.plain rfl rfl)
  | .isNull operand _, _, _, hsuits =>
    (learns_walk operand hsuits.tail).last fun _ =>
      (speaks_markNullableExpr operand).learns.then fun _ => learns_fixed (hsuits.plain rfl rfl)
  | .isTruth operand _ _, _, _, hsuits | .cast operand _, _, _, hsuits =>
    (learns_walk operand hsuits.tail).last fun _ => learns_fixed (hsuits.plain rfl rfl)
  | .inList operand list _, frames, needs, hsuits => by
    refine (learns_walk operand hsuits.tail.left).bind fun var =>
      (learns_walkElements list hsuits.tail.right mem_concat_self).last fun _ => ?_
    -- a bound value that is the only element is marked as a list
    split
    · exact (speaks_markList _).learns.then fun _ => learns_fixed (hsuits.plain rfl rfl)
    · exact learns_fixed (hsuits.plain rfl rfl)
  | .inQuery operand query _, _, _, hsuits =>
    (learns_walk operand hsuits.tail.left).bind fun _ =>
      (learns_query (meets_walkQuery query hsuits.tail.right)).last fun _ =>
        (speaks_equateAll (by simp) (subset_append_right _ _)).learns.then fun _ =>
          learns_fixed (hsuits.plain rfl rfl)
  | .between operand low high _, _, _, hsuits => by
    rw [ExprForm.trace, Trace.append_assoc]
    exact (learns_walk operand hsuits.tail.left.left).bind fun _ =>
      (learns_walk low hsuits.tail.left.right).bind fun _ =>
        (learns_walk high hsuits.tail.right).last fun _ =>
          (speaks_equateAll (by simp) (by simp)).learns.then fun _ =>
            learns_fixed (hsuits.plain rfl rfl)
  | .like operand pattern escape _, _, _, hsuits => by
    rw [ExprForm.trace, Trace.append_assoc]
    exact (learns_walk operand hsuits.tail.left.left).bind fun _ =>
      (learns_walk pattern hsuits.tail.left.right).bind fun _ =>
        (speaks_expectAll _ (by simp)).learns.then fun _ =>
          (learns_walkOption escape hsuits.tail.right).last fun _ =>
            (speaks_expectAll _ (subset_append_right _ _)).learns.then fun _ =>
              learns_fixed (hsuits.plain rfl rfl)
  | .choice operand branches otherwise, _, _, hsuits => by
    rw [ExprForm.trace, Trace.append_assoc]
    exact (learns_walkOption operand hsuits.tail.left.left).bind fun _ =>
      (learns_walkBranches branches hsuits.tail.left.right (subset_append_right _ _)).bind
        fun _ => (learns_walkOption otherwise hsuits.tail.right).last fun _ =>
          learns_widened (hsuits.plain rfl rfl) (by simp)
  | .call name args _ _ _, _, _, hsuits =>
    (learns_walkList args hsuits.tail.left).last fun _ =>
      (isRule_callRule name args (subset_append_right _ _)).learns (hsuits.plain rfl rfl)
  | .interval operand _, _, _, hsuits =>
    (learns_walk operand hsuits.tail).last fun _ =>
      (learns_expect mem_concat_self).then fun _ => learns_fixed (hsuits.plain rfl rfl)
  | .existence query, _, _, hsuits =>
    (learns_query (meets_walkQuery query hsuits.tail)).last fun _ =>
      learns_fixed (hsuits.plain rfl rfl)
  | .subquery query, _, _, hsuits =>
    (learns_query (meets_walkQuery query hsuits.tail)).last fun _ =>
      learns_widened (hsuits.plain rfl rfl) (subset_append_right _ _)

theorem learns_walkList : (es : List Expr) → ∀ {frames : Frames} {needs : List TypeVar},
    Suits Γ (Expr.nodesList es) →
    Learns Γ frames [] needs (Expr.traceList frames es) (walkList Γ.input es)
      fun vars => vars
  | [], _, _, _ => learns_pure (nil_subset _)
  | e :: rest, _, _, hsuits =>
    (learns_walk e hsuits.left).bind fun _ => (learns_walkList rest hsuits.right).last fun _ =>
      learns_pure (by simp)

theorem learns_walkOption : (o : Option Expr) → ∀ {frames : Frames} {needs : List TypeVar},
    Suits Γ (Expr.nodesOption o) →
    Learns Γ frames [] needs (Expr.traceOption frames o) (walkOption Γ.input o)
      Option.toList
  | none, _, _, _ => learns_pure (nil_subset _)
  | some e, _, _, hsuits => (learns_walk e hsuits).last fun _ => learns_pure (by simp)

theorem learns_walkElements : (es : List Expr) → ∀ {frames : Frames} {needs : List TypeVar}
    {value : TypeVar}, Suits Γ (Expr.nodesList es) → value ∈ needs →
    Learns Γ frames [] needs (Expr.traceList frames es)
      (walkElements Γ.input value es) fun _ => []
  | [], _, _, _, _, _ => learns_pure (nil_subset _)
  | e :: rest, _, _, _, hsuits, hvalue =>
    (learns_walk e hsuits.left).bind fun _ =>
      (learns_equate (mem_append_left _ hvalue) mem_concat_self).then fun _ =>
        learns_walkElements rest hsuits.right (mem_append_left _ hvalue)

theorem learns_walkBranches : (bs : List Branch) → ∀ {frames : Frames} {needs : List TypeVar}
    {value : Option TypeVar}, Suits Γ (Branch.nodesList bs) → value.toList ⊆ needs →
    Learns Γ frames [] needs (Branch.traceList frames bs)
      (walkBranches Γ.input value bs) fun vars => vars
  | [], _, _, _, _, _ => learns_pure (nil_subset _)
  | ⟨condition, result⟩ :: rest, frames, needs, value, hsuits, hvalue => by
    rw [Branch.traceList, Trace.append_assoc]
    refine (learns_walk condition hsuits.left.left).bind fun conditionVar => ?_
    have hvalue₁ : value.toList ⊆ needs ++ [conditionVar] :=
      subset_append_of_subset_left _ hvalue
    -- the branch and the rest follow, whether or not the condition is compared with a value
    have hend : Learns Γ frames [] (needs ++ [conditionVar])
        (result.trace frames ++ Branch.traceList frames rest)
        (do let resultVar ← walk Γ.input result
            let vars ← walkBranches Γ.input value rest
            pure (resultVar :: vars)) fun vars => vars :=
      (learns_walk result hsuits.left.right).bind fun resultVar =>
        (learns_walkBranches rest hsuits.right
          (subset_append_of_subset_left [resultVar] hvalue₁)).last fun _ =>
            learns_pure (by simp)
    cases value with
    | none => exact hend
    | some value =>
      exact (learns_equate (hvalue₁ mem_cons_self) mem_concat_self).then fun _ => hend

/-- The walk over a query meets its trace. One specification alone keeps its result columns. -/
theorem meets_walkQuery : (q : Query) → ∀ {frames : Frames} {t : Trace} {s s' : AnalysisState}
    {shape : QueryShape}, Suits Γ q.nodes →
    Traced Γ s frames t → walkQuery Γ.input q s = .ok shape s' →
    Meets Γ frames (t ++ q.trace frames) s s' ∧
      (∀ c ∈ shape.columns, Known Γ s' (t ++ q.trace frames) c.var) ∧
      ∀ spec, q.specs = [spec] →
        Selected Γ s' frames (TableRef.factors spec.tables) spec.items shape.columns
  | ⟨specs, unionAll, orderBy, limit, span⟩, frames, t, s, s', shape, hsuits, h, hrun => by
    obtain ⟨shapes, s₁, hwalkSpecs, hrun⟩ := bind_eq_ok.1 hrun
    obtain ⟨hspecs, hshapes⟩ := meets_walkSpecs specs hsuits.left.left h hwalkSpecs
    cases shapes with
    | nil => cases hrun
    | cons first branches =>
      obtain ⟨columns, s₂, hunion, hrun⟩ := bind_eq_ok.1 hrun
      obtain ⟨⟨_, _⟩, s₃, hsort, hrun⟩ := bind_eq_ok.1 hrun
      obtain ⟨_, s₄, hwalkLimit, hrun⟩ := bind_eq_ok.1 hrun
      cases hrun
      have hknown : ∀ shape ∈ first :: branches, ∀ c ∈ shape.columns,
          Known Γ s₁ (t ++ QuerySpec.traceList frames specs) c.var := by
        intro shape hshape
        obtain ⟨i, hi⟩ := mem_iff_getElem?.1 hshape
        obtain ⟨spec, -, hmet⟩ := forall₂_getElem? hshapes.flip hi
        exact hmet.known
      obtain ⟨hunited, hcolumns, hsingle⟩ := meets_unionColumns hspecs.traced
        (hknown first mem_cons_self)
        (fun branch hbranch => hknown branch (mem_cons_of_mem _ hbranch)) hunion
      have hshapes₂ : List.Forall₂ (SpecMet Γ s₂
          (t ++ QuerySpec.traceList frames specs) frames) specs (first :: branches) :=
        hshapes.imp fun _ _ hmet => hmet.in_state hunited.grown
      obtain ⟨s₅, hwalkKeys, hstart, hend⟩ :=
        meets_inScope hunited.traced (met_sortScope hshapes₂ hcolumns) hsort
      obtain ⟨hkeys, -⟩ := (learns_walkSortKeys orderBy hsuits.left.right).run hstart hwalkKeys
      obtain ⟨hsorted, -, -, -⟩ := hend _ hkeys
      obtain ⟨hlimit, -⟩ := (learns_walkLimit limit hsuits.right).run hsorted.traced hwalkLimit
      rw [Query.trace, ← Trace.append_assoc, ← Trace.append_assoc]
      refine ⟨((hspecs.trans hunited).trans hsorted).trans hlimit, ?_, ?_⟩
      · intro c hc
        exact ((hcolumns c hc).after hsorted.grown).after hlimit.grown
      · intro spec hspec
        cases hspec
        cases hshapes₂ with
        | cons hmet hrest =>
          cases hrest
          rw [show (queryShape Γ.input.config first [] columns limit (!orderBy.isEmpty)).columns =
            first.columns from hsingle rfl]
          exact (hmet.selected.after hsorted.grown).after hlimit.grown

theorem meets_walkSpecs : (specs : List QuerySpec) → ∀ {frames : Frames} {t : Trace}
    {s s' : AnalysisState} {shapes : List SpecShape}, Suits Γ (QuerySpec.nodesList specs) →
    Traced Γ s frames t → walkSpecs Γ.input specs s = .ok shapes s' →
    Meets Γ frames (t ++ QuerySpec.traceList frames specs) s s' ∧
      List.Forall₂ (SpecMet Γ s' (t ++ QuerySpec.traceList frames specs) frames)
        specs shapes
  | [], frames, t, s, s', shapes, _, h, hrun => by
    cases hrun
    rw [QuerySpec.traceList, Trace.append_empty]
    exact ⟨h.meets_refl, .nil⟩
  | ⟨distinct, items, tables, filter, groupBy, having, span⟩ :: rest, frames, t, s, s', shapes,
      hsuits, h, hrun => by
    rw [walkSpecs_cons] at hrun
    obtain ⟨⟨⟨columns, layout, singleRow⟩, scope⟩, s₁, hscope, hrun⟩ := bind_eq_ok.1 hrun
    obtain ⟨others, s₂, hwalkRest, hrun⟩ := bind_eq_ok.1 hrun
    cases hrun
    have hempty : ScopeMet Γ s t (TableRef.factors tables) {} := .empty
    obtain ⟨s₃, hinside, hstart, hend⟩ := meets_inScope h hempty hscope
    have hsuitsSpec := hsuits.left
    -- the tables fill the scope
    obtain ⟨joined, a₄, hwalkSources, hinside⟩ := bind_eq_ok.1 hinside
    obtain ⟨hsources, hcomplete⟩ := fills_walkSources (n := 0)
      (fills_walkTables tables hsuitsSpec.left.left.left.right (prefix_refl _))
      (learns_walkOption filter hsuitsSpec.left.left.right) hstart
      (by rw [inner_push]; rfl) hwalkSources
    rw [Nat.zero_add] at hcomplete
    rw [← Trace.append_assoc] at hsources
    -- the select list, then the grouping
    obtain ⟨selected, a₅, hwalkItems, hinside⟩ := bind_eq_ok.1 hinside
    obtain ⟨hitems, groups, hcolumns, hgroups, hknown⟩ := meets_walkItems items
      hsuitsSpec.left.left.left.left hsources.traced hcomplete hwalkItems
    obtain ⟨_, a₆, hallow, hinside⟩ := bind_eq_ok.1 hinside
    have hallowed := meets_modifyScope hitems.traced
      (hitems.traced.inner_met.2.2.of_eq rfl rfl) hallow
    obtain ⟨groupVars, a₇, hwalkGroup, hinside⟩ := bind_eq_ok.1 hinside
    obtain ⟨hgrouped, -⟩ :=
      (learns_walkList groupBy hsuitsSpec.left.right).run hallowed.traced hwalkGroup
    obtain ⟨havingVar, a₈, hwalkHaving, hinside⟩ := bind_eq_ok.1 hinside
    obtain ⟨hhaving, -⟩ :=
      (learns_walkOption having hsuitsSpec.right).run hgrouped.traced hwalkHaving
    replace hinside := of_get hinside
    cases hinside
    have hafterItems := (hallowed.trans hgrouped).trans hhaving
    have hspec := (hsources.trans hitems).trans hafterItems
    obtain ⟨hmeets, hleave, -, hscopeMet⟩ := hend _ hspec
    obtain ⟨hrest, hshapes⟩ := meets_walkSpecs rest hsuits.right hmeets.traced hwalkRest
    let inner := frames ++ [TableRef.factors tables]
    have hfirst : ∀ layout singleRow, SpecMet Γ s₁
        (t ++ TableRef.traceList inner tables ++ Expr.traceOption inner filter ++
          SelectItem.traceList inner items ++ Expr.traceList inner groupBy ++
          Expr.traceOption inner having) frames
        ⟨distinct, items, tables, filter, groupBy, having, span⟩
        ⟨selected.columns, layout, scope, singleRow⟩ := by
      intro layout singleRow
      refine ⟨?_, hscopeMet, groups, hcolumns, ?_⟩
      · intro c hc
        rw [show selected.columns = groups.flatten from hcolumns] at hc
        exact (((hknown c hc).in_state hallowed.grown).after
          (u := Expr.traceList _ groupBy) hgrouped.grown).after hhaving.grown |>.in_state hleave
      · exact hgroups.imp fun _ _ hmet => (hmet.after hafterItems.grown).after hleave
    simp only [QuerySpec.traceList, ← Trace.append_assoc] at hrest hshapes ⊢
    exact ⟨hmeets.trans hrest, .cons ((hfirst _ _).after hrest.grown) hshapes⟩

theorem meets_walkItems : (items : List SelectItem) → ∀ {frames : Frames} {t : Trace}
    {s s' : AnalysisState} {frame : List TableFactor} {shape shape' : SelectionShape},
    Suits Γ (SelectItem.nodesList items) → Traced Γ s (frames ++ [frame]) t →
    s.inner.sources.length = frame.length → walkItems Γ.input shape items s = .ok shape' s' →
    Meets Γ (frames ++ [frame])
        (t ++ SelectItem.traceList (frames ++ [frame]) items) s s' ∧
      ItemsMet Γ s' (t ++ SelectItem.traceList (frames ++ [frame]) items) frames frame
        items shape.columns shape'.columns
  | [], _, _, _, _, _, _, _, _, h, _, hrun => by
    cases hrun
    rw [SelectItem.traceList, Trace.append_empty]
    exact ⟨h.meets_refl, [], (append_nil _).symm, .nil, fun c hc => by cases hc⟩
  | .all span :: rest, _, _, _, _, _, _, _, hsuits, h, hcomplete, hrun => by
    obtain ⟨shape₁, s₁, hselect, hwalkRest⟩ := bind_eq_ok.1 hrun
    obtain ⟨rfl, columns, hcolumns, hitem, hknown⟩ :=
      met_selectBound h hcomplete (.inl ⟨rfl, rfl⟩) hselect
    obtain ⟨hrest, hitems⟩ := meets_walkItems rest hsuits h hcomplete hwalkRest
    rw [hcolumns] at hitems
    exact ⟨hrest, hitems.cons (hitem.after hrest.grown)
      fun c hc => (hknown c hc).after hrest.grown⟩
  | .allOf name span :: rest, _, _, _, _, _, _, _, hsuits, h, hcomplete, hrun => by
    obtain ⟨shape₁, s₁, hselect, hwalkRest⟩ := bind_eq_ok.1 hrun
    obtain ⟨rfl, columns, hcolumns, hitem, hknown⟩ :=
      met_selectBound h hcomplete (.inr ⟨name, rfl, rfl⟩) hselect
    obtain ⟨hrest, hitems⟩ := meets_walkItems rest hsuits h hcomplete hwalkRest
    rw [hcolumns] at hitems
    exact ⟨hrest, hitems.cons (hitem.after hrest.grown)
      fun c hc => (hknown c hc).after hrest.grown⟩
  | .expr value label span :: rest, _, _, _, _, frame, _, _, hsuits, h, hcomplete, hrun => by
    obtain ⟨var, s₁, hwalk, hrun⟩ := bind_eq_ok.1 hrun
    obtain ⟨shape₁, s₂, hselect, hwalkRest⟩ := bind_eq_ok.1 hrun
    have hvalue := (learns_walk value hsuits.left).gives h hwalk
    have hnames := names_walk hsuits.left h hwalk
    obtain ⟨hselected, hsources, c, hcolumns, hexpr, rfl⟩ :=
      meets_selectExpr hvalue.traced hvalue.known hselect
    have hcomplete₂ : s₂.inner.sources.length = frame.length := by
      rw [hsources, inner_of_follows (follows_walk Γ.input value) hwalk, hcomplete]
    obtain ⟨hrest, hitems⟩ :=
      meets_walkItems rest hsuits.right hselected.traced hcomplete₂ hwalkRest
    have hgrown := hselected.grown.trans hrest.grown
    rw [SelectItem.traceList, ← Trace.append_assoc]
    rw [hcolumns] at hitems
    exact ⟨(hvalue.toMeets.trans hselected).trans hrest,
      hitems.cons ⟨c, rfl, hexpr, hnames.after hgrown⟩
        (forall_mem_singleton.2 (hvalue.known.after hgrown))⟩

theorem fills_walkTables : (tables : List TableRef) → ∀ {frames : Frames}
    {frame : List TableFactor} {n : Nat} {shape : TablesShape},
    Suits Γ (TableRef.nodesList tables) → TableRef.factors tables <+: frame.drop n →
    Fills Γ frames frame n (n + (TableRef.factors tables).length)
      (TableRef.traceList (frames ++ [frame]) tables) (walkTables Γ.input shape tables)
  | [], _, _, _, _, _, _ => fills_pure _
  | ⟨factor, joins, span⟩ :: rest, _, _, _, _, hsuits, hframe => by
    have hfactors : TableRef.factors (⟨factor, joins, span⟩ :: rest) =
      [factor] ++ (joins.map Join.factor ++ TableRef.factors rest) := rfl
    rw [hfactors] at hframe
    obtain ⟨-, hbehind⟩ := prefix_drop_of_append hframe
    obtain ⟨hjoins, hrest⟩ := prefix_drop_of_append hbehind
    rw [hfactors, length_append, length_append, ← Nat.add_assoc, ← Nat.add_assoc,
      walkTables, ← bind_assoc, TableRef.traceList, Trace.append_assoc]
    exact (fills_pushSource (meets_walkFactor factor hsuits.left.left)
      (follows_walkFactor Γ.input factor) (getElem?_of_prefix_drop hframe)).bind fun _ =>
        (fills_walkJoins joins hsuits.left.right hjoins).bind fun _ =>
          fills_walkTables rest hsuits.right hrest

theorem fills_walkJoins : (joins : List Join) → ∀ {frames : Frames} {frame : List TableFactor}
    {first kept n : Nat} {shape : TablesShape}, Suits Γ (Join.nodesList joins) →
    joins.map Join.factor <+: frame.drop n →
    Fills Γ frames frame n (n + (joins.map Join.factor).length)
      (Join.traceList (frames ++ [frame]) joins) (walkJoins Γ.input first kept shape joins)
  | [], _, _, _, _, _, _, _, _ => fills_pure _
  | ⟨kind, factor, constraint, _⟩ :: rest, _, _, first, _, n, _, hsuits, hframe => by
    have hbehind := (prefix_drop_of_append (show [factor] ++ _ <+: _ from hframe)).2
    rw [walkJoins, ← bind_assoc, Join.traceList, Trace.append_assoc, map_cons,
      length_cons, ← Nat.add_assoc, Nat.add_right_comm]
    exact (fills_pushSource (meets_walkFactor factor hsuits.left.left)
      (follows_walkFactor Γ.input factor) (getElem?_of_prefix_drop hframe)).bind fun joined =>
        (fills_modifyScope (fun h => h.pad kind first joined) fun _ => length_mapIdx).then
          fun _ => (fills_walkConstraint constraint hsuits.left.right).bind fun _ =>
            fills_walkJoins rest hsuits.right hbehind

theorem fills_walkConstraint : (constraint : JoinConstraint) → ∀ {frames : Frames}
    {frame : List TableFactor} {kind : JoinKind} {joined n : Nat} {shape : TablesShape},
    Suits Γ constraint.nodes →
    Fills Γ frames frame n n (constraint.trace (frames ++ [frame]))
      (walkConstraint Γ.input kind joined shape constraint)
  | .on condition, _, _, _, _, _, _, hsuits =>
    ((learns_walk condition hsuits).fills (follows_walk Γ.input condition)).last fun _ =>
      fills_pure _
  | .shared columns, _, _, _, joined, _, _, _ =>
    (fills_shareColumns joined columns).then fun _ => fills_pure _
  | .none, _, _, _, _, _, _, _ => fills_pure _

theorem meets_walkFactor : (factor : TableFactor) → ∀ {frames : Frames} {t : Trace}
    {s s' : AnalysisState} {source : Source}, Suits Γ factor.nodes →
    Traced Γ s frames t → walkFactor Γ.input factor s = .ok source s' →
    Meets Γ frames (t ++ factor.trace) s s' ∧
      SourceMet Γ s' (t ++ factor.trace) factor source
  | .table schema name label span, frames, t, s, s', source, _, h, hrun => by
    rw [TableFactor.trace, Trace.append_empty]
    obtain ⟨hmeets, hsource⟩ := meets_tableSource h hrun
    exact ⟨hmeets, hsource span⟩
  | .derived query label span, frames, t, s, s', source, hsuits, h, hrun => by
    obtain ⟨shape, s₁, hisolated, hrun⟩ := bind_eq_ok.1 hrun
    cases hrun
    obtain ⟨s₂, hwalk, hstart, hend⟩ := meets_isolated h hisolated
    obtain ⟨hquery, hcolumns, -⟩ := meets_walkQuery query hsuits hstart hwalk
    obtain ⟨hmeets, hleave⟩ := hend _ hquery
    refine ⟨hmeets, rfl, ?_, fun schema name label span hfactor => by cases hfactor⟩
    intro c hc
    obtain ⟨column, hcolumn, rfl⟩ := mem_map.1 hc
    exact (hcolumns column hcolumn).in_state hleave

theorem learns_walkSortKeys : (keys : List SortKey) → ∀ {frames : Frames} {needs : List TypeVar},
    Suits Γ (SortKey.nodesList keys) →
    Learns Γ frames [] needs (SortKey.traceList frames keys)
      (walkSortKeys Γ.input keys) fun _ => []
  | [], _, _, _ => learns_pure (nil_subset _)
  | ⟨expr, _⟩ :: rest, _, _, hsuits =>
    (learns_walk expr hsuits.left).bind fun _ => learns_walkSortKeys rest hsuits.right

theorem learns_walkLimit : (limit : Option Limit) → ∀ {frames : Frames} {needs : List TypeVar},
    Suits Γ (Limit.nodesOption limit) →
    Learns Γ frames [] needs (Limit.traceOption frames limit)
      (walkLimit Γ.input limit) fun _ => []
  | none, _, _, _ => learns_pure (nil_subset _)
  | some ⟨count, offset⟩, _, _, hsuits =>
    (learns_walk count hsuits.left).bind fun _ =>
      (learns_expect mem_concat_self).then fun _ =>
        (learns_walkOption offset hsuits.right).last fun _ =>
          (speaks_expectAll _ (subset_append_right _ _)).learns

end

end Analysis

end SqlSignature
