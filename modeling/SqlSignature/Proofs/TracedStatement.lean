import SqlSignature.Proofs.GrammarBuilt
import SqlSignature.Proofs.NotedNames
import SqlSignature.Proofs.SolverTermination
import SqlSignature.Proofs.StatementTrace
import SqlSignature.Proofs.TracedWalk
/-!
# SqlSignature.Proofs.TracedStatement

The walk over a statement meets the trace of the statement (`Statement.traced_of_walked`). The state
it starts in has a free variable for each bound value, and one that no other bound value has for
each bound value without a name.
-/

open List

namespace SqlSignature

namespace Analysis

variable {Γ : Setting} {frames : Frames}
  {t u : Trace} {s s' : AnalysisState} {needs : List TypeVar} {type? : Assignment → Option SqlType}
  {type : Option SqlType} {as : List Assignment} {targets : List Target} {target : TypeVar}
  {slots : Slots} {source : Source} {shape : ModificationShape}

/-! ### Stored values -/

/-- A column that a value is stored in, of a type if that is known. -/
structure TargetMet (Γ : Setting) (s : AnalysisState) (t : Trace)
    (target : TypeVar) (type : Option SqlType) : Prop where
  known : Known Γ s t target
  declared : ∀ T, type = some T → DeclaredIn s target T

theorem TargetMet.after (h : TargetMet Γ s t target type) (he : Extends s s') :
    TargetMet Γ s' (t ++ u) target type :=
  ⟨h.known.after he, fun T hT => (h.declared T hT).after he⟩

/-- The columns that the values of a row are stored in. -/
abbrev TargetsMet (Γ : Setting) (s : AnalysisState) (t : Trace) :
    List Target → List (Option SqlType) → Prop :=
  List.Forall₂ fun target type => TargetMet Γ s t target.var type

/-- A table in scope has the columns of a table of the catalog. -/
abbrev HasColumns (s : AnalysisState) (source : Source) (table : Table) : Prop :=
  List.Forall₂ (fun (c : SourceColumn) (d : Column) => c.name = d.name ∧ DeclaredIn s c.var d.type)
    source.columns table.columns

theorem Suits.form {e : Expr} {i : Nat} (h : e.ordinal? = some i) : e.form = .placeholder i := by
  unfold Expr.ordinal? at h
  split at h
  next hform =>
    cases h
    exact hform
  next => cases h

/-- A bound value that is stored as it is is used for the column. -/
theorem meets_store {value : Expr} {var : TypeVar} {ordinal : Nat} {done : Unit}
    (hsuits : Suits Γ value.nodes) (hordinal : value.ordinal? = some ordinal)
    (h : Traced Γ s frames t) (htarget : TargetMet Γ s t target type)
    {s₁ : AnalysisState} (hwalk : walk Γ.input value s = .ok var s₁)
    (hequate : equate var target s₁ = .ok done s') :
    Meets Γ frames (t ++ value.storedTrace frames type) s s' := by
  obtain ⟨rfl, hp⟩ := walk_placeholder (Suits.form hordinal) hsuits h hwalk
  cases hequate
  rw [Expr.storedTrace, hordinal]
  exact h.addUse hp htarget.known htarget.declared (.inl rfl)

/-- Any other value is only hinted at by the column. -/
theorem learns_hintStored {α : Type} {value : Expr} {next : Analysis α}
    (hsuits : Suits Γ value.nodes) (hordinal : value.ordinal? = none)
    (hnext : ∀ needs, Learns Γ frames [] needs {} next fun _ => []) :
    Learns Γ frames [] [target] (value.storedTrace frames type)
      (walk Γ.input value >>= fun var => constrain (.hint var target) >>= fun _ => next)
      fun _ => [] := by
  rw [Expr.storedTrace, hordinal]
  refine (learns_walk value hsuits).last fun var => Learns.then ?_ fun _ => hnext _
  exact learns_constrain (by simp [Constraint.vars]) fun v hgiven => by cases hgiven

theorem meets_assignValue {target : Target} {value : Expr} (hsuits : Suits Γ value.nodes)
    (h : Traced Γ s frames t) (htarget : TargetMet Γ s t target.var type)
    (hrun : assignValue Γ.input target value s = .ok slots s') :
    Meets Γ frames (t ++ value.storedTrace frames type) s s' := by
  cases hordinal : value.ordinal? with
  | some ordinal =>
    obtain ⟨var, s₁, hwalk, hrun⟩ := bind_eq_ok.1 hrun
    rw [hordinal] at hrun
    obtain ⟨_, s₂, hequate, hrun⟩ := bind_eq_ok.1 hrun
    cases hrun
    exact meets_store hsuits hordinal h htarget hwalk hequate
  | none =>
    have hassign : Learns Γ frames [] [target.var]
        (value.storedTrace frames type) (assignValue Γ.input target value) fun _ => [] := by
      unfold assignValue
      rw [hordinal]
      refine learns_hintStored hsuits hordinal fun needs => ?_
      split
      · exact learns_get fun _ => learns_pure (nil_subset _)
      · exact (speaks_markNullableOrdinals _).learns.then fun _ =>
          learns_get fun _ => learns_pure (nil_subset _)
    exact (hassign h nofun (forall_mem_singleton.2 htarget.known) hrun).1

theorem meets_assignRow : ∀ {targets : List Target} {types : List (Option SqlType)}
    {values : List Expr} {t : Trace} {s : AnalysisState} {slots : Slots},
    Suits Γ (values.flatMap Expr.nodes) → Traced Γ s frames t → TargetsMet Γ s t targets types →
    assignRow Γ.input targets values s = .ok slots s' →
    Meets Γ frames (t ++ Expr.rowTrace frames types values) s s'
  | [], [], _, _, _, _, _, h, .nil, hrun => by
    cases hrun
    rw [Expr.rowTrace, Trace.append_empty]
    · exact h.meets_refl
    · simp
  | _ :: _, _ :: _, [], _, _, _, _, h, _, hrun => by
    cases hrun
    rw [Expr.rowTrace, Trace.append_empty]
    · exact h.meets_refl
    · simp
  | _ :: _, _ :: _, value :: values, _, _, _, hsuits, h, .cons htarget htargets, hrun => by
    obtain ⟨slots, s₁, hassign, hrun⟩ := bind_eq_ok.1 hrun
    obtain ⟨others, s₂, hassignRest, hrun⟩ := bind_eq_ok.1 hrun
    cases hrun
    have hfirst := meets_assignValue hsuits.left h htarget hassign
    have hrest := meets_assignRow hsuits.right hfirst.traced
      (htargets.imp fun _ _ hmet => hmet.after hfirst.grown) hassignRest
    rw [Expr.rowTrace, ← Trace.append_assoc]
    exact hfirst.trans hrest

theorem meets_assignRows {types : List (Option SqlType)} :
    ∀ {rows : List (List Expr)} {t : Trace} {s : AnalysisState} {slots : Slots},
    Suits Γ (rows.flatMap fun row => row.flatMap Expr.nodes) →
    Traced Γ s frames t → TargetsMet Γ s t targets types →
    assignRows Γ.input targets rows s = .ok slots s' →
    Meets Γ frames (t ++ Expr.rowsTrace frames types rows) s s'
  | [], _, _, _, _, h, _, hrun => by
    cases hrun
    rw [Expr.rowsTrace, Trace.append_empty]
    exact h.meets_refl
  | row :: rest, _, _, _, hsuits, h, htargets, hrun => by
    obtain ⟨slots, s₁, hassign, hrun⟩ := bind_eq_ok.1 hrun
    obtain ⟨others, s₂, hassignRest, hrun⟩ := bind_eq_ok.1 hrun
    cases hrun
    have hfirst := meets_assignRow hsuits.left h htargets hassign
    have hrest := meets_assignRows hsuits.right hfirst.traced
      (htargets.imp fun _ _ hmet => hmet.after hfirst.grown) hassignRest
    rw [Expr.rowsTrace, ← Trace.append_assoc]
    exact hfirst.trans hrest

/-! ### Assignments -/

/-- The types of the columns that assignments name, among the tables of the scopes. -/
def Assigns (s : AnalysisState) (type? : Assignment → Option SqlType) (as : List Assignment) :
    Prop :=
  ∀ a ∈ as, ∀ bound T, s.scopes.resolve a.target = .ok (.column bound) → type? a = some T →
    DeclaredIn s bound.var T

theorem Assigns.after (h : Assigns s type? as) (he : Extends s s')
    (hscopes : s'.scopes = s.scopes) : Assigns s' type? as := by
  intro a ha bound T hbound hT
  rw [hscopes] at hbound
  exact (h a ha bound T hbound hT).after he

theorem met_assignmentTarget {a : Assignment} {target : Target}
    (h : Traced Γ s frames t) (htypes : Assigns s type? as) (ha : a ∈ as)
    (hrun : assignmentTarget a s = .ok target s') :
    s' = s ∧ TargetMet Γ s t target.var (type? a) := by
  obtain ⟨bound, hresolve, hvar, rfl⟩ := assignmentTarget_eq_ok hrun
  rw [hvar]
  exact ⟨rfl, (h.resolve hresolve).1, fun T hT => htypes a ha bound T hresolve hT⟩

theorem meets_assignDuplicates :
    ∀ {as : List Assignment} {t : Trace} {s : AnalysisState} {slots : Slots},
    Suits Γ (as.flatMap Assignment.nodes) → Traced Γ s frames t → Assigns s type? as →
    assignDuplicates Γ.input as s = .ok slots s' →
    Meets Γ frames (t ++ Assignment.traceList frames type? as) s s'
  | [], _, _, _, _, h, _, hrun => by
    cases hrun
    rw [Assignment.traceList, Trace.append_empty]
    exact h.meets_refl
  | a :: rest, _, _, _, hsuits, h, htypes, hrun => by
    obtain ⟨target, s₁, htarget, hafterTarget⟩ := bind_eq_ok.1 hrun
    obtain ⟨slots, s₂, hassign, hafterAssign⟩ := bind_eq_ok.1 hafterTarget
    obtain ⟨others, s₃, hassignRest, hpure⟩ := bind_eq_ok.1 hafterAssign
    cases hpure
    obtain ⟨rfl, hmet⟩ := met_assignmentTarget h htypes mem_cons_self htarget
    have hfirst := meets_assignValue hsuits.left h hmet hassign
    have hscopes : s₂.scopes = s₁.scopes :=
      (after_of_ok hassign ▸ follows_assignValue Γ.input target a.value s₁).scopes
    have hrestTypes : Assigns s₁ type? rest :=
      fun b hb => htypes b (mem_cons_of_mem _ hb)
    have hrest := meets_assignDuplicates hsuits.right hfirst.traced
      (hrestTypes.after hfirst.grown hscopes) hassignRest
    rw [Assignment.traceList, ← Trace.append_assoc]
    exact hfirst.trans hrest

theorem meets_updateColumn {a : Assignment} (hsuits : Suits Γ a.value.nodes)
    (h : Traced Γ s frames t) (htypes : Assigns s type? as) (ha : a ∈ as)
    (hrun : updateColumn Γ.input a s = .ok slots s') :
    Meets Γ frames (t ++ a.value.storedTrace frames (type? a)) s s' := by
  obtain ⟨target, s₁, htarget, hafterTarget⟩ := bind_eq_ok.1 hrun
  obtain ⟨rfl, hmet⟩ := met_assignmentTarget h htypes ha htarget
  cases hordinal : a.value.ordinal? with
  | some ordinal =>
    rw [hordinal] at hafterTarget
    exact meets_assignValue hsuits h hmet hafterTarget
  | none =>
    rw [hordinal] at hafterTarget
    exact (learns_hintStored hsuits hordinal
      (fun _ => learns_get fun _ => learns_pure (nil_subset _)) h nofun
      (forall_mem_singleton.2 hmet.known) hafterTarget).1

theorem meets_updateColumns :
    ∀ {as : List Assignment} {t : Trace} {s : AnalysisState} {slots : Slots},
    Suits Γ (as.flatMap Assignment.nodes) → Traced Γ s frames t → Assigns s type? as →
    updateColumns Γ.input as s = .ok slots s' →
    Meets Γ frames (t ++ Assignment.traceList frames type? as) s s'
  | [], _, _, _, _, h, _, hrun => by
    cases hrun
    rw [Assignment.traceList, Trace.append_empty]
    exact h.meets_refl
  | a :: rest, _, s, _, hsuits, h, htypes, hrun => by
    obtain ⟨slots, s₁, hupdate, hrun⟩ := bind_eq_ok.1 hrun
    obtain ⟨others, s₂, hupdateRest, hrun⟩ := bind_eq_ok.1 hrun
    cases hrun
    have hfirst := meets_updateColumn hsuits.left h htypes mem_cons_self hupdate
    have hscopes : s₁.scopes = s.scopes :=
      (after_of_ok hupdate ▸ follows_updateColumn Γ.input a s).scopes
    have hrestTypes : Assigns s type? rest :=
      fun b hb => htypes b (mem_cons_of_mem _ hb)
    have hrest := meets_updateColumns hsuits.right hfirst.traced
      (hrestTypes.after hfirst.grown hscopes) hupdateRest
    rw [Assignment.traceList, ← Trace.append_assoc]
    exact hfirst.trans hrest

/-! ### Insertions -/

/-- A column of a table that is found by name has the type of the column with that name. -/
theorem declared_of_column? {table : Table} {name : String} {i : Nat} {column : SourceColumn}
    (hcolumns : HasColumns s source table) (hcolumn : source.column? name = some (i, column)) :
    ∃ d, table.column? name = some d ∧ DeclaredIn s column.var d.type := by
  obtain ⟨index, hindex, hrest⟩ := Option.bind_eq_some_iff.1 hcolumn
  obtain ⟨found, hfound, hpair⟩ := Option.bind_eq_some_iff.1 hrest
  cases hpair
  obtain ⟨d, hd, -, hdeclared⟩ := forall₂_find? hcolumns
    (fun c d hcd => by rw [hcd.1]) hindex hfound
  exact ⟨d, hd, hdeclared⟩

theorem met_namedTargets {table : Table} (h : Traced Γ s frames t)
    (hcolumns : HasColumns s source table) :
    ∀ {names : List String} {targets : List Target}, namedTargets source names = .ok targets →
      TargetsMet Γ s t targets
        (names.map fun name => (table.column? name).map Column.type)
  | [], _, hrun => by
    cases hrun
    exact .nil
  | name :: rest, _, hrun => by
    rw [namedTargets] at hrun
    split at hrun
    next i column hcolumn =>
      cases hothers : namedTargets source rest with
      | error error =>
        rw [hothers] at hrun
        cases hrun
      | ok others =>
        rw [hothers] at hrun
        cases hrun
        obtain ⟨d, hd, hdeclared⟩ := declared_of_column? hcolumns hcolumn
        refine .cons ⟨h.known_of_declared hdeclared, ?_⟩ (met_namedTargets h hcolumns hothers)
        intro T hT
        dsimp only at hT
        rw [hd] at hT
        cases hT
        exact hdeclared
    next => cases hrun

theorem met_insertionTargets {table : Table} {names : List String}
    (h : Traced Γ s frames t) (hcolumns : HasColumns s source table)
    (hrun : insertionTargets source names = .ok targets) :
    TargetsMet Γ s t targets (table.storedTypes names) := by
  unfold insertionTargets at hrun
  unfold Table.storedTypes
  split at hrun
  next hempty =>
    cases hrun
    rw [if_pos hempty]
    refine List.forall₂_map_left_iff.2 (List.forall₂_map_right_iff.2 (hcolumns.imp ?_))
    intro c d hcd
    refine ⟨h.known_of_declared hcd.2, fun T hT => ?_⟩
    cases hT
    exact hcd.2
  next hnamed =>
    rw [if_neg hnamed]
    exact met_namedTargets h hcolumns hrun

theorem learns_assignColumns : ∀ {targets : List Target} {columns : List ShapeColumn},
    targets.map Target.var ⊆ needs → columns.map ShapeColumn.var ⊆ needs →
    Learns Γ frames [] needs {} (assignColumns targets columns) fun _ => []
  | [], _, _, _ => learns_pure (nil_subset _)
  | _ :: _, [], _, _ => learns_pure (nil_subset _)
  | target :: targets, column :: columns, htargets, hcolumns => by
    obtain ⟨htarget, htargets⟩ := cons_subset.1 htargets
    obtain ⟨hcolumn, hcolumns⟩ := cons_subset.1 hcolumns
    have hrest := learns_assignColumns htargets hcolumns
    refine (learns_equate hcolumn htarget).then fun _ => ?_
    split
    · exact hrest
    · split
      · exact (speaks_markNullableExpr _).learns.then fun _ => hrest
      · exact hrest

theorem meets_assignSource {types : List (Option SqlType)} :
    ∀ {source : InsertSource}, Suits Γ source.nodes →
    Traced Γ s frames t → TargetsMet Γ s t targets types →
    assignSource Γ.input targets source s = .ok slots s' →
    Meets Γ frames (t ++ source.trace frames types) s s'
  | .values rows, hsuits, h, htargets, hrun => meets_assignRows hsuits h htargets hrun
  | .query query, hsuits, h, htargets, hrun => by
    obtain ⟨shape, s₁, hisolated, hrun⟩ := bind_eq_ok.1 hrun
    obtain ⟨_, s₂, hassign, hrun⟩ := bind_eq_ok.1 hrun
    cases hrun
    obtain ⟨s₃, hwalk, hstart, hend⟩ := meets_isolated h hisolated
    obtain ⟨hquery, hcolumns, -⟩ := meets_walkQuery query hsuits hstart hwalk
    obtain ⟨hmeets, hleave⟩ := hend _ hquery
    obtain ⟨hassigned, -⟩ := learns_assignColumns (subset_append_left _ _)
      (subset_append_right _ _) hmeets.traced nofun (forall_mem_append.2 ⟨by
        intro w hw
        obtain ⟨target, htarget, rfl⟩ := mem_map.1 hw
        obtain ⟨i, hi⟩ := mem_iff_getElem?.1 htarget
        obtain ⟨type, -, hmet⟩ := forall₂_getElem? htargets hi
        exact hmet.known.after hmeets.grown, by
        intro w hw
        obtain ⟨c, hc, rfl⟩ := mem_map.1 hw
        exact (hcolumns c hc).in_state hleave⟩) hassign
    rw [Trace.append_empty] at hassigned
    exact hmeets.trans hassigned

/-- A column that is looked up where there is one table is a column of that table. -/
theorem column?_of_resolve {scope : Scope} {c : ColumnRef} {bound : BoundColumn}
    (hsources : scope.sources = [source]) (h : Scopes.resolve #[scope] c = .ok (.column bound)) :
    ∃ i column, source.column? c.name = some (i, column) ∧ bound.var = column.var := by
  have hresolve : Scopes.resolve (Array.push #[] scope) c = .ok (.column bound) := h
  have hscope : bound.scope < 1 := Scopes.scope_lt_of_resolve h
  obtain ⟨-, column, hcolumn, rfl⟩ :=
    Scopes.column?_of_resolve_push hsources hresolve (Nat.lt_one_iff.1 hscope)
  exact ⟨column.1, column.2, hcolumn, rfl⟩

theorem scopes_eq_singleton {frame : List TableFactor}
    (h : Traced Γ s [frame] t) : s.scopes = #[s.inner] := by
  have hframes : Traced Γ s ([] ++ [frame]) t := h
  have hinner : s.scopes[0]? = some s.inner := hframes.inner_met.2.1
  have hsize : s.scopes.size = 1 := h.depth
  refine Array.ext hsize fun i hi hi' => ?_
  have hzero : i = 0 := by simp at hi'; omega
  subst hzero
  rw [Array.getElem?_eq_getElem hi] at hinner
  exact Option.some.inj hinner

theorem meets_walkInsertion {insertion : Insertion}
    (hsuits : Suits Γ (StatementKind.insert insertion).nodes) (h : Traced Γ s [] t)
    (hrun : walkInsertion Γ.input insertion s = .ok shape s') :
    Meets Γ [] (t ++ insertion.trace Γ.input.catalog) s s' := by
  obtain ⟨⟨slots, scope⟩, s₁, hscope, hrun⟩ := bind_eq_ok.1 hrun
  cases hrun
  have hempty : ScopeMet Γ s t [insertion.table.factor] {} := .empty
  obtain ⟨s₂, hinside, hstart, hend⟩ := meets_inScope h hempty hscope
  obtain ⟨source, a₁, htable, hinside⟩ := bind_eq_ok.1 hinside
  obtain ⟨hsourced, hsource⟩ := meets_tableSource hstart htable
  have hnone : a₁.inner.sources = [] := by
    rw [inner_of_follows (follows_tableSource Γ.input _ _ _) htable, inner_push]
  obtain ⟨index, a₂, hpush, hinside⟩ := bind_eq_ok.1 hinside
  have hpushed := meets_pushSource (show Traced _ _ ([] ++ [_]) _ from hsourced.traced)
    (by rw [hnone]; rfl) (hsource default) hpush
  obtain ⟨targets, a₃, htargets, hinside⟩ := bind_eq_ok.1 hinside
  obtain ⟨first, a₄, hassign, hinside⟩ := bind_eq_ok.1 hinside
  obtain ⟨others, a₅, hduplicates, hinside⟩ := bind_eq_ok.1 hinside
  cases hinside
  obtain ⟨table, hfound, hcolumns⟩ :=
    (hsource default).declared _ _ _ _ rfl
  have hcolumns₂ := hcolumns.imp fun _ _ hcd => And.imp_right (·.after hpushed.grown) hcd
  have hinner : a₂.inner.sources = [source] := by
    obtain ⟨-, hinner, -⟩ := pushSource_inner hsourced.traced.inner_met.1 hpush
    rw [hinner, hnone]
    rfl
  cases hmade : insertionTargets source insertion.columns with
  | error error =>
    rw [hmade] at htargets
    cases htargets
  | ok made =>
    rw [hmade] at htargets
    cases htargets
    have hassigned := meets_assignSource hsuits.left hpushed.traced
      (met_insertionTargets hpushed.traced hcolumns₂ hmade) hassign
    have hscopes : a₄.scopes = a₂.scopes :=
      (after_of_ok hassign ▸ follows_assignSource Γ.input targets insertion.source a₂).scopes
    have hassigns : Assigns a₂ table.assignedType insertion.onDuplicate := by
      intro a _ bound T hbound hT
      rw [scopes_eq_singleton hpushed.traced] at hbound
      obtain ⟨i, column, hcolumn, hvar⟩ := column?_of_resolve hinner hbound
      obtain ⟨d, hd, hdeclared⟩ := declared_of_column? hcolumns₂ hcolumn
      rw [Table.assignedType, show table.column? a.column = some d from hd] at hT
      cases hT
      rw [hvar]
      exact hdeclared
    have hduplicated := meets_assignDuplicates hsuits.right hassigned.traced
      (hassigns.after hassigned.grown hscopes) hduplicates
    obtain ⟨hmeets, -, -, -⟩ :=
      hend _ (((hsourced.trans hpushed).trans hassigned).trans hduplicated)
    rw [Insertion.trace, hfound]
    dsimp only
    rw [← Trace.append_assoc]
    exact hmeets

/-! ### Updates and deletions -/

theorem learns_walkFilter : ∀ {filter : Option Expr}, Suits Γ (Expr.nodesOption filter) →
    Learns Γ frames [] needs (Expr.traceOption frames filter)
      (walkFilter Γ.input filter) fun _ => []
  | none, _ => learns_pure (nil_subset _)
  | some filter, hsuits => (learns_walk filter hsuits).last fun _ =>
    learns_get fun _ => learns_pure (nil_subset _)

theorem meets_walkUpdate {update : Update} {placeholders : Nat}
    (hsuits : Suits Γ (StatementKind.update update).nodes)
    (h : Traced Γ (.initial Γ.input placeholders) [] t)
    (hrun : walkUpdate Γ.input update (.initial Γ.input placeholders) = .ok shape s') :
    Meets Γ [] (t ++ update.trace Γ.input placeholders)
      (.initial Γ.input placeholders) s' := by
  obtain ⟨⟨slots, scope⟩, s₁, hscope, hrun⟩ := bind_eq_ok.1 hrun
  cases hrun
  have hempty : ScopeMet Γ (.initial Γ.input placeholders) t
      (TableRef.factors update.tables) {} := .empty
  obtain ⟨s₂, hinside, hstart, hend⟩ := meets_inScope h hempty hscope
  obtain ⟨_, a₁, hclause, hinside⟩ := bind_eq_ok.1 hinside
  obtain ⟨joined, a₂, hwalkTables, hinside⟩ := bind_eq_ok.1 hinside
  have hwalked : update.walkSources Γ.input
      { AnalysisState.initial Γ.input placeholders with scopes := #[{}] } = .ok joined a₂ :=
    bind_eq_ok.2 ⟨_, a₁, hclause, hwalkTables⟩
  obtain ⟨htables, -⟩ := (fills_noteClause update.tables).then (fun _ =>
    fills_walkTables update.tables hsuits.left.left (prefix_refl _)) hstart
    (by rw [inner_push]) hwalked
  obtain ⟨first, a₃, hupdate, hinside⟩ := bind_eq_ok.1 hinside
  obtain ⟨others, a₄, hwalkFilter, hinside⟩ := bind_eq_ok.1 hinside
  cases hinside
  have hassigns : Assigns a₂ (update.assignedType Γ.input placeholders) update.assignments := by
    intro a _ bound T hbound hT
    rw [Update.assignedType, Update.scopes, after_of_ok hwalked, Assignment.declaredType,
      hbound] at hT
    exact (htables.traced.resolve hbound).2 bound T rfl hT
  have hupdated := meets_updateColumns hsuits.left.right htables.traced hassigns hupdate
  obtain ⟨hfiltered, -⟩ := (learns_walkFilter hsuits.right).run hupdated.traced hwalkFilter
  obtain ⟨hmeets, -, -, -⟩ := hend _ ((htables.trans hupdated).trans hfiltered)
  rw [Update.trace, ← Trace.append_assoc, ← Trace.append_assoc]
  exact hmeets

theorem meets_walkDeletion {deletion : Deletion}
    (hsuits : Suits Γ (StatementKind.delete deletion).nodes) (h : Traced Γ s [] t)
    (hrun : walkDeletion Γ.input deletion s = .ok shape s') :
    Meets Γ []
      (t ++ Expr.traceOption [[deletion.table.factor]] deletion.filter) s s' := by
  obtain ⟨⟨slots, scope⟩, s₁, hscope, hrun⟩ := bind_eq_ok.1 hrun
  cases hrun
  have hempty : ScopeMet Γ s t [deletion.table.factor] {} := .empty
  obtain ⟨s₂, hinside, hstart, hend⟩ := meets_inScope h hempty hscope
  obtain ⟨index, a₂, hadd, hwalkFilter⟩ := bind_eq_ok.1 hinside
  obtain ⟨hpushed, -⟩ := fills_pushSource (n := 0)
    (meets_walkFactor deletion.table.factor nofun) (follows_walkFactor Γ.input _) rfl
    (show Traced _ _ ([] ++ [_]) _ from hstart)
    (by rw [inner_push]; rfl) hadd
  rw [show deletion.table.factor.trace = {} from rfl, Trace.append_empty] at hpushed
  obtain ⟨hfiltered, -⟩ := (learns_walkFilter hsuits).run hpushed.traced hwalkFilter
  exact (hend _ (hpushed.trans hfiltered)).1

end Analysis

/-! ### Where a walk starts -/

namespace AnalysisState

/-- What is known of the variables that are added for bound values: they are there and free, and one
without a name is new. -/
structure Allotted (named : List (String × TypeVar)) (solver : Solver)
    (names : List (Option String)) (vars : List TypeVar) (solver' : Solver) : Prop where
  length : vars.length = names.length
  size : solver.vars.size ≤ solver'.vars.size
  constraints : solver'.constraints = solver.constraints
  rigid : ∀ v, solver'.vars.IsRigid v → solver.vars.IsRigid v
  inside : ∀ v ∈ vars, v.index < solver'.vars.size
  old : ∀ v ∈ vars, v.index < solver.vars.size → ∃ entry ∈ named, entry.2 = v
  unnamed : ∀ (j : Nat) (v : TypeVar), names[j]? = some none → vars[j]? = some v →
    solver.vars.size ≤ v.index
  distinct : ∀ (i j : Nat) (v : TypeVar), names[j]? = some none → vars[i]? = some v →
    vars[j]? = some v → i = j

theorem rigid_of_fresh {vs : TypeVars} {v : TypeVar} (h : (vs.fresh true).2.IsRigid v) :
    vs.IsRigid v := by
  by_cases hv : v.index < vs.size
  · exact (Analysis.isRigid_fresh vs true hv).1 h
  · have hlt := h.lt
    rw [Analysis.size_fresh] at hlt
    have hindex : v.index = vs.entries.size := by
      unfold TypeVars.size at hv hlt
      omega
    rw [TypeVars.IsRigid, TypeVars.fresh, hindex, Array.getElem?_push_size] at h
    cases h

/-- A bound value before others. -/
theorem Allotted.cons {named named' : List (String × TypeVar)} {solver middle solver' : Solver}
    {name : Option String} {names : List (Option String)} {var : TypeVar} {vars : List TypeVar}
    (h : Allotted named' middle names vars solver') (hsize : solver.vars.size ≤ middle.vars.size)
    (hconstraints : middle.constraints = solver.constraints)
    (hrigid : ∀ v, middle.vars.IsRigid v → solver.vars.IsRigid v)
    (hinside : var.index < middle.vars.size)
    (hold : var.index < solver.vars.size → ∃ entry ∈ named, entry.2 = var)
    (hnamed : ∀ entry ∈ named', entry ∈ named ∨ entry.2 = var ∧ solver.vars.size ≤ var.index)
    (hbelow : ∀ entry ∈ named, entry.2.index < solver.vars.size)
    (hnew : name = none → named' = named ∧ solver.vars.size ≤ var.index) :
    Allotted named solver (name :: names) (var :: vars) solver' := by
  refine ⟨?_, Nat.le_trans hsize h.size, h.constraints.trans hconstraints,
    fun v hv => hrigid v (h.rigid v hv), ?_, ?_, ?_, ?_⟩
  · rw [length_cons, length_cons, h.length]
  · exact forall_mem_cons.2 ⟨Nat.lt_of_lt_of_le hinside h.size, h.inside⟩
  · refine forall_mem_cons.2 ⟨hold, fun v hv hlt => ?_⟩
    obtain ⟨entry, hentry, rfl⟩ := h.old v hv (Nat.lt_of_lt_of_le hlt hsize)
    rcases hnamed entry hentry with hentry | ⟨heq, hle⟩
    · exact ⟨entry, hentry, rfl⟩
    · rw [heq] at hlt
      omega
  · intro j v hname hv
    cases j with
    | zero =>
      cases hname
      cases hv
      exact (hnew rfl).2
    | succ j => exact Nat.le_trans hsize (h.unnamed j v hname hv)
  · intro i j v hname hi hj
    cases i with
    | zero =>
      cases hi
      cases j with
      | zero => rfl
      | succ j =>
        have hle := h.unnamed j var hname hj
        omega
    | succ i =>
      cases j with
      | zero =>
        -- the first is new, and the others are older or newer still
        cases hname
        cases hj
        obtain ⟨rfl, hle⟩ := hnew rfl
        obtain ⟨entry, hentry, heq⟩ := h.old var (mem_of_getElem? hi) hinside
        have hlt := hbelow entry hentry
        rw [heq] at hlt
        omega
      | succ j => rw [h.distinct i j v hname hi hj]

theorem allotted_addParameters : ∀ (names : List (Option String))
    {named : List (String × TypeVar)} {solver : Solver},
    (∀ entry ∈ named, entry.2.index < solver.vars.size) →
    Allotted named solver names (addParameters named solver names).1
      (addParameters named solver names).2
  | [], _, _, _ => by
    refine ⟨rfl, Nat.le_refl _, rfl, fun _ hv => hv, ?_, ?_, ?_, ?_⟩
    · intro v hv
      cases hv
    · intro v hv
      cases hv
    · intro j v hname
      cases hname
    · intro i j v hname
      cases hname
  | none :: rest, named, solver, hbelow => by
    have hsize : solver.vars.size ≤ (solver.fresh true).2.vars.size := by
      show solver.vars.size ≤ (solver.vars.fresh true).2.size
      rw [Analysis.size_fresh]
      omega
    have hrest : Allotted named (solver.fresh true).2 rest _ _ :=
      allotted_addParameters rest fun entry hentry => Nat.lt_of_lt_of_le (hbelow entry hentry) hsize
    refine hrest.cons hsize rfl (fun v hv => rigid_of_fresh hv) ?_ ?_ (fun _ h => .inl h) hbelow
      fun _ => ⟨rfl, Nat.le_refl _⟩
    · show solver.vars.size < (solver.vars.fresh true).2.size
      rw [Analysis.size_fresh]
      omega
    · exact fun hlt => absurd hlt (Nat.lt_irrefl _)
  | some name :: rest, named, solver, hbelow => by
    rw [addParameters, addParameter]
    cases hlookup : named.lookup name with
    | some var =>
      obtain ⟨before, behind, heq, -⟩ := lookup_eq_some_iff.1 hlookup
      have hmem : (name, var) ∈ named := by
        rw [heq]
        simp
      have hrest : Allotted named solver rest _ _ := allotted_addParameters rest hbelow
      exact hrest.cons (Nat.le_refl _) rfl (fun _ hv => hv) (hbelow _ hmem)
        (fun _ => ⟨(name, var), hmem, rfl⟩) (fun _ h => .inl h) hbelow nofun
    | none =>
      have hsize : solver.vars.size < (solver.fresh true).2.vars.size := by
        show solver.vars.size < (solver.vars.fresh true).2.size
        rw [Analysis.size_fresh]
        omega
      have hrest :
          Allotted ((name, (solver.fresh true).1) :: named) (solver.fresh true).2 rest _ _ :=
        allotted_addParameters rest (forall_mem_cons.2
          ⟨hsize, fun entry hentry => Nat.lt_trans (hbelow entry hentry) hsize⟩)
      refine hrest.cons (Nat.le_of_lt hsize) rfl (fun v hv => rigid_of_fresh hv) hsize ?_ ?_ hbelow
        nofun
      · exact fun hlt => absurd hlt (Nat.lt_irrefl _)
      · exact forall_mem_cons.2 ⟨.inr ⟨rfl, Nat.le_refl _⟩, fun _ => .inl⟩

/-- The variables of bound values. -/
def parameterVars (s : AnalysisState) : List TypeVar :=
  s.parameters.toList.map ParameterFacts.var

/-- A walk starts in a state that has met nothing. -/
theorem traced_initial (input : AnalysisInput) (placeholders : Nat) (isColumn : Nat → Bool) :
    Analysis.Traced ⟨input, (initial input placeholders).parameterVars, isColumn⟩
        (initial input placeholders) [] {} ∧
      (initial input placeholders).parameterVars.length = placeholders := by
  have hallotted : Allotted [] .empty ((List.range placeholders).map input.name?) _ _ :=
    allotted_addParameters _ nofun
  have hvars : (initial input placeholders).parameterVars =
      (addParameters [] .empty ((List.range placeholders).map input.name?)).1 := by
    simp [parameterVars, initial, Function.comp_def]
  have hconstraints : (initial input placeholders).solver.constraints.toList = [] := by
    show (addParameters [] .empty
      ((List.range placeholders).map input.name?)).2.constraints.toList = []
    rw [hallotted.constraints]
    rfl
  have hlength : (initial input placeholders).parameterVars.length = placeholders := by
    rw [hvars, hallotted.length, length_map, length_range]
  refine ⟨⟨rfl, ?_, ?_, ?_, nofun, .refl _, nofun, ?_, ?_, rfl, ?_⟩, hlength⟩
  · intro v hv
    rw [hvars] at hv
    refine ⟨hallotted.inside v hv, fun hrigid => ?_⟩
    exact absurd (hallotted.rigid v hrigid).lt (Nat.not_lt_zero _)
  · intro i j v hname hi hj
    have hj' : j < placeholders := by
      rw [← hlength]
      exact (List.getElem?_eq_some_iff.1 hj).1
    rw [hvars] at hi hj
    refine hallotted.distinct i j v ?_ hi hj
    rw [getElem?_map, getElem?_range hj', Option.map_some, hname]
  · rintro v ⟨entry, hentry, -⟩
    cases hentry
  · intro d hd
    rw [hconstraints] at hd
    cases hd
  · refine ⟨[], rfl, nofun, fun d hd => ?_⟩
    rw [hconstraints] at hd
    cases hd
  · intro k scope frame hscope
    simp [initial] at hscope

end AnalysisState

/-! ### Statements -/

namespace Statement

open Analysis

/-- Whether a number is that of a column name. -/
def isColumn (statement : Statement) (k : Nat) : Bool :=
  statement.kind.nodes.any fun n => n.id == k && n.isColumnName

/-- What the walk over a statement is over. -/
abbrev setting (input : AnalysisInput) (statement : Statement) : Setting where
  input
  params := (AnalysisState.initial input statement.placeholders).parameterVars
  isColumn := statement.isColumn

theorem traced_start (input : AnalysisInput) (statement : Statement) :
    Traced (statement.setting input) (.initial input statement.placeholders) [] {} :=
  (AnalysisState.traced_initial input statement.placeholders statement.isColumn).1

theorem length_params (input : AnalysisInput) (statement : Statement) :
    (statement.setting input).params.length = statement.placeholders :=
  (AnalysisState.traced_initial input statement.placeholders statement.isColumn).2

/-- The nodes of a statement that was read tell column names and other nodes apart by numbers. -/
theorem suits_nodes {text : String} {statement : Statement} {input : AnalysisInput}
    (h : parse text = .ok statement) : Suits (statement.setting input) statement.kind.nodes := by
  intro n hn
  constructor
  · cases hcolumn : n.isColumnName with
    | true => exact any_eq_true.2 ⟨n, hn, by simp [hcolumn]⟩
    | false =>
      refine any_eq_false.2 fun m hm htest => ?_
      obtain ⟨hid, hmColumn⟩ := Bool.and_eq_true_iff.1 htest
      have hnodup : (statement.kind.nodes.map Expr.id).Nodup :=
        (ids_perm h).nodup_iff.2 nodup_range
      have heq : m = n := inj_on_of_nodup_map hnodup hm hn (beq_iff_eq.1 hid)
      rw [heq, hcolumn] at hmColumn
      cases hmColumn
  · intro i hi
    have hmem : i ∈ statement.kind.nodes.filterMap Expr.ordinal? :=
      mem_filterMap.2 ⟨n, hn, hi⟩
    rw [length_params]
    exact mem_range.1 ((ordinals_perm h).mem_iff.1 hmem)

theorem run_of_stateAfter {α : Type} {step : Analysis α} {s s' : AnalysisState}
    (h : stateAfter step s = .ok s') : ∃ a, step s = .ok a s' := by
  unfold stateAfter at h
  cases hrun : step s with
  | ok a t =>
    rw [hrun] at h
    cases h
    exact ⟨a, rfl⟩
  | error e t =>
    rw [hrun] at h
    cases h

variable {text : String} {statement : Statement} {input : AnalysisInput} {s : AnalysisState}

/-- The walk over a statement that was read meets the trace of the statement. -/
theorem traced_of_walked (hparse : parse text = .ok statement)
    (hwalked : statement.walked input = .ok s) :
    Traced (statement.setting input) s [] (statement.trace input) := by
  have hstart := traced_start input statement
  have hsuits : Suits (statement.setting input) _ := suits_nodes hparse
  unfold walked at hwalked
  unfold trace
  generalize statement.kind = kind at hwalked hsuits ⊢
  cases kind with
  | select query =>
    obtain ⟨shape, hrun⟩ := run_of_stateAfter hwalked
    exact (meets_walkQuery query hsuits hstart hrun).1.traced
  | insert insertion =>
    obtain ⟨shape, hrun⟩ := run_of_stateAfter hwalked
    exact (meets_walkInsertion hsuits hstart hrun).traced
  | update update =>
    obtain ⟨shape, hrun⟩ := run_of_stateAfter hwalked
    exact (meets_walkUpdate hsuits hstart hrun).traced
  | delete deletion =>
    obtain ⟨shape, hrun⟩ := run_of_stateAfter hwalked
    exact (meets_walkDeletion hsuits hstart hrun).traced

end Statement

end SqlSignature
