import SqlSignature.Proofs.DeclaredColumns
import SqlSignature.Proofs.JoinNullability
import SqlSignature.Proofs.NotedNames
import SqlSignature.Proofs.RelationParents
/-!
# SqlSignature.Proofs.LayoutOrigins

The layout of a query fits its result columns. The tables of the layout are those of the first
specification, in their order; links lead to earlier tables; and every result column with an origin
comes from a column of the table that the origin names (`Layout.Outlines`). This holds after the
walk over a query (`Analysis.outlines_walkQuery`) and of the result of an analysis
(`Statement.outlines_of_analyze`).
-/

open List

namespace SqlSignature

/-- Whether an origin names a column of one of some tables. -/
def ColumnOrigin.IsIn (origin : ColumnOrigin) (sources : List Source) : Prop :=
  ∃ source, sources[origin.source]? = some source ∧ source.table = origin.table ∧
    source.visible = origin.visible ∧ ∃ column ∈ source.columns, column.name = origin.column

/-- Whether an origin names a column of a table of a layout. -/
def Layout.Holds (layout : Layout) (origin : ColumnOrigin) : Prop :=
  ∃ source, layout.sources[origin.source]? = some source ∧ source.table = origin.table ∧
    source.visible = origin.visible ∧ origin.column ∈ source.columns.map Prod.fst

/-- A layout that fits the tables of a specification and the origins of result columns. -/
structure Layout.Outlines (layout : Layout) (factors : List TableFactor)
    (origins : List (Option ColumnOrigin)) : Prop where
  linksBack : layout.LinksBack
  sources : layout.sources.map LayoutSource.visible = factors.map TableFactor.visibleName
  origins : ∀ origin, some origin ∈ origins → layout.Holds origin

/-! ### Links -/

namespace AnalysisState

theorem linkBetween_lt {joined : Nat} {left right : BoundColumn} {link : JoinLink}
    (h : linkBetween joined left right = some link) : link.parent < link.child := by
  unfold linkBetween at h
  grind

theorem sharedLink_lt {sources : List Source} {joined : Nat} {column : String} {link : JoinLink}
    (h : sharedLink sources joined column = some link) : link.parent < link.child := by
  obtain ⟨parent, hparent, rfl⟩ := Option.map_eq_some_iff.1 h
  obtain ⟨hlt, -⟩ := findIdx?_eq_some_iff_getElem.1 hparent
  rw [length_take] at hlt
  exact Nat.lt_of_lt_of_le hlt (Nat.min_le_left _ _)

/-- The links that joins make lead to earlier tables. -/
theorem links_lt (s : AnalysisState) (sources : List Source) (shape : TablesShape) {link : JoinLink}
    (h : link ∈ s.links sources shape) : link.parent < link.child := by
  rcases mem_append.1 h with hcondition | hshared
  · obtain ⟨⟨joined, condition⟩, -, hlink⟩ := mem_flatMap.1 hcondition
    obtain ⟨conjunct, -, hlink⟩ := mem_filterMap.1 hlink
    unfold linkOf at hlink
    split at hlink
    next left right _ =>
      obtain ⟨leftBound, -, hlink⟩ := Option.bind_eq_some_iff.1 hlink
      obtain ⟨rightBound, -, hlink⟩ := Option.bind_eq_some_iff.1 hlink
      exact linkBetween_lt hlink
    next => cases hlink
  · obtain ⟨⟨joined, column⟩, -, hlink⟩ := mem_filterMap.1 hshared
    exact sharedLink_lt hlink

theorem map_visible_layout (s : AnalysisState) (text : String) (shape : TablesShape)
    (items : List LayoutItem) (filter : Option Expr) :
    (s.layout text shape items filter).sources.map LayoutSource.visible =
      s.inner.sources.map Source.visible := by
  refine ext_getElem? fun j => ?_
  simp [layout, layoutSource, inner, Function.comp_def]

/-- The layout of a specification holds what comes from the tables in scope. -/
theorem holds_layout {s : AnalysisState} {origin : ColumnOrigin} (h : origin.IsIn s.inner.sources)
    (text : String) (shape : TablesShape) (items : List LayoutItem) (filter : Option Expr) :
    (s.layout text shape items filter).Holds origin := by
  obtain ⟨source, hsource, htable, hvisible, column, hcolumn, hname⟩ := h
  refine ⟨layoutSource source (shape.fragments[origin.source]?.getD ""), ?_, htable, hvisible, ?_⟩
  · rw [layout, getElem?_mapIdx, show (s.scopes.back?.getD {}).sources[origin.source]? = _
      from hsource]
    rfl
  · rw [layoutSource, map_map, ← hname]
    exact mem_map_of_mem hcolumn

end AnalysisState

namespace Scopes

variable {scopes : Scopes} {scope : Scope}

/-- A column of the innermost scope comes from a table of that scope. -/
theorem Offers.isIn {bound : BoundColumn} (h : scopes.Offers (.column bound))
    (hinnermost : bound.scope = scopes.innermost) (hback : scopes.back? = some scope) :
    bound.origin.IsIn scope.sources := by
  cases h with
  | @column k j i found source column hfound hsource hcolumn =>
    have hk : k = scopes.size - 1 := hinnermost
    rw [Array.back?_eq_getElem?, ← hk, hfound] at hback
    cases hback
    exact ⟨source, hsource, rfl, rfl, column, mem_of_getElem? hcolumn, rfl⟩

end Scopes

/-! ### Select lists -/

namespace Analysis

variable {Γ : Setting} {frames : Frames}
  {t : Trace} {s s' : AnalysisState} {frame : List TableFactor}

/-- Whether result columns come from tables of a scope. -/
def OriginsIn (sources : List Source) (columns : List ShapeColumn) : Prop :=
  ∀ column ∈ columns, ∀ origin ∈ column.origin, origin.IsIn sources

theorem OriginsIn.append {sources : List Source} {columns more : List ShapeColumn}
    (h : OriginsIn sources columns) (hmore : OriginsIn sources more) :
    OriginsIn sources (columns ++ more) :=
  forall_mem_append.2 ⟨h, hmore⟩

/-- An expression that has been analysed stands for a column of a table in scope, if for any. -/
theorem isIn_walk {value : Expr} {v : TypeVar} {bound : BoundColumn} (hsuits : Suits Γ value.nodes)
    (h : Traced Γ s (frames ++ [frame]) t)
    (hrun : walk Γ.input value s = .ok v s') (hbound : s'.localColumn? value = some bound) :
    bound.origin.IsIn s'.inner.sources := by
  have hvalue := (learns_walk value hsuits).gives h hrun
  obtain ⟨hreference, hinnermost⟩ := AnalysisState.localColumn?_eq_some hbound
  obtain ⟨hs, -, -⟩ := hvalue.traced.inner_met
  have hcolumn : Γ.isColumn value.id = true := by
    obtain ⟨before, behind, hsplit, -⟩ := lookup_eq_some_iff.1 hreference
    refine (hvalue.traced.references (value.id, .column bound) ?_).1
    rw [hsplit]
    exact mem_append_right _ mem_cons_self
  obtain ⟨id, span, form⟩ := value
  have hname : (Expr.node id span form).isColumnName = true := by
    rw [← hcolumn]
    exact hsuits.head.1.symm
  cases form with
  | column ref =>
    rw [walk, walkForm] at hrun
    obtain ⟨r, hresolve, -, rfl⟩ := bindColumn_eq_ok hrun
    rw [AnalysisState.reference?, lookup_cons_self] at hreference
    cases hreference
    exact (Scopes.offers_resolve hresolve).isIn hinnermost (back?_eq_inner hs)
  | _ => cases hname

theorem originsIn_selectBound {shape shape' : SelectionShape}
    {expand : Scopes → Except AnalysisError (List BoundColumn)} {span : Span}
    (hexpand : Scopes.Expands expand)
    (hs : 0 < s.scopes.size) (hshape : OriginsIn s.inner.sources shape.columns)
    (hrun : selectBound Γ.input shape expand span s = .ok shape' s') :
    s' = s ∧ OriginsIn s.inner.sources shape'.columns := by
  obtain ⟨rfl, bound, hbound, hcolumns⟩ := selectBound_eq_ok hrun
  refine ⟨rfl, ?_⟩
  rw [hcolumns]
  refine hshape.append fun column hcolumn origin horigin => ?_
  obtain ⟨b, hb, rfl⟩ := mem_map.1 hcolumn
  cases horigin
  obtain ⟨hoffers, hinnermost⟩ := hexpand _ bound hbound b hb
  exact hoffers.isIn hinnermost (back?_eq_inner hs)

theorem originsIn_selectExpr {shape shape' : SelectionShape} {value : Expr} {v : TypeVar}
    {label : Option String} {span : Span}
    (hvalue : ∀ bound, s.localColumn? value = some bound → bound.origin.IsIn s.inner.sources)
    (hshape : OriginsIn s.inner.sources shape.columns)
    (hrun : selectExpr Γ.input shape value v label span s = .ok shape' s') :
    OriginsIn s.inner.sources shape'.columns := by
  replace hrun := of_get hrun
  obtain ⟨_, s₁, -, hrun⟩ := bind_eq_ok.1 hrun
  cases hrun
  refine hshape.append fun column hcolumn origin horigin => ?_
  obtain rfl := mem_singleton.1 hcolumn
  obtain ⟨bound, hbound, rfl⟩ := Option.map_eq_some_iff.1 horigin
  exact hvalue bound hbound

/-- The result columns of a select list come from tables in scope. -/
theorem originsIn_walkItems : (items : List SelectItem) → ∀ {t : Trace} {s s' : AnalysisState}
    {shape shape' : SelectionShape}, Suits Γ (SelectItem.nodesList items) →
    Traced Γ s (frames ++ [frame]) t →
    OriginsIn s.inner.sources shape.columns → walkItems Γ.input shape items s = .ok shape' s' →
    s'.inner.sources = s.inner.sources ∧ OriginsIn s.inner.sources shape'.columns
  | [], _, _, _, _, _, _, _, hshape, hrun => by
    cases hrun
    exact ⟨rfl, hshape⟩
  | .all span :: rest, _, _, _, _, _, hsuits, h, hshape, hrun => by
    obtain ⟨shape₁, s₁, hselect, hrest⟩ := bind_eq_ok.1 hrun
    obtain ⟨hs, -, -⟩ := h.inner_met
    obtain ⟨rfl, hshape₁⟩ := originsIn_selectBound Scopes.expands_expandAll hs hshape hselect
    exact originsIn_walkItems rest hsuits h hshape₁ hrest
  | .allOf name span :: rest, _, _, _, _, _, hsuits, h, hshape, hrun => by
    obtain ⟨shape₁, s₁, hselect, hrest⟩ := bind_eq_ok.1 hrun
    obtain ⟨hs, -, -⟩ := h.inner_met
    obtain ⟨rfl, hshape₁⟩ :=
      originsIn_selectBound (Scopes.expands_expandTable name) hs hshape hselect
    exact originsIn_walkItems rest hsuits h hshape₁ hrest
  | .expr value label span :: rest, _, s, _, shape, _, hsuits, h, hshape, hrun => by
    obtain ⟨var, s₁, hwalk, hrun⟩ := bind_eq_ok.1 hrun
    obtain ⟨shape₁, s₂, hselect, hrest⟩ := bind_eq_ok.1 hrun
    have hvalue := (learns_walk value hsuits.left).gives h hwalk
    have hinner : s₁.inner = s.inner := inner_of_follows (follows_walk Γ.input value) hwalk
    obtain ⟨hselected, hsources, -⟩ := meets_selectExpr hvalue.traced hvalue.known hselect
    rw [hinner] at hsources
    rw [← hinner] at hshape
    have hshape₁ := originsIn_selectExpr (fun _ => isIn_walk hsuits.left h hwalk) hshape hselect
    rw [hinner, ← hsources] at hshape₁
    rw [← hsources]
    exact originsIn_walkItems rest hsuits.right hselected.traced hshape₁ hrest

/-! ### Specifications -/

/-- A scope with all tables of a frame has their names. -/
theorem map_visible_of_traced (h : Traced Γ s (frames ++ [frame]) t)
    (hlength : s.inner.sources.length = frame.length) :
    s.inner.sources.map Source.visible = frame.map TableFactor.visibleName := by
  have hmet := (h.inner_met.2.2.forall₂ hlength).flip
  rw [← List.forall₂_eq_eq_eq, List.forall₂_map_left_iff, List.forall₂_map_right_iff]
  exact hmet.imp fun source factor (hsource : SourceMet _ _ _ factor source) => hsource.visible

/-- The layout of the first specification fits its result columns. -/
theorem outlines_walkSpecs {spec : QuerySpec} {rest : List QuerySpec} {shapes : List SpecShape}
    (hsuits : Suits Γ (QuerySpec.nodesList (spec :: rest))) (h : Traced Γ s frames t)
    (hrun : walkSpecs Γ.input (spec :: rest) s = .ok shapes s') :
    ∀ first ∈ shapes.head?, first.layout.Outlines (TableRef.factors spec.tables)
      (first.columns.map ShapeColumn.origin) := by
  obtain ⟨distinct, items, tables, filter, groupBy, having, span⟩ := spec
  rw [walkSpecs_cons] at hrun
  obtain ⟨⟨⟨columns, layout, singleRow⟩, scope⟩, s₁, hscope, hrun⟩ := bind_eq_ok.1 hrun
  obtain ⟨others, s₂, -, hrun⟩ := bind_eq_ok.1 hrun
  cases hrun
  rintro first ⟨⟩
  have hempty : ScopeMet Γ s t (TableRef.factors tables) {} := .empty
  obtain ⟨s₃, hinside, hstart, -⟩ := meets_inScope h hempty hscope
  have hsuitsSpec := hsuits.left
  obtain ⟨joined, s₄, hwalkSources, hinside⟩ := bind_eq_ok.1 hinside
  obtain ⟨⟨hjoined, -⟩, hcomplete⟩ := fills_walkSources (n := 0)
    (fills_walkTables tables hsuitsSpec.left.left.left.right (prefix_refl _))
    (learns_walkOption filter hsuitsSpec.left.left.right) hstart
    (by rw [inner_push]; rfl) hwalkSources
  rw [Nat.zero_add] at hcomplete
  obtain ⟨selected, s₅, hwalkItems, hinside⟩ := bind_eq_ok.1 hinside
  have hnone : OriginsIn s₄.inner.sources ({} : SelectionShape).columns := fun _ hc => by cases hc
  obtain ⟨hsources, horigins⟩ :=
    originsIn_walkItems items hsuitsSpec.left.left.left.left hjoined hnone hwalkItems
  have hsize : 0 < s₅.scopes.size := by
    have hkept := after_of_ok hwalkItems ▸ follows_walkItems Γ.input {} items s₄
    rw [hkept.depth]
    exact hjoined.inner_met.1
  -- what follows the select list leaves the tables as they are
  obtain ⟨_, s₆, hallow, hinside⟩ := bind_eq_ok.1 hinside
  obtain ⟨hallowed, -⟩ := modifyScope_inner hsize hallow
  obtain ⟨_, s₇, hwalkGroup, hinside⟩ := bind_eq_ok.1 hinside
  obtain ⟨_, s₈, hwalkHaving, hinside⟩ := bind_eq_ok.1 hinside
  replace hinside := of_get hinside
  cases hinside
  have hinner : s₃.inner.sources = s₄.inner.sources := by
    rw [inner_of_follows (follows_walkOption Γ.input having) hwalkHaving,
      inner_of_follows (follows_walkList Γ.input groupBy) hwalkGroup, hallowed, hsources]
  refine ⟨fun link hlink => s₃.links_lt _ _ hlink, ?_, ?_⟩
  · refine (AnalysisState.map_visible_layout _ _ _ _ _).trans ?_
    rw [hinner]
    exact map_visible_of_traced hjoined hcomplete
  · intro origin horigin
    obtain ⟨column, hcolumn, hmem⟩ := mem_map.1 horigin
    refine AnalysisState.holds_layout ?_ _ _ _ _
    rw [hinner]
    exact horigins column hcolumn origin hmem

/-! ### Queries -/

theorem origins_mergeColumns (branches : List (List ShapeColumn)) :
    ∀ (position : Nat) (columns : List ShapeColumn), Ensures (fun _ => True)
      (mergeColumns branches position columns) fun merged _ => ∀ column ∈ merged,
        column.origin = none
  | _, [] => .pure fun _ _ => nofun
  | position, column :: rest => by
    have hmerge : Ensures (fun _ => True)
        (mergeColumn column (branches.filterMap (·[position]?))) fun merged _ =>
          merged.origin = none :=
      .after fun _ => .after fun _ => .pure fun _ _ => rfl
    intro s merged s' _ hrun
    obtain ⟨first, s₁, hfirst, hrun⟩ := bind_eq_ok.1 hrun
    obtain ⟨others, s₂, hothers, hrun⟩ := bind_eq_ok.1 hrun
    cases hrun
    exact forall_mem_cons.2
      ⟨hmerge trivial hfirst, origins_mergeColumns branches _ rest trivial hothers⟩

/-- A union has no origins; one specification alone keeps its own. -/
theorem origins_unionColumns {first : List ShapeColumn} {branches : List SpecShape} :
    Ensures (fun _ => True) (unionColumns first branches) fun columns _ => ∀ origin,
      some origin ∈ columns.map ShapeColumn.origin →
        some origin ∈ first.map ShapeColumn.origin := by
  unfold unionColumns
  split
  · exact .pure fun _ _ origin horigin => horigin
  · refine (origins_mergeColumns _ 0 first).post fun columns _ hnone origin horigin => ?_
    obtain ⟨column, hcolumn, heq⟩ := mem_map.1 horigin
    rw [hnone column hcolumn] at heq
    cases heq

/-- The layout of a query fits its result columns. -/
theorem outlines_walkQuery {query : Query} {shape : QueryShape} (hsuits : Suits Γ query.nodes)
    (h : Traced Γ s frames t) (hrun : walkQuery Γ.input query s = .ok shape s') :
    ∃ spec, query.specs.head? = some spec ∧
      shape.layout.Outlines (TableRef.factors spec.tables)
        (shape.columns.map ShapeColumn.origin) := by
  obtain ⟨specs, unionAll, orderBy, limit, span⟩ := query
  obtain ⟨shapes, s₁, hwalkSpecs, hrun⟩ := bind_eq_ok.1 hrun
  cases specs with
  | nil =>
    cases hwalkSpecs
    cases hrun
  | cons spec rest =>
    have hfirst := outlines_walkSpecs hsuits.left.left h hwalkSpecs
    cases shapes with
    | nil => cases hrun
    | cons first branches =>
      obtain ⟨columns, s₂, hunion, hrun⟩ := bind_eq_ok.1 hrun
      obtain ⟨_, s₃, -, hrun⟩ := bind_eq_ok.1 hrun
      obtain ⟨_, s₄, -, hrun⟩ := bind_eq_ok.1 hrun
      cases hrun
      obtain ⟨hlinks, hsources, horigins⟩ := hfirst first rfl
      exact ⟨spec, rfl, hlinks, hsources,
        fun origin horigin => horigins origin (origins_unionColumns trivial hunion origin horigin)⟩

end Analysis

/-! ### Results -/

namespace Statement

variable {text : String} {statement : Statement} {input : AnalysisInput} {result : AnalysisResult}

/-- The layout of the result of a query fits the result columns. -/
theorem outlines_of_analyze {query : Query} (hparse : parse text = .ok statement)
    (hkind : statement.kind = .select query) (h : statement.analyze input = .ok result) :
    ∃ spec layout, query.specs.head? = some spec ∧ result.layout = some layout ∧
      layout.Outlines (TableRef.factors spec.tables)
        (result.signature.columns.map ResultColumn.origin) := by
  obtain ⟨s, -, hquery⟩ := walked_of_analyze h
  obtain ⟨shape, hrun, rfl⟩ := hquery query hkind
  have hsuits : Analysis.Suits (statement.setting input) _ := suits_nodes hparse
  rw [hkind] at hsuits
  obtain ⟨spec, hspec, houtlines⟩ :=
    Analysis.outlines_walkQuery hsuits (traced_start input statement) hrun
  refine ⟨spec, shape.layout, hspec, rfl, ?_⟩
  rw [Report.map_ofQuery (fun _ _ => rfl)]
  exact houtlines

end Statement

end SqlSignature
