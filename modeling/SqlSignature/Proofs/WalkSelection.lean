import Mathlib.Data.List.Forall2
import SqlSignature.Proofs.WalkRules
/-!
# SqlSignature.Proofs.WalkSelection

The result columns of a specification whose trace has been met. A wildcard gives the columns of its
tables one by one, with the variables of these columns; an item that is a column name has the
variable of the column (`Analysis.ItemMet`). The columns of a union have new variables.
-/

open List

namespace SqlSignature

namespace Analysis

variable {Γ : Setting} {frames : Frames}
  {t u : Trace} {s s' : AnalysisState} {frame : List TableFactor}

/-! ### Result columns -/

section

variable (Γ)

/-- The result columns that a wildcard gives for a table. Those of a table of the catalog are
declared. -/
structure WildcardMet (s : AnalysisState) (factor : TableFactor) (columns : List ShapeColumn) :
    Prop where
  unlabelled : ∀ c ∈ columns, c.expr = none
  declared : ∀ schema name label span, factor = .table schema name label span →
    ∃ table, Γ.input.catalog.table? schema name = some table ∧
      List.Forall₂ (fun (c : ShapeColumn) (d : Column) => c.name = d.name ∧
        DeclaredIn s c.var d.type) columns table.columns

/-- What an expression stands for, if it is a column name. -/
def NamesColumn (s : AnalysisState) (frames : Frames) (value : Expr) (v : TypeVar) : Prop :=
  value.isColumnName = true → ∃ r, (value.id, r) ∈ s.references ∧ r.var = v ∧
    ∀ bound T, r = .column bound → bound.declaredType Γ.input.catalog frames = some T →
      DeclaredIn s v T

/-- The result columns that a select item gives, in a scope with the tables of a frame. -/
def ItemMet (s : AnalysisState) (frames : Frames) (frame : List TableFactor) :
    SelectItem → List ShapeColumn → Prop
  | .all _, columns => ∃ groups : List (List ShapeColumn), columns = groups.flatten ∧
      List.Forall₂ (WildcardMet Γ s) frame groups
  | .allOf name _, columns => ∃ factor,
      frame.find? (fun f => Text.sameName f.visibleName name) = some factor ∧
        WildcardMet Γ s factor columns
  | .expr value _ _, columns => ∃ c, columns = [c] ∧ c.expr = some value ∧
      NamesColumn Γ s (frames ++ [frame]) value c.var

/-- The result columns of a select list. -/
def Selected (s : AnalysisState) (frames : Frames) (frame : List TableFactor)
    (items : List SelectItem) (columns : List ShapeColumn) : Prop :=
  ∃ groups : List (List ShapeColumn), columns = groups.flatten ∧
    List.Forall₂ (ItemMet Γ s frames frame) items groups

end

variable {columns : List ShapeColumn}

theorem WildcardMet.after {factor : TableFactor} (h : WildcardMet Γ s factor columns)
    (he : Extends s s') : WildcardMet Γ s' factor columns := by
  refine ⟨h.unlabelled, ?_⟩
  intro schema name label span hfactor
  obtain ⟨table, htable, hcolumns⟩ := h.declared schema name label span hfactor
  exact ⟨table, htable, hcolumns.imp fun _ _ hcd => ⟨hcd.1, hcd.2.after he⟩⟩

theorem NamesColumn.after {value : Expr} {v : TypeVar} (h : NamesColumn Γ s frames value v)
    (he : Extends s s') : NamesColumn Γ s' frames value v := by
  intro hvalue
  obtain ⟨r, hr, hvar, hdeclared⟩ := h hvalue
  exact ⟨r, he.references _ hr, hvar,
    fun bound T hbound hT => (hdeclared bound T hbound hT).after he⟩

theorem ItemMet.after {item : SelectItem} (h : ItemMet Γ s frames frame item columns)
    (he : Extends s s') : ItemMet Γ s' frames frame item columns := by
  cases item with
  | all span =>
    obtain ⟨groups, hgroups, hmet⟩ := h
    exact ⟨groups, hgroups, hmet.imp fun _ _ hmet => hmet.after he⟩
  | allOf name span =>
    obtain ⟨factor, hfactor, hmet⟩ := h
    exact ⟨factor, hfactor, hmet.after he⟩
  | expr value label span =>
    obtain ⟨c, hc, hexpr, hnames⟩ := h
    exact ⟨c, hc, hexpr, hnames.after he⟩

theorem Selected.after {items : List SelectItem} (h : Selected Γ s frames frame items columns)
    (he : Extends s s') : Selected Γ s' frames frame items columns := by
  obtain ⟨groups, hgroups, hmet⟩ := h
  exact ⟨groups, hgroups, hmet.imp fun _ _ hmet => hmet.after he⟩

/-! ### Wildcards -/

/-- The tables of a scope that is complete are those of the frame, one by one. -/
theorem ScopeMet.forall₂ {scope : Scope} (h : ScopeMet Γ s t frame scope)
    (hlength : scope.sources.length = frame.length) :
    List.Forall₂ (SourceMet Γ s t) frame scope.sources := by
  refine List.forall₂_iff_get.2 ⟨hlength.symm, ?_⟩
  intro j hframe hsources
  obtain ⟨factor, hfactor, hmet⟩ := h.sources j _ (getElem?_eq_getElem hsources)
  rw [getElem?_eq_getElem hframe] at hfactor
  cases hfactor
  exact hmet

theorem map_columnsOf (scopes : Scopes) (scope : Scope) (j : Nat) (source : Source) :
    ((scopes.columnsOf (j, source)).map (wildcardColumn scope)).map (fun c => (c.name, c.var)) =
      source.columns.map fun c => (c.name, c.var) := by
  rw [Scopes.columnsOf, map_map, map_map]
  calc source.columns.zipIdx.map _
      = (source.columns.zipIdx.map Prod.fst).map fun c => (c.name, c.var) := by
        rw [map_map]
        rfl
    _ = _ := by rw [zipIdx_map_fst]

/-- A wildcard gives the columns of a table with their variables. -/
theorem SourceMet.wildcard {factor : TableFactor} {source : Source}
    (h : SourceMet Γ s t factor source) (scopes : Scopes) (scope : Scope) (j : Nat) :
    WildcardMet Γ s factor ((scopes.columnsOf (j, source)).map (wildcardColumn scope)) ∧
      ∀ c ∈ (scopes.columnsOf (j, source)).map (wildcardColumn scope),
        Known Γ s t c.var := by
  have hcolumns := map_columnsOf scopes scope j source
  refine ⟨⟨?_, ?_⟩, ?_⟩
  · intro c hc
    obtain ⟨bound, -, rfl⟩ := mem_map.1 hc
    rfl
  · intro schema name label span hfactor
    obtain ⟨table, htable, hdeclared⟩ := h.declared schema name label span hfactor
    refine ⟨table, htable, ?_⟩
    have hpairs : List.Forall₂ (fun (c : String × TypeVar) (d : Column) => c.1 = d.name ∧
        DeclaredIn s c.2 d.type) (source.columns.map fun c => (c.name, c.var)) table.columns :=
      List.forall₂_map_left_iff.2 hdeclared
    rw [← hcolumns] at hpairs
    exact List.forall₂_map_left_iff.1 hpairs
  · intro c hc
    have hpair : (c.name, c.var) ∈ source.columns.map fun c => (c.name, c.var) := by
      rw [← hcolumns]
      exact mem_map_of_mem hc
    obtain ⟨column, hcolumn, heq⟩ := mem_map.1 hpair
    rw [← (Prod.mk.inj heq).2]
    exact h.known column hcolumn

/-- All columns of all tables. -/
theorem ScopeMet.expandAll {scope : Scope} (h : ScopeMet Γ s t frame scope)
    (hlength : scope.sources.length = frame.length) (scopes : Scopes) (span : Span) :
    let columns := (scope.sources.zipIdx.flatMap fun (source, j) =>
      scopes.columnsOf (j, source)).map (wildcardColumn scope)
    ItemMet Γ s frames frame (.all span) columns ∧
      ∀ c ∈ columns, Known Γ s t c.var := by
  intro columns
  let group (place : Source × Nat) : List ShapeColumn :=
    (scopes.columnsOf (place.2, place.1)).map (wildcardColumn scope)
  have hgroups : columns = (scope.sources.zipIdx.map group).flatten := by
    rw [← flatMap_def]
    exact map_flatMap
  have hsources : List.Forall₂ (fun factor (place : Source × Nat) =>
      SourceMet Γ s t factor place.1) frame scope.sources.zipIdx := by
    refine List.forall₂_map_right_iff.1 ?_
    rw [zipIdx_map_fst]
    exact h.forall₂ hlength
  refine ⟨⟨scope.sources.zipIdx.map group, hgroups, ?_⟩, ?_⟩
  · refine List.forall₂_map_right_iff.2 (hsources.imp fun factor place hmet => ?_)
    exact (hmet.wildcard scopes scope place.2).1
  · intro c hc
    rw [hgroups] at hc
    obtain ⟨columns, hcolumns, hc⟩ := mem_flatten.1 hc
    obtain ⟨place, hplace, rfl⟩ := mem_map.1 hcolumns
    obtain ⟨i, hi⟩ := mem_iff_getElem?.1 hplace
    obtain ⟨factor, -, hmet⟩ := forall₂_getElem? hsources.flip hi
    exact (hmet.wildcard scopes scope place.2).2 c hc

/-- What the first of some elements that pass a test is related to is the first that passes the
same test. -/
theorem forall₂_find? {α β : Type} {R : α → β → Prop} {p : α → Bool} {q : β → Bool} {as : List α}
    {bs : List β} (h : List.Forall₂ R as bs) (hpq : ∀ a b, R a b → p a = q b) {i : Nat} {a : α}
    (hi : as.findIdx? p = some i) (ha : as[i]? = some a) : ∃ b, bs.find? q = some b ∧ R a b := by
  induction h generalizing i with
  | nil => cases hi
  | @cons a' b' as bs hab _ ih =>
    rw [findIdx?_cons] at hi
    rw [find?_cons, ← hpq a' b' hab]
    cases hp : p a' with
    | true =>
      rw [hp] at hi
      cases hi
      cases ha
      exact ⟨b', rfl, hab⟩
    | false =>
      rw [hp] at hi
      obtain ⟨k, hk, rfl⟩ := Option.map_eq_some_iff.1 hi
      exact ih hk ha

/-- All columns of the first table with a name. -/
theorem ScopeMet.expandTable {scope : Scope} {name : String} {source : Nat × Source}
    (h : ScopeMet Γ s t frame scope) (hlength : scope.sources.length = frame.length)
    (hsource : scope.source? name = some source) (scopes : Scopes) (span : Span) :
    let columns := (scopes.columnsOf source).map (wildcardColumn scope)
    ItemMet Γ s frames frame (.allOf name span) columns ∧
      ∀ c ∈ columns, Known Γ s t c.var := by
  obtain ⟨j, hindex, hrest⟩ := Option.bind_eq_some_iff.1 hsource
  obtain ⟨found, hfound, hpair⟩ := Option.bind_eq_some_iff.1 hrest
  cases hpair
  have hvisible : ∀ (found : Source) (factor : TableFactor),
      SourceMet Γ s t factor found →
      Text.sameName found.visible name = Text.sameName factor.visibleName name :=
    fun _ _ hmet => by rw [hmet.visible]
  obtain ⟨factor, hfactor, hmet⟩ :=
    forall₂_find? (h.forall₂ hlength).flip hvisible hindex hfound
  obtain ⟨hcolumns, hknown⟩ := hmet.wildcard scopes scope j
  exact ⟨⟨factor, hfactor, hcolumns⟩, hknown⟩

/-! ### Select items -/

variable {shape shape' : SelectionShape} {v : TypeVar}

/-- The columns of a wildcard. -/
theorem met_selectBound {item : SelectItem} {span : Span}
    {expand : Scopes → Except AnalysisError (List BoundColumn)}
    (h : Traced Γ s (frames ++ [frame]) t) (hcomplete : s.inner.sources.length = frame.length)
    (hitem : (item = .all span ∧ expand = Scopes.expandAll) ∨
      ∃ name, item = .allOf name span ∧ expand = (Scopes.expandTable · name))
    (hrun : selectBound Γ.input shape expand span s = .ok shape' s') :
    s' = s ∧ ∃ columns, shape'.columns = shape.columns ++ columns ∧
      ItemMet Γ s frames frame item columns ∧ ∀ c ∈ columns, Known Γ s t c.var := by
  obtain ⟨rfl, bound, hbound, hcolumns⟩ := selectBound_eq_ok hrun
  obtain ⟨hs, -, hinner⟩ := h.inner_met
  have hback := back?_eq_inner hs
  refine ⟨rfl, _, hcolumns, ?_⟩
  rcases hitem with ⟨rfl, rfl⟩ | ⟨name, rfl, rfl⟩
  · unfold Scopes.expandAll at hbound
    rw [hback] at hbound
    split at hbound
    · cases hbound
    next scope hscope =>
      cases hscope
      split at hbound
      · cases hbound
      · cases hbound
        exact hinner.expandAll hcomplete s'.scopes span
  · dsimp only at hbound
    unfold Scopes.expandTable at hbound
    rw [hback] at hbound
    split at hbound
    · cases hbound
    next scope hscope =>
      cases hscope
      split at hbound
      next source hsource =>
        cases hbound
        exact hinner.expandTable hcomplete hsource s'.scopes span
      next => cases hbound

/-- An expression of a select list becomes an alias. -/
theorem meets_selectExpr {value : Expr} {label : Option String} {span : Span}
    (h : Traced Γ s (frames ++ [frame]) t) (hv : Known Γ s t v)
    (hrun : selectExpr Γ.input shape value v label span s = .ok shape' s') :
    Meets Γ (frames ++ [frame]) t s s' ∧
      s'.inner.sources = s.inner.sources ∧
      ∃ c, shape'.columns = shape.columns ++ [c] ∧ c.expr = some value ∧ c.var = v := by
  replace hrun := of_get hrun
  obtain ⟨_, s₁, hmodify, hrun⟩ := bind_eq_ok.1 hrun
  cases hrun
  obtain ⟨hs, -, hinner⟩ := h.inner_met
  obtain ⟨hinner', -⟩ := modifyScope_inner hs hmodify
  refine ⟨meets_modifyScope h ⟨hinner.sources, ?_⟩ hmodify, by rw [hinner'], _, rfl, rfl, rfl⟩
  exact forall_mem_append.2 ⟨hinner.aliases, forall_mem_singleton.2 hv⟩

/-! ### Unions -/

theorem meets_mergeColumns {branches : List (List ShapeColumn)} :
    ∀ {columns merged : List ShapeColumn} {position : Nat} {s : AnalysisState},
      Traced Γ s frames t → (∀ c ∈ columns, Known Γ s t c.var) →
      (∀ branch ∈ branches, ∀ c ∈ branch, Known Γ s t c.var) →
      mergeColumns branches position columns s = .ok merged s' →
      Meets Γ frames t s s' ∧ ∀ c ∈ merged, Known Γ s' t c.var
  | [], _, _, _, h, _, _, hrun => by
    cases hrun
    exact ⟨h.meets_refl, fun _ hc => by cases hc⟩
  | column :: rest, _, position, s, h, hcolumns, hbranches, hrun => by
    obtain ⟨first, s₁, hfirst, hrun⟩ := bind_eq_ok.1 hrun
    obtain ⟨others, s₂, hothers, hrun⟩ := bind_eq_ok.1 hrun
    cases hrun
    obtain ⟨_, _, hfresh, hfirst⟩ := bind_eq_ok.1 hfirst
    cases hfresh
    obtain ⟨_, _, hwiden, hfirst⟩ := bind_eq_ok.1 hfirst
    cases hwiden
    cases hfirst
    obtain ⟨hcolumn, hrest⟩ := forall_mem_cons.1 hcolumns
    have hargs : ∀ w ∈ column.var :: (branches.filterMap (·[position]?)).map ShapeColumn.var,
        Known Γ s t w := by
      refine forall_mem_cons.2 ⟨hcolumn, ?_⟩
      intro w hw
      obtain ⟨c, hc, rfl⟩ := mem_map.1 hw
      obtain ⟨branch, hbranch, hc⟩ := mem_filterMap.1 hc
      exact hbranches branch hbranch c (mem_of_getElem? hc)
    obtain ⟨hgives, -⟩ := h.addFresh (d := .widen (s.solver.vars.fresh false).1
        (column.var :: (branches.filterMap (·[position]?)).map ShapeColumn.var)) rfl
      fun w hw => (mem_cons.1 hw).imp_right (hargs w)
    have he := hgives.grown
    obtain ⟨hmeets, hmerged⟩ := meets_mergeColumns hgives.traced
      (fun c hc => (hrest c hc).in_state he)
      (fun branch hbranch c hc => (hbranches branch hbranch c hc).in_state he) hothers
    exact ⟨hgives.toMeets.trans hmeets,
      forall_mem_cons.2 ⟨hgives.known.in_state hmeets.grown, hmerged⟩⟩

theorem meets_unionColumns {first : List ShapeColumn} {branches : List SpecShape}
    (h : Traced Γ s frames t) (hfirst : ∀ c ∈ first, Known Γ s t c.var)
    (hbranches : ∀ branch ∈ branches, ∀ c ∈ branch.columns, Known Γ s t c.var)
    (hrun : unionColumns first branches s = .ok columns s') :
    Meets Γ frames t s s' ∧ (∀ c ∈ columns, Known Γ s' t c.var) ∧
      (branches = [] → columns = first) := by
  cases branches with
  | nil =>
    cases hrun
    exact ⟨h.meets_refl, hfirst, fun _ => rfl⟩
  | cons branch rest =>
    obtain ⟨hmeets, hcolumns⟩ := meets_mergeColumns h hfirst (by
      intro columns hcolumns
      obtain ⟨branch, hbranch, rfl⟩ := mem_map.1 hcolumns
      exact hbranches branch hbranch) hrun
    exact ⟨hmeets, hcolumns, fun hnil => by cases hnil⟩

end Analysis

end SqlSignature
