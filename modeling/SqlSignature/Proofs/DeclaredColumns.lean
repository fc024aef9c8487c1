import SqlSignature.Proofs.ParameterSlots
import SqlSignature.Proofs.TracedStatement
/-!
# SqlSignature.Proofs.DeclaredColumns

Declared types survive inference (`Statement.declared_types_kept`). The columns of a table of the
catalog are reported with the types that the catalog declares, whether they come from a wildcard or
are named; and a bound value that has no name, and that is compared with such a column or stored in
one as it is, has the type of the column. A comparison has no bearing on its bound value if the walk
does not come to it, which is so for the sort keys of a call: that bound value has the default type.
-/

open List

namespace SqlSignature

/-- The type that a bound value ends with. -/
def AnalysisState.parameterType (s : AnalysisState) (config : Config) (i : Nat) : Option SqlType :=
  (s.parameters[i]?).map fun facts =>
    (s.solver.solve config.defaultParameterType).resolved facts.var

/-- What is reported of a result column: its own name, before columns with one name are renamed, and
its type. -/
def ResultColumn.typed (c : ResultColumn) : String × ColumnType := (c.sourceName, c.type)

/-- The reported columns of a table of the catalog have the declared types. -/
def TableTyped (catalog : Catalog) (factor : TableFactor) (columns : List (String × ColumnType)) :
    Prop :=
  ∀ schema name label span, factor = .table schema name label span →
    ∃ table, catalog.table? schema name = some table ∧
      columns = table.columns.map fun d => (d.name, .single d.type)

/-- The reported columns of a select item have the declared types, given the tables of the
specification and what column names stand for. -/
def ItemTyped (catalog : Catalog) (references : List (Nat × Reference))
    (tables : List TableFactor) : SelectItem → List (String × ColumnType) → Prop
  | .all _, columns => ∃ groups : List (List (String × ColumnType)), columns = groups.flatten ∧
      List.Forall₂ (TableTyped catalog) tables groups
  | .allOf name _, columns => ∃ factor,
      tables.find? (fun f => Text.sameName f.visibleName name) = some factor ∧
        TableTyped catalog factor columns
  | .expr value _ _, columns => ∃ name type, columns = [(name, type)] ∧
      (value.isColumnName = true → ∃ r, references.lookup value.id = some r ∧
        ∀ bound T, r = .column bound → bound.declaredType catalog [tables] = some T →
          type = .single T)

namespace Report

/-- Renaming columns changes nothing but names. -/
theorem map_renameAfter {α : Type} {f : ResultColumn → α} (hf : ∀ c name, f { c with name } = f c) :
    ∀ (columns : List ResultColumn) (seen : List String),
      (renameAfter seen columns).map f = columns.map f
  | [], _ => rfl
  | c :: rest, seen => by
    rw [renameAfter, map_cons, map_cons, hf, map_renameAfter hf rest]

theorem map_ofQuery {α : Type} {f : ResultColumn → α} (hf : ∀ c name, f { c with name } = f c)
    (input : AnalysisInput) (s : AnalysisState) (shape : QueryShape) :
    (ofQuery input s shape).signature.columns.map f =
      shape.columns.map fun c => f (column s c) := by
  have hfound : (shape.columns.map (column s)).map f = shape.columns.map fun c => f (column s c) :=
    map_map
  unfold ofQuery
  cases input.config.renameDuplicates with
  | true => exact (map_renameAfter hf _ []).trans hfound
  | false => exact hfound

end Report

namespace Analysis

variable {Γ : Setting} {frames : Frames} {t : Trace} {s : AnalysisState} {i : Nat} {p : TypeVar}

namespace Traced

variable (h : Traced Γ s frames t)

include h

/-! ### The solver -/

/-- The constraints give types only to rigid variables. -/
theorem sane (hfresh : s.solver.vars.Fresh) : s.solver.Sane := by
  refine ⟨hfresh, h.given, ?_⟩
  intro a b hab
  obtain ⟨met, -, hmet, hconstraints⟩ := h.uses
  rcases hconstraints _ hab with hknown | ⟨m, hm, q, hq, heq⟩
  · exact ⟨(hknown a (by simp [Constraint.vars])).lt, (hknown b (by simp [Constraint.vars])).lt⟩
  · have hqlt := (h.params_free q (mem_of_getElem? hq)).1
    have hvlt := (hmet m hm).2.1.lt
    rcases heq with heq | heq
    · cases heq
      exact ⟨hqlt, hvlt⟩
    · cases heq
      exact ⟨hvlt, hqlt⟩

theorem isFree_param (hfresh : s.solver.vars.Fresh) (hp : Γ.params[i]? = some p) :
    s.solver.vars.isFree p = true := by
  obtain ⟨hlt, hrigid⟩ := h.params_free p (mem_of_getElem? hp)
  obtain ⟨free, hentry⟩ := hfresh p.index hlt
  rw [TypeVars.isFree, hfresh.root_eq, hentry]
  cases free with
  | true => rfl
  | false => exact absurd (by rw [TypeVars.IsRigid, hentry]; rfl) hrigid

/-! ### Bound values that are used for a column -/

omit h in
/-- A variable that is known does not belong to a bound value that is met as a use only. -/
theorem not_known (hname : Γ.input.name? i = none) (hp : Γ.params[i]? = some p)
    (hloose : i ∉ t.loose) : ¬Known Γ s t p :=
  fun hknown => hloose (hknown.loose i hname hp)

theorem param_of_use {use : Use} (huse : use ∈ t.uses) : ∃ p, Γ.params[use.ordinal]? = some p := by
  obtain ⟨met, huses, hmet, -⟩ := h.uses
  rw [← huses] at huse
  obtain ⟨m, hm, rfl⟩ := mem_map.1 huse
  obtain ⟨-, -, d, -, q, hq, -⟩ := hmet m hm
  exact ⟨q, hq⟩

/-- A bound value that is met once is equated with the column of its use, and with nothing else. -/
theorem equated_of_use (hnodup : t.ordinals.Nodup) {use : Use}
    (hname : Γ.input.name? use.ordinal = none) (hp : Γ.params[use.ordinal]? = some p)
    (huse : use ∈ t.uses) :
    ∃ v, UsedFor Γ s use v ∧
      (.equal p v ∈ s.solver.constraints.toList ∨ .equal v p ∈ s.solver.constraints.toList) ∧
      TypeVars.EquatedOnly s.solver.constraints.toList p v := by
  obtain ⟨-, hnodupUses, hdisjoint⟩ := nodup_append.1 hnodup
  have hloose : use.ordinal ∉ t.loose :=
    fun hmem => hdisjoint _ hmem _ (mem_map_of_mem huse) rfl
  obtain ⟨met, huses, hmet, hconstraints⟩ := h.uses
  rw [← huses, map_map] at hnodupUses
  rw [← huses] at huse
  obtain ⟨m, hm, rfl⟩ := mem_map.1 huse
  obtain ⟨hused, -, d, hd, q, hq, heq⟩ := hmet m hm
  obtain rfl : q = p := Option.some.inj (hq.symm.trans hp)
  have hunknown : ¬Known Γ s t q := not_known hname hp hloose
  refine ⟨m.2, hused, ?_, ?_⟩
  · rcases heq with rfl | rfl
    · exact .inl hd
    · exact .inr hd
  -- every equation with the variable of the bound value is that of this use
  · intro a b hab
    rcases hconstraints _ hab with hvars | ⟨other, hother, r, hr, hequation⟩
    · exact ⟨fun ha => absurd (ha ▸ hvars a (by simp [Constraint.vars])) hunknown,
        fun hb => absurd (hb ▸ hvars b (by simp [Constraint.vars])) hunknown⟩
    · have hotherKnown := (hmet other hother).2.1
      have hsame : r = q → other.2 = m.2 := by
        rintro rfl
        have hordinal := h.distinct _ _ r hname hr hp
        rw [inj_on_of_nodup_map hnodupUses hother hm hordinal]
      rcases hequation with hequation | hequation
      · cases hequation
        exact ⟨hsame, fun hb => absurd (hb ▸ hotherKnown) hunknown⟩
      · cases hequation
        exact ⟨fun ha => absurd (ha ▸ hotherKnown) hunknown, hsame⟩

/-- No constraint speaks of a bound value that is not met. -/
theorem unmentioned (hname : Γ.input.name? i = none) (hp : Γ.params[i]? = some p)
    (hmet : i ∉ t.ordinals) : ∀ d ∈ s.solver.constraints.toList, p ∉ d.vars := by
  intro d hd hmem
  have hunknown : ¬Known Γ s t p :=
    not_known hname hp fun hloose => hmet (mem_append_left _ hloose)
  obtain ⟨met, huses, hall, hconstraints⟩ := h.uses
  rcases hconstraints d hd with hvars | ⟨m, hm, q, hq, heq⟩
  · exact hunknown (hvars p hmem)
  · have hne : q ≠ p := by
      rintro rfl
      have hordinal := h.distinct _ _ q hname hq hp
      refine hmet (mem_append_right _ (mem_map.2 ⟨m.1, ?_, hordinal⟩))
      rw [← huses]
      exact mem_map_of_mem hm
    have hvar : m.2 ≠ p := fun hvar => hunknown (hvar ▸ (hall m hm).2.1)
    rcases heq with rfl | rfl
    · rcases mem_pair.1 hmem with hmem | hmem
      · exact hne hmem.symm
      · exact hvar hmem.symm
    · rcases mem_pair.1 hmem with hmem | hmem
      · exact hvar hmem.symm
      · exact hne hmem.symm

/-! ### Names -/

/-- What a column name stands for is noted once. -/
theorem lookup_reference (hnodup : t.columns.Nodup) {id : Nat} {r : Reference}
    (hr : (id, r) ∈ s.references) : s.references.lookup id = some r := by
  have hkeys : (s.references.map Prod.fst).Nodup := h.columns.nodup_iff.2 hnodup
  cases hlookup : s.references.lookup id with
  | none =>
    have hne := lookup_eq_none_iff.1 hlookup (id, r) hr
    simp at hne
  | some found =>
    obtain ⟨before, behind, heq, -⟩ := lookup_eq_some_iff.1 hlookup
    have hfound : (id, found) ∈ s.references := by
      rw [heq]
      simp
    rw [(Prod.mk.inj (inj_on_of_nodup_map hkeys hfound hr rfl)).2]

/-- A column name has no set of types from the resolver. -/
theorem lookup_typeSets {id : Nat} (hid : Γ.isColumn id = true) : s.typeSets.lookup id = none := by
  refine lookup_eq_none_iff.2 fun entry hentry => ?_
  rw [bne_iff_ne]
  rintro rfl
  rw [h.typeSets entry hentry] at hid
  cases hid

/-! ### Types of bound values -/

theorem parameterType_eq (config : Config) (i : Nat) : s.parameterType config i =
      (Γ.params[i]?).map (s.solver.solve config.defaultParameterType).resolved := by
  rw [AnalysisState.parameterType, ← h.params_eq, getElem?_map, Option.map_map,
    Array.getElem?_toList, Function.comp_def]

/-- A bound value that is used for a declared column has the type of the column. -/
theorem parameterType_of_use (hfresh : s.solver.vars.Fresh) (hnodup : t.ordinals.Nodup) {use : Use}
    (huse : use ∈ t.uses) (hname : Γ.input.name? use.ordinal = none) :
    ∃ v, UsedFor Γ s use v ∧ ∀ T config, DeclaredIn s v T → T ≠ .null →
      s.parameterType config use.ordinal = some T := by
  obtain ⟨p, hp⟩ := h.param_of_use huse
  obtain ⟨v, hused, hequation, honly⟩ := h.equated_of_use hnodup hname hp huse
  refine ⟨v, hused, fun T config hv hT => ?_⟩
  rw [h.parameterType_eq, hp, Option.map_some]
  exact congrArg some (Solver.resolved_of_equated (h.sane hfresh) hv.declares hT
    (h.isFree_param hfresh hp) hequation honly)

/-- A bound value that is not met has the default type. -/
theorem parameterType_of_unmet (hfresh : s.solver.vars.Fresh) (hname : Γ.input.name? i = none)
    (hi : i < Γ.params.length) (hunmet : i ∉ t.ordinals) (config : Config) :
    s.parameterType config i = some config.defaultParameterType := by
  have hp := getElem?_eq_getElem hi
  rw [h.parameterType_eq, hp, Option.map_some]
  exact congrArg some (Solver.resolved_of_unmentioned (h.sane hfresh) (h.isFree_param hfresh hp)
    (h.unmentioned hname hp hunmet))

end Traced

/-! ### Result columns -/

/-- What is reported of the result column of a shape. -/
def typedColumn (s : AnalysisState) (c : ShapeColumn) : String × ColumnType :=
  (c.name, Report.columnType s c)

theorem typed_ofQuery (input : AnalysisInput) (s : AnalysisState) (shape : QueryShape) :
    (Report.ofQuery input s shape).signature.columns.map ResultColumn.typed =
      shape.columns.map (typedColumn s) :=
  Report.map_ofQuery (fun _ _ => rfl) input s shape

/-- A result column that has no expression, or one without a set of types, has a single type. -/
theorem columnType_of_declared (hsane : s.solver.Sane) {c : ShapeColumn} {T : SqlType}
    (hsets : (c.expr.bind fun e => s.typeSets.lookup e.id) = none) (hc : DeclaredIn s c.var T) :
    Report.columnType (Report.solve Γ.input s) c = .single T := by
  show Option.getD (c.expr.bind fun e => s.typeSets.lookup e.id) _ = _
  rw [hsets, Option.getD_none]
  exact congrArg _ (Solver.resolved_of_declares hsane hc.declares)

theorem map_typedColumn (hsane : s.solver.Sane) {columns : List ShapeColumn}
    {declared : List Column} (hcolumns : List.Forall₂ (fun (c : ShapeColumn) (d : Column) =>
      c.name = d.name ∧ DeclaredIn s c.var d.type) columns declared)
    (hunlabelled : ∀ c ∈ columns, c.expr = none) :
    columns.map (typedColumn (Report.solve Γ.input s)) =
      declared.map fun d => (d.name, .single d.type) := by
  induction hcolumns with
  | nil => rfl
  | @cons c d columns declared hcd _ ih =>
    have hsets : (c.expr.bind fun e => s.typeSets.lookup e.id) = none := by
      rw [hunlabelled c mem_cons_self, Option.bind_none]
    rw [map_cons, map_cons, ih fun c hc => hunlabelled c (mem_cons_of_mem _ hc),
      typedColumn, columnType_of_declared hsane hsets hcd.2, hcd.1]

theorem WildcardMet.typed (hsane : s.solver.Sane) {factor : TableFactor}
    {columns : List ShapeColumn} (h : WildcardMet Γ s factor columns) :
    TableTyped Γ.input.catalog factor (columns.map (typedColumn (Report.solve Γ.input s))) := by
  intro schema name label span hfactor
  obtain ⟨table, htable, hcolumns⟩ := h.declared schema name label span hfactor
  exact ⟨table, htable, map_typedColumn hsane hcolumns h.unlabelled⟩

theorem ItemMet.typed (h : Traced Γ s [] t) (hfresh : s.solver.vars.Fresh)
    (hnodup : t.columns.Nodup) {frame : List TableFactor} {item : SelectItem}
    {columns : List ShapeColumn} (hmet : ItemMet Γ s [] frame item columns) :
    ItemTyped Γ.input.catalog s.references frame item
      (columns.map (typedColumn (Report.solve Γ.input s))) := by
  have hsane := h.sane hfresh
  cases item with
  | all span =>
    obtain ⟨groups, rfl, hgroups⟩ := hmet
    refine ⟨groups.map (List.map (typedColumn (Report.solve Γ.input s))), map_flatten .., ?_⟩
    exact List.forall₂_map_right_iff.2 (hgroups.imp fun _ _ hmet => hmet.typed hsane)
  | allOf name span =>
    obtain ⟨factor, hfactor, hmet⟩ := hmet
    exact ⟨factor, hfactor, hmet.typed hsane⟩
  | expr value label span =>
    obtain ⟨c, rfl, hexpr, hnames⟩ := hmet
    refine ⟨_, _, rfl, fun hvalue => ?_⟩
    obtain ⟨r, hr, -, hdeclared⟩ := hnames hvalue
    refine ⟨r, h.lookup_reference hnodup hr, fun bound T hbound hT => ?_⟩
    refine columnType_of_declared hsane ?_ (hdeclared bound T hbound hT)
    rw [hexpr, Option.bind_some, h.lookup_typeSets (h.references _ hr).1]

end Analysis

namespace Statement

open Analysis

variable {text : String} {statement : Statement} {input : AnalysisInput} {s : AnalysisState}
  {result : AnalysisResult}

/-! ### Statements -/

section

variable (hparse : parse text = .ok statement)

include hparse

/-- Each bound value stands in one place. -/
theorem countP_ordinal (i : Nat) :
    statement.kind.nodes.countP (fun e => e.ordinal? == some i) ≤ 1 := by
  have hcount : (statement.kind.nodes.filterMap Expr.ordinal?).count i ≤ 1 :=
    nodup_iff_count_le_one.1 ((ordinals_perm hparse).nodup_iff.2 nodup_range) i
  rwa [count_filterMap] at hcount

/-- Each number is that of one node. -/
theorem countP_id (k : Nat) :
    statement.kind.nodes.countP (fun e => e.id == k) ≤ 1 := by
  have hcount : (statement.kind.nodes.map Expr.id).count k ≤ 1 :=
    nodup_iff_count_le_one.1 ((ids_perm hparse).nodup_iff.2 nodup_range) k
  rwa [List.count, countP_map] at hcount

theorem nodup_trace (input : AnalysisInput) :
    (statement.trace input).ordinals.Nodup ∧ (statement.trace input).columns.Nodup := by
  have hwithin := (statement.follows_trace input).within
  exact ⟨nodup_iff_count_le_one.2 fun i =>
      (hwithin.ordinals i).trans (countP_ordinal hparse i),
    nodup_iff_count_le_one.2 fun k => (hwithin.columns k).trans (countP_id hparse k)⟩

end

/-- An analysis that succeeds has walked the statement. -/
theorem walked_of_analyze (h : statement.analyze input = .ok result) :
    ∃ s, statement.walked input = .ok s ∧ ∀ query, statement.kind = .select query →
      ∃ shape, walkQuery input query (.initial input statement.placeholders) = .ok shape s ∧
        result = Report.ofQuery input (Report.solve input s) shape := by
  have hreport : ∀ {α : Type} {step : Analysis α} {report : AnalysisState → α → AnalysisResult},
      statement.report input step report = .ok result →
      ∃ shape s, step (.initial input statement.placeholders) = .ok shape s ∧
        result = report (Report.solve input s) shape := by
    intro α step report hrun
    unfold Statement.report at hrun
    split at hrun
    next shape s hstep =>
      cases hrun
      exact ⟨shape, s, hstep, rfl⟩
    next => cases hrun
  unfold analyze at h
  unfold walked stateAfter
  cases hkind : statement.kind with
  | select query =>
    rw [hkind] at h
    obtain ⟨shape, s, hrun, hresult⟩ := hreport h
    refine ⟨s, by simp only [hrun], ?_⟩
    rintro _ ⟨⟩
    exact ⟨shape, hrun, hresult⟩
  | insert | update | delete =>
    rw [hkind] at h
    obtain ⟨shape, s, hrun, -⟩ := hreport h
    exact ⟨s, by simp only [hrun], nofun⟩

section

variable (hparse : parse text = .ok statement) (hwalked : statement.walked input = .ok s)

include hparse hwalked

/-- The result columns of a query of one specification. -/
theorem typed_query
    {query : Query} {spec : QuerySpec} {shape : QueryShape} (hkind : statement.kind = .select query)
    (hspec : query.specs = [spec])
    (hrun : walkQuery input query (.initial input statement.placeholders) = .ok shape s) :
    ∃ groups : List (List (String × ColumnType)),
      shape.columns.map (typedColumn (Report.solve input s)) = groups.flatten ∧
      List.Forall₂ (ItemTyped input.catalog s.references (TableRef.factors spec.tables)) spec.items
        groups := by
  have hsuits : Suits (statement.setting input) _ := suits_nodes hparse
  rw [hkind] at hsuits
  obtain ⟨groups, hgroups, hmet⟩ :=
    (meets_walkQuery query hsuits (traced_start input statement) hrun).2.2 spec hspec
  refine ⟨groups.map (List.map (typedColumn (Report.solve input s))), ?_, ?_⟩
  · rw [hgroups, map_flatten]
  · exact List.forall₂_map_right_iff.2 (hmet.imp fun _ _ hmet =>
      hmet.typed (traced_of_walked hparse hwalked) (fresh_of_walked hwalked)
        (nodup_trace hparse input).2)

/-- A bound value without a name that is stored in a column as it is has the type of the column. -/
theorem stored_type
    {i : Nat} {T : SqlType} (hname : input.name? i = none) (hstores : statement.Stores input i T)
    (hT : T ≠ .null) : s.parameterType input.config i = some T := by
  obtain ⟨v, hused, htype⟩ := (traced_of_walked hparse hwalked).parameterType_of_use
    (fresh_of_walked hwalked) (nodup_trace hparse input).1 hstores.mem_uses hname
  exact htype T _ (hused T rfl) hT

/-- A bound value without a name that is compared with a column has the type of the column, if the
walk comes to it. -/
theorem compared_type {i column : Nat} {frames : Frames}
    (hname : input.name? i = none)
    (huse : Use.compared i column frames ∈ (statement.trace input).uses) :
    ∃ r, s.references.lookup column = some r ∧ ∀ bound T, r = .column bound →
      bound.declaredType input.catalog frames = some T → T ≠ .null →
        s.parameterType input.config i = some T := by
  have htraced := traced_of_walked hparse hwalked
  obtain ⟨hordinals, hcolumns⟩ := nodup_trace hparse input
  obtain ⟨v, ⟨r, hr, -, hdeclared⟩, htype⟩ :=
    htraced.parameterType_of_use (fresh_of_walked hwalked) hordinals huse hname
  exact ⟨r, htraced.lookup_reference hcolumns hr,
    fun bound T hbound hT => htype T _ (hdeclared bound T hbound hT)⟩

end

/-- **Declared types.** The columns of tables of the catalog are reported with their declared types,
as parts of a wildcard and by name. A bound value without a name that is stored in such a column has
the type of the column. So has one that is compared with such a column, if the walk comes to it, and
else it has the default type. -/
theorem declared_types_kept (hparse : parse text = .ok statement)
    (hresult : statement.analyze input = .ok result) :
    ∃ s, statement.walked input = .ok s ∧
      (∀ query spec, statement.kind = .select query → query.specs = [spec] →
        ∃ groups : List (List (String × ColumnType)),
          result.signature.columns.map ResultColumn.typed = groups.flatten ∧
          List.Forall₂ (ItemTyped input.catalog s.references (TableRef.factors spec.tables))
            spec.items groups) ∧
      (∀ i T, input.name? i = none → statement.Stores input i T → T ≠ .null →
        s.parameterType input.config i = some T) ∧
      ∀ node ∈ statement.kind.nodes, ∀ i column, node.boundComparison? = some (i, column) →
        input.name? i = none →
        if i ∈ (statement.trace input).ordinals then
          ∃ frames r, Use.compared i column frames ∈ (statement.trace input).uses ∧
            s.references.lookup column = some r ∧ ∀ bound T, r = .column bound →
              bound.declaredType input.catalog frames = some T → T ≠ .null →
                s.parameterType input.config i = some T
        else s.parameterType input.config i = some input.config.defaultParameterType := by
  obtain ⟨s, hwalked, hquery⟩ := walked_of_analyze hresult
  refine ⟨s, hwalked, ?_, fun i T hname => stored_type hparse hwalked hname, ?_⟩
  · intro query spec hkind hspec
    obtain ⟨shape, hrun, rfl⟩ := hquery query hkind
    rw [typed_ofQuery]
    exact typed_query hparse hwalked hkind hspec hrun
  · intro node hnode i column hcomparison hname
    obtain ⟨hone, hmet⟩ := (statement.follows_trace input).covers node hnode i column hcomparison
    split
    next hordinal =>
      obtain ⟨frames, huse⟩ : ∃ frames,
          Use.compared i column frames ∈ (statement.trace input).uses := by
        refine (hmet (countP_ordinal hparse i)).resolve_right fun hzero => ?_
        exact List.count_eq_zero.1 hzero hordinal
      obtain ⟨r, hr, htype⟩ := compared_type hparse hwalked hname huse
      exact ⟨frames, r, huse, hr, htype⟩
    next hunmet =>
      obtain ⟨holder, hholder, hordinal⟩ := List.countP_pos_iff.1 hone
      have hmem : i ∈ statement.kind.nodes.filterMap Expr.ordinal? :=
        List.mem_filterMap.2 ⟨holder, hholder, beq_iff_eq.1 hordinal⟩
      refine (traced_of_walked hparse hwalked).parameterType_of_unmet (fresh_of_walked hwalked)
        hname ?_ hunmet _
      rw [(AnalysisState.traced_initial input statement.placeholders statement.isColumn).2]
      exact List.mem_range.1 ((ordinals_perm hparse).mem_iff.1 hmem)

/-- Whether a bound value is compared with a column that is declared as an integer. -/
def comparesInteger (catalog : Catalog) (s : AnalysisState) : Use → Bool
  | .compared _ column frames =>
    match s.references.lookup column with
    | some (.column bound) => bound.declaredType catalog frames == some .int
    | _ => false
  | .stored _ _ => false

/-- Whether a statement selects all columns of the table `t`. -/
def selectsTable : StatementKind → Bool
  | .select ⟨[⟨_, [.all _], tables, _, _, _, _⟩], _, _, _, _⟩ =>
    match TableRef.factors tables with
    | [.table none "t" _ _] => true
    | _ => false
  | _ => false

/-- The column of a wildcard, and a bound value that is compared with it, have its declared type. -/
theorem declared_types_kept_wildcard :
    let text := "SELECT * FROM t WHERE x + ? > 1 AND x = ?"
    let input := (BoundText.ofText text).analysisInput twoTables {} none
    ∃ statement result s, parse text = .ok statement ∧ statement.analyze input = .ok result ∧
      statement.walked input = .ok s ∧ input.name? 1 = none ∧
      result.signature.columns.map ResultColumn.typed = [("x", .single .int)] ∧
      s.parameterType input.config 1 = some .int := by
  intro text input
  have hread : isAnalyzed text input (fun statement _ =>
      statement.kind.nodes.any (fun node => node.boundComparison? == some (1, 5)) &&
      decide (1 ∈ (statement.trace input).ordinals) &&
      ((statement.walked input).toOption.any fun s =>
        (statement.trace input).uses.all (comparesInteger input.catalog s)) &&
      selectsTable statement.kind) = true := by
    decide +kernel
  have hname : input.name? 1 = none := by decide +kernel
  obtain ⟨statement, result, hparse, hanalyze, htest⟩ := exists_of_isAnalyzed hread
  simp only [Bool.and_eq_true, List.any_eq_true, beq_iff_eq, decide_eq_true_eq, Option.any_eq_true,
    List.all_eq_true] at htest
  obtain ⟨⟨⟨⟨node, hnode, hcomparison⟩, hordinal⟩, found, hfound, huses⟩, hkind⟩ := htest
  unfold selectsTable at hkind
  split at hkind
  next hselect =>
    split at hkind
    next hfactors =>
      obtain ⟨s, hwalked, hquery, -, hcompared⟩ := declared_types_kept hparse hanalyze
      obtain rfl : found = s := by
        rw [hwalked] at hfound
        exact (Option.some.inj hfound).symm
      refine ⟨statement, result, _, hparse, hanalyze, hwalked, hname, ?_, ?_⟩
      · obtain ⟨groups, hcolumns, hitems⟩ := hquery _ _ hselect rfl
        rw [hfactors] at hitems
        cases hitems with
        | cons hitem hrest =>
          cases hrest
          obtain ⟨parts, rfl, hparts⟩ := hitem
          cases hparts with
          | cons hpart hrest =>
            cases hrest
            obtain ⟨table, htable, rfl⟩ := hpart _ _ _ _ rfl
            have hdeclared : ((input.catalog.table? none "t").map fun table =>
                table.columns.map fun d => (d.name, ColumnType.single d.type)) =
                some [("x", .single .int)] := by
              decide +kernel
            rw [htable] at hdeclared
            rw [hcolumns, List.flatten_singleton, List.flatten_singleton]
            exact Option.some.inj hdeclared
      · have hmet := hcompared node hnode 1 5 hcomparison hname
        rw [if_pos hordinal] at hmet
        obtain ⟨frames, r, huse, hr, htype⟩ := hmet
        have hdeclared := huses _ huse
        simp only [comparesInteger, hr] at hdeclared
        cases r with
        | label v notNull => cases hdeclared
        | column bound => exact htype bound .int rfl (beq_iff_eq.1 hdeclared) (by decide)
    next => cases hkind
  next => cases hkind

/-- Whether a node is a column name without a qualifier. -/
def isPlainName (name : String) (e : Expr) : Bool :=
  match e.form with
  | .column ref => ref == ⟨none, none, name⟩
  | _ => false

/-- A comparison in a sort key of a call is not walked: its bound value has the default type. -/
theorem sort_key_value_default :
    let text := "SELECT GROUP_CONCAT(x ORDER BY x = ?) FROM t"
    let input := (BoundText.ofText text).analysisInput twoTables {} none
    ∃ statement result s node column, parse text = .ok statement ∧
      statement.analyze input = .ok result ∧ statement.walked input = .ok s ∧
      input.name? 0 = none ∧ node ∈ statement.kind.nodes ∧ column ∈ node.nodes ∧
      node.boundComparison? = some (0, column.id) ∧ column.form = .column ⟨none, none, "x"⟩ ∧
      s.parameterType input.config 0 = some .varchar := by
  intro text input
  have hread : isAnalyzed text input (fun statement _ =>
      ((statement.walked input).toOption.any fun s =>
        s.parameterType input.config 0 == some .varchar) &&
      statement.kind.nodes.any fun node => node.nodes.any fun column =>
        node.boundComparison? == some (0, column.id) && isPlainName "x" column) = true := by
    decide +kernel
  obtain ⟨statement, result, hparse, hanalyze, htest⟩ := exists_of_isAnalyzed hread
  simp only [Bool.and_eq_true, List.any_eq_true, beq_iff_eq, Option.any_eq_true] at htest
  obtain ⟨⟨s, hs, htype⟩, node, hnode, column, hcolumn, hcomparison, hform⟩ := htest
  refine ⟨statement, result, s, node, column, hparse, hanalyze, ?_, by decide +kernel, hnode,
    hcolumn, hcomparison, ?_, htype⟩
  · cases hwalked : statement.walked input with
    | error e => rw [hwalked] at hs; cases hs
    | ok found => rw [hwalked] at hs; exact congrArg _ (Option.some.inj hs)
  · unfold isPlainName at hform
    split at hform
    next ref href => rw [href, beq_iff_eq.1 hform]
    next => cases hform

end Statement

end SqlSignature
