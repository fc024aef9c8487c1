import Mathlib.Data.Set.Function
import SqlSignature.Proofs.CatalogFiling
import SqlSignature.Proofs.DeclaredColumns
import SqlSignature.Proofs.JoinNullability
import SqlSignature.Proofs.NotedNames
import SqlSignature.Proofs.NullRejection
/-!
# SqlSignature.Proofs.PinnedKey

A filter that pins the primary key of a table lets one row through at most
(`primaryKeyFilter_subsingleton`). Expressions are read in the rows of a table in any way
(`Table.IsRead`) in which `AND` is true only if both sides are, `=` is true only between equal
values, literals and bound values do not depend on the row, and a name that speaks of a column of
the table has the value of that column; names of outer columns can have any values. What a name
speaks of is said without the analysis (`Table.Answers`). So it has to be shown that what is noted
of a name when all clauses of a specification have been walked over is what it speaks of among the
tables (`Analysis.resolved_walkClauses`), and that a filter which is found to pin a key does so
(`Analysis.pins_of_walkClauses`).
-/

open List

namespace SqlSignature

variable {V : Type}

theorem Catalog.mem_of_table? {catalog : Catalog} {schema : Option String} {name : String}
    {table : Table} (h : catalog.table? schema name = some table) : table ∈ catalog.tables := by
  cases schema <;> exact mem_of_find?_eq_some h

/-! ### Rows of a table -/

namespace Table

/-- Whether a name speaks of a column of a table that is visible under a name, and was named with a
schema or without one. -/
def Answers (table : Table) (visible : String) (schema : Option String) (ref : ColumnRef)
    (i : Nat) : Prop :=
  (∀ qualifier, ref.table = some qualifier →
    Text.sameName visible qualifier = true ∧ Scopes.schemaFits ref.schema schema = true) ∧
  table.columns.findIdx? (fun c => Text.sameName c.name ref.name) = some i

/-- The values of the primary key in a row. -/
def keyOf (table : Table) (row : Tuple V) : List (Option V) :=
  (table.columns.zipIdx.filter fun c => c.1.key == .primary).map fun c => row c.2

/-- What is asked of the values of expressions in the rows of a table, and of the predicates that
are true in them. -/
structure IsRead (table : Table) (visible : String) (schema : Option String)
    (value : Tuple V → Expr → Option V) (holds : Tuple V → Expr → Prop) : Prop where
  both : ∀ row id span left right, holds row (.node id span (.binary .and left right)) →
    holds row left ∧ holds row right
  equal : ∀ row id span left right, holds row (.node id span (.binary .eq left right)) →
    ∃ v, value row left = some v ∧ value row right = some v
  fixed : ∀ row row' e, AnalysisState.isValue e = true → value row e = value row' e
  column : ∀ row id span ref i, table.Answers visible schema ref i →
    value row (.node id span (.column ref)) = row i

/-- Whether a conjunct of a filter is an equality of a column of a table with a literal or a bound
value, in either order. -/
def Pins (table : Table) (visible : String) (schema : Option String) (filter : Expr) (i : Nat) :
    Prop :=
  ∃ k ∈ filter.conjuncts, ∃ left right column constant ref, k.form = .binary .eq left right ∧
    ((left = column ∧ right = constant) ∨ (left = constant ∧ right = column)) ∧
    column.form = .column ref ∧ table.Answers visible schema ref i ∧
    AnalysisState.isValue constant = true

variable {table : Table} {visible : String} {schema : Option String}
  {value : Tuple V → Expr → Option V} {holds : Tuple V → Expr → Prop}

theorem keyOf_eq_of_forall {row row' : Tuple V}
    (h : ∀ i c, table.columns[i]? = some c → c.key = .primary → row i = row' i) :
    table.keyOf row = table.keyOf row' := by
  refine map_congr_left fun c hc => ?_
  obtain ⟨hmem, hkey⟩ := mem_filter.1 hc
  exact h c.2 c.1 (mem_zipIdx_iff_getElem?.1 hmem) (beq_iff_eq.1 hkey)

/-- A name is that of one column of a table that was built column by column. -/
theorem Sound.index_eq {i j : Nat} {c d : Column} (h : table.Sound)
    (hc : table.columns[i]? = some c) (hd : table.columns[j]? = some d)
    (hname : Text.sameName c.name d.name = true) : i = j := by
  obtain ⟨hi, rfl⟩ := List.getElem?_eq_some_iff.1 hc
  obtain ⟨hj, rfl⟩ := List.getElem?_eq_some_iff.1 hd
  have hdistinct := pairwise_iff_getElem.1 h.distinct
  rcases Nat.lt_trichotomy i j with hlt | heq | hlt
  · exact absurd hname (Bool.eq_false_iff.1 (hdistinct i j hi hj hlt))
  · exact heq
  · rw [Text.sameName_comm] at hname
    exact absurd hname (Bool.eq_false_iff.1 (hdistinct j i hj hi hlt))

namespace IsRead

theorem conjunct (h : table.IsRead visible schema value holds) {row : Tuple V} {filter k : Expr}
    (hholds : holds row filter) (hk : k ∈ filter.conjuncts) : holds row k := by
  fun_induction Expr.conjuncts filter with
  | case1 id span left right ihleft ihright =>
    obtain ⟨hleft, hright⟩ := h.both row id span left right hholds
    rcases mem_append.1 hk with hk | hk
    · exact ihleft hleft hk
    · exact ihright hright hk
  | case2 e _ =>
    rw [mem_singleton.1 hk]
    exact hholds

/-- Two rows in which a filter is true agree in a column that it pins. -/
theorem agree (h : table.IsRead visible schema value holds) {row row' : Tuple V} {filter : Expr}
    {i : Nat} (hpins : table.Pins visible schema filter i) (hrow : holds row filter)
    (hrow' : holds row' filter) : row i = row' i := by
  obtain ⟨⟨id, span, _⟩, hk, left, right, ⟨columnId, columnSpan, _⟩, constant, ref, hform, hsides,
    hcolumn, hanswers, hconstant⟩ := hpins
  cases hform
  cases hcolumn
  have hpinned : ∀ r : Tuple V, holds r filter → r i = value r constant := by
    intro r hr
    obtain ⟨v, hleft, hright⟩ := h.equal r id span left right (h.conjunct hr hk)
    rw [← h.column r columnId columnSpan ref i hanswers]
    rcases hsides with ⟨rfl, rfl⟩ | ⟨rfl, rfl⟩
    · rw [hleft, hright]
    · rw [hleft, hright]
  rw [hpinned row hrow, hpinned row' hrow', h.fixed row row' constant hconstant]

end IsRead

/-- Expressions are read by evaluating them, if only equal values are equal, columns have their
values in the row and bound values do not depend on it. -/
theorem isRead_eval {I : Interpretation V} {ν : Tuple V → Valuation V}
    (hequal : ∀ x y, I.truthOf (I.binary .eq x y) = some true → x = y)
    (hcolumn : ∀ row ref i, table.Answers visible schema ref i → (ν row).column ref = row i)
    (hbound : ∀ row row' ordinal, (ν row).placeholder ordinal = (ν row').placeholder ordinal) :
    table.IsRead visible schema (fun row e => e.eval I (ν row)) fun row e => e.Holds I (ν row) where
  both row id span left right h := by
    rw [Expr.Holds, Expr.eval, ExprForm.eval, Interpretation.binaryValue,
      Interpretation.truthOf_ofTruth, Truth.and_eq_true] at h
    exact h
  equal row id span left right h := by
    replace h : I.truthOf (I.strict .eq (left.eval I (ν row)) (right.eval I (ν row))) =
      some true := h
    cases hleft : left.eval I (ν row) with
    | none =>
      rw [hleft] at h
      cases h
    | some x =>
      cases hright : right.eval I (ν row) with
      | none =>
        rw [hright, Interpretation.strict_none_right] at h
        cases h
      | some y =>
        rw [hleft, hright] at h
        exact ⟨x, rfl, by rw [hequal x y h]⟩
  fixed row row' e h := by
    obtain ⟨id, span, form⟩ := e
    cases form with
    | literal l => rfl
    | placeholder ordinal => exact hbound row row' ordinal
    | _ => cases h
  column row id span ref i h := hcolumn row ref i h

end Table

namespace Analysis

variable {input : AnalysisInput} {s s' : AnalysisState}

/-! ### The walk over a specification -/

/-- The walk over the clauses of a specification that follow its filter. -/
def walkBehind (input : AnalysisInput) (spec : QuerySpec) (joined : TablesShape) :
    Analysis SelectionShape := do
  noteProven (joined.predicates ++ spec.filter.toList)
  let selected ← walkItems input {} spec.items
  modifyScope fun scope => { scope with allowAliases := true }
  let _ ← walkList input spec.groupBy
  let _ ← walkOption input spec.having
  return selected

/-- The walk over the clauses of a specification, in its scope. -/
def walkClauses (input : AnalysisInput) (spec : QuerySpec) :
    Analysis (TablesShape × SelectionShape) := do
  noteClause input spec.tables
  let joined ← walkTables input {} spec.tables
  let _ ← walkOption input spec.filter
  let selected ← walkBehind input spec joined
  return (joined, selected)

/-- The walk over a specification goes through its clauses in a scope of its own, and then tells
whether it has one row at most. -/
theorem walkSpecs_eq_walkClauses (input : AnalysisInput) (spec : QuerySpec)
    (rest : List QuerySpec) : walkSpecs input (spec :: rest) = do
      let ((columns, layout, singleRow), scope) ← inScope {} do
        let (joined, selected) ← walkClauses input spec
        let s ← get
        return (selected.columns, s.layout input.text joined selected.items spec.filter,
          s.singleRow input.catalog spec.items spec.tables spec.filter spec.groupBy)
      let shapes ← walkSpecs input rest
      return { columns, layout, scope, singleRow } :: shapes := by
  obtain ⟨distinct, items, tables, filter, groupBy, having, span⟩ := spec
  simp only [walkClauses, walkBehind, bind_assoc, pure_bind]
  rw [walkSpecs]

/-- A specification is walked over with nothing noted of its nodes, and what is found tells whether
it has one row at most. -/
def WalkedAs (input : AnalysisInput) (spec : QuerySpec) (shape : SpecShape) : Prop :=
  ∃ (s : AnalysisState) (shapes : TablesShape × SelectionShape) (s' : AnalysisState),
    s.Fresh (QuerySpec.nodesList [spec]) ∧
    walkClauses input spec { s with scopes := s.scopes.push {} } = .ok shapes s' ∧
      shape.singleRow = s'.singleRow input.catalog spec.items spec.tables spec.filter spec.groupBy

theorem forall₂_walkedAs {specs : List QuerySpec} {shapes : List SpecShape}
    (hnew : s.Fresh (QuerySpec.nodesList specs)) (hrun : walkSpecs input specs s = .ok shapes s') :
    Forall₂ (WalkedAs input) specs shapes := by
  induction specs generalizing s shapes with
  | nil =>
    cases hrun
    exact .nil
  | cons spec rest ih =>
    rw [QuerySpec.nodesList_cons] at hnew
    rw [walkSpecs_eq_walkClauses] at hrun
    obtain ⟨found, s₁, hscope, hrun⟩ := bind_eq_ok.1 hrun
    obtain ⟨others, s₂, hrest, hrun⟩ := bind_eq_ok.1 hrun
    cases hrun
    refine .cons ?_ (ih (Notes.fresh ?_ hnew) hrest)
    · obtain ⟨t, hstep, -, -⟩ := inScope_eq_ok hscope
      obtain ⟨clauses, t', hclauses, hstep⟩ := bind_eq_ok.1 hstep
      obtain ⟨⟨columns, layout, singleRow⟩, scope⟩ := found
      cases hstep
      exact ⟨s, clauses, t, hnew.left, hclauses, rfl⟩
    -- by itself the specification would be walked over in the same way
    · have halone : after (walkSpecs input [spec]) s = s₁ := by
        rw [walkSpecs_eq_walkClauses]
        exact after_of_ok (bind_eq_ok.2 ⟨found, s₁, hscope, rfl⟩)
      rw [← halone]
      exact surrounds_notes.walkSpecs [spec] (binds_notes (List.Subset.refl _)) s

/-- The nodes in the clauses that follow the filter. -/
def nodesBehind (spec : QuerySpec) : List Expr :=
  SelectItem.nodesList spec.items ++ Expr.nodesList spec.groupBy ++ Expr.nodesOption spec.having

theorem Surrounds.walkBehind {R Inside : AnalysisState → AnalysisState → Prop} [Coarse R]
    [CoarseInside Inside] (h : Surrounds R Inside) {spec : QuerySpec}
    (hb : Binds R (nodesBehind spec)) (joined : TablesShape) :
    Follows Inside (Analysis.walkBehind input spec joined) :=
  (follows_noteProven _).bind fun _ => (h.walkItems _ _ hb.left.left).bind fun _ =>
    (follows_modifyScope _).bind fun _ => (h.weaken (h.walkList _ hb.left.right)).bind fun _ =>
      (h.weaken (h.walkOption _ hb.right)).bind fun _ => follows_pure _

/-- A table that stands alone is the only source of the innermost scope. -/
theorem walkTables_single {schema : Option String} {name : String} {label : Option String}
    {span tableSpan : Span} {joined : TablesShape} (hs : 0 < s.scopes.size)
    (hnone : s.inner.sources = [])
    (hrun : walkTables input {} [⟨.table schema name label tableSpan, [], span⟩] s =
      .ok joined s') :
    ∃ table source, input.catalog.table? schema name = some table ∧
      s'.inner.sources = [source] ∧ (source.visible = label.getD name ∧ source.schema = schema) ∧
        source.columns.map SourceColumn.name = table.columns.map Column.name := by
  obtain ⟨source, s₁, hfactor, hrun⟩ := bind_eq_ok.1 hrun
  obtain ⟨index, s₂, hpush, hrun⟩ := bind_eq_ok.1 hrun
  cases hrun
  have hkept : Kept s s₁ := after_of_ok hfactor ▸ follows_walkFactor input _ s
  rw [← hkept.scopes] at hs
  obtain ⟨-, hinner, -⟩ := pushSource_inner hs hpush
  rw [inner_eq_of_kept hkept] at hinner
  replace hfactor : tableSource input schema name label s = .ok source s₁ := hfactor
  unfold tableSource at hfactor
  cases hfound : input.catalog.table? schema name with
  | none =>
    rw [hfound] at hfactor
    cases hfactor
  | some table =>
    rw [hfound] at hfactor
    obtain ⟨columns, s₃, hcolumns, hfactor⟩ := bind_eq_ok.1 hfactor
    cases hfactor
    rw [hnone, nil_append] at hinner
    have hsources := congrArg Scope.sources hinner
    exact ⟨table, _, rfl, hsources, ⟨rfl, rfl⟩, addColumns_map (fun _ _ => rfl) hcolumns⟩

/-- When all clauses have been walked over, what is noted of the operands of the filter is what
their names were looked up as among the tables. -/
theorem resolved_walkClauses {spec : QuerySpec} {filter : Expr}
    {shapes : TablesShape × SelectionShape} (hfilter : spec.filter = some filter)
    (hnew : s.Fresh (QuerySpec.nodesList [spec]))
    (hrun : walkClauses input spec s = .ok shapes s') :
    ∃ u joined s₁ t, noteClause input spec.tables s = .ok u s₁ ∧
      walkTables input {} spec.tables s₁ = .ok joined t ∧ s'.scopes.size = t.scopes.size ∧
        ∀ k ∈ filter.conjuncts, ∀ op left right x, k.form = .binary op left right →
          x = left ∨ x = right → s'.Resolved t.scopes x := by
  obtain ⟨distinct, items, tables, _, groupBy, having, span⟩ := spec
  cases hfilter
  replace hnew : s.Fresh (SelectItem.nodesList items ++ TableRef.nodesList tables ++ filter.nodes ++
    Expr.nodesList groupBy ++ Expr.nodesOption having) := hnew.left
  obtain ⟨u, s₁, hclause, hrun⟩ := bind_eq_ok.1 hrun
  obtain ⟨joined, t, htables, hrun⟩ := bind_eq_ok.1 hrun
  obtain ⟨_, s₂, hwalkFilter, hrun⟩ := bind_eq_ok.1 hrun
  obtain ⟨selected, s₃, hbehind, hrun⟩ := bind_eq_ok.1 hrun
  cases hrun
  obtain ⟨_, s₃, hwalk, hwalkFilter⟩ := bind_eq_ok.1 hwalkFilter
  cases hwalkFilter
  refine ⟨u, joined, s₁, t, hclause, htables, ?_, fun k hk op left right x hform hx => ?_⟩
  · have hkept : Kept t s₂ := after_of_ok hwalk ▸ follows_walk input filter t
    have houter : KeptOuter s₂ s' :=
      after_of_ok hbehind ▸ surrounds_kept.walkBehind (binds_kept _) joined s₂
    rw [houter.depth, hkept.scopes]
  · have hfresh : t.Fresh filter.nodes := by
      have hnoted : Notes (TableRef.nodesList tables) s t :=
        (after_of_ok hclause ▸ follows_noteClause input tables s : Notes _ s s₁).trans
          (after_of_ok htables ▸
            surrounds_notes.walkTables {} tables (binds_notes (List.Subset.refl _)) s₁)
      refine hnoted.fresh (hnew.left.left.sublist ?_)
      rw [append_assoc]
      exact sublist_append_right _ _
    have hoperand : x ∈ filter.nodes :=
      Expr.nodes_conjunct_subset hk (Expr.operand_mem_nodes hform hx)
    have hnoted : Notes (nodesBehind _) s₂ s' := after_of_ok hbehind ▸
      surrounds_notes.walkBehind (binds_notes (List.Subset.refl _)) joined s₂
    refine (resolved_conjunct hfresh hwalk hk hform hx).of_eq (hnoted.reference?_eq ?_)
    intro n hn _ _
    rcases mem_append.1 hn with hn | hn
    · rcases mem_append.1 hn with hn | hn
      · exact hnew.left.left.id_ne (mem_append_left _ hn) hoperand
      · exact (hnew.left.id_ne (mem_append_right _ hoperand) hn).symm
    · exact (hnew.id_ne (mem_append_left _ (mem_append_right _ hoperand)) hn).symm

end Analysis

/-! ### Pinned columns -/

namespace AnalysisState

variable {s : AnalysisState}

theorem pinnedBy_eq_some {column constant : Expr} {name : String}
    (h : s.pinnedBy column constant = some name) : isValue constant = true ∧
      ∃ bound, s.localColumn? column = some bound ∧ bound.name = name := by
  unfold pinnedBy at h
  split at h
  next hvalue =>
    obtain ⟨bound, hbound, h⟩ := Option.bind_eq_some_iff.1 h
    split at h
    next => exact ⟨hvalue, bound, hbound, Option.some.inj h⟩
    next => cases h
  next => cases h

/-- A conjunct that pins a column is an equality of the column with a value, in either order. -/
theorem mem_pinned {k : Expr} {name : String} (h : name ∈ s.pinned k) :
    ∃ left right column constant, k.form = .binary .eq left right ∧
      ((left = column ∧ right = constant) ∨ (left = constant ∧ right = column)) ∧
        isValue constant = true ∧ ∃ bound, s.localColumn? column = some bound ∧
          bound.name = name := by
  unfold pinned at h
  split at h
  next left right hform =>
    rcases mem_append.1 h with h | h
    · exact ⟨left, right, left, right, hform, .inl ⟨rfl, rfl⟩,
        pinnedBy_eq_some (Option.mem_toList.1 h)⟩
    · exact ⟨left, right, right, left, hform, .inr ⟨rfl, rfl⟩,
        pinnedBy_eq_some (Option.mem_toList.1 h)⟩
  next => cases h

/-- A column of the innermost scope, where that has the source of a table only, is the column of the
table that its name speaks of. -/
theorem answers_of_localColumn? {t : AnalysisState} {table : Table} {source : Source} {e : Expr}
    {bound : BoundColumn} (ht : 0 < t.scopes.size) (hsources : t.inner.sources = [source])
    (hcolumns : source.columns.map SourceColumn.name = table.columns.map Column.name)
    (hsize : s.scopes.size = t.scopes.size) (hresolved : s.Resolved t.scopes e)
    (hbound : s.localColumn? e = some bound) :
    ∃ ref c, e.form = .column ref ∧
      table.Answers source.visible source.schema ref bound.column ∧
        table.columns[bound.column]? = some c ∧ c.name = bound.name := by
  obtain ⟨hreference, hinner⟩ := localColumn?_eq_some hbound
  obtain ⟨ref, hform, hresolve⟩ := hresolved _ hreference
  obtain ⟨outer, hpush⟩ := Array.back?_eq_some_iff.1 (Analysis.back?_eq_inner ht)
  rw [Scopes.innermost, hsize, hpush, Array.size_push, Nat.add_sub_cancel] at hinner
  rw [hpush] at hresolve
  obtain ⟨hqualified, ⟨i, column⟩, hcolumn, rfl⟩ :=
    Scopes.column?_of_resolve_push hsources hresolve hinner
  obtain ⟨index, hindex, hcolumn⟩ := Option.bind_eq_some_iff.1 hcolumn
  obtain ⟨found, hfound, hcolumn⟩ := Option.bind_eq_some_iff.1 hcolumn
  cases hcolumn
  have hnames : (table.columns.map Column.name)[i]? = some column.name := by
    rw [← hcolumns, getElem?_map, hfound, Option.map_some]
  rw [getElem?_map] at hnames
  obtain ⟨c, hc, hname⟩ := Option.map_eq_some_iff.1 hnames
  refine ⟨ref, c, hform, ⟨hqualified, ?_⟩, hc, hname⟩
  have hsame : (source.columns.map SourceColumn.name).findIdx? (Text.sameName · ref.name) =
      (table.columns.map Column.name).findIdx? (Text.sameName · ref.name) := by rw [hcolumns]
  rw [findIdx?_map, findIdx?_map] at hsame
  exact hsame.symm.trans hindex

end AnalysisState

/-- If the filter of a specification is found to pin the primary key of its only table, then its
conjuncts pin every column of the key. -/
theorem Analysis.pins_of_walkClauses {input : AnalysisInput} {spec : QuerySpec}
    {s s' : AnalysisState} {shapes : TablesShape × SelectionShape} {schema : Option String}
    {name : String} {label : Option String} {tableSpan span : Span} {table : Table} {filter : Expr}
    (hsound : table.Sound) (hnew : s.Fresh (QuerySpec.nodesList [spec]))
    (hrun : walkClauses input spec { s with scopes := s.scopes.push {} } = .ok shapes s')
    (htables : spec.tables = [⟨.table schema name label tableSpan, [], span⟩])
    (hfilter : spec.filter = some filter) (htable : input.catalog.table? schema name = some table)
    (hpins : s'.pinsPrimaryKey table filter = true) {i : Nat} {c : Column}
    (hc : table.columns[i]? = some c) (hkey : c.key = .primary) :
    table.Pins (label.getD name) schema filter i := by
  have hfresh : AnalysisState.Fresh { s with scopes := s.scopes.push {} }
    (QuerySpec.nodesList [spec]) := ⟨hnew.apart, hnew.unnoted⟩
  obtain ⟨u, joined, s₁, t, hclause, hwalkTables, hsize, hresolved⟩ :=
    resolved_walkClauses hfilter hfresh hrun
  -- the table is the only source of the scope
  obtain ⟨hsources₁, -, hs₁⟩ := noteClause_inner (by simp) hclause
  have hnone : s₁.inner.sources = [] := by rw [hsources₁]; simp [AnalysisState.inner]
  rw [htables] at hwalkTables
  obtain ⟨found, source, hfound, hsources, ⟨hvisible, hschema⟩, hcolumns⟩ :=
    walkTables_single hs₁ hnone hwalkTables
  obtain rfl : found = table := Option.some.inj (hfound.symm.trans htable)
  have houter : KeptOuter s₁ t := after_of_ok hwalkTables ▸ follows_walkTables input {} _ s₁
  rw [← houter.depth] at hs₁
  -- some conjunct pins a column of the name, which is this one
  have hall := (Bool.and_eq_true_iff.1 hpins).2
  have hmem : c ∈ found.primaryKey :=
    mem_filter.2 ⟨mem_of_getElem? hc, beq_iff_eq.2 hkey⟩
  obtain ⟨pinnedName, hpinned, hname⟩ :=
    any_eq_true.1 (all_eq_true.1 hall c hmem)
  obtain ⟨k, hk, hpinned⟩ := mem_flatMap.1 hpinned
  obtain ⟨left, right, column, constant, hform, hsides, hconstant, bound, hbound, rfl⟩ :=
    AnalysisState.mem_pinned hpinned
  have hoperand : column = left ∨ column = right := by
    rcases hsides with ⟨rfl, -⟩ | ⟨-, rfl⟩
    · exact .inl rfl
    · exact .inr rfl
  obtain ⟨ref, d, hcolumn, hanswers, hd, hdname⟩ := AnalysisState.answers_of_localColumn? hs₁
    hsources hcolumns hsize (hresolved k hk _ _ _ column hform hoperand) hbound
  rw [← hdname] at hname
  obtain rfl := hsound.index_eq hd hc hname
  rw [hvisible, hschema] at hanswers
  exact ⟨k, hk, left, right, column, constant, ref, hform, hsides, hcolumn, hanswers, hconstant⟩

/-! ### One row at most -/

/-- Every specification of a query that was read and analysed is walked over with nothing noted of
its nodes. What is found in the first decides, with the limit, how many rows are reported. -/
theorem Statement.forall₂_walkedAs {text : String} {statement : Statement} {query : Query}
    {input : AnalysisInput} {result : AnalysisResult} (hparse : parse text = .ok statement)
    (hkind : statement.kind = .select query) (hanalyze : statement.analyze input = .ok result) :
    ∃ first branches, Forall₂ (Analysis.WalkedAs input) query.specs (first :: branches) ∧
      result.signature.multipleRows = (!input.config.inferMultipleRows ||
        !(Analysis.isLimitOne query.limit || (branches.isEmpty && first.singleRow))) := by
  obtain ⟨s, -, hquery⟩ := walked_of_analyze hanalyze
  obtain ⟨shape, hrun, rfl⟩ := hquery query hkind
  have hapart := nodup_ids hparse
  rw [hkind] at hapart
  have hfresh : (AnalysisState.initial input statement.placeholders).Fresh query.nodes :=
    ⟨hapart, fun _ _ => rfl⟩
  obtain ⟨specs, unionAll, orderBy, limit, span⟩ := query
  rw [Analysis.walkQuery] at hrun
  obtain ⟨shapes, s₁, hspecs, hrun⟩ := bind_eq_ok.1 hrun
  have hwalked := Analysis.forall₂_walkedAs hfresh.left.left hspecs
  cases shapes with
  | nil => cases hrun
  | cons first branches =>
    obtain ⟨columns, s₂, -, hrun⟩ := bind_eq_ok.1 hrun
    obtain ⟨_, s₃, -, hrun⟩ := bind_eq_ok.1 hrun
    obtain ⟨_, s₄, -, hrun⟩ := bind_eq_ok.1 hrun
    cases hrun
    exact ⟨first, branches, hwalked, rfl⟩

/-- If the filter of a specification is found to pin the primary key of its only table, then it is
true in one row at most, among any rows of the table of which no two have one key, and whatever the
values of bound values and of outer columns are. A catalog that was loaded is sound
(`Catalog.sound_ofDocument`), and the specifications of a query that is analysed are walked over in
this way, one after the other (`Statement.forall₂_walkedAs`). -/
theorem primaryKeyFilter_subsingleton {input : AnalysisInput} {spec : QuerySpec}
    {s s' : AnalysisState} {shapes : TablesShape × SelectionShape} (hcatalog : input.catalog.Sound)
    (hnew : s.Fresh (QuerySpec.nodesList [spec]))
    (hrun : Analysis.walkClauses input spec { s with scopes := s.scopes.push {} } = .ok shapes s')
    (hpins : s'.primaryKeyFilter input.catalog spec.tables spec.filter = true) :
    ∃ schema name label tableSpan span table filter,
      spec.tables = [⟨.table schema name label tableSpan, [], span⟩] ∧ spec.filter = some filter ∧
      input.catalog.table? schema name = some table ∧ table.primaryKey ≠ [] ∧
      ∀ (V : Type) (value : Tuple V → Expr → Option V) (holds : Tuple V → Expr → Prop),
        table.IsRead (label.getD name) schema value holds →
        ∀ rows : Set (Tuple V), rows.InjOn table.keyOf →
          {row ∈ rows | holds row filter}.Subsingleton := by
  unfold AnalysisState.primaryKeyFilter at hpins
  split at hpins
  next schema name label tableSpan span filter htables hfilter =>
    obtain ⟨table, htable, hpins⟩ := (Option.any_eq_true _ _).1 hpins
    have hsound : table.Sound := hcatalog.tables table (Catalog.mem_of_table? htable)
    have hkey : table.primaryKey ≠ [] := by
      simpa using (Bool.and_eq_true_iff.1 hpins).1
    refine ⟨schema, name, label, tableSpan, span, table, filter, htables, hfilter, htable, hkey,
      fun V value holds hread rows hkeys row hrow row' hrow' => ?_⟩
    refine hkeys hrow.1 hrow'.1 (Table.keyOf_eq_of_forall fun i c hc hprimary => ?_)
    exact hread.agree (Analysis.pins_of_walkClauses hsound hnew hrun htables hfilter htable hpins hc
      hprimary) hrow.2 hrow'.2
  next => cases hpins

/-- A table with the columns `a`, `b` and `c`, of which the first two make its primary key. -/
def keyDocument : Catalog.Document where
  columns := [⟨"", "t", "a", .int, true, .primary, none⟩,
    ⟨"", "t", "b", .int, true, .primary, none⟩, ⟨"", "t", "c", .int, true, .none, none⟩]
  foreignKeys := []

def keyInput : AnalysisInput :=
  ⟨"SELECT * FROM t WHERE (t.a = 1 AND c = 2) AND ? = B",
    (Catalog.ofDocument keyDocument).toOption.getD .empty, {}, none, []⟩

/-- The columns of a row by name, and 7 for each bound value. -/
def keyValues (row : Tuple Int) : Valuation Int where
  column ref := ((keyInput.catalog.table? none "t").bind fun table =>
    table.columns.findIdx? fun c => Text.sameName c.name ref.name).bind row
  placeholder _ := some 7

/-- Whether a statement selects from the table, with a filter that is true in the row of 1, 7 and
2, and is reported to have one row at most. -/
def isKeyQuery (statement : Statement) : Bool :=
  match statement.kind, statement.analyze keyInput with
  | .select ⟨[⟨_, [.all _], [⟨.table none name none _, [], _⟩], some filter, [], _, _⟩], _, _,
      none, _⟩, .ok result =>
    name == "t" && !result.signature.multipleRows &&
      wholeNumbers.truthOf (filter.eval wholeNumbers
        (keyValues fun i => ([1, 7, 2] : List Int)[i]?)) == some true
  | _, _ => false

theorem eq_of_wholeNumbers {x y : Int}
    (h : wholeNumbers.truthOf (wholeNumbers.binary .eq x y) = some true) : x = y := by
  by_contra hne
  replace h : wholeNumbers.truthOf (some (if x = y then 1 else 0)) = some true := h
  rw [if_neg hne] at h
  cases h

/-- The filter pins both columns of the key, the second one by a bound value on its left. So one row
is reported, and the filter is true in one row at most, and it is true in the row of 1, 7 and 2. -/
theorem primaryKeyFilter_subsingleton_composite : ∃ statement query spec filter result table,
    (Statement.parse keyInput.text = .ok statement ∧ statement.kind = .select query ∧
      query.specs = [spec] ∧ spec.filter = some filter) ∧
    Catalog.ofDocument keyDocument = .ok keyInput.catalog ∧
    statement.analyze keyInput = .ok result ∧ result.signature.multipleRows = false ∧
    keyInput.catalog.table? none "t" = some table ∧
    (∀ rows : Set (Tuple Int), rows.InjOn table.keyOf →
      {row ∈ rows | filter.Holds wholeNumbers (keyValues row)}.Subsingleton) ∧
    filter.Holds wholeNumbers (keyValues fun i => ([1, 7, 2] : List Int)[i]?) := by
  have hload : Catalog.ofDocument keyDocument = .ok keyInput.catalog := by decide +kernel
  obtain ⟨statement, hparse, htest⟩ := Statement.exists_of_isRead
    (show Statement.isRead keyInput.text isKeyQuery = true by decide +kernel)
  unfold isKeyQuery at htest
  split at htest
  next filter _ _ _ _ _ result hkind hanalyze =>
    simp only [Bool.and_eq_true, beq_iff_eq, Bool.not_eq_true'] at htest
    obtain ⟨⟨rfl, hsingle⟩, hholds⟩ := htest
    obtain ⟨first, branches, hwalked, hreported⟩ :=
      Statement.forall₂_walkedAs hparse hkind hanalyze
    obtain ⟨hfirst, hnone⟩ := forall₂_cons.1 hwalked
    cases hnone
    obtain ⟨s, shapes, s', hnew, hrun, hfound⟩ := hfirst
    replace hreported : false = !first.singleRow := hsingle.symm.trans hreported
    have hone : first.singleRow = true := by simpa using hreported
    obtain ⟨_, _, _, _, _, table, _, htables, hfilter, htable, -, hrows⟩ :=
      primaryKeyFilter_subsingleton (Catalog.sound_ofDocument hload) hnew hrun
        (hfound.symm.trans hone)
    cases htables
    cases hfilter
    refine ⟨statement, _, _, filter, result, table, ⟨hparse, hkind, rfl, rfl⟩, hload, hanalyze,
      hsingle, htable, hrows Int _ _ (Table.isRead_eval ?_ ?_ ?_), hholds⟩
    · exact fun x y => eq_of_wholeNumbers
    · intro row ref i hanswers
      show (Option.bind _ _).bind row = row i
      rw [htable, Option.bind_some, hanswers.2, Option.bind_some]
    · exact fun _ _ _ => rfl
  next => cases htest

end SqlSignature
