import SqlSignature.Proofs.DeclaredColumns
import SqlSignature.Proofs.OrderedWalk
/-!
# SqlSignature.Proofs.DerivedTable

A query in place of a table is transparent: selecting all columns of it gives what the query gives
by itself. Inside of the derived table the walk sees no scopes, as at the top of a statement, so
both walks of the query are the same run (`Analysis.walkQuery_selectAll`). Around it no constraint
is added, and the wildcard stands for the columns of the query with their variables.
-/

namespace SqlSignature

/-- The query `SELECT * FROM (q) AS label`. Its parts may stand anywhere in a text. -/
def Query.selectAll (q : Query) (label : String) (item factor table spec whole : Span) : Query :=
  { specs := [{ distinct := false, items := [.all item]
                tables := [⟨.derived q label factor, [], table⟩]
                filter := none, groupBy := [], having := none, span := spec }]
    unionAll := [], orderBy := [], limit := none, span := whole }

namespace Analysis

theorem run_bind_ok {α β : Type} {step : Analysis α} {next : α → Analysis β} {s t : AnalysisState}
    {a : α} (h : step s = .ok a t) : (step >>= next) s = next a t := by
  show EStateM.bind step next s = _
  rw [EStateM.bind, h]

theorem run_bind_error {α β : Type} {step : Analysis α} {next : α → Analysis β}
    {s t : AnalysisState} {e : AnalysisError} (h : step s = .error e t) :
    (step >>= next) s = .error e t := by
  show EStateM.bind step next s = _
  rw [EStateM.bind, h]

variable {input : AnalysisInput} {s t : AnalysisState} {q : Query} {shape : QueryShape} {α β : Type}
  {step : Analysis α} {next : α → Analysis β}
  {label : String} {item factor table spec whole : Span} {text : Option String} {e : AnalysisError}

theorem walkFactor_ok (h : walkQuery input q { s with scopes := #[] } = .ok shape t) :
    walkFactor input (.derived q label factor) s =
      .ok (derivedSource label shape.columns) { t with scopes := s.scopes } := by
  have hisolated : isolated (walkQuery input q) s = .ok shape { t with scopes := s.scopes } := by
    rw [isolated, h]
  rw [walkFactor, run_bind_ok hisolated]
  rfl

theorem walkFactor_error (h : walkQuery input q { s with scopes := #[] } = .error e t) :
    walkFactor input (.derived q label factor) s = .error e { t with scopes := s.scopes } := by
  have hisolated : isolated (walkQuery input q) s = .error e { t with scopes := s.scopes } := by
    rw [isolated, h]
  rw [walkFactor, run_bind_error hisolated]

/-- The walk over a derived table that stands alone. -/
theorem walkTables_ok (h : walkQuery input q { s with scopes := #[] } = .ok shape t) :
    walkTables input {} [⟨.derived q label factor, [], table⟩]
        { s with scopes := #[{ tablesText := text }] } =
      .ok (({} : TablesShape).addItem (factor.text input.text)) { t with
        scopes := #[{ tablesText := text, sources := [derivedSource label shape.columns] }] } := by
  let start : AnalysisState := { s with scopes := #[{ tablesText := text }] }
  have hfactor : walkFactor input (.derived q label factor) start =
      .ok (derivedSource label shape.columns) { t with scopes := start.scopes } := walkFactor_ok h
  rw [walkTables, run_bind_ok hfactor]
  have hpush : pushSource (derivedSource label shape.columns)
      { t with scopes := #[{ tablesText := text }] } =
      .ok 0 { t with
        scopes := #[{ tablesText := text, sources := [derivedSource label shape.columns] }] } := rfl
  rw [run_bind_ok hpush, walkJoins]
  rfl

/-- What a column of a query has in common with the column of a wildcard that stands for it. -/
def outline (c : ShapeColumn) : String × TypeVar × Bool := (c.name, c.var, c.notNull)

/-- The scope of a specification whose only table is a query. -/
def derivedScope (text : Option String) (label : String) (columns : List ShapeColumn) : Scope :=
  { tablesText := text, sources := [derivedSource label columns] }

/-- What a wildcard over one derived table gives. -/
theorem selectBound_derived (columns : List ShapeColumn)
    (hs : s.scopes = #[derivedScope text label columns]) :
    ∃ found, selectBound input {} Scopes.expandAll item s = .ok found s ∧
      found.columns.map outline = columns.map outline := by
  have hexpand : Scopes.expandAll s.scopes =
      .ok (s.scopes.columnsOf (0, derivedSource label columns)) := by
    rw [hs]
    simp [Scopes.expandAll, derivedScope]
  have hscope : innermostScope s = .ok (derivedScope text label columns) s := by
    show EStateM.Result.ok (s.scopes.back?.getD {}) s = _
    rw [hs]
    rfl
  have hbound : (do ofExcept (Scopes.expandAll (← get).scopes) : Analysis _) s =
      .ok (s.scopes.columnsOf (0, derivedSource label columns)) s := by
    show ofExcept (Scopes.expandAll s.scopes) s = _
    rw [hexpand]
    rfl
  refine ⟨_, (run_bind_ok hbound).trans (run_bind_ok hscope), ?_⟩
  rw [hs, SelectionShape.add, List.nil_append]
  refine List.ext_getElem? fun i => ?_
  simp only [Scopes.columnsOf, derivedSource, List.getElem?_map, List.getElem?_zipIdx,
    Nat.zero_add, Option.map_map, Function.comp_def]
  cases h : columns[i]? with
  | none => rfl
  | some c =>
    simp [outline, wildcardColumn, BoundColumn.of, ShapeColumn.toSource, Scope.columnNotNull, h,
      derivedScope, derivedSource]

/-- A step takes one state to another, with a result that has a property. -/
def RunsTo {α : Type} (step : Analysis α) (s t : AnalysisState) (P : α → Prop) : Prop :=
  ∃ a, step s = .ok a t ∧ P a

theorem RunsTo.bind {s t u : AnalysisState} {P : α → Prop} {Q : β → Prop} (h : RunsTo step s t P)
    (hnext : ∀ a, P a → RunsTo (next a) t u Q) : RunsTo (step >>= next) s u Q := by
  obtain ⟨a, hstep, ha⟩ := h
  obtain ⟨b, hb, hQ⟩ := hnext a ha
  exact ⟨b, (run_bind_ok hstep).trans hb, hQ⟩

theorem RunsTo.then {s t u : AnalysisState} {Q : β → Prop} {a : α} (h : step s = .ok a t)
    (hnext : RunsTo (next a) t u Q) : RunsTo (step >>= next) s u Q :=
  RunsTo.bind ⟨a, h, rfl⟩ fun _ hb => hb ▸ hnext

theorem RunsTo.inScope {scope : Scope} {P : α → Prop}
    (h : RunsTo step { s with scopes := s.scopes.push scope } t P) :
    RunsTo (inScope scope step) s { t with scopes := t.scopes.pop } fun r => P r.1 := by
  obtain ⟨a, hstep, ha⟩ := h
  exact ⟨_, by rw [Analysis.inScope, hstep], ha⟩

/-- A step fails with an error. -/
def Fails {α : Type} (step : Analysis α) (s : AnalysisState) (e : AnalysisError) : Prop :=
  ∃ t, step s = .error e t

theorem Fails.bind (h : Fails step s e) (next : α → Analysis β) : Fails (step >>= next) s e := by
  obtain ⟨t, hstep⟩ := h
  exact ⟨t, run_bind_error hstep⟩

theorem Fails.after {a : α} (h : step s = .ok a t) (hnext : Fails (next a) t e) :
    Fails (step >>= next) s e := by
  obtain ⟨u, hu⟩ := hnext
  exact ⟨u, (run_bind_ok h).trans hu⟩

theorem Fails.inScope {scope : Scope} (h : Fails step { s with scopes := s.scopes.push scope } e) :
    Fails (inScope scope step) s e := by
  obtain ⟨t, hstep⟩ := h
  exact ⟨_, by rw [Analysis.inScope, hstep]⟩

/-! ### Selecting all columns of a query -/

/-- The scope of a specification without tables, once its clause has been noted. -/
theorem noteClause_ok (hs : s.scopes = #[]) (tables : List TableRef) :
    noteClause input tables { s with scopes := s.scopes.push {} } =
      .ok () { s with scopes := #[{ tablesText := clauseText input tables }] } := by
  rw [hs, noteClause]
  cases clauseText input tables <;> rfl

/-- Inside of the derived table the query is walked as it is by itself. -/
theorem walkQuery_selectAll (hs : s.scopes = #[]) (ht : t.scopes = #[])
    (h : walkQuery input q s = .ok shape t) (label : String)
    (item factor table spec whole : Span) :
    RunsTo (walkQuery input (q.selectAll label item factor table spec whole)) s t fun found =>
      found.columns.map outline = shape.columns.map outline := by
  have hs' : ({ s with scopes := #[] } : AnalysisState) = s := by rw [← hs]
  have ht' : ({ t with scopes := #[] } : AnalysisState) = t := by rw [← ht]
  let scope := derivedScope (clauseText input [⟨.derived q label factor, [], table⟩]) label
    shape.columns
  have hproven : noteProven [] { t with scopes := #[scope] } =
      .ok () { t with scopes := #[scope] } := rfl
  have hitems : RunsTo (walkItems input {} [.all item]) { t with scopes := #[scope] }
      { t with scopes := #[scope] } fun found =>
        found.columns.map outline = shape.columns.map outline := by
    rw [walkItems]
    refine RunsTo.bind (selectBound_derived shape.columns rfl) fun found hfound => ?_
    rw [walkItems]
    exact ⟨found, rfl, hfound⟩
  simp only [Query.selectAll, walkQuery, walkSpecs, walkOption, walkList, walkSortKeys, walkLimit,
    pure_bind, bind_assoc]
  refine RunsTo.bind (P := fun r => r.1.1.map outline = shape.columns.map outline) (t := t) ?_ ?_
  · rw [← ht']
    refine RunsTo.inScope (t := { t with scopes := #[{ scope with allowAliases := true }] })
      (P := fun r : List ShapeColumn × Layout × Bool =>
        r.1.map outline = shape.columns.map outline) ?_
    refine RunsTo.then (noteClause_ok hs _) (RunsTo.then (walkTables_ok (hs'.symm ▸ h)) ?_)
    refine RunsTo.then hproven (RunsTo.bind hitems fun found hfound => ?_)
    exact ⟨_, rfl, hfound⟩
  · rintro ⟨⟨columns, layout, singleRow⟩, scope⟩ hcolumns
    rw [← ht']
    exact ⟨_, rfl, hcolumns⟩

/-- If the query cannot be analysed, then nor can its columns be selected. -/
theorem fails_walkQuery_selectAll (hs : s.scopes = #[]) (h : walkQuery input q s = .error e t)
    (label : String) (item factor table spec whole : Span) :
    Fails (walkQuery input (q.selectAll label item factor table spec whole)) s e := by
  have hs' : ({ s with scopes := #[] } : AnalysisState) = s := by rw [← hs]
  have hfactor (text : Option String) : Fails (walkFactor input (.derived q label factor))
      { s with scopes := #[{ tablesText := text }] } e :=
    ⟨_, walkFactor_error (hs'.symm ▸ h)⟩
  simp only [Query.selectAll, walkQuery, walkSpecs, walkTables, bind_assoc]
  exact Fails.bind (Fails.inScope (Fails.after (noteClause_ok hs _) ((hfactor _).bind _))) _

end Analysis

/-! ### Reports -/

/-- What a result column is, apart from where it comes from. -/
def ResultColumn.outline (c : ResultColumn) : String × ColumnType × Bool :=
  (c.name, c.type, c.notNull)

namespace Report

/-- If no sets of types were given, then a column has one type. -/
theorem columnType_eq_single {s : AnalysisState} (hsets : s.typeSets = []) (c : ShapeColumn) :
    columnType s c = .single (s.solver.resolved c.var) := by
  have hset : (c.expr.bind fun e => s.typeSets.lookup e.id) = none := by
    rw [hsets]
    cases c.expr <;> rfl
  rw [columnType, hset]
  rfl

theorem outline_renameAfter : ∀ {columns others : List ResultColumn} (seen : List String),
    columns.map ResultColumn.outline = others.map ResultColumn.outline →
    (renameAfter seen columns).map ResultColumn.outline =
      (renameAfter seen others).map ResultColumn.outline
  | [], [], _, _ => rfl
  | [], _ :: _, _, h => nomatch h
  | _ :: _, [], _, h => nomatch h
  | c :: columns, d :: others, seen, h => by
    obtain ⟨hcolumn, hrest⟩ := List.cons.inj h
    have hname : c.name = d.name := congrArg Prod.fst hcolumn
    simp only [renameAfter, List.map_cons, hname]
    refine congrArg₂ List.cons ?_ (outline_renameAfter _ hrest)
    exact congrArg (Prod.mk _) (congrArg Prod.snd hcolumn)

end Report

/-- The columns of a report, apart from where they come from, and its bound values. -/
def AnalysisResult.outline (result : AnalysisResult) :
    List (String × ColumnType × Bool) × List Parameter :=
  (result.signature.columns.map ResultColumn.outline, result.signature.parameters)

/-- If no sets of types were given, then a report is made of the names, the variables and the flags
of the columns. -/
theorem Report.outline_ofQuery {input : AnalysisInput} {s : AnalysisState}
    {shape found : QueryShape} (hsets : s.typeSets = [])
    (h : found.columns.map Analysis.outline = shape.columns.map Analysis.outline) :
    (ofQuery input s found).outline = (ofQuery input s shape).outline := by
  have hcolumn : ∀ c, (column s c).outline =
      (c.name, .single (s.solver.resolved c.var), c.notNull) :=
    fun c => congrArg (c.name, ·, c.notNull) (columnType_eq_single hsets c)
  have hcolumns : (found.columns.map (column s)).map ResultColumn.outline =
      (shape.columns.map (column s)).map ResultColumn.outline := by
    have hmap (columns : List ShapeColumn) : (columns.map (column s)).map ResultColumn.outline =
        (columns.map Analysis.outline).map fun (name, var, notNull) =>
          (name, .single (s.solver.resolved var), notNull) := by
      rw [List.map_map, List.map_map]
      exact List.map_congr_left fun c _ => hcolumn c
    rw [hmap, hmap, h]
  unfold ofQuery AnalysisResult.outline
  cases input.config.renameDuplicates with
  | true => exact congrArg (Prod.mk · _) (outline_renameAfter [] hcolumns)
  | false => exact congrArg (Prod.mk · _) hcolumns

namespace Statement

open Analysis

variable {text : String} {statement : Statement} {input : AnalysisInput} {q : Query}

/-- **A derived table is transparent.** Selecting all columns of a query in place of a table
succeeds exactly if the query does by itself, and then both report the same columns and the same
bound values. -/
theorem analyze_selectAll (hparse : parse text = .ok statement)
    (hkind : statement.kind = .select q) (hresolver : input.resolver = none) (label : String)
    (item factor table spec whole : Span) :
    (({ statement with kind := .select (q.selectAll label item factor table spec whole) } :
      Statement).analyze input).map AnalysisResult.outline =
      (statement.analyze input).map AnalysisResult.outline := by
  have hs : (AnalysisState.initial input statement.placeholders).scopes = #[] := rfl
  unfold analyze
  rw [hkind]
  unfold Statement.report
  cases hrun : walkQuery input q (.initial input statement.placeholders) with
  | error e t =>
    obtain ⟨t', hfails⟩ := fails_walkQuery_selectAll hs hrun label item factor table spec
      whole
    simp only [hfails, hrun]
  | ok shape t =>
    have hafter : stateAfter (walkQuery input q) (.initial input statement.placeholders) =
        .ok t := by
      simp only [stateAfter, hrun]
    have hwalked : statement.walked input = .ok t := by
      rw [walked, hkind]
      exact hafter
    have ht : t.scopes = #[] := ((follows_walkQuery input q).of_stateAfter hafter).scopes
    obtain ⟨found, hfound, hcolumns⟩ := walkQuery_selectAll hs ht hrun label item factor table
      spec whole
    simp only [hfound, hrun, Except.map]
    exact congrArg Except.ok (Report.outline_ofQuery
      ((orderly_of_walked (nodup_ids hparse) hwalked).typeSets hresolver) hcolumns)

/-- Two columns with one name and two bound values inside of a derived table. -/
theorem analyze_selectAll_twice :
    let text := "SELECT x, x FROM t WHERE x > ? UNION SELECT ?, 1"
    let input := (BoundText.ofText text).analysisInput twoTables {} none
    ∃ statement q, parse text = .ok statement ∧ statement.kind = .select q ∧
      input.resolver = none ∧ (statement.analyze input).toOption.isSome ∧
      (({ statement with kind := .select (q.selectAll "d" ⟨0, 0⟩ ⟨0, 0⟩ ⟨0, 0⟩ ⟨0, 0⟩ ⟨0, 0⟩) } :
        Statement).analyze input).map AnalysisResult.outline =
        (statement.analyze input).map AnalysisResult.outline := by
  intro text input
  have hread : isRead text (fun statement => !statement.kind.isModification &&
      (statement.analyze input).toOption.isSome) = true := by
    decide +kernel
  obtain ⟨statement, hparse, htest⟩ := exists_of_isRead hread
  rw [Bool.and_eq_true] at htest
  cases hkind : statement.kind with
  | select q =>
    exact ⟨statement, q, hparse, hkind, rfl, htest.2,
      analyze_selectAll hparse hkind rfl "d" ⟨0, 0⟩ ⟨0, 0⟩ ⟨0, 0⟩ ⟨0, 0⟩ ⟨0, 0⟩⟩
  | insert i => rw [hkind] at htest; cases htest.1
  | update u => rw [hkind] at htest; cases htest.1
  | delete d => rw [hkind] at htest; cases htest.1

end Statement

end SqlSignature
