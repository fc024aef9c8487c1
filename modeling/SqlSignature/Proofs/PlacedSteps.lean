import SqlSignature.Proofs.LeafFacts
import SqlSignature.Proofs.VariableRenaming
import SqlSignature.Proofs.WalkFrame
/-!
# SqlSignature.Proofs.PlacedSteps

An analysis that starts where another one has ended. Its state is placed behind what was there
before (`Analysis.Placed`): the variables are moved on by the number of variables before, the
constraints stand after those before, and the scopes are the same but for the moved variables. What
was found about other expressions does not matter, since each node has a number of its own. So a
step that succeeds by itself also succeeds there, and what it gives is moved (`Analysis.Carries`).
-/

open List

namespace SqlSignature

/-- The variable behind those of a solver. -/
def Solver.shift (base : Solver) (v : TypeVar) : TypeVar := ⟨base.vars.size + v.index⟩

namespace Analysis

/-- The second state is the first one behind a solver. The first knows no bound values; of the
expressions it is as the first one for those that are `own`. -/
structure Placed (base : Solver) (own : Nat → Prop) (s t : AnalysisState) : Prop where
  size : t.solver.vars.size = base.vars.size + s.solver.vars.size
  constraints : t.solver.constraints.toList = base.constraints.toList ++
    s.solver.constraints.toList.map (·.rename base.shift)
  scopes : t.scopes = s.scopes.rename base.shift
  references : ∀ id, own id → t.references.lookup id =
    (s.references.lookup id).map (·.rename base.shift)
  exprVars : ∀ id, own id → t.exprVars.lookup id = (s.exprVars.lookup id).map base.shift
  unbound : s.parameters = #[] ∧ t.parameters = #[]

/-- If a step succeeds by itself, then the other one succeeds behind a solver, with a related
result. -/
def Carries {α : Type} (base : Solver) (own : Nat → Prop) (step step' : Analysis α)
    (R : α → α → Prop) : Prop :=
  ∀ ⦃s t : AnalysisState⦄, Placed base own s t → ∀ ⦃a s'⦄, step s = .ok a s' →
    ∃ b t', step' t = .ok b t' ∧ R a b ∧ Placed base own s' t'

section

variable {base : Solver} {own : Nat → Prop} {s t : AnalysisState} {α β : Type}
  {step step' : Analysis α} {R : α → α → Prop} {R' : β → β → Prop}

theorem Carries.bind {next next' : α → Analysis β} (h : Carries base own step step' R)
    (hnext : ∀ a b, R a b → Carries base own (next a) (next' b) R') :
    Carries base own (step >>= next) (step' >>= next') R' := by
  intro s t hst b s'' hrun
  obtain ⟨a, s', hstep, hrun⟩ := bind_eq_ok.1 hrun
  obtain ⟨a', t', hstep', hR, hplaced⟩ := h hst hstep
  obtain ⟨b', t'', hrun', hR', hplaced'⟩ := hnext a a' hR hplaced hrun
  exact ⟨b', t'', bind_eq_ok.2 ⟨a', t', hstep', hrun'⟩, hR', hplaced'⟩

/-- A step whose result is moved as a whole. -/
theorem Carries.then {g : α → α} {next next' : α → Analysis β}
    (h : Carries base own step step' fun a b => b = g a)
    (hnext : ∀ a, Carries base own (next a) (next' (g a)) R') :
    Carries base own (step >>= next) (step' >>= next') R' :=
  h.bind fun a _ hb => hb ▸ hnext a

theorem carries_pure {a b : α} (h : R a b) : Carries base own (pure a) (pure b) R := by
  intro s t hst _ _ hrun
  cases hrun
  exact ⟨b, t, rfl, h, hst⟩

theorem carries_throw (e : AnalysisError) : Carries base own (throw e) step' R := by
  intro s t _ _ _ hrun
  cases hrun

/-- A step that reads the state. -/
theorem carries_get {next next' : AnalysisState → Analysis β}
    (h : ∀ s t, Placed base own s t → Carries base own (next s) (next' t) R') :
    Carries base own (get >>= next) (get >>= next') R' :=
  fun s t hst _ _ hrun => h s t hst hst hrun

/-- A result that may be an error. -/
theorem carries_ofExcept {g : α → α} {x y : Except AnalysisError α} (h : y = x.map g) :
    Carries base own (ofExcept x) (ofExcept y) fun a b => b = g a := by
  intro s t hst a s' hrun
  cases x with
  | error e => cases hrun
  | ok c =>
    cases hrun
    exact ⟨g a, t, by rw [h]; rfl, rfl, hst⟩

/-- A result does not matter. -/
abbrev Any {γ : Type} (_ _ : γ) : Prop := True

/-- The second result is the first one with moved variables. -/
abbrev Moved (base : Solver) (v w : TypeVar) : Prop := w = base.shift v

abbrev MovedAll (base : Solver) (vs ws : List TypeVar) : Prop := ws = vs.map base.shift

/-! ### Types -/

theorem carries_freshVar : Carries base own freshVar freshVar (Moved base) := by
  intro s t hst v s' hrun
  cases hrun
  refine ⟨_, _, rfl, congrArg TypeVar.mk hst.size, { hst with size := ?_ }⟩
  show (t.solver.vars.entries.push _).size = _ + (s.solver.vars.entries.push _).size
  rw [Array.size_push, Array.size_push]
  exact congrArg (· + 1) hst.size

theorem carries_constrain (c : Constraint) :
    Carries base own (constrain c) (constrain (c.rename base.shift)) Any := by
  intro s t hst _ s' hrun
  cases hrun
  refine ⟨(), _, rfl, trivial, { hst with constraints := ?_ }⟩
  show (t.solver.constraints.push _).toList = _ ++ (s.solver.constraints.push c).toList.map _
  rw [Array.toList_push, Array.toList_push, map_append, hst.constraints, append_assoc]
  rfl

/-- A constraint about a variable that is then given back. -/
theorem Carries.give {v : TypeVar} {step step' : Analysis Unit}
    (h : Carries base own step step' Any) :
    Carries base own (step >>= fun _ => pure v) (step' >>= fun _ => pure (base.shift v))
      (Moved base) :=
  h.bind fun _ _ _ => carries_pure rfl

variable {e : Expr}

theorem Placed.knownVar? (hst : Placed base own s t) (he : own e.id) :
    knownVar? t e = (knownVar? s e).map base.shift := by
  have hreference : (t.reference? e).map Reference.var =
      ((s.reference? e).map Reference.var).map base.shift := by
    rw [AnalysisState.reference?, hst.references e.id he]
    show _ = ((s.references.lookup e.id).map Reference.var).map base.shift
    cases s.references.lookup e.id with
    | none => rfl
    | some r => cases r <;> rfl
  have hparameter (u : AnalysisState) (hu : u.parameters = #[]) :
      (e.ordinal?.bind fun ordinal => u.parameters[ordinal]?.map ParameterFacts.var) = none := by
    rw [hu]
    cases e.ordinal? <;> rfl
  unfold Analysis.knownVar?
  rw [hparameter s hst.unbound.1, hparameter t hst.unbound.2, hreference, hst.exprVars e.id he]
  cases (s.reference? e).map Reference.var <;> rfl

theorem lookup_cons_map {γ δ : Type} {g : γ → δ} {xs : List (Nat × γ)} {ys : List (Nat × δ)}
    {id : Nat} (h : ys.lookup id = (xs.lookup id).map g) (key : Nat) (x : γ) :
    List.lookup id ((key, g x) :: ys) = (List.lookup id ((key, x) :: xs)).map g := by
  rw [lookup_cons, lookup_cons, h]
  split <;> rfl

theorem carries_varOf (he : own e.id) : Carries base own (varOf e) (varOf e) (Moved base) := by
  refine carries_get fun s t hst => ?_
  rw [hst.knownVar? he]
  cases knownVar? s e with
  | some v => exact carries_pure rfl
  | none =>
    refine carries_freshVar.then fun v => Carries.give fun s t hst _ s' hrun => ?_
    cases hrun
    exact ⟨(), _, rfl, trivial, { hst with
      exprVars := fun id hid => lookup_cons_map (hst.exprVars id hid) e.id v }⟩

/-! ### Bound values

None is known on either side, so that notes about them change nothing. -/

theorem carries_modifyParameter (ordinal : Nat) (f : ParameterFacts → ParameterFacts) :
    Carries base own
      (modify fun s => { s with parameters := s.parameters.modify ordinal f } : Analysis PUnit)
      (modify fun s => { s with parameters := s.parameters.modify ordinal f }) Any := by
  intro s t hst _ s' hrun
  cases hrun
  refine ⟨(), _, rfl, trivial, { hst with unbound := ?_ }⟩
  show s.parameters.modify ordinal f = #[] ∧ t.parameters.modify ordinal f = #[]
  rw [hst.unbound.1, hst.unbound.2]
  exact ⟨rfl, rfl⟩

variable {vars : List TypeVar}

theorem Speaks.carries {step step' : Analysis Unit} (h : Speaks base.shift vars step step') :
    Carries base own step step' Any := by
  induction h with
  | done => exact carries_pure trivial
  | expect type => exact carries_constrain (.expect _ type)
  | equate => exact carries_constrain (.equal _ _)
  | note => exact carries_modifyParameter _ _
  | bind _ _ ih ihNext => exact ih.bind fun _ _ _ => ihNext

/-! ### Rules -/

/-- Without a resolver, a call that no signature covers has no type. -/
theorem Settling.carries {input : AnalysisInput} {v : TypeVar} {step step' : Analysis TypeVar}
    (hresolver : input.resolver = none) (h : Settling base.shift vars input e v step step') :
    Carries base own step step' (Moved base) := by
  induction h with
  | fix type => exact (carries_constrain (.fix v type)).give
  | derive rule => exact (carries_constrain (.derive v rule _)).give
  | widen => exact (carries_constrain (.widen v _)).give
  | ask =>
    unfold askResolver
    rw [hresolver]
    exact (carries_constrain (.fix v .unknown)).give
  | after hspeaks _ ih => exact hspeaks.carries.bind fun _ _ _ => ih

theorem IsRule.carries {input : AnalysisInput} {step step' : Analysis TypeVar}
    (h : IsRule base.shift vars input e step step') (hresolver : input.resolver = none)
    (he : own e.id) : Carries base own step step' (Moved base) := by
  cases h with
  | intro h => exact (carries_varOf he).then fun v => (h v).carries hresolver

theorem carries_fixed (he : own e.id) (type : SqlType) :
    Carries base own (fixed e type) (fixed e type) (Moved base) :=
  (carries_varOf he).then fun v => (carries_constrain (.fix v type)).give

theorem carries_widened (he : own e.id) (args : List TypeVar) :
    Carries base own (widened e args) (widened e (args.map base.shift)) (Moved base) :=
  (carries_varOf he).then fun v => (carries_constrain (.widen v args)).give

theorem carries_bindColumn (column : ColumnRef) :
    Carries base own (bindColumn e column) (bindColumn e column) (Moved base) := by
  refine carries_get fun s t hst => ?_
  rw [hst.scopes]
  refine (carries_ofExcept (Scopes.resolve_rename s.scopes column)).then fun r => ?_
  intro s t hst _ s' hrun
  cases hrun
  refine ⟨_, _, rfl, ?_, { hst with
    references := fun id hid => lookup_cons_map (hst.references id hid) e.id r }⟩
  cases r <;> rfl

/-! ### Scopes -/

theorem modify_map {γ δ : Type} {g : γ → γ} {g' : δ → δ} {r : γ → δ}
    (h : ∀ x, g' (r x) = r (g x)) (xs : Array γ) (i : Nat) :
    (xs.map r).modify i g' = (xs.modify i g).map r := by
  refine Array.ext_getElem? fun j => ?_
  rw [Array.getElem?_modify, Array.getElem?_map, Array.getElem?_map, Array.getElem?_modify]
  split
  · cases xs[j]? with
    | none => rfl
    | some x => exact congrArg some (h x)
  · rfl

theorem carries_modifyScope {f f' : Scope → Scope}
    (h : ∀ scope, f' (scope.rename base.shift) = (f scope).rename base.shift) :
    Carries base own (modifyScope f) (modifyScope f') Any := by
  intro s t hst _ s' hrun
  cases hrun
  refine ⟨(), _, rfl, trivial, { hst with scopes := ?_ }⟩
  show t.scopes.modify t.scopes.innermost f' = Array.map _ (s.scopes.modify s.scopes.innermost f)
  rw [hst.scopes, Scopes.innermost_rename, modify_map h]

theorem Placed.innermost (hst : Placed base own s t) :
    t.scopes.back?.getD {} = (s.scopes.back?.getD {}).rename base.shift := by
  rw [hst.scopes, Scopes.rename, Array.back?_map]
  cases s.scopes.back? <;> rfl

theorem carries_innermostScope :
    Carries base own innermostScope innermostScope fun a b => b = a.rename base.shift :=
  carries_get fun _ _ hst => carries_pure hst.innermost

theorem carries_pushSource (source : Source) :
    Carries base own (pushSource source) (pushSource (source.rename base.shift))
      fun a b => b = a := by
  refine carries_innermostScope.then fun scope => (carries_modifyScope fun scope => ?_).bind
    fun _ _ _ => carries_pure (length_map _)
  simp [Scope.rename]

theorem carries_pad (kind : JoinKind) (first joined : Nat) :
    Carries base own (modifyScope (·.pad kind first joined)) (modifyScope (·.pad kind first joined))
      Any := by
  refine carries_modifyScope fun scope => ?_
  refine congrArg (fun sources => ({ scope.rename base.shift with sources } : Scope)) ?_
  refine ext_getElem? fun i => ?_
  show (List.mapIdx _ (scope.sources.map _))[i]? = (List.map _ (scope.sources.mapIdx _))[i]?
  rw [getElem?_mapIdx, getElem?_map, getElem?_map, getElem?_mapIdx]
  cases scope.sources[i]? <;> rfl

theorem carries_noteClause (input : AnalysisInput) (tables : List TableRef) :
    Carries base own (noteClause input tables) (noteClause input tables) Any := by
  unfold noteClause
  split
  · exact carries_modifyScope fun _ => rfl
  · exact carries_pure trivial

theorem Placed.localColumn? (hst : Placed base own s t) (he : own e.id) :
    t.localColumn? e = (s.localColumn? e).map (·.rename base.shift) := by
  unfold AnalysisState.localColumn? AnalysisState.reference?
  rw [hst.references e.id he, hst.scopes, Scopes.innermost_rename]
  cases s.references.lookup e.id with
  | none => rfl
  | some r =>
    cases r with
    | label v notNull => rfl
    | column bound =>
      show (if bound.scope = s.scopes.innermost then _ else _) = Option.map _ (if _ then _ else _)
      split <;> rfl

theorem carries_noteProven {predicates : List Expr}
    (hown : ∀ e ∈ predicates, ∀ n ∈ e.nodes, own n.id) :
    Carries base own (noteProven predicates) (noteProven predicates) Any := by
  intro s t hst _ s' hrun
  have hproven : t.provenColumns predicates = s.provenColumns predicates := by
    unfold AnalysisState.provenColumns
    refine filterMap_congr fun c hc => ?_
    obtain ⟨e, he, hc⟩ := mem_flatMap.1 hc
    rw [hst.localColumn? (hown e he c (e.nullRejected_subset_nodes hc)), Option.map_map]
    rfl
  have hstep : Carries base own
      (modifyScope fun scope =>
        { scope with proven := scope.proven ++ s.provenColumns predicates })
      (modifyScope fun scope =>
        { scope with proven := scope.proven ++ t.provenColumns predicates }) Any := by
    rw [hproven]
    exact carries_modifyScope fun _ => rfl
  exact hstep hst hrun

theorem isOnBothSides_rename (scope : Scope) (joined : Nat) (column : String) :
    (scope.rename base.shift).isOnBothSides joined column = scope.isOnBothSides joined column := by
  have hhas (source : Source) : ((source.rename base.shift).column? column).isSome =
      (source.column? column).isSome := by
    rw [Source.column?_rename, Option.isSome_map]
  unfold Scope.isOnBothSides Scope.rename
  simp only [getElem?_map, ← map_take, any_map, Option.any_map, Function.comp_def,
    hhas]

theorem carries_shareColumns (joined : Nat) (columns : List String) :
    Carries base own (shareColumns joined columns) (shareColumns joined columns) Any := by
  induction columns with
  | nil => exact carries_pure trivial
  | cons column rest ih =>
    refine carries_innermostScope.then fun scope => ?_
    rw [isOnBothSides_rename]
    split
    · refine Carries.bind (carries_modifyScope ?_) fun _ _ _ => ih
      exact fun _ => rfl
    · exact carries_throw _

/-! ### Tables -/

theorem carries_addColumns (columns : List Column) :
    Carries base own (addColumns columns) (addColumns columns)
      fun a b => b = a.map (·.rename base.shift) := by
  induction columns with
  | nil => exact carries_pure rfl
  | cons column rest ih =>
    exact carries_freshVar.then fun v => (carries_constrain (.fix v column.type)).bind
      fun _ _ _ => ih.then fun others => carries_pure rfl

theorem carries_tableSource (input : AnalysisInput) (schema : Option String) (name : String)
    (label : Option String) :
    Carries base own (tableSource input schema name label) (tableSource input schema name label)
      fun a b => b = a.rename base.shift := by
  unfold tableSource
  split
  · exact carries_throw _
  · exact (carries_addColumns _).then fun columns => carries_pure rfl

/-- A scope that is entered and left. -/
theorem Carries.inScope {scope : Scope} (h : Carries base own step step' R) :
    Carries base own (inScope scope step) (inScope (scope.rename base.shift) step')
      fun r r' => R r.1 r'.1 ∧ r'.2 = r.2.rename base.shift := by
  intro s t hst r s' hrun
  have hscopes : t.scopes.push (scope.rename base.shift) =
      (s.scopes.push scope).map (Scope.rename base.shift) := by
    rw [hst.scopes, Scopes.rename, Array.map_push]
  have hentered : Placed base own { s with scopes := s.scopes.push scope }
      { t with scopes := t.scopes.push (scope.rename base.shift) } :=
    { hst with scopes := hscopes }
  obtain ⟨u, hstep, hr, rfl⟩ := inScope_eq_ok hrun
  obtain ⟨b, u', hstep', hR, hplaced⟩ := h hentered hstep
  refine ⟨(b, u'.inner), { u' with scopes := u'.scopes.pop }, ?_, ⟨hR, ?_⟩,
    { hplaced with scopes := ?_ }⟩
  · rw [Analysis.inScope, hstep']
    rfl
  · rw [hr]
    exact hplaced.innermost
  · show u'.scopes.pop = u.scopes.pop.map _
    rw [hplaced.scopes, Scopes.rename, Array.map_pop]

/-- A step that sees no scopes. -/
theorem Carries.isolated (h : Carries base own step step' R) :
    Carries base own (isolated step) (isolated step') R := by
  intro s t hst a s' hrun
  have haside : Placed base own { s with scopes := #[] } { t with scopes := #[] } :=
    { hst with scopes := (Array.map_empty).symm }
  obtain ⟨u, hstep, rfl⟩ := isolated_eq_ok hrun
  obtain ⟨b, u', hstep', hR, hplaced⟩ := h haside hstep
  refine ⟨b, { u' with scopes := t.scopes }, ?_, hR, { hplaced with scopes := hst.scopes }⟩
  rw [Analysis.isolated, hstep']

/-! ### Select lists and unions -/

/-- The columns of the second are those of the first with moved variables. -/
abbrev MovedColumns (base : Solver) (columns columns' : List ShapeColumn) : Prop :=
  columns' = columns.map (·.rename base.shift)

theorem Placed.notNull (hst : Placed base own s t) (he : ∀ n ∈ e.nodes, own n.id) :
    e.notNull t.nullFacts = e.notNull s.nullFacts := by
  refine e.notNull_congr ⟨fun n hn => ?_, ?_⟩
  · show (t.references.lookup n.id).any t.referenceNotNull =
      (s.references.lookup n.id).any s.referenceNotNull
    rw [hst.references n.id (he n hn), Option.any_map]
    refine congrArg (Option.any · _) (funext fun r => ?_)
    cases r with
    | label v notNull => rfl
    | column bound =>
      show (t.scopes[bound.scope]?).any _ = (s.scopes[bound.scope]?).any _
      rw [hst.scopes, Scopes.rename, Array.getElem?_map, Option.any_map]
      exact congrArg (Option.any · _) (funext fun scope => scope.columnNotNull_rename _ _)
  · show t.parameterNotNull = s.parameterNotNull
    unfold AnalysisState.parameterNotNull
    rw [hst.unbound.1, hst.unbound.2]

/-- The column that an expression of a select list becomes. -/
def selectedColumn (input : AnalysisInput) (s : AnalysisState) (value : Expr) (var : TypeVar)
    (label : Option String) : ShapeColumn :=
  { name := label.getD (value.resultName input.text), var
    notNull := value.notNull s.nullFacts, expr := some value
    origin := (s.localColumn? value).map BoundColumn.origin
    key := ((s.localColumn? value).map BoundColumn.key).getD .none }

theorem Placed.selectedColumn (hst : Placed base own s t) (he : ∀ n ∈ e.nodes, own n.id)
    (input : AnalysisInput) (v : TypeVar) (label : Option String) :
    selectedColumn input t e (base.shift v) label =
      (selectedColumn input s e v label).rename base.shift := by
  unfold Analysis.selectedColumn
  rw [hst.notNull he, hst.localColumn? (he e e.self_mem_nodes), Option.map_map, Option.map_map]
  rfl

theorem carries_selectExpr (input : AnalysisInput) {shape shape' : SelectionShape}
    (hshape : MovedColumns base shape.columns shape'.columns) {value : Expr}
    (hvalue : ∀ n ∈ value.nodes, own n.id) (v : TypeVar) (label : Option String) (span : Span) :
    Carries base own (selectExpr input shape value v label span)
      (selectExpr input shape' value (base.shift v) label span)
      fun a b => MovedColumns base a.columns b.columns := by
  refine carries_get fun s t hst => ?_
  have hcolumn := hst.selectedColumn hvalue input v label
  refine Carries.bind (carries_modifyScope fun scope => ?_) fun _ _ _ => carries_pure ?_
  · show ({ scope.rename base.shift with aliases :=
      (scope.rename base.shift).aliases ++ [(selectedColumn input t value _ label).toAlias] } :
        Scope) = _
    rw [hcolumn]
    simp [Scope.rename]
    rfl
  · show shape'.columns ++ [selectedColumn input t value _ label] =
      (shape.columns ++ [selectedColumn input s value v label]).map _
    rw [hshape, hcolumn, map_append]
    rfl

theorem wildcardColumn_rename (scope : Scope) (b : BoundColumn) :
    wildcardColumn (scope.rename base.shift) (b.rename base.shift) =
      (wildcardColumn scope b).rename base.shift := by
  unfold wildcardColumn
  rw [scope.columnNotNull_rename]
  rfl

theorem carries_selectBound (input : AnalysisInput) {shape shape' : SelectionShape}
    (hshape : MovedColumns base shape.columns shape'.columns)
    {expand : Scopes → Except AnalysisError (List BoundColumn)}
    (hexpand : ∀ scopes : Scopes, expand (scopes.rename base.shift) =
      (expand scopes).map (List.map (·.rename base.shift))) (span : Span) :
    Carries base own (selectBound input shape expand span) (selectBound input shape' expand span)
      fun a b => MovedColumns base a.columns b.columns := by
  refine carries_get fun s t hst => ?_
  rw [hst.scopes]
  refine (carries_ofExcept (hexpand s.scopes)).then fun bound => ?_
  refine carries_innermostScope.then fun scope => carries_pure ?_
  show shape'.columns ++ List.map _ (bound.map _) = (shape.columns ++ List.map _ bound).map _
  rw [hshape, map_append, map_map, map_map]
  exact congrArg (_ ++ ·) (map_congr_left fun b _ => wildcardColumn_rename scope b)

theorem carries_mergeColumn (column : ShapeColumn) (others : List ShapeColumn) :
    Carries base own (mergeColumn column others)
      (mergeColumn (column.rename base.shift) (others.map (·.rename base.shift)))
      fun a b => b = a.rename base.shift := by
  have hvars : (others.map (·.rename base.shift)).map ShapeColumn.var =
      (others.map ShapeColumn.var).map base.shift := by
    rw [map_map, map_map]
    rfl
  have hall : (others.map (·.rename base.shift)).all ShapeColumn.notNull =
      others.all ShapeColumn.notNull := all_map
  refine carries_freshVar.then fun v => ?_
  rw [hvars, hall]
  exact (carries_constrain (.widen v (column.var :: others.map ShapeColumn.var))).bind
    fun _ _ _ => carries_pure rfl

theorem carries_mergeColumns (branches : List (List ShapeColumn)) (position : Nat)
    (columns : List ShapeColumn) :
    Carries base own (mergeColumns branches position columns)
      (mergeColumns (branches.map (List.map (·.rename base.shift))) position
        (columns.map (·.rename base.shift))) (MovedColumns base) := by
  induction columns generalizing position with
  | nil => exact carries_pure rfl
  | cons column rest ih =>
    have hothers : (branches.map (List.map (·.rename base.shift))).filterMap (·[position]?) =
        (branches.filterMap (·[position]?)).map (·.rename base.shift) := by
      rw [filterMap_map, map_filterMap]
      exact filterMap_congr fun columns _ => getElem?_map
    show Carries base own _ (do
      let merged ← mergeColumn _ (List.filterMap _ (branches.map _))
      pure (merged :: (← mergeColumns _ (position + 1) _))) _
    rw [hothers]
    exact (carries_mergeColumn column _).then fun merged => (ih _).then fun _ => carries_pure rfl

/-- What a specification gives, with moved variables. -/
structure MovedSpec (base : Solver) (shape shape' : SpecShape) : Prop where
  columns : MovedColumns base shape.columns shape'.columns
  scope : shape'.scope = shape.scope.rename base.shift

theorem carries_unionColumns {first first' : List ShapeColumn} {branches branches' : List SpecShape}
    (hfirst : MovedColumns base first first')
    (hbranches : List.Forall₂ (MovedSpec base) branches branches') :
    Carries base own (unionColumns first branches) (unionColumns first' branches')
      (MovedColumns base) := by
  have hcolumns : branches'.map SpecShape.columns =
      (branches.map SpecShape.columns).map (List.map (·.rename base.shift)) := by
    rw [map_map]
    induction hbranches with
    | nil => rfl
    | cons h _ ih => rw [map_cons, map_cons, h.columns, ih]; rfl
  have hempty : branches'.isEmpty = branches.isEmpty := by
    cases hbranches <;> rfl
  unfold unionColumns
  rw [hempty, hcolumns, hfirst]
  split
  · exact carries_pure rfl
  · exact carries_mergeColumns _ 0 first

end

end Analysis

end SqlSignature
