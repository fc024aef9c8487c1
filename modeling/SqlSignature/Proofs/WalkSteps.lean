import SqlSignature.Proofs.NameLookup
import SqlSignature.Proofs.WalkInvariant
/-!
# SqlSignature.Proofs.WalkSteps

What single steps of an analysis do to a state that has met a trace. A node that is neither a column
name nor a bound value has a variable of its own (`Analysis.meets_varOf`); a column name meets what
it is looked up as (`Analysis.meets_bindColumn`); a table of the catalog brings columns with their
declared types (`Analysis.meets_tableSource`). A scope that a step enters and leaves keeps what was
met of its tables (`Analysis.meets_inScope`).
-/

open List

namespace SqlSignature

/-- Whether a node is a column name. -/
def Expr.isColumnName (e : Expr) : Bool :=
  match e.form with
  | .column _ => true
  | _ => false

namespace Analysis

/-- The nodes of a tree whose numbers tell which of them are column names, and whose bound values
have a variable. -/
def Suits (Γ : Setting) (nodes : List Expr) : Prop :=
  ∀ n ∈ nodes, Γ.isColumn n.id = n.isColumnName ∧ ∀ i, n.ordinal? = some i → i < Γ.params.length

section

variable {Γ : Setting} {nodes more : List Expr}

theorem Suits.left (h : Suits Γ (nodes ++ more)) : Suits Γ nodes :=
  fun n hn => h n (mem_append_left _ hn)

theorem Suits.right (h : Suits Γ (nodes ++ more)) : Suits Γ more :=
  fun n hn => h n (mem_append_right _ hn)

theorem Suits.tail {e : Expr} (h : Suits Γ (e :: nodes)) : Suits Γ nodes :=
  fun n hn => h n (mem_cons_of_mem _ hn)

theorem Suits.head {e : Expr} (h : Suits Γ (e :: nodes)) :
    Γ.isColumn e.id = e.isColumnName ∧ ∀ i, e.ordinal? = some i → i < Γ.params.length :=
  h e mem_cons_self

end

variable {Γ : Setting} {frames : Frames}
  {t u : Trace} {s s' : AnalysisState} {v : TypeVar} {e : Expr}

theorem forall₂_getElem? {α β : Type} {R : α → β → Prop} {as : List α} {bs : List β}
    (h : List.Forall₂ R as bs) {i : Nat} {a : α} (ha : as[i]? = some a) :
    ∃ b, bs[i]? = some b ∧ R a b := by
  induction h generalizing i with
  | nil => cases ha
  | @cons a' b' as bs hab _ ih =>
    cases i with
    | zero =>
      cases ha
      exact ⟨b', rfl, hab⟩
    | succ i => exact ih ha

/-! ### Notes beside the tree -/

namespace Traced

variable (h : Traced Γ s frames t)

include h

/-- What is noted of bound values, of calls and of sets of types. -/
theorem note (hsolver : s'.solver = s.solver) (hexprs : s'.exprVars = s.exprVars)
    (hreferences : s'.references = s.references) (hscopes : s'.scopes = s.scopes)
    (hparams : s'.parameters.toList.map ParameterFacts.var =
      s.parameters.toList.map ParameterFacts.var)
    (htypeSets : ∀ entry ∈ s'.typeSets, Γ.isColumn entry.1 = false) : Meets Γ frames t s s' := by
  have he : Extends s s' := .of_eq hsolver hexprs hreferences
  refine ⟨h.grow he hparams ?_ htypeSets hreferences hscopes ?_ (fun _ hi => hi) rfl ?_, he⟩
  · intro v hv
    rw [Owned, hexprs] at hv
    rw [hsolver]
    exact h.owned v hv
  · rw [hsolver]
    exact h.given
  · refine h.uses.after he fun d hd => .inl ?_
    rwa [hsolver] at hd

/-- A bound value is met that is not used for a column as it is. -/
theorem loosen (i : Nat) : Traced Γ s frames (t ++ { loose := [i] }) := by
  have hloose : ∀ j ∈ t.loose, j ∈ (t ++ ({ loose := [i] } : Trace)).loose :=
    fun _ hj => mem_append_left _ hj
  exact h.grow (.refl s) rfl h.owned h.typeSets rfl rfl h.given hloose (append_nil _)
    (h.uses.grow (.refl s) hloose (append_nil _) fun d hd => .inl hd)

theorem known_loosen {i : Nat} (hv : Γ.params[i]? = some v) :
    Known Γ s (t ++ { loose := [i] }) v := by
  refine ⟨(h.params_free v (mem_of_getElem? hv)).1, ?_⟩
  intro j hname hj
  rw [h.distinct i j v hname hv hj]
  exact mem_append_right _ mem_cons_self

/-! ### Names -/

/-- What a name is looked up as has a known variable, and the declared type if it is a column of a
table of the catalog. -/
theorem resolve {c : ColumnRef} {r : Reference} (hr : s.scopes.resolve c = .ok r) :
    Known Γ s t r.var ∧
      ∀ bound T, r = .column bound → bound.declaredType Γ.input.catalog frames = some T →
        DeclaredIn s r.var T := by
  cases Scopes.offers_resolve hr with
  | @label k scope found hscope hfound =>
    have hk : k < frames.length := by
      rw [← h.depth]
      exact (Array.getElem?_eq_some_iff.1 hscope).1
    have hmet := h.scopes k scope _ hscope (getElem?_eq_getElem hk)
    exact ⟨hmet.aliases found hfound, fun bound T hbound => by cases hbound⟩
  | @column k j i scope source column hscope hsource hcolumn =>
    have hk : k < frames.length := by
      rw [← h.depth]
      exact (Array.getElem?_eq_some_iff.1 hscope).1
    have hframe := getElem?_eq_getElem hk
    have hmet := h.scopes k scope _ hscope hframe
    obtain ⟨factor, hfactor, hsourceMet⟩ := hmet.sources j source hsource
    refine ⟨hsourceMet.known column (mem_of_getElem? hcolumn), ?_⟩
    intro bound T hbound hT
    cases hbound
    have hplace : (frames[k]?).bind (·[j]?) = some factor := by
      rw [hframe]
      exact hfactor
    unfold BoundColumn.declaredType at hT
    rw [show (frames[(BoundColumn.of k (j, source) (i, column)).scope]?).bind
      (·[(BoundColumn.of k (j, source) (i, column)).source]?) = some factor from hplace] at hT
    cases factor with
    | derived query label span => cases hT
    | table schema name label span =>
      obtain ⟨table, htable, hcolumns⟩ := hsourceMet.declared schema name label span rfl
      obtain ⟨d, hd, -, hdeclared⟩ := forall₂_getElem? hcolumns hcolumn
      simp only [htable, Option.bind_some] at hT
      rw [show table.columns[(BoundColumn.of k (j, source) (i, column)).column]? = some d from hd]
        at hT
      cases hT
      exact hdeclared

/-- A column name is met. -/
theorem bind {id : Nat} {r : Reference} (hid : Γ.isColumn id = true) (hr : Known Γ s t r.var) :
    Meets Γ frames (t ++ { columns := [id] }) s
      { s with references := (id, r) :: s.references } := by
  have he : Extends s { s with references := (id, r) :: s.references } :=
    { Extends.refl s with references := fun _ hentry => mem_cons_of_mem _ hentry }
  have hloose : ∀ j ∈ t.loose, j ∈ (t ++ ({ columns := [id] } : Trace)).loose :=
    fun _ hj => mem_append_left _ hj
  refine ⟨?_, he⟩
  refine ⟨h.params_eq, h.params_free, h.distinct, h.owned, h.typeSets, ?_, ?_, h.given, ?_, h.depth,
    ?_⟩
  · exact (h.columns.cons id).trans (perm_append_singleton id t.columns).symm
  · exact forall_mem_cons.2 ⟨⟨hid, hr.grow he hloose⟩, fun entry hold =>
      (h.references entry hold).imp_right fun hmet => hmet.grow he hloose⟩
  · exact h.uses.grow he hloose (append_nil _) fun d hd => .inl hd
  · intro k scope frame hscope hframe
    exact (h.scopes k scope frame hscope hframe).after he

end Traced

/-- The variable of a node that is neither a column name nor a bound value is its own. -/
theorem meets_varOf (h : Traced Γ s frames t) (hordinal : e.ordinal? = none)
    (hcolumn : Γ.isColumn e.id = false) (hrun : varOf e s = .ok v s') :
    Meets Γ frames t s s' ∧ Owned s' v := by
  replace hrun := of_get hrun
  have hreference : s.reference? e = none := by
    refine lookup_eq_none_iff.2 fun entry hentry => ?_
    have hentryColumn := (h.references entry hentry).1
    rw [bne_iff_ne]
    intro heq
    rw [heq] at hcolumn
    rw [hcolumn] at hentryColumn
    cases hentryColumn
  have hknown : knownVar? s e = s.exprVars.lookup e.id := by
    rw [knownVar?, hordinal, hreference]
    rfl
  rw [hknown] at hrun
  cases hlookup : s.exprVars.lookup e.id with
  | some w =>
    rw [hlookup] at hrun
    cases hrun
    obtain ⟨before, behind, heq, -⟩ := lookup_eq_some_iff.1 hlookup
    refine ⟨h.meets_refl, (e.id, v), ?_, rfl⟩
    rw [heq]
    simp
  | none =>
    rw [hlookup] at hrun
    cases hrun
    exact ⟨h.own e.id, _, mem_cons_self, rfl⟩

/-- The variable of a bound value is there from the start. -/
theorem varOf_placeholder (h : Traced Γ s frames t) {i : Nat}
    (hordinal : e.ordinal? = some i) (hi : i < Γ.params.length) (hrun : varOf e s = .ok v s') :
    s' = s ∧ Γ.params[i]? = some v := by
  replace hrun := of_get hrun
  have hparam : (s.parameters[i]?).map ParameterFacts.var = some (Γ.params.get ⟨i, hi⟩) := by
    rw [← Array.getElem?_toList, ← getElem?_map, h.params_eq]
    exact getElem?_eq_getElem hi
  have hknown : knownVar? s e = some (Γ.params.get ⟨i, hi⟩) := by
    rw [knownVar?, hordinal, Option.bind_some, hparam]
    rfl
  rw [hknown] at hrun
  cases hrun
  exact ⟨rfl, getElem?_eq_getElem hi⟩

/-- A column name meets what it is looked up as. -/
theorem meets_bindColumn (h : Traced Γ s frames t) {column : ColumnRef}
    (hid : Γ.isColumn e.id = true) (hrun : bindColumn e column s = .ok v s') :
    Meets Γ frames (t ++ { columns := [e.id] }) s s' ∧
      Known Γ s' (t ++ { columns := [e.id] }) v ∧ ∃ r, (e.id, r) ∈ s'.references ∧
        r.var = v ∧ ∀ bound T, r = .column bound →
          bound.declaredType Γ.input.catalog frames = some T → DeclaredIn s' v T := by
  obtain ⟨r, hresolve, rfl, rfl⟩ := bindColumn_eq_ok hrun
  obtain ⟨hknown, hdeclared⟩ := h.resolve hresolve
  have hmeets := h.bind hid hknown
  exact ⟨hmeets, hknown.after hmeets.grown, r, mem_cons_self, rfl,
    fun bound T hbound hT => (hdeclared bound T hbound hT).after hmeets.grown⟩

/-! ### Scopes -/

variable {frame : List TableFactor} {scope scope' : Scope} {source : Source}

section

variable (h : ScopeMet Γ s t frame scope)

include h

theorem ScopeMet.of_eq
    (hsources : scope'.sources = scope.sources) (haliases : scope'.aliases = scope.aliases) :
    ScopeMet Γ s t frame scope' := by
  refine ⟨?_, ?_⟩
  · rw [hsources]
    exact h.sources
  · rw [haliases]
    exact h.aliases

/-- Padding tables leaves their columns alone. -/
theorem ScopeMet.pad (kind : JoinKind)
    (first joined : Nat) : ScopeMet Γ s t frame (scope.pad kind first joined) := by
  refine ⟨?_, h.aliases⟩
  intro j source hsource
  rw [Scope.pad, getElem?_mapIdx] at hsource
  obtain ⟨found, hfound, rfl⟩ := Option.map_eq_some_iff.1 hsource
  obtain ⟨factor, hfactor, hmet⟩ := h.sources j found hfound
  exact ⟨factor, hfactor, hmet.visible, hmet.known, hmet.declared⟩

/-- Another table that the frame has at the next place. -/
theorem ScopeMet.push {factor : TableFactor}
    (hfactor : frame[scope.sources.length]? = some factor)
    (hsource : SourceMet Γ s t factor source) :
    ScopeMet Γ s t frame { scope with sources := scope.sources ++ [source] } := by
  refine ⟨?_, h.aliases⟩
  intro j found hfound
  by_cases hj : j < scope.sources.length
  · rw [getElem?_append_left hj] at hfound
    exact h.sources j found hfound
  · rw [getElem?_append_right (by omega)] at hfound
    have hzero := (List.getElem?_eq_some_iff.1 hfound).1
    rw [length_singleton] at hzero
    have hj : j = scope.sources.length := by omega
    subst hj
    rw [Nat.sub_self] at hfound
    cases hfound
    exact ⟨factor, hfactor, hsource⟩

end

theorem ScopeMet.empty : ScopeMet Γ s t frame {} :=
  ⟨fun _ _ h => by simp at h, fun _ h => by simp at h⟩

namespace Traced

/-- The scopes of another place of the statement. -/
theorem rescope (h : Traced Γ s frames t) {scopes : Scopes} {around : Frames}
    (hdepth : scopes.size = around.length)
    (hscopes : ∀ (k : Nat) (scope : Scope) (frame : List TableFactor), scopes[k]? = some scope →
      around[k]? = some frame → ScopeMet Γ s t frame scope) :
    Meets Γ around t s { s with scopes } := by
  have he : Extends s { s with scopes } := .of_eq rfl rfl rfl
  refine ⟨⟨h.params_eq, h.params_free, h.distinct, h.owned, h.typeSets, h.columns, ?_, h.given, ?_,
    hdepth, ?_⟩, he⟩
  · intro entry hentry
    exact ⟨(h.references entry hentry).1, (h.references entry hentry).2.in_state he⟩
  · exact h.uses.after he fun d hd => .inl hd
  · intro k scope frame hscope hframe
    exact (hscopes k scope frame hscope hframe).grow he fun _ hi => hi

theorem inner_met (h : Traced Γ s (frames ++ [frame]) t) :
    0 < s.scopes.size ∧ s.scopes[frames.length]? = some s.inner ∧
      ScopeMet Γ s t frame s.inner := by
  have hdepth : s.scopes.size = frames.length + 1 := by
    rw [h.depth, length_append, length_singleton]
  have hlt : frames.length < s.scopes.size := by omega
  have hinner : s.scopes[frames.length]? = some s.inner := by
    rw [AnalysisState.inner, Array.back?_eq_getElem?, hdepth, Nat.add_sub_cancel,
      Array.getElem?_eq_getElem hlt, Option.getD_some]
  exact ⟨by omega, hinner, h.scopes _ _ _ hinner getElem?_concat_length⟩

end Traced

theorem meets_modifyScope {f : Scope → Scope} {done : Unit} (h : Traced Γ s (frames ++ [frame]) t)
    (hf : ScopeMet Γ s t frame (f s.inner)) (hrun : modifyScope f s = .ok done s') :
    Meets Γ (frames ++ [frame]) t s s' := by
  cases hrun
  refine h.rescope (by rw [Array.size_modify, h.depth]) ?_
  intro k scope frame' hscope hframe
  have hinnermost : s.scopes.innermost = frames.length := by
    rw [Scopes.innermost, h.depth, length_append, length_singleton, Nat.add_sub_cancel]
  rw [Array.getElem?_modify, hinnermost] at hscope
  split at hscope
  next hk =>
    subst hk
    rw [h.inner_met.2.1] at hscope
    rw [getElem?_concat_length] at hframe
    cases hscope
    cases hframe
    exact hf
  next => exact h.scopes k scope frame' hscope hframe

theorem meets_pushSource {factor : TableFactor} {index : Nat} (h : Traced Γ s (frames ++ [frame]) t)
    (hfactor : frame[s.inner.sources.length]? = some factor)
    (hsource : SourceMet Γ s t factor source) (hrun : pushSource source s = .ok index s') :
    Meets Γ (frames ++ [frame]) t s s' := by
  obtain ⟨scope, _, hscope, hrun⟩ := bind_eq_ok.1 hrun
  cases hscope
  obtain ⟨_, _, hpush, hrun⟩ := bind_eq_ok.1 hrun
  cases hrun
  exact meets_modifyScope h (h.inner_met.2.2.push hfactor hsource) hpush

/-- A step in a scope of its own. -/
theorem meets_inScope {α : Type} {step : Analysis α} {a : α}
    (h : Traced Γ s frames t) (hscope : ScopeMet Γ s t frame scope)
    (hrun : inScope scope step s = .ok (a, scope') s') :
    ∃ s₁, step { s with scopes := s.scopes.push scope } = .ok a s₁ ∧
      Traced Γ { s with scopes := s.scopes.push scope } (frames ++ [frame]) t ∧
      ∀ u, Meets Γ (frames ++ [frame]) u
          { s with scopes := s.scopes.push scope } s₁ →
        Meets Γ frames u s s' ∧ Extends s₁ s' ∧ scope' = s₁.inner ∧
          ScopeMet Γ s' u frame scope' := by
  obtain ⟨s₁, hstep, ⟨⟩, rfl⟩ := inScope_eq_ok hrun
  have hstart : Meets Γ (frames ++ [frame]) t s
      { s with scopes := s.scopes.push scope } := by
    refine h.rescope ?_ ?_
    · rw [Array.size_push, h.depth, length_append, length_singleton]
    · intro k found frame' hfound hframe
      rw [Array.getElem?_push, h.depth] at hfound
      split at hfound
      next hk =>
        subst hk
        rw [getElem?_concat_length] at hframe
        cases hfound
        cases hframe
        exact hscope
      next hk =>
        have hlt : k < frames.length := by
          rw [← h.depth]
          exact (Array.getElem?_eq_some_iff.1 hfound).1
        rw [getElem?_append_left hlt] at hframe
        exact h.scopes k found frame' hfound hframe
  refine ⟨s₁, hstep, hstart.traced, ?_⟩
  intro u hmeets
  have hdepth : s₁.scopes.size = frames.length + 1 := by
    rw [hmeets.traced.depth, length_append, length_singleton]
  have hend : Meets Γ frames u s₁ { s₁ with scopes := s₁.scopes.pop } := by
    refine hmeets.traced.rescope ?_ ?_
    · rw [Array.size_pop, hdepth, Nat.add_sub_cancel]
    · intro k found frame' hfound hframe
      have hlt : k < frames.length := (List.getElem?_eq_some_iff.1 hframe).1
      rw [Array.getElem?_pop] at hfound
      split at hfound
      next =>
        refine hmeets.traced.scopes k found frame' hfound ?_
        rwa [getElem?_append_left hlt]
      next hk =>
        rw [hdepth] at hk
        omega
  exact ⟨⟨hend.traced, (hstart.grown.trans hmeets.grown).trans hend.grown⟩, hend.grown, rfl,
    hmeets.traced.inner_met.2.2.grow hend.grown fun _ hi => hi⟩

/-- A step that sees none of the scopes around it. -/
theorem meets_isolated {α : Type} {step : Analysis α} {a : α}
    (h : Traced Γ s frames t) (hrun : isolated step s = .ok a s') :
    ∃ s₁, step { s with scopes := #[] } = .ok a s₁ ∧
      Traced Γ { s with scopes := #[] } [] t ∧
      ∀ u, Meets Γ [] (t ++ u) { s with scopes := #[] } s₁ →
        Meets Γ frames (t ++ u) s s' ∧ Extends s₁ s' := by
  obtain ⟨s₁, hstep, rfl⟩ := isolated_eq_ok hrun
  have hstart : Meets Γ [] t s { s with scopes := #[] } :=
    h.rescope rfl fun k scope frame hscope => by simp at hscope
  refine ⟨s₁, hstep, hstart.traced, ?_⟩
  intro u hmeets
  have hgrown := hstart.grown.trans hmeets.grown
  have hend : Meets Γ frames (t ++ u) s₁ { s₁ with scopes := s.scopes } :=
    hmeets.traced.rescope h.depth fun k scope frame hscope hframe =>
      (h.scopes k scope frame hscope hframe).after hgrown
  exact ⟨⟨hend.traced, hgrown.trans hend.grown⟩, hend.grown⟩

/-! ### Tables -/

/-- The columns of a table of the catalog have new variables of the declared types. -/
theorem meets_addColumns : ∀ {columns : List Column} {added : List SourceColumn}
    {s s' : AnalysisState}, Traced Γ s frames t →
      addColumns columns s = .ok added s' → Meets Γ frames t s s' ∧
        List.Forall₂ (fun (c : SourceColumn) (d : Column) => c.name = d.name ∧
          DeclaredIn s' c.var d.type) added columns
  | [], _, _, _, h, hrun => by
    cases hrun
    exact ⟨h.meets_refl, .nil⟩
  | column :: rest, _, s, _, h, hrun => by
    obtain ⟨_, _, hfresh, hrun⟩ := bind_eq_ok.1 hrun
    cases hfresh
    obtain ⟨_, _, hfix, hrun⟩ := bind_eq_ok.1 hrun
    cases hfix
    obtain ⟨others, s₁, hothers, hrun⟩ := bind_eq_ok.1 hrun
    cases hrun
    have hvars : ∀ v ∈ (Constraint.fix (s.solver.vars.fresh false).1 column.type).vars,
        v = (s.solver.vars.fresh false).1 ∨ Known Γ s t v :=
      fun v hv => .inl (mem_singleton.1 hv)
    obtain ⟨hgives, hdeclared⟩ := h.addFresh rfl hvars
    obtain ⟨hrest, hcolumns⟩ := meets_addColumns hgives.traced hothers
    exact ⟨hgives.toMeets.trans hrest, .cons ⟨rfl, (hdeclared _ rfl).after hrest.grown⟩ hcolumns⟩

theorem meets_tableSource {schema : Option String} {name : String} {label : Option String}
    (h : Traced Γ s frames t) (hrun : tableSource Γ.input schema name label s = .ok source s') :
    Meets Γ frames t s s' ∧
      ∀ span, SourceMet Γ s' t (.table schema name label span) source := by
  unfold tableSource at hrun
  cases htable : Γ.input.catalog.table? schema name with
  | none =>
    rw [htable] at hrun
    cases hrun
  | some table =>
    rw [htable] at hrun
    obtain ⟨columns, s₁, hcolumns, hrun⟩ := bind_eq_ok.1 hrun
    cases hrun
    obtain ⟨hmeets, hdeclared⟩ := meets_addColumns h hcolumns
    refine ⟨hmeets, fun span => ⟨rfl, ?_, ?_⟩⟩
    · intro c hc
      obtain ⟨i, hi⟩ := mem_iff_getElem?.1 hc
      obtain ⟨d, -, -, hd⟩ := forall₂_getElem? hdeclared hi
      exact hmeets.traced.known_of_declared hd
    · intro schema' name' label' span' hfactor
      cases hfactor
      exact ⟨table, htable, hdeclared⟩

end Analysis

end SqlSignature
