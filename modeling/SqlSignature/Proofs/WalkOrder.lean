import SqlSignature.Proofs.NullTypes
import SqlSignature.Proofs.WalkSteps
/-!
# SqlSignature.Proofs.WalkOrder

The order in which a walk adds constraints. All variables that a constraint speaks of are there when
it is added, and the variable that it gives a type to is new: an expression gets its variable after
its operands, and each node is walked once. So no variable is spoken of before it is given its type
(`Constraint.Ordered`).

`Analysis.Orders` says this of a step: it needs some variables to be there, goes through some nodes,
and gives out variables. The nodes that are walked have to differ from each other and from those
that were walked before.
-/

open List

namespace SqlSignature

/-- The variables of the columns of a table. -/
def Source.vars (source : Source) : List TypeVar := source.columns.map SourceColumn.var

/-- The variables that a scope offers. -/
def Scope.vars (scope : Scope) : List TypeVar :=
  scope.sources.flatMap Source.vars ++ scope.aliases.map SelectAlias.var

/-- The variables of the columns of a select list. -/
abbrev SelectionShape.vars (shape : SelectionShape) : List TypeVar :=
  shape.columns.map ShapeColumn.var

/-- The variables of the columns of a specification, and those of its scope. -/
def SpecShape.vars (shape : SpecShape) : List TypeVar :=
  shape.columns.map ShapeColumn.var ++ shape.scope.vars

theorem Scopes.Offers.mem_vars {scopes : Scopes} {r : Reference} (h : scopes.Offers r) :
    ∃ scope ∈ scopes.toList, r.var ∈ scope.vars := by
  cases h with
  | column hscope hsource hcolumn =>
    refine ⟨_, Array.mem_toList_iff.2 (Array.mem_of_getElem? hscope), mem_append_left _ ?_⟩
    exact mem_flatMap.2 ⟨_, mem_of_getElem? hsource,
      mem_map_of_mem (mem_of_getElem? hcolumn)⟩
  | label hscope hlabel =>
    exact ⟨_, Array.mem_toList_iff.2 (Array.mem_of_getElem? hscope),
      mem_append_right _ (mem_map_of_mem hlabel)⟩

namespace Analysis

/-- What a walk is over, and whether it may give hints. -/
structure Terms where
  input : AnalysisInput
  mayHint : Prop

/-- What holds after the nodes with some numbers have been walked. The variables `uses` are there;
those that are `pending` are there, too, but nothing speaks of them yet. Hints are given only if
they may be. -/
structure Orderly (Θ : Terms) (done : List Nat)
    (uses pending : List TypeVar) (s : AnalysisState) : Prop where
  ordered : Constraint.Ordered s.solver.constraints.toList
  vars : ∀ d ∈ s.solver.constraints.toList, ∀ v ∈ d.vars, v.index < s.solver.vars.size
  apart : ∀ d ∈ s.solver.constraints.toList, ∀ t, d.given? = some t → t ∉ d.args
  hints : ∀ v w, .hint v w ∈ s.solver.constraints.toList → Θ.mayHint
  offered : ∀ scope ∈ s.scopes.toList, ∀ v ∈ scope.vars, v.index < s.solver.vars.size
  bound : ∀ facts ∈ s.parameters.toList, facts.var.index < s.solver.vars.size
  references : ∀ entry ∈ s.references, entry.1 ∈ done
  exprs : ∀ entry ∈ s.exprVars, entry.1 ∈ done
  typeSets : Θ.input.resolver = none → s.typeSets = []
  present : ∀ v ∈ uses, v.index < s.solver.vars.size
  unmet : ∀ v ∈ pending, v.index < s.solver.vars.size ∧
    (∀ d ∈ s.solver.constraints.toList, v ∉ d.vars) ∧ v ∉ uses

section

variable {Θ : Terms} {done more : List Nat} {uses pending : List TypeVar} {s s' : AnalysisState}

theorem Orderly.restrict {fewer : List TypeVar} (h : Orderly Θ done uses [] s)
    (hfewer : fewer ⊆ uses) : Orderly Θ done fewer [] s :=
  { h with present := fun v hv => h.present v (hfewer hv), unmet := nofun }

theorem Orderly.extend (h : Orderly Θ done uses [] s) (fresh : List TypeVar)
    (hfresh : ∀ v ∈ fresh, v.index < s.solver.vars.size) : Orderly Θ done (uses ++ fresh) [] s :=
  { h with
    present := forall_mem_append.2 ⟨h.present, hfresh⟩
    unmet := nofun }

theorem Orderly.keep {v : TypeVar} (h : Orderly Θ done uses [v] s) :
    Orderly Θ done (uses ++ [v]) [] s :=
  { h with
    present := fun w hw => (mem_append.1 hw).elim (h.present w) fun hw => (h.unmet w hw).1
    unmet := nofun }

section

variable (h : Orderly Θ done uses pending s)

include h

theorem Orderly.after (hmore : done ⊆ more) :
    Orderly Θ more uses pending s :=
  { h with
    references := fun entry hentry => hmore (h.references entry hentry)
    exprs := fun entry hentry => hmore (h.exprs entry hentry) }

/-- A new constraint about variables that are there. If it gives one a type, that was pending. -/
theorem Orderly.add {c : Constraint}
    (hgiven : ∀ t, c.given? = some t → t ∈ pending) (hhint : ∀ v w, c = .hint v w → Θ.mayHint)
    (hvars : ∀ v ∈ c.vars, v ∈ uses ∨ v ∈ pending) (hargs : c.args ⊆ uses) :
    Orderly Θ done (uses ++ pending) [] { s with solver := s.solver.add c } where
  ordered := by
    show Constraint.Ordered (s.solver.constraints.push c).toList
    rw [Array.toList_push]
    refine pairwise_append.2 ⟨h.ordered, pairwise_singleton _ _, ?_⟩
    intro d hd later hlater t ht
    rw [mem_singleton.1 hlater] at ht
    exact (h.unmet t (hgiven t ht)).2.1 d hd
  vars d hd v hv := by
    rcases mem_add.1 hd with hold | rfl
    · exact h.vars d hold v hv
    · exact (hvars v hv).elim (h.present v) fun hpending => (h.unmet v hpending).1
  apart d hd t ht := by
    rcases mem_add.1 hd with hold | rfl
    · exact h.apart d hold t ht
    · exact fun hmem => (h.unmet t (hgiven t ht)).2.2 (hargs hmem)
  hints v w hmem := by
    rcases mem_add.1 hmem with hold | hnew
    · exact h.hints v w hold
    · exact hhint v w hnew.symm
  offered := h.offered
  bound := h.bound
  references := h.references
  exprs := h.exprs
  typeSets := h.typeSets
  present v hv := (mem_append.1 hv).elim (h.present v) fun hpending => (h.unmet v hpending).1
  unmet := nofun

/-- A new constraint that gives no type. -/
theorem Orderly.note {c : Constraint}
    (hgiven : c.given? = none) (hhint : ∀ v w, c = .hint v w → Θ.mayHint) (hvars : c.vars ⊆ uses) :
    Orderly Θ done uses pending { s with solver := s.solver.add c } := by
  have hadd := h.add (c := c) (fun t ht => by rw [hgiven] at ht; cases ht) hhint
    (fun v hv => .inl (hvars hv)) fun v hv => hvars (Constraint.args_subset_vars hv)
  refine { hadd with present := h.present, unmet := fun v hv => ?_ }
  obtain ⟨hlt, hunmet, hunused⟩ := h.unmet v hv
  refine ⟨hlt, fun d hd => ?_, hunused⟩
  rcases mem_add.1 hd with hold | rfl
  · exact hunmet d hold
  · exact fun hmem => hunused (hvars hmem)

end

/-- A new variable. -/
theorem Orderly.fresh (h : Orderly Θ done uses [] s) :
    Orderly Θ done uses [(s.solver.fresh false).1]
      { s with solver := (s.solver.fresh false).2 } := by
  have hsize : (s.solver.fresh false).2.vars.size = s.solver.vars.size + 1 := size_fresh _ _
  have hlt : ∀ {i : Nat}, i < s.solver.vars.size → i < (s.solver.fresh false).2.vars.size := by
    intro i hi
    rw [hsize]
    exact Nat.lt_succ_of_lt hi
  have hnew : ∀ v ∈ [(s.solver.fresh false).1], v.index = s.solver.vars.size := by
    intro v hv
    rw [mem_singleton.1 hv]
    rfl
  refine ⟨h.ordered, fun d hd v hv => hlt (h.vars d hd v hv), h.apart, h.hints,
    fun scope hscope v hv => hlt (h.offered scope hscope v hv),
    fun facts hfacts => hlt (h.bound facts hfacts), h.references, h.exprs, h.typeSets,
    fun v hv => hlt (h.present v hv), ?_⟩
  intro v hv
  have hindex := hnew v hv
  refine ⟨?_, fun d hd hmem => ?_, fun hmem => ?_⟩
  · rw [hsize, hindex]
    exact Nat.lt_succ_self _
  · exact Nat.lt_irrefl _ (hindex ▸ h.vars d hd v hmem)
  · exact Nat.lt_irrefl _ (hindex ▸ h.present v hmem)

/-- A change of what is noted beside types, names and expressions. -/
theorem Orderly.of_eq (h : Orderly Θ done uses pending s)
    (hsolver : s'.solver = s.solver) (hscopes : s'.scopes = s.scopes)
    (hparameters : ∀ facts ∈ s'.parameters.toList, ∃ before ∈ s.parameters.toList,
      facts.var = before.var)
    (hreferences : s'.references = s.references) (hexprs : s'.exprVars = s.exprVars)
    (htypeSets : Θ.input.resolver = none → s'.typeSets = s.typeSets) :
    Orderly Θ done uses pending s' where
  ordered := by rw [hsolver]; exact h.ordered
  vars := by rw [hsolver]; exact h.vars
  apart := by rw [hsolver]; exact h.apart
  hints := by rw [hsolver]; exact h.hints
  offered := by rw [hsolver, hscopes]; exact h.offered
  bound facts hfacts := by
    obtain ⟨before, hbefore, heq⟩ := hparameters facts hfacts
    rw [hsolver, heq]
    exact h.bound before hbefore
  references := by rw [hreferences]; exact h.references
  exprs := by rw [hexprs]; exact h.exprs
  typeSets hnone := (htypeSets hnone).trans (h.typeSets hnone)
  present := by rw [hsolver]; exact h.present
  unmet := by rw [hsolver]; exact h.unmet

end

/-! ### Steps -/

section

variable (Θ : Terms) {α β : Type}

/-- A step that needs variables to be there, walks nodes and gives out variables. -/
def Orders (needs : List TypeVar) (nodes : List Expr) (step : Analysis α)
    (out : α → List TypeVar) : Prop :=
  ∀ done uses, needs ⊆ uses → (done ++ nodes.map Expr.id).Nodup →
    Ensures (Orderly Θ done uses []) step fun a =>
      Orderly Θ (done ++ nodes.map Expr.id) (uses ++ out a) []

/-- A step that only speaks of variables it needs, and of no pending one. -/
def Quiet (needs : List TypeVar) (step : Analysis α) : Prop :=
  ∀ done uses pending, needs ⊆ uses →
    Ensures (Orderly Θ done uses pending) step fun _ =>
      Orderly Θ done uses pending

/-- A step in which a pending variable is given a type. -/
def Settles (needs : List TypeVar) (var : TypeVar) (step : Analysis α) (out : α → List TypeVar) :
    Prop :=
  ∀ done uses, needs ⊆ uses → done.Nodup →
    Ensures (Orderly Θ done uses [var]) step fun a =>
      Orderly Θ done (uses ++ out a) []

end

section

variable {Θ : Terms} {α β : Type} {needs : List TypeVar}
  {step : Analysis α} {next : α → Analysis β} {out : α → List TypeVar} {vars args : List TypeVar}
  {nodes : List Expr} {var : TypeVar}

theorem Orders.bind {more : List Expr} {out' : β → List TypeVar} (h : Orders Θ needs nodes step out)
    (hnext : ∀ a, Orders Θ (needs ++ out a) more (next a) out') :
    Orders Θ needs (nodes ++ more) (step >>= next) out' := by
  intro done uses hneeds hnodup
  rw [map_append, ← append_assoc] at hnodup ⊢
  refine (h done uses hneeds (nodup_append.1 hnodup).1).bind fun a => ?_
  have hsub : needs ++ out a ⊆ uses ++ out a :=
    append_subset.2 ⟨subset_append_of_subset_left _ hneeds, subset_append_right _ _⟩
  refine (hnext a _ (uses ++ out a) hsub hnodup).post fun b s hs => hs.restrict ?_
  exact append_subset.2 ⟨fun _ hv => mem_append_left _ (mem_append_left _ hv),
    subset_append_right _ _⟩

/-- A step at no nodes before a step. -/
theorem Orders.andThen {out' : β → List TypeVar} (h : Orders Θ needs [] step out)
    (hnext : ∀ a, Orders Θ (needs ++ out a) nodes (next a) out') :
    Orders Θ needs nodes (step >>= next) out' :=
  h.bind hnext

/-- Other nodes with the same numbers. -/
theorem Orders.perm {others : List Expr} (h : Orders Θ needs nodes step out)
    (hperm : nodes.Perm others) : Orders Θ needs others step out := by
  intro done uses hneeds hnodup
  have hids := (hperm.map Expr.id).append_left done
  refine (h done uses hneeds (hids.nodup_iff.2 hnodup)).post fun a s hs => hs.after hids.subset

/-- Some nodes are passed over. -/
theorem Orders.passing (extras : List Expr) (h : Orders Θ needs nodes step out) :
    Orders Θ needs (nodes ++ extras) step out := by
  intro done uses hneeds hnodup
  rw [map_append, ← append_assoc] at hnodup ⊢
  exact (h done uses hneeds (nodup_append.1 hnodup).1).post
    fun a s hs => hs.after (subset_append_left _ _)

theorem Orders.imp {needs' : List TypeVar} {out' : α → List TypeVar}
    (h : Orders Θ needs nodes step out) (hneeds : needs ⊆ needs')
    (hout : ∀ a, out' a ⊆ needs' ++ out a) : Orders Θ needs' nodes step out' := by
  intro done uses huses hnodup
  refine (h done uses (fun v hv => huses (hneeds hv)) hnodup).post fun a s hs => hs.restrict ?_
  intro v hv
  rcases mem_append.1 hv with hv | hv
  · exact mem_append_left _ hv
  · rcases mem_append.1 (hout a hv) with hv | hv
    · exact mem_append_left _ (huses hv)
    · exact mem_append_right _ hv

theorem Orders.mono {needs' : List TypeVar} (h : Orders Θ needs nodes step out)
    (hneeds : needs ⊆ needs') : Orders Θ needs' nodes step out :=
  h.imp hneeds fun _ => subset_append_right _ _

theorem orders_pure {a : α} (h : out a ⊆ needs) : Orders Θ needs [] (pure a) out := by
  intro done uses hneeds _
  rw [map_nil, append_nil]
  exact .pure fun s hs => hs.extend _ fun v hv => hs.present v (hneeds (h hv))

theorem orders_throw (e : AnalysisError) : Orders Θ needs nodes (throw e : Analysis α) out :=
  fun _ _ _ _ => .throw e

theorem Quiet.orders (h : Quiet Θ needs step) : Orders Θ needs [] step fun _ => [] := by
  intro done uses hneeds _
  rw [map_nil, append_nil]
  simpa only [append_nil] using h done uses [] hneeds

/-- A quiet step before a step. -/
theorem Quiet.then {out : β → List TypeVar} (h : Quiet Θ needs step)
    (hnext : ∀ a, Orders Θ needs nodes (next a) out) : Orders Θ needs nodes (step >>= next) out :=
  h.orders.bind fun a => (hnext a).mono (subset_append_left _ _)

theorem Quiet.bind (h : Quiet Θ needs step)
    (hnext : ∀ a, Quiet Θ needs (next a)) : Quiet Θ needs (step >>= next) :=
  fun done uses pending hneeds =>
    (h done uses pending hneeds).bind fun a => hnext a done uses pending hneeds

theorem quiet_pure (a : α) : Quiet Θ needs (pure a) :=
  fun _ _ _ _ => .pure fun _ hs => hs

theorem quiet_get : Quiet Θ needs (get : Analysis AnalysisState) := by
  intro done uses pending _ s a s' hs hrun
  cases hrun
  exact hs

theorem quiet_constrain {c : Constraint} (hgiven : c.given? = none)
    (hhint : ∀ v w, c = .hint v w → Θ.mayHint) (hvars : c.vars ⊆ needs) :
    Quiet Θ needs (constrain c) := by
  intro done uses pending hneeds s a s' hs hrun
  cases hrun
  exact hs.note hgiven hhint fun v hv => hneeds (hvars hv)

theorem quiet_expect {v : TypeVar} (type : SqlType) (hv : v ∈ needs) :
    Quiet Θ needs (expect v type) :=
  quiet_constrain rfl nofun (cons_subset.2 ⟨hv, nil_subset _⟩)

theorem quiet_equate {v w : TypeVar} (hv : v ∈ needs) (hw : w ∈ needs) :
    Quiet Θ needs (equate v w) :=
  quiet_constrain rfl nofun (cons_subset.2 ⟨hv, cons_subset.2 ⟨hw, nil_subset _⟩⟩)

theorem quiet_hint {v w : TypeVar} (hmay : Θ.mayHint) (hv : v ∈ needs) (hw : w ∈ needs) :
    Quiet Θ needs (constrain (.hint v w)) :=
  quiet_constrain rfl (fun _ _ _ => hmay)
    (cons_subset.2 ⟨hv, cons_subset.2 ⟨hw, nil_subset _⟩⟩)

/-- Notes about a bound value leave its variable. -/
theorem quiet_modifyParameter {ordinal : Nat} {f : ParameterFacts → ParameterFacts}
    (hf : ∀ facts, (f facts).var = facts.var) :
    Quiet Θ needs
      (modify fun s => { s with parameters := s.parameters.modify ordinal f } :
        Analysis PUnit) := by
  intro done uses pending _ s a s' hs hrun
  cases hrun
  refine hs.of_eq rfl rfl ?_ rfl rfl fun _ => rfl
  intro facts hfacts
  obtain ⟨i, hi⟩ := mem_iff_getElem?.1 hfacts
  rw [Array.getElem?_toList, Array.getElem?_modify] at hi
  split at hi
  · obtain ⟨before, hbefore, rfl⟩ := Option.map_eq_some_iff.1 hi
    exact ⟨before, Array.mem_toList_iff.2 (Array.mem_of_getElem? hbefore), hf before⟩
  · exact ⟨facts, Array.mem_toList_iff.2 (Array.mem_of_getElem? hi), rfl⟩

theorem Speaks.quiet {step step' : Analysis Unit} (h : Speaks id needs step step') :
    Quiet Θ needs step := by
  induction h with
  | done => exact quiet_pure ()
  | expect type hv => exact quiet_expect type hv
  | equate hv hw => exact quiet_equate hv hw
  | note _ hg => exact quiet_modifyParameter hg
  | bind _ _ ih ihNext => exact ih.bind fun _ => ihNext

/-! ### Variables of expressions -/

theorem Quiet.settles {out : β → List TypeVar} (h : Quiet Θ needs step)
    (hnext : ∀ a, Settles Θ needs var (next a) out) : Settles Θ needs var (step >>= next) out :=
  fun done uses hneeds hnodup =>
    (h done uses [var] hneeds).bind fun a => hnext a done uses hneeds hnodup

/-- The constraint that gives a pending variable its type. -/
theorem settles_constrain {c : Constraint} (hgiven : ∀ t, c.given? = some t → t = var)
    (hhint : ∀ v w, c ≠ .hint v w) (hvars : ∀ v ∈ c.vars, v = var ∨ v ∈ needs)
    (hargs : c.args ⊆ needs) : Settles Θ needs var (constrain c) fun _ => [var] := by
  intro done uses hneeds _ s a s' hs hrun
  cases hrun
  refine hs.add (fun t ht => ?_) (fun v w hc => absurd hc (hhint v w)) (fun v hv => ?_)
    fun v hv => hneeds (hargs hv)
  · rw [hgiven t ht]
    exact mem_cons_self
  · rcases hvars v hv with rfl | hv
    · exact .inr mem_cons_self
    · exact .inl (hneeds hv)

theorem settles_fix (type : SqlType) : Settles Θ needs var (fix var type) fun _ => [var] :=
  settles_constrain (fun _ ht => (Option.some.inj ht).symm) nofun
    (fun _ hv => .inl (mem_singleton.1 hv)) (nil_subset _)

theorem settles_derive (rule : DeriveRule) (hargs : args ⊆ needs) :
    Settles Θ needs var (constrain (.derive var rule args)) fun _ => [var] :=
  settles_constrain (fun _ ht => (Option.some.inj ht).symm) nofun
    (fun _ hv => (mem_cons.1 hv).imp_right fun hv => hargs hv) hargs

theorem settles_widen (hargs : args ⊆ needs) :
    Settles Θ needs var (constrain (.widen var args)) fun _ => [var] :=
  settles_constrain (fun _ ht => (Option.some.inj ht).symm) nofun
    (fun _ hv => (mem_cons.1 hv).imp_right fun hv => hargs hv) hargs

/-- What follows once the variable has its type. -/
theorem Settles.bind {out' : β → List TypeVar} (h : Settles Θ needs var step out)
    (hnext : ∀ a, Orders Θ (needs ++ out a) [] (next a) out') :
    Settles Θ needs var (step >>= next) out' := by
  intro done uses hneeds hnodup
  refine (h done uses hneeds hnodup).bind fun a => ?_
  have hsub : needs ++ out a ⊆ uses ++ out a :=
    append_subset.2 ⟨subset_append_of_subset_left _ hneeds, subset_append_right _ _⟩
  have hrest := hnext a done (uses ++ out a) hsub
  rw [map_nil, append_nil] at hrest
  refine (hrest hnodup).post fun b s hs => hs.restrict ?_
  rw [append_assoc]
  exact append_subset.2 ⟨subset_append_left _ _,
    subset_append_of_subset_right _ (subset_append_right _ _)⟩

/-- A variable that is added is pending. -/
theorem orders_freshVar {next : TypeVar → Analysis β} {out : β → List TypeVar}
    (h : ∀ var, Settles Θ needs var (next var) out) :
    Orders Θ needs [] (freshVar >>= next) out := by
  intro done uses hneeds hnodup s b s' hs hrun
  obtain ⟨var, t, hvar, hb⟩ := bind_eq_ok.1 hrun
  cases hvar
  rw [map_nil, append_nil] at hnodup ⊢
  exact h _ done uses hneeds hnodup hs.fresh hb

theorem lookup_eq_none {γ : Type} {entries : List (Nat × γ)} {done : List Nat} {id : Nat}
    (hentries : ∀ entry ∈ entries, entry.1 ∈ done) (hid : id ∉ done) :
    entries.lookup id = none := by
  rw [lookup_eq_none_iff]
  intro entry hentry
  rw [bne_iff_ne]
  rintro rfl
  exact hid (hentries entry hentry)

/-- A node that is walked for the first time, and is no bound value, has no variable yet. -/
theorem Orderly.knownVar?_eq_none {done : List Nat} {uses pending : List TypeVar}
    {s : AnalysisState} (h : Orderly Θ done uses pending s) {e : Expr}
    (he : e.ordinal? = none) (hid : e.id ∉ done) : knownVar? s e = none := by
  rw [knownVar?, he, AnalysisState.reference?, lookup_eq_none h.references hid,
    lookup_eq_none h.exprs hid]
  rfl

/-- The variable of an expression that is no bound value is pending when it is first asked for. -/
theorem orders_varOf {e : Expr} (he : e.ordinal? = none) {next : TypeVar → Analysis β}
    {out : β → List TypeVar} (h : ∀ var, Settles Θ needs var (next var) out) :
    Orders Θ needs [e] (varOf e >>= next) out := by
  intro done uses hneeds hnodup s b s' hs hrun
  have hid : e.id ∉ done := by
    intro hmem
    exact (nodup_append.1 hnodup).2.2 _ hmem _ mem_cons_self rfl
  obtain ⟨var, t, hvar, hb⟩ := bind_eq_ok.1 hrun
  replace hvar := of_get hvar
  rw [hs.knownVar?_eq_none he hid] at hvar
  cases hvar
  refine h _ _ uses hneeds hnodup ?_ hb
  have hfresh := hs.fresh.after (subset_append_left done [e.id])
  exact { hfresh with
    exprs := forall_mem_cons.2 ⟨mem_append_right _ mem_cons_self, hfresh.exprs⟩ }

/-- The variable of a bound value is there. -/
theorem orders_varOf_placeholder (id : Nat) (span : Span) (ordinal : Nat) :
    Orders Θ needs [.node id span (.placeholder ordinal)]
      (varOf (.node id span (.placeholder ordinal))) fun v => [v] := by
  intro done uses hneeds hnodup s v s' hs hrun
  have hid : id ∉ done := fun hmem =>
    (nodup_append.1 hnodup).2.2 _ hmem _ mem_cons_self rfl
  have hdone : done ⊆ done ++ [id] := subset_append_left _ _
  have hvar := of_get hrun
  cases hfacts : s.parameters[ordinal]? with
  | some facts =>
    have hknown : knownVar? s (.node id span (.placeholder ordinal)) = some facts.var := by
      simp [knownVar?, Expr.ordinal?, hfacts]
    rw [hknown] at hvar
    cases hvar
    refine (hs.after hdone).extend _ fun w hw => ?_
    rw [mem_singleton.1 hw]
    exact hs.bound facts (Array.mem_toList_iff.2 (Array.mem_of_getElem? hfacts))
  | none =>
    have hknown : knownVar? s (.node id span (.placeholder ordinal)) = none := by
      rw [knownVar?, AnalysisState.reference?]
      simp [Expr.ordinal?, hfacts, lookup_eq_none hs.references hid, lookup_eq_none hs.exprs hid]
    rw [hknown] at hvar
    cases hvar
    have hfresh := (hs.fresh.after hdone).keep
    exact { hfresh with
      exprs := forall_mem_cons.2 ⟨mem_append_right _ mem_cons_self, hfresh.exprs⟩ }

/-! ### Rules -/

/-- The variable is given back once it has its type. -/
theorem Settles.give {step : Analysis Unit} (h : Settles Θ needs var step fun _ => [var]) :
    Settles Θ needs var (step >>= fun _ => pure var) fun v => [v] :=
  h.bind fun _ => orders_pure (subset_append_right _ _)

variable {e : Expr}

theorem orders_fixed (he : e.ordinal? = none) (type : SqlType) :
    Orders Θ needs [e] (fixed e type) fun v => [v] :=
  orders_varOf he fun _ => (settles_fix type).give

theorem orders_widened (he : e.ordinal? = none) (hargs : args ⊆ needs) :
    Orders Θ needs [e] (widened e args) fun v => [v] :=
  orders_varOf he fun _ => (settles_widen hargs).give

/-- A set of types is noted only if there is a resolver. -/
theorem settles_askResolver (e : Expr) :
    Settles Θ needs var (askResolver Θ.input e var) fun _ => [var] := by
  unfold askResolver
  split
  · exact settles_fix _
  next resolver hresolver =>
    have hnote : ∀ {needs : List TypeVar} {f : AnalysisState → AnalysisState},
        (∀ s, (f s).solver = s.solver ∧ (f s).scopes = s.scopes ∧
          (f s).parameters = s.parameters ∧ (f s).references = s.references ∧
          (f s).exprVars = s.exprVars) →
        Quiet Θ needs (modify f : Analysis PUnit) := by
      intro needs f hf done uses pending _ s a s' hs hrun
      cases hrun
      obtain ⟨hsolver, hscopes, hparameters, hreferences, hexprs⟩ := hf s
      refine hs.of_eq hsolver hscopes (fun facts hfacts => ⟨facts, ?_, rfl⟩) hreferences hexprs ?_
      · rwa [hparameters] at hfacts
      · intro hnone
        rw [hresolver] at hnone
        cases hnone
    refine quiet_get.settles fun s => ?_
    refine Quiet.settles (hnote fun _ => ⟨rfl, rfl, rfl, rfl, rfl⟩) fun _ => ?_
    split
    · refine (settles_fix _).bind fun _ => ?_
      split
      · refine Orders.imp (Quiet.orders (hnote ?_)) (List.Subset.refl _) fun _ => ?_
        · exact fun _ => ⟨rfl, rfl, rfl, rfl, rfl⟩
        · rw [append_nil]
          exact subset_append_right _ _
      · exact orders_pure (subset_append_right _ _)
    · exact settles_fix _

theorem Settling.settles {step step' : Analysis TypeVar}
    (h : Settling id needs Θ.input e var step step') : Settles Θ needs var step fun v => [v] := by
  induction h with
  | fix type => exact (settles_fix type).give
  | derive rule hargs => exact (settles_derive rule hargs).give
  | widen hargs => exact (settles_widen hargs).give
  | ask => exact (settles_askResolver e).give
  | after hspeaks _ ih => exact hspeaks.quiet.settles fun _ => ih

theorem IsRule.orders {step step' : Analysis TypeVar} (h : IsRule id needs Θ.input e step step')
    (he : e.ordinal? = none) : Orders Θ needs [e] step fun v => [v] := by
  cases h with
  | intro h => exact orders_varOf he fun var => (h var).settles

/-- A column name stands for a variable that a scope offers. -/
theorem orders_bindColumn (column : ColumnRef) :
    Orders Θ needs [e] (bindColumn e column) fun v => [v] := by
  intro done uses hneeds hnodup s v s' hs hrun
  obtain ⟨r, hresolve, rfl, rfl⟩ := bindColumn_eq_ok hrun
  obtain ⟨scope, hscope, hmem⟩ := (Scopes.offers_resolve hresolve).mem_vars
  have hextend := (hs.after (subset_append_left done [e.id])).extend [r.var]
    fun w hw => mem_singleton.1 hw ▸ hs.offered scope hscope r.var hmem
  exact { hextend with
    references := forall_mem_cons.2 ⟨mem_append_right _ mem_cons_self, hextend.references⟩ }

/-! ### Scopes and tables -/

theorem quiet_modifyScope {f : Scope → Scope} (hf : ∀ scope, (f scope).vars ⊆ scope.vars ++ needs) :
    Quiet Θ needs (modifyScope f) := by
  intro done uses pending hneeds s a s' hs hrun
  cases hrun
  refine { hs with offered := ?_ }
  intro scope hscope v hv
  obtain ⟨k, hk⟩ := mem_iff_getElem?.1 hscope
  rw [Array.getElem?_toList, Array.getElem?_modify] at hk
  split at hk
  · obtain ⟨before, hbefore, rfl⟩ := Option.map_eq_some_iff.1 hk
    rcases mem_append.1 (hf before hv) with hv | hv
    · exact hs.offered before (Array.mem_toList_iff.2 (Array.mem_of_getElem? hbefore)) v hv
    · exact hs.present v (hneeds hv)
  · exact hs.offered scope (Array.mem_toList_iff.2 (Array.mem_of_getElem? hk)) v hv

/-- A change of a scope that leaves tables and aliases. -/
theorem quiet_modifyScope_of_eq {f : Scope → Scope}
    (hsources : ∀ scope, (f scope).sources = scope.sources)
    (haliases : ∀ scope, (f scope).aliases = scope.aliases) : Quiet Θ needs (modifyScope f) := by
  refine quiet_modifyScope fun scope => ?_
  rw [Scope.vars, hsources, haliases]
  exact subset_append_left _ _

theorem quiet_innermostScope : Quiet Θ needs innermostScope :=
  quiet_get.bind fun _ => quiet_pure _

theorem quiet_pushSource {source : Source} (h : source.vars ⊆ needs) :
    Quiet Θ needs (pushSource source) := by
  refine quiet_innermostScope.bind fun _ => (quiet_modifyScope fun scope => ?_).bind fun _ =>
    quiet_pure _
  intro v hv
  simp only [Scope.vars, flatMap_append, flatMap_cons, flatMap_nil,
    append_nil, mem_append] at hv ⊢
  rcases hv with (hv | hv) | hv
  · exact .inl (.inl hv)
  · exact .inr (h hv)
  · exact .inl (.inr hv)

theorem quiet_pad (kind : JoinKind) (first joined : Nat) :
    Quiet Θ needs (modifyScope (·.pad kind first joined)) := by
  refine quiet_modifyScope fun scope v hv => mem_append_left _ ?_
  rcases mem_append.1 hv with hv | hv
  · refine mem_append_left _ ?_
    obtain ⟨source, hsource, hv⟩ := mem_flatMap.1 hv
    obtain ⟨i, hi, rfl⟩ := mem_mapIdx.1 hsource
    exact mem_flatMap.2 ⟨_, getElem_mem hi, hv⟩
  · exact mem_append_right _ hv

theorem quiet_noteClause (tables : List TableRef) : Quiet Θ needs (noteClause Θ.input tables) := by
  unfold noteClause
  split
  · exact quiet_modifyScope_of_eq (fun _ => rfl) fun _ => rfl
  · exact quiet_pure ()

theorem quiet_noteProven (predicates : List Expr) : Quiet Θ needs (noteProven predicates) := by
  intro done uses pending hneeds s a s' hs hrun
  have hquiet : Quiet Θ needs (modifyScope fun scope =>
      { scope with proven := scope.proven ++ s.provenColumns predicates }) :=
    quiet_modifyScope_of_eq (fun _ => rfl) fun _ => rfl
  exact hquiet done uses pending hneeds hs hrun

theorem quiet_shareColumns (joined : Nat) (columns : List String) :
    Quiet Θ needs (shareColumns joined columns) := by
  induction columns with
  | nil => exact quiet_pure ()
  | cons column rest ih =>
    refine quiet_innermostScope.bind fun scope => ?_
    split
    · refine Quiet.bind (quiet_modifyScope_of_eq ?_ ?_) fun _ => ih
      · exact fun _ => rfl
      · exact fun _ => rfl
    · exact fun _ _ _ _ => .throw _

theorem orders_addColumns (columns : List Column) :
    Orders Θ needs [] (addColumns columns) (List.map SourceColumn.var) := by
  induction columns generalizing needs with
  | nil => exact orders_pure (nil_subset _)
  | cons column rest ih =>
    refine orders_freshVar fun var => (settles_fix _).bind fun _ => ih.bind fun others => ?_
    refine orders_pure ?_
    exact cons_subset.2 ⟨mem_append_left _ (mem_append_right _ mem_cons_self),
      subset_append_right _ _⟩

theorem orders_tableSource (schema : Option String) (name : String) (label : Option String) :
    Orders Θ needs [] (tableSource Θ.input schema name label) Source.vars := by
  unfold tableSource
  split
  · exact orders_throw _
  · exact (orders_addColumns _).bind fun columns => orders_pure (subset_append_right _ _)

/-- A scope that is entered and left. -/
theorem Orders.inScope {scope : Scope} (h : Orders Θ needs nodes step out)
    (hscope : scope.vars ⊆ needs) :
    Orders Θ needs nodes (inScope scope step) fun r => out r.1 ++ r.2.vars := by
  intro done uses hneeds hnodup s r s' hs hrun
  have hentered : Orderly Θ done uses [] { s with scopes := s.scopes.push scope } := by
    refine { hs with offered := ?_ }
    intro found hfound v hv
    rw [Array.toList_push] at hfound
    rcases mem_append.1 hfound with hold | hnew
    · exact hs.offered found hold v hv
    · rw [mem_singleton.1 hnew] at hv
      exact hs.present v (hneeds (hscope hv))
  obtain ⟨t, hstep, hr, rfl⟩ := inScope_eq_ok hrun
  have hend := h done uses hneeds hnodup hentered hstep
  have hleft : Orderly Θ (done ++ nodes.map Expr.id) (uses ++ out r.1) []
      { t with scopes := t.scopes.pop } := by
    refine { hend with offered := ?_ }
    intro found hfound
    rw [Array.toList_pop] at hfound
    exact hend.offered found (mem_of_mem_dropLast hfound)
  rw [← append_assoc]
  refine hleft.extend _ fun v hv => ?_
  rw [hr] at hv
  unfold AnalysisState.inner at hv
  cases hback : t.scopes.back? with
  | none => rw [hback] at hv; cases hv
  | some last =>
    rw [hback] at hv
    refine hend.offered last ?_ v hv
    exact Array.mem_toList_iff.2 (Array.mem_of_back? hback)

/-- A step that sees no scopes. -/
theorem Orders.isolated (h : Orders Θ needs nodes step out) :
    Orders Θ needs nodes (isolated step) out := by
  intro done uses hneeds hnodup s a s' hs hrun
  -- the variables of the scopes that are set aside stay there
  have haside : Orderly Θ done (uses ++ s.scopes.toList.flatMap Scope.vars) []
      { s with scopes := #[] } := by
    have hextend := hs.extend (s.scopes.toList.flatMap Scope.vars) fun v hv => by
      obtain ⟨scope, hscope, hv⟩ := mem_flatMap.1 hv
      exact hs.offered scope hscope v hv
    exact { hextend with offered := nofun }
  obtain ⟨t, hstep, rfl⟩ := isolated_eq_ok hrun
  have hend := h done _ (subset_append_of_subset_left _ hneeds) hnodup haside hstep
  have hoffered : ∀ scope ∈ s.scopes.toList, ∀ v ∈ scope.vars, v.index < t.solver.vars.size :=
    fun scope hscope v hv => hend.present v (mem_append_left _
      (mem_append_right _ (mem_flatMap.2 ⟨scope, hscope, hv⟩)))
  refine { hend.restrict ?_ with offered := hoffered }
  exact append_subset.2 ⟨fun _ hv => mem_append_left _ (mem_append_left _ hv),
    subset_append_right _ _⟩

/-! ### Select lists and unions -/

theorem orders_selectExpr {shape : SelectionShape} {value : Expr} (label : Option String)
    (span : Span) (hshape : shape.vars ⊆ needs) (hvar : var ∈ needs) :
    Orders Θ needs [] (selectExpr Θ.input shape value var label span)
      SelectionShape.vars := by
  refine quiet_get.then fun s => Quiet.then (quiet_modifyScope ?_) fun _ => orders_pure ?_
  · intro scope v hv
    simp only [Scope.vars, map_append, map_cons, map_nil, mem_append,
      mem_singleton] at hv ⊢
    rcases hv with hv | hv | rfl
    · exact .inl (.inl hv)
    · exact .inl (.inr hv)
    · exact .inr hvar
  · intro v hv
    simp only [SelectionShape.vars, SelectionShape.add, map_append, map_cons,
      map_nil, mem_append, mem_singleton] at hv
    rcases hv with hv | rfl
    · exact hshape hv
    · exact hvar

theorem orders_selectBound {shape : SelectionShape}
    {expand : Scopes → Except AnalysisError (List BoundColumn)} (span : Span)
    (hexpand : Scopes.Expands expand) (hshape : shape.vars ⊆ needs) :
    Orders Θ needs [] (selectBound Θ.input shape expand span) SelectionShape.vars := by
  intro done uses hneeds hnodup s found s' hs hrun
  obtain ⟨rfl, bound, hbound, hcolumns⟩ := selectBound_eq_ok hrun
  rw [map_nil, append_nil]
  refine hs.extend _ fun v hv => ?_
  rw [SelectionShape.vars, hcolumns, map_append, map_map] at hv
  rcases mem_append.1 hv with hv | hv
  · exact hs.present v (hneeds (hshape hv))
  · obtain ⟨b, hb, rfl⟩ := mem_map.1 hv
    obtain ⟨scope, hscope, hmem⟩ := (hexpand _ _ hbound b hb).1.mem_vars
    exact hs.offered scope hscope _ hmem

theorem orders_mergeColumn {column : ShapeColumn} {others : List ShapeColumn}
    (hvars : column.var :: others.map ShapeColumn.var ⊆ needs) :
    Orders Θ needs [] (mergeColumn column others) fun c => [c.var] :=
  orders_freshVar fun _ => (settles_widen hvars).bind fun _ =>
    orders_pure (subset_append_right _ _)

theorem orders_mergeColumns {branches : List (List ShapeColumn)} (position : Nat)
    {columns : List ShapeColumn} (hbranches : branches.flatten.map ShapeColumn.var ⊆ needs)
    (hcolumns : columns.map ShapeColumn.var ⊆ needs) :
    Orders Θ needs [] (mergeColumns branches position columns)
      (List.map ShapeColumn.var) := by
  induction columns generalizing position needs with
  | nil => exact orders_pure (nil_subset _)
  | cons column rest ih =>
    obtain ⟨hcolumn, hrest⟩ := cons_subset.1 hcolumns
    have hothers : (branches.filterMap (·[position]?)).map ShapeColumn.var ⊆ needs := by
      intro v hv
      obtain ⟨other, hother, rfl⟩ := mem_map.1 hv
      obtain ⟨branch, hbranch, hget⟩ := mem_filterMap.1 hother
      exact hbranches (mem_map_of_mem
        (mem_flatten.2 ⟨branch, hbranch, mem_of_getElem? hget⟩))
    refine (orders_mergeColumn (cons_subset.2 ⟨hcolumn, hothers⟩)).bind fun merged => ?_
    refine (ih _ (subset_append_of_subset_left _ hbranches)
      (subset_append_of_subset_left _ hrest)).bind fun others => orders_pure ?_
    exact cons_subset.2 ⟨mem_append_left _ (mem_append_right _ mem_cons_self),
      subset_append_right _ _⟩

theorem orders_unionColumns {first : List ShapeColumn} {branches : List SpecShape}
    (hfirst : first.map ShapeColumn.var ⊆ needs)
    (hbranches : branches.flatMap SpecShape.vars ⊆ needs) :
    Orders Θ needs [] (unionColumns first branches) (List.map ShapeColumn.var) := by
  unfold unionColumns
  split
  · exact orders_pure hfirst
  · refine orders_mergeColumns _ (fun v hv => hbranches ?_) hfirst
    obtain ⟨c, hc, rfl⟩ := mem_map.1 hv
    obtain ⟨columns, hcolumns, hc⟩ := mem_flatten.1 hc
    obtain ⟨shape, hshape, rfl⟩ := mem_map.1 hcolumns
    exact mem_flatMap.2 ⟨shape, hshape, mem_append_left _ (mem_map_of_mem hc)⟩

end

end Analysis

end SqlSignature
