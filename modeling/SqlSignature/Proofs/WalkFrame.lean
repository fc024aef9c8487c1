import Mathlib.Order.Defs.Unbundled
import SqlSignature.Proofs.Ensures
import SqlSignature.Proofs.RuleSteps
import SqlSignature.Proofs.TreeNodes
/-!
# SqlSignature.Proofs.WalkFrame

What a walk leaves as it was. Whether it succeeds or fails, the analysis of an expression or of a
query puts back the scopes it was started in, and all it does to the solver is to add variables,
none of them free, and constraints. Inside of a specification the innermost scope is filled step by
step, and the scopes around it stay.

Both facts are relations between the state before and the state after a step. The rules for
expressions also keep what names stand for, so they follow every relation that holds of such steps
(`Analysis.Coarse`). All walks together follow a relation if it holds of such steps and of those
that look up names, and allows for scopes that are entered and left (`Analysis.Surrounds.walk`).
-/

namespace SqlSignature

/-! ### Growing solvers -/

/-- A solver that came from another by adding variables, none of them free, and constraints. -/
inductive Solver.Grown (s : Solver) : Solver → Prop
  | refl : Grown s s
  | fresh {t : Solver} : Grown s t → Grown s (t.fresh false).2
  | add {t : Solver} (c : Constraint) : Grown s t → Grown s (t.add c)

theorem Solver.Grown.trans {s t u : Solver} (h₁ : s.Grown t) (h₂ : t.Grown u) : s.Grown u := by
  induction h₂ with
  | refl => exact h₁
  | fresh _ ih => exact ih.fresh
  | add c _ ih => exact ih.add c

/-- What adding variables and constraints keeps, a grown solver has kept. -/
theorem Solver.Grown.induction {motive : Solver → Prop} {s t : Solver} (h : s.Grown t)
    (start : motive s) (fresh : ∀ u, motive u → motive (u.fresh false).2)
    (add : ∀ u c, motive u → motive (u.add c)) : motive t := by
  induction h with
  | refl => exact start
  | fresh _ ih => exact fresh _ ih
  | add c _ ih => exact add _ c ih

/-- The innermost scope. -/
def AnalysisState.inner (s : AnalysisState) : Scope := s.scopes.back?.getD {}

namespace Analysis

variable {α β : Type} {step : Analysis α}

/-! ### Steps and relations between states -/

/-- The state after a step, whether it failed or not. -/
def after {α : Type} (step : Analysis α) (s : AnalysisState) : AnalysisState :=
  match step s with
  | .ok _ s' => s'
  | .error _ s' => s'

/-- A step keeps the scopes and lets the solver grow. -/
structure Kept (s s' : AnalysisState) : Prop where
  solver : s.solver.Grown s'.solver
  scopes : s'.scopes = s.scopes

/-- A step keeps the scopes around the innermost one and lets the solver grow. -/
structure KeptOuter (s s' : AnalysisState) : Prop where
  solver : s.solver.Grown s'.solver
  depth : s'.scopes.size = s.scopes.size
  outer : s'.scopes.pop = s.scopes.pop

/-- A step keeps what names stand for, too. -/
structure KeptNames (s s' : AnalysisState) : Prop extends Kept s s' where
  references : s'.references = s.references

/-- A step ends in a state that is in a relation to the one it started in. -/
def Follows {α : Type} (R : AnalysisState → AnalysisState → Prop) (step : Analysis α) : Prop :=
  ∀ s, R s (after step s)

variable {s t s' : AnalysisState}

theorem Kept.trans {u : AnalysisState} (h₁ : Kept s t) (h₂ : Kept t u) : Kept s u :=
  ⟨h₁.solver.trans h₂.solver, h₂.scopes.trans h₁.scopes⟩

theorem Kept.toOuter (h : Kept s t) : KeptOuter s t :=
  ⟨h.solver, by rw [h.scopes], by rw [h.scopes]⟩

theorem KeptOuter.trans {u : AnalysisState} (h₁ : KeptOuter s t) (h₂ : KeptOuter t u) :
    KeptOuter s u :=
  ⟨h₁.solver.trans h₂.solver, h₂.depth.trans h₁.depth, h₂.outer.trans h₁.outer⟩

theorem after_of_ok {a : α} (h : step s = .ok a s') : after step s = s' := by
  rw [after, h]

/-- Two steps in a row end where the second ends, or where the first fails. -/
theorem after_bind (step : Analysis α) (next : α → Analysis β) (s : AnalysisState) :
    after (step >>= next) s = after step s ∨
      ∃ a, after (step >>= next) s = after (next a) (after step s) := by
  have hbind : (step >>= next) s = EStateM.bind step next s := rfl
  unfold after
  rw [hbind, EStateM.bind]
  cases step s with
  | ok a t => exact Or.inr ⟨a, rfl⟩
  | error e t => exact Or.inl rfl

/-- A relation that holds if scopes and names are kept. All rules for expressions follow it. -/
class Coarse (R : AnalysisState → AnalysisState → Prop) : Prop extends IsTrans AnalysisState R where
  of_kept : ∀ {s s' : AnalysisState}, KeptNames s s' → R s s'

instance : Coarse Kept where
  trans _ _ _ := Kept.trans
  of_kept := KeptNames.toKept

instance : Coarse KeptOuter where
  trans _ _ _ := KeptOuter.trans
  of_kept h := h.toKept.toOuter

theorem Follows.bind {R : AnalysisState → AnalysisState → Prop} [IsTrans AnalysisState R]
    {next : α → Analysis β} (h : Follows R step) (hn : ∀ a, Follows R (next a)) :
    Follows R (step >>= next) := by
  intro s
  rcases after_bind step next s with heq | ⟨a, heq⟩
  · rw [heq]
    exact h s
  · rw [heq]
    exact IsTrans.trans _ _ _ (h s) (hn a _)

theorem Follows.toOuter (h : Follows Kept step) : Follows KeptOuter step :=
  fun s => (h s).toOuter

/-! ### Primitive steps -/

section

variable {R : AnalysisState → AnalysisState → Prop} [Coarse R]

theorem Coarse.refl (s : AnalysisState) : R s s := of_kept ⟨⟨.refl, rfl⟩, rfl⟩

theorem follows_pure (a : α) : Follows R (pure a) := fun s => Coarse.refl s

/-- A step whose result is turned into another one. -/
theorem Follows.last {f : α → β} (h : Follows R step) :
    Follows R (step >>= fun a => pure (f a)) :=
  h.bind fun a => follows_pure (f a)

theorem follows_throw (e : AnalysisError) : Follows R (throw e : Analysis α) :=
  fun s => Coarse.refl s

theorem follows_get : Follows R (get : Analysis AnalysisState) := fun s => Coarse.refl s

theorem follows_ofExcept (x : Except AnalysisError α) : Follows R (ofExcept x) := by
  cases x with
  | ok a => exact follows_pure a
  | error e => exact follows_throw e

/-- A change of what is noted beside the tree, but for names. -/
theorem follows_modify {f : AnalysisState → AnalysisState} (hsolver : ∀ s, (f s).solver = s.solver)
    (hscopes : ∀ s, (f s).scopes = s.scopes) (hreferences : ∀ s, (f s).references = s.references) :
    Follows R (modify f : Analysis PUnit) := by
  intro s
  refine Coarse.of_kept ⟨⟨?_, hscopes s⟩, hreferences s⟩
  show s.solver.Grown (f s).solver
  rw [hsolver]
  exact .refl

theorem follows_freshVar : Follows R freshVar :=
  fun _ => Coarse.of_kept ⟨⟨.fresh .refl, rfl⟩, rfl⟩

theorem follows_constrain (c : Constraint) : Follows R (constrain c) :=
  fun _ => Coarse.of_kept ⟨⟨.add c .refl, rfl⟩, rfl⟩

theorem follows_innermostScope : Follows R innermostScope :=
  follows_get.last

end

theorem keptOuter_modifyScope (f : Scope → Scope) : Follows KeptOuter (modifyScope f) := by
  intro s
  refine ⟨.refl, Array.size_modify, ?_⟩
  show (s.scopes.modify s.scopes.innermost f).pop = s.scopes.pop
  apply Array.ext
  · simp
  · intro i h₁ h₂
    -- The innermost scope is the last one, which is left out here.
    have hi : s.scopes.innermost ≠ i := by
      simp only [Array.size_pop, Array.size_modify] at h₁
      unfold Scopes.innermost
      omega
    simp [Array.getElem_modify, hi]

/-- A run in a new scope that succeeds ends without that scope, which is given back. -/
theorem inScope_eq_ok {scope : Scope} {r : α × Scope} (h : inScope scope step s = .ok r s') :
    ∃ t, step { s with scopes := s.scopes.push scope } = .ok r.1 t ∧ r = (r.1, t.inner) ∧
      s' = { t with scopes := t.scopes.pop } := by
  unfold Analysis.inScope at h
  split at h
  next a t hstep =>
    cases h
    exact ⟨t, hstep, rfl, rfl⟩
  next => cases h

/-- An isolated run that succeeds ends in the scopes it was started in. -/
theorem isolated_eq_ok {a : α} (h : isolated step s = .ok a s') :
    ∃ t, step { s with scopes := #[] } = .ok a t ∧ s' = { t with scopes := s.scopes } := by
  unfold Analysis.isolated at h
  split at h
  next b t hstep =>
    cases h
    exact ⟨t, hstep, rfl⟩
  next => cases h

/-- A result that may be an error, and is none. -/
theorem ofExcept_eq_ok {x : Except AnalysisError α} {a : α} (h : ofExcept x s = .ok a s') :
    x = .ok a ∧ s' = s := by
  cases x with
  | error e => cases h
  | ok b =>
    cases h
    exact ⟨rfl, rfl⟩

theorem bindColumn_eq_ok {e : Expr} {ref : ColumnRef} {v : TypeVar}
    (h : bindColumn e ref s = .ok v s') :
    ∃ r, s.scopes.resolve ref = .ok r ∧ v = r.var ∧
      s' = { s with references := (e.id, r) :: s.references } := by
  replace h := of_get h
  obtain ⟨r, _, hr, hrest⟩ := bind_eq_ok.1 h
  obtain ⟨hresolve, rfl⟩ := ofExcept_eq_ok hr
  cases hrest
  exact ⟨r, hresolve, rfl, rfl⟩

theorem assignmentTarget_eq_ok {a : Assignment} {target : Target}
    (h : assignmentTarget a s = .ok target s') :
    ∃ bound, s.scopes.resolve { schema := none, table := a.table, name := a.column } =
      .ok (.column bound) ∧ target.var = bound.var ∧ s' = s := by
  replace h := of_get h
  obtain ⟨r, _, hr, hrest⟩ := bind_eq_ok.1 h
  obtain ⟨hresolve, rfl⟩ := ofExcept_eq_ok hr
  cases r with
  | label var notNull => cases hrest
  | column bound =>
    cases hrest
    exact ⟨bound, hresolve, rfl, rfl⟩

theorem selectBound_eq_ok {input : AnalysisInput} {shape shape' : SelectionShape}
    {expand : Scopes → Except AnalysisError (List BoundColumn)} {span : Span}
    (h : selectBound input shape expand span s = .ok shape' s') :
    s' = s ∧ ∃ bound, expand s.scopes = .ok bound ∧
      shape'.columns = shape.columns ++ bound.map (wildcardColumn s.inner) := by
  replace h := of_get h
  obtain ⟨bound, _, hbound, hrest⟩ := bind_eq_ok.1 h
  obtain ⟨hexpand, rfl⟩ := ofExcept_eq_ok hbound
  obtain ⟨scope, _, hscope, hend⟩ := bind_eq_ok.1 hrest
  cases hscope
  cases hend
  exact ⟨rfl, bound, hexpand, rfl⟩

/-- After a step in a new scope that scope is gone, and the rest is as the step left it. -/
theorem after_inScope (scope : Scope) (step : Analysis α) (s : AnalysisState) :
    let t := after step { s with scopes := s.scopes.push scope }
    after (inScope scope step) s = { t with scopes := t.scopes.pop } := by
  unfold after Analysis.inScope
  cases step { s with scopes := s.scopes.push scope } <;> rfl

/-- After an isolated step the scopes are back, and the rest is as the step left it. -/
theorem after_isolated (step : Analysis α) (s : AnalysisState) :
    after (isolated step) s = { after step { s with scopes := #[] } with scopes := s.scopes } := by
  unfold after Analysis.isolated
  cases step { s with scopes := #[] } <;> rfl

/-- A step in a new scope ends in the old scopes. -/
theorem Follows.inScope (scope : Scope) (h : Follows KeptOuter step) :
    Follows Kept (inScope scope step) := by
  intro s
  -- The new scope is the innermost one, so what lies around it are the old scopes.
  have hstep := h { s with scopes := s.scopes.push scope }
  rw [after_inScope]
  exact ⟨hstep.solver, hstep.outer.trans Array.pop_push⟩

/-- What a step ensures of its result, it ensures in a scope of its own. -/
theorem ensures_inScope {scope : Scope} {Q : α → Prop}
    (h : Ensures (fun _ => True) step fun a _ => Q a) :
    Ensures (fun _ => True) (inScope scope step) fun r _ => Q r.1 := by
  intro s r s' _ hrun
  obtain ⟨t, hstep, -⟩ := inScope_eq_ok hrun
  exact h trivial hstep

theorem Follows.isolated (h : Follows Kept step) : Follows Kept (isolated step) := by
  intro s
  rw [after_isolated]
  exact ⟨(h { s with scopes := #[] }).solver, rfl⟩

/-! ### The innermost scope -/

section

variable {s s' : AnalysisState}

theorem inner_eq_of_kept (h : Kept s s') : s'.inner = s.inner := by
  rw [AnalysisState.inner, h.scopes, AnalysisState.inner]

theorem inner_push (s : AnalysisState) (scope : Scope) :
    ({ s with scopes := s.scopes.push scope } : AnalysisState).inner = scope := by
  rw [AnalysisState.inner, Array.back?_push]
  rfl

section

variable (hs : 0 < s.scopes.size)

include hs

theorem back?_eq_inner : s.scopes.back? = some s.inner := by
  have hlast : s.scopes.size - 1 < s.scopes.size := by omega
  rw [AnalysisState.inner, Array.back?_eq_getElem?, Array.getElem?_eq_getElem hlast,
    Option.getD_some]

theorem modifyScope_inner {f : Scope → Scope} {u : Unit}
    (h : modifyScope f s = .ok u s') : s'.inner = f s.inner ∧ 0 < s'.scopes.size := by
  cases h
  constructor
  · have hlast : s.scopes.size - 1 < s.scopes.size := by omega
    simp only [AnalysisState.inner, Array.back?_eq_getElem?, Array.size_modify, Scopes.innermost,
      Array.getElem?_modify, Array.getElem?_eq_getElem hlast, if_true, Option.map_some,
      Option.getD_some]
  · simpa using hs

theorem pushSource_inner {source : Source} {index : Nat}
    (h : pushSource source s = .ok index s') :
    index = s.inner.sources.length ∧
      s'.inner = { s.inner with sources := s.inner.sources ++ [source] } ∧ 0 < s'.scopes.size := by
  obtain ⟨scope, t, hscope, h⟩ := bind_eq_ok.mp h
  obtain ⟨rfl, rfl⟩ : scope = s.inner ∧ t = s := by cases hscope; exact ⟨rfl, rfl⟩
  obtain ⟨_, u, hpush, h⟩ := bind_eq_ok.mp h
  cases h
  exact ⟨rfl, modifyScope_inner hs hpush⟩

theorem noteClause_inner {input : AnalysisInput} {tables : List TableRef} {u : Unit}
    (h : noteClause input tables s = .ok u s') :
    s'.inner.sources = s.inner.sources ∧ s'.inner.proven = s.inner.proven ∧ 0 < s'.scopes.size := by
  unfold noteClause at h
  cases htext : clauseText input tables with
  | none =>
    rw [htext] at h
    cases h
    exact ⟨rfl, rfl, hs⟩
  | some text =>
    rw [htext] at h
    obtain ⟨hinner, hs'⟩ := modifyScope_inner hs h
    exact ⟨by rw [hinner], by rw [hinner], hs'⟩

/-- What predicates prove is noted in the innermost scope; names keep what they stand for. -/
theorem noteProven_inner {predicates : List Expr} {u : Unit}
    (h : noteProven predicates s = .ok u s') :
    s'.inner.sources = s.inner.sources ∧
      s'.inner.proven = s.inner.proven ++ s.provenColumns predicates ∧
      ∀ e, s'.localColumn? e = s.localColumn? e := by
  have hmodify : modifyScope (fun scope =>
      { scope with proven := scope.proven ++ s.provenColumns predicates }) s = .ok u s' := h
  obtain ⟨hinner, -⟩ := modifyScope_inner hs hmodify
  refine ⟨by rw [hinner], by rw [hinner], fun e => ?_⟩
  cases h
  simp only [AnalysisState.localColumn?, AnalysisState.reference?, Scopes.innermost,
    Array.size_modify]
  rfl

end

end

/-! ### Rules -/

section

variable {R : AnalysisState → AnalysisState → Prop} [Coarse R]

theorem follows_varOf (e : Expr) : Follows R (varOf e) := by
  refine follows_get.bind fun s => ?_
  split
  · exact follows_pure _
  · exact follows_freshVar.bind fun _ =>
      Follows.bind (follows_modify (fun _ => rfl) (fun _ => rfl) fun _ => rfl) fun _ =>
        follows_pure _

theorem follows_fixed (e : Expr) (type : SqlType) : Follows R (fixed e type) :=
  (follows_varOf e).bind fun _ => (follows_constrain _).last

theorem follows_widened (e : Expr) (args : List TypeVar) : Follows R (widened e args) :=
  (follows_varOf e).bind fun _ => (follows_constrain _).last

theorem follows_askResolver (input : AnalysisInput) (e : Expr) (var : TypeVar) :
    Follows R (askResolver input e var) := by
  unfold askResolver
  split
  · exact follows_constrain _
  · refine follows_get.bind fun s => ?_
    refine Follows.bind (follows_modify (fun _ => rfl) (fun _ => rfl) fun _ => rfl) fun _ => ?_
    split
    · refine (follows_constrain _).bind fun _ => ?_
      split
      · exact follows_modify (fun _ => rfl) (fun _ => rfl) fun _ => rfl
      · exact follows_pure _
    · exact follows_constrain _

variable {vars : List TypeVar} {e : Expr}

theorem Speaks.follows {step step' : Analysis Unit} (h : Speaks id vars step step') :
    Follows R step := by
  induction h with
  | done => exact follows_pure ()
  | expect | equate => exact follows_constrain _
  | note => exact follows_modify (fun _ => rfl) (fun _ => rfl) fun _ => rfl
  | bind _ _ ih ihNext => exact ih.bind fun _ => ihNext

theorem Settling.follows {input : AnalysisInput} {var : TypeVar} {step step' : Analysis TypeVar}
    (h : Settling id vars input e var step step') : Follows R step := by
  induction h with
  | fix | derive | widen => exact (follows_constrain _).last
  | ask => exact (follows_askResolver input e var).last
  | after hspeaks _ ih => exact hspeaks.follows.bind fun _ => ih

theorem IsRule.follows (input : AnalysisInput) {step step' : Analysis TypeVar}
    (h : IsRule id vars input e step step') : Follows R step := by
  cases h with
  | intro h => exact (follows_varOf e).bind fun var => (h var).follows

theorem follows_addColumns : ∀ columns : List Column, Follows R (addColumns columns)
  | [] => follows_pure []
  | _ :: rest => follows_freshVar.bind fun _ => (follows_constrain _).bind fun _ =>
    (follows_addColumns rest).last

theorem follows_tableSource (input : AnalysisInput) (schema : Option String) (name : String)
    (label : Option String) : Follows R (tableSource input schema name label) := by
  unfold tableSource
  split
  · exact follows_throw _
  · exact (follows_addColumns _).last

theorem follows_selectBound (input : AnalysisInput) (shape : SelectionShape)
    (expand : Scopes → Except AnalysisError (List BoundColumn)) (span : Span) :
    Follows R (selectBound input shape expand span) :=
  follows_get.bind fun _ => (follows_ofExcept _).bind fun _ => follows_innermostScope.last

theorem follows_mergeColumn (column : ShapeColumn) (others : List ShapeColumn) :
    Follows R (mergeColumn column others) :=
  follows_freshVar.bind fun _ => (follows_constrain _).last

theorem follows_mergeColumns (branches : List (List ShapeColumn)) :
    ∀ (position : Nat) (columns : List ShapeColumn),
      Follows R (mergeColumns branches position columns)
  | _, [] => follows_pure []
  | position, column :: rest => (follows_mergeColumn column _).bind fun _ =>
    (follows_mergeColumns branches (position + 1) rest).last

theorem follows_unionColumns (first : List ShapeColumn) (branches : List SpecShape) :
    Follows R (unionColumns first branches) := by
  unfold unionColumns
  split
  · exact follows_pure _
  · exact follows_mergeColumns _ _ _

end

theorem follows_bindColumn (e : Expr) (column : ColumnRef) : Follows Kept (bindColumn e column) :=
  follows_get.bind fun _ => (follows_ofExcept _).bind fun _ =>
    Follows.bind (fun _ => ⟨.refl, rfl⟩) fun _ => follows_pure _

/-! ### Steps inside of a specification -/

/-- A relation that also holds if the innermost scope is changed. -/
class CoarseInside (R : AnalysisState → AnalysisState → Prop) : Prop extends Coarse R where
  modifyScope : ∀ f : Scope → Scope, Follows R (modifyScope f)

instance : CoarseInside KeptOuter := ⟨keptOuter_modifyScope⟩

section

variable {Inside : AnalysisState → AnalysisState → Prop} [CoarseInside Inside]

theorem follows_modifyScope (f : Scope → Scope) : Follows Inside (modifyScope f) :=
  CoarseInside.modifyScope f

theorem follows_noteProven (predicates : List Expr) : Follows Inside (noteProven predicates) :=
  fun s => follows_modifyScope
    (fun scope => { scope with proven := scope.proven ++ s.provenColumns predicates }) s

theorem follows_pushSource (source : Source) : Follows Inside (pushSource source) :=
  follows_innermostScope.bind fun _ => (follows_modifyScope _).last

theorem follows_noteClause (input : AnalysisInput) (tables : List TableRef) :
    Follows Inside (noteClause input tables) := by
  unfold noteClause
  split
  · exact follows_modifyScope _
  · exact follows_pure ()

theorem follows_shareColumns (joined : Nat) :
    ∀ columns : List String, Follows Inside (shareColumns joined columns)
  | [] => follows_pure ()
  | _ :: rest => by
    refine follows_innermostScope.bind fun scope => ?_
    split
    · exact (follows_modifyScope _).bind fun _ => follows_shareColumns joined rest
    · exact follows_throw _

theorem follows_selectExpr (input : AnalysisInput) (shape : SelectionShape) (value : Expr)
    (var : TypeVar) (label : Option String) (span : Span) :
    Follows Inside (selectExpr input shape value var label span) :=
  follows_get.bind fun _ => (follows_modifyScope _).last

end

/-! ### Walks -/

/-- The first relation holds of walks, and the second of what they do inside of a specification. -/
structure Surrounds (R Inside : AnalysisState → AnalysisState → Prop) : Prop where
  inside : ∀ {s s' : AnalysisState}, R s s' → Inside s s'
  inScope : ∀ {α : Type} {step : Analysis α} (scope : Scope), Follows Inside step →
    Follows R (inScope scope step)
  isolated : ∀ {α : Type} {step : Analysis α}, Follows R step → Follows R (isolated step)

/-- Looking up the column names among some nodes follows a relation. -/
def Binds (R : AnalysisState → AnalysisState → Prop) (nodes : List Expr) : Prop :=
  ∀ e ∈ nodes, ∀ ref, e.form = .column ref → Follows R (bindColumn e ref)

section

variable {R Inside : AnalysisState → AnalysisState → Prop} {nodes more : List Expr}

theorem Binds.left (h : Binds R (nodes ++ more)) : Binds R nodes :=
  fun e he => h e (List.mem_append_left _ he)

theorem Binds.right (h : Binds R (nodes ++ more)) : Binds R more :=
  fun e he => h e (List.mem_append_right _ he)

theorem Binds.tail {e : Expr} (h : Binds R (e :: nodes)) : Binds R nodes :=
  fun n hn => h n (List.mem_cons_of_mem _ hn)

namespace Surrounds

theorem weaken (h : Surrounds R Inside) (hstep : Follows R step) : Follows Inside step :=
  fun s => h.inside (hstep s)

-- each walk needs all of this, if only for the walks that it calls
set_option linter.unusedSectionVars false

variable {input : AnalysisInput} [Coarse R] [CoarseInside Inside] (h : Surrounds R Inside)

include h

mutual

theorem walk : ∀ e : Expr, Binds R e.nodes → Follows R (walk input e)
  | .node id span form, hb => walkForm id span form hb

theorem walkForm (id : Nat) (span : Span) : ∀ form : ExprForm,
    Binds R (.node id span form :: form.nodes) →
    Follows R (Analysis.walkForm input (.node id span form) form)
  | .literal value, _ => follows_fixed _ _
  | .column column, hb => hb _ List.mem_cons_self column rfl
  | .placeholder _, _ => follows_varOf _
  | .unary op operand, hb => (walk operand hb.tail).bind fun _ =>
    (isRule_unaryRule op (List.Subset.refl _)).follows input
  | .binary op left right, hb => by
    refine (walk left hb.tail.left).bind fun _ => (walk right hb.tail.right).bind fun _ => ?_
    split
    · exact (isRule_shiftRule _ (List.Subset.refl _)).follows input
    · exact (isRule_binaryRule op (List.Subset.refl _)).follows input
  | .isNull operand _, hb => (walk operand hb.tail).bind fun _ =>
    (@speaks_markNullableExpr _ [] operand).follows.bind fun _ => follows_fixed _ _
  | .isTruth operand _ _, hb => (walk operand hb.tail).bind fun _ => follows_fixed _ _
  | .inList operand list _, hb => by
    refine (walk operand hb.tail.left).bind fun var =>
      (walkElements var list hb.tail.right).bind fun _ => ?_
    dsimp only
    split
    · exact (@speaks_markList _ [] _).follows.bind fun _ => follows_fixed _ _
    · exact follows_fixed _ _
  | .inQuery operand query _, hb => (walk operand hb.tail.left).bind fun _ =>
    (walkQuery query hb.tail.right).bind fun _ =>
      (speaks_equateAll List.mem_cons_self (List.subset_cons_self _ _)).follows.bind fun _ =>
        follows_fixed _ _
  | .between operand low high _, hb => (walk operand hb.tail.left.left).bind fun _ =>
    (walk low hb.tail.left.right).bind fun _ => (walk high hb.tail.right).bind fun _ =>
      (speaks_equateAll List.mem_cons_self (List.subset_cons_self _ _)).follows.bind fun _ =>
        follows_fixed _ _
  | .like operand pattern escape _, hb => (walk operand hb.tail.left.left).bind fun _ =>
    (walk pattern hb.tail.left.right).bind fun _ =>
      (speaks_expectAll _ (List.Subset.refl _)).follows.bind fun _ =>
      (walkOption escape hb.tail.right).bind fun _ =>
        (speaks_expectAll _ (List.Subset.refl _)).follows.bind fun _ => follows_fixed _ _
  | .choice operand branches otherwise, hb =>
    (walkOption operand hb.tail.left.left).bind fun value =>
      (walkBranches value branches hb.tail.left.right).bind fun _ =>
        (walkOption otherwise hb.tail.right).bind fun _ => follows_widened _ _
  | .call name args _ _ _, hb => (walkList args hb.tail.left).bind fun _ =>
    (isRule_callRule name _ (List.Subset.refl _)).follows input
  | .cast operand target, hb => (walk operand hb.tail).bind fun _ => follows_fixed _ target
  | .interval operand _, hb => (walk operand hb.tail).bind fun _ =>
    (follows_constrain _).bind fun _ => follows_fixed _ _
  | .existence query, hb => (walkQuery query hb.tail).bind fun _ => follows_fixed _ _
  | .subquery query, hb => (walkQuery query hb.tail).bind fun _ => follows_widened _ _

theorem walkList : ∀ es : List Expr, Binds R (Expr.nodesList es) →
    Follows R (Analysis.walkList input es)
  | [], _ => follows_pure []
  | e :: rest, hb => (walk e hb.left).bind fun _ => (walkList rest hb.right).last

theorem walkOption : ∀ e : Option Expr, Binds R (Expr.nodesOption e) →
    Follows R (Analysis.walkOption input e)
  | none, _ => follows_pure none
  | some e, hb => (walk e hb).last

theorem walkElements (value : TypeVar) : ∀ es : List Expr, Binds R (Expr.nodesList es) →
    Follows R (Analysis.walkElements input value es)
  | [], _ => follows_pure ()
  | e :: rest, hb => (walk e hb.left).bind fun _ =>
    (follows_constrain _).bind fun _ => walkElements value rest hb.right

theorem walkBranches (value : Option TypeVar) : ∀ branches : List Branch,
    Binds R (Branch.nodesList branches) → Follows R (Analysis.walkBranches input value branches)
  | [], _ => follows_pure []
  | ⟨condition, result⟩ :: rest, hb => by
    refine (walk condition hb.left.left).bind fun var => ?_
    have hrest : Follows R (do
        let resultVar ← Analysis.walk input result
        let vars ← Analysis.walkBranches input value rest
        pure (resultVar :: vars)) :=
      (walk result hb.left.right).bind fun _ => (walkBranches value rest hb.right).last
    cases value with
    | some value => exact (follows_constrain _).bind fun _ => hrest
    | none => exact hrest

theorem walkQuery : ∀ q : Query, Binds R q.nodes → Follows R (Analysis.walkQuery input q)
  | ⟨specs, _, orderBy, limit, _⟩, hb => by
    refine (walkSpecs specs hb.left.left).bind fun shapes => ?_
    cases shapes with
    | nil => exact follows_throw _
    | cons first branches =>
      exact (follows_unionColumns _ _).bind fun _ =>
        (h.inScope _ (h.weaken (walkSortKeys orderBy hb.left.right))).bind fun _ =>
          (walkLimit limit hb.right).last

theorem walkSpecs : ∀ specs : List QuerySpec, Binds R (QuerySpec.nodesList specs) →
    Follows R (Analysis.walkSpecs input specs)
  | [], _ => follows_pure []
  | ⟨_, items, tables, filter, groupBy, having, _⟩ :: rest, hb => by
    refine Follows.bind (h.inScope {} ?_) fun _ => (walkSpecs rest hb.right).last
    refine (follows_noteClause input tables).bind fun _ => ?_
    refine (walkTables {} tables hb.left.left.left.left.right).bind fun joined => ?_
    refine (h.weaken (walkOption filter hb.left.left.left.right)).bind fun _ => ?_
    refine (follows_noteProven _).bind fun _ => ?_
    refine (walkItems {} items hb.left.left.left.left.left).bind fun selected => ?_
    refine (follows_modifyScope _).bind fun _ => ?_
    refine (h.weaken (walkList groupBy hb.left.left.right)).bind fun _ => ?_
    refine (h.weaken (walkOption having hb.left.right)).bind fun _ => ?_
    exact follows_get.last

theorem walkItems (shape : SelectionShape) : ∀ items : List SelectItem,
    Binds R (SelectItem.nodesList items) → Follows Inside (Analysis.walkItems input shape items)
  | [], _ => follows_pure shape
  | .all _ :: rest, hb => (follows_selectBound _ _ _ _).bind fun shape => walkItems shape rest hb
  | .allOf _ _ :: rest, hb => (follows_selectBound _ _ _ _).bind fun shape =>
    walkItems shape rest hb
  | .expr value _ _ :: rest, hb => (h.weaken (walk value hb.left)).bind fun _ =>
    (follows_selectExpr _ _ _ _ _ _).bind fun shape => walkItems shape rest hb.right

theorem walkTables (shape : TablesShape) : ∀ tables : List TableRef,
    Binds R (TableRef.nodesList tables) → Follows Inside (Analysis.walkTables input shape tables)
  | [], _ => follows_pure shape
  | ⟨factor, joins, _⟩ :: rest, hb => (h.weaken (walkFactor factor hb.left.left)).bind fun _ =>
    (follows_pushSource _).bind fun first =>
      (walkJoins first _ _ joins hb.left.right).bind fun shape =>
        walkTables shape rest hb.right

theorem walkJoins (first kept : Nat) (shape : TablesShape) : ∀ joins : List Join,
    Binds R (Join.nodesList joins) →
    Follows Inside (Analysis.walkJoins input first kept shape joins)
  | [], _ => follows_pure shape
  | ⟨kind, factor, constraint, _⟩ :: rest, hb =>
    (h.weaken (walkFactor factor hb.left.left)).bind fun _ =>
      (follows_pushSource _).bind fun joined => (follows_modifyScope _).bind fun _ =>
        (walkConstraint kind joined _ constraint hb.left.right).bind fun shape =>
          walkJoins first kept shape rest hb.right

theorem walkConstraint (kind : JoinKind) (joined : Nat) (shape : TablesShape) :
    ∀ constraint : JoinConstraint, Binds R constraint.nodes →
      Follows Inside (Analysis.walkConstraint input kind joined shape constraint)
  | .on condition, hb => (h.weaken (walk condition hb)).last
  | .shared columns, _ => (follows_shareColumns joined columns).last
  | .none, _ => follows_pure shape

theorem walkFactor : ∀ factor : TableFactor, Binds R factor.nodes →
    Follows R (Analysis.walkFactor input factor)
  | .table schema name label _, _ => follows_tableSource input schema name label
  | .derived query _ _, hb => (h.isolated (walkQuery query hb)).last

theorem walkSortKeys : ∀ keys : List SortKey, Binds R (SortKey.nodesList keys) →
    Follows R (Analysis.walkSortKeys input keys)
  | [], _ => follows_pure ()
  | ⟨expr, _⟩ :: rest, hb => (walk expr hb.left).bind fun _ => walkSortKeys rest hb.right

theorem walkLimit : ∀ limit : Option Limit, Binds R (Limit.nodesOption limit) →
    Follows R (Analysis.walkLimit input limit)
  | none, _ => follows_pure ()
  | some ⟨count, offset⟩, hb => (walk count hb.left).bind fun _ =>
    (follows_constrain _).bind fun _ =>
      (walkOption offset hb.right).bind fun _ => (speaks_expectAll _ (List.Subset.refl _)).follows

end

end Surrounds

end

/-! ### Specifications -/

/-- The walk over the tables and the filter of a specification. -/
def walkSources (input : AnalysisInput) (tables : List TableRef) (filter : Option Expr) :
    Analysis TablesShape := do
  noteClause input tables
  let joined ← walkTables input {} tables
  let _ ← walkOption input filter
  noteProven (joined.predicates ++ filter.toList)
  return joined

/-- The walk over a specification starts with its tables and its filter, in a scope of its own. -/
theorem walkSpecs_cons (input : AnalysisInput) (distinct : Bool) (items : List SelectItem)
    (tables : List TableRef) (filter : Option Expr) (groupBy : List Expr) (having : Option Expr)
    (span : Span) (rest : List QuerySpec) :
    walkSpecs input (⟨distinct, items, tables, filter, groupBy, having, span⟩ :: rest) = do
      let ((columns, layout, singleRow), scope) ← inScope {} do
        let joined ← walkSources input tables filter
        let selected ← walkItems input {} items
        modifyScope fun scope => { scope with allowAliases := true }
        let _ ← walkList input groupBy
        let _ ← walkOption input having
        let s ← get
        return (selected.columns, s.layout input.text joined selected.items filter,
          s.singleRow input.catalog items tables filter groupBy)
      let shapes ← walkSpecs input rest
      return { columns, layout, scope, singleRow } :: shapes := by
  simp only [walkSources, bind_assoc, pure_bind]
  rw [walkSpecs]

/-! ### Scopes are put back -/

theorem surrounds_kept : Surrounds Kept KeptOuter :=
  ⟨Kept.toOuter, fun scope h => h.inScope scope, Follows.isolated⟩

theorem binds_kept (nodes : List Expr) : Binds Kept nodes :=
  fun e _ ref _ => follows_bindColumn e ref

variable (input : AnalysisInput)

/-- The walk over an expression puts back the scopes. -/
theorem follows_walk (e : Expr) : Follows Kept (walk input e) :=
  surrounds_kept.walk e (binds_kept _)

theorem follows_walkList (es : List Expr) : Follows Kept (walkList input es) :=
  surrounds_kept.walkList es (binds_kept _)

theorem follows_walkOption (e : Option Expr) : Follows Kept (walkOption input e) :=
  surrounds_kept.walkOption e (binds_kept _)

/-- The walk over a query puts back the scopes. -/
theorem follows_walkQuery (q : Query) : Follows Kept (walkQuery input q) :=
  surrounds_kept.walkQuery q (binds_kept _)

theorem follows_walkSpecs (specs : List QuerySpec) : Follows Kept (walkSpecs input specs) :=
  surrounds_kept.walkSpecs specs (binds_kept _)

theorem follows_walkItems (shape : SelectionShape) (items : List SelectItem) :
    Follows KeptOuter (walkItems input shape items) :=
  surrounds_kept.walkItems shape items (binds_kept _)

theorem follows_walkTables (shape : TablesShape) (tables : List TableRef) :
    Follows KeptOuter (walkTables input shape tables) :=
  surrounds_kept.walkTables shape tables (binds_kept _)

theorem follows_walkFactor (factor : TableFactor) : Follows Kept (walkFactor input factor) :=
  surrounds_kept.walkFactor factor (binds_kept _)

/-- **Scopes are put back.** Whatever the state is, the walk over an expression and the walk over a
query end in the scopes that they were started in, whether they succeed or fail. -/
theorem scopes_restored (s : AnalysisState) :
    (∀ e, (after (walk input e) s).scopes = s.scopes) ∧
      ∀ q, (after (walkQuery input q) s).scopes = s.scopes :=
  ⟨fun e => (follows_walk input e s).scopes, fun q => (follows_walkQuery input q s).scopes⟩

/-! ### Modifications -/

theorem follows_assignValue (target : Target) (value : Expr) :
    Follows Kept (assignValue input target value) := by
  refine (follows_walk input value).bind fun var => ?_
  dsimp only
  split
  · exact (follows_constrain _).last
  · have hslots : Follows Kept (do
        let s ← get
        pure { parameters := value.ordinals.map (parameterSlot s) } : Analysis Slots) :=
      follows_get.last
    refine (follows_constrain _).bind fun _ => ?_
    split
    · exact hslots
    · exact (@speaks_markNullableOrdinals _ [] _).follows.bind fun _ => hslots

theorem follows_assignRow :
    ∀ (targets : List Target) (values : List Expr), Follows Kept (assignRow input targets values)
  | [], _ => follows_pure _
  | _ :: _, [] => follows_pure _
  | target :: targets, value :: values => (follows_assignValue input target value).bind fun _ =>
    (follows_assignRow targets values).last

theorem follows_assignRows (targets : List Target) :
    ∀ rows : List (List Expr), Follows Kept (assignRows input targets rows)
  | [] => follows_pure _
  | row :: rest => (follows_assignRow input targets row).bind fun _ =>
    (follows_assignRows targets rest).last

theorem follows_assignmentTarget (a : Assignment) : Follows Kept (assignmentTarget a) := by
  refine follows_get.bind fun s => (follows_ofExcept _).bind fun reference => ?_
  cases reference with
  | column bound => exact follows_pure _
  | label var notNull => exact follows_throw _

theorem follows_assignColumns :
    ∀ (targets : List Target) (columns : List ShapeColumn),
      Follows Kept (assignColumns targets columns)
  | [], _ => follows_pure _
  | _ :: _, [] => follows_pure _
  | target :: targets, column :: columns => by
    have hrest := follows_assignColumns targets columns
    refine (follows_constrain _).bind fun _ => ?_
    dsimp only
    split
    · exact hrest
    · split
      · exact (@speaks_markNullableExpr _ [] _).follows.bind fun _ => hrest
      · exact hrest

theorem follows_assignSource (targets : List Target) :
    ∀ source : InsertSource, Follows Kept (assignSource input targets source)
  | .values rows => follows_assignRows input targets rows
  | .query query => (follows_walkQuery input query).isolated.bind fun _ =>
    (follows_assignColumns _ _).bind fun _ => follows_get.last

theorem follows_assignDuplicates :
    ∀ assignments : List Assignment, Follows Kept (assignDuplicates input assignments)
  | [] => follows_pure _
  | a :: rest => (follows_assignmentTarget a).bind fun _ =>
    (follows_assignValue input _ _).bind fun _ => (follows_assignDuplicates rest).last

theorem follows_walkInsertion (insertion : Insertion) :
    Follows Kept (walkInsertion input insertion) := by
  refine Follows.bind (Follows.inScope {} ?_) fun _ => follows_pure _
  refine (follows_tableSource input _ _ _).toOuter.bind fun source => ?_
  refine (follows_pushSource source).bind fun _ => ?_
  refine (follows_ofExcept _).toOuter.bind fun targets => ?_
  refine (follows_assignSource input targets _).toOuter.bind fun _ => ?_
  exact (follows_assignDuplicates input _).toOuter.bind fun _ => (follows_pure _).toOuter

theorem follows_updateColumn (a : Assignment) : Follows Kept (updateColumn input a) := by
  refine (follows_assignmentTarget a).bind fun target => ?_
  split
  · exact follows_assignValue input target a.value
  · exact (follows_walk input _).bind fun _ => (follows_constrain _).bind fun _ => follows_get.last

theorem follows_updateColumns :
    ∀ assignments : List Assignment, Follows Kept (updateColumns input assignments)
  | [] => follows_pure _
  | a :: rest => (follows_updateColumn input a).bind fun _ => (follows_updateColumns rest).last

theorem follows_walkFilter (filter : Option Expr) : Follows Kept (walkFilter input filter) := by
  cases filter with
  | none => exact follows_pure _
  | some filter =>
    exact (follows_walk input filter).bind fun _ => follows_get.last

theorem follows_walkUpdate (update : Update) : Follows Kept (walkUpdate input update) := by
  refine Follows.bind (Follows.inScope {} ?_) fun _ => follows_pure _
  refine (follows_noteClause input _).bind fun _ => ?_
  refine (follows_walkTables input {} _).bind fun _ => ?_
  refine (follows_updateColumns input _).toOuter.bind fun _ => ?_
  exact (follows_walkFilter input _).toOuter.bind fun _ => (follows_pure _).toOuter

theorem follows_walkDeletion (deletion : Deletion) :
    Follows Kept (walkDeletion input deletion) := by
  refine Follows.bind (Follows.inScope {} ?_) fun _ => follows_pure _
  refine Follows.bind ?_ fun _ => (follows_walkFilter input _).toOuter
  exact (follows_tableSource input _ _ _).toOuter.bind fun _ => follows_pushSource _

end Analysis

end SqlSignature
