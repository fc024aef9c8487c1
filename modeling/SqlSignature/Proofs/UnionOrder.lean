import Mathlib.Data.List.Perm.Basic
import SqlSignature.Proofs.DerivedTable
import SqlSignature.Proofs.PlacedWalk
import SqlSignature.Proofs.TypeEvaluation
import SqlSignature.Proofs.TypePromotion
/-!
# SqlSignature.Proofs.UnionOrder

The branches of a union may come in any order. Each is walked behind those before it, so its
constraints are those that it has by itself with moved variables (`Analysis.Stacked`), and without
bound values no type gets from one branch to another: a branch has the types in the union that it
has alone. A column of the union then has the least type that holds those of the branches, in
whatever order they come (`combineTypes_perm`), and it is not null if it is in none of them.
-/

open List

namespace SqlSignature

open Constraint

/-! ### Types of moved constraints -/

namespace Constraint

variable {types : TypeVar → Option SqlType} {f : TypeVar → TypeVar}

theorem given?_rename (c : Constraint) : (c.rename f).given? = c.given?.map f := by
  cases c <;> rfl

theorem vars_rename (c : Constraint) : (c.rename f).vars = c.vars.map f := by
  cases c <;> rfl

theorem giving_rename (c : Constraint) : (c.rename f).giving types = c.giving (types ∘ f) := by
  cases c with
  | derive target rule args =>
    show rule.apply ((args.map f).map types) = _
    rw [map_map]
    rfl
  | widen target args =>
    show combineTypes SqlType.promote ((args.map f).filterMap types) = _
    rw [filterMap_map]
    rfl
  | fix | equal | expect | hint => rfl

theorem assign_rename (hf : Function.Injective f) (c : Constraint) :
    assign types (c.rename f) ∘ f = assign (types ∘ f) c := by
  unfold assign
  rw [given?_rename, giving_rename]
  cases c.given? with
  | none => rfl
  | some t => exact Function.update_comp_eq_of_injective types hf t _

/-- Moved constraints give to moved variables what the constraints give. -/
theorem evaluate_map_rename (hf : Function.Injective f) (cs : List Constraint) :
    evaluate types (cs.map (·.rename f)) ∘ f = evaluate (types ∘ f) cs := by
  induction cs generalizing types with
  | nil => rfl
  | cons c rest ih =>
    show evaluate (assign types (c.rename f)) (rest.map (·.rename f)) ∘ f = _
    rw [ih, assign_rename hf]
    rfl

end Constraint

namespace Solver

open TypeVars (evaluated)

theorem shift_injective (base : Solver) : Function.Injective base.shift := by
  intro v w h
  have hindex : base.vars.size + v.index = base.vars.size + w.index := congrArg TypeVar.index h
  cases v
  cases w
  exact congrArg TypeVar.mk (Nat.add_left_cancel hindex)

/-- The constraints speak of variables that are there. -/
def Bounded (s : Solver) : Prop :=
  ∀ c ∈ s.constraints.toList, ∀ v ∈ c.vars, v.index < s.vars.size

/-- A solver stands behind another one: it has its constraints, and then some that give types to
new variables only. -/
structure Behind (base s : Solver) : Prop where
  size : base.vars.size ≤ s.vars.size
  constraints : ∃ more, s.constraints.toList = base.constraints.toList ++ more ∧
    ∀ c ∈ more, ∀ t, c.given? = some t → base.vars.size ≤ t.index

theorem Behind.refl (s : Solver) : Behind s s :=
  ⟨Nat.le_refl _, [], (append_nil _).symm, nofun⟩

theorem Behind.trans {base s t : Solver} (h : Behind base s) (h' : Behind s t) :
    Behind base t := by
  obtain ⟨more, hs, hmore⟩ := h.constraints
  obtain ⟨others, ht, hothers⟩ := h'.constraints
  refine ⟨h.size.trans h'.size, more ++ others, by rw [ht, hs, append_assoc], ?_⟩
  intro c hc v hv
  rcases mem_append.1 hc with hc | hc
  · exact hmore c hc v hv
  · exact h.size.trans (hothers c hc v hv)

theorem Behind.mem {base s : Solver} (h : Behind base s) {c : Constraint}
    (hc : c ∈ base.constraints.toList) : c ∈ s.constraints.toList := by
  obtain ⟨more, hs, -⟩ := h.constraints
  rw [hs]
  exact mem_append_left _ hc

/-- The old variables keep their types. -/
theorem Behind.evaluated_eq {base s : Solver} (h : Behind base s) {v : TypeVar}
    (hv : v.index < base.vars.size) :
    evaluated s.constraints.toList v = evaluated base.constraints.toList v := by
  obtain ⟨more, hs, hmore⟩ := h.constraints
  rw [hs]
  show Constraint.evaluate _ _ v = _
  rw [evaluate_append, evaluate_of_ne]
  exact fun c hc ht => Nat.not_lt.2 (hmore c hc v ht) hv

/-- The variables of a solver with those of another one moved behind them. -/
structure Joined (base alone s : Solver) : Prop where
  size : s.vars.size = base.vars.size + alone.vars.size
  constraints : s.constraints.toList = base.constraints.toList ++
    alone.constraints.toList.map (·.rename base.shift)

variable {base alone s : Solver}

theorem Joined.bounded (h : Joined base alone s) (hbase : base.Bounded) (halone : alone.Bounded) :
    s.Bounded := by
  intro c hc v hv
  rw [h.constraints] at hc
  rw [h.size]
  rcases mem_append.1 hc with hc | hc
  · exact Nat.lt_add_right _ (hbase c hc v hv)
  · obtain ⟨d, hd, rfl⟩ := mem_map.1 hc
    rw [vars_rename] at hv
    obtain ⟨w, hw, rfl⟩ := mem_map.1 hv
    exact Nat.add_lt_add_left (halone d hd w hw) _

theorem Joined.behind (h : Joined base alone s) : Behind base s := by
  refine ⟨h.size ▸ Nat.le_add_right _ _, _, h.constraints, fun c hc t ht => ?_⟩
  obtain ⟨d, -, rfl⟩ := mem_map.1 hc
  rw [given?_rename, Option.map_eq_some_iff] at ht
  obtain ⟨w, -, rfl⟩ := ht
  exact Nat.le_add_right _ _

/-- The moved variables have the types that they have alone. -/
theorem Joined.evaluated_shift (h : Joined base alone s) (hbase : base.Bounded) (v : TypeVar) :
    evaluated s.constraints.toList (base.shift v) = evaluated alone.constraints.toList v := by
  have hnone : evaluated base.constraints.toList ∘ base.shift = fun _ => none := by
    funext w
    refine evaluate_of_ne fun c hc ht => ?_
    exact Nat.not_lt.2 (Nat.le_add_right _ _) (hbase c hc _ (given_mem_vars ht))
  rw [h.constraints]
  show Constraint.evaluate _ _ _ = _
  rw [evaluate_append]
  show (Constraint.evaluate (evaluated base.constraints.toList) _ ∘ base.shift) v = _
  rw [evaluate_map_rename base.shift_injective, hnone]

end Solver

/-! ### Branches -/

namespace Analysis

open TypeVars (evaluated)

variable {input : AnalysisInput}

/-- The types and the flags of columns. -/
def factsOf (cs : List Constraint) (columns : List ShapeColumn) : List (Option SqlType × Bool) :=
  columns.map fun c => (evaluated cs c.var, c.notNull)

/-- What a walk over one specification finds, and the state that it ends in. -/
abbrev Alone := SpecShape × AnalysisState

/-- The types and the flags that a specification has by itself. -/
def Alone.row (a : Alone) : List (Option SqlType × Bool) :=
  factsOf a.2.solver.constraints.toList a.1.columns

/-- The walk over a specification by itself. -/
def WalksAlone (input : AnalysisInput) (spec : QuerySpec) (a : Alone) : Prop :=
  walkSpecs input [spec] (.initial input 0) = .ok [a.1] a.2

/-- The constraints and the columns of a specification speak of variables that are there. -/
structure Alone.Sound (a : Alone) : Prop where
  bounded : a.2.solver.Bounded
  columns : ∀ c ∈ a.1.columns, c.var.index < a.2.solver.vars.size

/-- Specifications one behind the other: those that were found alone, and those that are found
from one solver to another. -/
inductive Stacked : Solver → List Alone → List SpecShape → Solver → Prop
  | nil (base : Solver) : Stacked base [] [] base
  | cons {base next last : Solver} {a : Alone} {shape : SpecShape} {rest : List Alone}
      {shapes : List SpecShape} (hcolumns : MovedColumns base a.1.columns shape.columns)
      (hjoined : Solver.Joined base a.2.solver next) (hrest : Stacked next rest shapes last) :
      Stacked base (a :: rest) (shape :: shapes) last

variable {found : List Alone} {shapes : List SpecShape} {t : AnalysisState}

theorem Stacked.behind {base last : Solver} (h : Stacked base found shapes last) :
    Solver.Behind base last := by
  induction h with
  | nil base => exact .refl base
  | cons _ hjoined _ ih => exact hjoined.behind.trans ih

/-- Behind each other, specifications have the types and the flags that they have alone. -/
theorem Stacked.rows {base last s : Solver} (h : Stacked base found shapes last)
    (hbase : base.Bounded) (hfound : ∀ a ∈ found, Alone.Sound a) (hs : Solver.Behind last s) :
    (shapes.map SpecShape.columns).map (factsOf s.constraints.toList) = found.map Alone.row := by
  induction h with
  | nil base => rfl
  | @cons base next last a shape rest shapes hcolumns hjoined hrest ih =>
    obtain ⟨ha, hrests⟩ := forall_mem_cons.1 hfound
    rw [map_cons, map_cons, map_cons,
      ih (hjoined.bounded hbase ha.bounded) hrests hs]
    refine congrArg (· :: _) ?_
    rw [hcolumns, factsOf, map_map, Alone.row, factsOf]
    refine map_congr_left fun c hc => congrArg (·, c.notNull) ?_
    have hold : (base.shift c.var).index < next.vars.size := by
      rw [hjoined.size]
      exact Nat.add_lt_add_left (ha.columns c hc) _
    exact ((hrest.behind.trans hs).evaluated_eq hold).trans (hjoined.evaluated_shift hbase c.var)

/-! ### The walk over branches -/

variable {spec : QuerySpec} {done : List Nat}

/-- The walk over specifications is the walk over the first and then the one over the others. -/
theorem walkSpecs_cons_ok {rest : List QuerySpec} {s u : AnalysisState} {others : List SpecShape}
    (h : walkSpecs input [spec] s = .ok shapes t) (hrest : walkSpecs input rest t = .ok others u) :
    walkSpecs input (spec :: rest) s = .ok (shapes ++ others) u := by
  cases spec
  rw [walkSpecs] at h ⊢
  obtain ⟨found, t', hfound, h⟩ := bind_eq_ok.1 h
  rw [walkSpecs] at h
  cases h
  exact (run_bind_ok hfound).trans (run_bind_ok hrest)

theorem exists_eq_singleton {s : AnalysisState} (h : walkSpecs input [spec] s = .ok shapes t) :
    ∃ shape, shapes = [shape] := by
  cases spec
  rw [walkSpecs] at h
  obtain ⟨found, t', -, h⟩ := bind_eq_ok.1 h
  rw [walkSpecs] at h
  cases h
  exact ⟨_, rfl⟩

theorem nodesList_eq_flatMap (specs : List QuerySpec) :
    QuerySpec.nodesList specs = specs.flatMap QuerySpec.nodes := by
  induction specs with
  | nil => rfl
  | cons spec rest ih =>
    cases spec
    rw [flatMap_cons, ← ih]
    rfl

theorem lookup_eq_none_of_keys {α : Type} {entries : List (Nat × α)} {id : Nat}
    (hkeys : ∀ entry ∈ entries, entry.1 ∈ done) (hid : id ∉ done) : entries.lookup id = none := by
  refine lookup_eq_none_iff.2 fun entry hentry => ?_
  rw [bne_iff_ne]
  exact fun heq => hid (heq ▸ hkeys entry hentry)

/-- A state at the top, without bound values, is the state before a walk over new nodes, placed
behind the constraints that it has. -/
theorem placed_top {own : Nat → Prop} (ht : Orderly ⟨input, False⟩ done [] [] t)
    (hscopes : t.scopes = #[]) (hunbound : t.parameters = #[]) (hown : ∀ id, own id → id ∉ done) :
    Placed t.solver own (.initial input 0) t where
  size := rfl
  constraints := (append_nil _).symm
  scopes := hscopes.trans Array.map_empty.symm
  references id hid := lookup_eq_none_of_keys ht.references (hown id hid)
  exprVars id hid := lookup_eq_none_of_keys ht.exprs (hown id hid)
  unbound := ⟨rfl, hunbound⟩

theorem WalksAlone.sound {a : Alone} (h : WalksAlone input spec a)
    (hnodup : ((QuerySpec.nodesList [spec]).map Expr.id).Nodup) : a.Sound := by
  have horderly := orders_walkSpecs [spec] [] [] (nil_subset _) hnodup
    (AnalysisState.orderly_initial input False 0) h
  refine ⟨horderly.vars, fun c hc => horderly.present _ (mem_flatMap.2 ?_)⟩
  exact ⟨a.1, mem_cons_self, mem_append_left _ (mem_map_of_mem hc)⟩

/-- If each of some specifications can be walked alone, then they can be walked one after the
other. -/
theorem walkSpecs_stacked (hresolver : input.resolver = none) {specs : List QuerySpec}
    (hfound : List.Forall₂ (WalksAlone input) specs found)
    (ht : Orderly ⟨input, False⟩ done [] [] t) (hscopes : t.scopes = #[])
    (hunbound : t.parameters = #[])
    (hnodup : (done ++ (QuerySpec.nodesList specs).map Expr.id).Nodup) :
    ∃ shapes t', walkSpecs input specs t = .ok shapes t' ∧
      Stacked t.solver found shapes t'.solver ∧ ∀ a ∈ found, a.Sound := by
  induction hfound generalizing done t with
  | nil => exact ⟨[], t, by rw [walkSpecs]; rfl, .nil _, nofun⟩
  | @cons spec a rest found ha _ ih =>
    rw [QuerySpec.nodesList_cons, map_append, ← append_assoc] at hnodup
    obtain ⟨hfirst, -, -⟩ := nodup_append.1 hnodup
    let own : Nat → Prop := (· ∈ (QuerySpec.nodesList [spec]).map Expr.id)
    have hown : ∀ id, own id → id ∉ done := fun id hid hdone =>
      (nodup_append.1 hfirst).2.2 id hdone id hid rfl
    obtain ⟨shapes, t', hrun, hmoved, hplaced⟩ :=
      carries_walkSpecs hresolver [spec] (fun n hn => mem_map_of_mem hn)
        (placed_top ht hscopes hunbound hown) ha
    obtain ⟨shape, _, hshape, hnil, rfl⟩ := List.forall₂_cons_left_iff.1 hmoved
    obtain rfl := List.forall₂_nil_left_iff.1 hnil
    have hafter : stateAfter (walkSpecs input [spec]) t = .ok t' := by
      rw [stateAfter, hrun]
    have hkept := (follows_walkSpecs input [spec]).of_stateAfter hafter
    have horderly := (orders_walkSpecs [spec] done [] (nil_subset _) hfirst ht hrun).restrict
      (nil_subset _)
    obtain ⟨others, t'', hrest, hstacked, hsound⟩ :=
      ih horderly (hkept.scopes.trans hscopes) hplaced.unbound.2 hnodup
    exact ⟨_, t'', walkSpecs_cons_ok hrun hrest,
      .cons hshape.columns ⟨hplaced.size, hplaced.constraints⟩ hstacked,
      forall_mem_cons.2 ⟨ha.sound (nodup_append.1 hfirst).2.1, hsound⟩⟩

/-! ### Merging columns -/

/-- The columns of branches at a position. -/
abbrev columnsAt (branches : List (List ShapeColumn)) (i : Nat) : List ShapeColumn :=
  branches.filterMap (·[i]?)

/-- A column is merged from one of the first branch and those of the others at its position. -/
structure MergedFrom (cs : List Constraint) (others : List ShapeColumn) (column m : ShapeColumn) :
    Prop where
  notNull : m.notNull = (column.notNull && others.all ShapeColumn.notNull)
  widen : .widen m.var (column.var :: others.map ShapeColumn.var) ∈ cs

theorem behind_merge (s : Solver) (args : List TypeVar) :
    Solver.Behind s ((s.fresh false).2.add (.widen (s.fresh false).1 args)) := by
  refine ⟨?_, [.widen (s.fresh false).1 args], Array.toList_push, ?_⟩
  · show s.vars.size ≤ (s.vars.fresh false).2.size
    rw [size_fresh]
    exact Nat.le_succ _
  · intro c hc t ht
    cases mem_singleton.1 hc
    cases ht
    exact Nat.le_refl _

theorem mergeColumns_ok (branches : List (List ShapeColumn)) (position : Nat)
    (columns : List ShapeColumn) (s : AnalysisState) :
    ∃ merged t, mergeColumns branches position columns s = .ok merged t ∧
      Solver.Behind s.solver t.solver ∧
      List.Forall₂ (fun (column, i) m =>
        MergedFrom t.solver.constraints.toList (columnsAt branches i) column m)
        (columns.zipIdx position) merged := by
  induction columns generalizing position s with
  | nil => exact ⟨[], s, rfl, .refl _, .nil⟩
  | cons column rest ih =>
    let others := columnsAt branches position
    let args := column.var :: others.map ShapeColumn.var
    let m : ShapeColumn :=
      { name := column.name, var := (s.solver.fresh false).1
        notNull := column.notNull && others.all ShapeColumn.notNull
        expr := none, origin := none, key := .none }
    let next : AnalysisState :=
      { s with solver := (s.solver.fresh false).2.add (.widen m.var args) }
    have hmerge : mergeColumn column others s = .ok m next := rfl
    obtain ⟨merged, t, hrun, hbehind, hmerged⟩ := ih (position + 1) next
    refine ⟨m :: merged, t, ?_, (behind_merge s.solver args).trans hbehind, .cons ?_ hmerged⟩
    · rw [mergeColumns, run_bind_ok hmerge, run_bind_ok hrun]
      rfl
    · refine ⟨rfl, hbehind.mem ?_⟩
      show _ ∈ ((s.solver.fresh false).2.constraints.push _).toList
      rw [Array.toList_push]
      exact mem_append_right _ mem_cons_self

/-- The type and the flag of a union at a position. -/
def unionAt (rows : List (List (Option SqlType × Bool))) (i : Nat) : Option SqlType × Bool :=
  (combineTypes SqlType.promote (rows.filterMap fun row => row[i]?.bind Prod.fst),
    rows.all fun row => row[i]?.all Prod.snd)

end Analysis

theorem combineTypes_cons (t : SqlType) (rest : List SqlType) :
    combineTypes SqlType.promote (t :: rest) =
      some ((combineTypes SqlType.promote rest).elim t t.promote) := by
  induction rest generalizing t with
  | nil => rfl
  | cons u rest ih =>
    show combineTypes SqlType.promote (t.promote u :: rest) = _
    rw [ih, ih]
    cases combineTypes SqlType.promote rest with
    | none => rfl
    | some v => exact congrArg some (SqlType.promote_assoc t u v)

/-- The least type that holds the values of others does not depend on their order. -/
theorem combineTypes_perm {ts us : List SqlType} (h : ts.Perm us) :
    combineTypes SqlType.promote ts = combineTypes SqlType.promote us := by
  induction h with
  | nil => rfl
  | cons t _ ih => rw [combineTypes_cons, combineTypes_cons, ih]
  | swap t u rest =>
    simp only [combineTypes_cons, Option.elim_some]
    cases combineTypes SqlType.promote rest with
    | none => exact congrArg some (SqlType.promote_comm u t)
    | some v =>
      refine congrArg some ?_
      show u.promote (t.promote v) = t.promote (u.promote v)
      rw [← SqlType.promote_assoc, SqlType.promote_comm u t, SqlType.promote_assoc]
  | trans _ _ ih ih' => exact ih.trans ih'

namespace Analysis

open TypeVars (evaluated)

variable {input : AnalysisInput}

theorem unionAt_perm {rows rows' : List (List (Option SqlType × Bool))} (h : rows.Perm rows') :
    unionAt rows = unionAt rows' := by
  funext i
  refine congrArg₂ Prod.mk (combineTypes_perm (h.filterMap _)) ?_
  exact Bool.eq_iff_iff.2 (by simp only [all_eq_true, h.mem_iff])

/-- A merged column has the type and the flag of the union. -/
theorem MergedFrom.eq_unionAt {origin : TypeVars} {cs : List Constraint}
    (hline : TypeVars.StraightLine origin cs) {first : List ShapeColumn}
    {branches : List (List ShapeColumn)} {i : Nat} {column m : ShapeColumn}
    (hfirst : first[i]? = some column) (h : MergedFrom cs (columnsAt branches i) column m) :
    (evaluated cs m.var, m.notNull) = unionAt ((first :: branches).map (factsOf cs)) i := by
  have hcolumns : column :: columnsAt branches i = columnsAt (first :: branches) i := by
    rw [columnsAt, columnsAt, filterMap_cons, hfirst]
  have hget (row : List ShapeColumn) :
      (factsOf cs row)[i]? = row[i]?.map fun c => (evaluated cs c.var, c.notNull) :=
    getElem?_map
  refine Prod.ext ?_ ?_
  · have hgiven : evaluated cs m.var = combineTypes SqlType.promote
        (((column :: columnsAt branches i).map ShapeColumn.var).filterMap (evaluated cs)) :=
      hline.given h.widen rfl
    rw [hgiven, hcolumns, filterMap_map, columnsAt, filterMap_filterMap, unionAt,
      filterMap_map]
    refine congrArg (combineTypes SqlType.promote) ?_
    refine congrArg (List.filterMap · _) (funext fun row => ?_)
    rw [Function.comp_apply, hget]
    cases row[i]? <;> rfl
  · have hall : m.notNull = (columnsAt (first :: branches) i).all ShapeColumn.notNull := by
      rw [h.notNull, ← hcolumns, all_cons]
    rw [hall, columnsAt, all_filterMap, unionAt, all_map]
    refine congrArg (List.all _) (funext fun row => ?_)
    rw [Function.comp_apply, hget]
    cases row[i]? <;> rfl

/-! ### The walk over a union -/

variable {s : AnalysisState}

variable {q : Query}

/-- Without sort keys and a limit, a query is its specifications and the columns merged from
them. -/
theorem walkQuery_ok (horderBy : q.orderBy = []) (hlimit : q.limit = none) {first : SpecShape}
    {branches : List SpecShape} {columns : List ShapeColumn} {t u : AnalysisState}
    (hspecs : walkSpecs input q.specs s = .ok (first :: branches) t)
    (hcolumns : unionColumns first.columns branches t = .ok columns u) :
    ∃ shape u', walkQuery input q s = .ok shape u' ∧ shape.columns = columns ∧
      u'.solver = u.solver := by
  obtain ⟨specs, unionAll, orderBy, limit, span⟩ := q
  cases horderBy
  cases hlimit
  simp only [walkQuery, walkSortKeys, walkLimit]
  rw [run_bind_ok hspecs]
  dsimp only
  rw [run_bind_ok hcolumns]
  exact ⟨_, _, rfl, rfl, rfl⟩

/-- Conversely, the walk over a query with one specification gives the columns of that. -/
theorem walksAlone_of_walkQuery (horderBy : q.orderBy = []) (hlimit : q.limit = none)
    {spec : QuerySpec} (hspecs : q.specs = [spec]) {shape : QueryShape}
    (h : walkQuery input q (.initial input 0) = .ok shape s) :
    ∃ a, WalksAlone input spec a ∧ shape.columns = a.1.columns := by
  obtain ⟨specs, unionAll, orderBy, limit, span⟩ := q
  cases hspecs
  have hrun := h
  rw [walkQuery] at hrun
  obtain ⟨shapes, t, hwalk, -⟩ := bind_eq_ok.1 hrun
  obtain ⟨first, rfl⟩ := exists_eq_singleton hwalk
  obtain ⟨shape', u', hquery, hcolumns, -⟩ := walkQuery_ok horderBy hlimit hwalk
    (show unionColumns first.columns [] t = .ok first.columns t from rfl)
  rw [hquery] at h
  cases h
  exact ⟨(first, t), hwalk, hcolumns⟩

/-- Without bound values no variable is free, and no type gets back to a variable. -/
theorem straightLine_of_walkQuery (hnodup : (q.nodes.map Expr.id).Nodup) {shape : QueryShape}
    (h : walkQuery input q (.initial input 0) = .ok shape s) :
    TypeVars.StraightLine s.solver.vars s.solver.constraints.toList := by
  have horderly := orders_walkQuery q [] [] (nil_subset _) hnodup
    (AnalysisState.orderly_initial input False 0) h
  have hafter : stateAfter (walkQuery input q) (.initial input 0) = .ok s := by
    rw [stateAfter, h]
  have hgrown := ((follows_walkQuery input q).of_stateAfter hafter).solver
  have hrigid : s.solver.vars.Fresh ∧
      ∀ v : TypeVar, v.index < s.solver.vars.size → s.solver.vars.IsRigid v := by
    refine hgrown.induction (motive := fun u => u.vars.Fresh ∧
      ∀ v : TypeVar, v.index < u.vars.size → u.vars.IsRigid v)
      ⟨TypeVars.fresh_empty, fun _ hv => absurd hv (Nat.not_lt_zero _)⟩
      (fun u hu => ⟨hu.1.fresh false, fun v hv => ?_⟩) fun u _ hu => hu
    rcases Nat.lt_succ_iff_lt_or_eq.1 (size_fresh u.vars false ▸ hv) with hlt | heq
    · exact (isRigid_fresh u.vars false hlt).2 (hu.2 v hlt)
    · obtain rfl : v = (u.vars.fresh false).1 := congrArg TypeVar.mk heq
      exact isRigid_fresh_self u.vars
  exact { fresh := hrigid.1, rigid := hrigid.2, vars := horderly.vars, ordered := horderly.ordered
          apart := horderly.apart, hints := horderly.hints }

/-- The columns of a union have the types and the flags that come from those of the branches. -/
theorem walkQuery_union (hresolver : input.resolver = none) (horderBy : q.orderBy = [])
    (hlimit : q.limit = none) (hnodup : (q.nodes.map Expr.id).Nodup) (hunion : 2 ≤ q.specs.length)
    {found : List Alone} (hfound : List.Forall₂ (WalksAlone input) q.specs found) {width : Nat}
    (hwidth : ∀ a ∈ found, a.1.columns.length = width) :
    ∃ shape s, walkQuery input q (.initial input 0) = .ok shape s ∧
      factsOf s.solver.constraints.toList shape.columns =
        (List.range width).map (unionAt (found.map Alone.row)) := by
  have hspecs : ((QuerySpec.nodesList q.specs).map Expr.id).Nodup := by
    refine hnodup.sublist (List.Sublist.map _ ?_)
    cases q
    rw [Query.nodes, append_assoc]
    exact sublist_append_left _ _
  obtain ⟨shapes, t, hwalk, hstacked, hsound⟩ := walkSpecs_stacked hresolver hfound
    (AnalysisState.orderly_initial input _ 0) rfl rfl hspecs
  have hrows {u : Solver} (hu : Solver.Behind t.solver u) :
      (shapes.map SpecShape.columns).map (factsOf u.constraints.toList) = found.map Alone.row :=
    hstacked.rows nofun hsound hu
  have hlength : 2 ≤ shapes.length := by
    have heq := congrArg List.length (hrows (.refl _))
    rw [length_map, length_map, length_map, ← hfound.length_eq] at heq
    exact heq ▸ hunion
  obtain ⟨first, branches, rfl⟩ := exists_cons_of_length_pos (Nat.zero_lt_of_lt hlength)
  obtain ⟨merged, u, hmerge, hbehind, hmerged⟩ :=
    mergeColumns_ok (branches.map SpecShape.columns) 0 first.columns t
  have hcolumns : unionColumns first.columns branches t = .ok merged u := by
    cases branches with
    | nil => simp at hlength
    | cons b rest => exact hmerge
  obtain ⟨shape, u', hrun, rfl, hsolver⟩ := walkQuery_ok horderBy hlimit hwalk hcolumns
  have hline := straightLine_of_walkQuery hnodup hrun
  rw [hsolver] at hline
  have hfirst : first.columns.length = width := by
    cases found with
    | nil => cases hrows (.refl _)
    | cons a rest =>
      have hrow : (factsOf t.solver.constraints.toList first.columns).length = a.row.length :=
        congrArg List.length (List.cons.inj (hrows (.refl _))).1
      rw [factsOf, Alone.row, factsOf, length_map, length_map] at hrow
      exact hrow.trans (hwidth a mem_cons_self)
  have hpositions : ∀ p ∈ first.columns.zipIdx, first.columns[p.2]? = some p.1 :=
    fun p hp => mem_zipIdx_iff_getElem?.1 hp
  have hrow : List.Forall₂ (· = ·)
      (first.columns.zipIdx.map fun p => unionAt (found.map Alone.row) p.2)
      (factsOf u.solver.constraints.toList shape.columns) := by
    refine List.forall₂_map_left_iff.2 (List.forall₂_map_right_iff.2 ?_)
    refine ((List.forall₂_and_left _ _).2 ⟨hpositions, hmerged⟩).imp ?_
    rintro p m ⟨hp, hm⟩
    rw [← hrows hbehind]
    exact (hm.eq_unionAt hline hp).symm
  refine ⟨shape, u', hrun, ?_⟩
  rw [List.forall₂_eq_eq_eq] at hrow
  rw [hsolver, ← hrow, ← hfirst, range_eq_range', ← zipIdx_map_snd 0, map_map]
  rfl

end Analysis

/-! ### Reports -/

/-- One specification of a query by itself. -/
def Query.branch (q : Query) (spec : QuerySpec) : Query :=
  { q with specs := [spec], unionAll := [] }

namespace AnalysisResult

/-- The types of the result columns. -/
def types (result : AnalysisResult) : List ColumnType :=
  result.signature.columns.map ResultColumn.type

/-- Which result columns are not null. -/
def notNulls (result : AnalysisResult) : List Bool :=
  result.signature.columns.map ResultColumn.notNull

end AnalysisResult

namespace Statement

open Analysis

variable {text : String} {statement : Statement} {input : AnalysisInput} {q : Query}

section

variable (hplaceholders : statement.placeholders = 0)

include hplaceholders

/-- The report of a query without bound values, once it has been walked. -/
theorem analyze_of_walkQuery
    (hresolver : input.resolver = none) (hnodup : (q.nodes.map Expr.id).Nodup) {shape : QueryShape}
    {s : AnalysisState} (h : walkQuery input q (.initial input 0) = .ok shape s) :
    ∃ result, ({ statement with kind := .select q } : Statement).analyze input = .ok result ∧
      result.signature.columns.map (fun c => (c.type, c.notNull)) =
        (factsOf s.solver.constraints.toList shape.columns).map
          fun (type, notNull) => (.single (type.getD .unknown), notNull) := by
  have hsets : (Report.solve input s).typeSets = [] :=
    (orders_walkQuery q [] [] (nil_subset _) hnodup
      (AnalysisState.orderly_initial input False 0) h).typeSets hresolver
  have hresolved := Solver.resolved_eq_evaluate (straightLine_of_walkQuery hnodup h)
    input.config.defaultParameterType
  refine ⟨Report.ofQuery input (Report.solve input s) shape, ?_, ?_⟩
  · unfold analyze Statement.report
    simp only [hplaceholders, h]
  · rw [Report.map_ofQuery (fun _ _ => rfl), factsOf, map_map]
    refine map_congr_left fun c _ => congrArg (·, c.notNull) ?_
    exact (Report.columnType_eq_single hsets c).trans (congrArg ColumnType.single (hresolved c.var))

/-- A branch that can be analysed by itself can be walked by itself. -/
theorem walksAlone_of_analyze
    (horderBy : q.orderBy = []) (hlimit : q.limit = none) {spec : QuerySpec}
    {report : AnalysisResult}
    (h : ({ statement with kind := .select (q.branch spec) } : Statement).analyze input =
      .ok report) :
    ∃ a, WalksAlone input spec a ∧ report.notNulls = a.row.map Prod.snd := by
  unfold analyze Statement.report at h
  simp only [hplaceholders] at h
  split at h
  next shape s hrun =>
    cases h
    obtain ⟨a, ha, hcolumns⟩ :=
      walksAlone_of_walkQuery (q := q.branch spec) horderBy hlimit rfl hrun
    refine ⟨a, ha, (Report.map_ofQuery (fun _ _ => rfl) input _ shape).trans ?_⟩
    rw [hcolumns, Alone.row, factsOf, map_map]
    rfl
  next => cases h

/-- The types and the flags of a union come from what its branches have alone. -/
theorem analyze_union
    (hresolver : input.resolver = none) (horderBy : q.orderBy = []) (hlimit : q.limit = none)
    (hnodup : (q.nodes.map Expr.id).Nodup) (hunion : 2 ≤ q.specs.length) {found : List Alone}
    (hfound : List.Forall₂ (WalksAlone input) q.specs found) {width : Nat}
    (hwidth : ∀ a ∈ found, a.1.columns.length = width) :
    ∃ result, ({ statement with kind := .select q } : Statement).analyze input = .ok result ∧
      result.types = (List.range width).map (fun i =>
        .single ((unionAt (found.map Alone.row) i).1.getD .unknown)) ∧
      result.notNulls = (List.range width).map fun i => (unionAt (found.map Alone.row) i).2 := by
  obtain ⟨shape, s, hrun, hrow⟩ := walkQuery_union hresolver horderBy hlimit hnodup hunion hfound
    hwidth
  obtain ⟨result, hresult, hcolumns⟩ := analyze_of_walkQuery hplaceholders hresolver hnodup hrun
  rw [hrow, map_map] at hcolumns
  refine ⟨result, hresult, ?_, ?_⟩
  · have htypes := congrArg (List.map Prod.fst) hcolumns
    rwa [map_map, map_map] at htypes
  · have hflags := congrArg (List.map Prod.snd) hcolumns
    rwa [map_map, map_map] at hflags

end

theorem nodes_eq_of_unsorted (horderBy : q.orderBy = []) (hlimit : q.limit = none) :
    q.nodes = q.specs.flatMap QuerySpec.nodes := by
  obtain ⟨specs, unionAll, orderBy, limit, span⟩ := q
  cases horderBy
  cases hlimit
  rw [Query.nodes, nodesList_eq_flatMap]
  simp [SortKey.nodesList, Limit.nodesOption]

theorem alone_of_branches (hplaceholders : statement.placeholders = 0)
    (horderBy : q.orderBy = []) (hlimit : q.limit = none) {specs : List QuerySpec}
    {reports : List AnalysisResult} (h : List.Forall₂ (fun spec report =>
      ({ statement with kind := .select (q.branch spec) } : Statement).analyze input = .ok report)
      specs reports) :
    ∃ found, List.Forall₂ (WalksAlone input) specs found ∧
      reports.map AnalysisResult.notNulls = (found.map Alone.row).map (List.map Prod.snd) := by
  induction h with
  | nil => exact ⟨[], .nil, rfl⟩
  | cons hreport _ ih =>
    obtain ⟨a, ha, hflags⟩ := walksAlone_of_analyze hplaceholders horderBy hlimit hreport
    obtain ⟨found, hfound, hrest⟩ := ih
    exact ⟨a :: found, .cons ha hfound, congrArg₂ List.cons hflags hrest⟩

/-- The flag of a union is that of all branches. -/
theorem unionAt_notNull {found : List Alone} {width i : Nat} {reports : List AnalysisResult}
    (hlength : ∀ a ∈ found, a.1.columns.length = width) (hi : i < width)
    (hflags : reports.map AnalysisResult.notNulls =
      (found.map Alone.row).map (List.map Prod.snd)) :
    (unionAt (found.map Alone.row) i).2 =
      reports.all fun report => report.notNulls.getD i false := by
  have hrow : ∀ a ∈ found, a.row[i]?.all Prod.snd = (a.row.map Prod.snd).getD i false := by
    intro a ha
    have hlt : i < a.row.length := by
      rw [Alone.row, factsOf, length_map, hlength a ha]
      exact hi
    rw [getD_eq_getElem?_getD, getElem?_map, getElem?_eq_getElem hlt]
    rfl
  have hreports : (reports.all fun report => report.notNulls.getD i false) =
      (reports.map AnalysisResult.notNulls).all (·.getD i false) := by
    rw [all_map]
    rfl
  rw [hreports, hflags, unionAt, all_map, all_map, all_map]
  refine Bool.eq_iff_iff.2 ?_
  simp only [all_eq_true]
  exact forall₂_congr fun a ha => by rw [Function.comp_apply, hrow a ha]; rfl

/-- **The order of the branches of a union does not matter.** If all branches of a union without
bound values, sorting and limit can be analysed by themselves and have the same number of columns,
then the union can be analysed, whatever the order of its branches. It has the same types and the
same flags in all orders, and a column is not null if it is not null in every branch. -/
theorem analyze_union_perm (hparse : parse text = .ok statement)
    (hkind : statement.kind = .select q) (hplaceholders : statement.placeholders = 0)
    (hresolver : input.resolver = none) (horderBy : q.orderBy = []) (hlimit : q.limit = none)
    (hunion : 2 ≤ q.specs.length) {reports : List AnalysisResult}
    (hbranches : List.Forall₂ (fun spec report =>
      ({ statement with kind := .select (q.branch spec) } : Statement).analyze input = .ok report)
      q.specs reports)
    {width : Nat} (hwidth : ∀ report ∈ reports, report.signature.columns.length = width) :
    ∃ result, statement.analyze input = .ok result ∧
      result.notNulls = (List.range width).map (fun i =>
        reports.all fun report => report.notNulls.getD i false) ∧
      ∀ q' : Query, q'.specs.Perm q.specs → q'.orderBy = [] → q'.limit = none →
        ∃ result', ({ statement with kind := .select q' } : Statement).analyze input = .ok result' ∧
          result'.types = result.types ∧ result'.notNulls = result.notNulls := by
  have hself : ({ statement with kind := .select q } : Statement) = statement := by
    rw [← hkind]
  have hnodup : (q.nodes.map Expr.id).Nodup := by
    have h := nodup_ids hparse
    rwa [hkind] at h
  -- what the branches have alone
  obtain ⟨found, hfound, hflags⟩ := alone_of_branches hplaceholders horderBy hlimit hbranches
  have hlength : ∀ a ∈ found, a.1.columns.length = width := by
    intro a ha
    have hmem : a.row.map Prod.snd ∈ reports.map AnalysisResult.notNulls :=
      hflags ▸ List.mem_map_of_mem (List.mem_map_of_mem ha)
    obtain ⟨report, hreport, hrow⟩ := List.mem_map.1 hmem
    have heq := congrArg List.length hrow
    simp only [AnalysisResult.notNulls, Alone.row, factsOf, List.length_map] at heq
    exact heq.symm.trans (hwidth report hreport)
  obtain ⟨result, hresult, htypes, hnotNulls⟩ := analyze_union hplaceholders hresolver horderBy
    hlimit hnodup hunion hfound hlength
  refine ⟨result, hself ▸ hresult, ?_, fun q' hperm horderBy' hlimit' => ?_⟩
  · rw [hnotNulls]
    refine List.map_congr_left fun i hi => ?_
    exact unionAt_notNull hlength (List.mem_range.1 hi) hflags
  · have hnodup' : (q'.nodes.map Expr.id).Nodup := by
      rw [nodes_eq_of_unsorted horderBy hlimit] at hnodup
      rw [nodes_eq_of_unsorted horderBy' hlimit']
      exact ((hperm.flatMap_right _).map _).nodup_iff.2 hnodup
    obtain ⟨found', hfound', hperm'⟩ := List.perm_comp_forall₂ hperm hfound
    obtain ⟨result', hresult', htypes', hnotNulls'⟩ := analyze_union hplaceholders hresolver
      horderBy' hlimit' hnodup' (hperm.length_eq ▸ hunion) hfound'
      fun a ha => hlength a (hperm'.mem_iff.1 ha)
    have hrows := unionAt_perm (hperm'.map Alone.row)
    refine ⟨result', hresult', ?_, ?_⟩
    · rw [htypes', htypes, hrows]
    · rw [hnotNulls', hnotNulls, hrows]

/-- Whether all branches of a statement can be analysed by themselves, with a number of columns. -/
def branchesFit (statement : Statement) (input : AnalysisInput) (q : Query) (width : Nat) : Bool :=
  q.specs.all fun spec =>
    (({ statement with kind := .select (q.branch spec) } : Statement).analyze input).toOption.any
      fun report => report.signature.columns.length == width

/-- Whether a statement is a union of such branches, without bound values, order and limit. -/
def isPlainUnion (statement : Statement) (input : AnalysisInput) (width : Nat) : Bool :=
  match statement.kind with
  | .select q => decide (statement.placeholders = 0 ∧ 2 ≤ q.specs.length) &&
    (q.orderBy.isEmpty && q.limit.isNone && branchesFit statement input q width)
  | _ => false

/-- Three branches with different types, one of them without a null, backwards. -/
theorem analyze_union_perm_backwards :
    let text := "SELECT x, NULL FROM t UNION SELECT 1.5, y FROM u UNION ALL SELECT 'a', 2"
    let input := (BoundText.ofText text).analysisInput twoTables {} none
    ∃ statement q result result', parse text = .ok statement ∧ statement.kind = .select q ∧
      statement.placeholders = 0 ∧ statement.analyze input = .ok result ∧
      ({ statement with kind := .select { q with specs := q.specs.reverse } } : Statement).analyze
        input = .ok result' ∧
      result'.types = result.types ∧ result'.notNulls = result.notNulls := by
  intro text input
  have hread : isRead text (fun statement => isPlainUnion statement input 2) = true := by
    decide +kernel
  obtain ⟨statement, hparse, htest⟩ := exists_of_isRead hread
  unfold isPlainUnion at htest
  cases hkind : statement.kind with
  | select q =>
    simp only [hkind, Bool.and_eq_true, decide_eq_true_eq, List.isEmpty_iff,
      Option.isNone_iff_eq_none, branchesFit, List.all_eq_true, Option.any_eq_true,
      beq_iff_eq] at htest
    obtain ⟨⟨hplaceholders, hunion⟩, ⟨horderBy, hlimit⟩, hfit⟩ := htest
    choose report hreport hwidth using hfit
    have hbranches : List.Forall₂ (fun spec report => ({ statement with
        kind := .select (q.branch spec) } : Statement).analyze input = .ok report)
        (q.specs.attach.map Subtype.val) (q.specs.attach.map fun s => report s.1 s.2) := by
      refine List.forall₂_map_left_iff.2 (List.forall₂_map_right_iff.2 (List.forall₂_same.2 ?_))
      intro s _
      have hsome := hreport s.1 s.2
      revert hsome
      cases ({ statement with kind := .select (q.branch s.1) } : Statement).analyze input with
      | ok found => exact fun hsome => congrArg Except.ok (Option.some.inj hsome)
      | error e =>
        intro hsome
        cases hsome
    rw [List.attach_map_subtype_val] at hbranches
    have hwidths : ∀ r ∈ q.specs.attach.map (fun s => report s.1 s.2),
        r.signature.columns.length = 2 := by
      intro r hr
      obtain ⟨s, -, rfl⟩ := List.mem_map.1 hr
      exact hwidth s.1 s.2
    obtain ⟨result, hresult, -, hperm⟩ := analyze_union_perm hparse hkind hplaceholders rfl horderBy
      hlimit hunion hbranches hwidths
    obtain ⟨result', hresult', htypes, hnotNulls⟩ :=
      hperm { q with specs := q.specs.reverse } (List.reverse_perm _) horderBy hlimit
    exact ⟨statement, q, result, result', hparse, hkind, hplaceholders, hresult, hresult', htypes,
      hnotNulls⟩
  | insert i => rw [hkind] at htest; cases htest
  | update u => rw [hkind] at htest; cases htest
  | delete d => rw [hkind] at htest; cases htest

end Statement

end SqlSignature
