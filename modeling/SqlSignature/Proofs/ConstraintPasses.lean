import Mathlib.Data.List.FinRange
import Mathlib.Data.List.Perm.Basic
import Mathlib.Data.List.Sort
import Mathlib.Logic.Equiv.Basic
import SqlSignature.Proofs.SolverRun
/-!
# SqlSignature.Proofs.ConstraintPasses

What the passes of a solver see of a list of constraints. Each pass goes through the constraints of
some kinds only, so a permutation that keeps the order of any two constraints that one pass goes
through is not seen at all (`TypeVars.samePasses_perm`). Types that variables are fixed to can be in
any order, since promotion is a join (`TypeVars.pass_fixStep_perm`). Lists that no pass tells apart
lead to the same types (`Solver.resolved_eq_of_samePasses`).
-/

open List

namespace SqlSignature

/-! ### Kinds of constraints -/

inductive ConstraintKind where
  | fix | equal | derive | widen | expect | hint
  deriving Repr, DecidableEq

namespace ConstraintKind

/-- Whether passes forward go through constraints of a kind. -/
def goesForward : ConstraintKind → Bool
  | equal | derive | widen => true
  | fix | expect | hint => false

/-- Whether passes from targets back go through constraints of a kind. -/
def goesBack : ConstraintKind → Bool
  | derive | widen | hint => true
  | fix | equal | expect => false

/-- Whether a pass goes through constraints of two kinds. -/
def meets (k k' : ConstraintKind) : Bool :=
  (k.goesForward && k'.goesForward) || (k.goesBack && k'.goesBack) ||
    (k == expect && k' == expect)

theorem meets_comm (k k' : ConstraintKind) : k.meets k' = k'.meets k := by
  simp only [meets, Bool.and_comm]

end ConstraintKind

def Constraint.kind : Constraint → ConstraintKind
  | fix _ _ => .fix
  | equal _ _ => .equal
  | derive _ _ _ => .derive
  | widen _ _ => .widen
  | expect _ _ => .expect
  | hint _ _ => .hint

namespace TypeVars

/-! ### What passes go through -/

theorem forwardStep_eq_self {c : Constraint} (h : c.kind.goesForward = false) (vs : TypeVars) :
    vs.forwardStep c = (vs, false) := by
  cases c with
  | fix | expect | hint => rfl
  | equal | derive | widen => contradiction

theorem backwardStep_eq_self {c : Constraint} (h : c.kind.goesBack = false) (vs : TypeVars) :
    vs.backwardStep c = (vs, false) := by
  cases c with
  | fix | expect | equal => rfl
  | hint | derive | widen => contradiction

theorem expectationStep_eq_self {c : Constraint} (h : (c.kind == .expect) = false)
    (vs : TypeVars) : vs.expectationStep c = (vs, false) := by
  cases c with
  | fix | equal | derive | widen | hint => rfl
  | expect => contradiction

/-- A pass may leave out constraints that do nothing in it. -/
theorem pass_filter {step : TypeVars → Constraint → TypeVars × Bool} {p : Constraint → Bool} :
    ∀ {cs : List Constraint}, (∀ c ∈ cs, p c = false → ∀ vs, step vs c = (vs, false)) →
      ∀ vs, pass step cs vs = pass step (cs.filter p) vs
  | [], _, _ => rfl
  | c :: rest, h, vs => by
    have hrest := pass_filter fun d hd => h d (mem_cons_of_mem c hd)
    cases hc : p c with
    | true =>
      rw [filter_cons_of_pos hc, pass_cons, pass_cons, hrest]
    | false =>
      rw [filter_cons_of_neg (by simp [hc]), pass_cons, h c mem_cons_self hc, ← hrest]
      simp

theorem pass_append (step : TypeVars → Constraint → TypeVars × Bool) (cs ds : List Constraint)
    (vs : TypeVars) : pass step (cs ++ ds) vs =
      ((pass step ds (pass step cs vs).1).1,
        (pass step cs vs).2 || (pass step ds (pass step cs vs).1).2) := by
  induction cs generalizing vs with
  | nil => simp [pass]
  | cons c rest ih => rw [cons_append, pass_cons, ih, pass_cons, Bool.or_assoc]

theorem pass_fst_eq_self {step : TypeVars → Constraint → TypeVars × Bool} {vs : TypeVars} :
    ∀ {cs : List Constraint}, (∀ c ∈ cs, (step vs c).1 = vs) → (pass step cs vs).1 = vs
  | [], _ => rfl
  | c :: rest, h => by
    rw [pass_cons, h c mem_cons_self]
    exact pass_fst_eq_self fun d hd => h d (mem_cons_of_mem c hd)

/-- Lists of constraints that no pass tells apart. -/
structure SamePasses (vs : TypeVars) (cs cs' : List Constraint) : Prop where
  fixed : (pass fixStep cs vs).1 = (pass fixStep cs' vs).1
  forward : ∀ vs, pass forwardStep cs vs = pass forwardStep cs' vs
  back : ∀ vs, pass backwardStep cs vs = pass backwardStep cs' vs
  expectations : ∀ vs, pass expectationStep cs vs = pass expectationStep cs' vs

namespace SamePasses

variable {start vs vs' : TypeVars} {cs cs' : List Constraint} {n : Nat} {default : SqlType}
  (h : SamePasses start cs cs')

include h

theorem symm : SamePasses start cs' cs :=
  ⟨h.fixed.symm, fun vs => (h.forward vs).symm, fun vs => (h.back vs).symm,
    fun vs => (h.expectations vs).symm⟩

theorem forward_eq (vs : TypeVars) : TypeVars.forward cs vs = TypeVars.forward cs' vs :=
  h.forward vs

theorem backward_eq (vs : TypeVars) : TypeVars.backward cs vs = TypeVars.backward cs' vs := by
  simp only [TypeVars.backward, h.back, h.expectations]

theorem settles (hs : Settles cs vs vs') : Settles cs' vs vs' := by
  induction hs with
  | rest hrest =>
    rw [h.forward_eq] at hrest ⊢
    exact .rest hrest
  | pass hchanged _ ih =>
    rw [h.forward_eq] at hchanged ih
    exact .pass hchanged ih

theorem propagates (hp : Propagates cs n vs vs') : Propagates cs' n vs vs' := by
  induction hp with
  | stop => exact .stop
  | still settles hstill =>
    rw [h.backward_eq] at hstill ⊢
    exact .still (h.settles settles) hstill
  | round settles hchanged _ ih =>
    rw [h.backward_eq] at hchanged ih
    exact .round (h.settles settles) hchanged ih

theorem defaults (hd : Defaults cs default vs vs') : Defaults cs' default vs vs' := by
  cases hd with
  | complete hnone => exact .complete hnone
  | given hsome rest => exact .given hsome (h.propagates rest)

end SamePasses

/-! ### Fixed types -/

/-- The type of a class that is widened. -/
def widened (old : Option SqlType) (type : SqlType) : SqlType :=
  (old.map (·.promote type)).getD type

theorem widened_comm (old : Option SqlType) (a b : SqlType) :
    widened (some (widened old a)) b = widened (some (widened old b)) a := by
  cases old with
  | none => exact SqlType.promote_comm a b
  | some t => exact SqlType.promote_right_comm t a b

theorem adjust_congr {vs : TypeVars} {i : Nat} {f g : VarEntry → VarEntry}
    (h : ∀ e, vs.entries[i]? = some e → f e = g e) : vs.adjust i f = vs.adjust i g := by
  unfold adjust
  congr 1
  apply Array.ext_getElem?
  intro j
  rw [Array.getElem?_modify, Array.getElem?_modify]
  split
  next hij =>
    subst hij
    cases he : vs.entries[i]? with
    | none => rfl
    | some e => rw [Option.map_some, Option.map_some, h e he]
  next => rfl

theorem adjust_comm (vs : TypeVars) {i j : Nat} {f g : VarEntry → VarEntry}
    (h : i = j → ∀ e, f (g e) = g (f e)) :
    (vs.adjust i f).adjust j g = (vs.adjust j g).adjust i f := by
  unfold adjust
  congr 1
  apply Array.ext_getElem?
  intro k
  simp only [Array.getElem?_modify]
  by_cases hik : i = k
  · subst hik
    by_cases hji : j = i
    · subst hji
      cases vs.entries[j]? with
      | none => simp
      | some e => simp [h rfl e]
    · simp [hji]
  · simp [hik]

/-- Setting a type changes the type at the root, be it to the one it had. -/
theorem set_fst (vs : TypeVars) (v : TypeVar) (t : SqlType) :
    (vs.set v t).1 = vs.adjust (vs.root v) ({ · with type := some t }) := by
  unfold set
  split
  next hsame =>
    have hid : vs.adjust (vs.root v) id = vs := by
      rw [adjust]
      congr 1
      apply Array.ext_getElem?
      intro j
      rw [Array.getElem?_modify, Option.map_id, id, ite_self]
    refine (hid.symm.trans (adjust_congr fun e he => ?_))
    rw [type?, he, Option.bind_some] at hsame
    rw [← hsame]
    rfl
  next => rfl

theorem widen_fst (vs : TypeVars) (v : TypeVar) (t : SqlType) :
    (vs.widen v t).1 =
      vs.adjust (vs.root v) fun e => { e with type := some (widened e.type t) } := by
  rw [widen, set_fst]
  refine adjust_congr fun e he => ?_
  rw [type?, he, Option.bind_some, widened]

theorem widen_comm (vs : TypeVars) (v w : TypeVar) (a b : SqlType) :
    ((vs.widen v a).1.widen w b).1 = ((vs.widen w b).1.widen v a).1 := by
  have hroot : ∀ (u u' : TypeVar) (t : SqlType), (vs.widen u t).1.root u' = vs.root u' :=
    fun u u' t => root_eq_of_skeleton (vs.skeleton_set u _) u'
  rw [widen_fst, hroot, widen_fst vs v, widen_fst _ v, hroot, widen_fst vs w]
  refine vs.adjust_comm fun _ e => ?_
  simp only [widened_comm e.type a b]

theorem fixStep_comm (vs : TypeVars) (c d : Constraint) :
    ((vs.fixStep c).1.fixStep d).1 = ((vs.fixStep d).1.fixStep c).1 := by
  cases c with
  | fix v a =>
    cases d with
    | fix w b => exact vs.widen_comm v w a b
    | equal | derive | widen | expect | hint => rfl
  | equal | derive | widen | expect | hint => rfl

theorem pass_fst (step : TypeVars → Constraint → TypeVars × Bool) :
    ∀ (cs : List Constraint) (vs : TypeVars),
      (pass step cs vs).1 = cs.foldl (fun vs c => (step vs c).1) vs
  | [], _ => rfl
  | c :: rest, vs => by rw [pass_cons, foldl_cons, pass_fst step rest]

/-- The order of the types that variables are fixed to does not matter. -/
theorem pass_fixStep_perm {cs cs' : List Constraint} (h : cs.Perm cs') (vs : TypeVars) :
    (pass fixStep cs vs).1 = (pass fixStep cs' vs).1 := by
  rw [pass_fst, pass_fst]
  exact h.foldl_eq' (fun c _ d _ vs => fixStep_comm vs c d) vs

end TypeVars

/-! ### Orders that are kept -/

/-- A permutation that keeps the order of some elements keeps the list of them. -/
theorem filter_ofFn_perm {α : Type} {n : Nat} (f : Fin n → α) (π : Equiv.Perm (Fin n))
    (p : α → Bool) (h : ∀ i j, i < j → p (f (π i)) = true → p (f (π j)) = true → π i < π j) :
    (List.ofFn (f ∘ π)).filter p = (List.ofFn f).filter p := by
  have hfinRange := (sortedLT_finRange n).pairwise
  -- Both sides list the same indices, in increasing order.
  have hindices : ((List.finRange n).filter (p ∘ f ∘ π)).map π =
      (List.finRange n).filter (p ∘ f) := by
    refine List.SortedLT.eq_of_mem_iff ?_ (hfinRange.filter _).sortedLT fun k => ?_
    · refine List.Pairwise.sortedLT (pairwise_map.mpr ?_)
      refine (hfinRange.filter (p ∘ f ∘ π)).imp_of_mem fun hi hj hlt => ?_
      exact h _ _ hlt (mem_filter.mp hi).2 (mem_filter.mp hj).2
    · simp only [mem_map, mem_filter, mem_finRange, true_and, Function.comp_apply]
      constructor
      · rintro ⟨i, hi, rfl⟩
        exact hi
      · intro hk
        exact ⟨π.symm k, by rwa [Equiv.apply_symm_apply], π.apply_symm_apply k⟩
  rw [ofFn_eq_map, ofFn_eq_map, filter_map, filter_map, ← hindices,
    map_map]

/-- The list of the only two elements of a kind. -/
theorem filter_ofFn_pair {α : Type} {n : Nat} (f : Fin n → α) {i j : Fin n} (hlt : i < j)
    {p : α → Bool} (hi : p (f i) = true) (hj : p (f j) = true)
    (hother : ∀ k, k ≠ i → k ≠ j → p (f k) = false) : (List.ofFn f).filter p = [f i, f j] := by
  have hindices : (List.finRange n).filter (p ∘ f) = [i, j] := by
    have hfinRange := (sortedLT_finRange n).pairwise
    refine List.SortedLT.eq_of_mem_iff (hfinRange.filter _).sortedLT ?_ fun k => ?_
    · exact List.Pairwise.sortedLT (pairwise_pair.mpr hlt)
    · simp only [mem_filter, mem_finRange, true_and, Function.comp_apply,
        mem_cons, not_mem_nil, or_false]
      constructor
      · intro hk
        by_contra hne
        rw [not_or] at hne
        rw [hother k hne.1 hne.2] at hk
        contradiction
      · rintro (rfl | rfl)
        · exact hi
        · exact hj
  rw [ofFn_eq_map, filter_map, hindices]
  rfl

/-- A permutation that keeps the order of any two constraints that a pass meets both of is not seen
by any pass. -/
theorem TypeVars.samePasses_perm {n : Nat} {kinds : Fin n → ConstraintKind}
    {cs : Fin n → Constraint} (hkinds : ∀ i, (cs i).kind = kinds i) (π : Equiv.Perm (Fin n))
    (h : ∀ i j, i < j → (kinds (π i)).meets (kinds (π j)) = true → π i < π j)
    (fixes : List Constraint) (vs : TypeVars) :
    SamePasses vs (fixes ++ List.ofFn cs) (fixes ++ List.ofFn (cs ∘ π)) := by
  have hpass : ∀ (p : ConstraintKind → Bool) (step : TypeVars → Constraint → TypeVars × Bool),
      (∀ k k', p k = true → p k' = true → k.meets k' = true) →
      (∀ {c : Constraint}, p c.kind = false → ∀ vs, step vs c = (vs, false)) →
      ∀ vs, pass step (fixes ++ List.ofFn cs) vs = pass step (fixes ++ List.ofFn (cs ∘ π)) vs := by
    intro p step hp hstep vs
    have hkept : (List.ofFn (cs ∘ π)).filter (fun c => p c.kind) =
        (List.ofFn cs).filter fun c => p c.kind := by
      refine filter_ofFn_perm cs π _ fun i j hlt hi hj => h i j hlt ?_
      rw [hkinds] at hi hj
      exact hp _ _ hi hj
    have hcut : ∀ cs : List Constraint,
        pass step cs vs = pass step (cs.filter fun c => p c.kind) vs :=
      fun cs => pass_filter (fun c _ => hstep) vs
    rw [hcut, hcut (fixes ++ List.ofFn (cs ∘ π)), filter_append, filter_append, hkept]
  refine ⟨?_, ?_, ?_, ?_⟩
  · exact pass_fixStep_perm ((π.ofFn_comp_perm cs).symm.append_left fixes) vs
  · exact hpass _ _ (fun k k' hk hk' => by simp [ConstraintKind.meets, hk, hk']) forwardStep_eq_self
  · exact hpass _ _ (fun k k' hk hk' => by simp [ConstraintKind.meets, hk, hk'])
      backwardStep_eq_self
  · exact hpass (· == .expect) _ (fun k k' hk hk' => by simp [ConstraintKind.meets, hk, hk'])
      expectationStep_eq_self

/-! ### Solvers with some variables and constraints -/

namespace Solver

/-- A solver to which variables were added, free or not, and then constraints. -/
def build (frees : List Bool) (constraints : List Constraint) : Solver :=
  constraints.foldl add (frees.foldl (fun s free => (s.fresh free).2) empty)

theorem foldl_add (constraints : List Constraint) :
    ∀ s : Solver, constraints.foldl add s =
      { s with constraints := s.constraints ++ constraints.toArray } := by
  induction constraints with
  | nil => exact fun s => by simp
  | cons c rest ih => exact fun s => by rw [foldl_cons, ih, add]; simp

theorem foldl_fresh (frees : List Bool) : ∀ {s : Solver}, s.vars.Fresh →
    (frees.foldl (fun s free => (s.fresh free).2) s).vars.Fresh ∧
      (frees.foldl (fun s free => (s.fresh free).2) s).constraints = s.constraints := by
  induction frees with
  | nil => exact fun h => ⟨h, rfl⟩
  | cons free rest ih => exact fun h => ih (h.fresh free)

theorem build_constraints (frees : List Bool) (constraints : List Constraint) :
    (build frees constraints).constraints.toList = constraints := by
  have hnone := (foldl_fresh frees (s := empty) TypeVars.fresh_empty).2
  rw [build, foldl_add, hnone]
  simp [empty]

theorem build_vars (frees : List Bool) (constraints : List Constraint) :
    (build frees constraints).vars = (build frees []).vars := by
  rw [build, foldl_add, build, foldl_add]

theorem wellFormed_build (frees : List Bool) (constraints : List Constraint) :
    (build frees constraints).vars.WellFormed := by
  rw [build_vars]
  exact (foldl_fresh frees (s := empty) TypeVars.fresh_empty).1.wellFormed

variable {frees : List Bool} {cs cs' : List Constraint} {default : SqlType}

/-- Solvers whose constraints no pass tells apart end in the same state. -/
theorem Solves.of_samePasses {result : Solver} (h : (build frees cs).Solves default result)
    (hsame : TypeVars.SamePasses (build frees []).vars cs cs') :
    ∃ result', (build frees cs').Solves default result' ∧ result'.vars = result.vars := by
  have hfixed : (build frees cs).fixed = (build frees cs').fixed := by
    simp only [fixed, build_constraints, build_vars _ cs, build_vars _ cs', hsame.fixed]
  cases h with
  | @intro propagated defaulted propagates defaults =>
    rw [build_constraints] at propagates defaults
    rw [hfixed] at propagates
    refine ⟨_, @Solves.intro _ _ propagated defaulted ?_ ?_, rfl⟩
    · rw [build_constraints]
      exact hsame.propagates propagates
    · rw [build_constraints]
      exact hsame.defaults defaults

theorem resolved_eq_of_samePasses (h : (build frees cs).Terminates default)
    (hsame : TypeVars.SamePasses (build frees []).vars cs cs') (v : TypeVar) :
    ((build frees cs).solve default).resolved v = ((build frees cs').solve default).resolved v := by
  obtain ⟨result, hresult⟩ := h
  obtain ⟨result', hresult', hvars⟩ := hresult.of_samePasses hsame
  rw [hresult.solve_eq (wellFormed_build _ _), hresult'.solve_eq (wellFormed_build _ _), resolved,
    resolved, hvars]

end Solver

end SqlSignature
