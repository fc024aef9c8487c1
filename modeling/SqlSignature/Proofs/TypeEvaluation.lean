import Mathlib.Logic.Function.Basic
import SqlSignature.Proofs.NullTypes
/-!
# SqlSignature.Proofs.TypeEvaluation

Constraints as a straight-line program. If no variable is free, no hint is given, and no variable is
spoken of before it is given its type, then solving comes down to going through the constraints once
and giving each variable its type in turn (`Solver.resolved_eq_evaluate`): equations join nothing,
nothing flows back, and a second pass would find every type as it is.
-/

open List

namespace SqlSignature

open Constraint

namespace Constraint

variable {types : TypeVar → Option SqlType} {cs : List Constraint} {c : Constraint} {t v : TypeVar}

/-- The type that a constraint gives to a variable, be it fixed or derived. -/
def giving (types : TypeVar → Option SqlType) : Constraint → Option SqlType
  | fix _ type => some type
  | derive target rule args => value types (derive target rule args)
  | widen target args => value types (widen target args)
  | equal _ _ | expect _ _ | hint _ _ => none

/-- Types after one more constraint. -/
def assign (types : TypeVar → Option SqlType) (c : Constraint) : TypeVar → Option SqlType :=
  match c.given? with
  | some t => Function.update types t (c.giving types)
  | none => types

/-- The types that constraints give one after the other. -/
def evaluate (types : TypeVar → Option SqlType) (cs : List Constraint) :
    TypeVar → Option SqlType :=
  cs.foldl assign types

theorem evaluate_append (types : TypeVar → Option SqlType) (before after : List Constraint) :
    evaluate types (before ++ after) = evaluate (evaluate types before) after :=
  foldl_append

theorem giving_congr {f g : TypeVar → Option SqlType} (h : ∀ arg ∈ c.args, f arg = g arg) :
    c.giving f = c.giving g := by
  cases c with
  | derive | widen => exact value_congr h
  | fix | equal | expect | hint => rfl

theorem giving_of_target (ht : c.target? = some t) : c.giving types = c.value types := by
  cases c with
  | derive | widen => rfl
  | fix | equal | expect | hint => cases ht

theorem assign_given (ht : c.given? = some t) :
    assign types c = Function.update types t (c.giving types) := by
  rw [assign, ht]

theorem assign_of_ne (hv : c.given? ≠ some v) : assign types c v = types v := by
  cases ht : c.given? with
  | none => rw [assign, ht]
  | some t =>
    rw [assign_given ht, Function.update_of_ne]
    exact fun heq => hv (heq ▸ ht)

/-- A variable that is given no type keeps what it has. -/
theorem evaluate_of_ne (hv : ∀ c ∈ cs, c.given? ≠ some v) : evaluate types cs v = types v := by
  induction cs generalizing types with
  | nil => rfl
  | cons c rest ih =>
    obtain ⟨hc, hrest⟩ := List.forall_mem_cons.1 hv
    exact (ih hrest).trans (assign_of_ne hc)

/-- In the end each variable has the type that its constraint gives to it in the end. -/
theorem evaluate_given (hordered : Ordered cs) (hc : c ∈ cs) (ht : c.given? = some t)
    (happart : t ∉ c.args) : evaluate types cs t = c.giving (evaluate types cs) := by
  obtain ⟨before, after, rfl⟩ := append_of_mem hc
  obtain ⟨-, hpairs, -⟩ := List.pairwise_append.1 hordered
  have hlater : ∀ d ∈ after, ∀ v ∈ c.vars, d.given? ≠ some v :=
    fun d hd v hv hgiven => (List.pairwise_cons.1 hpairs).1 d hd v hgiven hv
  rw [evaluate_append]
  show evaluate (assign (evaluate types before) c) after t = c.giving (evaluate (assign _ c) after)
  rw [evaluate_of_ne fun d hd => hlater d hd t (given_mem_vars ht), assign_given ht,
    Function.update_self]
  refine giving_congr fun arg harg => ?_
  rw [evaluate_of_ne fun d hd => hlater d hd arg (args_subset_vars harg), Function.update_of_ne]
  exact fun heq => happart (heq ▸ harg)

end Constraint

namespace TypeVars

/-- Variables none of which is free, and constraints in an order in which types can be given. -/
structure StraightLine (origin : TypeVars) (cs : List Constraint) : Prop where
  fresh : origin.Fresh
  rigid : ∀ v : TypeVar, v.index < origin.size → origin.IsRigid v
  vars : ∀ c ∈ cs, ∀ v ∈ c.vars, v.index < origin.size
  ordered : Constraint.Ordered cs
  apart : ∀ c ∈ cs, ∀ t, c.given? = some t → t ∉ c.args
  hints : ∀ v w, .hint v w ∉ cs

variable {origin vs : TypeVars} {cs coming : List Constraint} {c : Constraint} {t v : TypeVar}

section

variable (h : StraightLine origin cs) (hs : vs.skeleton = origin.skeleton)

include h hs

theorem StraightLine.root_eq (v : TypeVar) : vs.root v = v.index := by
  rw [root_eq_of_skeleton hs, h.fresh.root_eq]

theorem StraightLine.root_ne {w : TypeVar} (hne : v ≠ w) : vs.root v ≠ vs.root w := by
  rw [h.root_eq hs, h.root_eq hs]
  exact fun heq => hne (congrArg TypeVar.mk heq)

theorem StraightLine.isFree_eq (v : TypeVar) : vs.isFree v = false := by
  rw [isFree_of_skeleton hs, isFree, h.fresh.root_eq]
  by_cases hlt : v.index < origin.size
  · rw [h.rigid v hlt]
    rfl
  · rw [Array.getElem?_eq_none (Nat.not_lt.1 hlt)]
    rfl

theorem StraightLine.isPending_eq (v : TypeVar) : vs.isPending v = false := by
  rw [isPending, h.isFree_eq hs, Bool.false_and]

/-- Equations join nothing. -/
theorem StraightLine.equate_eq (a b : TypeVar) : vs.equate a b = (vs, false) := by
  rcases vs.equate_cases a b with heq | ⟨-, -, hfree⟩
  · exact heq
  · rw [h.isFree_eq hs, h.isFree_eq hs] at hfree
    simp at hfree

/-- Nothing flows back. -/
theorem StraightLine.backwardStep_eq (hc : c ∈ cs) : vs.backwardStep c = (vs, false) := by
  have hback (target : TypeVar) (args : List TypeVar) : vs.flowBack target args = (vs, false) := by
    have hnone : args.filter vs.isPending = [] :=
      List.filter_eq_nil_iff.2 fun v _ => by rw [h.isPending_eq hs]; nofun
    unfold flowBack
    rw [hnone]
    split
    · split <;> rfl
    · rfl
  cases c with
  | derive | widen => exact hback _ _
  | hint v w => exact absurd hc (h.hints v w)
  | fix | equal | expect => rfl

theorem StraightLine.expectationStep_eq : vs.expectationStep c = (vs, false) := by
  cases c with
  | expect v type => rw [expectationStep, h.isPending_eq hs, Bool.false_and]; rfl
  | fix | equal | derive | widen | hint => rfl

end

/-- The types that constraints give, if nothing is known before. -/
abbrev evaluated (cs : List Constraint) : TypeVar → Option SqlType :=
  Constraint.evaluate (fun _ => none) cs

theorem StraightLine.given (h : StraightLine origin cs) (hc : c ∈ cs) (ht : c.given? = some t) :
    evaluated cs t = c.giving (evaluated cs) :=
  evaluate_given h.ordered hc ht (h.apart c hc t ht)

/-- On the way through the constraints, all variables have the types that they are to have but for
the targets of those that are yet to come, which have none. -/
structure Underway (origin : TypeVars) (types : TypeVar → Option SqlType)
    (coming : List Constraint) (vs : TypeVars) : Prop where
  skeleton : vs.skeleton = origin.skeleton
  type : ∀ v, vs.type? v = types v ∨ vs.type? v = none ∧ ∃ c ∈ coming, c.target? = some v

theorem Underway.skip (h : Underway origin (evaluated cs) (c :: coming) vs)
    (hc : c.target? = none) : Underway origin (evaluated cs) coming vs := by
  refine ⟨h.skeleton, fun v => (h.type v).imp_right fun ⟨hnone, d, hd, ht⟩ => ⟨hnone, d, ?_, ht⟩⟩
  refine (List.mem_cons.1 hd).resolve_left fun heq => ?_
  rw [heq, hc] at ht
  cases ht

section

variable (hline : StraightLine origin cs)

include hline

/-- A target is given the type that it is to have. -/
theorem Underway.derive (hc : c ∈ cs) (ht : c.target? = some t)
    (hlater : ∀ d ∈ coming, ∀ v, d.target? = some v → v ∉ c.vars)
    (h : Underway origin (evaluated cs) (c :: coming) vs) :
    Underway origin (evaluated cs) coming (vs.forwardStep c).1 := by
  have hgiven := given_of_target ht
  have hargs : ∀ arg ∈ c.args, vs.type? arg = evaluated cs arg := by
    intro arg harg
    rcases h.type arg with heq | ⟨-, d, hd, htarget⟩
    · exact heq
    rcases List.mem_cons.1 hd with rfl | hd
    · exact absurd harg (hline.apart d hc arg (given_of_target htarget))
    · exact absurd (args_subset_vars harg) (hlater d hd arg htarget)
  have hvalue : c.value vs.type? = evaluated cs t := by
    rw [hline.given hc hgiven, giving_of_target ht, value_congr hargs]
  have hother : ∀ v ≠ t, vs.type? v = evaluated cs v ∨
      vs.type? v = none ∧ ∃ d ∈ coming, d.target? = some v := by
    intro v hne
    refine (h.type v).imp_right fun ⟨hnone, d, hd, htarget⟩ => ⟨hnone, d, ?_, htarget⟩
    refine (List.mem_cons.1 hd).resolve_left fun heq => hne ?_
    rw [heq, ht] at htarget
    exact (Option.some.inj htarget).symm
  rw [forwardStep_of_target ht, hvalue]
  refine ⟨(skeleton_setSome t _).trans h.skeleton, fun v => ?_⟩
  by_cases hv : v = t
  · subst hv
    left
    cases htype : evaluated cs v with
    | none => exact (h.type v).elim (fun heq => heq.trans htype) And.left
    | some type =>
      refine type?_set_self ?_ type
      rw [hline.root_eq h.skeleton, size_eq_of_skeleton h.skeleton]
      exact hline.vars c hc v (target_mem_vars ht)
  · rw [type?_setSome_of_ne (hline.root_ne h.skeleton hv)]
    exact hother v hv

/-- One pass forward gives all variables the types that they are to have. -/
theorem Underway.pass (hcoming : ∀ c ∈ coming, c ∈ cs)
    (hordered : Constraint.Ordered coming) (h : Underway origin (evaluated cs) coming vs) :
    Underway origin (evaluated cs) [] (pass forwardStep coming vs).1 := by
  induction coming generalizing vs with
  | nil => exact h
  | cons c rest ih =>
    obtain ⟨hc, hrest⟩ := List.forall_mem_cons.1 hcoming
    obtain ⟨hfirst, hordered⟩ := List.pairwise_cons.1 hordered
    have hlater : ∀ d ∈ rest, ∀ v, d.target? = some v → v ∉ c.vars :=
      fun d hd v ht => hfirst d hd v (given_of_target ht)
    rw [pass_cons]
    refine ih hrest hordered ?_
    cases c with
    | derive | widen => exact h.derive hline hc rfl hlater
    | equal a b =>
      rw [forwardStep, hline.equate_eq h.skeleton]
      exact h.skip rfl
    | fix | expect | hint => exact h.skip rfl

/-- Fixing types is the first step underway. -/
theorem underway_fixed : Underway origin (evaluated cs) cs (TypeVars.pass fixStep cs origin).1 := by
  have hsane : Sane origin cs := {
    fresh := hline.fresh
    given := fun c hc v hv => hline.rigid v (hline.vars c hc v (given_mem_vars hv))
    equated := fun a b hab => ⟨hline.vars _ hab a mem_cons_self,
      hline.vars _ hab b (mem_cons_of_mem _ mem_cons_self)⟩ }
  refine ⟨pass_skeleton skeleton_fixStep cs origin, fun v => ?_⟩
  by_cases hgiven : ∃ c ∈ cs, c.given? = some v
  · obtain ⟨c, hc, hv⟩ := hgiven
    have honly : ∀ d ∈ cs, d.given? = some v → d = c :=
      fun d hd hdv => hline.ordered.eq_of_given hd hc hdv hv
    cases c with
    | fix w type =>
      cases hv
      left
      rw [hline.given hc rfl]
      exact type?_fixed_of_declares hsane ⟨hsane.given _ hc _ rfl, hc, honly⟩
    | derive | widen =>
      right
      refine ⟨type?_fixed_of_not_fixed hline.fresh fun t ht => ?_, _, hc, hv⟩
      cases honly _ ht rfl
    | equal | expect | hint => cases hv
  · left
    have hnone : evaluated cs v = none :=
      evaluate_of_ne fun c hc hv => hgiven ⟨c, hc, hv⟩
    rw [hnone]
    exact type?_fixed_of_not_fixed hline.fresh fun _ ht => hgiven ⟨_, ht, rfl⟩

/-- A state in which all variables have the types that they are to have stays as it is. -/
theorem stable_evaluated
    (h : Underway origin (evaluated cs) [] vs) : Stable cs fun us => us = vs where
  forward c hc us hus := by
    subst hus
    refine forwardStep_unchanged us c ?_
    have htype : ∀ v, us.type? v = evaluated cs v :=
      fun v => (h.type v).resolve_right fun ⟨_, _, hd, _⟩ => nomatch hd
    cases ht : c.target? with
    | none =>
      cases c with
      | equal a b => rw [forwardStep, hline.equate_eq h.skeleton]
      | fix | expect | hint => rfl
      | derive | widen => cases ht
    | some t =>
      refine (agrees_iff ht).2 fun type hvalue => ?_
      rw [htype, hline.given hc (given_of_target ht), giving_of_target ht,
        ← hvalue]
      exact value_congr fun arg _ => (htype arg).symm
  backward c hc us hus := by
    subst hus
    rw [hline.backwardStep_eq h.skeleton hc]
  expectation c _ us hus := by
    subst hus
    rw [hline.expectationStep_eq h.skeleton]

end

end TypeVars

/-- Solving gives each variable the type that the constraints give to it one after the other. -/
theorem Solver.resolved_eq_evaluate {s : Solver}
    (h : TypeVars.StraightLine s.vars s.constraints.toList) (default : SqlType) (v : TypeVar) :
    (s.solve default).resolved v =
      (TypeVars.evaluated s.constraints.toList v).getD .unknown := by
  have hend : TypeVars.Underway s.vars (TypeVars.evaluated s.constraints.toList) []
      (s.fixed.forward s.constraints.toList).1 :=
    (TypeVars.underway_fixed h).pass h (fun _ hc => hc) h.ordered
  have hpropagated : s.fixed.propagate s.constraints.toList =
      (s.fixed.forward s.constraints.toList).1 :=
    (TypeVars.stable_evaluated h hend).propagate rfl
  -- no class is free, so there is none to take the default
  have hdefaulted : s.defaulted default = (s.fixed.forward s.constraints.toList).1 := by
    have hnone : (s.fixed.forward s.constraints.toList).1.untypedFree = [] :=
      List.filter_eq_nil_iff.2 fun w _ => by simp [h.isFree_eq hend.skeleton]
    rw [defaulted, hpropagated, TypeVars.applyDefault, hnone]
  rw [resolved_solve, hdefaulted,
    (hend.type v).resolve_right fun hpending => by simp at hpending]

end SqlSignature
