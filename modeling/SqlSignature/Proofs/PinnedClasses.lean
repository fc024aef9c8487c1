import SqlSignature.Proofs.ClassHistory
import SqlSignature.Proofs.DeclaredTypes
/-!
# SqlSignature.Proofs.PinnedClasses

Variables that are made rigid stay in classes of their own. Joins need a free class, and the class
that they make is free only if both were, so a chain of free variables is taken in by one of the
rigid variables at its ends and never connects them. `Solver.Visits` lists the states that solving
runs through, call by call, and `Solver.Reached.pinned_apart` says that in none of them two
variables that were made rigid share a class.
-/

namespace SqlSignature

namespace TypeVars

variable {origin vs : TypeVars}

/-- No two variables that were made rigid are in one class. -/
def KeepsApart (made vs : TypeVars) : Prop :=
  ∀ v w, made.IsRigid v → made.IsRigid w → vs.same v w = true → v = w

theorem InLayers.keepsApart {level : TypeVar → Nat} (h : InLayers origin level vs) :
    KeepsApart origin vs :=
  fun v w hv hw hsame => h.single v w hv hw (beq_iff_eq.1 hsame)

/-! ### Steps -/

theorem WellFormed.union_outside (h : vs.WellFormed) {a b : TypeVar}
    (hout : ¬(a.index < vs.size ∧ b.index < vs.size)) : vs.union a b = vs := by
  have hroots : ¬(vs.root a < vs.size ∧ vs.root b < vs.size) := by
    rwa [h.root_lt_iff, h.root_lt_iff]
  unfold union
  dsimp only
  split
  · rfl
  · split
    · exact link_outside hroots
    · exact link_outside fun hin => hroots hin.symm

theorem Parted.forwardStep (h : Parted origin vs) (c : Constraint) :
    Parted origin (vs.forwardStep c).1 := by
  rcases vs.forwardStep_cases c with hs | ⟨a, b, -, heq, -, hfree⟩
  · exact h.of_skeleton hs
  · rw [heq]
    by_cases hin : a.index < vs.size ∧ b.index < vs.size
    · exact InLayers.union h hin.1 hin.2 rfl hfree
    · rwa [h.wellFormed.union_outside hin]

theorem stable_parted (origin : TypeVars) (cs : List Constraint) : Stable cs (Parted origin) :=
  stable_of_setAll (fun c _ _ h => h.forwardStep c)
    fun _ _ _ _ _ _ _ h => h.of_skeleton (skeleton_setAll _ _ _)

theorem invariant_parted (origin : TypeVars) (cs : List Constraint) :
    Invariant cs (Parted origin) where
  forward _ h := pass_keeps (stable_parted origin cs).forward h
  of_skeleton hs h := h.of_skeleton hs

theorem isRigid_fresh_iff {free : Bool} {v : TypeVar} : (vs.fresh free).2.IsRigid v ↔
    vs.IsRigid v ∨ v.index = vs.size ∧ free = false := by
  simp only [IsRigid, fresh, size, Array.getElem?_push]
  split <;> simp_all

/-- A new variable is alone in its class. -/
theorem Parted.fresh (h : Parted origin vs) (free : Bool) :
    Parted (origin.fresh free).2 (vs.fresh free).2 := by
  have hvs := h.wellFormed
  have hold : ∀ {v}, origin.IsRigid v → vs.root v < vs.size := fun hv =>
    hvs.root_lt (h.size ▸ hv.lt)
  have hnew : ∀ {v : TypeVar}, v.index = origin.size → vs.root v = vs.size := fun hv =>
    (root_of_size_le (by rw [hv, h.size])).trans (hv.trans h.size.symm)
  refine ⟨hvs.fresh free, by simp [h.size], fun _ => rfl, fun v hv => ?_, fun v w hv hw hroot => ?_⟩
  · rw [hvs.fresh_root, fresh_freeAt]
    rcases isRigid_fresh_iff.1 hv with hv | ⟨hv, hfree⟩
    · rw [if_neg (Nat.ne_of_lt (hold hv)), h.rigid v hv]
    · rw [if_pos (hnew hv), hfree]
  · rw [hvs.fresh_root, hvs.fresh_root] at hroot
    rcases isRigid_fresh_iff.1 hv with hv | ⟨hv, -⟩ <;>
      rcases isRigid_fresh_iff.1 hw with hw | ⟨hw, -⟩
    · exact h.single v w hv hw hroot
    · exact absurd (hroot.trans (hnew hw)) (Nat.ne_of_lt (hold hv))
    · exact absurd (hroot.symm.trans (hnew hv)) (Nat.ne_of_lt (hold hw))
    · cases v
      cases w
      exact congrArg TypeVar.mk (hv.trans hw.symm)

/-! ### States on the way -/

/-- The states that one round runs through: each of its passes is cut off after every constraint,
and a step that lets a type flow back to several variables after every one of them. -/
inductive Crosses (cs : List Constraint) (entered : TypeVars) : TypeVars → Prop
  | forward (passes k : Nat) : Crosses cs entered
      (pass forwardStep (cs.take k) ((fun vs => (vs.forward cs).1)^[passes] entered)).1
  | backward {settled : TypeVars} (settles : Settles cs entered settled) (k : Nat) :
      Crosses cs entered (pass backwardStep (cs.take k) settled).1
  | flowing {settled vs : TypeVars} {c : Constraint} {type : SqlType} {done rest : List TypeVar}
      (settles : Settles cs entered settled) (k : Nat) (hc : cs[k]? = some c)
      (hvs : vs = (pass backwardStep (cs.take k) settled).1)
      (flows : vs.backwardStep c = vs.setAll type (done ++ rest)) :
      Crosses cs entered (vs.setAll type done).1
  | expecting {settled : TypeVars} (settles : Settles cs entered settled)
      (still : (pass backwardStep cs settled).2 = false) (k : Nat) :
      Crosses cs entered (pass expectationStep (cs.take k) (pass backwardStep cs settled).1).1

theorem Crosses.parted {cs : List Constraint} {entered : TypeVars} (h : Crosses cs entered vs)
    (hentered : Parted origin entered) : Parted origin vs := by
  have hinvariant := invariant_parted origin cs
  have hback : ∀ k settled, Settles cs entered settled →
      Parted origin (pass backwardStep (cs.take k) settled).1 := fun k settled settles =>
    (settles.keeps hinvariant.forward hentered).of_skeleton
      (pass_skeleton skeleton_backwardStep _ _)
  cases h with
  | forward passes k =>
    have hpasses : Parted origin ((fun vs => (vs.forward cs).1)^[passes] entered) :=
      Function.Iterate.rec (Parted origin) hentered hinvariant.forward passes
    exact pass_keeps (fun c _ _ h => h.forwardStep c) hpasses
  | backward settles k => exact hback k _ settles
  | flowing settles k _ hvs _ =>
    subst hvs
    exact (hback k _ settles).of_skeleton (skeleton_setAll _ _ _)
  | expecting settles _ k =>
    have hwhole := hback cs.length _ settles
    rw [List.take_length] at hwhole
    exact hwhole.of_skeleton (pass_skeleton skeleton_expectationStep _ _)

end TypeVars

namespace Solver

open TypeVars

variable {made vs : TypeVars} {s : Solver} {default : SqlType}

/-- A solver that calls lead to, and its variables as they were made. -/
inductive Reached : (made : TypeVars) → Solver → Prop
  | empty : Reached .empty .empty
  | fresh {made : TypeVars} {s : Solver} (before : Reached made s) (free : Bool) :
      Reached (made.fresh free).2 (s.fresh free).2
  | add {made : TypeVars} {s : Solver} (before : Reached made s) (c : Constraint) :
      Reached made (s.add c)
  | solve {made : TypeVars} {s : Solver} (before : Reached made s) (default : SqlType) :
      Reached made (s.solve default)

/-- The states that solving runs through. -/
inductive Visits (s : Solver) (default : SqlType) : TypeVars → Prop
  | fixing (k : Nat) : Visits s default (pass fixStep (s.constraints.toList.take k) s.vars).1
  | round {entered vs : TypeVars} (enters : s.EntersLoop default entered)
      (crosses : Crosses s.constraints.toList entered vs) : Visits s default vs
  | defaulting {propagated : TypeVars}
      (propagates : Propagates s.constraints.toList maxRounds s.fixed propagated) (k : Nat) :
      Visits s default (propagated.setAll default (propagated.untypedFree.take k)).1
  | finishing {propagated defaulted : TypeVars}
      (propagates : Propagates s.constraints.toList maxRounds s.fixed propagated)
      (defaults : Defaults s.constraints.toList default propagated defaulted) (k : Nat) :
      Visits s default (defaulted.setAll .unknown (defaulted.untyped.take k)).1

theorem Visits.parted (h : s.Visits default vs) (hs : Parted made s.vars) : Parted made vs := by
  have hinvariant := invariant_parted made s.constraints.toList
  have hfixed := hs.of_skeleton s.skeleton_fixed
  cases h with
  | fixing k => exact hs.of_skeleton (pass_skeleton skeleton_fixStep _ _)
  | round enters crosses => exact crosses.parted (enters.keeps hinvariant hs)
  | defaulting propagates k =>
    exact (hinvariant.propagates propagates hfixed).of_skeleton (skeleton_setAll _ _ _)
  | finishing propagates defaults k =>
    have hpropagated := hinvariant.propagates propagates hfixed
    refine InLayers.of_skeleton (skeleton_setAll _ _ _) ?_
    cases defaults with
    | complete => exact hpropagated
    | given _ rest =>
      exact hinvariant.propagates rest (hpropagated.of_skeleton (skeleton_setAll _ _ _))

theorem parted_solve (hs : Parted made s.vars) (default : SqlType) :
    Parted made (s.solve default).vars := by
  have hstable := stable_parted made s.constraints.toList
  have hfixed := hs.of_skeleton s.skeleton_fixed
  have hpropagated := hstable.propagate (pass_keeps hstable.forward hfixed)
  have hdefaulted : Parted made (s.defaulted default) :=
    hstable.applyDefault (fun _ => hpropagated) (hpropagated.of_skeleton (skeleton_setAll _ _ _))
  rw [vars_solve]
  exact hdefaulted.of_skeleton (skeleton_setAll _ _ _)

theorem Reached.parted (h : Reached made s) : Parted made s.vars := by
  induction h with
  | empty => exact fresh_empty.inLayers _
  | fresh _ free ih => exact ih.fresh free
  | add _ _ ih => exact ih
  | solve _ default ih => exact parted_solve ih default

/-- **Rigid variables stay apart.** Whatever variables were made, whatever constraints were added
and however often they were solved before: in every state that solving runs through, and in the one
it ends with, no class has two different variables that were made rigid. -/
theorem Reached.pinned_apart (h : Reached made s) (default : SqlType) :
    (∀ vs, s.Visits default vs → KeepsApart made vs) ∧ KeepsApart made (s.solve default).vars :=
  ⟨fun _ hvisits => (hvisits.parted h.parted).keepsApart,
    (parted_solve h.parted default).keepsApart⟩

/-- Two columns are compared through a chain of two bound values. Going forward, the first column
takes the whole chain into its class, and the second stays outside. -/
theorem Reached.pinned_apart_chain : ∃ made s vs, Reached made s ∧ s.Visits .text vs ∧
    made.IsRigid ⟨0⟩ ∧ made.IsRigid ⟨3⟩ ∧ vs.same ⟨0⟩ ⟨2⟩ = true ∧ vs.same ⟨0⟩ ⟨3⟩ = false := by
  have hmade := (((Reached.empty.fresh false).fresh true).fresh true).fresh false
  have hreached := ((hmade.add (.equal ⟨0⟩ ⟨1⟩)).add (.equal ⟨1⟩ ⟨2⟩)).add (.equal ⟨2⟩ ⟨3⟩)
  refine ⟨_, _, _, hreached, .round (.before .first) (.forward 0 3), by decide, by decide,
    by decide, ?_⟩
  exact Bool.eq_false_iff.2 fun hsame => absurd
    ((hreached.pinned_apart .text).1 _ (.round (.before .first) (.forward 0 3)) ⟨0⟩ ⟨3⟩ (by decide)
      (by decide) hsame) (by decide)

end Solver

end SqlSignature
