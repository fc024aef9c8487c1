import SqlSignature.Proofs.ForwardLoop
/-!
# SqlSignature.Proofs.SolverRun

Solving without any bound on the passes forward. The rounds of a solver are bounded, but each of
them goes forward until nothing changes, and that need not happen. `Solves` relates a solver to the
result of a run that ends. A run ends exactly if it comes to rest in every state in which it goes
forward (`Solver.terminates_iff_settles`), and then `Solver.solve` is its result
(`Solver.Solves.solve_eq`).
-/

namespace SqlSignature

open TypeVars

namespace TypeVars

/-! ### Rounds -/

/-- A number of rounds at most of going forward until nothing changes, and back. -/
inductive Propagates (constraints : List Constraint) : Nat → TypeVars → TypeVars → Prop
  | stop {vs : TypeVars} : Propagates constraints 0 vs vs
  | still {n : Nat} {vs settled : TypeVars} (settles : Settles constraints vs settled)
      (h : (settled.backward constraints).2 = false) :
      Propagates constraints (n + 1) vs (settled.backward constraints).1
  | round {n : Nat} {vs settled vs' : TypeVars} (settles : Settles constraints vs settled)
      (h : (settled.backward constraints).2 = true)
      (rest : Propagates constraints n (settled.backward constraints).1 vs') :
      Propagates constraints (n + 1) vs vs'

/-- A state in which rounds go forward. -/
inductive Enters (constraints : List Constraint) : Nat → TypeVars → TypeVars → Prop
  | first {n : Nat} {vs : TypeVars} : Enters constraints (n + 1) vs vs
  | later {n : Nat} {vs settled vs' : TypeVars} (settles : Settles constraints vs settled)
      (h : (settled.backward constraints).2 = true)
      (rest : Enters constraints n (settled.backward constraints).1 vs') :
      Enters constraints (n + 1) vs vs'

/-- A property of classes that rounds keep: passes forward keep it, and types do not matter. -/
structure Invariant (constraints : List Constraint) (I : TypeVars → Prop) : Prop where
  forward : ∀ vs, I vs → I (vs.forward constraints).1
  of_skeleton : ∀ {vs vs' : TypeVars}, vs'.skeleton = vs.skeleton → I vs → I vs'

section

variable {constraints : List Constraint} {n : Nat} {vs vs' entered : TypeVars}
  {I : TypeVars → Prop}

/-- One round keeps an invariant. -/
theorem Invariant.round {settled : TypeVars} (hI : Invariant constraints I)
    (settles : Settles constraints vs settled) (hvs : I vs) : I (settled.backward constraints).1 :=
  hI.of_skeleton (skeleton_backward constraints settled) (settles.keeps hI.forward hvs)

theorem Invariant.propagates (hI : Invariant constraints I) (h : Propagates constraints n vs vs')
    (hvs : I vs) : I vs' := by
  induction h with
  | stop => exact hvs
  | still settles _ => exact hI.round settles hvs
  | round settles _ _ ih => exact ih (hI.round settles hvs)

theorem Invariant.enters (hI : Invariant constraints I) (h : Enters constraints n vs entered)
    (hvs : I vs) : I entered := by
  induction h with
  | first => exact hvs
  | later settles _ _ ih => exact ih (hI.round settles hvs)

theorem invariant_wellFormed (constraints : List Constraint) :
    Invariant constraints WellFormed where
  forward _ h := (h.advances_forward constraints).wellFormed
  of_skeleton h hvs := hvs.of_skeleton h

theorem Propagates.unique {vs'' : TypeVars} (h : Propagates constraints n vs vs')
    (h' : Propagates constraints n vs vs'') : vs' = vs'' := by
  induction h with
  | stop =>
    cases h'
    rfl
  | still settles hstill =>
    cases h' with
    | still settles' _ => rw [settles.unique settles']
    | round settles' hchanged _ =>
      rw [settles.unique settles', hchanged] at hstill
      contradiction
  | round settles hchanged _ ih =>
    cases h' with
    | still settles' hstill =>
      rw [settles.unique settles', hstill] at hchanged
      contradiction
    | round settles' _ rest =>
      rw [← settles.unique settles'] at rest
      exact ih rest

/-- Rounds that end come to rest in every state in which they go forward. -/
theorem Propagates.settles (h : Propagates constraints n vs vs')
    (hentered : Enters constraints n vs entered) :
    ∃ settled, Settles constraints entered settled := by
  induction h with
  | stop => cases hentered
  | still settles hstill =>
    cases hentered with
    | first => exact ⟨_, settles⟩
    | later settles' hchanged _ =>
      rw [settles.unique settles', hchanged] at hstill
      contradiction
  | round settles _ _ ih =>
    cases hentered with
    | first => exact ⟨_, settles⟩
    | later settles' _ hrest =>
      rw [← settles.unique settles'] at hrest
      exact ih hrest

/-- Rounds that come to rest in every state in which they go forward end. -/
theorem exists_propagates : ∀ {n : Nat} {vs : TypeVars},
    (∀ entered, Enters constraints n vs entered → ∃ settled, Settles constraints entered settled) →
      ∃ vs', Propagates constraints n vs vs'
  | 0, vs, _ => ⟨vs, .stop⟩
  | n + 1, vs, h => by
    obtain ⟨settled, hsettled⟩ := h vs .first
    cases hchanged : (settled.backward constraints).2 with
    | false => exact ⟨_, .still hsettled hchanged⟩
    | true =>
      obtain ⟨vs', hrest⟩ := exists_propagates fun entered hentered =>
        h entered (.later hsettled hchanged hentered)
      exact ⟨vs', .round hsettled hchanged hrest⟩

/-- Rounds that end are not cut short by the bound on going forward. -/
theorem Propagates.propagateUpTo_eq (h : Propagates constraints n vs vs') (hvs : vs.WellFormed) :
    propagateUpTo constraints n vs = vs' := by
  induction h with
  | stop => rfl
  | still settles hstill =>
    rw [propagateUpTo, settles.settle_eq hvs]
    simp only [hstill, Bool.false_eq_true, if_false]
  | round settles hchanged _ ih =>
    rw [propagateUpTo, settles.settle_eq hvs]
    simp only [hchanged, if_true]
    exact ih ((invariant_wellFormed constraints).round settles hvs)

end

/-- Giving a default ends: there is nothing to give it to, or the rounds after it end. -/
inductive Defaults (constraints : List Constraint) (default : SqlType) : TypeVars → TypeVars → Prop
  | complete {vs : TypeVars} (h : vs.untypedFree = []) : Defaults constraints default vs vs
  | given {vs vs' : TypeVars} (h : vs.untypedFree ≠ [])
      (rest : Propagates constraints maxRounds (vs.setAll default vs.untypedFree).1 vs') :
      Defaults constraints default vs vs'

theorem Defaults.applyDefault_eq {constraints : List Constraint} {default : SqlType}
    {vs vs' : TypeVars} (h : Defaults constraints default vs vs') (hvs : vs.WellFormed) :
    applyDefault constraints default vs = vs' := by
  unfold applyDefault
  cases h with
  | complete hnone => rw [hnone]
  | given hsome rest =>
    have hrest := rest.propagateUpTo_eq (hvs.of_skeleton (skeleton_setAll default _ vs))
    cases hpending : vs.untypedFree with
    | nil => exact absurd hpending hsome
    | cons v others =>
      rw [hpending] at hrest
      exact hrest

end TypeVars

namespace Solver

/-! ### Solving -/

/-- The types that variables are fixed to. -/
def fixed (s : Solver) : TypeVars := (TypeVars.pass TypeVars.fixStep s.constraints.toList s.vars).1

/-- Solving ends with a result. There is no bound on the passes forward. -/
inductive Solves (s : Solver) (default : SqlType) : Solver → Prop
  | intro {propagated defaulted : TypeVars}
      (propagates : TypeVars.Propagates s.constraints.toList TypeVars.maxRounds s.fixed propagated)
      (defaults : TypeVars.Defaults s.constraints.toList default propagated defaulted) :
      Solves s default { s with vars := (defaulted.setAll .unknown defaulted.untyped).1 }

def Terminates (s : Solver) (default : SqlType) : Prop := ∃ result, s.Solves default result

/-- A state in which solving goes forward, before a default is given or after. -/
inductive EntersLoop (s : Solver) (default : SqlType) : TypeVars → Prop
  | before {entered : TypeVars}
      (enters : TypeVars.Enters s.constraints.toList TypeVars.maxRounds s.fixed entered) :
      EntersLoop s default entered
  | after {propagated entered : TypeVars}
      (propagates : TypeVars.Propagates s.constraints.toList TypeVars.maxRounds s.fixed propagated)
      (pending : propagated.untypedFree ≠ [])
      (enters : TypeVars.Enters s.constraints.toList TypeVars.maxRounds
        (propagated.setAll default propagated.untypedFree).1 entered) :
      EntersLoop s default entered

section

variable {s : Solver} {default : SqlType}

theorem skeleton_fixed (s : Solver) : s.fixed.skeleton = s.vars.skeleton :=
  pass_skeleton skeleton_fixStep _ _

/-- An invariant holds in every state in which solving goes forward. -/
theorem EntersLoop.keeps {I : TypeVars → Prop} {entered : TypeVars}
    (h : s.EntersLoop default entered) (hI : TypeVars.Invariant s.constraints.toList I)
    (hs : I s.vars) : I entered := by
  have hfixed := hI.of_skeleton s.skeleton_fixed hs
  cases h with
  | before enters => exact hI.enters enters hfixed
  | after propagates _ enters =>
    have hpropagated := hI.propagates propagates hfixed
    exact hI.enters enters (hI.of_skeleton (skeleton_setAll default _ _) hpropagated)

/-- The result of solving, if it ends, is what the bounded solver gives. -/
theorem Solves.solve_eq {result : Solver} (h : s.Solves default result) (hs : s.vars.WellFormed) :
    s.solve default = result := by
  obtain ⟨propagates, defaults⟩ := h
  have hfixed := hs.of_skeleton s.skeleton_fixed
  have hpropagated := propagates.propagateUpTo_eq hfixed
  have hdefaulted := defaults.applyDefault_eq
    ((invariant_wellFormed _).propagates propagates hfixed)
  simp only [solve, TypeVars.propagate]
  rw [fixed] at hpropagated
  rw [hpropagated, hdefaulted]

/-- Solving ends exactly if it comes to rest in every state in which it goes forward. -/
theorem terminates_iff_settles : s.Terminates default ↔ ∀ entered, s.EntersLoop default entered →
    ∃ settled, TypeVars.Settles s.constraints.toList entered settled := by
  constructor
  · rintro ⟨_, propagates, defaults⟩ entered hentered
    cases hentered with
    | before enters => exact propagates.settles enters
    | after propagates' pending enters =>
      rw [← propagates.unique propagates'] at pending enters
      cases defaults with
      | complete hnone => exact absurd hnone pending
      | given _ rest => exact rest.settles enters
  · intro h
    obtain ⟨propagated, propagates⟩ :=
      exists_propagates fun entered enters => h entered (.before enters)
    by_cases hnone : propagated.untypedFree = []
    · exact ⟨_, .intro propagates (.complete hnone)⟩
    · obtain ⟨defaulted, hdefaulted⟩ := exists_propagates fun entered enters =>
        h entered (.after propagates hnone enters)
      exact ⟨_, .intro propagates (.given hnone hdefaulted)⟩

end

end Solver

/-! ### Runs that can be evaluated -/

namespace TypeVars

variable {constraints : List Constraint} {k n : Nat} {vs vs' : TypeVars}

/-- Goes forward until a pass changes nothing, if that takes no more than a number of passes. -/
def settleWithin (constraints : List Constraint) : Nat → TypeVars → Option TypeVars
  | 0, _ => none
  | k + 1, vs =>
    let (next, changed) := vs.forward constraints
    if changed then settleWithin constraints k next else some next

/-- Rounds whose loops take no more than a number of passes. -/
def propagateWithin (constraints : List Constraint) (k : Nat) : Nat → TypeVars → Option TypeVars
  | 0, vs => some vs
  | n + 1, vs =>
    (settleWithin constraints k vs).bind fun settled =>
      if (settled.backward constraints).2 then
        propagateWithin constraints k n (settled.backward constraints).1
      else some (settled.backward constraints).1

/-- Giving a default, with rounds whose loops take no more than a number of passes. -/
def defaultWithin (constraints : List Constraint) (k : Nat) (default : SqlType) (vs : TypeVars) :
    Option TypeVars :=
  if vs.untypedFree = [] then some vs
  else propagateWithin constraints k maxRounds (vs.setAll default vs.untypedFree).1

theorem settles_of_settleWithin : ∀ {k : Nat} {vs : TypeVars},
    settleWithin constraints k vs = some vs' → Settles constraints vs vs'
  | 0, _, h => by contradiction
  | k + 1, vs, h => by
    unfold settleWithin at h
    dsimp only at h
    split at h
    next hchanged => exact .pass hchanged (settles_of_settleWithin h)
    next hrest =>
      cases h
      exact .rest (by simpa using hrest)

theorem propagates_of_propagateWithin : ∀ {n : Nat} {vs : TypeVars},
    propagateWithin constraints k n vs = some vs' → Propagates constraints n vs vs'
  | 0, _, h => by
    cases h
    exact .stop
  | n + 1, vs, h => by
    obtain ⟨settled, hsettled, h⟩ := Option.bind_eq_some_iff.mp h
    have hsettles := settles_of_settleWithin hsettled
    split at h
    next hchanged => exact .round hsettles hchanged (propagates_of_propagateWithin h)
    next hstill =>
      cases h
      exact .still hsettles (by simpa using hstill)

theorem defaults_of_defaultWithin {default : SqlType}
    (h : defaultWithin constraints k default vs = some vs') :
    Defaults constraints default vs vs' := by
  unfold defaultWithin at h
  split at h
  next hnone =>
    cases h
    exact .complete hnone
  next hsome => exact .given hsome (propagates_of_propagateWithin h)

end TypeVars

/-- Solving whose loops take no more than a number of passes. -/
def Solver.solveWithin (s : Solver) (default : SqlType) (k : Nat) : Option Solver :=
  let constraints := s.constraints.toList
  (TypeVars.propagateWithin constraints k TypeVars.maxRounds s.fixed).bind fun propagated =>
    (TypeVars.defaultWithin constraints k default propagated).map fun defaulted =>
      { s with vars := (defaulted.setAll .unknown defaulted.untyped).1 }

theorem Solver.solves_of_solveWithin {s result : Solver} {default : SqlType} {k : Nat}
    (h : s.solveWithin default k = some result) : s.Solves default result := by
  obtain ⟨propagated, hpropagated, h⟩ := Option.bind_eq_some_iff.mp h
  obtain ⟨defaulted, hdefaulted, rfl⟩ := Option.map_eq_some_iff.mp h
  exact .intro (propagates_of_propagateWithin hpropagated)
    (defaults_of_defaultWithin hdefaulted)

end SqlSignature
