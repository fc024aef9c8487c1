import Mathlib.Data.List.Pairwise
import SqlSignature.Proofs.ClassRoots
import SqlSignature.Proofs.SolverRun
/-!
# SqlSignature.Proofs.TypeLayers

Constraints in layers. Variables that can be joined are in one layer, and whatever has its type
derived is in a layer above those it is derived from. A class has one rigid variable at most, that
is, one that is not free, and only rigid variables are targets, so each class takes its type from
one constraint. Then passes forward come to rest layer by layer
(`TypeVars.InLayers.exists_settles`), and solving ends (`Solver.terminates_of_layered`).
-/

namespace SqlSignature

namespace TypeVars

/-! ### Rigid variables -/

/-- A variable that is there and not free. -/
def IsRigid (vs : TypeVars) (v : TypeVar) : Prop :=
  vs.entries[v.index]?.map VarEntry.free = some false

instance (vs : TypeVars) (v : TypeVar) : Decidable (vs.IsRigid v) :=
  inferInstanceAs (Decidable (_ = _))

theorem IsRigid.lt {vs : TypeVars} {v : TypeVar} (h : vs.IsRigid v) : v.index < vs.size := by
  by_contra hv
  rw [IsRigid, Array.getElem?_eq_none (Nat.not_lt.mp hv)] at h
  contradiction

end TypeVars

/-! ### Layers -/

namespace Constraint

/-- The variable whose type a constraint gives on the way forward. -/
def target? : Constraint → Option TypeVar
  | derive target _ _ | widen target _ => some target
  | fix _ _ | equal _ _ | expect _ _ | hint _ _ => none

/-- The variables whose types the type of the target follows from. -/
def args : Constraint → List TypeVar
  | derive _ _ args | widen _ args => args
  | fix _ _ | equal _ _ | expect _ _ | hint _ _ => []

/-- The type that a constraint gives to its target. -/
def value (types : TypeVar → Option SqlType) : Constraint → Option SqlType
  | derive _ rule args => rule.apply (args.map types)
  | widen _ args => combineTypes SqlType.promote (args.filterMap types)
  | fix _ _ | equal _ _ | expect _ _ | hint _ _ => none

/-- A target is above its arguments, and variables that can be joined are in one layer. -/
def Layered (vs : TypeVars) (level : TypeVar → Nat) : Constraint → Prop
  | equal a b => (a.index < vs.size ∧ b.index < vs.size) ∧
      ((vs.IsRigid a ∧ vs.IsRigid b) ∨ level a = level b)
  | derive target _ args | widen target args =>
    vs.IsRigid target ∧ ∀ arg ∈ args, level arg < level target
  | fix _ _ | expect _ _ | hint _ _ => True

instance (vs : TypeVars) (level : TypeVar → Nat) : (c : Constraint) → Decidable (c.Layered vs level)
  | equal _ _ => inferInstanceAs (Decidable (_ ∧ _))
  | derive _ _ _ | widen _ _ => inferInstanceAs (Decidable (_ ∧ _))
  | fix _ _ | expect _ _ | hint _ _ => inferInstanceAs (Decidable True)

theorem value_congr {f g : TypeVar → Option SqlType} {c : Constraint}
    (h : ∀ arg ∈ c.args, f arg = g arg) : c.value f = c.value g := by
  cases c with
  | derive target rule args => exact congrArg rule.apply (List.map_congr_left h)
  | widen target args => exact congrArg (combineTypes SqlType.promote) (List.filterMap_congr h)
  | fix | equal | expect | hint => rfl

theorem Layered.target {vs : TypeVars} {level : TypeVar → Nat} {c : Constraint} {t : TypeVar}
    (h : c.Layered vs level) (ht : c.target? = some t) :
    vs.IsRigid t ∧ ∀ arg ∈ c.args, level arg < level t := by
  cases c with
  | derive target rule args | widen target args =>
    rw [← Option.some_inj.mp ht]
    exact h
  | fix | equal | expect | hint => contradiction

end Constraint

/-- Constraints in layers, of which no two have one target. -/
structure Layered (vs : TypeVars) (constraints : List Constraint) (level : TypeVar → Nat) :
    Prop where
  each : ∀ c ∈ constraints, c.Layered vs level
  targets : (constraints.filterMap Constraint.target?).Nodup

instance (vs : TypeVars) (constraints : List Constraint) (level : TypeVar → Nat) :
    Decidable (Layered vs constraints level) :=
  decidable_of_iff ((∀ c ∈ constraints, c.Layered vs level) ∧
      (constraints.filterMap Constraint.target?).Nodup)
    ⟨fun h => ⟨h.1, h.2⟩, fun h => ⟨h.each, h.targets⟩⟩

theorem Layered.eq_of_target {vs : TypeVars} {constraints : List Constraint}
    {level : TypeVar → Nat} (h : Layered vs constraints level) {c d : Constraint} {t : TypeVar}
    (hc : c ∈ constraints) (hd : d ∈ constraints) (hct : c.target? = some t)
    (hdt : d.target? = some t) : c = d := by
  have hpairs : constraints.Pairwise fun c d => ∀ t, c.target? = some t → d.target? ≠ some t :=
    (List.pairwise_filterMap.mp h.targets).imp fun hne t hct hdt => hne t hct t hdt rfl
  have hsymm : Std.Symm fun c d : Constraint => ∀ t, c.target? = some t → d.target? ≠ some t :=
    ⟨fun c d hcd t hdt hct => hcd t hct hdt⟩
  by_contra hne
  exact hpairs.forall hc hd hne t hct hdt

namespace TypeVars

/-- Classes that respect layers. Each has one rigid variable at most, and none if it is free. -/
structure InLayers (origin : TypeVars) (level : TypeVar → Nat) (vs : TypeVars) : Prop where
  wellFormed : vs.WellFormed
  size : vs.size = origin.size
  level_parent : ∀ i, level ⟨vs.parent i⟩ = level ⟨i⟩
  rigid : ∀ v, origin.IsRigid v → vs.freeAt (vs.root v) = false
  single : ∀ v w, origin.IsRigid v → origin.IsRigid w → vs.root v = vs.root w → v = w

section

variable {origin vs vs' : TypeVars} {level : TypeVar → Nat} {constraints : List Constraint}

theorem InLayers.of_skeleton (hs : vs'.skeleton = vs.skeleton) (h : InLayers origin level vs) :
    InLayers origin level vs' where
  wellFormed := h.wellFormed.of_skeleton hs
  size := (size_eq_of_skeleton hs).trans h.size
  level_parent i := by rw [parent_eq_of_skeleton hs, h.level_parent]
  rigid v hv := by rw [root_eq_of_skeleton hs, freeAt_of_skeleton hs, h.rigid v hv]
  single v w hv hw hroot := by
    rw [root_eq_of_skeleton hs, root_eq_of_skeleton hs] at hroot
    exact h.single v w hv hw hroot

theorem Fresh.inLayers (h : origin.Fresh) (level : TypeVar → Nat) :
    InLayers origin level origin where
  wellFormed := h.wellFormed
  size := rfl
  level_parent i := by rw [h.parent_eq]
  rigid v hv := by
    rw [root_of_root (h.parent_eq v.index), freeAt, hv]
    rfl
  single v w _ _ hroot := by
    rw [root_of_root (h.parent_eq v.index), root_of_root (h.parent_eq w.index)] at hroot
    cases v
    cases w
    exact congrArg TypeVar.mk hroot

section

variable (h : InLayers origin level vs)

include h

theorem InLayers.level_root (v : TypeVar) :
    level ⟨vs.root v⟩ = level v :=
  rootFrom_keeps (g := fun i => level ⟨i⟩) h.level_parent vs.size v.index

theorem InLayers.root_ne {v w : TypeVar} (hlt : level v < level w) :
    vs.root v ≠ vs.root w := by
  intro heq
  have hlevel := h.level_root v
  rw [heq, h.level_root w] at hlevel
  omega

theorem InLayers.level_eq {v w : TypeVar}
    (hroot : vs.root v = vs.root w) : level v = level w := by
  rw [← h.level_root v, hroot, h.level_root w]

/-- Joining two classes in one layer, one of which is free, respects layers. -/
theorem InLayers.union {a b : TypeVar} (ha : a.index < vs.size)
    (hb : b.index < vs.size) (hlevel : level a = level b)
    (hfree : vs.isFree a = true ∨ vs.isFree b = true) : InLayers origin level (vs.union a b) := by
  by_cases hne : vs.root a = vs.root b
  · have hsame : vs.union a b = vs := by simp [TypeVars.union, hne]
    rwa [hsame]
  · have hj := h.wellFormed.joins_union ha hb hne
    have hadvances := h.wellFormed.advances_union a b
    have hin : ∀ v, vs.InEither a b v → level v = level a := by
      rintro v (hroot | hroot)
      · exact h.level_eq hroot
      · exact (h.level_eq hroot).trans hlevel.symm
    refine ⟨hadvances.wellFormed, hadvances.size.trans h.size, ?_, ?_, ?_⟩
    · intro i
      rcases (hj.root_eq_iff _ _).1 (hadvances.wellFormed.root_parent i) with hroot | ⟨hv, hw⟩
      · exact h.level_eq hroot
      · rw [hin _ hv, hin _ hw]
    · exact fun v hv => hj.not_free (h.rigid v hv)
    · -- two rigid variables were in one class before, since the other class was free
      intro v w hv hw heq
      exact h.single v w hv hw
        (hj.root_eq_of_not_free hfree (h.rigid v hv) (h.rigid w hw) heq)

theorem InLayers.forwardStep {c : Constraint}
    (hc : c.Layered origin level) : InLayers origin level (vs.forwardStep c).1 := by
  rcases vs.forwardStep_cases c with hs | ⟨a, b, rfl, heq, -, hfree⟩
  · exact h.of_skeleton hs
  · rw [heq]
    obtain ⟨⟨ha, hb⟩, hrigid | hlevel⟩ := hc
    · -- Rigid variables are not joined.
      rw [isFree_eq, isFree_eq, h.rigid a hrigid.1, h.rigid b hrigid.2] at hfree
      simp at hfree
    · exact h.union (h.size ▸ ha) (h.size ▸ hb) hlevel hfree

end

theorem InLayers.pass (cs : List Constraint) (h : InLayers origin level vs)
    (hcs : ∀ c ∈ cs, c.Layered origin level) :
    InLayers origin level (pass TypeVars.forwardStep cs vs).1 :=
  pass_keeps (fun c hc _ hnext => InLayers.forwardStep hnext (hcs c hc)) h

theorem invariant_inLayers (h : Layered origin constraints level) :
    Invariant constraints (InLayers origin level) where
  forward _ hvs := hvs.pass constraints h.each
  of_skeleton hs hvs := hvs.of_skeleton hs

/-! ### Coming to rest -/

/-- A constraint does not change anything on the way forward. -/
def Agrees (vs : TypeVars) (c : Constraint) : Prop := (vs.forwardStep c).2 = false

/-- The targets in the layers below a bound have the types that their constraints give. -/
def StableBelow (constraints : List Constraint) (level : TypeVar → Nat) (bound : Nat)
    (vs : TypeVars) : Prop :=
  ∀ c ∈ constraints, ∀ t, c.target? = some t → level t < bound → vs.Agrees c

theorem stableBelow_zero (constraints : List Constraint) (level : TypeVar → Nat) (vs : TypeVars) :
    StableBelow constraints level 0 vs :=
  fun _ _ _ _ hlt => absurd hlt (Nat.not_lt_zero _)

section

variable {c d : Constraint} {t u : TypeVar}

section

variable (ht : c.target? = some t)

include ht

theorem forwardStep_of_target (vs : TypeVars) :
    vs.forwardStep c = vs.setSome t (c.value vs.type?) := by
  cases c with
  | derive | widen =>
    cases ht
    rfl
  | fix | equal | expect | hint => contradiction

theorem agrees_iff :
    vs.Agrees c ↔ ∀ type, c.value vs.type? = some type → vs.type? t = some type := by
  rw [Agrees, forwardStep_of_target ht, setSome_still_iff]

theorem Agrees.congr
    (hargs : ∀ arg ∈ c.args, vs'.type? arg = vs.type? arg) (htarget : vs'.type? t = vs.type? t)
    (h : vs.Agrees c) : vs'.Agrees c := by
  rw [agrees_iff ht] at h ⊢
  rw [Constraint.value_congr hargs, htarget]
  exact h

theorem type?_forwardStep_of_ne {v : TypeVar}
    (h : vs.root v ≠ vs.root t) : (vs.forwardStep c).1.type? v = vs.type? v := by
  rw [forwardStep_of_target ht]
  cases c.value vs.type? with
  | none => rfl
  | some type => exact type?_set_of_ne h type

end

section

variable (h : InLayers origin level vs)

include h

/-- A constraint agrees with what it has just set, for its target is not among its arguments. -/
theorem InLayers.agrees_self (hc : c.Layered origin level)
    (ht : c.target? = some t) : (vs.forwardStep c).1.Agrees c := by
  obtain ⟨hrigid, hargs⟩ := hc.target ht
  have hsame : ∀ arg ∈ c.args, (vs.forwardStep c).1.type? arg = vs.type? arg :=
    fun arg harg => type?_forwardStep_of_ne ht (h.root_ne (hargs arg harg))
  rw [agrees_iff ht]
  intro type htype
  rw [Constraint.value_congr hsame] at htype
  rw [forwardStep_of_target ht, htype]
  exact type?_set_self (h.wellFormed.root_lt (h.size ▸ hrigid.lt)) type

/-- What a constraint sets is seen by no constraint with another target that is not above. -/
theorem InLayers.agrees_forwardStep
    (hl : Layered origin constraints level) (hc : c ∈ constraints) (hd : d ∈ constraints)
    (ht : c.target? = some t) (hu : d.target? = some u) (hle : level t ≤ level u)
    (hagrees : vs.Agrees c) : (vs.forwardStep d).1.Agrees c := by
  by_cases hcd : c = d
  · subst hcd
    rwa [forwardStep_unchanged vs c hagrees]
  · obtain ⟨hrigidt, hargs⟩ := (hl.each c hc).target ht
    obtain ⟨hrigidu, -⟩ := (hl.each d hd).target hu
    have hroots : vs.root t ≠ vs.root u := by
      intro heq
      have hsame := h.single t u hrigidt hrigidu heq
      subst hsame
      exact hcd (hl.eq_of_target hc hd ht hu)
    refine hagrees.congr ht (fun arg harg => ?_) (type?_forwardStep_of_ne hu hroots)
    have hlt := hargs arg harg
    exact type?_forwardStep_of_ne hu (h.root_ne (by omega))

theorem InLayers.classCount_union {a b : TypeVar}
    (ha : a.index < vs.size) (hb : b.index < vs.size) (hne : vs.root a ≠ vs.root b) :
    (vs.union a b).classCount + 1 = vs.classCount := by
  have hra := h.wellFormed.root_lt ha
  have hrb := h.wellFormed.root_lt hb
  unfold TypeVars.union
  dsimp only
  rw [if_neg hne]
  split
  · exact classCount_link hra hrb hne (h.wellFormed.parent_root b)
  · exact classCount_link hrb hra (Ne.symm hne) (h.wellFormed.parent_root a)

/-- A constraint without a target agrees, unless it joins two classes. -/
theorem InLayers.agrees_of_skeleton (hc : c.Layered origin level)
    (hnone : c.target? = none) (hs : (vs.forwardStep c).1.skeleton = vs.skeleton) :
    vs.Agrees c := by
  cases c with
  | equal a b =>
    rw [Agrees]
    rw [TypeVars.forwardStep] at hs ⊢
    rcases vs.equate_cases a b with heq | ⟨heq, hne, -⟩
    · rw [heq]
    · rw [heq] at hs
      obtain ⟨⟨ha, hb⟩, -⟩ := hc
      have hcount := h.classCount_union (h.size ▸ ha) (h.size ▸ hb) hne
      have hsame := classCount_eq_of_skeleton hs
      dsimp only at hsame
      omega
  | derive | widen => contradiction
  | fix | expect | hint => rfl

end

end

/-- The first step of a pass that joins no classes joins none. -/
theorem WellFormed.skeleton_first (h : vs.WellFormed) {c : Constraint} {rest : List Constraint}
    (hs : (TypeVars.pass TypeVars.forwardStep rest (vs.forwardStep c).1).1.skeleton = vs.skeleton) :
    (vs.forwardStep c).1.skeleton = vs.skeleton := by
  have hfirst := h.advances_forwardStep c
  exact hfirst.skeleton_of_trans
    (pass_advances (fun _ d hws => hws.advances_forwardStep d) rest hfirst.wellFormed) hs

/-- A pass that joins no classes brings one more layer to rest: what is at rest stays, and the
constraints that the pass goes through are met one by one. -/
theorem InLayers.pass_stable (hl : Layered origin constraints level) {bound : Nat} :
    ∀ (cs : List Constraint) {vs : TypeVars}, InLayers origin level vs →
      (∀ c ∈ cs, c ∈ constraints) →
      (TypeVars.pass TypeVars.forwardStep cs vs).1.skeleton = vs.skeleton →
      StableBelow constraints level bound vs →
      (∀ c ∈ constraints, ∀ t, c.target? = some t → level t < bound + 1 → vs.Agrees c ∨ c ∈ cs) →
      StableBelow constraints level (bound + 1) (TypeVars.pass TypeVars.forwardStep cs vs).1
  | [], _, _, _, _, _, hmet => fun c hc t ht hlt => (hmet c hc t ht hlt).resolve_right (by simp)
  | d :: rest, vs, h, hcs, hs, hstable, hmet => by
    obtain ⟨hd, hrest⟩ := List.forall_mem_cons.mp hcs
    rw [pass_cons] at hs ⊢
    have hnext := h.forwardStep (hl.each d hd)
    have hs₁ := h.wellFormed.skeleton_first hs
    -- The step sets a type in a layer at or above the bound, if it sets any.
    have hkeeps : ∀ c ∈ constraints, ∀ t, c.target? = some t → level t < bound + 1 →
        vs.Agrees c → (vs.forwardStep d).1.Agrees c := by
      intro c hc t ht hlt hagrees
      cases hu : d.target? with
      | none =>
        have hidle := h.agrees_of_skeleton (hl.each d hd) hu hs₁
        rwa [forwardStep_unchanged vs d hidle]
      | some u =>
        by_cases hlow : level u < bound
        · rwa [forwardStep_unchanged vs d (hstable d hd u hu hlow)]
        · exact h.agrees_forwardStep hl hc hd ht hu (by omega) hagrees
    refine InLayers.pass_stable hl rest hnext hrest (hs.trans hs₁.symm) ?_ ?_
    · exact fun c hc t ht hlt => hkeeps c hc t ht (by omega) (hstable c hc t ht hlt)
    · intro c hc t ht hlt
      rcases hmet c hc t ht hlt with hagrees | hmem
      · exact Or.inl (hkeeps c hc t ht hlt hagrees)
      · rcases List.mem_cons.mp hmem with rfl | hmem
        · exact Or.inl (h.agrees_self (hl.each c hd) ht)
        · exact Or.inr hmem

/-- A pass over constraints that all agree, and that joins no classes, changes nothing. -/
theorem InLayers.pass_rest (hl : Layered origin constraints level) :
    ∀ (cs : List Constraint) {vs : TypeVars}, InLayers origin level vs →
      (∀ c ∈ cs, c ∈ constraints) →
      (TypeVars.pass TypeVars.forwardStep cs vs).1.skeleton = vs.skeleton →
      (∀ c ∈ cs, ∀ t, c.target? = some t → vs.Agrees c) →
      (TypeVars.pass TypeVars.forwardStep cs vs).2 = false
  | [], _, _, _, _, _ => rfl
  | d :: rest, vs, h, hcs, hs, hall => by
    obtain ⟨hd, hrest⟩ := List.forall_mem_cons.mp hcs
    obtain ⟨hfirst, hall⟩ := List.forall_mem_cons.mp hall
    rw [pass_cons] at hs ⊢
    have hagrees : vs.Agrees d := by
      cases hu : d.target? with
      | none =>
        exact h.agrees_of_skeleton (hl.each d hd) hu (h.wellFormed.skeleton_first hs)
      | some u => exact hfirst u hu
    rw [forwardStep_unchanged vs d hagrees] at hs ⊢
    rw [hagrees, Bool.false_or]
    exact InLayers.pass_rest hl rest h hrest hs hall

/-- A pass that changes something joins classes, or else it brings one more layer to rest. -/
theorem InLayers.forward_progress (h : InLayers origin level vs)
    (hl : Layered origin constraints level) {top bound : Nat}
    (htop : ∀ c ∈ constraints, ∀ t, c.target? = some t → level t < top)
    (hstable : StableBelow constraints level bound vs)
    (hchanged : (vs.forward constraints).2 = true) :
    (vs.forward constraints).1.classCount < vs.classCount ∨
      (vs.forward constraints).1.classCount = vs.classCount ∧ bound < top ∧
        StableBelow constraints level (bound + 1) (vs.forward constraints).1 := by
  rcases (h.wellFormed.advances_forward constraints).joined with hs | hlt
  · refine Or.inr ⟨classCount_eq_of_skeleton hs, ?_, ?_⟩
    · by_contra hall
      have hrest := h.pass_rest hl constraints (fun _ hc => hc) hs fun c hc t ht =>
        hstable c hc t ht (lt_of_lt_of_le (htop c hc t ht) (Nat.not_lt.mp hall))
      rw [forward, hrest] at hchanged
      contradiction
    · exact h.pass_stable hl constraints (fun _ hc => hc) hs hstable fun c hc _ _ _ => Or.inr hc
  · exact Or.inl hlt

theorem InLayers.exists_settles_of_stable {top : Nat} (hl : Layered origin constraints level)
    (htop : ∀ c ∈ constraints, ∀ t, c.target? = some t → level t < top) (bound : Nat)
    (vs : TypeVars) (h : InLayers origin level vs)
    (hstable : StableBelow constraints level bound vs) : ∃ vs', Settles constraints vs vs' := by
  cases hchanged : (vs.forward constraints).2 with
  | false => exact ⟨_, .rest hchanged⟩
  | true =>
    have hnext := h.pass constraints hl.each
    rcases h.forward_progress hl htop hstable hchanged with hlt | ⟨hcount, hbound, hstable⟩
    · -- A join can upset all layers.
      obtain ⟨vs', hsettles⟩ := exists_settles_of_stable hl htop 0
        (vs.forward constraints).1 hnext (stableBelow_zero _ _ _)
      exact ⟨vs', .pass hchanged hsettles⟩
    · obtain ⟨vs', hsettles⟩ := exists_settles_of_stable hl htop (bound + 1)
        (vs.forward constraints).1 hnext hstable
      exact ⟨vs', .pass hchanged hsettles⟩
termination_by (vs.classCount, top - bound)
decreasing_by
  · exact Prod.Lex.left _ _ hlt
  · rw [hcount]
    exact Prod.Lex.right _ (by omega)

/-- A loop in layers comes to rest. -/
theorem InLayers.exists_settles (h : InLayers origin level vs)
    (hl : Layered origin constraints level) : ∃ vs', Settles constraints vs vs' := by
  obtain ⟨top, htop⟩ := Finset.exists_nat_subset_range
    ((constraints.filterMap Constraint.target?).map level).toFinset
  have hlevels : ∀ c ∈ constraints, ∀ t, c.target? = some t → level t < top := by
    intro c hc t ht
    refine Finset.mem_range.mp (htop (List.mem_toFinset.mpr ?_))
    exact List.mem_map.mpr ⟨t, List.mem_filterMap.mpr ⟨c, hc, ht⟩, rfl⟩
  exact h.exists_settles_of_stable hl hlevels 0 vs (stableBelow_zero _ _ _)

end

end TypeVars

/-- Solving ends if types are derived in layers. -/
theorem Solver.terminates_of_layered {s : Solver} {level : TypeVar → Nat} (hs : s.vars.Fresh)
    (hl : Layered s.vars s.constraints.toList level) (default : SqlType) :
    s.Terminates default := by
  rw [Solver.terminates_iff_settles]
  intro entered hentered
  have hlayers := hentered.keeps (TypeVars.invariant_inLayers hl) (hs.inLayers level)
  exact hlayers.exists_settles hl

end SqlSignature
