import SqlSignature.Proofs.TypeLayers
import SqlSignature.Proofs.TypePromotion
/-!
# SqlSignature.Proofs.DeclaredTypes

Variables whose type is declared. If a rigid variable is fixed to one type, and nothing else gives
it a type, then solving ends with that type, whatever the variable is compared or combined with
(`Solver.resolved_of_declares`). A free variable that is equated with such a variable and with
nothing else ends with the same type (`Solver.resolved_of_equated`), and a free variable that no
constraint speaks of ends with the default (`Solver.resolved_of_unmentioned`).

In the first pass forward free classes have no types yet, so the class of the variable takes in free
classes without a change of its type. After that pass no constraint joins it to another class any
more: an equation that joins the class to a free class would have been carried out.
-/

open List

namespace SqlSignature

/-! ### Constraints -/

/-- The variable that a constraint gives a type of its own to. -/
def Constraint.given? : Constraint → Option TypeVar
  | fix var _ => some var
  | derive target _ _ | widen target _ => some target
  | equal _ _ | expect _ _ | hint _ _ => none

namespace TypeVars

/-- How an equation can turn out. -/
inductive Equates (vs : TypeVars) (a b : TypeVar) : TypeVars → Prop
  | same (h : vs.root a = vs.root b) : Equates vs a b vs
  | rigid (ha : vs.isFree a = false) (hb : vs.isFree b = false) : Equates vs a b vs
  | nullLeft (ha : vs.isFree a = false) (h : vs.type? a = some .null) : Equates vs a b vs
  | nullRight (hb : vs.isFree b = false) (h : vs.type? b = some .null) : Equates vs a b vs
  | joined (hne : vs.root a ≠ vs.root b) (hfree : vs.isFree a = true ∨ vs.isFree b = true)
      (ha : vs.isFree a = true ∨ vs.type? a ≠ some .null)
      (hb : vs.isFree b = true ∨ vs.type? b ≠ some .null) : Equates vs a b (vs.union a b)

theorem equates_equate (vs : TypeVars) (a b : TypeVar) : vs.Equates a b (vs.equate a b).1 := by
  unfold equate
  split
  next hsame => exact .same (by simpa [same] using hsame)
  next hsame =>
    have hne : vs.root a ≠ vs.root b := by simpa [same] using hsame
    cases ha : vs.isFree a <;> cases hb : vs.isFree b <;> dsimp only
    · exact .rigid ha hb
    · split
      next hnull => exact .nullLeft ha hnull
      next hnull => exact .joined hne (.inr hb) (.inr hnull) (.inl hb)
    · split
      next hnull => exact .nullRight hb hnull
      next hnull => exact .joined hne (.inl ha) (.inl ha) (.inr hnull)
    · exact .joined hne (.inl ha) (.inl ha) (.inl hb)

/-- What holds after an equation: what held before, or else what holds of the joined classes. -/
theorem equate_keeps {vs : TypeVars} {a b : TypeVar} {I : TypeVars → Prop} (h : I vs)
    (hjoined : vs.root a ≠ vs.root b → vs.isFree a = true ∨ vs.isFree b = true →
      vs.isFree a = true ∨ vs.type? a ≠ some .null →
      vs.isFree b = true ∨ vs.type? b ≠ some .null → I (vs.union a b)) : I (vs.equate a b).1 := by
  have hequates := vs.equates_equate a b
  generalize (vs.equate a b).1 = next at hequates
  cases hequates with
  | same | rigid | nullLeft | nullRight => exact h
  | joined hne hfree ha hb => exact hjoined hne hfree ha hb

/-! ### Classes with one rigid variable -/

/-- Each class has one rigid variable at most, and none if it is free. -/
abbrev Parted (origin vs : TypeVars) : Prop := InLayers origin (fun _ => 0) vs

/-- Only rigid variables are given types of their own, and only variables that are there are
equated. -/
structure Sane (origin : TypeVars) (cs : List Constraint) : Prop where
  fresh : origin.Fresh
  given : ∀ d ∈ cs, ∀ v, d.given? = some v → origin.IsRigid v
  equated : ∀ a b, .equal a b ∈ cs → a.index < origin.size ∧ b.index < origin.size

section

variable {origin vs vs' : TypeVars} {cs : List Constraint} {c p : TypeVar} {T : SqlType}
  {d : Constraint} {members : List TypeVar} {done : List Constraint}

theorem Sane.target (h : Sane origin cs) (hd : d ∈ cs) {t : TypeVar} (ht : d.target? = some t) :
    origin.IsRigid t := by
  refine h.given d hd t ?_
  cases d with
  | derive | widen => exact ht
  | fix | equal | expect | hint => cases ht

variable {a b : TypeVar}

/-- The two classes of an equation are joined, and the classes stay apart otherwise. -/
theorem Parted.union (h : Parted origin vs) (hcs : Sane origin cs) (hab : .equal a b ∈ cs)
    (hne : vs.root a ≠ vs.root b) (hfree : vs.isFree a = true ∨ vs.isFree b = true) :
    Parted origin (vs.union a b) ∧ vs.Joins a b (vs.union a b) := by
  obtain ⟨ha, hb⟩ := hcs.equated a b hab
  rw [← h.size] at ha hb
  exact ⟨InLayers.union h ha hb rfl hfree, h.wellFormed.joins_union ha hb hne⟩

/-- A rigid variable does not share its class with another one that is given a type. -/
theorem Parted.root_ne (h : Parted origin vs) (hc : origin.IsRigid c) {t : TypeVar}
    (ht : origin.IsRigid t) (hne : t ≠ c) : vs.root c ≠ vs.root t :=
  fun heq => hne (h.single t c ht hc heq.symm)

theorem isFree_of_skeleton (h : vs'.skeleton = vs.skeleton) (v : TypeVar) :
    vs'.isFree v = vs.isFree v := by
  rw [isFree_eq, isFree_eq, root_eq_of_skeleton h, freeAt_of_skeleton h]

/-! ### Steps that set types -/

theorem type?_setSome_of_ne {v w : TypeVar} (h : vs.root w ≠ vs.root v) (t : Option SqlType) :
    (vs.setSome v t).1.type? w = vs.type? w := by
  cases t with
  | none => rfl
  | some t => exact type?_set_of_ne h t

theorem type?_setAll_of_ne (t : SqlType) {w : TypeVar} {vars : List TypeVar}
    (h : ∀ v ∈ vars, vs.root w ≠ vs.root v) : (vs.setAll t vars).1.type? w = vs.type? w := by
  induction vars generalizing vs with
  | nil => rfl
  | cons v rest ih =>
    obtain ⟨hv, hrest⟩ := forall_mem_cons.1 h
    rw [setAll]
    have hroot := root_eq_of_skeleton (vs.skeleton_set v t)
    refine (ih ?_).trans (type?_set_of_ne hv t)
    intro u hu
    rw [hroot, hroot]
    exact hrest u hu

/-- A variable that has a type is not in a class that has none. -/
theorem root_ne_of_untyped {v w : TypeVar} (hw : vs.type? w = some T) (hv : vs.type? v = none) :
    vs.root w ≠ vs.root v := by
  intro heq
  rw [type?_of_root_eq heq, hv] at hw
  cases hw

theorem untyped_of_mem {v : TypeVar} (h : v ∈ vs.untyped) : vs.type? v = none := by
  obtain ⟨i, hi, rfl⟩ := mem_map.1 h
  have hroot := (mem_filter.1 hi).2
  simp only [isUntypedRoot, Bool.and_eq_true] at hroot
  simpa using hroot.2

/-- Setting a type changes no other. -/
theorem type?_set_or (vs : TypeVars) (v : TypeVar) (t : SqlType) (w : TypeVar) :
    (vs.set v t).1.type? w = vs.type? w ∨ (vs.set v t).1.type? w = some t := by
  by_cases hroot : vs.root w = vs.root v
  · by_cases hlt : vs.root v < vs.size
    · right
      rw [type?_of_root_eq (w := v)]
      · exact type?_set_self hlt t
      · rw [root_eq_of_skeleton (vs.skeleton_set v t), root_eq_of_skeleton (vs.skeleton_set v t),
          hroot]
    · left
      -- a variable that is not there has no entry to change
      have hnone : ∀ us : TypeVars, us.skeleton = vs.skeleton → us.type? w = none := by
        intro us hs
        rw [type?, root_eq_of_skeleton hs, hroot, Array.getElem?_eq_none]
        · rfl
        · show us.size ≤ _
          rw [size_eq_of_skeleton hs]
          exact Nat.not_lt.1 hlt
      rw [hnone _ (vs.skeleton_set v t), hnone vs rfl]
  · exact .inl (type?_set_of_ne hroot t)

theorem type?_setAll_or (vs : TypeVars) (t : SqlType) (vars : List TypeVar) (w : TypeVar) :
    (vs.setAll t vars).1.type? w = vs.type? w ∨ (vs.setAll t vars).1.type? w = some t := by
  induction vars generalizing vs with
  | nil => exact .inl rfl
  | cons v rest ih =>
    rw [setAll]
    rcases ih (vs.set v t).1 with heq | hsome
    · rcases type?_set_or vs v t w with hsame | hset
      · exact .inl (heq.trans hsame)
      · exact .inr (heq.trans hset)
    · exact .inr hsome

/-- What has no type in the end is unknown. -/
theorem getD_type?_setAll_untyped (vs : TypeVars) (v : TypeVar) :
    ((vs.setAll .unknown vs.untyped).1.type? v).getD .unknown = (vs.type? v).getD .unknown := by
  cases hv : vs.type? v with
  | none =>
    rcases vs.type?_setAll_or .unknown vs.untyped v with heq | hsome
    · rw [heq, hv]
    · rw [hsome]
      rfl
  | some type =>
    rw [type?_setAll_of_ne, hv]
    exact fun w hw => root_ne_of_untyped hv (untyped_of_mem hw)

/-! ### Properties that all steps keep -/

/-- A property that every step of solving keeps. -/
structure Stable (cs : List Constraint) (I : TypeVars → Prop) : Prop where
  forward : ∀ d ∈ cs, ∀ vs, I vs → I (vs.forwardStep d).1
  backward : ∀ d ∈ cs, ∀ vs, I vs → I (vs.backwardStep d).1
  expectation : ∀ d ∈ cs, ∀ vs, I vs → I (vs.expectationStep d).1

/-- Going back sets types only, and only where there are none. -/
theorem stable_of_setAll {I : TypeVars → Prop}
    (hforward : ∀ d ∈ cs, ∀ vs, I vs → I (vs.forwardStep d).1)
    (hset : ∀ d ∈ cs, ∀ vs t vars, t.isInformative = true →
      (∀ v ∈ vars, v ∈ d.vars ∧ vs.type? v = none) → I vs → I (vs.setAll t vars).1) :
    Stable cs I where
  forward := hforward
  backward d hd vs h := by
    obtain ⟨t, vars, ht, hvars, heq⟩ := vs.exists_setAll_backwardStep d
    rw [heq]
    exact hset d hd vs t vars ht hvars h
  expectation d hd vs h := by
    obtain ⟨t, vars, ht, hvars, heq⟩ := vs.exists_setAll_expectationStep d
    rw [heq]
    exact hset d hd vs t vars ht hvars h

namespace Stable

variable {I : TypeVars → Prop}

theorem settleUpTo (h : Stable cs I) (n : Nat) (hvs : I vs) : I (vs.settleUpTo cs n) := by
  induction n generalizing vs with
  | zero => exact hvs
  | succ n ih =>
    have hnext : I (vs.forward cs).1 := pass_keeps h.forward hvs
    show I (if (vs.forward cs).2 then _ else _)
    split
    · exact ih hnext
    · exact hnext

theorem goBack (h : Stable cs I) (hvs : I vs) : I (vs.backward cs).1 := by
  have hback : I (pass backwardStep cs vs).1 := pass_keeps h.backward hvs
  unfold TypeVars.backward
  dsimp only
  split
  · exact hback
  · exact pass_keeps h.expectation hback

theorem propagateUpTo (h : Stable cs I) (n : Nat) (hvs : I vs) : I (vs.propagateUpTo cs n) := by
  induction n generalizing vs with
  | zero => exact hvs
  | succ n ih =>
    have hnext : I ((vs.settle cs).backward cs).1 := h.goBack (h.settleUpTo _ hvs)
    show I (if ((vs.settle cs).backward cs).2 then _ else _)
    split
    · exact ih hnext
    · exact hnext

/-- Propagation starts with a pass forward. -/
theorem propagate (h : Stable cs I) (hvs : I (vs.forward cs).1) : I (vs.propagate cs) := by
  have hsettle : I (vs.settle cs) := by
    have hpos : 0 < stateCount vs.size := Nat.mul_pos (Nat.succ_pos _) (Nat.pow_pos (by decide))
    obtain ⟨n, hn⟩ := Nat.exists_eq_succ_of_ne_zero (Nat.ne_of_gt hpos)
    rw [settle, hn]
    show I (if (vs.forward cs).2 then _ else _)
    split
    · exact h.settleUpTo n hvs
    · exact hvs
  have hnext := h.goBack hsettle
  show I (if ((vs.settle cs).backward cs).2 then _ else _)
  split
  · exact h.propagateUpTo _ hnext
  · exact hnext

/-- The default is propagated where it is given at all. -/
theorem applyDefault {default : SqlType} (h : Stable cs I) (hnone : vs.untypedFree = [] → I vs)
    (hset : I (vs.setAll default vs.untypedFree).1) : I (vs.applyDefault cs default) := by
  unfold TypeVars.applyDefault
  split
  next hempty => exact hnone hempty
  next => exact h.propagate (pass_keeps h.forward hset)

end Stable

/-! ### The class of a declared variable -/

/-- An equation that no longer joins the class of `c`, which has the type `T`, to a free class: its
sides are in one class, or the side that is not free is in another class, or the free side is not
joined because the type says nothing about it. -/
def Settled (vs : TypeVars) (c : TypeVar) (T : SqlType) (a b : TypeVar) : Prop :=
  vs.root a = vs.root b ∨
    vs.isFree a = false ∧ (vs.root a = vs.root c → vs.isFree b = false ∨ T = .null) ∨
    vs.isFree b = false ∧ (vs.root b = vs.root c → vs.isFree a = false ∨ T = .null)

theorem Settled.of_skeleton (hs : vs'.skeleton = vs.skeleton) (h : vs.Settled c T a b) :
    vs'.Settled c T a b := by
  unfold Settled at h ⊢
  simpa only [root_eq_of_skeleton hs, isFree_of_skeleton hs] using h

/-- Joining classes, one of them free, settles nothing anew and unsettles nothing. -/
theorem Settled.joins {x y : TypeVar} (hj : vs.Joins x y vs')
    (hfree : vs.isFree x = true ∨ vs.isFree y = true) (hc : vs.isFree c = false)
    (h : vs.Settled c T a b) : vs'.Settled c T a b := by
  rcases h with hsame | ⟨ha, hb⟩ | ⟨hb, ha⟩
  · exact .inl ((hj.root_eq_iff a b).2 (.inl hsame))
  · refine .inr (.inl ⟨hj.not_free ha, fun hroot => ?_⟩)
    exact (hb (hj.root_eq_of_not_free hfree ha hc hroot)).imp hj.not_free id
  · refine .inr (.inr ⟨hj.not_free hb, fun hroot => ?_⟩)
    exact (ha (hj.root_eq_of_not_free hfree hb hc hroot)).imp hj.not_free id

theorem Settled.symm (h : vs.Settled c T a b) : vs.Settled c T b a := by
  rcases h with hsame | hleft | hright
  · exact .inl hsame.symm
  · exact .inr (.inr hleft)
  · exact .inr (.inl hright)

/-- A settled equation that joins classes does not join the class of `c`. -/
theorem Settled.root_ne (h : vs.Settled c T a b) (hc : vs.isFree c = false)
    (htype : vs.type? c = some T) (hne : vs.root a ≠ vs.root b)
    (hfree : vs.isFree a = true ∨ vs.isFree b = true)
    (ha : vs.isFree a = true ∨ vs.type? a ≠ some .null) : vs.root c ≠ vs.root a := by
  intro hroot
  have hfree_a : vs.isFree a = false := (isFree_of_root_eq hroot).symm.trans hc
  have hfree_b : vs.isFree b = true := hfree.resolve_left (by simp [hfree_a])
  have hnull : T ≠ .null := by
    intro hT
    rw [type?_of_root_eq hroot, hT] at htype
    exact ha.elim (by simp [hfree_a]) (fun h => h htype)
  rcases h with hsame | ⟨_, hb⟩ | ⟨hb, _⟩
  · exact hne hsame
  · exact (hb hroot.symm).elim (by simp [hfree_b]) hnull
  · simp [hfree_b] at hb

/-- The class of `c` has the type `T` and some members, and no equation joins it to a free class
any more. -/
structure Keeps (origin : TypeVars) (cs : List Constraint) (c : TypeVar) (T : SqlType)
    (members : List TypeVar) (vs : TypeVars) : Prop where
  parted : Parted origin vs
  type : vs.type? c = some T
  members : ∀ v ∈ members, vs.root v = vs.root c
  settled : ∀ a b, .equal a b ∈ cs → vs.Settled c T a b

theorem Keeps.retype (h : Keeps origin cs c T members vs) (hs : vs'.skeleton = vs.skeleton)
    (htype : vs'.type? c = some T) :
    Keeps origin cs c T members vs' where
  parted := InLayers.of_skeleton hs h.parted
  type := htype
  members v hv := by rw [root_eq_of_skeleton hs, root_eq_of_skeleton hs, h.members v hv]
  settled a b hab := (h.settled a b hab).of_skeleton hs

/-- Types that are given to classes without one do not matter to the class of `c`. -/
theorem Keeps.setAll {vars : List TypeVar} (h : Keeps origin cs c T members vs) (t : SqlType)
    (hvars : ∀ v ∈ vars, vs.type? v = none) : Keeps origin cs c T members (vs.setAll t vars).1 := by
  refine h.retype (skeleton_setAll t vars vs) ((type?_setAll_of_ne t ?_).trans h.type)
  exact fun v hv => root_ne_of_untyped h.type (hvars v hv)

/-- A variable that is fixed to one type, and to which nothing else gives a type. -/
structure Declares (origin : TypeVars) (cs : List Constraint) (c : TypeVar) (T : SqlType) :
    Prop where
  rigid : origin.IsRigid c
  fixed : .fix c T ∈ cs
  only : ∀ d ∈ cs, d.given? = some c → d = .fix c T

/-- A variable whose type is declared is no target. -/
theorem Declares.target_ne (h : Declares origin cs c T) (hd : d ∈ cs) {t : TypeVar}
    (ht : d.target? = some t) : t ≠ c := by
  rintro rfl
  cases d with
  | derive | widen => cases h.only _ hd ht
  | fix | equal | expect | hint => cases ht

theorem Keeps.forwardStep (hcs : Sane origin cs) (hc : Declares origin cs c T) (hd : d ∈ cs)
    (h : Keeps origin cs c T members vs) : Keeps origin cs c T members (vs.forwardStep d).1 := by
  -- a target is another rigid variable, so it is in another class
  have hset : ∀ t value, d.target? = some t →
      Keeps origin cs c T members (vs.setSome t value).1 := by
    intro t value ht
    refine h.retype (skeleton_setSome t value) ?_
    have hne := h.parted.root_ne hc.rigid (hcs.target hd ht) (hc.target_ne hd ht)
    rw [type?_setSome_of_ne hne, h.type]
  have hfree_c : vs.isFree c = false := h.parted.rigid c hc.rigid
  cases d with
  | derive target rule args => exact hset _ _ rfl
  | widen target args => exact hset _ _ rfl
  | fix | expect | hint => exact h
  | equal a b =>
    have hsettled := h.settled a b hd
    refine equate_keeps h fun hne hfree ha hb => ?_
    obtain ⟨hparted, hj⟩ := h.parted.union hcs hd hne hfree
    have hout : ¬vs.InEither a b c := by
      rintro (hroot | hroot)
      · exact hsettled.root_ne hfree_c h.type hne hfree ha hroot
      · exact hsettled.symm.root_ne hfree_c h.type hne.symm hfree.symm hb hroot
    refine ⟨hparted, ?_, ?_, ?_⟩
    · rw [hj.type_other c hout, h.type]
    · intro v hv
      exact (hj.root_eq_iff v c).2 (.inl (h.members v hv))
    · intro x y hxy
      exact (h.settled x y hxy).joins hj hfree hfree_c

theorem stable_keeps (hcs : Sane origin cs) (hc : Declares origin cs c T) :
    Stable cs (Keeps origin cs c T members) :=
  stable_of_setAll (fun _ hd _ h => h.forwardStep hcs hc hd)
    fun _ _ _ t _ _ hvars h => h.setAll t fun v hv => (hvars v hv).2

/-! ### The first pass -/

/-- In the first pass free classes have no types, and the equations that were met are settled. -/
structure Opens (origin : TypeVars) (c : TypeVar) (T : SqlType) (done : List Constraint)
    (vs : TypeVars) : Prop where
  parted : Parted origin vs
  type : vs.type? c = some T
  untyped : ∀ v, vs.isFree v = true → vs.type? v = none
  settled : ∀ a b, .equal a b ∈ done → vs.Settled c T a b

/-- A constraint that is no equation settles nothing. -/
theorem Opens.add (h : Opens origin c T done vs) (hd : ∀ a b, d = .equal a b → vs.Settled c T a b) :
    Opens origin c T (done ++ [d]) vs := by
  refine { h with settled := ?_ }
  intro a b hab
  rcases mem_append.1 hab with hdone | hnew
  · exact h.settled a b hdone
  · exact hd a b (mem_singleton.1 hnew).symm

/-- The joined class of an equation has the type of the side that is not free. -/
theorem joinTypes_of_free (huntyped : ∀ v, vs.isFree v = true → vs.type? v = none)
    (hfree : vs.isFree a = true ∨ vs.isFree b = true) :
    joinTypes (vs.type? a) (vs.type? b) = (vs.type? a).or (vs.type? b) := by
  rcases hfree with ha | hb
  · rw [huntyped a ha]
    cases vs.type? b <;> rfl
  · rw [huntyped b hb]
    cases vs.type? a <;> rfl

theorem Opens.joins (h : Opens origin c T done vs) (hc : vs.isFree c = false)
    (hparted : Parted origin vs') (hj : vs.Joins a b vs')
    (hfree : vs.isFree a = true ∨ vs.isFree b = true) :
    Opens origin c T (done ++ [.equal a b]) vs' := by
  have hjoin := joinTypes_of_free h.untyped hfree
  -- the class that `c` is in is not free, so the other one is, and has no type
  have hother : ∀ {x y : TypeVar}, vs.root c = vs.root x → vs.isFree x = true ∨ vs.isFree y = true →
      vs.type? x = some T ∧ vs.type? y = none := by
    intro x y hroot hfree
    have hx : vs.isFree x = false := (isFree_of_root_eq hroot).symm.trans hc
    exact ⟨(type?_of_root_eq hroot).symm.trans h.type,
      h.untyped y (hfree.resolve_left (by simp [hx]))⟩
  have hopens : Opens origin c T done vs' := by
    refine ⟨hparted, ?_, ?_, ?_⟩
    · by_cases hin : vs.InEither a b c
      · rw [hj.type c hin, hjoin]
        rcases hin with hroot | hroot
        · rw [(hother hroot hfree).1, (hother hroot hfree).2]
          rfl
        · rw [(hother hroot hfree.symm).1, (hother hroot hfree.symm).2]
          rfl
      · rw [hj.type_other c hin, h.type]
    · intro v hv
      by_cases hin : vs.InEither a b v
      · rw [hj.free v hin, Bool.and_eq_true] at hv
        rw [hj.type v hin, h.untyped a hv.1, h.untyped b hv.2]
        rfl
      · rw [hj.free_other v hin] at hv
        rw [hj.type_other v hin, h.untyped v hv]
    · intro x y hxy
      exact (h.settled x y hxy).joins hj hfree hc
  refine hopens.add ?_
  rintro x y ⟨⟩
  exact .inl ((hj.root_eq_iff a b).2 (.inr ⟨.inl rfl, .inr rfl⟩))

/-- An equation that joins nothing is settled. -/
theorem settled_of_null (htype : vs.type? c = some T) (ha : vs.isFree a = false)
    (hnull : vs.type? a = some .null) : vs.Settled c T a b := by
  refine .inr (.inl ⟨ha, fun hroot => .inr ?_⟩)
  rw [type?_of_root_eq hroot.symm, hnull] at htype
  exact (Option.some_inj.1 htype).symm

theorem Opens.forwardStep (hcs : Sane origin cs) (hc : Declares origin cs c T) (hd : d ∈ cs)
    (h : Opens origin c T done vs) : Opens origin c T (done ++ [d]) (vs.forwardStep d).1 := by
  have hfree_c : vs.isFree c = false := h.parted.rigid c hc.rigid
  have hset : ∀ t value, d.target? = some t →
      Opens origin c T done (vs.setSome t value).1 := by
    intro t value ht
    have hrigid := hcs.target hd ht
    have hs : (vs.setSome t value).1.skeleton = vs.skeleton := skeleton_setSome t value
    refine ⟨InLayers.of_skeleton hs h.parted, ?_, ?_, ?_⟩
    · rw [type?_setSome_of_ne (h.parted.root_ne hc.rigid hrigid (hc.target_ne hd ht)), h.type]
    · intro v hv
      rw [isFree_of_skeleton hs] at hv
      -- the class of a target is not free
      have hne : vs.root v ≠ vs.root t := by
        intro heq
        rw [isFree_of_root_eq heq, isFree_eq, h.parted.rigid t hrigid] at hv
        cases hv
      rw [type?_setSome_of_ne hne, h.untyped v hv]
    · intro a b hab
      exact (h.settled a b hab).of_skeleton hs
  cases d with
  | derive | widen => exact (hset _ _ rfl).add nofun
  | fix | expect | hint => exact h.add nofun
  | equal a b =>
    have hequates := vs.equates_equate a b
    show Opens origin c T _ (vs.equate a b).1
    generalize (vs.equate a b).1 = next at hequates
    cases hequates with
    | same hsame => exact h.add (by rintro x y ⟨⟩; exact .inl hsame)
    | rigid ha hb => exact h.add (by rintro x y ⟨⟩; exact .inr (.inl ⟨ha, fun _ => .inl hb⟩))
    | nullLeft ha hnull => exact h.add (by rintro x y ⟨⟩; exact settled_of_null h.type ha hnull)
    | nullRight hb hnull =>
      exact h.add (by rintro x y ⟨⟩; exact (settled_of_null h.type hb hnull).symm)
    | joined hne hfree ha hb =>
      obtain ⟨hparted, hj⟩ := h.parted.union hcs hd hne hfree
      exact h.joins hfree_c hparted hj hfree

/-! ### Variables that are equated once -/

/-- A variable in a class of its own. -/
def Alone (vs : TypeVars) (p : TypeVar) : Prop := ∀ v, vs.root v = vs.root p → v = p

theorem Alone.of_skeleton (hs : vs'.skeleton = vs.skeleton) (h : vs.Alone p) : vs'.Alone p := by
  intro v hv
  rw [root_eq_of_skeleton hs, root_eq_of_skeleton hs] at hv
  exact h v hv

theorem Alone.not_inEither (h : vs.Alone p) (ha : a ≠ p) (hb : b ≠ p) : ¬vs.InEither a b p := by
  rintro (hroot | hroot)
  · exact ha (h a hroot.symm)
  · exact hb (h b hroot.symm)

theorem Alone.joins (h : vs.Alone p) (hj : vs.Joins a b vs') (hout : ¬vs.InEither a b p) :
    vs'.Alone p := by
  intro v hv
  rcases (hj.root_eq_iff v p).1 hv with hroot | ⟨_, hin⟩
  · exact h v hroot
  · exact absurd hin hout

/-- Every equation of `p` is one with `c`. -/
def EquatedOnly (cs : List Constraint) (p c : TypeVar) : Prop :=
  ∀ a b, .equal a b ∈ cs → (a = p → b = c) ∧ (b = p → a = c)

/-- In the first pass a free variable stays alone until it is joined to `c`. -/
structure Awaits (origin : TypeVars) (c p : TypeVar) (vs : TypeVars) : Prop where
  parted : Parted origin vs
  waits : vs.root p = vs.root c ∨ vs.Alone p ∧ vs.isFree p = true

theorem Awaits.forwardStep (hcs : Sane origin cs) (hp : EquatedOnly cs p c) (hd : d ∈ cs)
    (h : Awaits origin c p vs) : Awaits origin c p (vs.forwardStep d).1 := by
  have hset : ∀ t value, Awaits origin c p (vs.setSome t value).1 := by
    intro t value
    have hs : (vs.setSome t value).1.skeleton = vs.skeleton := skeleton_setSome t value
    refine ⟨InLayers.of_skeleton hs h.parted, ?_⟩
    rw [root_eq_of_skeleton hs, root_eq_of_skeleton hs, isFree_of_skeleton hs]
    exact h.waits.imp id fun hw => ⟨hw.1.of_skeleton hs, hw.2⟩
  cases d with
  | derive | widen => exact hset _ _
  | fix | expect | hint => exact h
  | equal a b =>
    obtain ⟨hleft, hright⟩ := hp a b hd
    refine equate_keeps h fun hne hfree _ _ => ?_
    obtain ⟨hparted, hj⟩ := h.parted.union hcs hd hne hfree
    refine ⟨hparted, ?_⟩
    rw [hj.root_eq_iff]
    rcases h.waits with hroot | ⟨halone, hfree_p⟩
    · exact .inl (.inl hroot)
    · by_cases hap : a = p
      · exact .inl (.inr ⟨.inl (by rw [hap]), .inr (by rw [hleft hap])⟩)
      · by_cases hbp : b = p
        · exact .inl (.inr ⟨.inr (by rw [hbp]), .inl (by rw [hright hbp])⟩)
        · have hout := halone.not_inEither hap hbp
          exact .inr ⟨halone.joins hj hout, by rw [hj.free_other p hout, hfree_p]⟩

/-- Once its equation with `c` is settled, a variable that was alone is joined to `c`. -/
theorem Awaits.root_eq (h : Awaits origin c p vs) (hsettled : vs.Settled c T p c)
    (hT : T ≠ .null) : vs.root p = vs.root c := by
  rcases h.waits with hroot | ⟨_, hfree⟩
  · exact hroot
  · rcases hsettled with hsame | ⟨hrigid, _⟩ | ⟨_, hother⟩
    · exact hsame
    · simp [hfree] at hrigid
    · rcases hother rfl with hrigid | hnull
      · simp [hfree] at hrigid
      · exact absurd hnull hT

/-! ### Fixed types -/

theorem Fresh.root_eq (h : origin.Fresh) (v : TypeVar) : origin.root v = v.index :=
  root_of_root (h.parent_eq v.index)

theorem Fresh.alone (h : origin.Fresh) (v : TypeVar) : origin.Alone v := by
  intro w hw
  rw [h.root_eq, h.root_eq] at hw
  cases v
  cases w
  exact congrArg TypeVar.mk hw

theorem Fresh.untyped (h : origin.Fresh) (v : TypeVar) : origin.type? v = none := by
  rw [type?, h.root_eq]
  by_cases hv : v.index < origin.size
  · obtain ⟨free, hentry⟩ := h v.index hv
    rw [hentry]
    rfl
  · rw [Array.getElem?_eq_none (Nat.not_lt.1 hv)]
    rfl

/-- Fixing types gives none to a variable that is not fixed. -/
theorem type?_fixed_of_not_fixed (hfresh : origin.Fresh) (hp : ∀ t, .fix p t ∉ cs) :
    (pass fixStep cs origin).1.type? p = none := by
  have hkeeps : ∀ d ∈ cs, ∀ vs : TypeVars, vs.skeleton = origin.skeleton ∧ vs.type? p = none →
      (vs.fixStep d).1.skeleton = origin.skeleton ∧ (vs.fixStep d).1.type? p = none := by
    rintro d hd vs ⟨hs, hnone⟩
    refine ⟨(skeleton_fixStep vs d).trans hs, ?_⟩
    cases d with
    | fix v t =>
      refine (type?_set_of_ne ?_ _).trans hnone
      intro hroot
      rw [root_eq_of_skeleton hs, root_eq_of_skeleton hs] at hroot
      exact hp t (hfresh.alone v p hroot ▸ hd)
    | equal | derive | widen | expect | hint => exact hnone
  exact (pass_keeps hkeeps ⟨rfl, hfresh.untyped p⟩).2

/-- Fixing types gives none to a variable that is not rigid. -/
theorem type?_fixed_of_not_rigid (hcs : Sane origin cs) (hp : ¬origin.IsRigid p) :
    (pass fixStep cs origin).1.type? p = none :=
  type?_fixed_of_not_fixed hcs.fresh fun _ ht => hp (hcs.given _ ht p rfl)

/-- One step of fixing types gives a declared variable its type, or leaves it as it was. -/
theorem type?_fixStep_of_declares (hcs : Sane origin cs) (hc : Declares origin cs c T)
    (hs : vs.skeleton = origin.skeleton) (htype : vs.type? c = none ∨ vs.type? c = some T)
    (hd : d ∈ cs) :
    (d = .fix c T → (vs.fixStep d).1.type? c = some T) ∧
      ((vs.fixStep d).1.type? c = vs.type? c ∨ (vs.fixStep d).1.type? c = some T) := by
  have hset : (vs.widen c T).1.type? c = some T := by
    have hlt : vs.root c < vs.size := by
      rw [root_eq_of_skeleton hs, size_eq_of_skeleton hs, hcs.fresh.root_eq]
      exact hc.rigid.lt
    rcases htype with hnone | hsome
    · rw [widen, hnone]
      exact type?_set_self hlt _
    · rw [widen, hsome]
      simpa using type?_set_self hlt T
  cases d with
  | fix v t =>
    by_cases hv : v = c
    · subst hv
      cases hc.only _ hd rfl
      exact ⟨fun _ => hset, .inr hset⟩
    · refine ⟨fun heq => absurd (Constraint.fix.inj heq).1 hv, .inl (type?_set_of_ne ?_ _)⟩
      intro hroot
      rw [root_eq_of_skeleton hs, root_eq_of_skeleton hs] at hroot
      exact hv (hcs.fresh.alone c v hroot.symm)
  | equal | derive | widen | expect | hint => exact ⟨nofun, .inl rfl⟩

theorem type?_fixed_of_declares (hcs : Sane origin cs) (hc : Declares origin cs c T) :
    (pass fixStep cs origin).1.type? c = some T := by
  have hpass := @pass_meets origin fixStep
    (fun met vs => vs.skeleton = origin.skeleton ∧
      (vs.type? c = none ∨ vs.type? c = some T) ∧ (.fix c T ∈ met → vs.type? c = some T)) cs [] ?_
    ⟨rfl, .inl (hcs.fresh.untyped c), nofun⟩
  · exact hpass.2.2 hc.fixed
  rintro d hd met vs ⟨hs, htype, hmet⟩
  obtain ⟨hfix, hstep⟩ := type?_fixStep_of_declares hcs hc hs htype hd
  refine ⟨(skeleton_fixStep vs d).trans hs, ?_, ?_⟩
  · rcases hstep with hsame | hsome
    · rwa [hsame]
    · exact .inr hsome
  · intro hmem
    rcases mem_append.1 hmem with hold | hnew
    · exact hstep.elim (fun hsame => hsame.trans (hmet hold)) id
    · exact hfix (mem_singleton.1 hnew).symm

theorem opens_fixed (hcs : Sane origin cs) (hc : Declares origin cs c T) :
    Opens origin c T [] (pass fixStep cs origin).1 := by
  have hs : (TypeVars.pass fixStep cs origin).1.skeleton = origin.skeleton :=
    pass_skeleton skeleton_fixStep cs origin
  refine ⟨InLayers.of_skeleton hs (hcs.fresh.inLayers _), type?_fixed_of_declares hcs hc, ?_, nofun⟩
  intro v hv
  refine type?_fixed_of_not_rigid hcs fun hrigid => ?_
  rw [isFree_of_skeleton hs, isFree_eq, (hcs.fresh.inLayers fun _ => 0).rigid v hrigid] at hv
  cases hv

end

section

variable {origin : TypeVars} {cs : List Constraint} {p : TypeVar} {t : Option SqlType}

/-- A free variable that is alone and has a type, or none. -/
structure Apart (p : TypeVar) (t : Option SqlType) (origin vs : TypeVars) : Prop where
  parted : Parted origin vs
  alone : vs.Alone p
  free : vs.isFree p = true
  type : vs.type? p = t

variable {vs : TypeVars}

theorem Apart.retype {vs' : TypeVars} {t' : Option SqlType} (h : Apart p t origin vs)
    (hs : vs'.skeleton = vs.skeleton) (htype : vs'.type? p = t') : Apart p t' origin vs' where
  parted := InLayers.of_skeleton hs h.parted
  alone := h.alone.of_skeleton hs
  free := (isFree_of_skeleton hs p).trans h.free
  type := htype

/-- No step touches a variable that its constraint does not speak of. -/
theorem stable_apart (hcs : Sane origin cs) (hp : ∀ d ∈ cs, p ∉ d.vars) :
    Stable cs (Apart p t origin) := by
  have hne : ∀ {vs : TypeVars} {v : TypeVar}, Apart p t origin vs → v ≠ p →
      vs.root p ≠ vs.root v :=
    fun h hv hroot => hv (h.alone _ hroot.symm)
  refine stable_of_setAll ?_ ?_
  · intro d hd vs h
    have hvars := hp d hd
    cases d with
    | derive target rule args | widen target args =>
      refine h.retype (skeleton_setSome _ _) ((type?_setSome_of_ne (hne h ?_) _).trans h.type)
      rintro rfl
      exact hvars mem_cons_self
    | fix | expect | hint => exact h
    | equal a b =>
      simp only [Constraint.vars, mem_cons, not_mem_nil, or_false, not_or] at hvars
      refine equate_keeps h fun hroots hfree _ _ => ?_
      obtain ⟨hparted, hj⟩ := h.parted.union hcs hd hroots hfree
      have hout := h.alone.not_inEither (Ne.symm hvars.1) (Ne.symm hvars.2)
      exact ⟨hparted, h.alone.joins hj hout, (hj.free_other p hout).trans h.free,
        (hj.type_other p hout).trans h.type⟩
  · intro d hd vs t' vars _ hvars h
    refine h.retype (skeleton_setAll t' vars vs) ((type?_setAll_of_ne t' ?_).trans h.type)
    intro v hv
    refine hne h ?_
    rintro rfl
    exact hp d hd (hvars v hv).1

theorem lt_of_isFree (h : vs.isFree p = true) : vs.root p < vs.size := by
  by_contra hlt
  rw [isFree, Array.getElem?_eq_none (Nat.not_lt.1 hlt)] at h
  cases h

theorem type?_setAll_of_mem {vars : List TypeVar} (hlt : vs.root p < vs.size) (hmem : p ∈ vars)
    (type : SqlType) : (vs.setAll type vars).1.type? p = some type := by
  -- once a type is set, it is only set again
  have hagain : ∀ (vars : List TypeVar) (vs : TypeVars), vs.root p < vs.size →
      vs.type? p = some type → (vs.setAll type vars).1.type? p = some type := by
    intro vars
    induction vars with
    | nil => exact fun _ _ hp => hp
    | cons v rest ih =>
      intro vs hlt hp
      have hs := vs.skeleton_set v type
      rw [setAll]
      refine ih _ (by rwa [root_eq_of_skeleton hs, size_eq_of_skeleton hs]) ?_
      by_cases hroot : vs.root p = vs.root v
      · have hset : (vs.set v type).1.type? v = some type := type?_set_self (hroot ▸ hlt) type
        rw [type?_of_root_eq (w := v), hset]
        rw [root_eq_of_skeleton hs, root_eq_of_skeleton hs, hroot]
      · rw [type?_set_of_ne hroot, hp]
  induction vars generalizing vs with
  | nil => cases hmem
  | cons v rest ih =>
    have hs := vs.skeleton_set v type
    have hlt' : (vs.set v type).1.root p < (vs.set v type).1.size := by
      rwa [root_eq_of_skeleton hs, size_eq_of_skeleton hs]
    rw [setAll]
    rcases mem_cons.1 hmem with rfl | hmem
    · exact hagain rest _ hlt' (type?_set_self hlt type)
    · exact ih hlt' hmem

/-- A variable that is alone, free and without a type waits for the default. -/
theorem Apart.mem_untypedFree (h : Apart p none origin vs) : p ∈ vs.untypedFree := by
  have hlt := lt_of_isFree h.free
  have hroot : vs.root p = p.index := by
    have hself := h.alone ⟨vs.root p⟩ (root_of_root (h.parted.wellFormed.parent_root p))
    exact congrArg TypeVar.index hself
  refine mem_filter.2 ⟨mem_map.2 ⟨p.index, mem_filter.2 ⟨?_, ?_⟩, rfl⟩, h.free⟩
  · exact mem_range.2 (hroot ▸ hlt)
  · have hparent : vs.parent p.index = p.index := by
      rw [← hroot]
      exact h.parted.wellFormed.parent_root p
    simp [isUntypedRoot, hparent, h.type]

end

end TypeVars

namespace Solver

open TypeVars

variable {s : Solver} {c p : TypeVar} {T default : SqlType}

/-- A solver whose constraints give types only to rigid variables. -/
abbrev Sane (s : Solver) : Prop := TypeVars.Sane s.vars s.constraints.toList

/-- A variable that a solver fixes to one type, and to which nothing else gives a type. -/
abbrev Declares (s : Solver) (c : TypeVar) (T : SqlType) : Prop :=
  TypeVars.Declares s.vars s.constraints.toList c T

/-- The types before those that are left become unknown. -/
def defaulted (s : Solver) (default : SqlType) : TypeVars :=
  (s.fixed.propagate s.constraints.toList).applyDefault s.constraints.toList default

theorem vars_solve (s : Solver) (default : SqlType) : (s.solve default).vars =
    ((s.defaulted default).setAll .unknown (s.defaulted default).untyped).1 := by
  simp only [solve, defaulted, fixed]

theorem resolved_solve (s : Solver) (default : SqlType) (v : TypeVar) :
    (s.solve default).resolved v = ((s.defaulted default).type? v).getD .unknown := by
  rw [resolved, vars_solve, getD_type?_setAll_untyped]

theorem resolved_of_keeps {members : List TypeVar} {v : TypeVar} (hs : s.Sane)
    (hc : s.Declares c T)
    (h : Keeps s.vars s.constraints.toList c T members (s.fixed.forward s.constraints.toList).1)
    (hv : v ∈ c :: members) : (s.solve default).resolved v = T := by
  have hstable : Stable s.constraints.toList (Keeps s.vars s.constraints.toList c T members) :=
    stable_keeps hs hc
  have hpropagated := hstable.propagate h
  have hend : Keeps s.vars s.constraints.toList c T members (s.defaulted default) :=
    hstable.applyDefault (fun _ => hpropagated)
      (hpropagated.setAll _ fun v hv => untyped_of_mem (mem_filter.1 hv).1)
  have hroot : (s.defaulted default).root v = (s.defaulted default).root c := by
    rcases mem_cons.1 hv with rfl | hv
    · rfl
    · exact hend.members v hv
  rw [resolved_solve, type?_of_root_eq hroot, hend.type]
  rfl

/-- A variable ends with the type it is declared to have. -/
theorem resolved_of_declares (hs : s.Sane) (hc : s.Declares c T) :
    (s.solve default).resolved c = T := by
  have hopens := pass_meets (I := Opens s.vars c T) (m := [])
    (fun _ hd _ _ h => h.forwardStep hs hc hd) (opens_fixed hs hc)
  have hkeeps : Keeps s.vars s.constraints.toList c T []
      (s.fixed.forward s.constraints.toList).1 :=
    ⟨hopens.parted, hopens.type, nofun, hopens.settled⟩
  exact resolved_of_keeps hs hc hkeeps mem_cons_self

/-- A free variable that is equated with a declared one, and with nothing else, ends with its type,
unless that says nothing. -/
theorem resolved_of_equated (hs : s.Sane) (hc : s.Declares c T) (hT : T ≠ .null)
    (hfree : s.vars.isFree p = true)
    (hmem : .equal p c ∈ s.constraints.toList ∨ .equal c p ∈ s.constraints.toList)
    (honly : EquatedOnly s.constraints.toList p c) : (s.solve default).resolved p = T := by
  have hopens := pass_meets (I := Opens s.vars c T) (m := [])
    (fun _ hd _ _ h => h.forwardStep hs hc hd) (opens_fixed hs hc)
  have hstart : Awaits s.vars c p s.fixed := by
    have hskeleton := s.skeleton_fixed
    refine ⟨(opens_fixed hs hc).parted, .inr ⟨(hs.fresh.alone p).of_skeleton hskeleton, ?_⟩⟩
    rw [isFree_of_skeleton hskeleton, hfree]
  have hend := pass_keeps (fun _ hd _ h => Awaits.forwardStep hs honly hd h) hstart
  have hkeeps : Keeps s.vars s.constraints.toList c T [p]
      (s.fixed.forward s.constraints.toList).1 := by
    refine ⟨hopens.parted, hopens.type, ?_, hopens.settled⟩
    intro v hv
    rw [mem_singleton.1 hv]
    refine hend.root_eq (T := T) ?_ hT
    exact hmem.elim (hopens.settled p c) fun hmem => (hopens.settled c p hmem).symm
  exact resolved_of_keeps hs hc hkeeps (by simp)

/-- A free variable that no constraint speaks of ends with the default. -/
theorem resolved_of_unmentioned (hs : s.Sane) (hfree : s.vars.isFree p = true)
    (hp : ∀ d ∈ s.constraints.toList, p ∉ d.vars) : (s.solve default).resolved p = default := by
  have hrigid : ¬s.vars.IsRigid p := by
    intro hrigid
    rw [isFree_eq, (hs.fresh.inLayers fun _ => 0).rigid p hrigid] at hfree
    cases hfree
  have hstable : ∀ t, Stable s.constraints.toList (Apart p t s.vars) := fun t => stable_apart hs hp
  have hstart : Apart p none s.vars s.fixed := by
    have horigin : Apart p none s.vars s.vars :=
      ⟨hs.fresh.inLayers _, hs.fresh.alone p, hfree, hs.fresh.untyped p⟩
    exact horigin.retype s.skeleton_fixed (type?_fixed_of_not_rigid hs hrigid)
  have hpropagated : Apart p none s.vars (s.fixed.propagate s.constraints.toList) :=
    (hstable none).propagate (pass_keeps (hstable none).forward hstart)
  have hpending := hpropagated.mem_untypedFree
  have hdefaulted : Apart p (some default) s.vars (s.defaulted default) := by
    refine (hstable _).applyDefault (fun hnone => ?_)
      (hpropagated.retype (skeleton_setAll _ _ _) ?_)
    · rw [hnone] at hpending
      cases hpending
    · exact type?_setAll_of_mem (lt_of_isFree hpropagated.free) hpending default
  rw [resolved_solve, hdefaulted.type]
  rfl

end Solver

end SqlSignature
