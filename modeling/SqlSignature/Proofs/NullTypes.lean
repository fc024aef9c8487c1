import SqlSignature.Proofs.DeclaredTypes
/-!
# SqlSignature.Proofs.NullTypes

Free variables never take the type of `NULL`. An equation does not join a free class to a class
whose type is `null`, but at a later time the type of a joined class could still become `null`. That
it does not is due to the order of constraints: the target of a derivation is a rigid variable that
no earlier constraint speaks of (`Constraint.Ordered`). So a target is alone when its type is first
derived, and if that type is not `null` then, it never is: types flow back, are expected or given by
default only where there is none, and none of them is `null` (`TypeVars.Guarded`).
-/

open List

namespace SqlSignature

open Constraint

namespace SqlType

theorem promote_eq_null {a b : SqlType} (h : a.promote b = null) : a = null ∧ b = null := by
  revert a b
  decide +kernel

theorem arithmetic_ne_null (a b : SqlType) : a.arithmetic b ≠ null := by
  unfold arithmetic
  split
  · nofun
  split
  · nofun
  split
  · nofun
  split <;> nofun

theorem division_ne_null (a b : SqlType) : a.division b ≠ null := by
  unfold division
  split
  · nofun
  · exact arithmetic_ne_null a b

end SqlType

/-! ### Values that are null -/

theorem foldl_eq_null {f : SqlType → SqlType → SqlType}
    (hf : ∀ a b, f a b = .null → a = .null ∧ b = .null) {first : SqlType} {rest : List SqlType}
    (h : rest.foldl f first = .null) : ∀ t ∈ first :: rest, t = .null := by
  induction rest generalizing first with
  | nil => exact fun t ht => (mem_singleton.1 ht).trans h
  | cons second rest ih =>
    obtain ⟨hboth, hrest⟩ := forall_mem_cons.1 (ih h)
    obtain ⟨hfirst, hsecond⟩ := hf _ _ hboth
    exact forall_mem_cons.2 ⟨hfirst, forall_mem_cons.2 ⟨hsecond, hrest⟩⟩

/-- Types combine to `null` only if all are. -/
theorem combineTypes_eq_null {f : SqlType → SqlType → SqlType}
    (hf : ∀ a b, f a b = .null → a = .null ∧ b = .null) {types : List SqlType}
    (h : combineTypes f types = some .null) : ∀ t ∈ types, t = .null := by
  cases types with
  | nil => cases h
  | cons first rest => exact foldl_eq_null hf (Option.some.inj h)

theorem eq_map_some_of_allTypes {args : List (Option SqlType)} {types : List SqlType}
    (h : allTypes args = some types) : args = types.map some := by
  induction args generalizing types with
  | nil => cases h; rfl
  | cons arg args ih =>
    cases arg with
    | none => cases h
    | some t =>
      obtain ⟨rest, hrest, rfl⟩ := Option.map_eq_some_iff.1 h
      rw [ih hrest]
      rfl

/-- Some variables were given types other than `null`, and the others kept theirs. -/
def Raises (types types' : TypeVar → Option SqlType) : Prop :=
  ∀ v, types' v = types v ∨ ∃ t, t ≠ .null ∧ types' v = some t

variable {types types' : TypeVar → Option SqlType} {c : Constraint} {t : TypeVar}

theorem Raises.eq_of_null (h : Raises types types') {v : TypeVar} (hv : types' v = some .null) :
    types v = some .null := by
  rcases h v with heq | ⟨t, ht, hsome⟩
  · rw [← heq, hv]
  · rw [hsome] at hv
    exact absurd (Option.some.inj hv) ht

theorem Raises.map_eq (h : Raises types types') {args : List TypeVar}
    (hargs : ∀ v ∈ args, ∀ t, types' v = some t → t = .null) : ∀ v ∈ args, types' v = types v := by
  intro v hv
  rcases h v with heq | ⟨t, ht, hsome⟩
  · exact heq
  · exact absurd (hargs v hv t hsome) ht

/-- Types other than `null` do not make a value `null`. -/
theorem Constraint.value_eq_null_of_raises (h : Raises types types')
    (hvalue : c.value types' = some .null) : c.value types = some .null := by
  -- if the value combines all arguments, then all are `null`, and none was given a type
  have hcombined : ∀ {f : SqlType → SqlType → SqlType} {args : List TypeVar},
      (∀ a b, f a b = .null → a = .null ∧ b = .null) →
      (allTypes (args.map types')).bind (combineTypes f) = some .null →
      (allTypes (args.map types)).bind (combineTypes f) = some .null := by
    intro f args hf hnull
    obtain ⟨found, hfound, hcombine⟩ := Option.bind_eq_some_iff.1 hnull
    have hall := combineTypes_eq_null hf hcombine
    have hargs : ∀ v ∈ args, ∀ t, types' v = some t → t = .null := by
      intro v hv t ht
      have hmem : some t ∈ found.map some := by
        rw [← eq_map_some_of_allTypes hfound, ← ht]
        exact mem_map_of_mem hv
      obtain ⟨u, hu, heq⟩ := mem_map.1 hmem
      exact Option.some.inj heq ▸ hall u hu
    rwa [← map_congr_left (h.map_eq hargs)]
  cases c with
  | derive target rule args =>
    cases rule with
    | arithmetic =>
      exact hcombined (fun a b hab => absurd hab (SqlType.arithmetic_ne_null a b)) hvalue
    | division => exact hcombined (fun a b hab => absurd hab (SqlType.division_ne_null a b)) hvalue
    | promote => exact hcombined (fun _ _ => SqlType.promote_eq_null) hvalue
    | sum =>
      simp only [Constraint.value, DeriveRule.apply] at hvalue
      split at hvalue
      · split at hvalue
        · cases hvalue
        · split at hvalue <;> cases hvalue
      · cases hvalue
    | sameAs position =>
      simp only [Constraint.value, DeriveRule.apply, getElem?_map] at hvalue ⊢
      cases harg : args[position]? with
      | none => rw [harg] at hvalue; cases hvalue
      | some v =>
        rw [harg] at hvalue
        exact h.eq_of_null hvalue
  | widen target args =>
    have hall := combineTypes_eq_null (fun _ _ => SqlType.promote_eq_null) hvalue
    have hargs : ∀ v ∈ args, ∀ t, types' v = some t → t = .null :=
      fun v hv t ht => hall t (mem_filterMap.2 ⟨v, hv, ht⟩)
    show combineTypes _ (args.filterMap types) = _
    rw [← filterMap_congr (h.map_eq hargs)]
    exact hvalue
  | fix | equal | expect | hint => cases hvalue

/-! ### The order of constraints -/

/-- No variable is spoken of before it is given its type. -/
def Constraint.Ordered (cs : List Constraint) : Prop :=
  cs.Pairwise fun earlier later => ∀ t, later.given? = some t → t ∉ earlier.vars

theorem Constraint.given_of_target (h : c.target? = some t) : c.given? = some t := by
  cases c with
  | derive | widen => exact h
  | fix | equal | expect | hint => cases h

theorem Constraint.given_mem_vars (h : c.given? = some t) : t ∈ c.vars := by
  cases c with
  | fix | derive | widen => cases h; exact mem_cons_self
  | equal | expect | hint => cases h

theorem Constraint.target_mem_vars (h : c.target? = some t) : t ∈ c.vars :=
  given_mem_vars (given_of_target h)

theorem Constraint.args_subset_vars {v : TypeVar} (h : v ∈ c.args) : v ∈ c.vars := by
  cases c with
  | derive | widen => exact mem_cons_of_mem _ h
  | fix | equal | expect | hint => cases h

/-- Constraints that give a type to one variable are one. -/
theorem Constraint.Ordered.eq_of_given {cs : List Constraint} (h : Constraint.Ordered cs)
    {d : Constraint} (hc : c ∈ cs) (hd : d ∈ cs) (hct : c.given? = some t)
    (hdt : d.given? = some t) : c = d := by
  induction cs with
  | nil => cases hc
  | cons first rest ih =>
    obtain ⟨hfirst, hrest⟩ := pairwise_cons.1 h
    rcases mem_cons.1 hc with rfl | hcrest
    · rcases mem_cons.1 hd with rfl | hdrest
      · rfl
      · exact absurd (given_mem_vars hct) (hfirst d hdrest t hdt)
    · rcases mem_cons.1 hd with rfl | hdrest
      · exact absurd (given_mem_vars hdt) (hfirst c hcrest t hct)
      · exact ih hrest hcrest hdrest

namespace TypeVars

/-! ### Free classes without the type of `NULL` -/

/-- No class with a variable that is free has the type `null`, and of the constraints that were met,
those whose value is `null` have given their target that type. Those that are yet to come have
targets that are alone. -/
structure Guarded (origin : TypeVars) (met coming : List Constraint) (vs : TypeVars) : Prop where
  parted : Parted origin vs
  safe : ∀ v, v.index < origin.size → ¬origin.IsRigid v → vs.type? v ≠ some .null
  met : ∀ d ∈ met, ∀ t, d.target? = some t → d.value vs.type? = some .null →
    vs.type? t = some .null
  coming : ∀ d ∈ coming, ∀ t, d.target? = some t → vs.Alone t

variable {origin vs vs' : TypeVars} {cs met coming : List Constraint}

/-- Steps that give classes types other than `null`, but no target whose value is `null`. -/
theorem Guarded.raise (h : Guarded origin met coming vs) (hparted : Parted origin vs')
    (hraises : Raises vs.type? vs'.type?)
    (hkeeps : ∀ d ∈ met, ∀ t, d.target? = some t → d.value vs.type? = some .null →
      vs.type? t = some .null → vs'.type? t = some .null)
    (hcoming : ∀ d ∈ coming, ∀ t, d.target? = some t → vs'.Alone t) :
    Guarded origin met coming vs' where
  parted := hparted
  safe v hv hrigid hnull := h.safe v hv hrigid (hraises.eq_of_null hnull)
  met d hd t ht hvalue := by
    have hbefore := value_eq_null_of_raises hraises hvalue
    exact hkeeps d hd t ht hbefore (h.met d hd t ht hbefore)
  coming := hcoming

/-- Steps that only set types. -/
theorem Guarded.retype (h : Guarded origin met coming vs) (hs : vs'.skeleton = vs.skeleton)
    (hraises : Raises vs.type? vs'.type?)
    (hkeeps : ∀ d ∈ met, ∀ t, d.target? = some t → d.value vs.type? = some .null →
      vs.type? t = some .null → vs'.type? t = some .null) : Guarded origin met coming vs' :=
  h.raise (InLayers.of_skeleton hs h.parted) hraises hkeeps
    fun d hd t ht => (h.coming d hd t ht).of_skeleton hs

variable {t : SqlType} {d : Constraint}

theorem raises_set (vs : TypeVars) (v : TypeVar) (ht : t ≠ .null) :
    Raises vs.type? (vs.set v t).1.type? :=
  fun w => (type?_set_or vs v t w).imp_right fun hsome => ⟨t, ht, hsome⟩

theorem raises_setAll (vs : TypeVars) (ht : t ≠ .null) (vars : List TypeVar) :
    Raises vs.type? (vs.setAll t vars).1.type? :=
  fun w => (type?_setAll_or vs t vars w).imp_right fun hsome => ⟨t, ht, hsome⟩

/-- Setting types of classes that have none. -/
theorem Guarded.setAll (h : Guarded origin met coming vs) (ht : t ≠ .null) (vars : List TypeVar)
    (hvars : ∀ v ∈ vars, vs.type? v = none) : Guarded origin met coming (vs.setAll t vars).1 := by
  refine h.retype (skeleton_setAll t vars vs) (raises_setAll vs ht vars) ?_
  intro d _ target _ _ hnull
  rw [type?_setAll_of_ne, hnull]
  exact fun v hv => root_ne_of_untyped hnull (hvars v hv)

theorem ne_null_of_isInformative (h : t.isInformative = true) : t ≠ .null := by
  rintro rfl
  cases h

/-! ### Going forward -/

section

variable (h : Guarded origin met coming vs) (hcs : Sane origin cs)

include h hcs

/-- An equation joins no class whose type is `null`. -/
theorem Guarded.equate {a b : TypeVar}
    (hab : .equal a b ∈ cs) (hcoming : ∀ d ∈ coming, ∀ t, d.target? = some t → a ≠ t ∧ b ≠ t) :
    Guarded origin met coming (vs.equate a b).1 := by
  refine equate_keeps h fun hne hfree ha hb => ?_
  obtain ⟨hparted, hj⟩ := h.parted.union hcs hab hne hfree
  obtain ⟨hlta, hltb⟩ := hcs.equated a b hab
  have hside : ∀ {x : TypeVar}, x.index < origin.size →
      vs.isFree x = true ∨ vs.type? x ≠ some .null → vs.type? x ≠ some .null := by
    intro x hx hside
    rcases hside with hfree | hne
    · refine h.safe x hx fun hrigid => ?_
      rw [isFree_eq, h.parted.rigid x hrigid] at hfree
      cases hfree
    · exact hne
  have hnulla := hside hlta ha
  have hnullb := hside hltb hb
  have hout : ∀ v, vs.type? v = some .null → ¬vs.InEither a b v := by
    rintro v hv (hroot | hroot)
    · exact hnulla ((type?_of_root_eq hroot).symm.trans hv)
    · exact hnullb ((type?_of_root_eq hroot).symm.trans hv)
  refine h.raise hparted ?_ ?_ ?_
  · intro v
    by_cases hin : vs.InEither a b v
    · rw [hj.type v hin]
      cases hta : vs.type? a with
      | none =>
        cases htb : vs.type? b with
        | none =>
          left
          rcases hin with hroot | hroot
          · rw [type?_of_root_eq hroot, hta]
            rfl
          · rw [type?_of_root_eq hroot, htb]
            rfl
        | some y => exact .inr ⟨y, fun hy => hnullb (hy ▸ htb), rfl⟩
      | some x =>
        cases htb : vs.type? b with
        | none => exact .inr ⟨x, fun hx => hnulla (hx ▸ hta), rfl⟩
        | some y =>
          refine .inr ⟨x.promote y, fun hxy => ?_, rfl⟩
          rw [(SqlType.promote_eq_null hxy).1] at hta
          exact hnulla hta
    · exact .inl (hj.type_other v hin)
  · intro d _ t _ _ hnull
    rw [hj.type_other t (hout t hnull), hnull]
  · intro d hd t ht
    obtain ⟨hat, hbt⟩ := hcoming d hd t ht
    have halone := h.coming d hd t ht
    exact halone.joins hj (halone.not_inEither hat hbt)

/-- A value other than `null`. -/
theorem Guarded.setValue
    (hordered : Constraint.Ordered cs) (hmet : ∀ d ∈ met, d ∈ cs) (hd : d ∈ cs) {t : TypeVar}
    (ht : d.target? = some t) {x : SqlType} (hvalue : d.value vs.type? = some x) (hx : x ≠ .null) :
    Guarded origin met coming (vs.set t x).1 := by
  refine h.retype (vs.skeleton_set t x) (raises_set vs t hx) ?_
  intro d' hd' t' ht' hnull htype
  refine (type?_set_of_ne ?_ x).trans htype
  -- the class of the target has no other target
  intro hroot
  have heq : t' = t :=
    h.parted.single t' t (hcs.target (hmet d' hd') ht') (hcs.target hd ht) hroot
  rw [hordered.eq_of_given (hmet d' hd') hd (given_of_target ht')
    (heq ▸ given_of_target ht), hvalue] at hnull
  exact hx (Option.some.inj hnull)

/-- A derivation that was met before. -/
theorem Guarded.derive
    (hordered : Constraint.Ordered cs) (hmet : ∀ d ∈ met, d ∈ cs) (hd : d ∈ met) {t : TypeVar}
    (ht : d.target? = some t) : Guarded origin met coming (vs.setSome t (d.value vs.type?)).1 := by
  cases hvalue : d.value vs.type? with
  | none => exact h
  | some x =>
    show Guarded origin met coming (vs.set t x).1
    by_cases hx : x = .null
    · subst hx
      rw [TypeVars.set, if_pos (h.met d hd t ht hvalue)]
      exact h
    · exact h.setValue hcs hordered hmet (hmet d hd) ht hvalue hx

end

theorem stable_guarded (hcs : Sane origin cs) (hordered : Constraint.Ordered cs) :
    Stable cs (Guarded origin cs []) := by
  refine stable_of_setAll ?_ fun _ _ _ _ vars ht hvars h =>
    h.setAll (ne_null_of_isInformative ht) vars fun v hv => (hvars v hv).2
  intro d hd vs h
  cases d with
  | derive | widen => exact h.derive hcs hordered (fun _ hd => hd) hd rfl
  | equal a b => exact h.equate hcs hd nofun
  | fix | expect | hint => exact h

/-! ### The first pass -/

/-- A constraint that was met, and whose value is not `null` if it has a target. -/
theorem Guarded.add (h : Guarded origin met coming vs)
    (hd : ∀ t, d.target? = some t → d.value vs.type? = some .null → vs.type? t = some .null) :
    Guarded origin (met ++ [d]) coming vs := by
  refine { h with met := ?_ }
  intro d' hd'
  rcases mem_append.1 hd' with hold | hnew
  · exact h.met d' hold
  · rw [mem_singleton.1 hnew]
    exact hd

/-- A derivation that is met for the first time. Its target is alone, and no earlier constraint
speaks of it. -/
theorem Guarded.meet (h : Guarded origin met (d :: coming) vs) (hcs : Sane origin cs)
    (hordered : Constraint.Ordered cs) (hmet : ∀ d ∈ met, d ∈ cs) (hd : d ∈ cs) {t : TypeVar}
    (ht : d.target? = some t) (hunmet : ∀ d' ∈ met, t ∉ d'.vars) :
    Guarded origin (met ++ [d]) coming (vs.setSome t (d.value vs.type?)).1 := by
  have hcoming : ∀ d' ∈ coming, ∀ t', d'.target? = some t' → vs.Alone t' :=
    fun d' hd' => h.coming d' (mem_cons_of_mem _ hd')
  have hrest : Guarded origin met coming vs := { h with coming := hcoming }
  have hrigid := hcs.target hd ht
  cases hvalue : d.value vs.type? with
  | none =>
    refine hrest.add fun t' _ hnull => ?_
    rw [hvalue] at hnull
    cases hnull
  | some x =>
    show Guarded origin (met ++ [d]) coming (vs.set t x).1
    by_cases hx : x = .null
    · subst hx
      have halone := h.coming d mem_cons_self t ht
      have hother : ∀ v, v ≠ t → (vs.set t .null).1.type? v = vs.type? v :=
        fun v hv => type?_set_of_ne (fun hroot => hv (halone v hroot)) _
      have hs := vs.skeleton_set t .null
      have hself : (vs.set t .null).1.type? t = some .null := by
        refine type?_set_self (h.parted.wellFormed.root_lt ?_) _
        rw [h.parted.size]
        exact hrigid.lt
      have hset : Guarded origin met coming (vs.set t .null).1 := by
        refine ⟨InLayers.of_skeleton hs h.parted, ?_, ?_, ?_⟩
        · intro v hv hfree
          rw [hother v (fun heq => hfree (heq ▸ hrigid))]
          exact h.safe v hv hfree
        · intro d' hd' t' ht' hnull
          have hvars : ∀ v ∈ d'.vars, v ≠ t := fun v hv heq => hunmet d' hd' (heq ▸ hv)
          rw [value_congr fun arg harg =>
            hother arg (hvars arg (args_subset_vars harg))] at hnull
          rw [hother t' (hvars t' (target_mem_vars ht'))]
          exact h.met d' hd' t' ht' hnull
        · exact fun d' hd' t' ht' => (hcoming d' hd' t' ht').of_skeleton hs
      refine hset.add fun t' ht' _ => ?_
      rw [ht] at ht'
      cases ht'
      exact hself
    · refine (hrest.setValue hcs hordered hmet hd ht hvalue hx).add fun t' _ hnull => ?_
      -- a type other than `null` does not make the value `null`
      have hbefore := value_eq_null_of_raises (raises_set vs t hx) hnull
      rw [hvalue] at hbefore
      exact absurd (Option.some.inj hbefore) hx

theorem Guarded.pass (hcs : Sane origin cs) (hordered : Constraint.Ordered cs)
    (hsplit : met ++ coming = cs) (h : Guarded origin met coming vs) :
    Guarded origin cs [] (pass TypeVars.forwardStep coming vs).1 := by
  induction coming generalizing met vs with
  | nil =>
    rw [append_nil] at hsplit
    rw [← hsplit]
    exact h
  | cons d rest ih =>
    have hd : d ∈ cs := hsplit ▸ mem_append_right _ mem_cons_self
    have hmet : ∀ d' ∈ met, d' ∈ cs := fun d' hd' => hsplit ▸ mem_append_left _ hd'
    obtain ⟨-, hpairs, hbefore⟩ := pairwise_append.1 (hsplit ▸ hordered)
    have hunmet : ∀ {t}, d.target? = some t → ∀ d' ∈ met, t ∉ d'.vars :=
      fun ht d' hd' => hbefore d' hd' d mem_cons_self _ (given_of_target ht)
    have hcoming : Guarded origin met rest vs :=
      { h with coming := fun d' hd' => h.coming d' (mem_cons_of_mem _ hd') }
    rw [pass_cons]
    have hsplit' : (met ++ [d]) ++ rest = cs := by rw [append_assoc]; exact hsplit
    refine ih hsplit' ?_
    cases d with
    | derive | widen => exact h.meet hcs hordered hmet hd rfl (hunmet rfl)
    | equal a b =>
      refine (hcoming.equate hcs hd fun d' hd' t ht => ?_).add nofun
      -- the equation comes before the derivation of any target that is yet to come
      have hnot := (pairwise_cons.1 hpairs).1 d' hd' t (given_of_target ht)
      exact ⟨fun heq => hnot (heq ▸ mem_cons_self),
        fun heq => hnot (heq ▸ mem_cons_of_mem _ mem_cons_self)⟩
    | fix | expect | hint => exact hcoming.add nofun

theorem guarded_fixed (hcs : Sane origin cs) :
    Guarded origin [] cs (TypeVars.pass fixStep cs origin).1 := by
  have hs : (TypeVars.pass fixStep cs origin).1.skeleton = origin.skeleton :=
    pass_skeleton skeleton_fixStep cs origin
  refine ⟨InLayers.of_skeleton hs (hcs.fresh.inLayers _), ?_, nofun, ?_⟩
  · intro v _ hfree
    rw [type?_fixed_of_not_rigid hcs hfree]
    nofun
  · exact fun _ _ t _ => (hcs.fresh.alone t).of_skeleton hs

end TypeVars

/-- If only rigid variables are given types of their own, and no target is spoken of before its type
is derived, then no free variable ends with the type of `NULL`. -/
theorem Solver.resolved_ne_null {s : Solver} {default : SqlType} (hs : s.Sane)
    (hordered : Constraint.Ordered s.constraints.toList) (hdefault : default ≠ .null) {p : TypeVar}
    (hlt : p.index < s.vars.size) (hp : ¬s.vars.IsRigid p) :
    (s.solve default).resolved p ≠ .null := by
  have hstable := TypeVars.stable_guarded hs hordered
  have hpropagated := hstable.propagate
    ((TypeVars.guarded_fixed hs).pass hs hordered (nil_append _))
  have hdefaulted : TypeVars.Guarded s.vars s.constraints.toList [] (s.defaulted default) :=
    hstable.applyDefault (fun _ => hpropagated) (hpropagated.setAll hdefault _
      fun v hv => TypeVars.untyped_of_mem (mem_filter.1 hv).1)
  rw [resolved_solve]
  cases hfound : (s.defaulted default).type? p with
  | none => decide
  | some t => exact fun hnull => hdefaulted.safe p hlt hp (hfound.trans (congrArg some hnull))

end SqlSignature
