import SqlSignature.Proofs.ClassHistory
import SqlSignature.Proofs.SolverRun
/-!
# SqlSignature.Proofs.SolvedConstraints

What rounds of solving that come to rest have achieved. A constraint holds (`Constraint.Holds`)
exactly if none of the three steps for it would change anything (`holds_iff`), and at all steps of a
pass without a change the state is the same. So every constraint holds where rounds end because one
of them changed nothing (`propagate_holds`).
-/

namespace SqlSignature

namespace TypeVars

variable {vs : TypeVars}

/-- A variable does not wait for a type while a target has one that says something. -/
def Fed (vs : TypeVars) (target v : TypeVar) : Prop :=
  ∀ t, vs.type? target = some t → t ≠ .null → t ≠ .unknown →
    ¬(vs.isFree v = true ∧ vs.type? v = none)

end TypeVars

/-- Whether a constraint holds of classes and types. Types that variables are fixed to are not seen
by rounds. The type of a target goes back to all arguments, but not to those of a sum, and only to
the one argument that a target is the same as. -/
def Constraint.Holds (vs : TypeVars) : Constraint → Prop
  | fix _ _ => True
  | equal a b =>
    vs.same a b = true ∨ (vs.isFree a = false ∧ vs.isFree b = false) ∨
      (vs.isFree a = true ∧ vs.isFree b = false ∧ vs.type? b = some .null) ∨
      (vs.isFree a = false ∧ vs.isFree b = true ∧ vs.type? a = some .null)
  | derive target rule args =>
    (∀ t, rule.apply (args.map vs.type?) = some t → vs.type? target = some t) ∧
      ∀ v ∈ args, rule ≠ .sum → (∀ i, rule = .sameAs i → args[i]? = some v) → vs.Fed target v
  | widen target args =>
    (∀ t rest, args.filterMap vs.type? = t :: rest →
      vs.type? target = some (rest.foldl SqlType.promote t)) ∧ ∀ v ∈ args, vs.Fed target v
  | expect v t => t ≠ .null → t ≠ .unknown → ¬(vs.isFree v = true ∧ vs.type? v = none)
  | hint v source => ∀ t, vs.type? source = some t → t ≠ .null → t ≠ .unknown → vs.type? v ≠ none

namespace TypeVars

variable {vs : TypeVars} {v target : TypeVar} {t : SqlType} {vars args : List TypeVar}

theorem isInformative_iff : t.isInformative = true ↔ t ≠ .null ∧ t ≠ .unknown := by
  cases t <;> simp [SqlType.isInformative]

theorem isPending_iff : vs.isPending v = true ↔ vs.isFree v = true ∧ vs.type? v = none := by
  simp [isPending]

/-! ### Steps that tell no change -/

theorem setAll_still_iff : (vs.setAll t vars).2 = false ↔ ∀ v ∈ vars, vs.type? v = some t := by
  induction vars with
  | nil => simp [setAll]
  | cons v rest ih =>
    rw [List.forall_mem_cons, ← ih]
    by_cases h : vs.type? v = some t <;> simp [setAll, set, h]

theorem setAll_unchanged (h : (vs.setAll t vars).2 = false) : (vs.setAll t vars).1 = vs := by
  induction vars with
  | nil => rfl
  | cons v rest ih =>
    have hall := List.forall_mem_cons.1 (setAll_still_iff.1 h)
    rw [setAll, set, if_pos hall.1]
    exact ih (setAll_still_iff.2 hall.2)

theorem equate_still_iff {a b : TypeVar} :
    (vs.equate a b).2 = false ↔ (Constraint.equal a b).Holds vs := by
  simp only [equate, Constraint.Holds]
  cases vs.same a b <;> cases vs.isFree a <;> cases vs.isFree b <;> grind

theorem flowBack_still_iff : (vs.flowBack target args).2 = false ↔ ∀ v ∈ args, vs.Fed target v := by
  unfold flowBack Fed
  cases htarget : vs.type? target with
  | none => simp
  | some t =>
    simp only [Option.some.injEq, forall_eq', ← isPending_iff]
    by_cases ht : t.isInformative = true
    · -- a variable that waits has no type, so setting one would be a change
      have hwaits : ∀ v, vs.isPending v = true → vs.type? v ≠ some t := by
        intro v hv htype
        rw [(isPending_iff.1 hv).2] at htype
        cases htype
      obtain ⟨hnull, hunknown⟩ := isInformative_iff.1 ht
      rw [if_pos ht, setAll_still_iff]
      simp only [List.mem_filter, and_imp, ne_eq, hnull, hunknown, not_false_eq_true, forall_const]
      exact forall₂_congr fun v _ => ⟨fun h hv => hwaits v hv (h hv), fun h hv => absurd hv h⟩
    · rw [isInformative_iff] at ht
      simp only [ht, isInformative_iff, if_false]
      grind

theorem mem_backwardArgs {rule : DeriveRule} : v ∈ backwardArgs rule args ↔
    v ∈ args ∧ rule ≠ .sum ∧ ∀ i, rule = .sameAs i → args[i]? = some v := by
  cases rule with
  | sameAs position =>
    simp only [backwardArgs, Option.mem_toList, DeriveRule.sameAs.injEq, ne_eq,
      reduceCtorEq, not_false_eq_true, true_and, forall_eq']
    exact ⟨fun h => ⟨List.mem_of_getElem? h, h⟩, And.right⟩
  | _ => simp [backwardArgs]

/-- A constraint holds exactly if no step for it changes anything. -/
theorem holds_iff {c : Constraint} : c.Holds vs ↔ (vs.forwardStep c).2 = false ∧
    (vs.backwardStep c).2 = false ∧ (vs.expectationStep c).2 = false := by
  cases c with
  | fix => simp [Constraint.Holds, forwardStep, backwardStep, expectationStep]
  | equal a b => simp [forwardStep, backwardStep, expectationStep, equate_still_iff]
  | derive target rule args =>
    simp only [Constraint.Holds, forwardStep, backwardStep, expectationStep, setSome_still_iff,
      flowBack_still_iff, mem_backwardArgs, and_imp, and_true]
  | widen target args =>
    have hcombine : ∀ types : List SqlType,
        (∀ t, combineTypes SqlType.promote types = some t → vs.type? target = some t) ↔
          ∀ t rest, types = t :: rest → vs.type? target = some (rest.foldl SqlType.promote t) := by
      rintro (_ | ⟨t, rest⟩) <;> simp [combineTypes]
    simp only [Constraint.Holds, forwardStep, backwardStep, expectationStep, setSome_still_iff,
      flowBack_still_iff, hcombine, and_true]
  | expect v t =>
    simp only [Constraint.Holds, forwardStep, backwardStep, expectationStep, true_and]
    split
    next hboth =>
      obtain ⟨hpending, ht⟩ := Bool.and_eq_true_iff.1 hboth
      have hwaits := isPending_iff.1 hpending
      have := isInformative_iff.1 ht
      rw [set_still_iff]
      grind
    next hnot =>
      rw [Bool.and_eq_true, isPending_iff, isInformative_iff] at hnot
      grind
  | hint v source =>
    simp only [Constraint.Holds, forwardStep, backwardStep, expectationStep, and_true, true_and]
    cases hv : vs.type? v <;> cases hsource : vs.type? source <;> simp
    split
    next ht =>
      rw [set_still_iff, hv]
      have := isInformative_iff.1 ht
      grind
    next ht =>
      rw [isInformative_iff] at ht
      grind

/-! ### Passes that tell no change -/

theorem backwardStep_unchanged (vs : TypeVars) (c : Constraint)
    (h : (vs.backwardStep c).2 = false) : (vs.backwardStep c).1 = vs := by
  have hflow : ∀ target args, (vs.flowBack target args).2 = false →
      (vs.flowBack target args).1 = vs := by
    intro target args h
    unfold flowBack at h ⊢
    cases htarget : vs.type? target with
    | none => rfl
    | some t =>
      rw [htarget] at h
      dsimp only at h ⊢
      split at h
      next ht => rw [if_pos ht, setAll_unchanged h]
      next ht => rw [if_neg ht]
  cases c with
  | widen target args => exact hflow _ _ h
  | derive target rule args => exact hflow _ _ h
  | hint v source =>
    simp only [backwardStep] at h ⊢
    split at h
    next t _ hsource =>
      split at h
      next ht => rw [if_pos ht, set_unchanged h]
      next ht => rw [if_neg ht]
    next => rfl
  | fix | equal | expect => rfl

theorem expectationStep_unchanged (vs : TypeVars) (c : Constraint)
    (h : (vs.expectationStep c).2 = false) : (vs.expectationStep c).1 = vs := by
  cases c with
  | expect v t =>
    simp only [expectationStep] at h ⊢
    split at h
    next hwaits => rw [if_pos hwaits, set_unchanged h]
    next hnot => rw [if_neg hnot]
  | fix | equal | derive | widen | hint => rfl

/-- A pass tells no change exactly if none of its steps would. -/
theorem pass_still_iff {step : TypeVars → Constraint → TypeVars × Bool}
    (hstep : ∀ (vs : TypeVars) c, (step vs c).2 = false → (step vs c).1 = vs)
    {cs : List Constraint} : (pass step cs vs).2 = false ↔ ∀ c ∈ cs, (step vs c).2 = false := by
  induction cs with
  | nil => simp [pass]
  | cons c rest ih =>
    rw [pass_cons, Bool.or_eq_false_iff, List.forall_mem_cons]
    refine and_congr_right fun hc => ?_
    rw [hstep vs c hc, ih]

variable {cs : List Constraint} {n : Nat} {vs' : TypeVars}

/-- Going back changes nothing only if neither of its passes does. -/
theorem backward_still (h : (vs.backward cs).2 = false) : (vs.backward cs).1 = vs ∧
    ∀ c ∈ cs, (vs.backwardStep c).2 = false ∧ (vs.expectationStep c).2 = false := by
  unfold backward at h ⊢
  cases hback : (pass backwardStep cs vs).2 with
  | true => simp [hback] at h
  | false =>
    have hsame := pass_unchanged backwardStep_unchanged cs hback
    simp only [hback, Bool.false_eq_true, if_false, hsame] at h ⊢
    exact ⟨pass_unchanged expectationStep_unchanged cs h, fun c hc =>
      ⟨(pass_still_iff backwardStep_unchanged).1 hback c hc,
        (pass_still_iff expectationStep_unchanged).1 h c hc⟩⟩

theorem Settles.still (h : Settles cs vs vs') : (vs'.forward cs).2 = false := by
  induction h with
  | rest hrest =>
    rw [forward_unchanged hrest]
    exact hrest
  | pass _ _ ih => exact ih

/-! ### Rounds that come to rest -/

/-- Of a number of rounds, one changes nothing going back, and so the rounds end there. -/
def Returns (cs : List Constraint) (n : Nat) (vs vs' : TypeVars) : Prop :=
  ∃ entered settled, Enters cs n vs entered ∧ Settles cs entered settled ∧
    settled.backward cs = (vs', false)

theorem Returns.propagates (h : Returns cs n vs vs') : Propagates cs n vs vs' := by
  obtain ⟨entered, settled, henters, hsettles, hback⟩ := h
  induction henters with
  | @first n _ =>
    have hstill := Propagates.still (n := n) hsettles (congrArg Prod.snd hback)
    rwa [hback] at hstill
  | later settles hchanged _ ih => exact .round settles hchanged (ih hsettles)

theorem Returns.holds (h : Returns cs n vs vs') : ∀ c ∈ cs, c.Holds vs' := by
  obtain ⟨entered, settled, -, hsettles, hback⟩ := h
  obtain ⟨hsame, hsteps⟩ := backward_still (congrArg Prod.snd hback)
  obtain rfl : vs' = settled := by rw [← hsame, hback]
  intro c hc
  exact holds_iff.2 ⟨(pass_still_iff forwardStep_unchanged).1 hsettles.still c hc, hsteps c hc⟩

/-- **Solved constraints.** Whatever history led to the classes and types, if a round of propagation
changes nothing before the rounds are used up, then propagation gives a state in which all
constraints hold. -/
theorem propagate_holds {joined : List (TypeVar × TypeVar)} {made : List Bool}
    (hvs : History joined made vs) (h : Returns cs maxRounds vs vs') :
    vs.propagate cs = vs' ∧ ∀ c ∈ cs, c.Holds vs' :=
  ⟨h.propagates.propagateUpTo_eq hvs.recorded.wellFormed, h.holds⟩

/-- A bound value that is equal to a column, another one beside it in a list, and a sum: the type of
the list goes back to the second bound value in the first round, and the second round finds the type
of the sum. -/
theorem propagate_holds_list :
    let cs : List Constraint := [.equal ⟨1⟩ ⟨0⟩, .widen ⟨3⟩ [⟨1⟩, ⟨2⟩], .derive ⟨4⟩ .sum [⟨2⟩],
      .expect ⟨2⟩ .date]
    ∃ vs vs', History [] [false, true, true, false, false] vs ∧ Returns cs maxRounds vs vs' ∧
      vs.propagate cs = vs' ∧ (∀ c ∈ cs, c.Holds vs') ∧ vs'.type? ⟨2⟩ = some .int ∧
      vs'.type? ⟨4⟩ = some .decimal := by
  intro cs
  let column := ((empty.fresh false).2.set ⟨0⟩ .int).1
  let vs := ((((column.fresh true).2.fresh true).2.fresh false).2.fresh false).2
  have hcolumn : History [] [false] column := (History.empty.fresh false).set (by decide) .int
  have hvs : History [] [false, true, true, false, false] vs :=
    (((hcolumn.fresh true).fresh true).fresh false).fresh false
  let first := settleUpTo cs 2 vs
  let second := settleUpTo cs 2 (first.backward cs).1
  have hfirst : Settles cs vs first := settles_settleUpTo 2 1 _ (by omega) (by decide)
  have hsecond : Settles cs (first.backward cs).1 second :=
    settles_settleUpTo 2 1 _ (by omega) (by decide)
  have hreturns : Returns cs maxRounds vs second :=
    ⟨_, second, .later hfirst (by decide) .first, hsecond, by decide⟩
  obtain ⟨hpropagate, hholds⟩ := propagate_holds hvs hreturns
  exact ⟨vs, second, hvs, hreturns, hpropagate, hholds, by decide, by decide⟩

end TypeVars

end SqlSignature
