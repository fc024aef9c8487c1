import SqlSignature.Proofs.ConstraintPasses
/-!
# SqlSignature.Proofs.ConstraintOrder

When the order of constraints matters. Two constraints that no pass meets both of can change places;
any other change of order is seen in the types that are found, for some variables, some constraints
of the same kinds and some fixed types (`Solver.order_irrelevant_iff`). For each two kinds that a
pass meets there is a clash: two constraints that give a variable different types in the two orders.
It is put at the two places, among constraints that do nothing.
-/

namespace SqlSignature

/-! ### Constraints that do nothing -/

/-- Whether the variables of a constraint are among the first of a number. -/
def Constraint.isWithin (n : Nat) (c : Constraint) : Bool := c.vars.all (·.index < n)

/-- Whether a constraint speaks of other variables than the first. -/
def Constraint.isBusy (c : Constraint) : Bool := c.vars.any (·.index != 0)

/-- A constraint of each kind that does nothing once the first variable has the type `int`. -/
def Constraint.idle : ConstraintKind → Constraint
  | .fix => fix ⟨0⟩ .int
  | .equal => equal ⟨0⟩ ⟨0⟩
  | .derive => derive ⟨0⟩ (.sameAs 0) []
  | .widen => widen ⟨0⟩ []
  | .expect => expect ⟨0⟩ .null
  | .hint => hint ⟨0⟩ ⟨0⟩

theorem Constraint.kind_idle (k : ConstraintKind) : (idle k).kind = k := by
  cases k <;> rfl

theorem Constraint.isBusy_idle (k : ConstraintKind) : (idle k).isBusy = false := by
  cases k <;> rfl

theorem Constraint.isWithin_idle (k : ConstraintKind) {n : Nat} (h : 0 < n) :
    (idle k).isWithin n = true := by
  cases k <;> simp [idle, isWithin, vars, h]

namespace TypeVars

theorem forwardStep_idle (k : ConstraintKind) (vs : TypeVars) :
    vs.forwardStep (.idle k) = (vs, false) := by
  cases k with
  | equal => simp [Constraint.idle, forwardStep, equate, same]
  | fix | derive | widen | expect | hint => rfl

theorem flowBack_nil (vs : TypeVars) (target : TypeVar) : vs.flowBack target [] = (vs, false) := by
  unfold flowBack
  split
  · split <;> rfl
  · rfl

theorem backwardStep_idle (k : ConstraintKind) (vs : TypeVars) :
    vs.backwardStep (.idle k) = (vs, false) := by
  cases k with
  | derive => exact vs.flowBack_nil _
  | widen => exact vs.flowBack_nil _
  | hint =>
    simp only [Constraint.idle, backwardStep]
    split
    next hnone hsome =>
      rw [hnone] at hsome
      contradiction
    next => rfl
  | fix | equal | expect => rfl

theorem expectationStep_idle (k : ConstraintKind) (vs : TypeVars) :
    vs.expectationStep (.idle k) = (vs, false) := by
  cases k with
  | expect => simp [Constraint.idle, expectationStep, SqlType.isInformative]
  | fix | equal | derive | widen | hint => rfl

theorem fixStep_idle (k : ConstraintKind) {vs : TypeVars} (h : vs.type? ⟨0⟩ = some .int) :
    (vs.fixStep (.idle k)).1 = vs := by
  cases k with
  | fix => simp [Constraint.idle, fixStep, widen, set, h]
  | equal | derive | widen | expect | hint => rfl

/-- After the types that variables are fixed to, constraints that do nothing may be left out. -/
theorem samePasses_idle {vs : TypeVars} {fixes cs : List Constraint} {p : Constraint → Bool}
    (hint : (pass fixStep fixes vs).1.type? ⟨0⟩ = some .int)
    (hkinds : ∀ c ∈ cs, p c = true → c.kind ≠ .fix)
    (hidle : ∀ c ∈ cs, p c = false → ∃ k, c = .idle k) :
    SamePasses vs (fixes ++ cs) (fixes ++ cs.filter p) := by
  have hstep : ∀ (step : TypeVars → Constraint → TypeVars × Bool),
      (∀ k vs, step vs (.idle k) = (vs, false)) →
      ∀ vs, pass step cs vs = pass step (cs.filter p) vs := by
    intro step hstep
    refine pass_filter fun c hc hp ws => ?_
    obtain ⟨k, rfl⟩ := hidle c hc hp
    exact hstep k ws
  have hfix : ∀ ds : List Constraint, (∀ c ∈ ds, c.kind ≠ .fix ∨ ∃ k, c = .idle k) →
      (pass fixStep (fixes ++ ds) vs).1 = (pass fixStep fixes vs).1 := by
    intro ds hds
    rw [pass_append]
    refine pass_fst_eq_self fun c hc => ?_
    rcases hds c hc with hkind | ⟨k, rfl⟩
    · cases c with
      | fix => exact absurd rfl hkind
      | equal | derive | widen | expect | hint => rfl
    · exact fixStep_idle k hint
  refine ⟨?_, ?_, ?_, ?_⟩
  · rw [hfix cs, hfix (cs.filter p)]
    · intro c hc
      exact Or.inl (hkinds c (List.mem_filter.mp hc).1 (List.mem_filter.mp hc).2)
    · intro c hc
      cases hp : p c with
      | true => exact Or.inl (hkinds c hc hp)
      | false => exact Or.inr (hidle c hc hp)
  · intro ws
    rw [pass_append, pass_append, hstep _ forwardStep_idle]
  · intro ws
    rw [pass_append, pass_append, hstep _ backwardStep_idle]
  · intro ws
    rw [pass_append, pass_append, hstep _ expectationStep_idle]

/-- Two constraints among others that do nothing. -/
theorem samePasses_pair {n : Nat} {vs : TypeVars} {fixes : List Constraint} (f : Fin n → Constraint)
    {i j : Fin n} (hlt : i < j) (hint : (pass fixStep fixes vs).1.type? ⟨0⟩ = some .int)
    (hi : (f i).isBusy = true ∧ (f i).kind ≠ .fix) (hj : (f j).isBusy = true ∧ (f j).kind ≠ .fix)
    (hidle : ∀ k, k ≠ i → k ≠ j → ∃ l, f k = .idle l) :
    SamePasses vs (fixes ++ List.ofFn f) (fixes ++ [f i, f j]) := by
  have hquiet : ∀ k, k ≠ i → k ≠ j → (f k).isBusy = false := by
    intro k hki hkj
    obtain ⟨l, hl⟩ := hidle k hki hkj
    rw [hl, Constraint.isBusy_idle]
  rw [← filter_ofFn_pair f hlt hi.1 hj.1 hquiet]
  refine samePasses_idle hint (fun c hc hbusy => ?_) fun c hc hbusy => ?_
  · obtain ⟨k, rfl⟩ := (List.mem_ofFn' f c).mp hc
    by_cases hki : k = i
    · rw [hki]
      exact hi.2
    · by_cases hkj : k = j
      · rw [hkj]
        exact hj.2
      · rw [hquiet k hki hkj] at hbusy
        contradiction
  · obtain ⟨k, rfl⟩ := (List.mem_ofFn' f c).mp hc
    refine hidle k ?_ ?_
    · rintro rfl
      rw [hi.1] at hbusy
      contradiction
    · rintro rfl
      rw [hj.1] at hbusy
      contradiction

end TypeVars

/-! ### Clashes -/

/-- Two constraints, and fixed types with which their order can be seen. -/
structure Clash where
  fixes : List Constraint
  first : Constraint
  second : Constraint

namespace Clash

/-- Four variables, of which the second is free. -/
def frees : List Bool := [false, true, false, false]

/-- A constraint of each kind by which the free variable can come to the type of another variable,
or to a type. -/
def tie (source : TypeVar) (type : SqlType) : ConstraintKind → Constraint
  | .fix => .fix source type
  | .equal => .equal ⟨1⟩ source
  | .derive => .derive source (.sameAs 0) [⟨1⟩]
  | .widen => .widen source [⟨1⟩]
  | .expect => .expect ⟨1⟩ type
  | .hint => .hint ⟨1⟩ source

/-- Whichever of two constraints comes first gives the free variable its type. -/
def ofTies (k k' : ConstraintKind) : Clash where
  fixes := [.fix ⟨0⟩ .int, .fix ⟨2⟩ .int, .fix ⟨3⟩ .varchar]
  first := tie ⟨2⟩ .int k
  second := tie ⟨3⟩ .varchar k'

/-- A variable that is not joined with the free one after it has come to the type `null`. -/
def ofNull (derived : Constraint) : Clash where
  fixes := [.fix ⟨0⟩ .int, .fix ⟨3⟩ .null]
  first := .equal ⟨1⟩ ⟨2⟩
  second := derived

def swap (c : Clash) : Clash := { c with first := c.second, second := c.first }

/-- Constraints of two kinds that a pass meets both of. -/
def ofKinds : ConstraintKind → ConstraintKind → Clash
  | .equal, .derive => ofNull (.derive ⟨2⟩ (.sameAs 0) [⟨3⟩])
  | .equal, .widen => ofNull (.widen ⟨2⟩ [⟨3⟩])
  | .derive, .equal => (ofNull (.derive ⟨2⟩ (.sameAs 0) [⟨3⟩])).swap
  | .widen, .equal => (ofNull (.widen ⟨2⟩ [⟨3⟩])).swap
  | k, k' => ofTies k k'

/-- The type of the free variable, with the constraints in one order or the other. -/
def found (c : Clash) (order : List Constraint) : Option SqlType :=
  ((Solver.build frees (c.fixes ++ order)).solveWithin .int 4).map (·.resolved ⟨1⟩)

/-- Both orders come to a type, and it is not the same. -/
def isSeen (c : Clash) : Bool :=
  (c.found [c.first, c.second]).isSome && (c.found [c.second, c.first]).isSome &&
    c.found [c.first, c.second] != c.found [c.second, c.first]

theorem isSeen_ofKinds {k k' : ConstraintKind} (h : k.meets k' = true) :
    (ofKinds k k').isSeen = true := by
  cases k <;> cases k' <;> revert h <;> decide +kernel

/-- The constraints are of their kinds and speak of the four variables, and the first variable is
fixed. -/
structure Fits (c : Clash) (k k' : ConstraintKind) : Prop where
  first_kind : c.first.kind = k
  second_kind : c.second.kind = k'
  first_ne_fix : k ≠ .fix
  second_ne_fix : k' ≠ .fix
  first_busy : c.first.isBusy = true
  second_busy : c.second.isBusy = true
  first_within : c.first.isWithin frees.length = true
  second_within : c.second.isWithin frees.length = true
  fixes : ∀ d ∈ c.fixes, d.kind = .fix ∧ d.isWithin frees.length = true
  fixed : (TypeVars.pass TypeVars.fixStep c.fixes (Solver.build frees []).vars).1.type? ⟨0⟩ =
    some .int

theorem fits_ofKinds {k k' : ConstraintKind} (h : k.meets k' = true) :
    (ofKinds k k').Fits k k' := by
  constructor <;> cases k <;> cases k' <;> revert h <;> decide +kernel

/-! ### Clashes among constraints that do nothing -/

section

variable {n : Nat} {c : Clash} {kinds : Fin n → ConstraintKind} {a b : Fin n}

/-- The two constraints at two places, and constraints that do nothing at all others. -/
def spread (c : Clash) (kinds : Fin n → ConstraintKind) (a b : Fin n) : Fin n → Constraint :=
  fun i => if i = a then c.first else if i = b then c.second else .idle (kinds i)

theorem spread_first : c.spread kinds a b a = c.first := if_pos rfl

theorem spread_second (h : b ≠ a) : c.spread kinds a b b = c.second :=
  (if_neg h).trans (if_pos rfl)

theorem spread_idle {i : Fin n} (ha : i ≠ a) (hb : i ≠ b) :
    c.spread kinds a b i = .idle (kinds i) := by
  rw [spread, if_neg ha, if_neg hb]

theorem kind_spread (h : c.Fits (kinds a) (kinds b)) (i : Fin n) :
    (c.spread kinds a b i).kind = kinds i := by
  by_cases ha : i = a
  · rw [ha, spread_first, h.first_kind]
  · by_cases hb : i = b
    · rw [hb, spread_second (hb ▸ ha), h.second_kind]
    · rw [spread_idle ha hb, Constraint.kind_idle]

theorem isWithin_spread (h : c.Fits (kinds a) (kinds b)) :
    ∀ d ∈ c.fixes ++ List.ofFn (c.spread kinds a b), d.isWithin frees.length = true := by
  intro d hd
  rcases List.mem_append.mp hd with hd | hd
  · exact (h.fixes d hd).2
  · obtain ⟨i, rfl⟩ := (List.mem_ofFn' _ d).mp hd
    by_cases ha : i = a
    · rw [ha, spread_first, h.first_within]
    · by_cases hb : i = b
      · rw [hb, spread_second (hb ▸ ha), h.second_within]
      · rw [spread_idle ha hb, Constraint.isWithin_idle _ (by decide)]

/-- The type that is found for two constraints is also found if others that do nothing are put
around them. -/
theorem resolved_of_found {f : Fin n → Constraint} {i j : Fin n} {t : SqlType}
    (hsame : TypeVars.SamePasses (Solver.build frees []).vars (c.fixes ++ List.ofFn f)
      (c.fixes ++ [f i, f j])) (h : c.found [f i, f j] = some t) :
    (Solver.build frees (c.fixes ++ List.ofFn f)).Terminates .int ∧
      ((Solver.build frees (c.fixes ++ List.ofFn f)).solve .int).resolved ⟨1⟩ = t := by
  obtain ⟨pair, hpair, ht⟩ := Option.map_eq_some_iff.mp h
  obtain ⟨result, hresult, hvars⟩ :=
    (Solver.solves_of_solveWithin hpair).of_samePasses hsame.symm
  refine ⟨⟨result, hresult⟩, ?_⟩
  rw [hresult.solve_eq (Solver.wellFormed_build _ _), Solver.resolved, hvars]
  exact ht

/-- The two constraints in a list in which the first comes first. -/
theorem samePasses_spread (h : c.Fits (kinds a) (kinds b)) (hlt : a < b) :
    TypeVars.SamePasses (Solver.build frees []).vars
      (c.fixes ++ List.ofFn (c.spread kinds a b))
      (c.fixes ++ [c.spread kinds a b a, c.spread kinds a b b]) := by
  refine TypeVars.samePasses_pair _ hlt h.fixed ?_ ?_ fun i ha hb => ⟨_, spread_idle ha hb⟩
  · rw [spread_first, h.first_kind]
    exact ⟨h.first_busy, h.first_ne_fix⟩
  · rw [spread_second (ne_of_gt hlt), h.second_kind]
    exact ⟨h.second_busy, h.second_ne_fix⟩

/-- The two constraints in a list in which the second comes first. -/
theorem samePasses_spread_perm {π : Equiv.Perm (Fin n)} {i j : Fin n} (hlt : i < j)
    (h : c.Fits (kinds (π j)) (kinds (π i))) :
    TypeVars.SamePasses (Solver.build frees []).vars
      (c.fixes ++ List.ofFn (c.spread kinds (π j) (π i) ∘ π))
      (c.fixes ++ [c.spread kinds (π j) (π i) (π i), c.spread kinds (π j) (π i) (π j)]) := by
  have hne : π i ≠ π j := fun heq => absurd (π.injective heq) (ne_of_lt hlt)
  refine TypeVars.samePasses_pair _ hlt h.fixed ?_ ?_ fun k hi hj => ⟨kinds (π k), ?_⟩
  · rw [Function.comp_apply, spread_second hne, h.second_kind]
    exact ⟨h.second_busy, h.second_ne_fix⟩
  · rw [Function.comp_apply, spread_first, h.first_kind]
    exact ⟨h.first_busy, h.first_ne_fix⟩
  · exact spread_idle (fun heq => hj (π.injective heq)) fun heq => hi (π.injective heq)

end

end Clash

/-! ### The order of constraints -/

/-- **Order of constraints.** A change of the order of constraints of certain kinds can never be
seen in the types found, whatever the variables, the constraints themselves and the fixed types are,
exactly if it keeps the order of any two of them that a pass meets both of. -/
theorem Solver.order_irrelevant_iff {n : Nat} (kinds : Fin n → ConstraintKind)
    (π : Equiv.Perm (Fin n)) :
    (∀ (frees : List Bool) (fixes : List Constraint) (cs : Fin n → Constraint) (default : SqlType),
        (∀ c ∈ fixes, c.kind = .fix) → (∀ i, (cs i).kind = kinds i) →
        (∀ c ∈ fixes ++ List.ofFn cs, c.isWithin frees.length = true) →
        (Solver.build frees (fixes ++ List.ofFn cs)).Terminates default →
        (Solver.build frees (fixes ++ List.ofFn (cs ∘ π))).Terminates default →
        ∀ v, ((Solver.build frees (fixes ++ List.ofFn cs)).solve default).resolved v =
          ((Solver.build frees (fixes ++ List.ofFn (cs ∘ π))).solve default).resolved v) ↔
      ∀ i j, i < j → (kinds (π i)).meets (kinds (π j)) = true → π i < π j := by
  constructor
  · intro hsame i j hlt hmeets
    by_contra hnot
    have hne : π i ≠ π j := fun heq => absurd (π.injective heq) (ne_of_lt hlt)
    have hswap : π j < π i := lt_of_le_of_ne (not_lt.mp hnot) hne.symm
    rw [ConstraintKind.meets_comm] at hmeets
    -- Two constraints of these kinds that clash, with constraints that do nothing around them.
    have hfits := Clash.fits_ofKinds hmeets
    have hseen := Clash.isSeen_ofKinds hmeets
    simp only [Clash.isSeen, Bool.and_eq_true, bne_iff_ne, Option.isSome_iff_exists] at hseen
    obtain ⟨⟨⟨t, ht⟩, t', ht'⟩, hdiffer⟩ := hseen
    rw [ht, ht'] at hdiffer
    rw [← Clash.spread_first, ← Clash.spread_second hne] at ht ht'
    obtain ⟨hterminates, hresolved⟩ :=
      Clash.resolved_of_found (Clash.samePasses_spread hfits hswap) ht
    obtain ⟨hterminates', hresolved'⟩ :=
      Clash.resolved_of_found (Clash.samePasses_spread_perm hlt hfits) ht'
    refine hdiffer (congrArg some ?_)
    rw [← hresolved, ← hresolved']
    exact hsame _ _ _ _ (fun d hd => (hfits.fixes d hd).1) (Clash.kind_spread hfits)
      (Clash.isWithin_spread hfits) hterminates hterminates' _
  · intro h frees fixes cs default _ hkinds _ hterminates _ v
    exact Solver.resolved_eq_of_samePasses hterminates
      (TypeVars.samePasses_perm hkinds π h fixes _) v

/-- Of two types that are expected of a variable, the one that comes first is found. -/
theorem Solver.order_of_expectations_matters :
    let before := Solver.build [true] [.expect ⟨0⟩ .double, .expect ⟨0⟩ .varchar]
    let after := Solver.build [true] [.expect ⟨0⟩ .varchar, .expect ⟨0⟩ .double]
    (before.Terminates .int ∧ after.Terminates .int) ∧
      (before.solve .int).resolved ⟨0⟩ = .double ∧ (after.solve .int).resolved ⟨0⟩ = .varchar := by
  intro before after
  have hbefore : (before.solveWithin .int 2).isSome = true := by decide +kernel
  have hafter : (after.solveWithin .int 2).isSome = true := by decide +kernel
  obtain ⟨result, hresult⟩ := Option.isSome_iff_exists.mp hbefore
  obtain ⟨result', hresult'⟩ := Option.isSome_iff_exists.mp hafter
  refine ⟨⟨?_, ?_⟩, ?_, ?_⟩
  · exact ⟨result, Solver.solves_of_solveWithin hresult⟩
  · exact ⟨result', Solver.solves_of_solveWithin hresult'⟩
  · decide +kernel
  · decide +kernel

end SqlSignature
