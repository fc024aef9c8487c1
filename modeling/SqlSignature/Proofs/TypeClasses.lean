import Mathlib.Data.Finset.Card
import Mathlib.Data.Finset.Range
import SqlSignature.Inference.Solver
/-!
# SqlSignature.Proofs.TypeClasses

The classes of type variables under the steps of a solver. Ranks grow along parent links and stay
below the number of variables, so that following links for as many steps as there are variables
does lead to a root (`WellFormed.parent_root`). A step of the solver either changes types only, and
then it keeps the skeleton of the classes, or it joins two classes (`Advances`).
-/

namespace SqlSignature

/-- The variables of a constraint. -/
def Constraint.vars : Constraint → List TypeVar
  | fix v _ => [v]
  | equal a b => [a, b]
  | derive target _ args => target :: args
  | widen target args => target :: args
  | expect v _ => [v]
  | hint v source => [v, source]

namespace TypeVars

variable {vs : TypeVars} {root child : Nat}

/-! ### Skeletons -/

/-- The classes without their types. -/
def skeleton (vs : TypeVars) : TypeVars := ⟨vs.entries.map ({ · with type := none })⟩

/-- The type at an index, which counts if the index is that of a root. -/
def typeAt (vs : TypeVars) (i : Nat) : Option SqlType := vs.entries[i]?.bind VarEntry.type

@[simp] theorem skeleton_size (vs : TypeVars) : vs.skeleton.size = vs.size := by
  simp [skeleton, size]

@[simp] theorem skeleton_parent (vs : TypeVars) (i : Nat) :
    vs.skeleton.parent i = vs.parent i := by
  simp [skeleton, parent, Function.comp_def]

@[simp] theorem skeleton_rank (vs : TypeVars) (i : Nat) : vs.skeleton.rank i = vs.rank i := by
  simp [skeleton, rank, Function.comp_def]

/-- Classes are determined by their skeleton and their types. -/
theorem eq_of_skeleton_eq {vs' : TypeVars} (h : vs'.skeleton = vs.skeleton)
    (ht : ∀ i, vs'.typeAt i = vs.typeAt i) : vs' = vs := by
  obtain ⟨entries⟩ := vs
  obtain ⟨entries'⟩ := vs'
  simp only [skeleton, mk.injEq] at h
  rw [mk.injEq]
  have hsize : entries'.size = entries.size := by simpa using congrArg Array.size h
  apply Array.ext hsize
  intro i h₁ h₂
  have hentry : (entries'.map ({ · with type := none }))[i]? =
      (entries.map ({ · with type := none }))[i]? := by rw [h]
  have htype := ht i
  simp only [typeAt, Array.getElem?_eq_getElem h₁, Array.getElem?_eq_getElem h₂,
    Option.bind_some] at htype
  simp only [Array.getElem?_map, Array.getElem?_eq_getElem h₁, Array.getElem?_eq_getElem h₂,
    Option.map_some, Option.some_inj, VarEntry.mk.injEq, and_true] at hentry
  cases hv : entries'[i]
  cases hw : entries[i]
  simp_all

theorem size_adjust (vs : TypeVars) (i : Nat) (f : VarEntry → VarEntry) :
    (vs.adjust i f).size = vs.size := by
  simp [adjust, size]

/-- A change of a type keeps the skeleton. -/
theorem skeleton_adjust_type (vs : TypeVars) (i : Nat) (t : Option SqlType) :
    (vs.adjust i ({ · with type := t })).skeleton = vs.skeleton := by
  simp only [skeleton, adjust, mk.injEq]
  apply Array.ext
  · simp
  · intro j h₁ h₂
    simp only [Array.getElem_map, Array.getElem_modify]
    split <;> rfl

theorem skeleton_set (vs : TypeVars) (v : TypeVar) (t : SqlType) :
    (vs.set v t).1.skeleton = vs.skeleton := by
  unfold set
  split
  · rfl
  · exact vs.skeleton_adjust_type _ _

theorem skeleton_setAll (t : SqlType) :
    ∀ (vars : List TypeVar) (vs : TypeVars), (vs.setAll t vars).1.skeleton = vs.skeleton
  | [], _ => rfl
  | v :: rest, vs => by
    rw [setAll]
    exact (skeleton_setAll t rest _).trans (vs.skeleton_set v t)

/-! ### Well-formed classes -/

/-- The number of classes. -/
def classCount (vs : TypeVars) : Nat :=
  ((Finset.range vs.size).filter fun i => vs.parent i = i).card

/-- Links stay inside and lead to higher ranks. A join lifts a rank by one at most, so ranks stay
below the number of joins. -/
structure WellFormed (vs : TypeVars) : Prop where
  parent_lt : ∀ i < vs.size, vs.parent i < vs.size
  rank_lt : ∀ i < vs.size, vs.parent i ≠ i → vs.rank i < vs.rank (vs.parent i)
  rank_le : ∀ i < vs.size, vs.rank i + vs.classCount ≤ vs.size

theorem classCount_le (vs : TypeVars) : vs.classCount ≤ vs.size := by
  have h := Finset.card_filter_le (Finset.range vs.size) fun i => vs.parent i = i
  rwa [Finset.card_range] at h

section

variable {vs vs' : TypeVars} (h : vs'.skeleton = vs.skeleton)

include h

theorem size_eq_of_skeleton : vs'.size = vs.size := by
  rw [← skeleton_size, h, skeleton_size]

theorem parent_eq_of_skeleton (i : Nat) : vs'.parent i = vs.parent i := by
  rw [← skeleton_parent, h, skeleton_parent]

theorem rank_eq_of_skeleton (i : Nat) : vs'.rank i = vs.rank i := by
  rw [← skeleton_rank, h, skeleton_rank]

theorem root_eq_of_skeleton (v : TypeVar) : vs'.root v = vs.root v := by
  have hrootFrom : ∀ fuel i, vs'.rootFrom fuel i = vs.rootFrom fuel i := by
    intro fuel
    induction fuel with
    | zero => exact fun i => rfl
    | succ fuel ih =>
      intro i
      rw [rootFrom, rootFrom, parent_eq_of_skeleton h, ih]
  rw [root, root, size_eq_of_skeleton h, hrootFrom]

theorem classCount_eq_of_skeleton : vs'.classCount = vs.classCount := by
  simp only [classCount, size_eq_of_skeleton h, parent_eq_of_skeleton h]

theorem WellFormed.of_skeleton (hvs : vs.WellFormed) : vs'.WellFormed := by
  refine ⟨?_, ?_, ?_⟩
  · simpa only [size_eq_of_skeleton h, parent_eq_of_skeleton h] using hvs.parent_lt
  · simpa only [size_eq_of_skeleton h, parent_eq_of_skeleton h, rank_eq_of_skeleton h]
      using hvs.rank_lt
  · simpa only [size_eq_of_skeleton h, rank_eq_of_skeleton h, classCount_eq_of_skeleton h]
      using hvs.rank_le

end

theorem parent_of_size_le {i : Nat} (h : vs.size ≤ i) : vs.parent i = i := by
  rw [parent, Array.getElem?_eq_none h]
  rfl

theorem rootFrom_of_root {i : Nat} (h : vs.parent i = i) :
    ∀ fuel, vs.rootFrom fuel i = i
  | 0 => rfl
  | _ + 1 => by rw [rootFrom, if_pos h]

/-- Links that are followed long enough lead to a root. -/
theorem WellFormed.parent_rootFrom (h : vs.WellFormed) :
    ∀ (fuel i : Nat), i < vs.size → vs.size ≤ vs.rank i + fuel →
      vs.parent (vs.rootFrom fuel i) = vs.rootFrom fuel i
  | 0, i, hi, hfuel => by
    rw [rootFrom]
    by_contra hne
    have hlt := h.rank_lt i hi hne
    have hle := h.rank_le (vs.parent i) (h.parent_lt i hi)
    omega
  | fuel + 1, i, hi, hfuel => by
    rw [rootFrom]
    split
    next hroot => exact hroot
    next hne =>
      have hlt := h.rank_lt i hi hne
      exact h.parent_rootFrom fuel _ (h.parent_lt i hi) (by omega)

/-- The root of a class has no link. -/
theorem WellFormed.parent_root (h : vs.WellFormed) (v : TypeVar) :
    vs.parent (vs.root v) = vs.root v := by
  by_cases hv : v.index < vs.size
  · exact h.parent_rootFrom vs.size v.index hv (by omega)
  · have hparent := parent_of_size_le (Nat.not_lt.mp hv)
    rw [root, rootFrom_of_root hparent, hparent]

/-! ### Joining classes -/

theorem size_link (vs : TypeVars) (root child : Nat) : (vs.link root child).size = vs.size := by
  unfold link
  split
  · simp only [size_adjust]
  · rfl

section

variable (hr : root < vs.size) (hc : child < vs.size)

include hr hc

theorem link_of_lt :
    vs.link root child = (vs.adjust child ({ · with parent := root })).adjust root
      ({ · with
        rank := if vs.rank root = vs.rank child then vs.rank root + 1 else vs.rank root
        free := vs.entries[root].free && vs.entries[child].free
        type := joinTypes vs.entries[root].type vs.entries[child].type }) := by
  simp only [link, rank, Array.getElem?_eq_getElem hr, Array.getElem?_eq_getElem hc,
    Option.map_some, Option.getD_some]

theorem parent_link (i : Nat) :
    (vs.link root child).parent i = if child = i then root else vs.parent i := by
  rw [link_of_lt hr hc]
  simp only [parent, adjust, Array.getElem?_modify]
  by_cases hci : child = i
  · subst hci
    by_cases hri : root = child <;> simp [hri, Array.getElem?_eq_getElem hc]
  · by_cases hri : root = i
    · simp [hci, hri, Function.comp_def]
    · simp [hci, hri]

/-- A link changes what an entry says, its parent apart, at the root only. -/
theorem entry_link {α : Type} {f : Option VarEntry → α}
    (hf : ∀ e parent, f (some { e with parent }) = f (some e)) (i : Nat) :
    f (vs.link root child).entries[i]? =
      if root = i then
        f (some { vs.entries[root] with
          rank := if vs.rank root = vs.rank child then vs.rank root + 1 else vs.rank root
          free := vs.entries[root].free && vs.entries[child].free
          type := joinTypes vs.entries[root].type vs.entries[child].type })
      else f vs.entries[i]? := by
  rw [link_of_lt hr hc]
  simp only [adjust, Array.getElem?_modify]
  by_cases hri : root = i
  · subst hri
    by_cases hci : child = root
    · subst hci
      simp only [if_true, Array.getElem?_eq_getElem hr, Option.map_some]
      exact hf ⟨_, _, _, _⟩ _
    · simp [hci, Array.getElem?_eq_getElem hr]
  · by_cases hci : child = i
    · subst hci
      simp only [hri, if_true, if_false, Array.getElem?_eq_getElem hc, Option.map_some]
      exact hf _ _
    · simp [hri, hci]

theorem rank_link (i : Nat) :
    (vs.link root child).rank i =
      if root = i then (if vs.rank root = vs.rank child then vs.rank root + 1 else vs.rank root)
      else vs.rank i :=
  entry_link hr hc (f := fun e => (e.map VarEntry.rank).getD 0) (fun _ _ => rfl) i

/-- Two roots that are joined leave one class less. -/
theorem classCount_link (hne : root ≠ child)
    (hchild : vs.parent child = child) : (vs.link root child).classCount + 1 = vs.classCount := by
  have hroots : ((Finset.range (vs.link root child).size).filter fun i =>
      (vs.link root child).parent i = i) =
      ((Finset.range vs.size).filter fun i => vs.parent i = i).erase child := by
    ext i
    simp only [Finset.mem_filter, Finset.mem_range, Finset.mem_erase, size_link,
      parent_link hr hc]
    by_cases hci : child = i
    · subst hci
      simp [hne]
    · simp [hci, Ne.symm hci]
  rw [classCount, hroots, classCount]
  refine Finset.card_erase_add_one ?_
  simp [hc, hchild]

end

theorem WellFormed.link (h : vs.WellFormed) (hr : root < vs.size) (hc : child < vs.size)
    (hne : root ≠ child) (hroot : vs.parent root = root) (hchild : vs.parent child = child)
    (hrank : vs.rank child ≤ vs.rank root) : (vs.link root child).WellFormed := by
  have hcount := classCount_link hr hc hne hchild
  refine ⟨fun i hi => ?_, fun i hi hparent => ?_, fun i hi => ?_⟩
  · rw [size_link] at hi ⊢
    rw [parent_link hr hc]
    split
    · exact hr
    · exact h.parent_lt i hi
  · rw [size_link] at hi
    rw [parent_link hr hc] at hparent ⊢
    rw [rank_link hr hc, rank_link hr hc]
    -- The root of the joined class has a rank above that of the new child, by the tie rule.
    by_cases hci : child = i
    · subst hci
      rw [if_pos rfl, if_neg hne, if_pos rfl]
      split <;> omega
    · rw [if_neg hci] at hparent ⊢
      have hri : root ≠ i := fun heq => hparent (heq ▸ hroot)
      have hlt := h.rank_lt i hi hparent
      rw [if_neg hri]
      split
      next heq =>
        rw [← heq] at hlt
        split <;> omega
      next => exact hlt
  · rw [size_link] at hi ⊢
    have hle := h.rank_le i hi
    rw [rank_link hr hc]
    split
    next heq =>
      subst heq
      split <;> omega
    next => omega

/-- What a step of the solver does to classes: it keeps their skeleton, or joins some. -/
structure Advances (vs vs' : TypeVars) : Prop where
  wellFormed : vs'.WellFormed
  size : vs'.size = vs.size
  joined : vs'.skeleton = vs.skeleton ∨ vs'.classCount < vs.classCount

theorem Advances.refl (h : vs.WellFormed) : vs.Advances vs := ⟨h, rfl, Or.inl rfl⟩

theorem Advances.of_skeleton {vs' : TypeVars} (h : vs.WellFormed)
    (hs : vs'.skeleton = vs.skeleton) : vs.Advances vs' :=
  ⟨h.of_skeleton hs, size_eq_of_skeleton hs, Or.inl hs⟩

theorem Advances.trans {vs₁ vs₂ : TypeVars} (h₁ : vs.Advances vs₁) (h₂ : vs₁.Advances vs₂) :
    vs.Advances vs₂ := by
  refine ⟨h₂.wellFormed, h₂.size.trans h₁.size, ?_⟩
  rcases h₁.joined with hs₁ | hlt₁
  · rcases h₂.joined with hs₂ | hlt₂
    · exact Or.inl (hs₂.trans hs₁)
    · exact Or.inr (classCount_eq_of_skeleton hs₁ ▸ hlt₂)
  · rcases h₂.joined with hs₂ | hlt₂
    · exact Or.inr (classCount_eq_of_skeleton hs₂ ▸ hlt₁)
    · exact Or.inr (hlt₂.trans hlt₁)

/-- If two steps together join no classes then the first alone joins none. -/
theorem Advances.skeleton_of_trans {vs₁ vs₂ : TypeVars} (h₁ : vs.Advances vs₁)
    (h₂ : vs₁.Advances vs₂) (hs : vs₂.skeleton = vs.skeleton) : vs₁.skeleton = vs.skeleton := by
  rcases h₁.joined with hs₁ | hlt₁
  · exact hs₁
  · have hcount := classCount_eq_of_skeleton hs
    rcases h₂.joined with hs₂ | hlt₂
    · rw [classCount_eq_of_skeleton hs₂] at hcount
      omega
    · omega

/-- A link that involves a variable that is not there does nothing. -/
theorem link_outside (h : ¬(root < vs.size ∧ child < vs.size)) : vs.link root child = vs := by
  rw [not_and_or, Nat.not_lt, Nat.not_lt] at h
  unfold TypeVars.link
  rcases h with hr | hc
  · rw [Array.getElem?_eq_none hr]
  · rw [Array.getElem?_eq_none hc]
    cases vs.entries[root]? <;> rfl

/-- A link of two roots, the first of no lower rank, joins classes if both are there. -/
theorem WellFormed.advances_link (h : vs.WellFormed) (hne : root ≠ child)
    (hroot : vs.parent root = root) (hchild : vs.parent child = child)
    (hrank : vs.rank child ≤ vs.rank root) : vs.Advances (vs.link root child) := by
  by_cases hin : root < vs.size ∧ child < vs.size
  · refine ⟨h.link hin.1 hin.2 hne hroot hchild hrank, vs.size_link root child, Or.inr ?_⟩
    have hcount := classCount_link hin.1 hin.2 hne hchild
    omega
  · rw [link_outside hin]
    exact .refl h

theorem WellFormed.advances_union (h : vs.WellFormed) (a b : TypeVar) :
    vs.Advances (vs.union a b) := by
  unfold union
  dsimp only
  split
  · exact .refl h
  next hne =>
    split
    next hle => exact h.advances_link hne (h.parent_root a) (h.parent_root b) hle
    next hlt => exact h.advances_link (Ne.symm hne) (h.parent_root b) (h.parent_root a) (by omega)

/-! ### Steps of the solver -/

theorem untyped_of_isPending {v : TypeVar} (h : vs.isPending v = true) : vs.type? v = none := by
  simpa using (Bool.and_eq_true_iff.1 h).2

/-- Two variables are joined only if one of them is free. -/
theorem equate_cases (vs : TypeVars) (a b : TypeVar) :
    vs.equate a b = (vs, false) ∨ vs.equate a b = (vs.union a b, true) ∧
      vs.root a ≠ vs.root b ∧ (vs.isFree a = true ∨ vs.isFree b = true) := by
  unfold equate
  split
  · exact Or.inl rfl
  next hsame =>
    have hroots : vs.root a ≠ vs.root b := by simpa [same] using hsame
    cases vs.isFree a <;> cases vs.isFree b <;> dsimp only
    · exact Or.inl rfl
    · split
      · exact Or.inl rfl
      · exact Or.inr ⟨rfl, hroots, Or.inr rfl⟩
    · split
      · exact Or.inl rfl
      · exact Or.inr ⟨rfl, hroots, Or.inl rfl⟩
    · exact Or.inr ⟨rfl, hroots, Or.inl rfl⟩

theorem skeleton_setSome (v : TypeVar) (t : Option SqlType) :
    (vs.setSome v t).1.skeleton = vs.skeleton := by
  cases t with
  | none => rfl
  | some t => exact vs.skeleton_set v t

/-- A step forward sets types, or joins the two sides of an equation. -/
theorem forwardStep_cases (vs : TypeVars) (c : Constraint) :
    (vs.forwardStep c).1.skeleton = vs.skeleton ∨
      ∃ a b, c = .equal a b ∧ (vs.forwardStep c).1 = vs.union a b ∧
        vs.root a ≠ vs.root b ∧ (vs.isFree a = true ∨ vs.isFree b = true) := by
  cases c with
  | equal a b =>
    rw [forwardStep]
    rcases vs.equate_cases a b with heq | ⟨heq, hjoin⟩ <;> rw [heq]
    · exact Or.inl rfl
    · exact Or.inr ⟨a, b, rfl, rfl, hjoin⟩
  | derive | widen => exact Or.inl (skeleton_setSome _ _)
  | fix | expect | hint => exact Or.inl rfl

theorem WellFormed.advances_forwardStep (h : vs.WellFormed) (c : Constraint) :
    vs.Advances (vs.forwardStep c).1 := by
  rcases vs.forwardStep_cases c with hs | ⟨a, b, -, heq, -⟩
  · exact .of_skeleton h hs
  · rw [heq]
    exact h.advances_union a b

/-- Going back gives a type that says something to variables of the constraint that have none. -/
theorem exists_setAll_backwardStep (vs : TypeVars) (c : Constraint) :
    ∃ (t : SqlType) (vars : List TypeVar), t.isInformative = true ∧
      (∀ v ∈ vars, v ∈ c.vars ∧ vs.type? v = none) ∧
      (vs.backwardStep c).1 = (vs.setAll t vars).1 := by
  have hstill : ∃ (t : SqlType) (vars : List TypeVar), t.isInformative = true ∧
      (∀ v ∈ vars, v ∈ c.vars ∧ vs.type? v = none) ∧ vs = (vs.setAll t vars).1 :=
    ⟨.int, [], rfl, nofun, rfl⟩
  have hflow : ∀ target args, (∀ v ∈ args, v ∈ c.vars) →
      ∃ (t : SqlType) (vars : List TypeVar), t.isInformative = true ∧
        (∀ v ∈ vars, v ∈ c.vars ∧ vs.type? v = none) ∧
        (vs.flowBack target args).1 = (vs.setAll t vars).1 := by
    intro target args hargs
    unfold flowBack
    split
    · split
      next hinformative =>
        refine ⟨_, _, hinformative, fun v hv => ?_, rfl⟩
        obtain ⟨hmem, hpending⟩ := List.mem_filter.1 hv
        exact ⟨hargs v hmem, untyped_of_isPending hpending⟩
      next => exact hstill
    · exact hstill
  cases c with
  | widen target args => exact hflow _ _ fun _ hv => List.mem_cons_of_mem _ hv
  | derive target rule args =>
    refine hflow _ _ fun v hv => List.mem_cons_of_mem _ ?_
    cases rule with
    | sum => cases hv
    | sameAs position => exact List.mem_of_getElem? (Option.mem_toList.1 hv)
    | arithmetic | division | promote => exact hv
  | hint v source =>
    simp only [backwardStep]
    split
    next hnone _ =>
      split
      next hinformative =>
        refine ⟨_, [v], hinformative, fun w hw => ?_, rfl⟩
        rw [List.mem_singleton.1 hw]
        exact ⟨List.mem_cons_self, hnone⟩
      next => exact hstill
    next => exact hstill
  | fix | equal | expect => exact hstill

theorem exists_setAll_expectationStep (vs : TypeVars) (c : Constraint) :
    ∃ (t : SqlType) (vars : List TypeVar), t.isInformative = true ∧
      (∀ v ∈ vars, v ∈ c.vars ∧ vs.type? v = none) ∧
      (vs.expectationStep c).1 = (vs.setAll t vars).1 := by
  cases c with
  | expect v t =>
    simp only [expectationStep]
    split
    next hboth =>
      obtain ⟨hpending, hinformative⟩ := Bool.and_eq_true_iff.1 hboth
      refine ⟨t, [v], hinformative, fun w hw => ?_, rfl⟩
      rw [List.mem_singleton.1 hw]
      exact ⟨List.mem_cons_self, untyped_of_isPending hpending⟩
    next => exact ⟨.int, [], rfl, nofun, rfl⟩
  | fix | equal | derive | widen | hint => exact ⟨.int, [], rfl, nofun, rfl⟩

theorem skeleton_backwardStep (vs : TypeVars) (c : Constraint) :
    (vs.backwardStep c).1.skeleton = vs.skeleton := by
  obtain ⟨t, vars, -, -, heq⟩ := vs.exists_setAll_backwardStep c
  rw [heq, skeleton_setAll]

theorem skeleton_expectationStep (vs : TypeVars) (c : Constraint) :
    (vs.expectationStep c).1.skeleton = vs.skeleton := by
  obtain ⟨t, vars, -, -, heq⟩ := vs.exists_setAll_expectationStep c
  rw [heq, skeleton_setAll]

theorem skeleton_fixStep (vs : TypeVars) (c : Constraint) :
    (vs.fixStep c).1.skeleton = vs.skeleton := by
  cases c with
  | fix v t => exact vs.skeleton_set _ _
  | expect | equal | derive | widen | hint => rfl

/-! ### Passes -/

section

variable {step : TypeVars → Constraint → TypeVars × Bool}

/-- The flag that a fold starts with is only added to what the fold finds. -/
theorem foldl_flag {σ α : Type} {step : σ → α → σ × Bool} {next : σ × Bool → α → σ × Bool}
    (hnext : ∀ s b a, next (s, b) a = ((step s a).1, b || (step s a).2)) (as : List α) (s : σ)
    (b : Bool) : as.foldl next (s, b) =
      ((as.foldl next (s, false)).1, b || (as.foldl next (s, false)).2) := by
  induction as generalizing s b with
  | nil => simp
  | cons a as ih =>
    rw [List.foldl_cons, List.foldl_cons, hnext, hnext, ih, ih _ (false || _)]
    simp [Bool.or_assoc]

theorem pass_cons (step : TypeVars → Constraint → TypeVars × Bool) (c : Constraint)
    (rest : List Constraint) (vs : TypeVars) :
    pass step (c :: rest) vs =
      ((pass step rest (step vs c).1).1, (step vs c).2 || (pass step rest (step vs c).1).2) :=
  foldl_flag (fun _ _ _ => rfl) rest (step vs c).1 (false || (step vs c).2)

/-- What the steps keep of the constraints that were met, a pass keeps of all. -/
theorem pass_meets {I : List Constraint → TypeVars → Prop} {cs m : List Constraint}
    (hstep : ∀ c ∈ cs, ∀ met vs, I met vs → I (met ++ [c]) (step vs c).1) (hvs : I m vs) :
    I (m ++ cs) (pass step cs vs).1 := by
  induction cs generalizing m vs with
  | nil => rwa [List.append_nil]
  | cons c rest ih =>
    obtain ⟨hc, hrest⟩ := List.forall_mem_cons.1 hstep
    rw [pass_cons, List.append_cons]
    exact ih hrest (hc m vs hvs)

theorem pass_keeps {I : TypeVars → Prop} {cs : List Constraint}
    (hstep : ∀ c ∈ cs, ∀ vs, I vs → I (step vs c).1) (hvs : I vs) : I (pass step cs vs).1 :=
  pass_meets (I := fun _ vs => I vs) (m := []) (fun c hc _ => hstep c hc) hvs

theorem pass_advances (hstep : ∀ (vs : TypeVars) c, vs.WellFormed → vs.Advances (step vs c).1)
    (cs : List Constraint) (h : vs.WellFormed) : vs.Advances (pass step cs vs).1 :=
  pass_keeps (fun c _ next hnext => hnext.trans (hstep next c hnext.wellFormed)) (.refl h)

theorem pass_skeleton (hstep : ∀ (vs : TypeVars) c, (step vs c).1.skeleton = vs.skeleton)
    (cs : List Constraint) (vs : TypeVars) : (pass step cs vs).1.skeleton = vs.skeleton :=
  pass_keeps (I := fun next => next.skeleton = vs.skeleton)
    (fun c _ next hnext => (hstep next c).trans hnext) rfl

/-- A pass that tells no change has made none, if that is so for its steps. -/
theorem pass_unchanged (hstep : ∀ (vs : TypeVars) c, (step vs c).2 = false → (step vs c).1 = vs) :
    ∀ (cs : List Constraint) {vs : TypeVars}, (pass step cs vs).2 = false →
      (pass step cs vs).1 = vs
  | [], _, _ => rfl
  | c :: rest, vs, h => by
    rw [pass_cons, Bool.or_eq_false_iff] at h
    rw [pass_cons]
    have hsame := hstep vs c h.1
    rw [hsame] at h ⊢
    exact pass_unchanged hstep rest h.2

end

theorem set_still_iff {v : TypeVar} {t : SqlType} :
    (vs.set v t).2 = false ↔ vs.type? v = some t := by
  unfold set
  split <;> simp [*]

theorem setSome_still_iff {v : TypeVar} {t : Option SqlType} :
    (vs.setSome v t).2 = false ↔ ∀ u, t = some u → vs.type? v = some u := by
  cases t with
  | none => simp [setSome]
  | some t => simp [setSome, set_still_iff]

theorem set_unchanged {v : TypeVar} {t : SqlType} (h : (vs.set v t).2 = false) :
    (vs.set v t).1 = vs := by
  rw [set, if_pos (set_still_iff.1 h)]

theorem forwardStep_unchanged (vs : TypeVars) (c : Constraint)
    (h : (vs.forwardStep c).2 = false) : (vs.forwardStep c).1 = vs := by
  have hsetSome : ∀ v t, (vs.setSome v t).2 = false → (vs.setSome v t).1 = vs := by
    intro v t h
    cases t with
    | none => rfl
    | some t => exact set_unchanged h
  cases c with
  | equal a b =>
    rw [forwardStep] at h ⊢
    rcases vs.equate_cases a b with heq | ⟨heq, -⟩
    · rw [heq]
    · rw [heq] at h
      contradiction
  | derive target rule args => exact hsetSome _ _ h
  | widen target args => exact hsetSome _ _ h
  | fix | expect | hint => rfl

theorem WellFormed.advances_forward (h : vs.WellFormed) (cs : List Constraint) :
    vs.Advances (vs.forward cs).1 :=
  pass_advances (fun _ c hvs => hvs.advances_forwardStep c) cs h

theorem forward_unchanged {cs : List Constraint} (h : (vs.forward cs).2 = false) :
    (vs.forward cs).1 = vs :=
  pass_unchanged forwardStep_unchanged cs h

theorem skeleton_backward (cs : List Constraint) (vs : TypeVars) :
    (vs.backward cs).1.skeleton = vs.skeleton := by
  unfold backward
  dsimp only
  split
  · exact pass_skeleton skeleton_backwardStep cs vs
  · exact (pass_skeleton skeleton_expectationStep cs _).trans
      (pass_skeleton skeleton_backwardStep cs vs)

/-! ### New variables -/

/-- Every variable is in a class of its own that has no type. -/
def Fresh (vs : TypeVars) : Prop :=
  ∀ i < vs.size, ∃ free, vs.entries[i]? = some ⟨i, 0, free, none⟩

theorem fresh_empty : empty.Fresh := by
  intro i hi
  exact absurd hi (Nat.not_lt_zero i)

theorem Fresh.fresh (h : vs.Fresh) (free : Bool) : (vs.fresh free).2.Fresh := by
  intro i hi
  simp only [TypeVars.fresh, TypeVars.size, Array.size_push] at hi ⊢
  by_cases hlast : i = vs.entries.size
  · subst hlast
    exact ⟨free, by simp⟩
  · have hlt : i < vs.entries.size := by omega
    obtain ⟨free', hentry⟩ := h i hlt
    exact ⟨free', by rw [Array.getElem?_push_lt hlt, ← Array.getElem?_eq_getElem hlt, hentry]⟩

theorem Fresh.parent_eq (h : vs.Fresh) (i : Nat) : vs.parent i = i := by
  by_cases hi : i < vs.size
  · obtain ⟨free, hentry⟩ := h i hi
    rw [parent, hentry]
    rfl
  · exact parent_of_size_le (Nat.not_lt.mp hi)

theorem Fresh.wellFormed (h : vs.Fresh) : vs.WellFormed := by
  refine ⟨fun i hi => by rwa [h.parent_eq], fun i _ hne => absurd (h.parent_eq i) hne,
    fun i hi => ?_⟩
  obtain ⟨free, hentry⟩ := h i hi
  have hrank : vs.rank i = 0 := by
    rw [rank, hentry]
    rfl
  rw [hrank, Nat.zero_add]
  exact vs.classCount_le

end TypeVars

end SqlSignature
